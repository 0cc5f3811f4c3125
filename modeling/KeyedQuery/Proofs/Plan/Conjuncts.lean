import KeyedQuery.Proofs.Expression.FragmentText
import KeyedQuery.Proofs.Plan.Issued

/-!
# Conjuncts of fragments

Fragments are translated on tables that are also used for other things: for names on
their own, and for conditions that have no fragment.  Whatever the tables went through,
a fragment is read as one conjunct, and so a conjunction of fragments is read as the
conjunction of what each fragment alone is read as.  The `AND` of a range and the `OR`
of a group are inside the conjunct.
-/

namespace KeyedQuery

/-- A use of the tables: a name on its own, or the translation of a condition or a group. -/
inductive Demand where
  | issue (call : Call)
  | condition (position : Position) (name : String) (condition : Condition)
  | group (entries : List (String × Value))

/-- The entry of a where clause that a demand is for. -/
def Demand.clause? : Demand → Option Clause
  | .issue _ => none
  | .condition _ name c => some (.on name c)
  | .group entries => some (.anyOf entries)

namespace Bindings

/-- Serve a demand.  There is a fragment when a translation succeeds. -/
def serve (b : Bindings) : Demand → Option Fragment × Bindings
  | .issue call => (none, (b.issue call).2)
  | .condition position name c =>
      let (result, b) := b.translate position name c
      (result.toOption, b)
  | .group entries =>
      let (result, b) := b.translateAnyOf entries
      (result.toOption, b)

/-- The fragments of demands that are served one after the other. -/
def serveAll (b : Bindings) (demands : List Demand) : List Fragment :=
  (runAll serve b demands).1.filterMap Prod.snd

variable {b b' : Bindings}

/-- A condition without a fragment leaves the alias of its attribute behind. -/
theorem translate_error {position : Position} {name : String} {c : Condition}
    {fault : TranslationFault} (h : b.translate position name c = (.error fault, b')) :
    b' = (b.aliasFor name).2 := by
  cases c with
  | equals value => cases h
  | compare op value => cases h
  | between low high => cases h
  | isIn values =>
      unfold translate at h
      dsimp only at h
      split at h
      · cases h
        rfl
      · split at h
        · cases h
          rfl
        · cases h

theorem translateAnyOf_error {entries : List (String × Value)} {fault : TranslationFault}
    (h : b.translateAnyOf entries = (.error fault, b')) : b' = b := by
  unfold translateAnyOf at h
  split at h
  · cases h
    rfl
  · cases h

/-- A fragment, if there is one, renders the entry that was demanded. -/
def Serves (b : Bindings) (demand : Demand) (fragment? : Option Fragment) : Prop :=
  ∀ f ∈ fragment?, ∃ clause ∈ demand.clause?, Renders b clause f

theorem Serves.mono {demand : Demand} {fragment? : Option Fragment}
    (h : b.Serves demand fragment?) (hsub : b ⊆ b') : b'.Serves demand fragment? := by
  intro f hf
  obtain ⟨clause, hclause, hrenders⟩ := h f hf
  exact ⟨clause, hclause, hrenders.mono hsub⟩

theorem serves_none {demand : Demand} : b.Serves demand none := by
  simp [Serves]

theorem serves_some {demand : Demand} {clause : Clause} {f : Fragment}
    (hclause : demand.clause? = some clause) (h : Renders b clause f) :
    b.Serves demand (some f) := by
  rintro g ⟨⟩
  exact ⟨clause, hclause, h⟩

/-- Whether or not there is a fragment, what was assigned stays assigned. -/
theorem serve_spec {demand : Demand} {fragment? : Option Fragment} (hb : b.AliasesMarked)
    (h : b.serve demand = (fragment?, b')) :
    b ⊆ b' ∧ b'.AliasesMarked ∧ b'.Serves demand fragment? := by
  cases demand with
  | issue call =>
      cases h
      obtain ⟨hsub, hmarked, _⟩ := issue_spec hb rfl
      exact ⟨hsub, hmarked, serves_none⟩
  | condition position name c =>
      rcases hresult : b.translate position name c with ⟨result, b₁⟩
      simp only [serve, hresult] at h
      cases h
      cases result with
      | ok f =>
          obtain ⟨hsub, hmarked, hrenders, _⟩ := translate_spec hb hresult
          exact ⟨hsub, hmarked, serves_some rfl hrenders⟩
      | error fault =>
          have halias : b.aliasFor name = ((b.aliasFor name).1, b') := by
            rw [translate_error hresult]
          obtain ⟨hsub, hmarked, _⟩ := names_of_aliasFor hb halias
          exact ⟨hsub, hmarked, serves_none⟩
  | group entries =>
      rcases hresult : b.translateAnyOf entries with ⟨result, b₁⟩
      simp only [serve, hresult] at h
      cases h
      cases result with
      | ok f =>
          have hclause : b.translateClause (.anyOf entries) = (.ok f, b') := hresult
          obtain ⟨hsub, hmarked, hrenders⟩ := translateClause_spec hb hclause
          exact ⟨hsub, hmarked, serves_some rfl hrenders⟩
      | error fault =>
          rw [translateAnyOf_error hresult]
          exact ⟨subset_refl b, hb, serves_none⟩

/-- Every fragment that was given renders what was demanded, under the tables at the end. -/
theorem renders_of_serveAll {demands : List Demand} {f : Fragment}
    (h : f ∈ empty.serveAll demands) :
    ∃ clause ∈ demands.filterMap Demand.clause?,
      Renders (runAll serve empty demands).2 clause f := by
  rcases hall : runAll serve empty demands with ⟨answers, b⟩
  obtain ⟨_, _, hserves⟩ := runAll_spec Serves Serves.mono serve_spec aliasesMarked_empty hall
  unfold serveAll at h
  rw [hall] at h
  obtain ⟨⟨demand, fragment?⟩, hanswer, hgiven⟩ := List.mem_filterMap.mp h
  obtain ⟨clause, hclause, hrenders⟩ := hserves _ hanswer f hgiven
  have hdemand : demand ∈ demands := by
    rw [← map_fst_runAll serve empty demands, hall]
    exact List.mem_map_of_mem hanswer
  exact ⟨clause, List.mem_filterMap.mpr ⟨demand, hdemand, hclause⟩, hrenders⟩

end Bindings

namespace Fragment

/-- The text of a fragment alone is read as the expression of the fragment. -/
theorem parse_text {f : Fragment} (h : f.Spelled) : Expr.parse f.text = .ok f.expr := by
  have hall : ∀ g ∈ [f], g.Spelled := by
    intro g hg
    rwa [List.mem_singleton.mp hg]
  obtain ⟨text, htext, hparse⟩ := parse_conjunction hall
  have hsingle : conjunction [f] = some f.text := by
    simp [conjunction]
  rw [hsingle] at htext
  rw [Option.some.inj htext]
  exact hparse

/--
Fragments of one pair of tables, in any order and any number of times, are read as
conjuncts: each text alone as one conjunct, and the conjunction of the texts as the
conjunction of these, joined to the left.
-/
theorem parse_conjunction_of_served {demands : List Demand} {first : Fragment}
    {others : List Fragment}
    (h : ∀ f ∈ first :: others, f ∈ Bindings.empty.serveAll demands) :
    (∀ f ∈ first :: others, Expr.parse f.text = .ok f.expr ∧ f.expr.conjuncts = [f.expr]) ∧
      ∃ text e, conjunction (first :: others) = some text ∧ Expr.parse text = .ok e ∧
        e = (others.map expr).foldl .and first.expr ∧
        e.conjuncts = (first :: others).map expr := by
  have hspelled : ∀ f ∈ first :: others, f.Spelled := by
    intro f hf
    obtain ⟨clause, _, hrenders⟩ := Bindings.renders_of_serveAll (h f hf)
    exact hrenders.spelled
  obtain ⟨text, htext, hparse⟩ := parse_conjunction hspelled
  refine ⟨fun f hf => ⟨parse_text (hspelled f hf), conjuncts_expr f⟩, text, _, htext, hparse,
    ?_, conjuncts_conjunctionExpr first others⟩
  rw [List.foldl_map]
  rfl

/-- A range, two conditions without a fragment, a group of one entry, a name and a membership. -/
def mixedDemands : List Demand :=
  [.condition .key "day" (.between (.int 1) (.int 5)), .condition .key "data" (.isIn [.null]),
    .condition .filter "id" (.isIn []), .group [("day", .int 3)], .issue (.aliasFor "DA"),
    .condition .filter "and" (.isIn [.int 7, .null])]

theorem parse_conjunction_of_served_mixed :
    ∃ e, Expr.parse
        "(#D = :day) AND #D BETWEEN :day_start AND :day_end AND #A IN (:and_0, :and_1)" = .ok e ∧
      e.conjuncts = [.compare (.path "#D") .eq (.value ":day"),
        .between (.path "#D") (.value ":day_start") (.value ":day_end"),
        .isIn (.path "#A") [.value ":and_0", .value ":and_1"]] := by
  have hserved : ∀ f ∈ [.anyOf [("#D", ":day")], .between "#D" ":day_start" ":day_end",
      .isIn "#A" [":and_0", ":and_1"]], f ∈ Bindings.empty.serveAll mixedDemands := by
    decide +kernel
  obtain ⟨_, text, e, htext, hparse, _, hconjuncts⟩ := parse_conjunction_of_served hserved
  cases htext
  exact ⟨e, hparse, hconjuncts⟩

end Fragment

end KeyedQuery
