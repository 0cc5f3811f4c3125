import KeyedQuery.Plan
import KeyedQuery.Proofs.Expression.Translation
import KeyedQuery.Proofs.Where.Build

/-!
# What a plan says

A plan holds two conjunctions of fragments under one pair of tables.  Each
fragment renders one entry of the coerced clause, the key condition those on the
key attributes and the filter all others, so the two texts together say of a
record what the coerced clause says.
-/

namespace KeyedQuery

/-- An entry that may stand in a key condition: a condition, but no membership. -/
def Clause.fitsKey : Clause → Bool
  | .on _ condition => !condition.isMembership
  | .anyOf _ => false

namespace Bindings

/-- What an expression text says of a record; where there is no text, every record passes. -/
def evalText (b : Bindings) (r : Record) : Option String → Except ExpressionError Bool
  | none => .ok true
  | some text => do
      let e ← Expr.parse text
      b.eval r e

/-! ## Conjunctions of fragments -/

theorem spelled_of_forall₂ {b : Bindings} {clauses : List Clause} {fragments : List Fragment}
    (h : List.Forall₂ (Renders b) clauses fragments) : ∀ f ∈ fragments, f.Spelled := by
  intro f hf
  obtain ⟨clause, _, hrenders⟩ := exists_of_mem_forall₂ h.flip hf
  exact Renders.spelled hrenders

/-- The text of a conjunction says that every rendered entry holds. -/
theorem evalText_conjunction {b : Bindings} {clauses : List Clause}
    {fragments : List Fragment} (h : List.Forall₂ (Renders b) clauses fragments) (r : Record) :
    b.evalText r (Fragment.conjunction fragments) =
      .ok (clauses.all fun clause => clause.holds r) := by
  have hspelled := spelled_of_forall₂ h
  cases h with
  | nil => rfl
  | cons hfirst hrest =>
      obtain ⟨text, htext, hparse⟩ := Fragment.parse_conjunction hspelled
      rw [htext]
      simp only [evalText, hparse, ok_bind]
      exact eval_foldl_and (hrest.flip.imp fun _ _ h => Renders.eval_expr h r)
        (hfirst.eval_expr r)

/-! ## Translating a clause -/

theorem translateKeys_spec {b b' : Bindings} {w : WhereClause} {names : List String}
    {fragments : List Fragment} (hb : b.AliasesMarked)
    (h : b.translateKeys w names = .ok (fragments, b')) :
    b ⊆ b' ∧ b'.AliasesMarked ∧
      List.Forall₂ (fun clause f => Renders b' clause f ∧ clause.fitsKey = true)
        (w.conditionsOn names) fragments := by
  induction names generalizing b fragments with
  | nil =>
      cases h
      exact ⟨subset_refl _, hb, .nil⟩
  | cons name names ih =>
      unfold translateKeys at h
      unfold WhereClause.conditionsOn
      cases hget : w.get? name with
      | none =>
          rw [hget] at h
          rw [List.filterMap_cons, hget]
          exact ih hb h
      | some condition =>
          rw [hget] at h
          rcases hfirst : b.translate .key name condition with ⟨result, b₁⟩
          simp only [hfirst] at h
          cases result with
          | error fault => cases h
          | ok f =>
              obtain ⟨⟨others, b₂⟩, hrest, hpair⟩ := bind_eq_ok_iff.mp h
              cases hpair
              obtain ⟨hsub₁, hmarked₁, hrenders, hkey⟩ := translate_spec hb hfirst
              obtain ⟨hsub₂, hmarked₂, hothers⟩ := ih hmarked₁ hrest
              rw [List.filterMap_cons, hget]
              refine ⟨subset_trans hsub₁ hsub₂, hmarked₂, .cons ⟨hrenders.mono hsub₂, ?_⟩ hothers⟩
              simp [Clause.fitsKey, hkey rfl]

theorem translateFilters_spec {b b' : Bindings} {clauses : List Clause}
    {fragments : List Fragment} (hb : b.AliasesMarked)
    (h : b.translateFilters clauses = .ok (fragments, b')) :
    b ⊆ b' ∧ b'.AliasesMarked ∧ List.Forall₂ (Renders b') clauses fragments := by
  induction clauses generalizing b fragments with
  | nil =>
      cases h
      exact ⟨subset_refl _, hb, .nil⟩
  | cons clause clauses ih =>
      unfold translateFilters at h
      rcases hfirst : b.translateClause clause with ⟨result, b₁⟩
      simp only [hfirst] at h
      cases result with
      | error fault => cases h
      | ok f =>
          obtain ⟨⟨others, b₂⟩, hrest, hpair⟩ := bind_eq_ok_iff.mp h
          cases hpair
          obtain ⟨hsub₁, hmarked₁, hrenders⟩ := translateClause_spec hb hfirst
          obtain ⟨hsub₂, hmarked₂, hothers⟩ := ih hmarked₁ hrest
          exact ⟨subset_trans hsub₁ hsub₂, hmarked₂, .cons (hrenders.mono hsub₂) hothers⟩

end Bindings

/-! ## Plans -/

/-- The plan reads the table of the model and renders a clause, split at its key attributes. -/
structure Plan.Of (p : Plan) (m : Model) (w : WhereClause) : Prop where
  table : p.table = m.tableName
  classification : p.classification = m.schema.classify w
  keyConditions :
    List.Forall₂ (fun clause f => Renders p.bindings clause f ∧ clause.fitsKey = true)
      (w.conditionsOn (m.schema.keyAttributes p.classification)) p.keyConditions
  filters :
    List.Forall₂ (Renders p.bindings)
      (w.clauses.filter fun clause =>
        !clause.isOnOneOf (m.schema.keyAttributes p.classification)) p.filters

namespace Model

theorem of_translate {m : Model} {w : WhereClause} {p : Plan} (h : m.translate w = .ok p) :
    p.Of m w := by
  unfold translate at h
  obtain ⟨⟨keyConditions, b₁⟩, hkeys, h⟩ := bind_eq_ok_iff.mp h
  obtain ⟨⟨filters, b₂⟩, hfilters, h⟩ := bind_eq_ok_iff.mp h
  cases h
  obtain ⟨_, hmarked, hkeyRenders⟩ :=
    Bindings.translateKeys_spec Bindings.aliasesMarked_empty hkeys
  obtain ⟨hsub, _, hfilterRenders⟩ := Bindings.translateFilters_spec hmarked hfilters
  exact ⟨rfl, rfl, hkeyRenders.imp fun _ _ h => ⟨h.1.mono hsub, h.2⟩, hfilterRenders⟩

/-- A plan is the translation of the coerced clause. -/
theorem exists_translate_of_plan {m : Model} {w : WhereClause} {p : Plan}
    (h : m.plan w = .ok p) :
    ∃ coerced, m.schema.coerceWhere w = .ok coerced ∧ m.translate coerced = .ok p := by
  unfold plan at h
  split at h
  · cases h
  · split at h
    · cases h
    · rename_i coerced hcoerced
      split at h
      · cases h
      · rename_i translated htranslated
        cases h
        exact ⟨coerced, hcoerced, htranslated⟩

/-- A plan renders the coerced clause, in which every attribute has one condition. -/
theorem of_plan {m : Model} {w : WhereClause} {p : Plan} (h : m.plan w = .ok p) :
    ∃ coerced, m.schema.coerceWhere w = .ok coerced ∧ coerced.Distinct ∧ p.Of m coerced := by
  obtain ⟨coerced, hcoerced, htranslate⟩ := exists_translate_of_plan h
  exact ⟨coerced, hcoerced, KeySchema.distinct_coerceWhere hcoerced, of_translate htranslate⟩

end Model

namespace Plan.Of

variable {p : Plan} {m : Model} {w : WhereClause}

theorem evalText_keyCondition (h : p.Of m w) (r : Record) :
    p.bindings.evalText r p.keyCondition =
      .ok ((w.conditionsOn (m.schema.keyAttributes p.classification)).all
        fun clause => clause.holds r) :=
  Bindings.evalText_conjunction (h.keyConditions.imp fun _ _ h => h.1) r

theorem evalText_filter (h : p.Of m w) (r : Record) :
    p.bindings.evalText r p.filter =
      .ok ((w.clauses.filter fun clause =>
        !clause.isOnOneOf (m.schema.keyAttributes p.classification)).all
          fun clause => clause.holds r) :=
  Bindings.evalText_conjunction h.filters r

end Plan.Of

/--
The two texts of a plan are read and evaluated without an error on every record,
and together they say what the coerced clause says of the record directly.
-/
theorem Model.plan_meaning {m : Model} {w : WhereClause} {p : Plan} (h : m.plan w = .ok p) :
    ∃ coerced, m.schema.coerceWhere w = .ok coerced ∧
      ∀ r, ∃ keyHolds filterHolds,
        p.bindings.evalText r p.keyCondition = .ok keyHolds ∧
        p.bindings.evalText r p.filter = .ok filterHolds ∧
        (keyHolds = true ∧ filterHolds = true ↔ coerced.holds r = true) := by
  obtain ⟨coerced, hcoerced, hdistinct, hof⟩ := of_plan h
  refine ⟨coerced, hcoerced, fun r => ⟨_, _, hof.evalText_keyCondition r, hof.evalText_filter r, ?_⟩⟩
  rw [hdistinct.holds_eq (m.schema.keyAttributes p.classification) r, Bool.and_eq_true]

/-- A model whose key attributes have awkward names. -/
def Model.awkward : Model :=
  let schema := (KeySchema.ofHashKey "\u00fc key" .string).withSortKey "#n" .number
  ⟨"awkward", none, schema.withLocalIndex "" .string⟩

/-- A clause over names that are marked, differ by case only, or end as a placeholder does. -/
def WhereClause.awkward : WhereClause :=
  let w := WhereClause.empty.set "\u00fc key" (.equals (.string "x"))
  let w := w.set "#n_start" (.compare .lt (.int 3))
  let w := w.set "#n" (.between (.int 1) (.int 5))
  let w := w.set ":a" (.isIn [.string "p", .string "q"])
  w.addAnyOf [("#N", .int 1), ("", .int 2)]

theorem Model.plan_meaning_awkward :
    ∃ p coerced, awkward.plan .awkward = .ok p ∧
      awkward.schema.coerceWhere .awkward = .ok coerced ∧
      ∀ r, ∃ keyHolds filterHolds,
        p.bindings.evalText r p.keyCondition = .ok keyHolds ∧
        p.bindings.evalText r p.filter = .ok filterHolds ∧
        (keyHolds = true ∧ filterHolds = true ↔ coerced.holds r = true) := by
  have hok : (awkward.plan .awkward).isOk = true := by decide +kernel
  obtain ⟨p, hp⟩ := exists_of_isOk hok
  obtain ⟨coerced, hmeaning⟩ := plan_meaning hp
  exact ⟨p, coerced, hp, hmeaning⟩

end KeyedQuery
