import KeyedQuery.Proofs.Expression.Operators
import KeyedQuery.Proofs.Plan.Keys
import KeyedQuery.Proofs.Store.Page
import KeyedQuery.Read.Paging

/-!
# Planned requests are accepted

The planner and the store decide apart from each other what a valid request is.
They agree for every valid schema: the store knows the index that the planner
chose, accepts the key condition for its keys, reads both texts, and resolves
every alias and every placeholder in them.
-/

namespace KeyedQuery

/-! ## Key conditions -/

namespace KeyNames

variable {k : KeyNames} {b : Bindings} {f : Fragment}

theorem checkPart_hash {value : Value} (h : Renders b (.on k.hash (.equals value)) f)
    (sort : Bool) : k.checkPart b ⟨false, sort⟩ f.expr = .ok ⟨true, sort⟩ := by
  cases h with
  | equals hpath hvalue =>
      simp [Fragment.expr, checkPart, testedName, Bindings.attributeName_of_names hpath]

theorem checkPart_sort {name : String} {c : Condition} (h : Renders b (.on name c) f)
    (hmembership : c.isMembership = false) (hsort : k.sort = some name) (hne : name ≠ k.hash)
    (hash : Bool) : k.checkPart b ⟨hash, false⟩ f.expr = .ok ⟨hash, true⟩ := by
  cases h with
  | equals hpath hvalue =>
      simp [Fragment.expr, checkPart, testedName, Bindings.attributeName_of_names hpath, hsort,
        hne]
  | compare hpath hvalue =>
      simp [Fragment.expr, checkPart, testedName, Bindings.attributeName_of_names hpath, hsort]
  | between hpath hlow hhigh =>
      simp [Fragment.expr, checkPart, testedName, Bindings.attributeName_of_names hpath, hsort]
  | isIn hpath hvalues => cases hmembership

/-- A hash equality alone, or with one condition on the sort attribute, is a key condition. -/
theorem check_of_keys {value : Value} {first : Fragment} {others : List Fragment}
    (hfirst : Renders b (.on k.hash (.equals value)) first)
    (hothers : others = [] ∨
      ∃ name c f, others = [f] ∧ Renders b (.on name c) f ∧ c.isMembership = false ∧
        k.sort = some name ∧ name ≠ k.hash) :
    k.check b (Fragment.conjunctionExpr first others) = .ok () := by
  unfold check
  rw [Fragment.conjuncts_conjunctionExpr, List.map_cons, List.foldlM_cons,
    checkPart_hash hfirst, ok_bind]
  rcases hothers with rfl | ⟨name, c, f, rfl, hf, hmembership, hsort, hne⟩
  · rfl
  · rw [List.map_cons, List.foldlM_cons, checkPart_sort hf hmembership hsort hne, ok_bind]
    rfl

end KeyNames

/-! ## Operands -/

namespace Bindings

variable {b : Bindings}

theorem resolves_compare {name path placeholder : String} {op : Comparator} {value : Value}
    (hpath : b.Names path name) (hvalue : b.Holds placeholder value) :
    b.Resolves (.compare (.path path) op (.value placeholder)) := by
  intro operand hoperand r
  rcases List.mem_cons.mp hoperand with rfl | hoperand
  · exact ⟨_, resolve_path hpath r⟩
  · rw [List.mem_singleton.mp hoperand]
    exact ⟨_, resolve_value hvalue r⟩

theorem Resolves.or {left right : Expr} (hleft : b.Resolves left) (hright : b.Resolves right) :
    b.Resolves (.or left right) := by
  intro operand hoperand
  rcases List.mem_append.mp hoperand with hoperand | hoperand
  · exact hleft operand hoperand
  · exact hright operand hoperand

theorem Resolves.and {left right : Expr} (hleft : b.Resolves left)
    (hright : b.Resolves right) : b.Resolves (.and left right) :=
  hleft.or hright

theorem Resolves.foldl {α : Type} {join : Expr → Expr → Expr} {expr : α → Expr}
    (hjoin : ∀ {left right}, b.Resolves left → b.Resolves right → b.Resolves (join left right))
    {left : Expr} (hleft : b.Resolves left) {others : List α}
    (hothers : ∀ x ∈ others, b.Resolves (expr x)) :
    b.Resolves (others.foldl (fun e x => join e (expr x)) left) := by
  induction others generalizing left with
  | nil => exact hleft
  | cons x others ih =>
      exact ih (hjoin hleft (hothers x List.mem_cons_self))
        fun y hy => hothers y (List.mem_cons_of_mem x hy)

theorem resolves_of_renders {clause : Clause} {f : Fragment} (h : Renders b clause f) :
    b.Resolves f.expr := by
  cases h with
  | equals hpath hvalue => exact resolves_compare hpath hvalue
  | compare hpath hvalue => exact resolves_compare hpath hvalue
  | between hpath hlow hhigh =>
      intro operand hoperand r
      simp only [Fragment.expr, Expr.operands, List.mem_cons, List.not_mem_nil, or_false]
        at hoperand
      rcases hoperand with rfl | rfl | rfl
      · exact ⟨_, resolve_path hpath r⟩
      · exact ⟨_, resolve_value hlow r⟩
      · exact ⟨_, resolve_value hhigh r⟩
  | isIn hpath _ hvalues =>
      intro operand hoperand r
      rcases List.mem_cons.mp hoperand with rfl | hoperand
      · exact ⟨_, resolve_path hpath r⟩
      · obtain ⟨placeholder, hplaceholder, rfl⟩ := List.mem_map.mp hoperand
        obtain ⟨value, _, hheld⟩ := exists_of_mem_forall₂ hvalues hplaceholder
        exact ⟨_, resolve_value hheld r⟩
  | anyOf hne hentries =>
      cases hentries with
      | nil => exact absurd rfl hne
      | cons hfirst hrest =>
          refine (resolves_compare hfirst.1 hfirst.2).foldl Resolves.or fun pair hpair => ?_
          obtain ⟨entry, _, hpath, hvalue⟩ := exists_of_mem_forall₂ hrest hpair
          exact resolves_compare hpath hvalue

theorem resolves_conjunction {clauses : List Clause} {first : Fragment}
    {others : List Fragment} (h : List.Forall₂ (Renders b) clauses (first :: others)) :
    b.Resolves (Fragment.conjunctionExpr first others) := by
  cases h with
  | cons hfirst hrest =>
      refine (resolves_of_renders hfirst).foldl Resolves.and fun f hf => ?_
      obtain ⟨clause, _, hrenders⟩ := exists_of_mem_forall₂ hrest.flip hf
      exact resolves_of_renders hrenders

end Bindings

/-! ## Texts -/

/-- The text of some rendered entries is read, resolved, and says that all of them hold. -/
theorem conjunction_text {b : Bindings} {clauses : List Clause} {first : Fragment}
    {others : List Fragment} (h : List.Forall₂ (Renders b) clauses (first :: others)) :
    ∃ text, Fragment.conjunction (first :: others) = some text ∧
      Expr.parse text = .ok (Fragment.conjunctionExpr first others) ∧
      b.Resolves (Fragment.conjunctionExpr first others) ∧
      ∀ r, b.eval r (Fragment.conjunctionExpr first others) =
        .ok (clauses.all fun clause => clause.holds r) := by
  obtain ⟨text, htext, hparse⟩ := Fragment.parse_conjunction (Bindings.spelled_of_forall₂ h)
  refine ⟨text, htext, hparse, Bindings.resolves_conjunction h, fun r => ?_⟩
  have heval := Bindings.evalText_conjunction h r
  rw [htext] at heval
  simpa only [Bindings.evalText, hparse, ok_bind] using heval

theorem readFilter_conjunction {b : Bindings} {clauses : List Clause}
    {fragments : List Fragment} (h : List.Forall₂ (Renders b) clauses fragments) :
    ∃ e, Table.readFilter (Fragment.conjunction fragments) = .ok e ∧
      ∀ r, Selection.passes b r e = .ok (clauses.all fun clause => clause.holds r) := by
  cases fragments with
  | nil =>
      cases h
      exact ⟨none, rfl, fun r => rfl⟩
  | cons first others =>
      obtain ⟨text, htext, hparse, _, heval⟩ := conjunction_text h
      refine ⟨some (Fragment.conjunctionExpr first others), ?_, heval⟩
      rw [htext]
      simp only [Table.readFilter, Rejection.parse, hparse]
      rfl

/-! ## Requests of a plan -/

theorem Condition.isSome_present? {c : Condition} {r : Record} {name : String}
    (h : c.holds r name = true) : (r.present? name).isSome = true := by
  unfold Condition.holds at h
  cases hvalue : r.present? name with
  | none =>
      rw [hvalue] at h
      cases h
  | some value => rfl

namespace Plan.Of

variable {p : Plan} {m : Model} {w : WhereClause} {t : Table}

theorem scan_spec (h : p.Of m w) (hmode : p.mode = .scan) :
    w.conditionsOn (m.schema.keyAttributes p.classification) = [] ∧ p.keyCondition = none := by
  have hattributes : m.schema.keyAttributes p.classification = [] := by
    unfold Plan.mode at hmode
    simp only [KeySchema.keyAttributes, hmode]
  have hkeys := h.keyConditions
  rw [hattributes] at hkeys ⊢
  refine ⟨rfl, ?_⟩
  unfold keyCondition
  rw [List.forall₂_nil_left_iff.mp hkeys]
  rfl

/-- The attributes of conditions that a record satisfies are present in it. -/
theorem presentIn_of_holds (h : p.Of m w) {keys : KeyNames}
    (hhash : keys.hash = m.schema.hashKey)
    (hsort : ∀ matched, p.classification.sortMatch = some matched →
      keys.sort = some matched.name ∧ matched.name ≠ keys.hash)
    (hindex : p.index.isSome = true) {r : Record}
    (hholds : ∀ clause ∈ w.conditionsOn (m.schema.keyAttributes p.classification),
      clause.holds r = true) :
    keys.presentIn r = true := by
  obtain ⟨name, hname⟩ := Option.isSome_iff_exists.mp hindex
  obtain ⟨matched, hmatched, _⟩ := Option.bind_eq_some_iff.mp hname
  obtain ⟨value, narrowing, hconditions, ⟨hnone, _⟩ | ⟨other, c, hother, rfl⟩⟩ :=
    h.conditionsOn_keyAttributes (h.sortMatch_spec hmatched).1
  · rw [hmatched] at hnone
    cases hnone
  · rw [hmatched] at hother
    cases hother
    rw [hconditions] at hholds
    have hhashHolds := hholds (.on m.schema.hashKey (.equals value)) (by simp)
    have hsortHolds := hholds (.on matched.name c) (by simp)
    unfold KeyNames.presentIn
    rw [hhash, (hsort matched hmatched).1, Option.all_some, Bool.and_eq_true]
    exact ⟨Condition.isSome_present? hhashHolds, Condition.isSome_present? hsortHolds⟩

/--
In a read by key the store accepts the key condition for the keys of what it
reads, and a record that satisfies the condition is visible there.
-/
theorem lookup_spec (h : p.Of m w) (hvalid : m.schema.Valid) (ht : t.schema = m.schema)
    (hmode : p.mode = .lookup) :
    ∃ text keys e, p.keyCondition = some text ∧
      t.keyNames p.table p.index = .ok keys ∧ Expr.parse text = .ok e ∧
      keys.check p.bindings e = .ok () ∧ p.bindings.Resolves e ∧
      (∀ r, p.bindings.eval r e =
        .ok ((w.conditionsOn (m.schema.keyAttributes p.classification)).all
          fun clause => clause.holds r)) ∧
      ∀ r, (∀ clause ∈ w.conditionsOn (m.schema.keyAttributes p.classification),
        clause.holds r = true) → p.index.isSome = true → keys.presentIn r = true := by
  obtain ⟨keys, hkeys, hhash, hsort⟩ := h.keyNames hvalid ht
  obtain ⟨value, narrowing, hconditions, hnarrowing⟩ := h.conditionsOn_keyAttributes hmode
  have hfragments := h.keyConditions
  rw [hconditions] at hfragments
  obtain ⟨first, others, ⟨hfirst, _⟩, hothers, heq⟩ := List.forall₂_cons_left_iff.mp hfragments
  have hrenders : List.Forall₂ (Renders p.bindings)
      (w.conditionsOn (m.schema.keyAttributes p.classification)) (first :: others) :=
    heq ▸ h.keyConditions.imp fun _ _ h => h.1
  obtain ⟨text, htext, hparse, hresolves, heval⟩ := conjunction_text hrenders
  have htail : others = [] ∨
      ∃ name c f, others = [f] ∧ Renders p.bindings (.on name c) f ∧
        c.isMembership = false ∧ keys.sort = some name ∧ name ≠ keys.hash := by
    rcases hnarrowing with ⟨_, rfl⟩ | ⟨matched, c, hmatched, rfl⟩
    · exact .inl (List.forall₂_nil_left_iff.mp hothers)
    · obtain ⟨f, none, ⟨hf, hfits⟩, hnone, rfl⟩ := List.forall₂_cons_left_iff.mp hothers
      rw [List.forall₂_nil_left_iff.mp hnone]
      exact .inr ⟨matched.name, c, f, rfl, hf, by simpa [Clause.fitsKey] using hfits,
        hsort matched hmatched⟩
  have hcheck := KeyNames.check_of_keys (hhash.symm ▸ hfirst) htail
  refine ⟨text, keys, _, ?_, hkeys, hparse, hcheck, hresolves, heval, ?_⟩
  · rw [keyCondition, heq]
    exact htext
  · intro r hholds hindex
    exact h.presentIn_of_holds hhash hsort hindex hholds

/-- A store with the schema of the model selects the records that satisfy the clause. -/
theorem select_spec (h : p.Of m w) (hdistinct : w.Distinct) (hvalid : m.schema.Valid)
    (ht : t.schema = m.schema) (cursor : Option Cursor) :
    ∃ selection, t.select (p.request cursor) = .ok selection ∧
      ∀ r, selection.selects p.bindings r = .ok (w.holds r) := by
  obtain ⟨filter, hfilter, hpasses⟩ := readFilter_conjunction h.filters
  have hfilter : Table.readFilter p.filter = .ok filter := hfilter
  cases hmode : p.mode with
  | scan =>
      obtain ⟨hconditions, hnone⟩ := h.scan_spec hmode
      have haccess : p.access = .scan := by
        simp only [access, hnone]
      refine ⟨⟨none, none, filter⟩, ?_, fun r => ?_⟩
      · simp only [Table.select, request, haccess, hfilter, ok_bind]
      · rw [hdistinct.holds_eq (m.schema.keyAttributes p.classification) r, hconditions]
        exact hpasses r
  | lookup =>
      obtain ⟨text, keys, e, htext, hkeys, hparse, hcheck, _, heval, hpresent⟩ :=
        h.lookup_spec hvalid ht hmode
      have haccess : p.access = .keyed p.index text := by
        simp only [access, htext]
      refine ⟨⟨if p.index.isSome then some keys else none, some e, filter⟩, ?_, fun r => ?_⟩
      · simp only [Table.select, request, haccess, hkeys, Rejection.parse, hparse, hcheck,
          hfilter, ok_bind]
      · rw [hdistinct.holds_eq (m.schema.keyAttributes p.classification) r]
        unfold Selection.selects
        cases hall : (w.conditionsOn (m.schema.keyAttributes p.classification)).all
            fun clause => clause.holds r with
        | false =>
            simp only [Selection.passes, heval, hall, ok_bind, Bool.false_and,
              Bool.false_eq_true, if_false, ite_self]
        | true =>
            have hvisible : (if p.index.isSome then some keys else none).all
                (fun keys => keys.presentIn r) = true := by
              split
              · rename_i hindex
                exact hpresent r (List.all_eq_true.mp hall) hindex
              · rfl
            rw [if_pos hvisible]
            simp only [Selection.passes, heval, hall, ok_bind, Bool.true_and]
            exact hpasses r

end Plan.Of

theorem Table.start_of_issued {cursor : Option Cursor}
    (h : ∀ c, cursor = some c → MemoryStore.Issued c) :
    ∃ first, Table.start cursor = .ok first := by
  cases cursor with
  | none => exact ⟨0, rfl⟩
  | some c =>
      obtain ⟨position, hposition⟩ := (h c rfl).position
      refine ⟨position, ?_⟩
      simp only [Table.start, hposition]

/-- The page that a store gives for a plan holds the records that satisfy the clause. -/
theorem Plan.Of.client_eq_pageOf {p : Plan} {m : Model} {w : WhereClause} (h : p.Of m w)
    (hdistinct : w.Distinct) (hvalid : m.schema.Valid) {s : MemoryStore} {t : Table}
    (htable : s.tables.get? m.tableName = some t) (hschema : t.schema = m.schema)
    {cursor : Option Cursor} {first : Nat} (hstart : Table.start cursor = .ok first)
    (earlier : List Request) :
    s.client earlier (p.request cursor) = .ok (t.pageOf w.holds s.pageSize first) := by
  obtain ⟨selection, hselect, hselects⟩ := h.select_spec hdistinct hvalid hschema cursor
  have hpage := Table.readPage_eq_pageOf hselect hselects hstart s.pageSize
  have hread : s.readPage (p.request cursor) = .ok (t.pageOf w.holds s.pageSize first) := by
    have hfound : s.tables.get? (p.request cursor).table = some t := by
      rw [← h.table] at htable
      exact htable
    rw [MemoryStore.readPage_of_get? hfound, hpage]
  simp only [MemoryStore.client, hread]

/--
A store in memory rejects no request for a page of a plan, when the table has the
valid schema that the plan was made for and the cursor is none or one that such a
store gave.  A read by key sends a key condition and a scan sends none; the index
is the one that the classification chose; the key condition is accepted for the
keys of what is read; both texts are read, and all of their operands resolved.
-/
theorem Model.plan_accepted {m : Model} {w : WhereClause} {p : Plan}
    (hvalid : m.schema.validate = .ok ()) (hplan : m.plan w = .ok p)
    {s : MemoryStore} {t : Table} (htable : s.tables.get? m.tableName = some t)
    (hschema : t.schema = m.schema) {cursor : Option Cursor}
    (hcursor : ∀ c, cursor = some c → MemoryStore.Issued c) (earlier : List Request) :
    (∃ page, s.client earlier (p.request cursor) = .ok page) ∧
      (p.mode = .lookup ↔ p.keyCondition ≠ none) ∧
      (∀ name, p.index = some name →
        ∃ matched index, p.classification.sortMatch = some matched ∧
          m.schema.indexSortedBy? matched.name = some index ∧ index.name = name ∧
          t.schema.index? name = some index) ∧
      (∀ text, p.keyCondition = some text →
        ∃ keys e, t.keyNames p.table p.index = .ok keys ∧ Expr.parse text = .ok e ∧
          keys.check p.bindings e = .ok () ∧ p.bindings.Resolves e) ∧
      (∀ text, p.filter = some text →
        ∃ e, Expr.parse text = .ok e ∧ p.bindings.Resolves e) := by
  have hvalid := KeySchema.validate_eq_ok_iff.mp hvalid
  obtain ⟨coerced, _, hdistinct, hof⟩ := Model.of_plan hplan
  have hkeyed : p.mode = .lookup ↔ p.keyCondition ≠ none := by
    cases hmode : p.mode with
    | lookup =>
        obtain ⟨text, _, _, htext, _⟩ := hof.lookup_spec hvalid hschema hmode
        simp [htext]
    | scan => simp [(hof.scan_spec hmode).2]
  refine ⟨?_, hkeyed, ?_, ?_, ?_⟩
  · obtain ⟨first, hfirst⟩ := Table.start_of_issued hcursor
    exact ⟨_, hof.client_eq_pageOf hdistinct hvalid htable hschema hfirst earlier⟩
  · intro name hindex
    rw [hschema]
    exact hof.index_spec hvalid hindex
  · intro text htext
    have hmode := hkeyed.mpr (by rw [htext]; exact Option.some_ne_none text)
    obtain ⟨other, keys, e, hother, hkeys, hparse, hcheck, hresolves, _⟩ :=
      hof.lookup_spec hvalid hschema hmode
    rw [htext] at hother
    cases hother
    exact ⟨keys, e, hkeys, hparse, hcheck, hresolves⟩
  · intro text htext
    have hfilters := hof.filters
    cases hfragments : p.filters with
    | nil =>
        rw [Plan.filter, hfragments] at htext
        cases htext
    | cons first others =>
        rw [hfragments] at hfilters
        obtain ⟨other, hother, hparse, hresolves, _⟩ := conjunction_text hfilters
        rw [Plan.filter, hfragments, hother] at htext
        cases htext
        exact ⟨_, hparse, hresolves⟩

/-- A store that looks at one of two records at a time. -/
def MemoryStore.awkward : MemoryStore :=
  let record := fun n : Int64 => Dict.ofList [("\u00fc key", .string "x"), ("#n", .int n)]
  ⟨1, Dict.empty.insert "awkward" ⟨Model.awkward.schema, [record 1, record 2]⟩, by decide⟩

theorem MemoryStore.issued_awkward : Issued (.ofPosition 1) :=
  ⟨awkward, ⟨"awkward", .scan, none, .empty, none⟩, _, rfl, rfl⟩

theorem Model.plan_accepted_awkward :
    awkward.schema.validate = .ok () ∧ MemoryStore.Issued (.ofPosition 1) ∧
      ∃ p, awkward.plan .awkward = .ok p ∧
        ∃ page, MemoryStore.awkward.client [] (p.request (some (.ofPosition 1))) = .ok page := by
  have hvalid : awkward.schema.validate = .ok () := by rfl
  have hok : (awkward.plan .awkward).isOk = true := by decide +kernel
  obtain ⟨p, hp⟩ := exists_of_isOk hok
  have hcursor : ∀ c, some (Cursor.ofPosition 1) = some c → MemoryStore.Issued c := by
    intro c hc
    cases hc
    exact MemoryStore.issued_awkward
  have haccepted := plan_accepted hvalid hp (s := .awkward)
    (t := ⟨awkward.schema, _⟩) rfl rfl hcursor []
  exact ⟨hvalid, MemoryStore.issued_awkward, p, hp, haccepted.1⟩

end KeyedQuery
