import KeyedQuery.Proofs.Coercion
import KeyedQuery.Proofs.Read.Answer
import KeyedQuery.Proofs.Sorting
import KeyedQuery.Proofs.Store.Acceptance
import KeyedQuery.Proofs.Store.Put
import KeyedQuery.Read.Executor

/-!
# What comes back satisfies what was asked

A store tests records as they are held, with operands that were coerced, and a
read coerces the records on their way out.  Whatever a read returns is a stored
record that satisfies the coerced clause, and it still does so in the form in
which it is returned.  Nothing is assumed of the schema of the table or of the
limits of the read.
-/

namespace KeyedQuery

/-! ## Pages -/

theorem mem_of_mem_selectM {α ε : Type} {test : α → Except ε Bool} {xs ys : List α}
    (h : selectM test xs = .ok ys) {y : α} (hy : y ∈ ys) : y ∈ xs ∧ test y = .ok true := by
  induction xs generalizing ys with
  | nil =>
      cases h
      cases hy
  | cons x rest ih =>
      obtain ⟨passed, htest, h⟩ := bind_eq_ok_iff.mp h
      cases passed with
      | false =>
          obtain ⟨hmem, hpassed⟩ := ih h hy
          exact ⟨List.mem_cons_of_mem x hmem, hpassed⟩
      | true =>
          obtain ⟨kept, hkept, h⟩ := bind_eq_ok_iff.mp h
          cases h
          rcases List.mem_cons.mp hy with rfl | hy
          · exact ⟨List.mem_cons_self, htest⟩
          · obtain ⟨hmem, hpassed⟩ := ih hkept hy
            exact ⟨List.mem_cons_of_mem x hmem, hpassed⟩

theorem Table.mem_of_readPage {t : Table} {pageSize : Nat} {q : Request} {page : Page}
    (h : t.readPage pageSize q = .ok page) {r : Record} (hr : r ∈ page.records) :
    r ∈ t.records ∧
      ∃ selection, t.select q = .ok selection ∧ selection.selects q.bindings r = .ok true := by
  obtain ⟨selection, hselect, h⟩ := bind_eq_ok_iff.mp h
  obtain ⟨first, _, h⟩ := bind_eq_ok_iff.mp h
  dsimp only at h
  split at h
  · cases h
  · rename_i records hrecords
    cases h
    obtain ⟨hlooked, hselects⟩ := mem_of_mem_selectM hrecords hr
    exact ⟨List.mem_of_mem_drop (List.mem_of_mem_take hlooked), selection, hselect, hselects⟩

theorem Selection.passes_of_selects {s : Selection} {b : Bindings} {r : Record}
    (h : s.selects b r = .ok true) :
    passes b r s.keyCondition = .ok true ∧ passes b r s.filter = .ok true := by
  unfold selects at h
  split at h
  · obtain ⟨passed, hkey, h⟩ := bind_eq_ok_iff.mp h
    cases passed with
    | false => cases h
    | true => exact ⟨hkey, h⟩
  · cases h

/-- A text that a store has read says of a record what it says when it is evaluated. -/
theorem evalText_eq_passes {b : Bindings} {text : Option String} {e : Option Expr}
    (h : Table.readFilter text = .ok e) (r : Record) :
    b.evalText r text = Selection.passes b r e := by
  cases text with
  | none =>
      cases h
      rfl
  | some text =>
      cases hparse : Expr.parse text with
      | error fault =>
          simp only [Table.readFilter, Rejection.parse, hparse] at h
          cases h
      | ok parsed =>
          simp only [Table.readFilter, Rejection.parse, hparse] at h
          cases h
          simp only [Bindings.evalText, hparse, ok_bind]
          rfl

namespace Plan.Of

variable {p : Plan} {m : Model} {w : WhereClause}

/-- The texts that a store has read for a request of the plan. -/
theorem readFilter_of_select {t : Table} {cursor : Option Cursor} {selection : Selection}
    (h : t.select (p.request cursor) = .ok selection) :
    Table.readFilter p.keyCondition = .ok selection.keyCondition ∧
      Table.readFilter p.filter = .ok selection.filter := by
  unfold Table.select request access at h
  cases hkey : p.keyCondition with
  | none =>
      simp only [hkey] at h
      obtain ⟨filter, hfilter, h⟩ := bind_eq_ok_iff.mp h
      cases h
      exact ⟨rfl, hfilter⟩
  | some text =>
      simp only [hkey] at h
      obtain ⟨keys, _, h⟩ := bind_eq_ok_iff.mp h
      obtain ⟨e, hparse, h⟩ := bind_eq_ok_iff.mp h
      obtain ⟨_, _, h⟩ := bind_eq_ok_iff.mp h
      obtain ⟨filter, hfilter, h⟩ := bind_eq_ok_iff.mp h
      cases h
      refine ⟨?_, hfilter⟩
      simp only [Table.readFilter, hparse]
      rfl

theorem holds_of_selects (h : p.Of m w) (hdistinct : w.Distinct) {t : Table}
    {cursor : Option Cursor} {selection : Selection}
    (hselect : t.select (p.request cursor) = .ok selection) {r : Record}
    (hr : selection.selects p.bindings r = .ok true) : w.holds r = true := by
  obtain ⟨hkeyText, hfilterText⟩ := readFilter_of_select hselect
  obtain ⟨hkey, hfilter⟩ := Selection.passes_of_selects hr
  rw [← evalText_eq_passes hkeyText r, h.evalText_keyCondition r] at hkey
  rw [← evalText_eq_passes hfilterText r, h.evalText_filter r] at hfilter
  rw [hdistinct.holds_eq (m.schema.keyAttributes p.classification) r, Except.ok.inj hkey,
    Except.ok.inj hfilter]
  rfl

/-- A page that a store gives for a plan holds stored records that satisfy the clause. -/
theorem mem_of_client (h : p.Of m w) (hdistinct : w.Distinct) {s : MemoryStore}
    {earlier : List Request} {cursor : Option Cursor} {page : Page}
    (hpage : s.client earlier (p.request cursor) = .ok page) {r : Record}
    (hr : r ∈ page.records) : r ∈ s.records m.tableName ∧ w.holds r = true := by
  unfold MemoryStore.client at hpage
  split at hpage
  · rename_i found hread
    cases hpage
    obtain ⟨t, htable, hpage⟩ := bind_eq_ok_iff.mp hread
    obtain ⟨hmem, selection, hselect, hselects⟩ := Table.mem_of_readPage hpage hr
    refine ⟨?_, h.holds_of_selects hdistinct hselect hselects⟩
    have hfound : s.tables.get? p.table = some t := by
      unfold MemoryStore.table at htable
      split at htable
      · rename_i other hother
        cases htable
        exact hother
      · cases htable
    rw [h.table] at hfound
    rw [MemoryStore.records_of_get? hfound]
    exact hmem
  · cases hpage

end Plan.Of

/-! ## Reads -/

theorem KeySchema.exists_of_mem_arrange {s : KeySchema} {q : Query} {records : List Record}
    {r : Record} (h : r ∈ s.arrange q records) : ∃ stored ∈ records, s.coerceRecord stored = r :=
  List.mem_map.mp ((s.perm_sortRecords _ _).mem_iff.mp ((window_sublist _ _ _).mem h))

/--
Whatever a read of a store in memory returns is a stored record in coerced form,
and both of its forms satisfy the coerced clause.  Coercion leaves an attribute of
a record as it was wherever a condition of the clause is satisfied.  Nothing is
assumed of the stored records, of the schema, of the clause or of the limits of
the read.
-/
theorem Executor.read_satisfies {x : Executor} {s : MemoryStore} {name : String} {q : Query}
    {context : ReadContext} {m : Model} {answer : Answer}
    (hmodel : x.registry.get name = .ok m) (hclient : x.client = s.client)
    (hread : (x.read name q context).result = .ok answer) :
    ∃ coerced, m.schema.coerceWhere q.conditions = .ok coerced ∧
      (∀ r ∈ answer.records, coerced.holds r = true ∧
        ∃ stored ∈ s.records m.tableName, coerced.holds stored = true ∧
          r = m.schema.coerceRecord stored) ∧
      ∀ stored field c, coerced.Tests field c → c.holds stored field = true →
        (m.schema.coerceRecord stored).get? field = stored.get? field := by
  obtain ⟨p, fetched, hplan, hfetched, rfl⟩ := (read_eq_ok_iff hmodel).mp hread
  obtain ⟨coerced, hcoerced, hdistinct, hof⟩ := Model.of_plan hplan
  have hstored : ∀ r ∈ fetched.records, r ∈ s.records m.tableName ∧ coerced.holds r = true := by
    rw [hclient] at hfetched
    exact Plan.forall_records_fetchAll
      (fun _ _ _ hpage r hr => hof.mem_of_client hdistinct hpage hr) hfetched
  refine ⟨coerced, hcoerced, fun r hr => ?_, fun stored field c htests hholds => ?_⟩
  · obtain ⟨stored, hmem, rfl⟩ := KeySchema.exists_of_mem_arrange hr
    obtain ⟨hin, hholds⟩ := hstored stored hmem
    exact ⟨KeySchema.where_holds_coerceRecord hcoerced hholds, stored, hin, hholds, rfl⟩
  · exact KeySchema.get?_coerceRecord_of_holds (KeySchema.coerced_of_tests hcoerced htests) hholds

/-- A model of which the store below holds records whose values have other types. -/
def Model.raw : Model :=
  ⟨"raw", none, (KeySchema.ofHashKey "id" .string).withSortKey "n" .number⟩

def MemoryStore.raw : MemoryStore :=
  let record := fun id n => Dict.ofList [("id", id), ("n", n)]
  ⟨2, Dict.empty.insert "raw" ⟨Model.raw.schema,
    [record (.string "a") (.int 5), record (.string "b") (.string "5"),
      record (.int 7) (.int 4)]⟩, by decide⟩

def Executor.raw : Executor :=
  ⟨MemoryStore.raw.client, ⟨Dict.empty.insert "raw" .raw⟩, .default⟩

/-- The operand is a text, which is coerced to a number before anything is read. -/
def Query.raw : Query :=
  { Query.all with conditions := WhereClause.empty.set "n" (.compare .ge (.string "4")) }

theorem Executor.read_satisfies_raw :
    ∃ (answer : Answer) (coerced : WhereClause),
      (raw.read "raw" .raw .idle).result = .ok answer ∧ answer.records.length = 2 ∧
      ∀ r ∈ answer.records, coerced.holds r = true ∧
        ∃ stored ∈ MemoryStore.raw.records "raw", coerced.holds stored = true ∧
          r = Model.raw.schema.coerceRecord stored := by
  have hlength : ((raw.read "raw" .raw .idle).result.toOption.map fun answer =>
      answer.records.length) = some 2 := by decide +kernel
  obtain ⟨answer, hanswer, htwo⟩ := Option.map_eq_some_iff.mp hlength
  have hread := eq_ok_of_toOption hanswer
  obtain ⟨coerced, _, hrecords, _⟩ :=
    read_satisfies (m := .raw) (s := .raw) rfl rfl hread
  exact ⟨answer, coerced, hread, htwo, hrecords⟩

end KeyedQuery
