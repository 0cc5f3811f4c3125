import Mathlib.Data.List.Induction
import KeyedQuery.Proofs.Store.Fill

/-!
# What a history leaves in a store

A store is changed by creating tables and by putting records.  A table is a map
that remembers the order of first insertion: of the records that were put into it
since it was last created it holds one for each primary key, the last one, at the
place of the first one.  A key with a NaN in it equals no key, so a record that has
one replaces nothing and is never replaced.
-/

namespace KeyedQuery

/-! ## Histories -/

/-- A change of a store. -/
inductive Change where
  | create (table : String) (schema : KeySchema)
  | put (table : String) (record : Record)

namespace Change

/-- The table that is changed. -/
def table : Change → String
  | .create name _ => name
  | .put name _ => name

/-- The schema that a table is created with. -/
def created? (name : String) : Change → Option KeySchema
  | .create other schema => if other = name then some schema else none
  | .put _ _ => none

/-- The record that is put into a table, if it has the hash attribute of a schema. -/
def brought? (name : String) (schema : KeySchema) : Change → Option Record
  | .create _ _ => none
  | .put other r =>
      if other = name ∧ (r.present? schema.hashKey).isSome then some r else none

/-- The schema that a table was last created with, and the changes after that. -/
def lastCreation? (name : String) : List Change → Option (KeySchema × List Change)
  | [] => none
  | c :: rest => (lastCreation? name rest).or ((c.created? name).map fun schema => (schema, rest))

/-- The records that changes bring into a table of a schema, in order. -/
def broughtInto (name : String) (schema : KeySchema) (history : List Change) : List Record :=
  history.filterMap (brought? name schema)

/-- What a history says that a table is: a map in insertion order, since its last creation. -/
def table? (name : String) (history : List Change) : Option Table :=
  (lastCreation? name history).map fun (schema, later) =>
    ⟨schema, insertionOrder schema.samePrimaryKey (broughtInto name schema later)⟩

theorem present_of_mem_broughtInto {name : String} {schema : KeySchema} {history : List Change}
    {r : Record} (h : r ∈ broughtInto name schema history) :
    (r.present? schema.hashKey).isSome = true := by
  obtain ⟨c, _, hbrought⟩ := List.mem_filterMap.mp h
  cases c with
  | create other schema => cases hbrought
  | put other brought =>
      obtain ⟨⟨_, hpresent⟩, heq⟩ := Option.ite_none_right_eq_some.mp hbrought
      cases heq
      exact hpresent

theorem lastCreation?_append_singleton (name : String) (history : List Change) (c : Change) :
    lastCreation? name (history ++ [c]) =
      ((c.created? name).map fun schema => (schema, [])).or
        ((lastCreation? name history).map fun found => (found.1, found.2 ++ [c])) := by
  induction history with
  | nil => simp [lastCreation?]
  | cons first rest ih =>
      rw [List.cons_append, lastCreation?, ih, lastCreation?]
      cases c.created? name <;> cases lastCreation? name rest <;>
        cases first.created? name <;> rfl

end Change

/-! ## Stores -/

namespace Table

theorem fill_nil (t : Table) : t.fill [] = t :=
  rfl

theorem fill_fill (t : Table) (first second : List Record) :
    (t.fill first).fill second = t.fill (first ++ second) := by
  simp [fill]

theorem fill_empty (schema : KeySchema) (records : List Record) :
    (empty schema).fill records = ⟨schema, insertionOrder schema.samePrimaryKey records⟩ := by
  have h := foldl_replaceOrAppend_eq schema.likeness_samePrimaryKey records
  simp only [fill, empty, h]

end Table

namespace MemoryStore

variable {s : MemoryStore} {name : String}

/-- The store after a change; a put that is refused leaves it as it is. -/
def change (s : MemoryStore) : Change → MemoryStore
  | .create name schema => s.createTable name schema
  | .put name r =>
      match s.put name r with
      | .ok s' => s'
      | .error _ => s

def changes (s : MemoryStore) (history : List Change) : MemoryStore :=
  history.foldl change s

/-- A put is refused for want of the table or of the hash attribute. -/
theorem put_eq_error_iff {r : Record} {why : Rejection} :
    s.put name r = .error why ↔
      s.tables.get? name = none ∧ why = .tableUnknown name ∨
        ∃ t, s.tables.get? name = some t ∧ r.present? t.schema.hashKey = none ∧
          why = .hashKeyMissing t.schema.hashKey := by
  unfold put table
  rw [bind_eq_error_iff]
  cases s.tables.get? name with
  | none => simp [eq_comm (a := why)]
  | some t =>
      simp only [bind_ok_eq_error_iff, Table.put]
      cases hpresent : r.present? t.schema.hashKey <;> simp [hpresent, eq_comm (a := why)]

theorem change_put_of_ok {s' : MemoryStore} {r : Record} (h : s.put name r = .ok s') :
    s.change (.put name r) = s' := by
  simp only [change, h]

theorem change_put_of_error {r : Record} {why : Rejection} (h : s.put name r = .error why) :
    s.change (.put name r) = s := by
  simp only [change, h]

/-- What one change does to a table: create it anew, or put what it brings. -/
theorem get?_change (s : MemoryStore) (c : Change) (name : String) :
    (s.change c).tables.get? name =
      ((c.created? name).map Table.empty).or
        ((s.tables.get? name).map fun t => t.fill (c.brought? name t.schema).toList) := by
  cases c with
  | create other schema =>
      rw [change, createTable, Dict.get?_insert]
      by_cases hname : name = other
      · simp [Change.created?, hname]
      · have hother : other ≠ name := fun heq => hname heq.symm
        simp [Change.created?, Change.brought?, hname, hother, Table.fill_nil]
  | put other r =>
      cases hput : s.put other r with
      | ok s' =>
          rw [change_put_of_ok hput]
          obtain ⟨t, t', htable, htput, rfl⟩ := put_eq_ok_iff.mp hput
          obtain ⟨hpresent, rfl⟩ := Table.put_eq_ok_iff.mp htput
          rw [Dict.get?_insert]
          by_cases hname : name = other
          · subst hname
            simp [Change.created?, Change.brought?, htable, hpresent, Table.fill]
          · have hother : other ≠ name := fun heq => hname heq.symm
            simp [Change.created?, Change.brought?, hname, hother, Table.fill_nil]
      | error why =>
          rw [change_put_of_error hput]
          by_cases hname : other = name
          · subst hname
            rcases put_eq_error_iff.mp hput with ⟨hnone, _⟩ | ⟨t, htable, habsent, _⟩
            · simp [Change.created?, hnone]
            · simp [Change.created?, Change.brought?, htable, habsent, Table.fill_nil]
          · simp [Change.created?, Change.brought?, hname, Table.fill_nil]

/-- A change leaves every other table as it is. -/
theorem get?_change_of_ne {c : Change} (h : c.table ≠ name) :
    (s.change c).tables.get? name = s.tables.get? name := by
  cases c with
  | create other schema =>
      have hother : other ≠ name := h
      simp [get?_change, Change.created?, Change.brought?, hother, Table.fill_nil]
  | put other r =>
      have hother : other ≠ name := h
      simp [get?_change, Change.created?, Change.brought?, hother, Table.fill_nil]

/-- After a history every table is what the history says. -/
theorem get?_changes (pageSize : Nat) (history : List Change) (name : String) :
    ((ofPageSize pageSize).changes history).tables.get? name = Change.table? name history := by
  unfold Change.table?
  simp only [← Table.fill_empty]
  induction history using List.reverseRecOn with
  | nil => rfl
  | append_singleton history c ih =>
      rw [changes, List.foldl_append, List.foldl_cons, List.foldl_nil, get?_change]
      unfold changes at ih
      rw [ih, Change.lastCreation?_append_singleton]
      cases hcreated : c.created? name with
      | some schema => simp [Change.broughtInto, Table.fill_nil]
      | none =>
          cases Change.lastCreation? name history with
          | none => rfl
          | some found =>
              simp only [Option.map_none, Option.none_or, Option.map_some, Table.fill_fill,
                Change.broughtInto, List.filterMap_append]
              cases hbrought : c.brought? name found.1 <;> simp [Table.fill, Table.empty, hbrought]

/--
After any history of creations and puts, where a put that is refused changes
nothing, a table is the map in insertion order of the records that the history
brought into it since its last creation: its keys are apart, each of them at the
place of its first put and with the record of its last put.  Every record has the
hash attribute.  A put is refused exactly when there is no table or the record has
no hash attribute.  A change of another table does not matter.
-/
theorem changes_insertionOrder (pageSize : Nat) (history : List Change) (name : String) :
    let s := (ofPageSize pageSize).changes history
    s.tables.get? name = Change.table? name history ∧
      (∀ t, s.tables.get? name = some t →
        t.KeysApart ∧ ∀ r ∈ t.records, (r.present? t.schema.hashKey).isSome = true) ∧
      (∀ r why, s.put name r = .error why ↔
        s.tables.get? name = none ∧ why = .tableUnknown name ∨
          ∃ t, s.tables.get? name = some t ∧ r.present? t.schema.hashKey = none ∧
            why = .hashKeyMissing t.schema.hashKey) ∧
      (∀ r why, s.put name r = .error why → s.change (.put name r) = s) ∧
      ∀ c : Change, c.table ≠ name → (s.change c).tables.get? name = s.tables.get? name := by
  intro s
  have htables : s.tables.get? name = Change.table? name history :=
    get?_changes pageSize history name
  refine ⟨htables, fun t ht => ?_, fun r why => put_eq_error_iff,
    fun r why => change_put_of_error, fun c => get?_change_of_ne⟩
  rw [htables] at ht
  obtain ⟨⟨schema, later⟩, _, rfl⟩ := Option.map_eq_some_iff.mp ht
  refine ⟨pairwise_insertionOrder schema.likeness_samePrimaryKey _, fun r hr => ?_⟩
  exact Change.present_of_mem_broughtInto (mem_of_mem_insertionOrder hr)

/-- A NaN is a key of its own each time, and the two zeros are one key. -/
example :
    let record := fun bits : UInt64 => Dict.ofList [("id", Value.float ⟨bits⟩)]
    let put := fun bits : UInt64 => Change.put "t" (record bits)
    ((ofPageSize 1).changes [.create "t" (.ofHashKey "id" .number), put 0x7FF8000000000000,
      put 0, put 0x7FF8000000000000, put 0x8000000000000000]).count "t" = 3 := by
  decide +kernel

end MemoryStore

end KeyedQuery
