import Mathlib.Logic.Relation
import KeyedQuery.Proofs.Except
import KeyedQuery.Proofs.InsertionOrder
import KeyedQuery.Proofs.Value.Equality

/-!
# What puts do to a table

A put keeps every record where it stands, or replaces it there by one of the
same primary key, and adds at most one record at the end.  So a position never
changes its key, and no two positions of a table that was filled by puts have
the same one.
-/

namespace KeyedQuery

/-! ## Primary keys -/

theorem option_beq_symm {a b : Option Value} (h : (a == b) = true) : (b == a) = true := by
  cases a <;> cases b <;> simp_all [BEq.symm]

theorem option_beq_trans {a b c : Option Value} (hab : (a == b) = true)
    (hbc : (b == c) = true) : (a == c) = true := by
  cases a <;> cases b <;> cases c <;> simp_all
  exact PartialEquivBEq.trans hab hbc

namespace KeySchema

variable {s : KeySchema} {a b c : Record}

theorem samePrimaryKey_iff :
    s.samePrimaryKey a b = true ↔
      (a.get? s.hashKey == b.get? s.hashKey) = true ∧
        (s.sortKey.bind a.get? == s.sortKey.bind b.get?) = true := by
  rw [← Bool.and_eq_true]
  rfl

theorem samePrimaryKey_symm (h : s.samePrimaryKey a b = true) :
    s.samePrimaryKey b a = true := by
  obtain ⟨hhash, hsort⟩ := samePrimaryKey_iff.mp h
  exact samePrimaryKey_iff.mpr ⟨option_beq_symm hhash, option_beq_symm hsort⟩

theorem samePrimaryKey_trans (hab : s.samePrimaryKey a b = true)
    (hbc : s.samePrimaryKey b c = true) : s.samePrimaryKey a c = true := by
  obtain ⟨hhash, hsort⟩ := samePrimaryKey_iff.mp hab
  obtain ⟨hhash', hsort'⟩ := samePrimaryKey_iff.mp hbc
  exact samePrimaryKey_iff.mpr ⟨option_beq_trans hhash hhash', option_beq_trans hsort hsort'⟩

theorem likeness_samePrimaryKey (s : KeySchema) : Likeness s.samePrimaryKey :=
  ⟨samePrimaryKey_symm, samePrimaryKey_trans⟩

end KeySchema

/-! ## Tables -/

namespace Table

variable {t t' : Table}

theorem put_eq_ok_iff {r : Record} :
    t.put r = .ok t' ↔
      (r.present? t.schema.hashKey).isSome = true ∧
        t' = { t with records := replaceOrAppend t.schema.samePrimaryKey r t.records } := by
  unfold put
  cases r.present? t.schema.hashKey <;> simp [eq_comm]

/-- A table after some accepted puts; a refused one changes nothing. -/
def Puts : Table → Table → Prop :=
  Relation.ReflTransGen fun t t' => ∃ r, t.put r = .ok t'

/-- No two records have the same primary key. -/
def KeysApart (t : Table) : Prop :=
  t.records.Pairwise fun a b => t.schema.samePrimaryKey a b = false

theorem Puts.schema (h : t.Puts t') : t'.schema = t.schema := by
  induction h with
  | refl => rfl
  | tail _ hput ih =>
      obtain ⟨r, hput⟩ := hput
      rw [(put_eq_ok_iff.mp hput).2]
      exact ih

theorem Puts.length_le (h : t.Puts t') : t.records.length ≤ t'.records.length := by
  induction h with
  | refl => exact Nat.le_refl _
  | tail _ hput ih =>
      obtain ⟨r, hput⟩ := hput
      rw [(put_eq_ok_iff.mp hput).2]
      exact Nat.le_trans ih (length_le_replaceOrAppend _ _ _)

/-- The record at a position stays there or is replaced by records of its primary key. -/
theorem Puts.getElem? (h : t.Puts t') {i : Nat} {a : Record} (ha : t.records[i]? = some a) :
    ∃ b, t'.records[i]? = some b ∧ (a = b ∨ t.schema.samePrimaryKey a b = true) := by
  induction h with
  | refl => exact ⟨a, ha, .inl rfl⟩
  | tail hputs hput ih =>
      obtain ⟨r, hput⟩ := hput
      obtain ⟨b, hb, hab⟩ := ih
      obtain ⟨c, hc, hbc⟩ := getElem?_replaceOrAppend t.schema.samePrimaryKey r hb
      rw [(put_eq_ok_iff.mp hput).2, Puts.schema hputs]
      refine ⟨c, hc, ?_⟩
      rcases hab with rfl | hab
      · exact hbc
      · rcases hbc with rfl | hbc
        · exact .inr hab
        · exact .inr (KeySchema.samePrimaryKey_trans hab hbc)

theorem keysApart_empty (schema : KeySchema) : (empty schema).KeysApart :=
  List.Pairwise.nil

theorem KeysApart.put (h : t.KeysApart) {r : Record} (hput : t.put r = .ok t') :
    t'.KeysApart := by
  rw [(put_eq_ok_iff.mp hput).2]
  exact pairwise_replaceOrAppend t.schema.likeness_samePrimaryKey h

theorem KeysApart.puts (h : t.KeysApart) (hputs : t.Puts t') : t'.KeysApart := by
  induction hputs with
  | refl => exact h
  | tail _ hput ih =>
      obtain ⟨r, hput⟩ := hput
      exact ih.put hput

/-- Records at two positions of a table have different primary keys. -/
theorem KeysApart.eq_of_samePrimaryKey (h : t.KeysApart) {i j : Nat} {a b : Record}
    (ha : t.records[i]? = some a) (hb : t.records[j]? = some b)
    (hsame : t.schema.samePrimaryKey a b = true) : i = j := by
  have hapart : ∀ {i j : Nat} {a b : Record}, t.records[i]? = some a → t.records[j]? = some b →
      i < j → t.schema.samePrimaryKey a b = false := by
    intro i j a b ha hb hlt
    obtain ⟨hi, rfl⟩ := List.getElem?_eq_some_iff.mp ha
    obtain ⟨hj, rfl⟩ := List.getElem?_eq_some_iff.mp hb
    exact List.pairwise_iff_getElem.mp h i j hi hj hlt
  rcases Nat.lt_trichotomy i j with hlt | heq | hgt
  · rw [hapart ha hb hlt] at hsame
    cases hsame
  · exact heq
  · have hother := KeySchema.samePrimaryKey_symm hsame
    rw [hapart hb ha hgt] at hother
    cases hother

end Table

/-! ## Stores -/

namespace MemoryStore

variable {s s' : MemoryStore} {name : String} {t : Table}

theorem put_eq_ok_iff {r : Record} :
    s.put name r = .ok s' ↔
      ∃ t t', s.tables.get? name = some t ∧ t.put r = .ok t' ∧
        s' = { s with tables := s.tables.insert name t' } := by
  unfold put table
  cases s.tables.get? name with
  | none => simp [bind_eq_ok_iff]
  | some t =>
      rw [ok_bind, bind_eq_ok_iff]
      constructor
      · rintro ⟨t', hput, hs⟩
        cases hs
        exact ⟨t, t', rfl, hput, rfl⟩
      · rintro ⟨_, t', ⟨⟩, hput, rfl⟩
        exact ⟨t', hput, rfl⟩

/-- A store after some accepted puts to any of its tables; a refused one changes nothing. -/
def Puts : MemoryStore → MemoryStore → Prop :=
  Relation.ReflTransGen fun s s' => ∃ name r, s.put name r = .ok s'

/-- A store that was made by creating tables and putting records, in any order. -/
inductive Reachable : MemoryStore → Prop where
  | start (pageSize : Nat) : Reachable (ofPageSize pageSize)
  | createTable {s : MemoryStore} (h : Reachable s) (name : String) (schema : KeySchema) :
      Reachable (s.createTable name schema)
  | put {s s' : MemoryStore} (h : Reachable s) {name : String} {r : Record}
      (hput : s.put name r = .ok s') : Reachable s'

/-- The records of a table; a table that does not exist has none. -/
def records (s : MemoryStore) (name : String) : List Record :=
  match s.tables.get? name with
  | some t => t.records
  | none => []

theorem records_of_get? (h : s.tables.get? name = some t) : s.records name = t.records := by
  simp [records, h]

theorem count_eq_length_records (s : MemoryStore) (name : String) :
    s.count name = (s.records name).length := by
  unfold count records
  cases s.tables.get? name <;> rfl

theorem Puts.pageSize (h : s.Puts s') : s'.pageSize = s.pageSize := by
  induction h with
  | refl => rfl
  | tail _ hput ih =>
      obtain ⟨name, r, hput⟩ := hput
      obtain ⟨_, _, _, _, rfl⟩ := put_eq_ok_iff.mp hput
      exact ih

/-- Puts to a store put to each of its tables. -/
theorem Puts.table (h : s.Puts s') (htable : s.tables.get? name = some t) :
    ∃ t', s'.tables.get? name = some t' ∧ t.Puts t' := by
  induction h with
  | refl => exact ⟨t, htable, .refl⟩
  | tail _ hput ih =>
      obtain ⟨other, r, hput⟩ := hput
      obtain ⟨before, after, hbefore, hafter, rfl⟩ := put_eq_ok_iff.mp hput
      obtain ⟨t', ht', hputs⟩ := ih
      by_cases hname : name = other
      · subst hname
        rw [hbefore] at ht'
        cases ht'
        exact ⟨after, Dict.get?_insert_self _ _ _, hputs.tail ⟨r, hafter⟩⟩
      · exact ⟨t', by rw [Dict.get?_insert_of_ne _ _ hname, ht'], hputs⟩

theorem Reachable.keysApart (h : s.Reachable) (htable : s.tables.get? name = some t) :
    t.KeysApart := by
  induction h generalizing t with
  | start pageSize => cases htable
  | createTable _ other schema ih =>
      rw [MemoryStore.createTable, Dict.get?_insert] at htable
      split at htable
      · cases htable
        exact Table.keysApart_empty schema
      · exact ih htable
  | @put s s' _ other r hput ih =>
      obtain ⟨before, after, hbefore, hafter, rfl⟩ := put_eq_ok_iff.mp hput
      rw [Dict.get?_insert] at htable
      split at htable
      · rename_i hname
        cases htable
        exact (ih (hname ▸ hbefore)).put hafter
      · exact ih htable

end MemoryStore

end KeyedQuery
