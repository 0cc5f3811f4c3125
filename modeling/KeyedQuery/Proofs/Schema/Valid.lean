import Mathlib.Data.List.Nodup
import KeyedQuery.Classification
import KeyedQuery.Proofs.Except

/-!
# Valid schemas

What `validate` accepts, said at once: the keys have declared types, the sort
attribute is not the hash attribute, and no two indexes have one name.  In such a
schema the name of an index leads back to the index.
-/

namespace KeyedQuery

namespace KeySchema

variable {s : KeySchema}

/-- The keys of an index have declared types, and a local one has the hash attribute of the table. -/
structure ValidIndex (s : KeySchema) (index : SecondaryIndex) : Prop where
  sharing : index.kind = .sharing → index.hashKey = s.hashKey
  hashTyped : s.attributes.contains index.hashKey = true
  sortTyped : s.attributes.contains index.sortKey = true

/-- A schema without a fault. -/
structure Valid (s : KeySchema) : Prop where
  hashNamed : s.hashKey ≠ ""
  hashTyped : s.attributes.contains s.hashKey = true
  sortOther : s.sortKey ≠ some s.hashKey
  sortTyped : ∀ name, s.sortKey = some name → s.attributes.contains name = true
  indexes : ∀ index ∈ s.indexes, s.ValidIndex index
  indexNames : (s.indexes.map SecondaryIndex.name).Nodup

theorem requireType_eq_ok_iff {name owner : String} :
    s.requireType name owner = .ok () ↔ s.attributes.contains name = true := by
  unfold requireType
  split
  · rename_i htyped
    simp [htyped]
  · rename_i huntyped
    simp [huntyped]

theorem hashType_eq_ok_iff : (∃ type, s.hashType = .ok type) ↔ s.attributes.contains s.hashKey := by
  unfold hashType typeOf? Dict.contains
  cases s.attributes.get? s.hashKey <;> simp

theorem checkSortKey_eq_ok_iff :
    s.checkSortKey = .ok () ↔
      s.sortKey ≠ some s.hashKey ∧
        ∀ name, s.sortKey = some name → s.attributes.contains name = true := by
  unfold checkSortKey
  cases hsort : s.sortKey with
  | none => simp
  | some name =>
      by_cases hsame : name = s.hashKey
      · simp [hsame]
      · simp [hsame, requireType_eq_ok_iff]

theorem checkIndex_eq_ok_iff {earlier : List String} {index : SecondaryIndex} :
    s.checkIndex earlier index = .ok () ↔ index.name ∉ earlier ∧ s.ValidIndex index := by
  unfold checkIndex
  by_cases hearlier : index.name ∈ earlier
  · simp [hearlier]
  · by_cases hkind : index.kind = .sharing ∧ index.hashKey ≠ s.hashKey
    · have hinvalid : ¬ s.ValidIndex index := fun h => hkind.2 (h.sharing hkind.1)
      simp [hkind, hearlier, hinvalid]
    · have hsharing : index.kind = .sharing → index.hashKey = s.hashKey := by
        simpa using hkind
      rw [if_neg (by simpa using hearlier), if_neg hkind, bind_eq_ok_iff]
      constructor
      · rintro ⟨⟨⟩, hhash, hsort⟩
        exact ⟨hearlier, hsharing, requireType_eq_ok_iff.mp hhash,
          requireType_eq_ok_iff.mp hsort⟩
      · rintro ⟨_, h⟩
        exact ⟨(), requireType_eq_ok_iff.mpr h.hashTyped, requireType_eq_ok_iff.mpr h.sortTyped⟩

theorem checkIndexes_eq_ok_iff {earlier : List String} {indexes : List SecondaryIndex} :
    s.checkIndexes earlier indexes = .ok () ↔
      (∀ index ∈ indexes, index.name ∉ earlier ∧ s.ValidIndex index) ∧
        (indexes.map SecondaryIndex.name).Nodup := by
  induction indexes generalizing earlier with
  | nil => simp [checkIndexes]
  | cons index rest ih =>
      rw [checkIndexes, bind_eq_ok_iff, List.map_cons, List.nodup_cons]
      constructor
      · rintro ⟨⟨⟩, hindex, hrest⟩
        obtain ⟨hvalid, hnodup⟩ := ih.mp hrest
        refine ⟨?_, ?_, hnodup⟩
        · intro other hother
          rcases List.mem_cons.mp hother with rfl | hother
          · exact checkIndex_eq_ok_iff.mp hindex
          · obtain ⟨hfresh, h⟩ := hvalid other hother
            exact ⟨fun hmem => hfresh (List.mem_cons_of_mem _ hmem), h⟩
        · intro hmem
          obtain ⟨other, hother, hname⟩ := List.mem_map.mp hmem
          exact (hvalid other hother).1 (by simp [hname])
      · rintro ⟨hvalid, hfresh, hnodup⟩
        refine ⟨(), checkIndex_eq_ok_iff.mpr (hvalid index List.mem_cons_self), ih.mpr ⟨?_, hnodup⟩⟩
        intro other hother
        obtain ⟨hearlier, h⟩ := hvalid other (List.mem_cons_of_mem _ hother)
        refine ⟨?_, h⟩
        intro hmem
        rcases List.mem_cons.mp hmem with hname | hmem
        · exact hfresh (List.mem_map.mpr ⟨other, hother, hname⟩)
        · exact hearlier hmem

/-- A schema is valid exactly when no fault is found in it. -/
theorem validate_eq_ok_iff : s.validate = .ok () ↔ s.Valid := by
  unfold validate
  by_cases hempty : s.hashKey = ""
  · have hinvalid : ¬ s.Valid := fun h => h.hashNamed hempty
    simp [hempty, hinvalid]
  · rw [if_neg hempty, bind_eq_ok_iff]
    constructor
    · rintro ⟨type, htype, hrest⟩
      obtain ⟨⟨⟩, hsort, hindexes⟩ := bind_eq_ok_iff.mp hrest
      obtain ⟨hother, htyped⟩ := checkSortKey_eq_ok_iff.mp hsort
      obtain ⟨hvalid, hnodup⟩ := checkIndexes_eq_ok_iff.mp hindexes
      exact ⟨hempty, hashType_eq_ok_iff.mp ⟨type, htype⟩, hother, htyped,
        fun index hindex => (hvalid index hindex).2, hnodup⟩
    · intro h
      obtain ⟨type, htype⟩ := hashType_eq_ok_iff.mpr h.hashTyped
      refine ⟨type, htype, bind_eq_ok_iff.mpr ⟨(), ?_, ?_⟩⟩
      · exact checkSortKey_eq_ok_iff.mpr ⟨h.sortOther, h.sortTyped⟩
      · refine checkIndexes_eq_ok_iff.mpr ⟨fun index hindex => ?_, h.indexNames⟩
        exact ⟨List.not_mem_nil, h.indexes index hindex⟩

theorem isOk_validate_iff : s.validate.isOk = true ↔ s.Valid := by
  rw [← validate_eq_ok_iff]
  cases s.validate with
  | error fault => simp [Except.isOk, Except.toBool]
  | ok _ => simp [Except.isOk, Except.toBool]

/-- Where no two indexes have one name, a name leads back to its index. -/
theorem index?_name_of_nodup (hnames : (s.indexes.map SecondaryIndex.name).Nodup)
    {index : SecondaryIndex} (hindex : index ∈ s.indexes) : s.index? index.name = some index := by
  unfold index?
  cases hfind : s.indexes.find? fun other => other.name == index.name with
  | none => exact absurd (List.find?_eq_none.mp hfind index hindex) (by simp)
  | some found =>
      have hname : found.name = index.name := by simpa using List.find?_some hfind
      rw [List.inj_on_of_nodup_map hnames (List.mem_of_find?_eq_some hfind) hindex hname]

/-- The name of an index of a valid schema leads back to the index. -/
theorem Valid.index?_name (h : s.Valid) {index : SecondaryIndex} (hindex : index ∈ s.indexes) :
    s.index? index.name = some index :=
  index?_name_of_nodup h.indexNames hindex

end KeySchema

end KeyedQuery
