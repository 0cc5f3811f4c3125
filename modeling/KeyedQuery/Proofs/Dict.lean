import Mathlib.Data.List.Induction
import KeyedQuery.Dict

/-!
# Look-ups and inclusion of dictionaries

A look-up finds exactly the entries, because no name occurs twice.  One
dictionary is included in another when every answer of the first is an answer of
the second; inserting a name that is not taken only adds answers.
-/

namespace KeyedQuery

namespace Dict

variable {α : Type}

/-! ## Entries and names -/

theorem names_nodup (d : Dict α) : d.names.Nodup := by
  have h : d.entries.Pairwise fun a b => a.1 ≠ b.1 := by
    refine d.sorted.imp ?_
    intro a b hlt heq
    rw [heq] at hlt
    exact String.lt_irrefl _ hlt
  exact List.pairwise_map.mpr h

theorem length_names (d : Dict α) : d.names.length = d.size := by
  simp [names, size]

theorem contains_iff_mem_names {d : Dict α} {name : String} :
    d.contains name = true ↔ name ∈ d.names := by
  simp [contains, get?, names]

theorem get?_eq_none_of_contains_eq_false {d : Dict α} {name : String}
    (h : d.contains name = false) : d.get? name = none := by
  simpa [contains] using h

theorem contains_insert {d : Dict α} {name other : String} {value : α} :
    (d.insert name value).contains other = true ↔ other = name ∨ d.contains other = true := by
  by_cases h : other = name
  · simp [contains, h]
  · simp [contains, get?_insert_of_ne d value h, h]

theorem lookup_eq_some_of_mem {entries : List (String × α)} {name : String} {value : α}
    (hnodup : (entries.map Prod.fst).Nodup) (hmem : (name, value) ∈ entries) :
    entries.lookup name = some value := by
  induction entries with
  | nil =>
      simp at hmem
  | cons head rest ih =>
      obtain ⟨first, held⟩ := head
      obtain ⟨hfresh, hrest⟩ := List.nodup_cons.mp hnodup
      rcases List.mem_cons.mp hmem with heq | hmem
      · cases heq
        simp
      · have hne : name ≠ first := by
          intro heq
          exact hfresh (List.mem_map.mpr ⟨(name, value), hmem, heq⟩)
        rw [List.lookup_cons, beq_false_of_ne hne]
        exact ih hrest hmem

/-- Every entry is what a look-up of its name finds. -/
theorem get?_of_mem {d : Dict α} {name : String} {value : α}
    (h : (name, value) ∈ d.entries) : d.get? name = some value :=
  lookup_eq_some_of_mem d.names_nodup h

theorem mem_of_get? {d : Dict α} {name : String} {value : α} (h : d.get? name = some value) :
    (name, value) ∈ d.entries := by
  obtain ⟨before, after, hsplit, _⟩ := List.lookup_eq_some_iff.mp h
  rw [hsplit]
  simp

theorem lookup_map {β : Type} (f : String → α → β) (entries : List (String × α)) (name : String) :
    (entries.map fun entry => (entry.1, f entry.1 entry.2)).lookup name =
      (entries.lookup name).map (f name) := by
  induction entries with
  | nil => rfl
  | cons entry rest ih =>
      obtain ⟨first, held⟩ := entry
      by_cases hname : name = first
      · simp [hname]
      · simp [List.lookup_cons, beq_false_of_ne hname, ih]

theorem get?_map {β : Type} (d : Dict α) (f : String → α → β) (name : String) :
    (d.map f).get? name = (d.get? name).map (f name) :=
  lookup_map f d.entries name

/-! ## Lists of entries -/

theorem insertEntry_of_forall_lt {name : String} {value : α} {entries : List (String × α)}
    (h : ∀ entry ∈ entries, entry.1 < name) :
    insertEntry name value entries = entries ++ [(name, value)] := by
  induction entries with
  | nil => rfl
  | cons head rest ih =>
      have hhead : head.1 < name := h head List.mem_cons_self
      have hnlt : ¬ name < head.1 := fun hlt => String.lt_irrefl _ (String.lt_trans hlt hhead)
      rw [insertEntry, if_neg hnlt, if_pos hhead,
        ih fun entry hentry => h entry (List.mem_cons_of_mem head hentry)]
      rfl

theorem entries_insert (d : Dict α) (name : String) (value : α) :
    (d.insert name value).entries = insertEntry name value d.entries :=
  rfl

theorem ofList_append_singleton (entries : List (String × α)) (entry : String × α) :
    ofList (entries ++ [entry]) = (ofList entries).insert entry.1 entry.2 := by
  simp [ofList]

theorem mem_of_mem_ofList {entries : List (String × α)} {entry : String × α}
    (h : entry ∈ (ofList entries).entries) : entry ∈ entries := by
  induction entries using List.reverseRecOn with
  | nil => exact h
  | append_singleton before last ih =>
      rw [ofList_append_singleton] at h
      rcases mem_insertEntry h with rfl | hmem
      · simp
      · exact List.mem_append_left _ (ih hmem)

/-- Entries in name order are the entries of their map. -/
theorem entries_ofList {entries : List (String × α)}
    (h : entries.Pairwise fun a b => a.1 < b.1) : (ofList entries).entries = entries := by
  induction entries using List.reverseRecOn with
  | nil => rfl
  | append_singleton before last ih =>
      obtain ⟨hbefore, _, hlast⟩ := List.pairwise_append.mp h
      rw [ofList_append_singleton, entries_insert, ih hbefore]
      exact insertEntry_of_forall_lt fun entry hentry => hlast entry hentry last (by simp)

theorem perm_insertEntry {name : String} {value : α} {entries : List (String × α)}
    (h : name ∉ entries.map Prod.fst) :
    (insertEntry name value entries).Perm ((name, value) :: entries) := by
  induction entries with
  | nil => exact List.Perm.refl _
  | cons head rest ih =>
      rw [List.map_cons, List.mem_cons, not_or] at h
      obtain ⟨hhead, hrest⟩ := h
      simp only [insertEntry]
      split
      · exact List.Perm.refl _
      · split
        · exact ((ih hrest).cons head).trans (List.Perm.swap _ _ _)
        · rename_i hnlt hngt
          exact absurd (eq_of_not_lt hnlt hngt) hhead

/-- Entries of which no two have one name are the entries of their map, in another order. -/
theorem perm_ofList {entries : List (String × α)} (h : (entries.map Prod.fst).Nodup) :
    (ofList entries).entries.Perm entries := by
  induction entries using List.reverseRecOn with
  | nil => exact List.Perm.refl _
  | append_singleton before last ih =>
      rw [List.map_append, List.nodup_append] at h
      obtain ⟨hbefore, _, hlast⟩ := h
      have hperm := ih hbefore
      have hfresh : last.1 ∉ (ofList before).entries.map Prod.fst := by
        intro hmem
        have hname := (hperm.map Prod.fst).mem_iff.mp hmem
        exact hlast last.1 hname last.1 (by simp) rfl
      rw [ofList_append_singleton, entries_insert]
      exact (perm_insertEntry hfresh).trans
        ((hperm.cons last).trans (List.perm_append_singleton last before).symm)

/-! ## Inclusion -/

instance : HasSubset (Dict α) :=
  ⟨fun a b => ∀ name value, a.get? name = some value → b.get? name = some value⟩

theorem subset_refl (d : Dict α) : d ⊆ d :=
  fun _ _ h => h

theorem subset_trans {a b c : Dict α} (hab : a ⊆ b) (hbc : b ⊆ c) : a ⊆ c :=
  fun name value h => hbc name value (hab name value h)

theorem subset_insert {d : Dict α} {name : String} (value : α)
    (h : d.contains name = false) : d ⊆ d.insert name value := by
  intro other held hget
  have hne : other ≠ name := by
    intro heq
    rw [heq, get?_eq_none_of_contains_eq_false h] at hget
    cases hget
  rw [get?_insert_of_ne d value hne]
  exact hget

end Dict

end KeyedQuery
