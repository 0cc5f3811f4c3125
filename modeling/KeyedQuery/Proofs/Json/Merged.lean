import KeyedQuery.Json.Reader

/-!
# Documents without repeated fields

Reading a text merges the fields of an object that have one name, on every level,
so what is read repeats no field.
-/

namespace KeyedQuery

namespace Json

/-- No field of an object is repeated. -/
def FieldsDistinct (j : Json) : Prop :=
  ∀ fields, j = .object fields → (fields.map Prod.fst).Nodup

/-- No object inside a document repeats a field. -/
inductive Merged : Json → Prop where
  | scalar {j : Json} (h : j.isScalar = true) : Merged j
  | array {items : List Json} (h : ∀ item ∈ items, Merged item) : Merged (.array items)
  | object {fields : List (String × Json)} (hnodup : (fields.map Prod.fst).Nodup)
      (h : ∀ field ∈ fields, Merged field.2) : Merged (.object fields)

theorem Merged.fieldsDistinct {j : Json} (h : j.Merged) : j.FieldsDistinct := by
  intro fields heq
  subst heq
  cases h with
  | scalar h => cases h
  | object hnodup _ => exact hnodup

theorem Merged.field {j : Json} (h : j.Merged) (name : String) : (j.field name).Merged := by
  cases hfield : j.field? name with
  | none => simpa [Json.field, hfield] using Merged.scalar (j := .null) rfl
  | some value =>
      simp only [Json.field, hfield, Option.getD_some]
      cases h with
      | scalar h =>
          cases j with
          | object fields => cases h
          | _ => cases hfield
      | array h => cases hfield
      | object _ h =>
          obtain ⟨before, after, heq, _⟩ := List.lookup_eq_some_iff.mp hfield
          exact h (name, value) (by simp [heq])

/-! ## Merging -/

theorem mem_setField {name : String} {value : Json} {fields : List (String × Json)}
    {field : String × Json} (h : field ∈ setField name value fields) :
    field = (name, value) ∨ field ∈ fields := by
  induction fields with
  | nil => simpa [setField] using h
  | cons first rest ih =>
      unfold setField at h
      split at h
      · rcases List.mem_cons.mp h with h | h
        · exact .inl h
        · exact .inr (List.mem_cons_of_mem first h)
      · rcases List.mem_cons.mp h with rfl | h
        · exact .inr List.mem_cons_self
        · exact (ih h).imp_right (List.mem_cons_of_mem first)

theorem nodup_setField {name : String} {value : Json} {fields : List (String × Json)}
    (h : (fields.map Prod.fst).Nodup) :
    ((setField name value fields).map Prod.fst).Nodup := by
  induction fields with
  | nil => simp [setField]
  | cons first rest ih =>
      obtain ⟨hfirst, hrest⟩ := List.nodup_cons.mp h
      unfold setField
      by_cases hname : first.1 = name
      · rw [if_pos hname, List.map_cons, ← hname]
        exact List.nodup_cons.mpr ⟨hfirst, hrest⟩
      · rw [if_neg hname, List.map_cons]
        apply List.nodup_cons.mpr
        constructor
        · intro hmem
          obtain ⟨field, hfield, heq⟩ := List.mem_map.mp hmem
          rcases mem_setField hfield with rfl | hfield
          · exact hname heq.symm
          · exact hfirst (List.mem_map.mpr ⟨field, hfield, heq⟩)
        · exact ih hrest

theorem mergeFields_spec (fields : List (String × Json)) :
    ((mergeFields fields).map Prod.fst).Nodup ∧ ∀ field ∈ mergeFields fields, field ∈ fields := by
  have hfold : ∀ merged : List (String × Json), (merged.map Prod.fst).Nodup →
      ((fields.foldl (fun merged field => setField field.1 field.2 merged) merged).map
          Prod.fst).Nodup ∧
        ∀ field ∈ fields.foldl (fun merged field => setField field.1 field.2 merged) merged,
          field ∈ fields ∨ field ∈ merged := by
    induction fields with
    | nil => exact fun merged hmerged => ⟨hmerged, fun field hfield => .inr hfield⟩
    | cons first rest ih =>
        intro merged hmerged
        obtain ⟨hnodup, hmem⟩ := ih (setField first.1 first.2 merged) (nodup_setField hmerged)
        refine ⟨hnodup, fun field hfield => ?_⟩
        rcases hmem field hfield with hrest | hset
        · exact .inl (List.mem_cons_of_mem first hrest)
        · rcases mem_setField hset with rfl | hheld
          · exact .inl List.mem_cons_self
          · exact .inr hheld
  obtain ⟨hnodup, hmem⟩ := hfold [] List.nodup_nil
  exact ⟨hnodup, fun field hfield => (hmem field hfield).resolve_right List.not_mem_nil⟩

/-! ## Reading -/

section

variable {α : Type} {P : α → Prop} {item : Reader α} {closing : Char}

theorem forall_mem_of_readItems (hitem : ∀ text x rest, item text = some (x, rest) → P x)
    {steps : Nat} {text rest : List Char} {items : List α}
    (h : readItems item closing steps text = some (items, rest)) : ∀ x ∈ items, P x := by
  induction steps generalizing text items rest with
  | zero => cases h
  | succ steps ih =>
      obtain ⟨⟨first, after⟩, hfirst, h⟩ := Option.bind_eq_some_iff.mp h
      have hP := hitem _ _ _ hfirst
      dsimp only at h
      split at h
      · obtain ⟨⟨others, last⟩, hothers, hpair⟩ := Option.bind_eq_some_iff.mp h
        cases hpair
        intro x hx
        rcases List.mem_cons.mp hx with rfl | hx
        · exact hP
        · exact ih hothers x hx
      · split at h
        · cases h
          intro x hx
          rw [List.mem_singleton.mp hx]
          exact hP
        · cases h
      · cases h

/-- What every item that can be read satisfies holds of all items of a list. -/
theorem forall_mem_of_readList (hitem : ∀ text x rest, item text = some (x, rest) → P x)
    {text rest : List Char} {items : List α}
    (h : readList item closing text = some (items, rest)) : ∀ x ∈ items, P x := by
  unfold readList at h
  split at h
  · split at h
    · cases h
      simp
    · exact forall_mem_of_readItems hitem h
  · cases h

end

theorem merged_of_readField {value : Reader Json}
    (hvalue : ∀ text j rest, value text = some (j, rest) → j.Merged)
    {text rest : List Char} {field : String × Json}
    (h : readField value text = some (field, rest)) : field.2.Merged := by
  unfold readField at h
  split at h
  · obtain ⟨⟨name, after⟩, _, h⟩ := Option.bind_eq_some_iff.mp h
    dsimp only at h
    split at h
    · obtain ⟨⟨j, last⟩, hj, hpair⟩ := Option.bind_eq_some_iff.mp h
      cases hpair
      exact hvalue _ _ _ hj
    · cases h
  · cases h

theorem merged_of_readWord {word text rest : List Char} {value j : Json}
    (hvalue : value.isScalar = true) (h : readWord word value text = some (j, rest)) :
    j.Merged := by
  unfold readWord at h
  split at h
  · cases h
    exact .scalar hvalue
  · cases h

/-- The induction is on the levels that may be opened. -/
theorem merged_of_readValue {depth : Nat} {text rest : List Char} {j : Json}
    (h : readValue depth text = some (j, rest)) : j.Merged := by
  induction depth using Nat.strongRecOn generalizing text rest j with
  | ind depth ih =>
      unfold readValue at h
      split at h
      · obtain ⟨_, _, hpair⟩ := Option.bind_eq_some_iff.mp h
        cases hpair
        exact .scalar rfl
      · cases h
      · cases h
      · rename_i depth after
        obtain ⟨⟨items, _⟩, hitems, hpair⟩ := Option.bind_eq_some_iff.mp h
        cases hpair
        have hvalue : ∀ text j rest, readValue depth text = some (j, rest) → j.Merged :=
          fun _ _ _ hitem => ih depth (Nat.lt_succ_self depth) hitem
        exact .array (forall_mem_of_readList hvalue hitems)
      · rename_i depth after
        obtain ⟨⟨fields, _⟩, hfields, hpair⟩ := Option.bind_eq_some_iff.mp h
        cases hpair
        have hvalue : ∀ text j rest, readValue depth text = some (j, rest) → j.Merged :=
          fun _ _ _ hitem => ih depth (Nat.lt_succ_self depth) hitem
        have hmerged := forall_mem_of_readList (P := fun field => Merged field.2)
          (fun _ _ _ hfield => merged_of_readField hvalue hfield) hfields
        obtain ⟨hnodup, hmem⟩ := mergeFields_spec fields
        exact .object hnodup fun field hfield => hmerged field (hmem field hfield)
      · exact merged_of_readWord rfl h
      · exact merged_of_readWord rfl h
      · exact merged_of_readWord rfl h
      · obtain ⟨_, _, hpair⟩ := Option.bind_eq_some_iff.mp h
        cases hpair
        exact .scalar rfl

theorem merged_of_read {text : String} {j : Json} (h : read text = some j) : j.Merged := by
  obtain ⟨⟨value, rest⟩, hvalue, h⟩ := Option.bind_eq_some_iff.mp h
  dsimp only at h
  split at h
  · cases h
    exact merged_of_readValue hvalue
  · cases h

end Json

end KeyedQuery
