import KeyedQuery.Schema.Registry
import KeyedQuery.Proofs.Dict
import KeyedQuery.Proofs.Schema.Valid

/-!
# Registries that come from registering

A registry grows from the empty one by models that are registered one after the
other.  No model gets in with a schema that has a fault, so every model that is
found has a valid one.  A registry that refuses a model stays as it is, so what it
knows is a function of all the models that were brought to it.
-/

namespace KeyedQuery

namespace Registry

variable {r : Registry} {m : Model}

theorem get_eq_ok_iff {name : String} : r.get name = .ok m ↔ r.models.get? name = some m := by
  unfold get
  cases r.models.get? name <;> simp

theorem register_eq_ok_iff {r' : Registry} :
    r.register m = .ok r' ↔ m.schema.Valid ∧ r.models.contains m.name = false ∧
      r' = ⟨r.models.insert m.name m⟩ := by
  unfold register
  rw [← KeySchema.validate_eq_ok_iff]
  cases m.schema.validate with
  | error fault => simp
  | ok _ =>
      by_cases htaken : r.models.contains m.name = true
      · simp [htaken]
      · simp [htaken, eq_comm]

/-- The empty registry, and what comes of a registry when one more model is registered. -/
inductive Reachable : Registry → Prop where
  | empty : Reachable .empty
  | register {r r' : Registry} {m : Model} (h : Reachable r)
      (hregister : r.register m = .ok r') : Reachable r'

theorem Reachable.valid (h : r.Reachable) {name : String}
    (hmodel : r.models.get? name = some m) : m.schema.Valid := by
  induction h with
  | empty => cases hmodel
  | register _ hregister ih =>
      obtain ⟨hvalid, _, rfl⟩ := register_eq_ok_iff.mp hregister
      rw [Dict.get?_insert] at hmodel
      split at hmodel
      · cases hmodel
        exact hvalid
      · exact ih hmodel

/-! ## Histories of registrations -/

/-- The registry after it was asked to register a model, which it may refuse. -/
def offer (r : Registry) (m : Model) : Registry :=
  match r.register m with
  | .ok r' => r'
  | .error _ => r

/-- The registry of a history: the empty one, asked to register one model after the other. -/
def ofHistory (history : List Model) : Registry :=
  history.foldl offer empty

/-- Whether a model has this name and a valid schema. -/
def isValidModel (name : String) (m : Model) : Bool :=
  m.name == name && m.schema.validate.isOk

theorem offer_of_register_eq_ok {r' : Registry} (h : r.register m = .ok r') : r.offer m = r' := by
  simp [offer, h]

theorem offer_of_register_eq_error {e : CatalogError} (h : r.register m = .error e) :
    r.offer m = r := by
  simp [offer, h]

theorem isValidModel_iff {name : String} :
    isValidModel name m = true ↔ m.name = name ∧ m.schema.Valid := by
  simp [isValidModel, KeySchema.isOk_validate_iff]

/-- One more model changes the answer for its own name only, and only where there was none. -/
theorem get?_offer (r : Registry) (m : Model) (name : String) :
    (r.offer m).models.get? name =
      (r.models.get? name).or (if isValidModel name m then some m else none) := by
  cases hregister : r.register m with
  | ok r' =>
      obtain ⟨hvalid, hfresh, hadded⟩ := register_eq_ok_iff.mp hregister
      rw [offer_of_register_eq_ok hregister, hadded, Dict.get?_insert]
      by_cases hname : name = m.name
      · have hnone := Dict.get?_eq_none_of_contains_eq_false hfresh
        rw [if_pos hname, if_pos (isValidModel_iff.mpr ⟨hname.symm, hvalid⟩), hname, hnone]
        rfl
      · have hmodel : ¬ isValidModel name m = true := fun h => hname (isValidModel_iff.mp h).1.symm
        rw [if_neg hname, if_neg hmodel, Option.or_none]
  | error e =>
      rw [offer_of_register_eq_error hregister]
      by_cases hmodel : isValidModel name m = true
      · obtain ⟨rfl, hvalid⟩ := isValidModel_iff.mp hmodel
        have htaken : r.models.contains m.name ≠ false := by
          intro hfresh
          rw [register_eq_ok_iff.mpr ⟨hvalid, hfresh, rfl⟩] at hregister
          cases hregister
        obtain ⟨held, hheld⟩ := Option.isSome_iff_exists.mp (Bool.of_not_eq_false htaken)
        rw [hheld]
        rfl
      · rw [if_neg hmodel, Option.or_none]

theorem get?_foldl_offer (r : Registry) (history : List Model) (name : String) :
    (history.foldl offer r).models.get? name =
      (r.models.get? name).or (history.find? (isValidModel name)) := by
  induction history generalizing r with
  | nil => simp
  | cons m later ih =>
      rw [List.foldl_cons, ih, get?_offer, Option.or_assoc, List.find?_cons]
      by_cases hmodel : isValidModel name m = true
      · simp [hmodel]
      · simp [hmodel]

theorem get_ofHistory_iff {history : List Model} {name : String} :
    (ofHistory history).get name = .ok m ↔
      ∃ earlier later, history = earlier ++ m :: later ∧ m.name = name ∧ m.schema.Valid ∧
        ∀ other ∈ earlier, other.name = name → ¬ other.schema.Valid := by
  have hfirst : (ofHistory history).models.get? name = history.find? (isValidModel name) := by
    simp [ofHistory, get?_foldl_offer, empty]
  rw [get_eq_ok_iff, hfirst, List.find?_eq_some_iff_append, isValidModel_iff]
  constructor
  · rintro ⟨⟨hname, hvalid⟩, earlier, later, hsplit, hearlier⟩
    refine ⟨earlier, later, hsplit, hname, hvalid, fun other hother hsame hvalid => ?_⟩
    simpa [isValidModel_iff.mpr ⟨hsame, hvalid⟩] using hearlier other hother
  · rintro ⟨earlier, later, hsplit, hname, hvalid, hearlier⟩
    refine ⟨⟨hname, hvalid⟩, earlier, later, hsplit, fun other hother => ?_⟩
    rw [Bool.not_eq_true', Bool.eq_false_iff]
    intro hmodel
    obtain ⟨hsame, hvalid⟩ := isValidModel_iff.mp hmodel
    exact hearlier other hother hsame hvalid

theorem contains_eq_false_iff {name : String} :
    r.models.contains name = false ↔ ∀ other, r.get name ≠ .ok other := by
  simp only [Dict.contains, ne_eq, get_eq_ok_iff]
  cases r.models.get? name <;> simp

theorem exists_register_eq_ok_iff :
    (∃ r', r.register m = .ok r') ↔ m.schema.Valid ∧ ∀ other, r.get m.name ≠ .ok other := by
  constructor
  · rintro ⟨r', hregister⟩
    obtain ⟨hvalid, hfresh, _⟩ := register_eq_ok_iff.mp hregister
    exact ⟨hvalid, contains_eq_false_iff.mp hfresh⟩
  · rintro ⟨hvalid, hfresh⟩
    exact ⟨_, register_eq_ok_iff.mpr ⟨hvalid, contains_eq_false_iff.mpr hfresh, rfl⟩⟩

theorem ofHistory_append_singleton (history : List Model) (m : Model) :
    ofHistory (history ++ [m]) = (ofHistory history).offer m := by
  simp [ofHistory]

/--
What a registry knows after any history of registrations.  A name leads to the first
model of that name whose schema is valid, and goes on leading to it; so every model
that is found has a valid schema, in which the name of an index leads to the index.  A
model is registered exactly when its schema is valid and its name is not taken, and one
that is refused leaves the registry as it was.
-/
theorem ofHistory_keeps_first_valid (history : List Model) :
    let r := ofHistory history
    (∀ name m, r.get name = .ok m ↔
      ∃ earlier later, history = earlier ++ m :: later ∧ m.name = name ∧ m.schema.Valid ∧
        ∀ other ∈ earlier, other.name = name → ¬ other.schema.Valid) ∧
      (∀ name m, r.get name = .ok m →
        m.schema.Valid ∧ ∀ index ∈ m.schema.indexes, m.schema.index? index.name = some index) ∧
      (∀ m, (∃ r', r.register m = .ok r') ↔
        m.schema.Valid ∧ ∀ other, r.get m.name ≠ .ok other) ∧
      (∀ m e, r.register m = .error e → ofHistory (history ++ [m]) = r) ∧
      (∀ m r', r.register m = .ok r' →
        r' = ofHistory (history ++ [m]) ∧ r'.get m.name = .ok m) ∧
      ∀ name m, r.get name = .ok m → ∀ later, (ofHistory (history ++ later)).get name = .ok m := by
  intro r
  refine ⟨fun name m => get_ofHistory_iff, fun name m hget => ?_,
    fun m => exists_register_eq_ok_iff, fun m e hregister => ?_,
    fun m r' hregister => ⟨?_, ?_⟩, fun name m hget later => ?_⟩
  · obtain ⟨_, _, _, _, hvalid, _⟩ := get_ofHistory_iff.mp hget
    exact ⟨hvalid, fun index hindex => hvalid.index?_name hindex⟩
  · rw [ofHistory_append_singleton, offer_of_register_eq_error hregister]
  · rw [ofHistory_append_singleton, offer_of_register_eq_ok hregister]
  · obtain ⟨_, _, hadded⟩ := register_eq_ok_iff.mp hregister
    rw [get_eq_ok_iff, hadded, Dict.get?_insert_self]
  · obtain ⟨earlier, rest, hsplit, hmodel⟩ := get_ofHistory_iff.mp hget
    refine get_ofHistory_iff.mpr ⟨earlier, rest ++ later, ?_, hmodel⟩
    rw [hsplit, List.append_assoc, List.cons_append]

-- Neither an invalid schema before it nor a model of its name after it changes what is found.
example :
    ((ofHistory [⟨"User", some "draft", ⟨"id", none, .empty, []⟩⟩,
        ⟨"User", some "users", .ofHashKey "id" .string⟩,
        ⟨"User", some "people", .ofHashKey "id" .string⟩]).get "User").toOption.map
      Model.tableName = some "users" := by
  decide +kernel

end Registry

end KeyedQuery
