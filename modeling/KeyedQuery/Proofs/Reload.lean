import KeyedQuery.Proofs.Coercion
import KeyedQuery.Proofs.Value.Document
import KeyedQuery.Query.Basic

/-!
# Records that are printed and loaded again

A record of a document is coerced, printed and read back.  Instants are printed as
integers, and only a date attribute has instants once it was coerced, so coercing
the record again brings them back.  Everything else is read as it was printed, and
is in the representation that it converts to, or does not convert.
-/

namespace KeyedQuery

namespace Value

variable {v w : Value} {type : ScalarType}

theorem eq_of_within_of_isScalar (h : v.Within w) (hw : w.isScalar = true) : v = w := by
  cases h with
  | refl => rfl
  | item _ _ => cases hw
  | field _ _ => cases hw

theorem ordered_of_isScalar (h : v.isScalar = true) : v.Ordered := by
  cases v with
  | list items => cases h
  | map fields => cases h
  | _ => trivial

/-- A value is a scalar once it was converted. -/
theorem isScalar_of_coerce? (h : v.coerce? type = some w) : w.isScalar = true := by
  rcases isOf_of_coerce? h with rfl | hof
  · rfl
  · exact isScalar_of_isOf hof

theorem isFinite_of_readNumber {text : List Char} {x : Binary64}
    (h : readNumber text = some (.float x)) : x.isFinite = true := by
  unfold readNumber at h
  split at h
  · cases h
  · obtain ⟨y, hread, hy⟩ := Option.map_eq_some_iff.mp h
    cases hy
    unfold Binary64.readFinite at hread
    split at hread
    · cases hread
    · dsimp only at hread
      split at hread
      · rename_i hfinite
        cases hread
        exact hfinite
      · cases hread

/-- Conversion makes no number that is not finite. -/
theorem Finite.of_coerce? (hv : v.Finite) (h : v.coerce? type = some w) : w.Finite := by
  intro x hx
  cases eq_of_within_of_isScalar hx (isScalar_of_coerce? h)
  rcases isOf_of_coerce? h with hnull | hof
  · cases hnull
  · cases type with
    | number =>
        cases v with
        | float y =>
            cases h
            exact hv x (.refl _)
        | string text => exact isFinite_of_readNumber h
        | _ => cases h
    | _ => cases hof

/-- Only a date is an instant once it was converted. -/
theorem untimed_of_isOf (h : v.isOf type = true) (htype : type ≠ .date) : v.untimed = v := by
  cases v with
  | timestamp ms => cases type <;> simp_all [isOf]
  | list items => cases type <;> cases h
  | map fields => cases type <;> cases h
  | _ => rfl

end Value

namespace KeySchema

variable {s : KeySchema} {name : String} {v : Value}

theorem coerceValue_cases (s : KeySchema) (name : String) (v : Value) :
    s.coerceValue name v = v ∨
      ∃ type, s.typeOf? name = some type ∧ v.coerce? type = some (s.coerceValue name v) := by
  unfold coerceValue
  cases s.typeOf? name with
  | none => exact .inl rfl
  | some type =>
      cases hconverted : v.coerce? type with
      | none => exact .inl (by simp [hconverted])
      | some w => exact .inr ⟨type, rfl, by simp [hconverted]⟩

theorem finite_coerceValue (h : v.Finite) : (s.coerceValue name v).Finite := by
  rcases s.coerceValue_cases name v with hsame | ⟨type, _, hconverted⟩
  · rwa [hsame]
  · exact h.of_coerce? hconverted

theorem ordered_coerceValue (h : v.Ordered) : (s.coerceValue name v).Ordered := by
  rcases s.coerceValue_cases name v with hsame | ⟨type, _, hconverted⟩
  · rwa [hsame]
  · exact Value.ordered_of_isScalar (Value.isScalar_of_coerce? hconverted)

/-- The declared type brings back the instants that it made. -/
theorem coerceValue_untimed (h : v.Timeless) :
    s.coerceValue name (s.coerceValue name v).untimed = s.coerceValue name v := by
  rcases s.coerceValue_cases name v with hsame | ⟨type, htype, hconverted⟩
  · rw [hsame, Value.untimed_of_timeless h, hsame]
  · have hagain := s.coerceValue_coerceValue name v
    generalize s.coerceValue name v = w at hconverted hagain ⊢
    rcases Value.isOf_of_coerce? hconverted with rfl | hof
    · exact hagain
    · by_cases hdate : type = .date
      · cases hdate
        cases w with
        | timestamp ms =>
            have hback : (Value.int ms).coerce? .date = some (.timestamp ms) := rfl
            simp [Value.untimed, coerceValue, htype, hback]
        | _ => cases hof
      · rw [Value.untimed_of_isOf hof hdate, hagain]

theorem coerceValue_reload (s : KeySchema) (name : String) (j : Json) :
    s.coerceValue name (.ofJson (s.coerceValue name (.ofJson j)).toJson) =
      s.coerceValue name (.ofJson j) := by
  rw [Value.ofJson_toJson (ordered_coerceValue (Value.ordered_ofJson j))
    (finite_coerceValue (Value.finite_ofJson j))]
  exact coerceValue_untimed (Value.timeless_ofJson j)

end KeySchema

namespace Record

theorem read_object (fields : List (String × Json)) :
    Record.read (.object fields) = .ok (Dict.ofList (Value.ofJsonFields fields)) :=
  rfl

/-- A record is read back attribute by attribute. -/
theorem read_toJson (r : Record) :
    Record.read r.toJson = .ok (r.map fun _ v => .ofJson v.toJson) := by
  have hfields : Value.ofJsonFields (Value.toJsonFields r.entries) =
      (r.map fun _ v => Value.ofJson v.toJson).entries := by
    rw [Value.toJsonFields_eq_map, Value.ofJsonFields_eq_map, List.map_map]
    rfl
  rw [toJson, read_object, hfields]
  exact congrArg Except.ok (Dict.ext (Dict.entries_ofList (Dict.sorted _)))

end Record

/--
The record of an object is coerced, as it is when it is loaded.  It can be printed
and loaded again, and is then the same record.
-/
theorem KeySchema.coerceRecord_reload (s : KeySchema) (fields : List (String × Json)) :
    ∃ r reloaded, Record.read (.object fields) = .ok r ∧
      Record.read (s.coerceRecord r).toJson = .ok reloaded ∧
      s.coerceRecord reloaded = s.coerceRecord r := by
  refine ⟨_, _, Record.read_object fields, Record.read_toJson _, Dict.ext ?_⟩
  simp only [coerceRecord, Dict.map, List.map_map]
  refine List.map_congr_left fun entry hentry => ?_
  have hread := Dict.mem_of_mem_ofList hentry
  rw [Value.ofJsonFields_eq_map] at hread
  obtain ⟨field, _, rfl⟩ := List.mem_map.mp hread
  exact congrArg (Prod.mk field.1) (s.coerceValue_reload field.1 field.2)

end KeyedQuery
