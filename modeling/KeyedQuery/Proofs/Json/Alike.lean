import Mathlib.Data.List.Forall2
import KeyedQuery.Proofs.Json.Merged
import KeyedQuery.Proofs.Value.Document

/-!
# Documents up to the order of fields

The value of a document has the fields of every object in name order, so its
document has them in that order, too, and otherwise is the document that was
read.  Only an integer beyond 63 bits becomes another number on the way.
-/

namespace KeyedQuery

namespace Json

/-- Documents that differ at most in the order in which their objects have their fields. -/
inductive Alike : Json → Json → Prop where
  | scalar {j : Json} (h : j.isScalar = true) : Alike j j
  | array {items others : List Json} (h : List.Forall₂ Alike items others) :
      Alike (.array items) (.array others)
  | object {fields reordered others : List (String × Json)} (hperm : fields.Perm reordered)
      (hnames : reordered.map Prod.fst = others.map Prod.fst)
      (h : List.Forall₂ Alike (reordered.map Prod.snd) (others.map Prod.snd)) :
      Alike (.object fields) (.object others)

/-- A document is another one, or stands in it at some depth. -/
inductive Within : Json → Json → Prop where
  | refl (j : Json) : Within j j
  | item {j item : Json} {items : List Json} (h : Within j item) (hitem : item ∈ items) :
      Within j (.array items)
  | field {j : Json} {field : String × Json} {fields : List (String × Json)}
      (h : Within j field.2) (hfield : field ∈ fields) : Within j (.object fields)

/-- Every integer in a document fits 64 bits with a sign. -/
def FitsInt64 (j : Json) : Prop :=
  ∀ value bounds, (Json.number (.integer value bounds)).Within j → value < 2 ^ 63

theorem fitsInt64_integer_iff {value : Int} {bounds : -2 ^ 63 ≤ value ∧ value < 2 ^ 64} :
    FitsInt64 (.number (.integer value bounds)) ↔ value < 2 ^ 63 := by
  refine ⟨fun h => h value bounds (.refl _), fun hlt other _ hother => ?_⟩
  cases hother
  exact hlt

theorem fitsInt64_of_ne {j : Json} (hscalar : j.isScalar = true)
    (hne : ∀ value bounds, j ≠ .number (.integer value bounds)) : j.FitsInt64 := by
  intro value bounds h
  cases h with
  | refl => exact absurd rfl (hne value bounds)
  | item _ _ => cases hscalar
  | field _ _ => cases hscalar

theorem fitsInt64_array_iff {items : List Json} :
    FitsInt64 (.array items) ↔ ∀ item ∈ items, item.FitsInt64 := by
  constructor
  · exact fun h item hitem value bounds hvalue => h value bounds (.item hvalue hitem)
  · intro h value bounds hvalue
    cases hvalue with
    | item hvalue hitem => exact h _ hitem value bounds hvalue

theorem fitsInt64_object_iff {fields : List (String × Json)} :
    FitsInt64 (.object fields) ↔ ∀ field ∈ fields, field.2.FitsInt64 := by
  constructor
  · exact fun h field hfield value bounds hvalue => h value bounds (.field hvalue hfield)
  · intro h value bounds hvalue
    cases hvalue with
    | field hvalue hfield => exact h _ hfield value bounds hvalue

/-! ## There and back -/

theorem toJson_toValue {n : JsonNumber} (h : FitsInt64 (.number n)) :
    n.toValue.toJson = .number n := by
  cases n with
  | integer value bounds =>
      have hlt := fitsInt64_integer_iff.mp h
      have hint : (Int64.ofInt value).toInt = value :=
        Int64.toInt_ofInt_of_le (by simpa using bounds.1) (by simpa using hlt)
      have hsome : Decimal.toInt64? value = some (Int64.ofInt value) :=
        if_pos ⟨bounds.1, hlt⟩
      simp [JsonNumber.toValue, hsome, Value.toJson, Json.int64, JsonNumber.ofInt64, hint]
  | float x finite =>
      simp [JsonNumber.toValue, Value.toJson, Json.ofBinary64, finite]

/-- The induction is on the nesting of the document. -/
theorem alike_toJson_ofJson {j : Json} (hmerged : j.Merged) (hfits : j.FitsInt64) :
    (Value.ofJson j).toJson.Alike j := by
  induction hmerged with
  | @scalar j hscalar =>
      have hsame : (Value.ofJson j).toJson = j := by
        cases j with
        | number n => exact toJson_toValue hfits
        | array items => cases hscalar
        | object fields => cases hscalar
        | _ => rfl
      rw [hsame]
      exact .scalar hscalar
  | @array items _ ih =>
      rw [Value.ofJson_array, Value.toJson_list, List.map_map]
      refine .array ?_
      rw [List.forall₂_map_left_iff, List.forall₂_same]
      exact fun item hitem => ih item hitem (fitsInt64_array_iff.mp hfits item hitem)
  | @object fields hnodup _ ih =>
      -- The fields of the map are those that were read, in another order.
      have hread : ((Value.ofJsonFields fields).map Prod.fst).Nodup := by
        rw [Value.ofJsonFields_eq_map, List.map_map]
        exact hnodup
      have hperm := (Dict.perm_ofList hread).map fun field => (field.1, field.2.toJson)
      rw [Value.ofJson, Value.ofFields, Value.toJson, Value.toJsonFields_eq_map]
      refine .object hperm ?_ ?_
      · simp [Value.ofJsonFields_eq_map]
      · rw [Value.ofJsonFields_eq_map, List.map_map, List.map_map, List.forall₂_map_left_iff,
          List.forall₂_map_right_iff, List.forall₂_same]
        exact fun field hfield => ih field hfield (fitsInt64_object_iff.mp hfits field hfield)

end Json

namespace Value

/--
A value that can be written comes back from its document with every instant as its
milliseconds and all else unchanged, so without instants it comes back as it was; and a
document whose integers fit 64 bits with a sign comes back from its value up to the
order of fields.
-/
theorem json_roundTrip :
    (∀ v : Value, v.Ordered → v.Finite →
      ofJson v.toJson = v.untimed ∧ (v.Timeless → ofJson v.toJson = v)) ∧
    ∀ j : Json, j.Merged → j.FitsInt64 → (ofJson j).toJson.Alike j := by
  refine ⟨fun v hordered hfinite => ?_, fun j => Json.alike_toJson_ofJson⟩
  have hback := ofJson_toJson hordered hfinite
  exact ⟨hback, fun htimeless => by rw [hback, untimed_of_timeless htimeless]⟩

/-- Two as a floating-point number. -/
def floatTwo : Binary64 :=
  ⟨0x4000000000000000⟩

/-- An instant in a list in a map, beside the integer that it is read as. -/
def timed : Value :=
  .map [("at", .list [.timestamp 5, .int 5]), ("to", .null)]

/-- Objects with their fields out of name order, and the number two in both representations. -/
def unsorted : Json :=
  .object [("n", .array [.number (.integer 2 (by decide)), .number (.float floatTwo (by decide))]),
    ("a", .object [("y", .bool true), ("x", .array [])])]

theorem json_roundTrip_nested :
    timed.Ordered ∧ timed.Finite ∧
      ofJson timed.toJson = .map [("at", .list [.int 5, .int 5]), ("to", .null)] ∧
      unsorted.Merged ∧ unsorted.FitsInt64 ∧ (ofJson unsorted).toJson.Alike unsorted ∧
      ofJson (ofJson unsorted).toJson = ofJson unsorted := by
  have hordered : timed.Ordered := by
    refine ⟨by decide, ?_⟩
    simp [OrderedFields, Ordered, OrderedItems]
  have hfinite : timed.Finite := by
    intro x hx
    cases hx with
    | field h hfield =>
        simp only [List.mem_cons, List.not_mem_nil, or_false] at hfield
        rcases hfield with rfl | rfl
        · cases h with
          | item h hitem =>
              simp only [List.mem_cons, List.not_mem_nil, or_false] at hitem
              rcases hitem with rfl | rfl <;> cases h
        · cases h
  have hmerged : unsorted.Merged := by
    refine .object (by decide) (List.forall_mem_cons.mpr
      ⟨.array ?_, List.forall_mem_singleton.mpr (.object (by decide) ?_)⟩)
    · exact List.forall_mem_cons.mpr ⟨.scalar rfl, List.forall_mem_singleton.mpr (.scalar rfl)⟩
    · exact List.forall_mem_cons.mpr
        ⟨.scalar rfl, List.forall_mem_singleton.mpr (.array (List.forall_mem_nil _))⟩
  have hfits : unsorted.FitsInt64 := by
    have hfloat : Json.FitsInt64 (.number (.float floatTwo (by decide))) :=
      Json.fitsInt64_of_ne rfl (by simp)
    have hbool : Json.FitsInt64 (.bool true) := Json.fitsInt64_of_ne rfl (by simp)
    simp [unsorted, Json.fitsInt64_object_iff, Json.fitsInt64_array_iff,
      Json.fitsInt64_integer_iff, hfloat, hbool]
  obtain ⟨hvalue, hdocument⟩ := json_roundTrip
  obtain ⟨_, hsame⟩ := hvalue (ofJson unsorted) (ordered_ofJson _) (finite_ofJson _)
  exact ⟨hordered, hfinite, (hvalue timed hordered hfinite).1, hmerged, hfits,
    hdocument unsorted hmerged hfits, hsame (timeless_ofJson _)⟩

end Value

end KeyedQuery
