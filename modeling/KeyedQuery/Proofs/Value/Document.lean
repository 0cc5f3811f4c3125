import KeyedQuery.Proofs.Binary64.Finite
import KeyedQuery.Proofs.Dict
import KeyedQuery.Value.Document

/-!
# Values that are written and read back

A document has no instants and no infinite numbers, so a value comes back from its
document unchanged only where it has none of them.  Instants come back as their
milliseconds.  The value of a document has neither, at any depth, because all that
stands in it is the value of a document again.
-/

namespace KeyedQuery

/-- The value of a number is an integer, or a number that is finite. -/
theorem JsonNumber.toValue_cases (n : JsonNumber) :
    (∃ i, n.toValue = .int i) ∨ ∃ x, n.toValue = .float x ∧ x.isFinite = true := by
  cases n with
  | integer value bounds =>
      simp only [toValue]
      split
      · exact .inl ⟨_, rfl⟩
      · exact .inr ⟨_, rfl, Binary64.isFinite_ofInt bounds⟩
  | float value finite => exact .inr ⟨value, rfl, finite⟩

namespace Value

/-! ## Nesting -/

/-- A recursion that treats the elements one after the other is a map. -/
theorem eq_map_of_cons {α β : Type} {f : List α → List β} {g : α → β} (hnil : f [] = [])
    (hcons : ∀ x rest, f (x :: rest) = g x :: f rest) (xs : List α) : f xs = xs.map g := by
  induction xs with
  | nil => exact hnil
  | cons x rest ih => rw [hcons, ih, List.map_cons]

theorem ofJsonItems_eq_map (items : List Json) : ofJsonItems items = items.map ofJson :=
  eq_map_of_cons rfl (fun _ _ => rfl) items

theorem ofJsonFields_eq_map (fields : List (String × Json)) :
    ofJsonFields fields = fields.map fun field => (field.1, ofJson field.2) :=
  eq_map_of_cons rfl (fun _ _ => rfl) fields

theorem toJsonItems_eq_map (items : List Value) : toJsonItems items = items.map toJson :=
  eq_map_of_cons rfl (fun _ _ => rfl) items

theorem toJsonFields_eq_map (fields : List (String × Value)) :
    toJsonFields fields = fields.map fun field => (field.1, field.2.toJson) :=
  eq_map_of_cons rfl (fun _ _ => rfl) fields

theorem ofJson_number (n : JsonNumber) : ofJson (.number n) = n.toValue :=
  rfl

theorem ofJson_array (items : List Json) : ofJson (.array items) = .list (items.map ofJson) :=
  congrArg Value.list (ofJsonItems_eq_map items)

theorem ofJson_object (fields : List (String × Json)) :
    ofJson (.object fields) = ofFields (fields.map fun field => (field.1, ofJson field.2)) :=
  congrArg ofFields (ofJsonFields_eq_map fields)

theorem toJson_list (items : List Value) : toJson (.list items) = .array (items.map toJson) :=
  congrArg Json.array (toJsonItems_eq_map items)

theorem toJson_map (fields : List (String × Value)) :
    toJson (.map fields) = .object (fields.map fun field => (field.1, field.2.toJson)) :=
  congrArg Json.object (toJsonFields_eq_map fields)

theorem orderedItems_iff {items : List Value} :
    OrderedItems items ↔ ∀ item ∈ items, item.Ordered := by
  induction items with
  | nil => exact ⟨fun _ => List.forall_mem_nil _, fun _ => trivial⟩
  | cons item rest ih =>
      rw [List.forall_mem_cons, ← ih]
      rfl

theorem orderedFields_iff {fields : List (String × Value)} :
    OrderedFields fields ↔ ∀ field ∈ fields, field.2.Ordered := by
  induction fields with
  | nil => exact ⟨fun _ => List.forall_mem_nil _, fun _ => trivial⟩
  | cons field rest ih =>
      rw [List.forall_mem_cons, ← ih]
      rfl

/-- What holds of a list if it holds of the items, and of a map if it holds of the fields. -/
theorem nested_induction {motive : Value → Prop}
    (scalar : ∀ v, v.isScalar = true → motive v)
    (list : ∀ items, (∀ item ∈ items, motive item) → motive (.list items))
    (map : ∀ fields, (∀ field ∈ fields, motive field.2) → motive (.map fields)) (v : Value) :
    motive v :=
  @Value.rec motive (fun items => ∀ item ∈ items, motive item)
    (fun fields => ∀ field ∈ fields, motive field.2) (fun field => motive field.2)
    (scalar _ rfl) (fun _ => scalar _ rfl) (fun _ => scalar _ rfl) (fun _ => scalar _ rfl)
    (fun _ => scalar _ rfl) (fun _ => scalar _ rfl) list map
    (List.forall_mem_nil _) (fun _ _ hitem hrest => List.forall_mem_cons.mpr ⟨hitem, hrest⟩)
    (List.forall_mem_nil _) (fun _ _ hfield hrest => List.forall_mem_cons.mpr ⟨hfield, hrest⟩)
    (fun _ _ hvalue => hvalue) v

/-- A value is another one, or stands in it at some depth. -/
inductive Within : Value → Value → Prop where
  | refl (v : Value) : Within v v
  | item {v item : Value} {items : List Value} (h : Within v item) (hitem : item ∈ items) :
      Within v (.list items)
  | field {v : Value} {field : String × Value} {fields : List (String × Value)}
      (h : Within v field.2) (hfield : field ∈ fields) : Within v (.map fields)

/-- Every number in a value can be written. -/
def Finite (v : Value) : Prop :=
  ∀ x, (Value.float x).Within v → x.isFinite = true

/-- There is no instant in a value. -/
def Timeless (v : Value) : Prop :=
  ∀ ms, ¬ (Value.timestamp ms).Within v

mutual

/-- The value with the milliseconds of every instant in its place. -/
def untimed : Value → Value
  | .timestamp ms => .int ms
  | .list items => .list (untimedItems items)
  | .map fields => .map (untimedFields fields)
  | v => v

def untimedItems : List Value → List Value
  | [] => []
  | item :: rest => item.untimed :: untimedItems rest

def untimedFields : List (String × Value) → List (String × Value)
  | [] => []
  | (name, value) :: rest => (name, value.untimed) :: untimedFields rest

end

theorem untimed_list (items : List Value) : untimed (.list items) = .list (items.map untimed) :=
  congrArg Value.list (eq_map_of_cons rfl (fun _ _ => rfl) items)

theorem untimed_map (fields : List (String × Value)) :
    untimed (.map fields) = .map (fields.map fun field => (field.1, field.2.untimed)) :=
  congrArg Value.map (eq_map_of_cons rfl (fun _ _ => rfl) fields)

/-! ## There and back -/

theorem ofJson_int64 (i : Int64) : ofJson (.int64 i) = .int i := by
  rw [Json.int64, ofJson_number]
  simp [JsonNumber.ofInt64, JsonNumber.toValue, Decimal.toInt64?_toInt]

theorem ofJson_ofBinary64 {x : Binary64} (h : x.isFinite = true) :
    ofJson (.ofBinary64 x) = .float x := by
  simp [Json.ofBinary64, h, ofJson_number, JsonNumber.toValue]

/-- A value that can be written comes back with its instants as integers. -/
theorem ofJson_toJson {v : Value} (hordered : v.Ordered) (hfinite : v.Finite) :
    ofJson v.toJson = v.untimed := by
  induction v using nested_induction with
  | scalar v hscalar =>
      cases v with
      | int i => exact ofJson_int64 i
      | timestamp ms => exact ofJson_int64 ms
      | float x => exact ofJson_ofBinary64 (hfinite x (.refl _))
      | list items => cases hscalar
      | map fields => cases hscalar
      | _ => rfl
  | list items ih =>
      have hitems := orderedItems_iff.mp hordered
      rw [toJson_list, ofJson_array, untimed_list, List.map_map]
      congr 1
      refine List.map_congr_left fun item hitem => ?_
      exact ih item hitem (hitems item hitem) fun x hx => hfinite x (.item hx hitem)
  | map fields ih =>
      obtain ⟨hsorted, hfields⟩ := hordered
      have huntimed : (fields.map fun field => (field.1, field.2.toJson)).map
          (fun field => (field.1, ofJson field.2)) =
            fields.map fun field => (field.1, field.2.untimed) := by
        rw [List.map_map]
        refine List.map_congr_left fun field hfield => ?_
        have hvalue := ih field hfield (orderedFields_iff.mp hfields field hfield) fun x hx =>
          hfinite x (.field hx hfield)
        exact congrArg (Prod.mk field.1) hvalue
      have hnames : (fields.map fun field => (field.1, field.2.untimed)).Pairwise
          fun a b => a.1 < b.1 := List.pairwise_map.mpr hsorted
      rw [toJson_map, ofJson_object, huntimed, untimed_map, ofFields, Dict.entries_ofList hnames]

theorem untimed_of_timeless {v : Value} (h : v.Timeless) : v.untimed = v := by
  induction v using nested_induction with
  | scalar v hscalar =>
      cases v with
      | timestamp ms => exact absurd (.refl _) (h ms)
      | list items => cases hscalar
      | map fields => cases hscalar
      | _ => rfl
  | list items ih =>
      have hitems : ∀ item ∈ items, item.untimed = item := fun item hitem =>
        ih item hitem fun ms hms => h ms (.item hms hitem)
      rw [untimed_list, List.map_congr_left hitems, List.map_id']
  | map fields ih =>
      have hfields : ∀ field ∈ fields, (field.1, field.2.untimed) = field := fun field hfield =>
        congrArg (Prod.mk field.1) (ih field hfield fun ms hms => h ms (.field hms hfield))
      rw [untimed_map, List.map_congr_left hfields, List.map_id']

/-! ## Values of documents -/

theorem ofJson_eq_list {j : Json} {items : List Value} (h : ofJson j = .list items) :
    ∀ item ∈ items, ∃ i, item = ofJson i := by
  cases j with
  | array documents =>
      rw [ofJson_array] at h
      cases h
      intro item hitem
      obtain ⟨i, _, rfl⟩ := List.mem_map.mp hitem
      exact ⟨i, rfl⟩
  | number n =>
      rw [ofJson_number] at h
      rcases n.toValue_cases with ⟨i, hn⟩ | ⟨x, hn, _⟩ <;> cases hn.symm.trans h
  | _ => cases h

theorem ofJson_eq_map {j : Json} {fields : List (String × Value)} (h : ofJson j = .map fields) :
    (fields.Pairwise fun a b => a.1 < b.1) ∧ ∀ field ∈ fields, ∃ i, field.2 = ofJson i := by
  cases j with
  | object documents =>
      rw [ofJson_object, ofFields] at h
      cases h
      refine ⟨Dict.sorted _, fun field hfield => ?_⟩
      obtain ⟨written, _, rfl⟩ := List.mem_map.mp (Dict.mem_of_mem_ofList hfield)
      exact ⟨written.2, rfl⟩
  | number n =>
      rw [ofJson_number] at h
      rcases n.toValue_cases with ⟨i, hn⟩ | ⟨x, hn, _⟩ <;> cases hn.symm.trans h
  | _ => cases h

/-- All that stands in the value of a document is the value of a document. -/
theorem exists_of_within_ofJson {v : Value} {j : Json} (h : v.Within (ofJson j)) :
    ∃ i, v = ofJson i := by
  generalize hw : ofJson j = w at h
  induction h generalizing j with
  | refl => exact ⟨j, hw.symm⟩
  | item _ hitem ih =>
      obtain ⟨i, hi⟩ := ofJson_eq_list hw _ hitem
      exact ih hi.symm
  | field _ hfield ih =>
      obtain ⟨i, hi⟩ := (ofJson_eq_map hw).2 _ hfield
      exact ih hi.symm

theorem finite_ofJson (j : Json) : (ofJson j).Finite := by
  intro x hx
  obtain ⟨i, hi⟩ := exists_of_within_ofJson hx
  cases i with
  | number n =>
      rw [ofJson_number] at hi
      rcases n.toValue_cases with ⟨_, hn⟩ | ⟨y, hn, hy⟩
      · cases hi.trans hn
      · cases hi.trans hn
        exact hy
  | _ => cases hi

theorem timeless_ofJson (j : Json) : (ofJson j).Timeless := by
  intro ms hms
  obtain ⟨i, hi⟩ := exists_of_within_ofJson hms
  cases i with
  | number n =>
      rw [ofJson_number] at hi
      rcases n.toValue_cases with ⟨_, hn⟩ | ⟨_, hn, _⟩ <;> cases hi.trans hn
  | _ => cases hi

theorem ordered_of_within {v : Value}
    (h : ∀ fields, (Value.map fields).Within v → fields.Pairwise fun a b => a.1 < b.1) :
    v.Ordered := by
  induction v using nested_induction with
  | scalar v hscalar =>
      cases v with
      | list items => cases hscalar
      | map fields => cases hscalar
      | _ => trivial
  | list items ih =>
      exact orderedItems_iff.mpr fun item hitem =>
        ih item hitem fun fields hfields => h fields (.item hfields hitem)
  | map fields ih =>
      refine ⟨h fields (.refl _), orderedFields_iff.mpr fun field hfield => ?_⟩
      exact ih field hfield fun others hothers => h others (.field hothers hfield)

theorem ordered_ofJson (j : Json) : (ofJson j).Ordered :=
  ordered_of_within fun _ hfields =>
    have ⟨_, hi⟩ := exists_of_within_ofJson hfields
    (ofJson_eq_map hi.symm).1

end Value

end KeyedQuery
