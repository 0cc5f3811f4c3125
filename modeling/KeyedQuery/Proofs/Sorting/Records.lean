import KeyedQuery.Proofs.Sorting.Keys
import KeyedQuery.Proofs.Sorting.Stable

/-!
# The order of records

Records are compared field by field, the first difference deciding.  Where the sort keys
of each field are in order among themselves, so are the records, and the sort is the one
stable rearrangement of them in that order.
-/

namespace KeyedQuery

open Std

namespace Direction

variable {o : Ordering}

theorem orient_desc : desc.orient o = o.swap :=
  rfl

@[simp] theorem orient_eq_eq_iff (d : Direction) : d.orient o = .eq ↔ o = .eq := by
  cases d <;> cases o <;> decide

theorem swap_orient (d : Direction) (o : Ordering) : (d.orient o).swap = d.orient o.swap := by
  cases d <;> rfl

end Direction

namespace KeySchema

variable {s : KeySchema} {records : List Record} {order : List OrderSpec} {a b : Record}

/-- The order of two records by one field, in its direction. -/
def compareField (s : KeySchema) (spec : OrderSpec) (a b : Record) : Ordering :=
  spec.direction.orient (compareKeys (s.sortKeyOf spec.field a) (s.sortKeyOf spec.field b))

/-- The sort keys that records have for a field. -/
def keysOf (s : KeySchema) (field : String) (records : List Record) : Set (Option Value) :=
  {k | ∃ r ∈ records, s.sortKeyOf field r = k}

/-- Two records have equal sort keys for every field of an order. -/
def tied (s : KeySchema) (order : List OrderSpec) (a b : Record) : Bool :=
  order.all fun spec => compareKeys (s.sortKeyOf spec.field a) (s.sortKeyOf spec.field b) == .eq

/-- The first field of an order in which two records differ does not tell that `a` is behind `b`. -/
def NotBehind (s : KeySchema) (order : List OrderSpec) (a b : Record) : Prop :=
  ∀ earlier spec later, order = earlier ++ spec :: later → s.tied earlier a b = true →
    s.compareField spec a b ≠ .gt

theorem compareField_swap (spec : OrderSpec) (a b : Record) :
    s.compareField spec a b = (s.compareField spec b a).swap := by
  rw [compareField, compareField, Direction.swap_orient, ← compareKeys_swap]

theorem compareRecords_nil (s : KeySchema) : s.compareRecords [] = fun _ _ => .eq :=
  rfl

theorem compareRecords_cons (s : KeySchema) (spec : OrderSpec) (rest : List OrderSpec) :
    s.compareRecords (spec :: rest) = compareLex (s.compareField spec) (s.compareRecords rest) := by
  funext a b
  rw [compareRecords, compareLex]
  rw [compareField]
  cases spec.direction.orient _ <;> rfl

theorem compareRecords_append (s : KeySchema) (first second : List OrderSpec) :
    s.compareRecords (first ++ second) =
      compareLex (s.compareRecords first) (s.compareRecords second) := by
  induction first with
  | nil =>
      funext a b
      rw [compareRecords_nil]
      rfl
  | cons spec rest ih =>
      rw [List.cons_append, compareRecords_cons, ih, compareRecords_cons]
      funext a b
      exact (Ordering.then_assoc _ _ _).symm

theorem compareRecords_eq_eq_iff :
    s.compareRecords order a b = .eq ↔ s.tied order a b = true := by
  induction order with
  | nil => exact ⟨fun _ => rfl, fun _ => rfl⟩
  | cons spec rest ih =>
      rw [compareRecords_cons, compareLex, Ordering.then_eq_eq, ih, compareField]
      simp [tied]

theorem notBehind_of_isLE (h : (s.compareRecords order a b).isLE = true) :
    s.NotBehind order a b := by
  intro earlier spec later horder htied hgt
  rw [horder, compareRecords_append, compareRecords_cons, compareLex, compareLex,
    compareRecords_eq_eq_iff.mpr htied, hgt] at h
  cases h

/-! ## Where the keys of each field are in order -/

theorem transCmp_compareField {spec : OrderSpec}
    (h : TransitiveOn (s.keysOf spec.field records)) :
    TransCmp fun a b : {r // r ∈ records} => s.compareField spec a.1 b.1 := by
  have hkey : ∀ r : {r // r ∈ records}, s.sortKeyOf spec.field r.1 ∈ s.keysOf spec.field records :=
    fun r => ⟨r.1, r.2, rfl⟩
  refine { eq_swap := compareField_swap spec _ _, isLE_trans := fun {a b c} hab hbc => ?_ }
  unfold compareField at *
  cases hdirection : spec.direction with
  | asc =>
      rw [hdirection] at hab hbc
      exact h _ (hkey a) _ (hkey b) _ (hkey c) hab hbc
  | desc =>
      rw [hdirection, Direction.orient_desc, ← compareKeys_swap] at hab hbc
      rw [Direction.orient_desc, ← compareKeys_swap]
      exact h _ (hkey c) _ (hkey b) _ (hkey a) hbc hab

theorem transCmp_compareRecords
    (h : ∀ spec ∈ order, TransitiveOn (s.keysOf spec.field records)) :
    TransCmp fun a b : {r // r ∈ records} => s.compareRecords order a.1 b.1 := by
  induction order with
  | nil =>
      exact { eq_swap := rfl, isLE_trans := fun _ _ => rfl }
  | cons spec rest ih =>
      have hfield := transCmp_compareField (h spec List.mem_cons_self)
      have hrest := ih fun other hother => h other (List.mem_cons_of_mem spec hother)
      rw [compareRecords_cons]
      exact inferInstanceAs (TransCmp (compareLex _ _))

/-- Sorting records is sorting them as what they are: records of a list. -/
theorem sortRecords_eq_map (s : KeySchema) (order : List OrderSpec)
    (xs : List {r // r ∈ records}) :
    s.sortRecords order (xs.map Subtype.val) =
      (stableSort (precedes fun a b : {r // r ∈ records} => s.compareRecords order a.1 b.1)
        xs).map Subtype.val :=
  stableSort_map _ _ xs

theorem filter_tied_eq_map (s : KeySchema) (order : List OrderSpec) (r : {r // r ∈ records})
    (xs : List {r // r ∈ records}) :
    (xs.map Subtype.val).filter (s.tied order r.1) =
      (alike (fun a b : {r // r ∈ records} => s.compareRecords order a.1 b.1) r xs).map
        Subtype.val := by
  rw [List.filter_map, alike]
  congr 2
  funext x
  rw [Function.comp_apply, Bool.eq_iff_iff, ← compareRecords_eq_eq_iff, beq_iff_eq]

/-- Keys none of which is a floating-point number are in order. -/
theorem transitiveOn_of_no_float {keys : Set (Option Value)}
    (h : ∀ x, some (.float x) ∉ keys) : TransitiveOn keys :=
  transitiveOn_of_not_roundTogether (fun x hx => absurd hx (h x))
    fun ⟨_, _, x, _, _, _, hx, _⟩ => h x hx

/-- Whether a record has a floating-point number as sort key for a field. -/
def hasFloat (s : KeySchema) (field : String) (records : List Record) : Bool :=
  records.any fun r =>
    match s.sortKeyOf field r with
    | some (.float _) => true
    | _ => false

theorem not_mem_keysOf_of_hasFloat {field : String} (h : s.hasFloat field records = false)
    (x : Binary64) : some (.float x) ∉ s.keysOf field records := by
  rintro ⟨r, hr, hkey⟩
  have hfloat := List.any_eq_false.mp h r hr
  simp [hkey] at hfloat

/-- An absent value, or one that is null, is not behind another in ascending order. -/
theorem present_of_notBehind (h : s.NotBehind order a b) {earlier later : List OrderSpec}
    {spec : OrderSpec} (horder : order = earlier ++ spec :: later)
    (htied : s.tied earlier a b = true) :
    (spec.direction = .asc → (b.present? spec.field).isNone → (a.present? spec.field).isNone) ∧
      (spec.direction = .desc → (a.present? spec.field).isNone →
        (b.present? spec.field).isNone) := by
  have hfield := h earlier spec later horder htied
  unfold compareField sortKeyOf at hfield
  refine ⟨fun hasc hb => ?_, fun hdesc ha => ?_⟩
  · rw [hasc, Option.isNone_iff_eq_none.mp hb] at hfield
    cases ha : a.present? spec.field with
    | none => rfl
    | some v =>
        rw [ha] at hfield
        exact absurd rfl hfield
  · rw [hdesc, Option.isNone_iff_eq_none.mp ha] at hfield
    cases hb : b.present? spec.field with
    | none => rfl
    | some v =>
        rw [hb] at hfield
        exact absurd rfl hfield

/--
Sorting rearranges records so that none stands behind another before which it belongs by
the first field in which they differ, and records that are tied on all fields keep their
places among each other.  Records without a value for a field come first among those
tied on the fields before it, and last where the field is descending.  Sorting again
changes nothing, and an order may be sorted by in two steps, its later fields first.
All this needs of the values is that the sort keys of each field are in order among
themselves, which they are if none of them is a floating-point number.
-/
theorem sortRecords_stable (s : KeySchema) (order : List OrderSpec) (records : List Record)
    (hkeys : ∀ spec ∈ order, TransitiveOn (s.keysOf spec.field records) ∨
      ∀ x, some (.float x) ∉ s.keysOf spec.field records) :
    (s.sortRecords order records).Perm records ∧
      ((s.sortRecords order records).Pairwise fun a b => s.NotBehind order a b ∧
        ∀ earlier spec later, order = earlier ++ spec :: later → s.tied earlier a b = true →
          (spec.direction = .asc → (b.present? spec.field).isNone →
            (a.present? spec.field).isNone) ∧
          (spec.direction = .desc → (a.present? spec.field).isNone →
            (b.present? spec.field).isNone)) ∧
      (∀ r ∈ records, (s.sortRecords order records).filter (s.tied order r) =
        records.filter (s.tied order r)) ∧
      s.sortRecords order (s.sortRecords order records) = s.sortRecords order records ∧
      ∀ first second, order = first ++ second →
        s.sortRecords order records = s.sortRecords first (s.sortRecords second records) := by
  have htrans : ∀ spec ∈ order, TransitiveOn (s.keysOf spec.field records) := by
    intro spec hspec
    exact (hkeys spec hspec).elim id transitiveOn_of_no_float
  have hcmp := transCmp_compareRecords htrans
  have hsorted := s.sortRecords_eq_map order records.attach
  rw [List.attach_map_subtype_val] at hsorted
  refine ⟨s.perm_sortRecords order records, ?_, fun r hr => ?_, ?_, fun first second happend => ?_⟩
  · rw [hsorted, List.pairwise_map]
    refine (inOrder_stableSort records.attach).imp fun hle => ?_
    have hbehind := notBehind_of_isLE hle
    exact ⟨hbehind, fun earlier spec later => present_of_notBehind hbehind⟩
  · have hrecords := s.filter_tied_eq_map order ⟨r, hr⟩ records.attach
    rw [List.attach_map_subtype_val] at hrecords
    rw [hsorted, hrecords, filter_tied_eq_map s order ⟨r, hr⟩, alike_stableSort]
  · rw [hsorted, sortRecords_eq_map, stableSort_of_inOrder (inOrder_stableSort _)]
  · subst happend
    have hfirst := transCmp_compareRecords fun spec hspec =>
      htrans spec (List.mem_append_left second hspec)
    have hsecond := transCmp_compareRecords fun spec hspec =>
      htrans spec (List.mem_append_right first hspec)
    have hinner := s.sortRecords_eq_map second records.attach
    rw [List.attach_map_subtype_val] at hinner
    rw [hsorted, hinner, sortRecords_eq_map, ← stableSort_compareLex, compareRecords_append]
    rfl

/-- Numbers as text and as integers, one that is null, one that is absent, and a list. -/
def mixedNumbers : List Record :=
  [.ofList [("id", .string "a"), ("n", .string "10")], .ofList [("id", .string "b"), ("n", .null)],
    .ofList [("id", .string "c"), ("n", .int 9)], .ofList [("id", .string "d")],
    .ofList [("id", .string "e"), ("n", .list [])],
    .ofList [("id", .string "f"), ("n", .string "9")]]

theorem sortRecords_stable_mixedNumbers :
    let s := (KeySchema.ofHashKey "id" .string).declare "n" .number
    let order := [⟨"n", .desc⟩, ⟨"id", .asc⟩]
    s.hasFloat "n" mixedNumbers = false ∧ s.hasFloat "id" mixedNumbers = false ∧
      (s.sortRecords order mixedNumbers).Perm mixedNumbers ∧
      s.sortRecords order mixedNumbers =
        s.sortRecords [⟨"n", .desc⟩] (s.sortRecords [⟨"id", .asc⟩] mixedNumbers) := by
  intro s order
  have hn : s.hasFloat "n" mixedNumbers = false := by decide +kernel
  have hid : s.hasFloat "id" mixedNumbers = false := by decide +kernel
  obtain ⟨hperm, _, _, _, hsteps⟩ := sortRecords_stable s order mixedNumbers fun spec hspec => by
    rcases List.mem_cons.mp hspec with rfl | hspec
    · exact .inr (not_mem_keysOf_of_hasFloat hn)
    · rw [List.mem_singleton.mp hspec]
      exact .inr (not_mem_keysOf_of_hasFloat hid)
  exact ⟨hn, hid, hperm, hsteps [⟨"n", .desc⟩] [⟨"id", .asc⟩] rfl⟩

example :
    (((KeySchema.ofHashKey "id" .string).declare "n" .number).sortRecords
      [⟨"n", .desc⟩, ⟨"id", .asc⟩] mixedNumbers).map (fun r => (r.get? "id").bind Value.asString?) =
        ["e", "a", "c", "f", "b", "d"].map some := by
  decide +kernel

end KeySchema

end KeyedQuery
