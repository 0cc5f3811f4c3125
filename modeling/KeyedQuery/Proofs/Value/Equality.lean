import KeyedQuery.Value.Basic

/-!
# The two equalities of values

Equality of keys is symmetric and transitive; it is not reflexive, because what
is not a number differs from itself.  Equality of conditions goes beyond it for
one pair of variants only: an integer and a floating-point number may be equal
there.
-/

namespace KeyedQuery

namespace Binary64

theorem sameNumber_iff {x y : Binary64} :
    x.sameNumber y = true ↔ x.isNaN = false ∧ y.isNaN = false ∧ x.rank = y.rank := by
  unfold sameNumber compare?
  cases x.isNaN <;> cases y.isNaN <;> simp

theorem sameNumber_symm {x y : Binary64} (h : x.sameNumber y = true) :
    y.sameNumber x = true := by
  obtain ⟨hx, hy, hrank⟩ := sameNumber_iff.mp h
  exact sameNumber_iff.mpr ⟨hy, hx, hrank.symm⟩

theorem sameNumber_trans {x y z : Binary64} (hxy : x.sameNumber y = true)
    (hyz : y.sameNumber z = true) : x.sameNumber z = true := by
  obtain ⟨hx, _, hrank⟩ := sameNumber_iff.mp hxy
  obtain ⟨_, hz, hrank'⟩ := sameNumber_iff.mp hyz
  exact sameNumber_iff.mpr ⟨hx, hz, hrank.trans hrank'⟩

end Binary64

namespace Value

/-! ## What equals a value of a variant -/

@[simp] theorem same_bool_iff {b : Bool} {v : Value} : (bool b).same v = true ↔ v = .bool b := by
  cases v with
  | bool c => exact beq_iff_eq.trans ⟨fun h => by rw [h], fun h => (bool.inj h).symm⟩
  | _ => constructor <;> intro h <;> cases h

@[simp] theorem same_int_iff {i : Int64} {v : Value} : (int i).same v = true ↔ v = .int i := by
  cases v with
  | int j => exact beq_iff_eq.trans ⟨fun h => by rw [h], fun h => (int.inj h).symm⟩
  | _ => constructor <;> intro h <;> cases h

@[simp] theorem same_float_iff {x : Binary64} {v : Value} :
    (float x).same v = true ↔ ∃ y, v = .float y ∧ x.sameNumber y = true := by
  constructor
  · intro h
    cases v with
    | float y => exact ⟨y, rfl, h⟩
    | _ => cases h
  · rintro ⟨y, rfl, h⟩
    exact h

@[simp] theorem same_string_iff {s : String} {v : Value} :
    (string s).same v = true ↔ v = .string s := by
  cases v with
  | string t => exact beq_iff_eq.trans ⟨fun h => by rw [h], fun h => (string.inj h).symm⟩
  | _ => constructor <;> intro h <;> cases h

@[simp] theorem same_timestamp_iff {ms : Int64} {v : Value} :
    (timestamp ms).same v = true ↔ v = .timestamp ms := by
  cases v with
  | timestamp other => exact beq_iff_eq.trans ⟨fun h => by rw [h], fun h => (timestamp.inj h).symm⟩
  | _ => constructor <;> intro h <;> cases h

@[simp] theorem same_list_iff {items : List Value} {v : Value} :
    (list items).same v = true ↔ ∃ others, v = .list others ∧ sameItems items others = true := by
  constructor
  · intro h
    cases v with
    | list others => exact ⟨others, rfl, h⟩
    | _ => cases h
  · rintro ⟨others, rfl, h⟩
    exact h

@[simp] theorem same_map_iff {fields : List (String × Value)} {v : Value} :
    (map fields).same v = true ↔
      ∃ others, v = .map others ∧ sameFields fields others = true := by
  constructor
  · intro h
    cases v with
    | map others => exact ⟨others, rfl, h⟩
    | _ => cases h
  · rintro ⟨others, rfl, h⟩
    exact h

theorem sameItems_cons_iff {v : Value} {items others : List Value} :
    sameItems (v :: items) others = true ↔
      ∃ w rest, others = w :: rest ∧ v.same w = true ∧ sameItems items rest = true := by
  constructor
  · intro h
    cases others with
    | nil => cases h
    | cons w rest =>
        rw [sameItems_cons, Bool.and_eq_true] at h
        exact ⟨w, rest, rfl, h.1, h.2⟩
  · rintro ⟨w, rest, rfl, hsame, hrest⟩
    rw [sameItems_cons, hsame, hrest]
    rfl

theorem sameFields_cons_iff {name : String} {v : Value} {fields others : List (String × Value)} :
    sameFields ((name, v) :: fields) others = true ↔
      ∃ w rest, others = (name, w) :: rest ∧ v.same w = true ∧ sameFields fields rest = true := by
  constructor
  · intro h
    cases others with
    | nil => cases h
    | cons field rest =>
        obtain ⟨other, w⟩ := field
        rw [sameFields_cons, Bool.and_eq_true, Bool.and_eq_true, beq_iff_eq] at h
        obtain ⟨⟨rfl, hsame⟩, hrest⟩ := h
        exact ⟨w, rest, rfl, hsame, hrest⟩
  · rintro ⟨w, rest, rfl, hsame, hrest⟩
    rw [sameFields_cons, hsame, hrest, beq_self_eq_true]
    rfl

/-! ## Symmetry and transitivity -/

mutual

theorem same_symm : ∀ {v w : Value}, v.same w = true → w.same v = true
  | .null, _, h => by simp [same_null_iff.mp h]
  | .bool _, _, h => by simp [same_bool_iff.mp h]
  | .int _, _, h => by simp [same_int_iff.mp h]
  | .string _, _, h => by simp [same_string_iff.mp h]
  | .timestamp _, _, h => by simp [same_timestamp_iff.mp h]
  | .float _, _, h => by
      obtain ⟨y, rfl, hsame⟩ := same_float_iff.mp h
      simpa using Binary64.sameNumber_symm hsame
  | .list items, _, h => by
      obtain ⟨others, rfl, hsame⟩ := same_list_iff.mp h
      simpa using sameItems_symm hsame
  | .map fields, _, h => by
      obtain ⟨others, rfl, hsame⟩ := same_map_iff.mp h
      simpa using sameFields_symm hsame

theorem sameItems_symm :
    ∀ {items others : List Value}, sameItems items others = true → sameItems others items = true
  | [], [], h => h
  | v :: items, _, h => by
      obtain ⟨w, rest, rfl, hsame, hrest⟩ := sameItems_cons_iff.mp h
      simp [sameItems_cons, same_symm hsame, sameItems_symm hrest]

theorem sameFields_symm :
    ∀ {fields others : List (String × Value)},
      sameFields fields others = true → sameFields others fields = true
  | [], [], h => h
  | (name, v) :: fields, _, h => by
      obtain ⟨w, rest, rfl, hsame, hrest⟩ := sameFields_cons_iff.mp h
      simp [sameFields_cons, same_symm hsame, sameFields_symm hrest]

end

mutual

theorem same_trans :
    ∀ {u v w : Value}, u.same v = true → v.same w = true → u.same w = true
  | .null, _, _, huv, hvw => by rwa [same_null_iff.mp huv] at hvw
  | .bool _, _, _, huv, hvw => by rwa [same_bool_iff.mp huv] at hvw
  | .int _, _, _, huv, hvw => by rwa [same_int_iff.mp huv] at hvw
  | .string _, _, _, huv, hvw => by rwa [same_string_iff.mp huv] at hvw
  | .timestamp _, _, _, huv, hvw => by rwa [same_timestamp_iff.mp huv] at hvw
  | .float _, _, _, huv, hvw => by
      obtain ⟨y, rfl, hxy⟩ := same_float_iff.mp huv
      obtain ⟨z, rfl, hyz⟩ := same_float_iff.mp hvw
      simpa using Binary64.sameNumber_trans hxy hyz
  | .list items, _, _, huv, hvw => by
      obtain ⟨others, rfl, hfirst⟩ := same_list_iff.mp huv
      obtain ⟨more, rfl, hsecond⟩ := same_list_iff.mp hvw
      simpa using sameItems_trans hfirst hsecond
  | .map fields, _, _, huv, hvw => by
      obtain ⟨others, rfl, hfirst⟩ := same_map_iff.mp huv
      obtain ⟨more, rfl, hsecond⟩ := same_map_iff.mp hvw
      simpa using sameFields_trans hfirst hsecond

theorem sameItems_trans :
    ∀ {items others more : List Value},
      sameItems items others = true → sameItems others more = true → sameItems items more = true
  | [], [], _, _, h => h
  | v :: items, _, _, hfirst, hsecond => by
      obtain ⟨w, others, rfl, hvw, hothers⟩ := sameItems_cons_iff.mp hfirst
      obtain ⟨u, more, rfl, hwu, hmore⟩ := sameItems_cons_iff.mp hsecond
      simp [sameItems_cons, same_trans hvw hwu, sameItems_trans hothers hmore]

theorem sameFields_trans :
    ∀ {fields others more : List (String × Value)},
      sameFields fields others = true → sameFields others more = true →
        sameFields fields more = true
  | [], [], _, _, h => h
  | (name, v) :: fields, _, _, hfirst, hsecond => by
      obtain ⟨w, others, rfl, hvw, hothers⟩ := sameFields_cons_iff.mp hfirst
      obtain ⟨u, more, rfl, hwu, hmore⟩ := sameFields_cons_iff.mp hsecond
      simp [sameFields_cons, same_trans hvw hwu, sameFields_trans hothers hmore]

end

instance : PartialEquivBEq Value where
  symm := same_symm
  trans := same_trans

/-! ## Equality of conditions -/

/-- One of the two is an integer and the other a floating-point number. -/
def mixed : Value → Value → Bool
  | .int _, .float _ => true
  | .float _, .int _ => true
  | _, _ => false

theorem same_of_compare?_eq {v w : Value} (h : v.compare? w = some .eq)
    (hmixed : v.mixed w = false) : v.same w = true := by
  cases v <;> cases w <;> simp_all [compare?, mixed, Binary64.sameNumber, Int64.toInt_inj]

/-- Conditions tell apart what keys tell apart, but for an integer and a floating-point number. -/
theorem beq_of_looseEq {v w : Value} (h : v.looseEq w = true) (hmixed : v.mixed w = false) :
    (v == w) = true := by
  unfold looseEq at h
  split at h
  · exact same_of_compare?_eq (by simpa using h) hmixed
  · exact h

end Value

end KeyedQuery
