import Mathlib.Data.Set.Defs
import KeyedQuery.Sorting
import KeyedQuery.Proofs.Binary64.Monotone
import KeyedQuery.Proofs.Value.Equality

/-!
# The order of sort keys

Sort keys are compared by their variants first, and then by what they hold.  All of
this is a linear order but for one thing: two integers compare exactly, while an
integer and a floating-point number compare after the integer is rounded.  So a
floating-point number can equal two different integers, and then the three have no
place in one order.  That is the only way in which transitivity fails.
-/

namespace KeyedQuery

open Std

theorem Binary64.compare?_swap (x y : Binary64) :
    (y.compare? x).getD .eq = ((x.compare? y).getD .eq).swap := by
  unfold compare?
  rw [Bool.or_comm, ← Int.compare_swap x.rank]
  split <;> rfl

namespace Value

/-! ## Variants first, numbers last -/

/-- What two values are compared by besides numbers: their variants, and what else they hold. -/
def compareVariants : Value → Value → Ordering :=
  compareLex (compareOn variantRank) <| compareLex (compareOn asBool?) <|
    compareLex (compareOn asString?) (compareOn fun v => v.asTimestamp?.map Int64.toInt)

instance : TransCmp compareVariants := by
  unfold compareVariants
  infer_instance

/-- The order of two numbers; values that are not both numbers are alike here. -/
def compareNumbers : Value → Value → Ordering
  | .int i, .int j => compare i.toInt j.toInt
  | v, w =>
      match v.asBinary64?, w.asBinary64? with
      | some x, some y => (x.compare? y).getD .eq
      | _, _ => .eq

theorem compare_some {α : Type} [Ord α] (a b : α) : compare (some a) (some b) = compare a b :=
  rfl

theorem compareKeys_some (v w : Value) :
    compareKeys (some v) (some w) = (compareVariants v w).then (compareNumbers v w) := by
  have hcases : compareKeys (some v) (some w) =
      (v.compare? w).getD (compare v.variantRank w.variantRank) := by
    cases h : v.compare? w <;> simp [compareKeys, h]
  rw [hcases]
  cases v <;> cases w <;> first
    | rfl
    | simp [compare?, compareVariants, compareNumbers, compareLex, compareOn, variantRank,
        asBool?, asString?, asTimestamp?, asBinary64?, compare_some]

theorem compareNumbers_swap (v w : Value) : compareNumbers w v = (compareNumbers v w).swap := by
  cases v with
  | int i =>
      cases w with
      | int j => exact (Int.compare_swap _ _).symm
      | float y => exact Binary64.compare?_swap _ _
      | _ => rfl
  | float x =>
      cases w with
      | int j => exact Binary64.compare?_swap _ _
      | float y => exact Binary64.compare?_swap _ _
      | _ => rfl
  | _ => cases w <;> rfl

end Value

/-- The order of two sort keys is the reverse of their order the other way around. -/
theorem compareKeys_swap (a b : Option Value) : compareKeys b a = (compareKeys a b).swap := by
  cases a with
  | none => cases b <;> rfl
  | some v =>
      cases b with
      | none => rfl
      | some w =>
          rw [Value.compareKeys_some, Value.compareKeys_some, Ordering.swap_then,
            ← Value.compareNumbers_swap, ← OrientedCmp.eq_swap]

theorem compareKeys_self (a : Option Value) : compareKeys a a = .eq := by
  have h := compareKeys_swap a a
  cases hself : compareKeys a a with
  | eq => rfl
  | lt => simp [hself] at h
  | gt => simp [hself] at h

namespace Value

/-! ## Numbers -/

variable {u v w : Value} {x y z : Binary64}

theorem isSome_asBinary64? (v : Value) : v.asBinary64?.isSome = (v.variantRank == 2) := by
  cases v <;> rfl

theorem compareNumbers_of_none (h : u.asBinary64? = none) (w : Value) :
    compareNumbers u w = .eq := by
  cases u <;> first | rfl | cases h

theorem both_int_or_compareNumbers_eq (hx : v.asBinary64? = some x) (hy : w.asBinary64? = some y) :
    (∃ i j, v = .int i ∧ w = .int j) ∨ compareNumbers v w = (x.compare? y).getD .eq := by
  cases v with
  | int i =>
      cases w with
      | int j => exact .inl ⟨i, j, rfl, rfl⟩
      | _ => exact .inr (by simp [compareNumbers, hx, hy])
  | _ => exact .inr (by simp [compareNumbers, hx, hy])

theorem isLE_compare? (hx : x.isNaN = false) (hy : y.isNaN = false) :
    ((x.compare? y).getD .eq).isLE = true ↔ x.rank ≤ y.rank := by
  simp [Binary64.compare?, hx, hy, Int.isLE_compare]

/-- Numbers in order are in order after rounding as well. -/
theorem rank_le_of_isLE (hx : v.asBinary64? = some x) (hy : w.asBinary64? = some y)
    (hxn : x.isNaN = false) (hyn : y.isNaN = false) (h : (compareNumbers v w).isLE = true) :
    x.rank ≤ y.rank := by
  rcases both_int_or_compareNumbers_eq hx hy with ⟨i, j, rfl, rfl⟩ | hcompare
  · cases hx
    cases hy
    exact Binary64.rank_ofInt_mono (Int.isLE_compare.mp h)
  · rw [hcompare] at h
    exact (isLE_compare? hxn hyn).mp h

/-- Numbers that are in order after rounding are in order, but for two integers. -/
theorem isLE_of_rank_le (hx : v.asBinary64? = some x) (hy : w.asBinary64? = some y)
    (hxn : x.isNaN = false) (hyn : y.isNaN = false) (h : x.rank ≤ y.rank) :
    (compareNumbers v w).isLE = true ∨ ∃ i j, v = .int i ∧ w = .int j ∧ j.toInt < i.toInt := by
  rcases both_int_or_compareNumbers_eq hx hy with ⟨i, j, rfl, rfl⟩ | hcompare
  · by_cases hle : i.toInt ≤ j.toInt
    · exact .inl (Int.isLE_compare.mpr hle)
    · exact .inr ⟨i, j, rfl, rfl, Int.not_le.mp hle⟩
  · rw [hcompare]
    exact .inl ((isLE_compare? hxn hyn).mpr h)

theorem isNaN_of_asBinary64? (hv : ∀ y, v = .float y → y.isNaN = false)
    (hx : v.asBinary64? = some x) : x.isNaN = false := by
  cases v with
  | int i =>
      cases hx
      exact Binary64.isNaN_ofInt _
  | float y =>
      cases hx
      exact hv _ rfl
  | _ => cases hx

theorem isSome_asBinary64?_of_compareVariants (h : compareVariants v w = .eq) :
    v.asBinary64?.isSome = w.asBinary64?.isSome := by
  have hrank : v.variantRank = w.variantRank := by
    simp only [compareVariants, compareLex, Ordering.then_eq_eq] at h
    exact Nat.compare_eq_eq.mp h.1
  rw [isSome_asBinary64?, isSome_asBinary64?, hrank]

end Value

/-! ## Transitivity -/

/-- No sort key is a floating-point number that is not a number. -/
def NoNaN (keys : Set (Option Value)) : Prop :=
  ∀ x, some (.float x) ∈ keys → x.isNaN = false

/-- Among the sort keys are two different integers, and a number that both are rounded to. -/
def RoundTogether (keys : Set (Option Value)) : Prop :=
  ∃ i j x, i ≠ j ∧ some (.int i) ∈ keys ∧ some (.int j) ∈ keys ∧ some (.float x) ∈ keys ∧
    (Binary64.ofInt i.toInt).sameNumber x = true ∧ (Binary64.ofInt j.toInt).sameNumber x = true

/-- The order of sort keys is transitive on some of them. -/
def TransitiveOn (keys : Set (Option Value)) : Prop :=
  ∀ a ∈ keys, ∀ b ∈ keys, ∀ c ∈ keys,
    (compareKeys a b).isLE = true → (compareKeys b c).isLE = true → (compareKeys a c).isLE = true

section Transitivity

variable {keys : Set (Option Value)} {u v w : Value}

/-- Three numbers in order: only a middle one that the outer two are rounded to can mislead. -/
theorem isLE_compareNumbers_trans (hnan : NoNaN keys) (hround : ¬ RoundTogether keys)
    (hu : some u ∈ keys) (hv : some v ∈ keys) (hw : some w ∈ keys)
    (huv : u.asBinary64?.isSome = v.asBinary64?.isSome)
    (hvw : v.asBinary64?.isSome = w.asBinary64?.isSome)
    (hfirst : (u.compareNumbers v).isLE = true) (hsecond : (v.compareNumbers w).isLE = true) :
    (u.compareNumbers w).isLE = true := by
  cases hx : u.asBinary64? with
  | none =>
      rw [Value.compareNumbers_of_none hx]
      rfl
  | some x =>
      obtain ⟨y, hy⟩ := Option.isSome_iff_exists.mp (huv.symm.trans (by rw [hx]; rfl))
      obtain ⟨z, hz⟩ := Option.isSome_iff_exists.mp (hvw.symm.trans (by rw [hy]; rfl))
      have hxn := Value.isNaN_of_asBinary64? (fun x h => hnan x (h ▸ hu)) hx
      have hyn := Value.isNaN_of_asBinary64? (fun y h => hnan y (h ▸ hv)) hy
      have hzn := Value.isNaN_of_asBinary64? (fun z h => hnan z (h ▸ hw)) hz
      have hxy := Value.rank_le_of_isLE hx hy hxn hyn hfirst
      have hyz := Value.rank_le_of_isLE hy hz hyn hzn hsecond
      rcases Value.isLE_of_rank_le hx hz hxn hzn (Int.le_trans hxy hyz) with hle | hints
      · exact hle
      · obtain ⟨i, k, rfl, rfl, hlt⟩ := hints
        cases hx
        cases hz
        have hzx := Binary64.rank_ofInt_mono (Int.le_of_lt hlt)
        cases v with
        | int j =>
            have hij : i.toInt ≤ j.toInt := Int.isLE_compare.mp hfirst
            have hjk : j.toInt ≤ k.toInt := Int.isLE_compare.mp hsecond
            omega
        | float y =>
            cases hy
            refine absurd ⟨i, k, y, ?_, hu, hw, hv, ?_, ?_⟩ hround
            · rintro rfl
              omega
            · exact Binary64.sameNumber_iff.mpr ⟨hxn, hyn, by omega⟩
            · exact Binary64.sameNumber_iff.mpr ⟨hzn, hyn, by omega⟩
        | _ => cases hy

theorem transitiveOn_of_not_roundTogether (hnan : NoNaN keys) (hround : ¬ RoundTogether keys) :
    TransitiveOn keys := by
  intro a ha b hb c hc hab hbc
  cases a with
  | none => cases c <;> rfl
  | some u =>
      cases b with
      | none => cases hab
      | some v =>
          cases c with
          | none => cases hbc
          | some w =>
              rw [Value.compareKeys_some, Ordering.isLE_then_iff_or] at hab hbc ⊢
              rcases hab with huv | ⟨huv, hfirst⟩
              · refine .inl (TransCmp.lt_of_lt_of_isLE huv ?_)
                rcases hbc with hvw | ⟨hvw, _⟩ <;> rw [hvw] <;> rfl
              · rcases hbc with hvw | ⟨hvw, hsecond⟩
                · exact .inl (TransCmp.lt_of_eq_of_lt huv hvw)
                · refine .inr ⟨TransCmp.eq_trans huv hvw, ?_⟩
                  exact isLE_compareNumbers_trans hnan hround ha hb hc
                    (Value.isSome_asBinary64?_of_compareVariants huv)
                    (Value.isSome_asBinary64?_of_compareVariants hvw) hfirst hsecond

/-- Where it is transitive, the order of sort keys has all properties of a preorder. -/
theorem TransitiveOn.transCmp (h : TransitiveOn keys) :
    TransCmp fun a b : {k // k ∈ keys} => compareKeys a.1 b.1 where
  eq_swap := compareKeys_swap _ _
  isLE_trans {a b c} hab hbc := h a.1 a.2 b.1 b.2 c.1 c.2 hab hbc

theorem compareKeys_of_sameNumber {i : Int64} {x : Binary64}
    (h : (Binary64.ofInt i.toInt).sameNumber x = true) :
    compareKeys (some (.int i)) (some (.float x)) = .eq := by
  have hcompare : (Binary64.ofInt i.toInt).compare? x = some .eq := by
    simpa [Binary64.sameNumber] using h
  simp [compareKeys, Value.compare?, hcompare]

theorem compareKeys_int {i j : Int64} (h : i.toInt < j.toInt) :
    compareKeys (some (.int j)) (some (.int i)) = .gt :=
  Int.compare_eq_gt.mpr h

theorem exists_of_roundTogether (h : RoundTogether keys) :
    ∃ a ∈ keys, ∃ b ∈ keys, ∃ c ∈ keys,
      compareKeys a b = .eq ∧ compareKeys b c = .eq ∧ compareKeys a c = .gt := by
  obtain ⟨i, j, x, hne, hi, hj, hx, hix, hjx⟩ := h
  have hsame : ∀ {k : Int64}, (Binary64.ofInt k.toInt).sameNumber x = true →
      compareKeys (some (.float x)) (some (.int k)) = .eq := by
    intro k hk
    rw [compareKeys_swap, compareKeys_of_sameNumber hk]
    rfl
  rcases Int.lt_or_gt_of_ne (fun heq => hne (Int64.toInt_inj.mp heq)) with hlt | hgt
  · exact ⟨_, hj, _, hx, _, hi, compareKeys_of_sameNumber hjx, hsame hix, compareKeys_int hlt⟩
  · exact ⟨_, hi, _, hx, _, hj, compareKeys_of_sameNumber hix, hsame hjx, compareKeys_int hgt⟩

end Transitivity

/--
The order of sort keys is the same in both directions, and every key is equal to itself.
Among keys that are numbers, or not numbers at all, it is a total preorder as long as no
two different integers are rounded to one floating-point number among the keys: it is
transitive, strictly so if a step is strict, and equal keys compare alike with every
other.  Where two integers do meet in a floating-point number, it is not transitive.
-/
theorem compareKeys_preorder (keys : Set (Option Value)) :
    (∀ a b, compareKeys b a = (compareKeys a b).swap) ∧
      (∀ a, compareKeys a a = .eq) ∧
      (NoNaN keys →
        (¬ RoundTogether keys → ∀ a ∈ keys, ∀ b ∈ keys, ∀ c ∈ keys,
          ((compareKeys a b).isLE = true → (compareKeys b c).isLE = true →
            (compareKeys a c).isLE = true ∧
              (compareKeys a b = .lt ∨ compareKeys b c = .lt → compareKeys a c = .lt)) ∧
          (compareKeys a b = .eq → compareKeys a c = compareKeys b c)) ∧
        (RoundTogether keys → ∃ a ∈ keys, ∃ b ∈ keys, ∃ c ∈ keys,
          compareKeys a b = .eq ∧ compareKeys b c = .eq ∧ compareKeys a c = .gt)) := by
  refine ⟨compareKeys_swap, compareKeys_self, fun hnan => ⟨?_, exists_of_roundTogether⟩⟩
  intro hround
  have htrans := transitiveOn_of_not_roundTogether hnan hround
  have hpreorder := htrans.transCmp
  have hstrict : ∀ a b c : {k // k ∈ keys}, (compareKeys a.1 b.1).isLE = true →
      (compareKeys b.1 c.1).isLE = true →
      compareKeys a.1 b.1 = .lt ∨ compareKeys b.1 c.1 = .lt → compareKeys a.1 c.1 = .lt := by
    intro a b c hab hbc hlt
    rcases hlt with hlt | hlt
    · exact hpreorder.lt_of_lt_of_isLE hlt hbc
    · exact hpreorder.lt_of_isLE_of_lt hab hlt
  have hequal : ∀ a b c : {k // k ∈ keys}, compareKeys a.1 b.1 = .eq →
      compareKeys a.1 c.1 = compareKeys b.1 c.1 :=
    fun a b c heq => hpreorder.congr_left heq
  intro a ha b hb c hc
  refine ⟨fun hab hbc => ⟨htrans a ha b hb c hc hab hbc, ?_⟩, ?_⟩
  · exact hstrict ⟨a, ha⟩ ⟨b, hb⟩ ⟨c, hc⟩ hab hbc
  · exact hequal ⟨a, ha⟩ ⟨b, hb⟩ ⟨c, hc⟩

/-- A float equal to two integers, of which the one that comes last is the smaller. -/
theorem compareKeys_not_transitive :
    compareKeys (some (.int 9007199254740993)) (some (.float ⟨0x4340000000000000⟩)) = .eq ∧
      compareKeys (some (.float ⟨0x4340000000000000⟩)) (some (.int 9007199254740992)) = .eq ∧
      compareKeys (some (.int 9007199254740993)) (some (.int 9007199254740992)) = .gt := by
  decide +kernel

end KeyedQuery
