import KeyedQuery.Binary64.Rounding

/-!
# Finite results of rounding

An integer that is rounded has its leading power of two as grid, so at most one
carry out of the significand follows.  The integers that documents hold stay far
below infinity.
-/

namespace KeyedQuery

theorem divRoundEven_le (num den : Nat) : divRoundEven num den ≤ num / den + 1 := by
  have hodd : num / den % 2 < 2 := Nat.mod_lt _ (by decide)
  simp only [divRoundEven]
  split
  · omega
  · split <;> omega

namespace Binary64

theorem magnitude_ofMagnitude (negative : Bool) {m : Nat} (h : m < 2 ^ 63) :
    (ofMagnitude negative m).magnitude = m := by
  cases negative with
  | false =>
      simp only [ofMagnitude, magnitude, UInt64.toNat_ofNat', Bool.false_eq_true, if_false]
      omega
  | true =>
      simp only [ofMagnitude, magnitude, UInt64.toNat_ofNat', if_true]
      omega

theorem isFinite_ofMagnitude (negative : Bool) {m : Nat} (h : m < infinityMagnitude) :
    (ofMagnitude negative m).isFinite = true := by
  have hword : m < 2 ^ 63 := Nat.lt_trans h (by decide)
  simpa [isFinite, magnitude_ofMagnitude negative hword] using h

theorem leadingPower_one {n : Nat} (h : n ≠ 0) : leadingPower n 1 = Nat.log2 n := by
  have hreaches : reaches n 1 (Nat.log2 n : Int) = true := by
    simpa [reaches] using Nat.log2_self_le h
  have hone : Nat.log2 1 = 0 := by decide
  simp [leadingPower, hone, hreaches]

theorem divRoundEven_one (n : Nat) : divRoundEven n 1 = n := by
  simp [divRoundEven, Nat.mod_one]

/-- A number on the grid of its leading power, rounded: 53 digits, up to a carry. -/
def integerSignificand (n : Nat) : Nat :=
  let grid : Int := (Nat.log2 n : Int) - 52
  if 0 ≤ grid then divRoundEven n (2 ^ grid.toNat) else n * 2 ^ (-grid).toNat

theorem integerSignificand_le (n : Nat) : integerSignificand n ≤ 2 ^ 53 := by
  have hbelow : n < 2 ^ (Nat.log2 n + 1) := Nat.lt_log2_self
  simp only [integerSignificand]
  split
  · have hpower : Nat.log2 n + 1 = ((Nat.log2 n : Int) - 52).toNat + 53 := by omega
    rw [hpower, Nat.pow_add] at hbelow
    have hquotient := Nat.div_lt_of_lt_mul hbelow
    have hround := divRoundEven_le n (2 ^ ((Nat.log2 n : Int) - 52).toNat)
    omega
  · have hpower : 2 ^ (Nat.log2 n + 1) * 2 ^ (-((Nat.log2 n : Int) - 52)).toNat = 2 ^ 53 := by
      rw [← Nat.pow_add]
      congr 1
      omega
    rw [← hpower]
    exact Nat.le_of_lt (Nat.mul_lt_mul_of_pos_right hbelow (Nat.two_pow_pos _))

theorem magnitudeOfRatio_one {n : Nat} (h : n ≠ 0) :
    magnitudeOfRatio n 1 =
      min (integerSignificand n + (Nat.log2 n + 1022) * 2 ^ 52) infinityMagnitude := by
  have hgrid : max ((Nat.log2 n : Int) - 52) (-1074) = (Nat.log2 n : Int) - 52 := by omega
  have hexponent : ((Nat.log2 n : Int) - 52 + 1074).toNat = Nat.log2 n + 1022 := by omega
  simp only [magnitudeOfRatio, leadingPower_one h, hgrid, hexponent, Nat.one_mul, divRoundEven_one,
    integerSignificand]

theorem magnitudeOfRatio_one_lt {n : Nat} (h : n ≠ 0) (hbound : n < 2 ^ 64) :
    magnitudeOfRatio n 1 < infinityMagnitude := by
  have hpower : Nat.log2 n < 64 := (Nat.log2_lt h).mpr hbound
  rw [magnitudeOfRatio_one h]
  refine Nat.lt_of_le_of_lt (Nat.min_le_left _ _) ?_
  have hexponent : Nat.log2 n + 1022 ≤ 1085 := by omega
  have hlarge : 2 ^ 53 + 1085 * 2 ^ 52 < infinityMagnitude := by decide
  refine Nat.lt_of_le_of_lt (Nat.add_le_add ?_ (Nat.mul_le_mul_right _ hexponent)) hlarge
  exact integerSignificand_le n

/-- Every integer of 64 bits, signed or unsigned, rounds to a finite number. -/
theorem isFinite_ofInt {i : Int} (h : -2 ^ 63 ≤ i ∧ i < 2 ^ 64) : (ofInt i).isFinite = true := by
  unfold ofInt ofRatio
  by_cases hzero : i.natAbs = 0
  · rw [if_pos hzero]
    exact isFinite_ofMagnitude _ (by decide)
  · rw [if_neg hzero]
    exact isFinite_ofMagnitude _ (magnitudeOfRatio_one_lt hzero (by omega))

end Binary64

end KeyedQuery
