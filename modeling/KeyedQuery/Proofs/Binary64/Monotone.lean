import KeyedQuery.Proofs.Binary64.Finite

/-!
# Rounding keeps the order of integers

Of two integers with one leading power the greater has no smaller significand; of two
with different ones the greater has the larger exponent, which outweighs a carry.
Different integers may round to one number, so the order is kept only weakly.
-/

namespace KeyedQuery

theorem le_divRoundEven (num den : Nat) : num / den ≤ divRoundEven num den := by
  simp only [divRoundEven]
  split
  · omega
  · split <;> omega

/-- Of two ratios with one quotient the remainder decides. -/
theorem divRoundEven_mono {m n : Nat} (den : Nat) (h : m ≤ n) :
    divRoundEven m den ≤ divRoundEven n den := by
  have hquotient : m / den ≤ n / den := Nat.div_le_div_right h
  by_cases hsame : m / den = n / den
  · have hm := Nat.div_add_mod m den
    have hn := Nat.div_add_mod n den
    rw [hsame] at hm
    by_cases hdown : 2 * (m % den) < den
    · have hrounded : divRoundEven m den = m / den := if_pos hdown
      rw [hrounded, hsame]
      exact le_divRoundEven n den
    · by_cases hup : den < 2 * (n % den)
      · have hrounded : divRoundEven n den = n / den + 1 := by
          simp only [divRoundEven]
          rw [if_neg (by omega), if_pos hup]
        rw [hrounded, ← hsame]
        exact divRoundEven_le m den
      · -- The remainders are half of the divisor, both of them.
        have hequal : m = n := by omega
        exact Nat.le_of_eq (congrArg (divRoundEven · den) hequal)
  · have hm := divRoundEven_le m den
    have hn := le_divRoundEven n den
    omega

namespace Binary64

theorem le_integerSignificand {n : Nat} (h : n ≠ 0) : 2 ^ 52 ≤ integerSignificand n := by
  have habove : 2 ^ Nat.log2 n ≤ n := Nat.log2_self_le h
  simp only [integerSignificand]
  split
  · refine Nat.le_trans ?_ (le_divRoundEven _ _)
    rw [Nat.le_div_iff_mul_le (Nat.two_pow_pos _), ← Nat.pow_add]
    have hpower : 52 + ((Nat.log2 n : Int) - 52).toNat = Nat.log2 n := by omega
    rwa [hpower]
  · have hpower : 2 ^ Nat.log2 n * 2 ^ (-((Nat.log2 n : Int) - 52)).toNat = 2 ^ 52 := by
      rw [← Nat.pow_add]
      congr 1
      omega
    rw [← hpower]
    exact Nat.mul_le_mul_right _ habove

theorem magnitudeOfRatio_one_mono {m n : Nat} (hm : m ≠ 0) (h : m ≤ n) :
    magnitudeOfRatio m 1 ≤ magnitudeOfRatio n 1 := by
  have hn : n ≠ 0 := by omega
  rw [magnitudeOfRatio_one hm, magnitudeOfRatio_one hn]
  refine Nat.le_min.mpr ⟨Nat.le_trans (Nat.min_le_left _ _) ?_, Nat.min_le_right _ _⟩
  have hpower : Nat.log2 m ≤ Nat.log2 n := by
    rw [Nat.le_log2 hn]
    exact Nat.le_trans (Nat.log2_self_le hm) h
  by_cases hsame : Nat.log2 m = Nat.log2 n
  · have hsignificand : integerSignificand m ≤ integerSignificand n := by
      simp only [integerSignificand, hsame]
      split
      · exact divRoundEven_mono _ h
      · exact Nat.mul_le_mul_right _ h
    rw [hsame]
    exact Nat.add_le_add_right hsignificand _
  · have hnext : Nat.log2 m + 1022 + 1 ≤ Nat.log2 n + 1022 := by omega
    calc integerSignificand m + (Nat.log2 m + 1022) * 2 ^ 52
        ≤ 2 ^ 53 + (Nat.log2 m + 1022) * 2 ^ 52 := Nat.add_le_add_right (integerSignificand_le m) _
      _ = 2 ^ 52 + (Nat.log2 m + 1022 + 1) * 2 ^ 52 := by rw [Nat.add_one_mul]; omega
      _ ≤ integerSignificand n + (Nat.log2 n + 1022) * 2 ^ 52 :=
          Nat.add_le_add (le_integerSignificand hn) (Nat.mul_le_mul_right _ hnext)

/-! ## Ranks -/

theorem negative_ofMagnitude (negative : Bool) {m : Nat} (h : m < 2 ^ 63) :
    (ofMagnitude negative m).negative = negative := by
  cases negative with
  | false =>
      simp only [ofMagnitude, Binary64.negative, UInt64.toNat_ofNat', Bool.false_eq_true, if_false]
      rw [decide_eq_false_iff_not]
      omega
  | true =>
      simp only [ofMagnitude, Binary64.negative, UInt64.toNat_ofNat', if_true]
      rw [decide_eq_true_eq]
      omega

/-- The magnitude that a natural number rounds to. -/
def magnitudeOfNat (n : Nat) : Nat :=
  if n = 0 then 0 else magnitudeOfRatio n 1

theorem magnitudeOfNat_mono {m n : Nat} (h : m ≤ n) : magnitudeOfNat m ≤ magnitudeOfNat n := by
  unfold magnitudeOfNat
  by_cases hm : m = 0
  · simp [hm]
  · rw [if_neg hm, if_neg (by omega)]
    exact magnitudeOfRatio_one_mono hm h

theorem magnitudeOfNat_le (n : Nat) : magnitudeOfNat n ≤ infinityMagnitude := by
  unfold magnitudeOfNat
  split
  · exact Nat.zero_le _
  · exact Nat.min_le_right _ _

theorem magnitudeOfNat_lt (n : Nat) : magnitudeOfNat n < 2 ^ 63 :=
  Nat.lt_of_le_of_lt (magnitudeOfNat_le n) (by decide)

theorem ofInt_eq (i : Int) : ofInt i = ofMagnitude (i < 0) (magnitudeOfNat i.natAbs) :=
  rfl

theorem isNaN_ofInt (i : Int) : (ofInt i).isNaN = false := by
  rw [ofInt_eq, isNaN, magnitude_ofMagnitude _ (magnitudeOfNat_lt _), decide_eq_false_iff_not]
  exact Nat.not_lt.mpr (magnitudeOfNat_le _)

theorem rank_ofInt (i : Int) :
    (ofInt i).rank =
      if i < 0 then -(magnitudeOfNat i.natAbs : Int) else magnitudeOfNat i.natAbs := by
  have hbound := magnitudeOfNat_lt i.natAbs
  rw [ofInt_eq, rank, negative_ofMagnitude _ hbound, magnitude_ofMagnitude _ hbound]
  simp

/-- A greater integer does not round to a smaller number. -/
theorem rank_ofInt_mono {i j : Int} (h : i ≤ j) : (ofInt i).rank ≤ (ofInt j).rank := by
  rw [rank_ofInt, rank_ofInt]
  by_cases hi : i < 0
  · by_cases hj : j < 0
    · have hmono := magnitudeOfNat_mono (m := j.natAbs) (n := i.natAbs) (by omega)
      simp only [hi, hj, if_true]
      omega
    · simp only [hi, hj, if_true, if_false]
      omega
  · have hmono := magnitudeOfNat_mono (m := i.natAbs) (n := j.natAbs) (by omega)
    rw [if_neg hi, if_neg (by omega)]
    omega

end Binary64

end KeyedQuery
