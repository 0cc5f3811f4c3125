/-!
# Tables of code points

A class of characters is given as a table: the first and the last code point of
each run of its members.  `codePoints` lists the members, `covers` is membership,
and `size` counts the members without listing them.  `apart` says that the runs
stand in ascending order and none touches the next, so that no member is counted
twice.
-/

namespace KeyedQuery

namespace Text

/-- Runs of code points, each by its first and its last member. -/
abbrev Ranges := List (Nat × Nat)

namespace Ranges

/-- The code points in the runs, run by run. -/
def codePoints (ranges : Ranges) : List Nat :=
  ranges.flatMap fun range => List.range' range.1 (range.2 + 1 - range.1)

/-- A character is covered when its code point lies in one of the runs. -/
def covers (ranges : Ranges) (c : Char) : Bool :=
  ranges.any fun range => range.1 ≤ c.toNat && c.toNat ≤ range.2

/-- The runs ascend, and a code point is left out between each and the next. -/
def apart : Ranges → Bool
  | [] => true
  | [only] => only.1 ≤ only.2
  | first :: second :: rest =>
      first.1 ≤ first.2 && first.2 + 1 < second.1 && apart (second :: rest)

-- Sums of numbers start from the zero of numerals, whatever other zeros are in scope.
attribute [local instance (20000)] Zero.ofOfNat0

/-- The number of code points in the runs, counted run by run. -/
def size (ranges : Ranges) : Nat :=
  (ranges.map fun range => range.2 + 1 - range.1).sum

/-- Membership looks only at the ends of the runs, and finds every member. -/
theorem covers_iff_mem_codePoints {ranges : Ranges} {c : Char} :
    ranges.covers c = true ↔ c.toNat ∈ ranges.codePoints := by
  simp only [covers, codePoints, List.any_eq_true, List.mem_flatMap,
    List.mem_range'_1, Bool.and_eq_true, decide_eq_true_eq]
  constructor
  · rintro ⟨range, hmem, hlow, hhigh⟩
    exact ⟨range, hmem, hlow, by omega⟩
  · rintro ⟨range, hmem, hlow, hhigh⟩
    exact ⟨range, hmem, hlow, by omega⟩

/-- A stretch that every run avoids has no member. -/
theorem covers_eq_false {ranges : Ranges} {low high : Nat}
    (havoid : ∀ range ∈ ranges, range.2 < low ∨ high < range.1) {c : Char}
    (hlow : low ≤ c.toNat) (hhigh : c.toNat ≤ high) : ranges.covers c = false := by
  rw [covers, List.any_eq_false]
  intro range hmem hin
  rw [Bool.and_eq_true, decide_eq_true_eq, decide_eq_true_eq] at hin
  rcases havoid range hmem with h | h <;> omega

theorem length_codePoints (ranges : Ranges) :
    ranges.codePoints.length = ranges.size := by
  simp [codePoints, size, List.length_flatMap]

/-- A table of runs apart lists nothing below the start of its first run. -/
theorem le_of_mem_codePoints
    {first : Nat × Nat} {rest : Ranges} {n : Nat}
    (happart : apart (first :: rest) = true)
    (hmem : n ∈ codePoints (first :: rest)) : first.1 ≤ n := by
  induction rest generalizing first with
  | nil =>
      simp only [codePoints, List.flatMap_cons, List.flatMap_nil, List.append_nil,
        List.mem_range'_1] at hmem
      exact hmem.1
  | cons second rest ih =>
      simp only [apart, Bool.and_eq_true, decide_eq_true_eq] at happart
      rw [codePoints, List.flatMap_cons, List.mem_append, List.mem_range'_1] at hmem
      rcases hmem with hmem | hmem
      · exact hmem.1
      · have hle := ih happart.2 hmem
        omega

/-- Runs apart list their code points in ascending order, each once. -/
theorem pairwise_codePoints {ranges : Ranges} (happart : ranges.apart = true) :
    ranges.codePoints.Pairwise (· < ·) := by
  induction ranges with
  | nil => simp [codePoints]
  | cons first rest ih =>
      cases rest with
      | nil => simpa [codePoints] using List.pairwise_lt_range'
      | cons second rest =>
          have hcut := happart
          simp only [apart, Bool.and_eq_true, decide_eq_true_eq] at hcut
          rw [codePoints, List.flatMap_cons, List.pairwise_append]
          refine ⟨List.pairwise_lt_range', ih hcut.2, ?_⟩
          intro low hlow high hhigh
          have hle := le_of_mem_codePoints hcut.2 hhigh
          rw [List.mem_range'_1] at hlow
          omega

end Ranges

end Text

end KeyedQuery
