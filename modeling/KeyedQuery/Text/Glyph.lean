import KeyedQuery.Text.Blank
import KeyedQuery.Text.Hidden
import KeyedQuery.Text.Mark
import KeyedQuery.Text.Unassigned

/-!
# Characters with a glyph of their own

A reader of a message can tell a character by its looks when it is assigned, is
not made to be hidden, and is not drawn onto the character before it.  Of white
space, only the space itself counts as seen: `isSeen_iff_eq_space`.
-/

namespace KeyedQuery

namespace Text

/-- The tables of what is not seen, each of runs apart and with the size of its class. -/
theorem apart_and_size_eq :
    ∀ table ∈ [(hiddenRanges, 137725), (unassignedRanges, 814730), (markRanges, 2133)],
      table.1.apart = true ∧ table.1.size = table.2 := by
  decide +kernel

/-- A character that is seen, and seen as itself. -/
def isSeen (c : Char) : Bool :=
  !(hiddenRanges.covers c || unassignedRanges.covers c || markRanges.covers c)

/-- Each character from the space to the tilde is seen. -/
theorem isSeen_of_le_tilde {c : Char} (hlow : 32 ≤ c.toNat) (hhigh : c.toNat ≤ 126) :
    isSeen c = true := by
  have hhidden : hiddenRanges.covers c = false :=
    Ranges.covers_eq_false (by decide +kernel) hlow hhigh
  have hunassigned : unassignedRanges.covers c = false :=
    Ranges.covers_eq_false (by decide +kernel) hlow hhigh
  have hmark : markRanges.covers c = false :=
    Ranges.covers_eq_false (by decide +kernel) hlow hhigh
  rw [isSeen, hhidden, hunassigned, hmark]
  rfl

/-- The space is the only white space that is seen. -/
theorem isSeen_iff_eq_space {c : Char} (hblank : isBlank c = true) :
    isSeen c = true ↔ c = ' ' := by
  have hall : ∀ n ∈ blankRanges.codePoints,
      isSeen (Char.ofNat n) = true ↔ Char.ofNat n = ' ' := by
    decide +kernel
  have hc := hall c.toNat (Ranges.covers_iff_mem_codePoints.mp hblank)
  rwa [Char.ofNat_toNat] at hc

end Text

end KeyedQuery
