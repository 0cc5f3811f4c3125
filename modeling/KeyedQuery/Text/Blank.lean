import KeyedQuery.Text.Range

/-!
# White space

The characters with the Unicode property `White_Space`, and the three cuts of a
text that depend on them: trimming both ends, and splitting into words.  A text
is a list of characters here, so every cut is a list operation.
-/

namespace KeyedQuery

namespace Text

/-- The code point ranges of the Unicode property `White_Space`, in order. -/
def blankRanges : Ranges :=
  [(0x09, 0x0D), (0x20, 0x20), (0x85, 0x85), (0xA0, 0xA0), (0x1680, 0x1680),
   (0x2000, 0x200A), (0x2028, 0x2029), (0x202F, 0x202F), (0x205F, 0x205F),
   (0x3000, 0x3000)]

/-- White space is membership in one of the `blankRanges`. -/
def isBlank (c : Char) : Bool :=
  blankRanges.covers c

/-- Every character that core calls white space is white space here. -/
theorem isBlank_of_isWhitespace {c : Char} (h : c.isWhitespace = true) :
    isBlank c = true := by
  simp only [Char.isWhitespace, Bool.or_eq_true, decide_eq_true_eq] at h
  rcases h with ((h | h) | h) | h <;> subst h <;> decide

/-- Text without its leading white space. -/
def trimLeft (text : List Char) : List Char :=
  text.dropWhile isBlank

/-- Text without white space at either end. -/
def trim (text : List Char) : List Char :=
  (trimLeft (trimLeft text).reverse).reverse

/-- A text that does not start with white space has none to lose there. -/
theorem trimLeft_cons {c : Char} {rest : List Char} (h : isBlank c = false) :
    trimLeft (c :: rest) = c :: rest := by
  simp [trimLeft, h]

theorem trimLeft_eq_self {text : List Char} (h : ∀ c ∈ text, isBlank c = false) :
    trimLeft text = text := by
  cases text with
  | nil => rfl
  | cons c rest => exact trimLeft_cons (h c List.mem_cons_self)

/-- A text without white space is not trimmed. -/
theorem trim_eq_self {text : List Char} (h : ∀ c ∈ text, isBlank c = false) :
    trim text = text := by
  have hreverse : ∀ c ∈ text.reverse, isBlank c = false :=
    fun c hc => h c (List.mem_reverse.mp hc)
  rw [trim, trimLeft_eq_self h, trimLeft_eq_self hreverse, List.reverse_reverse]

/--
Cut a text at every separator.  There is one more piece than there are
separators, so the empty text has one empty piece.
-/
def pieces (separator : Char → Bool) : List Char → List (List Char)
  | [] => [[]]
  | c :: rest =>
      if separator c then
        [] :: pieces separator rest
      else
        match pieces separator rest with
        | [] => [[c]]
        | piece :: others => (c :: piece) :: others

/-- The maximal runs of characters that are not white space. -/
def words (text : List Char) : List (List Char) :=
  (pieces isBlank text).filter fun piece => !piece.isEmpty

theorem pieces_ne_nil (separator : Char → Bool) (text : List Char) :
    pieces separator text ≠ [] := by
  cases text with
  | nil => simp [pieces]
  | cons c rest =>
      simp only [pieces]
      split
      · simp
      · split <;> simp

/-- No separator is left inside a piece. -/
theorem not_separator_of_mem_pieces
    {separator : Char → Bool} {text piece : List Char} {c : Char}
    (hpiece : piece ∈ pieces separator text) (hc : c ∈ piece) :
    separator c = false := by
  induction text generalizing piece with
  | nil =>
      simp [pieces] at hpiece
      simp [hpiece] at hc
  | cons d rest ih =>
      simp only [pieces] at hpiece
      split at hpiece
      · rcases List.mem_cons.mp hpiece with h | h
        · simp [h] at hc
        · exact ih h hc
      · rename_i hd
        split at hpiece
        · simp at hpiece
          simp [hpiece] at hc
          simpa [hc] using hd
        · rename_i first others hsplit
          rcases List.mem_cons.mp hpiece with h | h
          · subst h
            rcases List.mem_cons.mp hc with h | h
            · simpa [h] using hd
            · exact ih (by simp [hsplit]) h
          · exact ih (by simp [hsplit, h]) hc

theorem ne_nil_of_mem_words {text word : List Char} (h : word ∈ words text) :
    word ≠ [] := by
  simp [words] at h
  exact h.2

theorem not_isBlank_of_mem_words
    {text word : List Char} {c : Char} (h : word ∈ words text) (hc : c ∈ word) :
    isBlank c = false := by
  simp [words] at h
  exact not_separator_of_mem_pieces h.1 hc

end Text

end KeyedQuery
