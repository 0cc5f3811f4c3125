import KeyedQuery.Proofs.Expression.FreshName

/-!
# Texts that spell tokens

A text spells tokens when the lexer reads it as those tokens in front of
anything that no word could take in.  Spellings join: the text of an expression
is put together from pieces, each of which starts with a character that ends the
word before it.
-/

namespace KeyedQuery

theorem not_isBlank_of_isWordChar {c : Char} (h : isWordChar c = true) :
    Text.isBlank c = false := by
  rcases isWordChar_iff.mp h with hupper | hlower | hdigit | rfl
  · have hrange := isUpper_iff.mp hupper
    simp [Text.isBlank, Text.Ranges.covers, Text.blankRanges]
    omega
  · have hrange := isLower_iff.mp hlower
    simp [Text.isBlank, Text.Ranges.covers, Text.blankRanges]
    omega
  · have hval : c.toNat = c.val.toNat := rfl
    simp only [Char.isDigit, Bool.and_eq_true, decide_eq_true_eq, ge_iff_le,
      UInt32.le_iff_toNat_le] at hdigit
    simp [Text.isBlank, Text.Ranges.covers, Text.blankRanges] at hdigit ⊢
    omega
  · decide

/-- What may follow a word: nothing, or a character that is not of words. -/
def EndsWord (text : List Char) : Prop :=
  ∀ c, text.head? = some c → isWordChar c = false

theorem endsWord_nil : EndsWord [] := by
  intro c h
  cases h

theorem EndsWord.append {text rest : List Char} (htext : EndsWord text) (hrest : EndsWord rest) :
    EndsWord (text ++ rest) := by
  cases text with
  | nil => exact hrest
  | cons c tail => exact htext

theorem endsWord_cons {c : Char} {text : List Char} (h : isWordChar c = false) :
    EndsWord (c :: text) := by
  intro d hd
  cases hd
  exact h

theorem MarkedWord.endsWord {mark : Char} {text : String} (h : MarkedWord mark text)
    (hmark : isWordChar mark = false) : EndsWord text.toList := by
  obtain ⟨word, _, _, rfl⟩ := h
  rw [String.toList_ofList]
  exact endsWord_cons hmark

namespace Token

theorem spanWord_append {word rest : List Char} (hword : ∀ c ∈ word, isWordChar c = true)
    (hrest : EndsWord rest) : spanWord (word ++ rest) = (word, rest) := by
  have htake : rest.takeWhile isWordChar = [] := by
    cases rest with
    | nil => rfl
    | cons c tail => simp [hrest c rfl]
  have hdrop : rest.dropWhile isWordChar = rest := by
    cases rest with
    | nil => rfl
    | cons c tail => simp [hrest c rfl]
  simp only [spanWord]
  rw [List.takeWhile_append_of_pos hword, List.dropWhile_append_of_pos hword, htake, hdrop]
  simp

/-! ## Reading with enough steps -/

/-- A text is read as tokens, whatever the number of steps, if it covers the text. -/
def Lexes (text : List Char) (tokens : List Token) : Prop :=
  ∀ steps, text.length ≤ steps → readAll steps text = .ok tokens

theorem lexes_nil : Lexes [] [] := by
  intro steps _
  cases steps with
  | zero => rfl
  | succ steps => rfl

theorem readAll_of_isBlank {c : Char} (h : Text.isBlank c = true) (steps : Nat)
    (text : List Char) : readAll (steps + 1) (c :: text) = readAll steps text :=
  if_pos h

theorem readAll_of_read {c : Char} {text rest : List Char} {token : Token}
    (hblank : Text.isBlank c = false) (hread : read c text = some (token, rest)) {steps : Nat}
    {tokens : List Token} (h : readAll steps rest = .ok tokens) :
    readAll (steps + 1) (c :: text) = .ok (token :: tokens) := by
  refine (if_neg (Bool.eq_false_iff.mp hblank)).trans ?_
  rw [hread]
  dsimp only
  rw [h]
  rfl

theorem Lexes.skip {c : Char} {text : List Char} {tokens : List Token}
    (hblank : Text.isBlank c = true) (h : Lexes text tokens) : Lexes (c :: text) tokens := by
  intro steps hsteps
  cases steps with
  | zero => simp at hsteps
  | succ steps =>
      rw [readAll_of_isBlank hblank]
      exact h steps (by simpa using hsteps)

theorem Lexes.token {c : Char} {text rest : List Char} {token : Token} {tokens : List Token}
    (hblank : Text.isBlank c = false) (hread : read c text = some (token, rest))
    (hle : rest.length ≤ text.length) (h : Lexes rest tokens) :
    Lexes (c :: text) (token :: tokens) := by
  intro steps hsteps
  cases steps with
  | zero => simp at hsteps
  | succ steps =>
      have hrest : rest.length ≤ steps := by
        simp at hsteps
        omega
      exact readAll_of_read hblank hread (h steps hrest)

theorem Lexes.lex {text : String} {tokens : List Token} (h : Lexes text.toList tokens) :
    lex text = .ok tokens := by
  unfold Token.lex
  dsimp only
  rw [h _ (Nat.le_refl _)]

/-! ## Spellings -/

/-- The lexer reads the text as the tokens in front of anything that ends a word. -/
def Spells (text : List Char) (tokens : List Token) : Prop :=
  ∀ rest more, EndsWord rest → Lexes rest more → Lexes (text ++ rest) (tokens ++ more)

theorem spells_nil : Spells [] [] :=
  fun _ _ _ h => h

theorem Spells.append {a b : List Char} {s t : List Token} (ha : Spells a s) (hb : Spells b t)
    (hend : EndsWord b) : Spells (a ++ b) (s ++ t) := by
  intro rest more hrest hmore
  rw [List.append_assoc, List.append_assoc]
  exact ha _ _ (hend.append hrest) (hb rest more hrest hmore)

theorem Spells.lex {text : String} {tokens : List Token} (h : Spells text.toList tokens) :
    lex text = .ok tokens := by
  have hlexes := h [] [] endsWord_nil lexes_nil
  rw [List.append_nil, List.append_nil] at hlexes
  exact hlexes.lex

theorem Spells.space {text : List Char} {tokens : List Token} (h : Spells text tokens) :
    Spells (' ' :: text) tokens := by
  intro rest more hrest hmore
  exact (h rest more hrest hmore).skip (by decide)

theorem spells_single {c : Char} {token : Token} (hblank : Text.isBlank c = false)
    (hread : ∀ text, EndsWord text → read c text = some (token, text)) :
    Spells [c] [token] := by
  intro rest more hrest hmore
  exact Lexes.token hblank (hread rest hrest) (Nat.le_refl _) hmore

theorem spells_lparen : Spells ['('] [.lparen] :=
  spells_single (by decide) fun _ _ => rfl

theorem spells_rparen : Spells [')'] [.rparen] :=
  spells_single (by decide) fun _ _ => rfl

theorem spells_comma : Spells [','] [.comma] :=
  spells_single (by decide) fun _ _ => rfl

/-- A word that starts with no mark is read whole. -/
theorem read_word {c : Char} {word rest : List Char} (hc : isWordChar c = true)
    (hword : ∀ d ∈ word, isWordChar d = true) (hrest : EndsWord rest) :
    read c (word ++ rest) = some (ofWord (String.ofList (c :: word)), rest) := by
  have hne : ∀ d, isWordChar d = false → c ≠ d := by
    intro d hd heq
    rw [heq, hd] at hc
    cases hc
  unfold read
  split <;> try exact absurd rfl (hne _ (by decide))
  rw [if_pos hc, spanWord_append hword hrest]

theorem spells_word {c : Char} {word : List Char} (hc : isWordChar c = true)
    (hword : ∀ d ∈ word, isWordChar d = true) :
    Spells (c :: word) [ofWord (String.ofList (c :: word))] := by
  intro rest more hrest hmore
  refine Lexes.token (not_isBlank_of_isWordChar hc) (read_word hc hword hrest) ?_ hmore
  simp

/-- A marked word is read whole, with its mark. -/
theorem readMarked_append {mark : Char} {named : String → Operand} {word rest : List Char}
    (hne : word ≠ []) (hword : ∀ c ∈ word, isWordChar c = true) (hrest : EndsWord rest) :
    readMarked mark named (word ++ rest) =
      some (.operand (named (String.ofList (mark :: word))), rest) := by
  unfold readMarked
  rw [spanWord_append hword hrest]
  simp [hne]

theorem spells_alias {path : String} (h : MarkedWord '#' path) :
    Spells path.toList [.operand (.path path)] := by
  obtain ⟨word, hne, hword, rfl⟩ := h
  rw [String.toList_ofList]
  intro rest more hrest hmore
  refine Lexes.token (by decide) (readMarked_append hne hword hrest) ?_ hmore
  simp

theorem spells_placeholder {name : String} (h : MarkedWord ':' name) :
    Spells name.toList [.operand (.value name)] := by
  obtain ⟨word, hne, hword, rfl⟩ := h
  rw [String.toList_ofList]
  intro rest more hrest hmore
  refine Lexes.token (by decide) (readMarked_append hne hword hrest) ?_ hmore
  simp

/-- A comparison operator needs a blank behind it, as `<` could run into `=` or `>`. -/
theorem spells_comparator (op : Comparator) :
    Spells (op.symbol.toList ++ [' ']) [.cmp op] := by
  intro rest more hrest hmore
  have hblank : Lexes (' ' :: rest) more := hmore.skip (by decide)
  cases op with
  | eq => exact Lexes.token (by decide) rfl (Nat.le_refl _) hblank
  | ne => exact Lexes.token (by decide) rfl (Nat.le_succ _) hblank
  | order op =>
      cases op with
      | lt => exact Lexes.token (by decide) rfl (Nat.le_refl _) hblank
      | le => exact Lexes.token (by decide) rfl (Nat.le_succ _) hblank
      | gt => exact Lexes.token (by decide) rfl (Nat.le_refl _) hblank
      | ge => exact Lexes.token (by decide) rfl (Nat.le_succ _) hblank

/-- A keyword in its usual letter case is its token. -/
theorem spells_keyword {word : String} {token : Token} (hne : word.toList ≠ [])
    (hword : word.toList.all isWordChar = true) (htoken : ofWord word = token) :
    Spells word.toList [token] := by
  obtain ⟨c, rest, hcons⟩ := List.exists_cons_of_ne_nil hne
  rw [hcons, List.all_eq_true] at hword
  rw [hcons]
  have hspells := spells_word (hword c List.mem_cons_self)
    fun d hd => hword d (List.mem_cons_of_mem c hd)
  rw [← hcons, String.ofList_toList, htoken] at hspells
  rwa [← hcons]

/-- The keywords that stand between the parts of an expression. -/
theorem ofWord_keywords : ofWord "AND" = .and ∧ ofWord "OR" = .or ∧
    ofWord "BETWEEN" = .between ∧ ofWord "IN" = .isIn := by
  decide +kernel

theorem spells_and : Spells "AND".toList [.and] :=
  spells_keyword (by decide) (by decide) ofWord_keywords.1

theorem spells_or : Spells "OR".toList [.or] :=
  spells_keyword (by decide) (by decide) ofWord_keywords.2.1

theorem spells_between : Spells "BETWEEN".toList [.between] :=
  spells_keyword (by decide) (by decide) ofWord_keywords.2.2.1

theorem spells_in : Spells "IN".toList [.isIn] :=
  spells_keyword (by decide) (by decide) ofWord_keywords.2.2.2

end Token

end KeyedQuery
