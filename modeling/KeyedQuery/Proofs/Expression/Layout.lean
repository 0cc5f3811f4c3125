import KeyedQuery.Proofs.Expression.Spelling
import KeyedQuery.Proofs.Except

/-!
# Texts that lay tokens out

Every token has its texts: a symbol has one, a keyword all its letter cases, and
an operand the name that it holds.  A text lays tokens out when it is made of one
text for each of them, with white space anywhere between, and every one of these
is the longest there.  The tokens of a text are those that it lays out.
-/

namespace KeyedQuery

namespace Token

/-- The words that name no attribute, in upper case, with the tokens that they are. -/
def keywords : List (String × Token) :=
  [("AND", .and), ("OR", .or), ("NOT", .not), ("BETWEEN", .between), ("IN", .isIn)]

end Token

/-- A word that names an attribute directly: one that is no keyword in any letter case. -/
def PlainName (text : String) : Prop :=
  text.toList ≠ [] ∧ (∀ c ∈ text.toList, isWordChar c = true) ∧
    text.toUpper ∉ Token.keywords.map Prod.fst

namespace Operand

def text : Operand → String
  | .path text => text
  | .value text => text

/-- An alias, an attribute that is named directly, or a placeholder. -/
def WellFormed : Operand → Prop
  | .path text => MarkedWord '#' text ∨ PlainName text
  | .value text => MarkedWord ':' text

end Operand

namespace Token

/-- The texts of a token. -/
inductive HasText : Token → List Char → Prop where
  | lparen : HasText .lparen ['(']
  | rparen : HasText .rparen [')']
  | comma : HasText .comma [',']
  | cmp (op : Comparator) : HasText (.cmp op) op.symbol.toList
  | keyword {token : Token} {word : String} (h : (word.toUpper, token) ∈ keywords) :
      HasText token word.toList
  | operand {o : Operand} (h : o.WellFormed) : HasText (.operand o) o.text.toList

/-- No token has a text that starts with the word and goes on into the rest. -/
def Longest (word rest : List Char) : Prop :=
  ∀ more after token, rest = more ++ after → HasText token (word ++ more) → more = []

/-- The texts that lay out a list of tokens. -/
inductive Layout : List Token → List Char → Prop where
  | nil : Layout [] []
  | blank {c : Char} {tokens : List Token} {text : List Char} (hblank : Text.isBlank c = true)
      (h : Layout tokens text) : Layout tokens (c :: text)
  | token {token : Token} {tokens : List Token} {word text : List Char}
      (hword : HasText token word) (hlongest : Longest word text) (h : Layout tokens text) :
      Layout (token :: tokens) (word ++ text)

/-! ## Words -/

/-- A keyword is a word, and the lexer takes it for its token. -/
theorem word_of_mem_keywords {token : Token} {word : String}
    (h : (word.toUpper, token) ∈ keywords) :
    word.toList ≠ [] ∧ (∀ c ∈ word.toList, isWordChar c = true) ∧ ofWord word = token := by
  have hupper : ∀ entry ∈ keywords, entry.1.toList ≠ [] ∧
      (entry.1.toList.all isWordChar = true) := by
    decide
  obtain ⟨hne, hword⟩ := hupper _ h
  have hmap : word.toUpper.toList = word.toList.map Char.toUpper := by
    simp [String.toUpper]
  rw [hmap] at hne hword
  refine ⟨by simpa using hne, ?_, ?_⟩
  · intro c hc
    have hupperWord : isWordChar c.toUpper = true :=
      List.all_eq_true.mp hword c.toUpper (List.mem_map_of_mem hc)
    simpa using hupperWord
  · simp only [keywords, List.mem_cons, Prod.mk.injEq, List.not_mem_nil, or_false] at h
    unfold ofWord
    rcases h with ⟨hw, rfl⟩ | ⟨hw, rfl⟩ | ⟨hw, rfl⟩ | ⟨hw, rfl⟩ | ⟨hw, rfl⟩ <;> simp [hw]

theorem ofWord_of_plainName {text : String} (h : PlainName text) :
    ofWord text = .operand (.path text) := by
  have hfree := h.2.2
  simp only [keywords, List.map_cons, List.map_nil, List.mem_cons, List.not_mem_nil, or_false,
    not_or] at hfree
  unfold ofWord
  split <;> simp_all

/-- Every word has a token: a keyword its own, any other word the attribute of its name. -/
theorem hasText_ofWord (word : String) (hne : word.toList ≠ [])
    (hword : ∀ c ∈ word.toList, isWordChar c = true) : HasText (ofWord word) word.toList := by
  by_cases h : word.toUpper ∈ keywords.map Prod.fst
  · obtain ⟨⟨upper, token⟩, hmem, hupper⟩ := List.mem_map.mp h
    have hkey : (word.toUpper, token) ∈ keywords := by
      rw [← hupper]
      exact hmem
    rw [(word_of_mem_keywords hkey).2.2]
    exact .keyword hkey
  · have hplain : PlainName word := ⟨hne, hword, h⟩
    rw [ofWord_of_plainName hplain]
    exact .operand (o := .path word) (.inr hplain)

/-! ## What texts of tokens look like -/

/-- The texts of tokens that are no words. -/
def symbols : List (List Char) :=
  [['('], [')'], [','], ['='], ['<', '>'], ['<'], ['<', '='], ['>'], ['>', '=']]

/-- Whether a character is the first of a word or of a marked word. -/
def startsWord (c : Char) : Bool :=
  isWordChar c || c == '#' || c == ':'

theorem startsWord_of_isWordChar {c : Char} (h : isWordChar c = true) : startsWord c = true := by
  simp [startsWord, h]

theorem not_isBlank_of_startsWord {c : Char} (h : startsWord c = true) :
    Text.isBlank c = false := by
  simp only [startsWord, Bool.or_eq_true, beq_iff_eq] at h
  rcases h with (h | rfl) | rfl
  · exact not_isBlank_of_isWordChar h
  · decide
  · decide

theorem HasText.symbol_or_word {token : Token} {text : List Char} (h : HasText token text) :
    text ∈ symbols ∨ ∃ c word, text = c :: word ∧ startsWord c = true ∧
      ∀ d ∈ word, isWordChar d = true := by
  have hmarked : ∀ mark text, startsWord mark = true → MarkedWord mark text →
      ∃ c word, text.toList = c :: word ∧ startsWord c = true ∧
        ∀ d ∈ word, isWordChar d = true := by
    rintro mark text hmark ⟨word, _, hword, rfl⟩
    exact ⟨mark, word, by simp, hmark, hword⟩
  have hplain : ∀ text : String, text.toList ≠ [] →
      (∀ c ∈ text.toList, isWordChar c = true) →
      ∃ c word, text.toList = c :: word ∧ startsWord c = true ∧
        ∀ d ∈ word, isWordChar d = true := by
    intro text hne hall
    obtain ⟨c, word, heq⟩ := List.exists_cons_of_ne_nil hne
    rw [heq] at hall
    exact ⟨c, word, heq, startsWord_of_isWordChar (hall c List.mem_cons_self),
      fun d hd => hall d (List.mem_cons_of_mem c hd)⟩
  cases h with
  | lparen => simp [symbols]
  | rparen => simp [symbols]
  | comma => simp [symbols]
  | cmp op =>
      left
      cases op with
      | eq => decide
      | ne => decide
      | order op => cases op <;> decide
  | keyword h =>
      obtain ⟨hne, hword, _⟩ := word_of_mem_keywords h
      exact .inr (hplain _ hne hword)
  | @operand o h =>
      right
      cases o with
      | value text => exact hmarked ':' text (by decide) h
      | path text =>
          rcases h with h | h
          · exact hmarked '#' text (by decide) h
          · exact hplain text h.1 h.2.1

theorem HasText.isWordChar_of_mem {token : Token} {c d : Char} {word : List Char}
    (h : HasText token (c :: word)) (hc : startsWord c = true) (hd : d ∈ word) :
    isWordChar d = true := by
  rcases h.symbol_or_word with hsymbol | ⟨c', word', heq, _, hword⟩
  · have hheads : ∀ text ∈ symbols, text.head?.any startsWord = false := by
      decide
    have := hheads _ hsymbol
    simp [hc] at this
  · cases heq
    exact hword d hd

theorem HasText.mem_symbols {token : Token} {c : Char} {word : List Char}
    (h : HasText token (c :: word)) (hc : startsWord c = false) : c :: word ∈ symbols := by
  rcases h.symbol_or_word with hsymbol | ⟨c', word', heq, hstarts, _⟩
  · exact hsymbol
  · cases heq
    rw [hc] at hstarts
    cases hstarts

/-! ## The longest text -/

theorem longest_of_endsWord {c : Char} {word rest : List Char} (hc : startsWord c = true)
    (hrest : EndsWord rest) : Longest (c :: word) rest := by
  intro more after token heq htext
  cases more with
  | nil => rfl
  | cons d more =>
      have hd : isWordChar d = true := htext.isWordChar_of_mem hc (by simp)
      have hnot := hrest d (by simp [heq])
      rw [hd] at hnot
      cases hnot

/-- What follows a word that is the longest there does not go on with it. -/
theorem endsWord_of_longest {word rest : List Char} (hlongest : Longest word rest)
    (hgrows : ∀ d, isWordChar d = true → ∃ token, HasText token (word ++ [d])) :
    EndsWord rest := by
  intro d hd
  by_cases hword : isWordChar d = true
  · obtain ⟨after, rfl⟩ := List.head?_eq_some_iff.mp hd
    obtain ⟨token, htext⟩ := hgrows d hword
    have hnil := hlongest [d] after token rfl htext
    simp at hnil
  · simpa using hword

theorem longest_of_symbol {c : Char} {word rest : List Char} (hc : startsWord c = false)
    (h : ∀ more after, rest = more ++ after → c :: (word ++ more) ∈ symbols → more = []) :
    Longest (c :: word) rest :=
  fun more after _ heq htext => h more after heq (htext.mem_symbols hc)

/-! ## The lexer takes the longest text -/

theorem marked_grows {mark : Char} {text : String} {d : Char} (named : String → Operand)
    (hnamed : ∀ text, MarkedWord mark text → (named text).WellFormed ∧ (named text).text = text)
    (h : MarkedWord mark text) (hd : isWordChar d = true) :
    ∃ token, HasText token (text.toList ++ [d]) := by
  obtain ⟨word, _, hword, rfl⟩ := h
  have hgrown : MarkedWord mark (String.ofList (mark :: (word ++ [d]))) := by
    apply MarkedWord.of_word
    · simp
    · intro c hc
      rcases List.mem_append.mp hc with hc | hc
      · exact hword c hc
      · rw [List.mem_singleton.mp hc]
        exact hd
  obtain ⟨hwell, htext⟩ := hnamed _ hgrown
  have hhas := HasText.operand hwell
  rw [htext] at hhas
  exact ⟨_, by simpa using hhas⟩

theorem word_grows {word : String} {d : Char} (hword : ∀ c ∈ word.toList, isWordChar c = true)
    (hd : isWordChar d = true) : ∃ token, HasText token (word.toList ++ [d]) := by
  have hgrown := hasText_ofWord (String.ofList (word.toList ++ [d])) (by simp) (by
    intro c hc
    rw [String.toList_ofList] at hc
    rcases List.mem_append.mp hc with hc | hc
    · exact hword c hc
    · rw [List.mem_singleton.mp hc]
      exact hd)
  exact ⟨_, by simpa using hgrown⟩

/-- A word is read whole where it is the longest text. -/
theorem read_of_word {word : String} {rest : List Char} (hne : word.toList ≠ [])
    (hword : ∀ c ∈ word.toList, isWordChar c = true) (hlongest : Longest word.toList rest) :
    ∃ c text, word.toList = c :: text ∧ Text.isBlank c = false ∧
      read c (text ++ rest) = some (ofWord word, rest) := by
  have hends := endsWord_of_longest hlongest fun d => word_grows hword
  obtain ⟨c, text, heq⟩ := List.exists_cons_of_ne_nil hne
  rw [heq] at hword
  have hc := hword c List.mem_cons_self
  have hread := read_word hc (fun d hd => hword d (List.mem_cons_of_mem c hd)) hends
  rw [← heq, String.ofList_toList] at hread
  exact ⟨c, text, heq, not_isBlank_of_isWordChar hc, hread⟩

/-- The lexer reads a text of a token where it is the longest one. -/
theorem HasText.read {token : Token} {text rest : List Char} (h : HasText token text)
    (hlongest : Longest text rest) :
    ∃ c word, text = c :: word ∧ Text.isBlank c = false ∧
      Token.read c (word ++ rest) = some (token, rest) := by
  cases h with
  | lparen => exact ⟨'(', [], rfl, by decide, by simp [Token.read]⟩
  | rparen => exact ⟨')', [], rfl, by decide, by simp [Token.read]⟩
  | comma => exact ⟨',', [], rfl, by decide, by simp [Token.read]⟩
  | cmp op =>
      cases op with
      | eq => exact ⟨'=', [], rfl, by decide, by simp [Token.read]⟩
      | ne => exact ⟨'<', ['>'], rfl, by decide, rfl⟩
      | order op =>
          cases op with
          | le => exact ⟨'<', ['='], rfl, by decide, rfl⟩
          | ge => exact ⟨'>', ['='], rfl, by decide, rfl⟩
          | lt =>
              refine ⟨'<', [], rfl, by decide, ?_⟩
              have hle : ∀ after, rest ≠ '=' :: after := fun after heq =>
                absurd (hlongest ['='] after _ heq (.cmp (.order .le))) (by simp)
              have hne : ∀ after, rest ≠ '>' :: after := fun after heq =>
                absurd (hlongest ['>'] after _ heq (.cmp .ne)) (by simp)
              simp only [List.nil_append]
              unfold Token.read
              split <;> simp_all
          | gt =>
              refine ⟨'>', [], rfl, by decide, ?_⟩
              have hge : ∀ after, rest ≠ '=' :: after := fun after heq =>
                absurd (hlongest ['='] after _ heq (.cmp (.order .ge))) (by simp)
              simp only [List.nil_append]
              unfold Token.read
              split <;> simp_all
  | @keyword token word h =>
      obtain ⟨hne, hword, htoken⟩ := word_of_mem_keywords h
      rw [← htoken]
      exact read_of_word hne hword hlongest
  | @operand o h =>
      cases o with
      | value text =>
          have hends := endsWord_of_longest hlongest fun d =>
            marked_grows .value (fun _ hmarked => ⟨hmarked, rfl⟩) h
          obtain ⟨word, hne, hword, rfl⟩ := h
          refine ⟨':', word, by simp [Operand.text], by decide, ?_⟩
          exact readMarked_append hne hword hends
      | path text =>
          rcases h with h | h
          · have hends := endsWord_of_longest hlongest fun d =>
              marked_grows .path (fun _ hmarked => ⟨.inl hmarked, rfl⟩) h
            obtain ⟨word, hne, hword, rfl⟩ := h
            refine ⟨'#', word, by simp [Operand.text], by decide, ?_⟩
            exact readMarked_append hne hword hends
          · have hread := read_of_word h.1 h.2.1 hlongest
            rwa [ofWord_of_plainName h] at hread

theorem endsWord_dropWhile (text : List Char) : EndsWord (text.dropWhile isWordChar) := by
  intro c hc
  by_cases hword : isWordChar c = true
  · have hnot := List.head?_dropWhile_not isWordChar text
    rw [hc] at hnot
    simp [hword] at hnot
  · simpa using hword

theorem hasText_of_readMarked {mark : Char} {text rest : List Char} {token : Token}
    (named : String → Operand) (hmark : startsWord mark = true)
    (hnamed : ∀ text, MarkedWord mark text → (named text).WellFormed ∧ (named text).text = text)
    (h : readMarked mark named text = some (token, rest)) :
    ∃ word, text = word ++ rest ∧ HasText token (mark :: word) ∧ Longest (mark :: word) rest := by
  by_cases hne : text.takeWhile isWordChar = []
  · simp [readMarked, spanWord, hne] at h
  · simp only [readMarked, spanWord, List.isEmpty_iff, if_neg hne, Option.some.injEq,
      Prod.mk.injEq] at h
    obtain ⟨rfl, rfl⟩ := h
    have hall : ∀ c ∈ text.takeWhile isWordChar, isWordChar c = true := fun c hc =>
      List.all_eq_true.mp List.all_takeWhile c hc
    have hword : MarkedWord mark (String.ofList (mark :: text.takeWhile isWordChar)) :=
      .of_word hne hall
    obtain ⟨hwell, htext⟩ := hnamed _ hword
    have hhas := HasText.operand hwell
    rw [htext, String.toList_ofList] at hhas
    exact ⟨_, List.takeWhile_append_dropWhile.symm, hhas,
      longest_of_endsWord hmark (endsWord_dropWhile text)⟩

/-- What the lexer reads is a text of its token, and the longest one there. -/
theorem hasText_of_read {c : Char} {text rest : List Char} {token : Token}
    (h : read c text = some (token, rest)) :
    ∃ word, text = word ++ rest ∧ HasText token (c :: word) ∧ Longest (c :: word) rest := by
  unfold read at h
  split at h
  · cases h
    exact ⟨[], rfl, .lparen, longest_of_symbol (by decide) (by simp [symbols])⟩
  · cases h
    exact ⟨[], rfl, .rparen, longest_of_symbol (by decide) (by simp [symbols])⟩
  · cases h
    exact ⟨[], rfl, .comma, longest_of_symbol (by decide) (by simp [symbols])⟩
  · cases h
    exact ⟨[], rfl, .cmp .eq, longest_of_symbol (by decide) (by simp [symbols])⟩
  · cases h
    exact ⟨['='], rfl, .cmp (.order .le), longest_of_symbol (by decide) (by simp [symbols])⟩
  · cases h
    exact ⟨['>'], rfl, .cmp .ne, longest_of_symbol (by decide) (by simp [symbols])⟩
  · rename_i hle hne
    cases h
    refine ⟨[], rfl, .cmp (.order .lt), longest_of_symbol (by decide) ?_⟩
    intro more after heq hmem
    simp [symbols] at hmem
    rcases hmem with rfl | hmore | rfl
    · exact absurd heq (hne after)
    · exact hmore
    · exact absurd heq (hle after)
  · cases h
    exact ⟨['='], rfl, .cmp (.order .ge), longest_of_symbol (by decide) (by simp [symbols])⟩
  · rename_i hge
    cases h
    refine ⟨[], rfl, .cmp (.order .gt), longest_of_symbol (by decide) ?_⟩
    intro more after heq hmem
    simp [symbols] at hmem
    rcases hmem with hmore | rfl
    · exact hmore
    · exact absurd heq (hge after)
  · exact hasText_of_readMarked .path (by decide) (fun _ hmarked => ⟨.inl hmarked, rfl⟩) h
  · exact hasText_of_readMarked .value (by decide) (fun _ hmarked => ⟨hmarked, rfl⟩) h
  · split at h
    · rename_i hc
      cases h
      have hall : ∀ d ∈ c :: text.takeWhile isWordChar, isWordChar d = true := by
        intro d hd
        rcases List.mem_cons.mp hd with rfl | hd
        · exact hc
        · exact List.all_eq_true.mp List.all_takeWhile d hd
      have hhas := hasText_ofWord (String.ofList (c :: text.takeWhile isWordChar))
        (by simp) (by simpa using hall)
      rw [String.toList_ofList] at hhas
      exact ⟨_, List.takeWhile_append_dropWhile.symm, hhas,
        longest_of_endsWord (startsWord_of_isWordChar hc) (endsWord_dropWhile text)⟩
    · cases h

/-! ## Whole texts -/

theorem layout_of_readAll {steps : Nat} {text : List Char} {tokens : List Token}
    (h : readAll steps text = .ok tokens) : Layout tokens text := by
  fun_induction readAll steps text generalizing tokens with
  | case1 =>
      cases h
      exact .nil
  | case2 => cases h
  | case3 steps c rest hblank ih => exact .blank hblank (ih h)
  | case4 => cases h
  | case5 steps c text hblank token rest hread ih =>
      obtain ⟨others, hothers, hpair⟩ := bind_eq_ok_iff.mp h
      cases hpair
      obtain ⟨word, rfl, hhas, hlongest⟩ := hasText_of_read hread
      exact .token hhas hlongest (ih hothers)

theorem Layout.lexes {tokens : List Token} {text : List Char} (h : Layout tokens text) :
    Lexes text tokens := by
  induction h with
  | nil => exact lexes_nil
  | blank hblank h ih => exact ih.skip hblank
  | token hhas hlongest h ih =>
      obtain ⟨c, word, rfl, hblank, hread⟩ := hhas.read hlongest
      exact Lexes.token hblank hread (by simp) ih

theorem readAll_ne_error_nil (steps : Nat) (text : List Char) :
    readAll steps text ≠ .error [] := by
  intro h
  fun_induction readAll steps text with
  | case1 => cases h
  | case2 steps hne => simp_all
  | case3 steps c rest hblank ih => exact ih h
  | case4 => cases h
  | case5 steps c text hblank token rest hread ih =>
      cases hrest : readAll steps rest with
      | ok others =>
          rw [hrest] at h
          cases h
      | error left =>
          rw [hrest] at h
          cases h
          exact ih hrest

/-- The tokens of a text are those that it lays out. -/
theorem lex_eq_ok_iff {text : String} {tokens : List Token} :
    lex text = .ok tokens ↔ Layout tokens text.toList := by
  constructor
  · intro h
    unfold lex at h
    dsimp only at h
    split at h
    · rename_i read hread
      cases h
      exact layout_of_readAll hread
    · rename_i hread
      exact absurd hread (readAll_ne_error_nil _ _)
    · cases h
  · intro h
    exact h.lexes.lex

end Token

end KeyedQuery
