import KeyedQuery.Proofs.Expression.FragmentText
import KeyedQuery.Proofs.Expression.Layout

/-!
# Texts of expressions

An expression has a text in which every part of it stands in parentheses.  A text
is read as an expression exactly when it lays out tokens that write it, so any
layout of the parenthesized tokens is read back as the expression itself,
whatever the letter case of its keywords and the white space between its tokens.
The expressions with such a text are those that can be read at all.
-/

namespace KeyedQuery

namespace Token

/-- The usual text of a token. -/
def text : Token → String
  | .operand o => o.text
  | .cmp op => op.symbol
  | .lparen => "("
  | .rparen => ")"
  | .comma => ","
  | .and => "AND"
  | .or => "OR"
  | .not => "NOT"
  | .between => "BETWEEN"
  | .isIn => "IN"

/-- The operand of a token is well-formed, if it is one. -/
def WellFormed (token : Token) : Prop :=
  ∀ o, token = .operand o → o.WellFormed

@[simp] theorem wellFormed_operand {o : Operand} :
    (Token.operand o).WellFormed ↔ o.WellFormed := by
  simp [WellFormed]

@[simp] theorem wellFormed_of_ne {token : Token} (h : ∀ o, token ≠ .operand o) :
    token.WellFormed :=
  fun o ho => absurd ho (h o)

theorem WellFormed.hasText {token : Token} (h : token.WellFormed) :
    HasText token token.text.toList := by
  cases token with
  | operand o => exact .operand (h o rfl)
  | cmp op => exact .cmp op
  | lparen => exact .lparen
  | rparen => exact .rparen
  | comma => exact .comma
  | and => exact .keyword (by decide +kernel)
  | or => exact .keyword (by decide +kernel)
  | not => exact .keyword (by decide +kernel)
  | between => exact .keyword (by decide +kernel)
  | isIn => exact .keyword (by decide +kernel)

theorem HasText.wellFormed {token : Token} {text : List Char} (h : HasText token text) :
    token.WellFormed := by
  intro o ho
  cases h with
  | keyword h => simp [keywords, ho] at h
  | operand h =>
      cases ho
      exact h
  | _ => cases ho

theorem Layout.wellFormed {tokens : List Token} {text : List Char} (h : Layout tokens text) :
    ∀ token ∈ tokens, token.WellFormed := by
  induction h with
  | nil => simp
  | blank hblank h ih => exact ih
  | token hhas hlongest h ih =>
      intro other hother
      rcases List.mem_cons.mp hother with rfl | hother
      · exact hhas.wellFormed
      · exact ih other hother

/-! ## White space -/

theorem HasText.not_isBlank {token : Token} {text : List Char} (h : HasText token text) {c : Char}
    (hc : c ∈ text) : Text.isBlank c = false := by
  rcases h.symbol_or_word with hsymbol | ⟨first, word, rfl, hstarts, hword⟩
  · have hsymbols : ∀ symbol ∈ symbols, (symbol.any Text.isBlank) = false := by
      decide
    simpa using List.any_eq_false.mp (hsymbols text hsymbol) c hc
  · rcases List.mem_cons.mp hc with rfl | hc
    · exact not_isBlank_of_startsWord hstarts
    · exact not_isBlank_of_isWordChar (hword c hc)

/-- White space ends every token. -/
theorem longest_of_blank {word rest : List Char}
    (hrest : ∀ c, rest.head? = some c → Text.isBlank c = true) : Longest word rest := by
  intro more after token heq htext
  cases more with
  | nil => rfl
  | cons c more =>
      have hblank := hrest c (by simp [heq])
      have hnot := htext.not_isBlank (c := c) (by simp)
      rw [hblank] at hnot
      cases hnot

/-- Well-formed tokens in their usual texts, with a blank between each two. -/
theorem layout_intercalate {tokens : List Token} (h : ∀ token ∈ tokens, token.WellFormed) :
    Layout tokens (" ".intercalate (tokens.map text)).toList := by
  rw [String.toList_intercalate]
  induction tokens with
  | nil => exact .nil
  | cons token tokens ih =>
      have hhas := (h token List.mem_cons_self).hasText
      have hrest := ih fun other hother => h other (List.mem_cons_of_mem token hother)
      cases tokens with
      | nil =>
          have hone := Layout.token hhas (longest_of_blank (by simp)) .nil
          simpa using hone
      | cons next others =>
          have hspaced := Layout.blank (c := ' ') (by decide) hrest
          have hall := Layout.token hhas (longest_of_blank (by simp; decide)) hspaced
          simpa using hall

end Token

namespace Expr

/-- Every operand is well-formed, and no list of operands is empty. -/
def WellFormed : Expr → Prop
  | .compare left _ right => left.WellFormed ∧ right.WellFormed
  | .between value low high => value.WellFormed ∧ low.WellFormed ∧ high.WellFormed
  | .isIn value list => value.WellFormed ∧ list ≠ [] ∧ ∀ o ∈ list, o.WellFormed
  | .and left right => left.WellFormed ∧ right.WellFormed
  | .or left right => left.WellFormed ∧ right.WellFormed
  | .not inner => inner.WellFormed

/-- The tokens of an expression with every part of it in parentheses. -/
def parenthesized : Expr → List Token
  | .compare left op right => [.lparen, .operand left, .cmp op, .operand right, .rparen]
  | .between value low high =>
      [.lparen, .operand value, .between, .operand low, .and, .operand high, .rparen]
  | .isIn value list =>
      [.lparen, .operand value, .isIn, .lparen] ++
        [.comma].intercalate (list.map fun o => [.operand o]) ++ [.rparen, .rparen]
  | .and left right => [.lparen] ++ left.parenthesized ++ [.and] ++ right.parenthesized ++ [.rparen]
  | .or left right => [.lparen] ++ left.parenthesized ++ [.or] ++ right.parenthesized ++ [.rparen]
  | .not inner => [.lparen, .not] ++ inner.parenthesized ++ [.rparen]

/-- The text of an expression with every part in parentheses and a blank between each two tokens. -/
def text (e : Expr) : String :=
  " ".intercalate (e.parenthesized.map Token.text)

theorem Writes.parenthesized {tokens : List Token} {e : Expr} (h : Writes .unary tokens e) :
    Writes .unary ([.lparen] ++ tokens ++ [.rparen]) e := by
  simpa using (Writes.ofConjunction h.ofUnary).parens

theorem writes_parenthesized {e : Expr} (h : e.WellFormed) :
    Writes .unary e.parenthesized e := by
  induction e with
  | compare left op right => exact (Writes.compare left op right).parenthesized
  | between value low high => exact (Writes.between value low high).parenthesized
  | isIn value list =>
      obtain ⟨first, others, rfl⟩ := List.exists_cons_of_ne_nil h.2.1
      have hwrites := (Writes.isIn value first others).parenthesized
      simpa [parenthesized, intercalate_cons_eq_append_flatMap, List.flatMap_map] using hwrites
  | and left right ihleft ihright =>
      have hwrites := (Writes.ofUnary (ihleft h.1)).and (ihright h.2)
      simpa [parenthesized] using (Writes.ofConjunction hwrites).parens
  | or left right ihleft ihright =>
      have hleft := Writes.ofConjunction (.ofUnary (ihleft h.1))
      have hwrites := hleft.or (.ofUnary (ihright h.2))
      simpa [parenthesized] using hwrites.parens
  | not inner ih => exact (ih h).not.parenthesized

/-- The tokens that write an expression are well-formed exactly when the expression is. -/
theorem Writes.forall_wellFormed_iff {rank : Rank} {tokens : List Token} {e : Expr}
    (h : Writes rank tokens e) : (∀ token ∈ tokens, token.WellFormed) ↔ e.WellFormed := by
  induction h with
  | compare left op right => simp [WellFormed]
  | between value low high => simp [WellFormed]
  | isIn value first others =>
      simp only [List.forall_mem_cons, List.forall_mem_append, List.forall_mem_flatMap]
      simp [WellFormed]
  | not inner ih => simp [WellFormed, ih]
  | parens inner ih => simp [or_imp, forall_and, ih]
  | ofUnary h ih => exact ih
  | and hleft hright ihleft ihright =>
      simp [WellFormed, or_imp, forall_and, ihleft, ihright]
  | ofConjunction h ih => exact ih
  | or hleft hright ihleft ihright =>
      simp [WellFormed, or_imp, forall_and, ihleft, ihright]

/-- A text is read as an expression exactly when it lays out tokens that write it. -/
theorem parse_eq_ok_iff {text : String} {e : Expr} :
    parse text = .ok e ↔
      ∃ tokens, Token.Layout tokens text.toList ∧ Writes .disjunction tokens e := by
  constructor
  · intro h
    obtain ⟨tokens, hlex, h⟩ := bind_eq_ok_iff.mp h
    split at h
    · rename_i read hread
      cases h
      exact ⟨tokens, Token.lex_eq_ok_iff.mp hlex, ofTokens_eq_ok_iff.mp hread⟩
    · cases h
  · rintro ⟨tokens, hlayout, hwrites⟩
    unfold parse
    rw [Token.lex_eq_ok_iff.mpr hlayout, ok_bind, ofTokens_eq_ok_iff.mpr hwrites]

/--
Tokens are read as the expression that the grammar derives from them.  A layout of the
parenthesized tokens of a well-formed expression is read as that expression, every
well-formed expression has one, and only well-formed expressions are read.
-/
theorem parse_exact :
    (∀ tokens e, ofTokens tokens = .ok e ↔ Writes .disjunction tokens e) ∧
    (∀ e, e.WellFormed → Token.Layout e.parenthesized e.text.toList ∧
      ∀ text, Token.Layout e.parenthesized text.toList → parse text = .ok e) ∧
    ∀ text e, parse text = .ok e → e.WellFormed := by
  refine ⟨fun tokens e => ofTokens_eq_ok_iff, ?_, ?_⟩
  · intro e h
    have hwrites : Writes .disjunction e.parenthesized e :=
      .ofConjunction (.ofUnary (writes_parenthesized h))
    exact ⟨Token.layout_intercalate (hwrites.forall_wellFormed_iff.mpr h),
      fun text hlayout => parse_eq_ok_iff.mpr ⟨_, hlayout, hwrites⟩⟩
  · intro text e h
    obtain ⟨tokens, hlayout, hwrites⟩ := parse_eq_ok_iff.mp h
    exact hwrites.forall_wellFormed_iff.mp hlayout.wellFormed

/-- A range under a negation beside a membership and a comparison; a name begins like a keyword. -/
def nested : Expr :=
  .or (.not (.between (.path "#A") (.value ":lo") (.value ":hi")))
    (.and (.isIn (.path "x") [.value ":p", .path "#B"])
      (.compare (.value ":v") (.order .le) (.path "And1")))

/-- The tokens of `nested` with little white space, some of it unusual, and mixed letter case. -/
def nestedText : String :=
  "((nOt(#A BETWEEN:lo aNd\t:hi))oR((x in(:p,#B ) )AND(:v<=And1)))\u3000"

theorem parse_exact_nested :
    nested.WellFormed ∧
    Token.Layout nested.parenthesized nestedText.toList ∧
    Token.Layout nested.parenthesized nested.text.toList ∧
    parse nestedText = .ok nested ∧
    Writes .disjunction nested.parenthesized nested ∧
    ∃ e, parse "nOT a<b" = .ok e ∧ e.WellFormed := by
  have hmarked : ∀ mark word, word ≠ [] → word.all isWordChar = true →
      MarkedWord mark (String.ofList (mark :: word)) := fun mark word hne hword =>
    ⟨word, hne, List.all_eq_true.mp hword, rfl⟩
  have hwell : nested.WellFormed := by
    refine ⟨⟨.inl ?_, ?_, ?_⟩, ⟨.inr ?_, by simp, ?_⟩, ?_, .inr ?_⟩
    · exact hmarked '#' ['A'] (by decide) (by decide)
    · exact hmarked ':' ['l', 'o'] (by decide) (by decide)
    · exact hmarked ':' ['h', 'i'] (by decide) (by decide)
    · exact ⟨by decide, List.all_eq_true.mp (by decide), by decide +kernel⟩
    · intro o ho
      simp only [List.mem_cons, List.not_mem_nil, or_false] at ho
      rcases ho with rfl | rfl
      · exact hmarked ':' ['p'] (by decide) (by decide)
      · exact .inl (hmarked '#' ['B'] (by decide) (by decide))
    · exact hmarked ':' ['v'] (by decide) (by decide)
    · exact ⟨by decide, List.all_eq_true.mp (by decide), by decide +kernel⟩
  have hlayout : Token.Layout nested.parenthesized nestedText.toList :=
    Token.lex_eq_ok_iff.mp (eq_ok_of_toOption (by decide +kernel))
  have hparse : parse "nOT a<b" = .ok (.not (.compare (.path "a") (.order .lt) (.path "b"))) :=
    eq_ok_of_toOption (by decide +kernel)
  obtain ⟨htokens, htext, hof⟩ := parse_exact
  obtain ⟨husual, hread⟩ := htext nested hwell
  exact ⟨hwell, hlayout, husual, hread nestedText hlayout,
    (htokens nested.parenthesized nested).mp (eq_ok_of_toOption (by decide +kernel)),
    _, hparse, hof _ _ hparse⟩

end Expr

end KeyedQuery
