import KeyedQuery.Proofs.Expression.Grammar
import KeyedQuery.Proofs.Expression.Spelling

/-!
# Reading fragments back

Every fragment has its tokens and its expression, both read off the fragment and
not off its text.  The text spells the tokens and the tokens write the
expression, so reading the text gives the expression; and a conjunction of
fragments is read as the conjunction of what each of them is read as.
-/

namespace KeyedQuery

theorem intercalate_cons_eq_append_flatMap {α : Type} (separator first : List α)
    (others : List (List α)) :
    separator.intercalate (first :: others) =
      first ++ others.flatMap fun other => separator ++ other := by
  induction others generalizing first with
  | nil => simp
  | cons other others ih =>
      rw [List.intercalate_cons_cons, ih, List.flatMap_cons]
      simp

section

variable {α β γ : Type} {R : List β → List γ → Prop} {text : α → List β} {shown : α → List γ}
  {xs : List α}

/-- A relation between texts that their joining keeps relates what is joined from related texts. -/
theorem related_flatMap (hnil : R [] [])
    (happend : ∀ {a b s t}, R a s → R b t → R (a ++ b) (s ++ t))
    (h : ∀ x ∈ xs, R (text x) (shown x)) : R (xs.flatMap text) (xs.flatMap shown) := by
  induction xs with
  | nil => exact hnil
  | cons x xs ih =>
      have hrest := ih fun y hy => h y (List.mem_cons_of_mem x hy)
      exact happend (h x List.mem_cons_self) hrest

theorem related_intercalate {separator : List β} {separator' : List γ} (hnil : R [] [])
    (happend : ∀ {a b s t}, R a s → R b t → R (a ++ b) (s ++ t)) (hsep : R separator separator')
    (h : ∀ x ∈ xs, R (text x) (shown x)) :
    R (separator.intercalate (xs.map text)) (separator'.intercalate (xs.map shown)) := by
  cases xs with
  | nil => exact hnil
  | cons x xs =>
      rw [List.map_cons, List.map_cons, intercalate_cons_eq_append_flatMap,
        intercalate_cons_eq_append_flatMap, List.flatMap_map, List.flatMap_map]
      refine happend (h x List.mem_cons_self) (related_flatMap hnil happend fun y hy => ?_)
      exact happend hsep (h y (List.mem_cons_of_mem x hy))

end

namespace Token

/-- The tokens of an expression text; where there is no text, there are none. -/
def lexText : Option String → Except ExpressionError (List Token)
  | none => .ok []
  | some text => lex text

/-! ## Pieces -/

/-- A piece of text that spells tokens and ends the word before it. -/
def Piece (text : List Char) (tokens : List Token) : Prop :=
  EndsWord text ∧ Spells text tokens

theorem piece_nil : Piece [] [] :=
  ⟨endsWord_nil, spells_nil⟩

theorem Piece.append {a b : List Char} {s t : List Token} (ha : Piece a s) (hb : Piece b t) :
    Piece (a ++ b) (s ++ t) :=
  ⟨ha.1.append hb.1, ha.2.append hb.2 hb.1⟩

theorem piece_lparen : Piece ['('] [.lparen] :=
  ⟨endsWord_cons (by decide), spells_lparen⟩

theorem piece_rparen : Piece [')'] [.rparen] :=
  ⟨endsWord_cons (by decide), spells_rparen⟩

theorem piece_alias {path : String} (h : MarkedWord '#' path) :
    Piece path.toList [.operand (.path path)] :=
  ⟨h.endsWord (by decide), spells_alias h⟩

theorem piece_placeholder {name : String} (h : MarkedWord ':' name) :
    Piece name.toList [.operand (.value name)] :=
  ⟨h.endsWord (by decide), spells_placeholder h⟩

theorem spells_blank : Spells [' '] [] :=
  spells_nil.space

theorem piece_comma : Piece ", ".toList [.comma] :=
  ⟨endsWord_cons (by decide),
    spells_comma.append spells_blank (endsWord_cons (by decide))⟩

theorem piece_comparator (op : Comparator) :
    Piece (' ' :: (op.symbol.toList ++ [' '])) [.cmp op] :=
  ⟨endsWord_cons (by decide), (spells_comparator op).space⟩

/-- A word between blanks. -/
theorem piece_spaced {word : List Char} {tokens : List Token} (h : Spells word tokens) :
    Piece (' ' :: (word ++ [' '])) tokens := by
  have hspaced := h.append spells_blank (endsWord_cons (by decide))
  rw [List.append_nil] at hspaced
  exact ⟨endsWord_cons (by decide), hspaced.space⟩

theorem piece_intercalate {α : Type} {text : α → List Char} {tokens : α → List Token}
    {separator : List Char} {token : Token} {xs : List α} (hsep : Piece separator [token])
    (h : ∀ x ∈ xs, Piece (text x) (tokens x)) :
    Piece (separator.intercalate (xs.map text)) ([token].intercalate (xs.map tokens)) :=
  related_intercalate piece_nil Piece.append hsep h

end Token

namespace Fragment

open Token

/-- Aliases and placeholders are marked words, and neither a list nor a group is empty. -/
def Spelled : Fragment → Prop
  | .compare path _ name => MarkedWord '#' path ∧ MarkedWord ':' name
  | .between path low high =>
      MarkedWord '#' path ∧ MarkedWord ':' low ∧ MarkedWord ':' high
  | .isIn path names =>
      MarkedWord '#' path ∧ names ≠ [] ∧ ∀ name ∈ names, MarkedWord ':' name
  | .anyOf entries =>
      entries ≠ [] ∧ ∀ entry ∈ entries, MarkedWord '#' entry.1 ∧ MarkedWord ':' entry.2

/-- The tokens of one equality of a group. -/
def equalityTokens (entry : String × String) : List Token :=
  [.operand (.path entry.1), .cmp .eq, .operand (.value entry.2)]

/-- The tokens of a fragment. -/
def tokens : Fragment → List Token
  | .compare path op name => [.operand (.path path), .cmp op, .operand (.value name)]
  | .between path low high =>
      [.operand (.path path), .between, .operand (.value low), .and, .operand (.value high)]
  | .isIn path names =>
      [.operand (.path path), .isIn, .lparen] ++
        [.comma].intercalate (names.map fun name => [.operand (.value name)]) ++ [.rparen]
  | .anyOf entries => [.lparen] ++ [.or].intercalate (entries.map equalityTokens) ++ [.rparen]

/-- The expression of one equality of a group. -/
def equality (entry : String × String) : Expr :=
  .compare (.path entry.1) .eq (.value entry.2)

/-- The disjunction of equalities, joined to the left; of none it is a test that always fails. -/
def disjunction : List (String × String) → Expr
  | [] => .isIn (.path "") []
  | first :: others => others.foldl (fun e entry => .or e (equality entry)) (equality first)

/-- The expression of a fragment. -/
def expr : Fragment → Expr
  | .compare path op name => .compare (.path path) op (.value name)
  | .between path low high => .between (.path path) (.value low) (.value high)
  | .isIn path names => .isIn (.path path) (names.map .value)
  | .anyOf entries => disjunction entries

/-! ## From text to tokens -/

theorem piece_equality {entry : String × String}
    (h : MarkedWord '#' entry.1 ∧ MarkedWord ':' entry.2) :
    Piece (entry.1 ++ " = " ++ entry.2).toList (equalityTokens entry) := by
  have hpieces := ((piece_alias h.1).append (piece_comparator .eq)).append
    (piece_placeholder h.2)
  simpa [equalityTokens, Comparator.symbol] using hpieces

theorem piece_text {f : Fragment} (h : f.Spelled) : Piece f.text.toList f.tokens := by
  cases f with
  | compare path op name =>
      have hpieces := ((piece_alias h.1).append (piece_comparator op)).append
        (piece_placeholder h.2)
      simpa [text, render, tokens] using hpieces
  | between path low high =>
      obtain ⟨hpath, hlow, hhigh⟩ := h
      have hpieces := ((((piece_alias hpath).append (piece_spaced spells_between)).append
        (piece_placeholder hlow)).append (piece_spaced spells_and)).append
        (piece_placeholder hhigh)
      simpa [text, render, tokens] using hpieces
  | isIn path names =>
      obtain ⟨hpath, _, hnames⟩ := h
      have hlist := piece_intercalate piece_comma fun name hname =>
        piece_placeholder (hnames name hname)
      have hpieces := ((((piece_alias hpath).append (piece_spaced spells_in)).append
        piece_lparen).append hlist).append piece_rparen
      simpa [text, render, tokens, String.toList_intercalate] using hpieces
  | anyOf entries =>
      obtain ⟨_, hentries⟩ := h
      have hlist := piece_intercalate (piece_spaced spells_or) fun entry hentry =>
        piece_equality (hentries entry hentry)
      have hpieces := (piece_lparen.append hlist).append piece_rparen
      simpa [text, render, tokens, String.toList_intercalate, Function.comp_def] using hpieces

/-! ## From tokens to expressions -/

theorem writes_equality (entry : String × String) :
    Expr.Writes .conjunction (equalityTokens entry) (equality entry) :=
  .ofUnary (.compare _ _ _)

/-- The induction is on the entries behind the tokens that have been joined so far. -/
theorem writes_disjunction {before : List Token} {left : Expr}
    (h : Expr.Writes .disjunction before left) (others : List (String × String)) :
    Expr.Writes .disjunction
      (before ++ others.flatMap fun entry => .or :: equalityTokens entry)
      (others.foldl (fun e entry => .or e (equality entry)) left) := by
  induction others generalizing before left with
  | nil =>
      rw [List.flatMap_nil, List.append_nil]
      exact h
  | cons entry others ih =>
      have hentry := ih (h.or (writes_equality entry))
      simpa using hentry

theorem writes_tokens {f : Fragment} (h : f.Spelled) : Expr.Writes .unary f.tokens f.expr := by
  cases f with
  | compare path op name => exact .compare _ _ _
  | between path low high => exact .between _ _ _
  | isIn path names =>
      obtain ⟨first, others, rfl⟩ := List.exists_cons_of_ne_nil h.2.1
      have hwrites := Expr.Writes.isIn (.path path) (.value first) (others.map Operand.value)
      simpa [tokens, expr, intercalate_cons_eq_append_flatMap, List.flatMap_map] using hwrites
  | anyOf entries =>
      obtain ⟨first, others, rfl⟩ := List.exists_cons_of_ne_nil h.1
      have hwrites := writes_disjunction (.ofConjunction (writes_equality first)) others
      simpa [tokens, expr, disjunction, intercalate_cons_eq_append_flatMap,
        List.flatMap_map] using hwrites.parens

/-! ## Conjunctions -/

/-- The conjunction of fragments, joined to the left. -/
def conjunctionExpr (first : Fragment) (others : List Fragment) : Expr :=
  others.foldl (fun e f => .and e f.expr) first.expr

theorem writes_conjunction {before : List Token} {left : Expr}
    (h : Expr.Writes .conjunction before left) {others : List Fragment}
    (hspelled : ∀ f ∈ others, f.Spelled) :
    Expr.Writes .conjunction (before ++ others.flatMap fun f => .and :: f.tokens)
      (others.foldl (fun e f => .and e f.expr) left) := by
  induction others generalizing before left with
  | nil =>
      rw [List.flatMap_nil, List.append_nil]
      exact h
  | cons f others ih =>
      have hrest := ih (h.and (writes_tokens (hspelled f List.mem_cons_self)))
        fun g hg => hspelled g (List.mem_cons_of_mem f hg)
      simpa using hrest

/-- The tokens of a conjunction are those of its fragments, with `AND` between them. -/
theorem lex_conjunction {fragments : List Fragment} (h : ∀ f ∈ fragments, f.Spelled) :
    lexText (conjunction fragments) = .ok ([Token.and].intercalate (fragments.map tokens)) := by
  cases fragments with
  | nil => rfl
  | cons first others =>
      have hpiece := piece_intercalate (piece_spaced spells_and) fun f hf => piece_text (h f hf)
      apply Spells.lex
      simpa [String.toList_intercalate, Function.comp_def] using hpiece.2

/-- The text of a conjunction of fragments is read as the conjunction of their expressions. -/
theorem parse_conjunction {first : Fragment} {others : List Fragment}
    (h : ∀ f ∈ first :: others, f.Spelled) :
    ∃ text, conjunction (first :: others) = some text ∧
      Expr.parse text = .ok (conjunctionExpr first others) := by
  refine ⟨_, rfl, ?_⟩
  have hlex : Token.lex (" AND ".intercalate ((first :: others).map text)) =
      .ok ([Token.and].intercalate ((first :: others).map tokens)) := lex_conjunction h
  have hwrites := writes_conjunction (.ofUnary (writes_tokens (h first List.mem_cons_self)))
    fun f hf => h f (List.mem_cons_of_mem first hf)
  have htokens : [Token.and].intercalate ((first :: others).map tokens) =
      first.tokens ++ others.flatMap fun f => .and :: f.tokens := by
    simp [intercalate_cons_eq_append_flatMap, List.flatMap_map]
  unfold Expr.parse
  rw [hlex, htokens, ok_bind, Expr.ofTokens_of_writes (.ofConjunction hwrites)]
  rfl

/-- A fragment is one conjunct, also a group and a range. -/
theorem conjuncts_expr (f : Fragment) : f.expr.conjuncts = [f.expr] := by
  cases f with
  | compare path op name => rfl
  | between path low high => rfl
  | isIn path names => rfl
  | anyOf entries =>
      cases entries with
      | nil => rfl
      | cons first others =>
          cases hlast : others.reverse with
          | nil =>
              rw [List.reverse_eq_nil_iff.mp hlast]
              rfl
          | cons last rest =>
              rw [List.reverse_eq_cons_iff.mp hlast]
              simp [expr, disjunction, Expr.conjuncts]

theorem conjuncts_foldl_and (left : Expr) (others : List Fragment) :
    (others.foldl (fun e f => .and e f.expr) left).conjuncts =
      left.conjuncts ++ others.map expr := by
  induction others generalizing left with
  | nil => simp
  | cons f others ih =>
      rw [List.foldl_cons, ih, Expr.conjuncts, conjuncts_expr]
      simp

/-- The conjuncts of a conjunction of fragments are their expressions, in order. -/
theorem conjuncts_conjunctionExpr (first : Fragment) (others : List Fragment) :
    (conjunctionExpr first others).conjuncts = (first :: others).map expr := by
  rw [conjunctionExpr, conjuncts_foldl_and, conjuncts_expr]
  rfl

end Fragment

end KeyedQuery
