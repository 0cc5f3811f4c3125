import KeyedQuery.Expression.Parser
import KeyedQuery.Proofs.Except

/-!
# The grammar of condition expressions

`Writes` relates token lists to the expressions that they write, one constructor
for each production.  The grammar joins to the left while the readers carry the
expression so far forward, so what the readers do with a derivation is stated in
the middle of a chain: after the tokens of the derivation the chain stands at
its expression.  The other way, what a reader has taken from the front of the
tokens writes what it returns, so a token list is read exactly as it is written.
-/

namespace KeyedQuery

namespace Expr

/-- The ranks of the grammar, from the tightest to the loosest. -/
inductive Rank where
  | unary
  | conjunction
  | disjunction

/-- The tokens that write an expression at a rank. -/
inductive Writes : Rank → List Token → Expr → Prop where
  | compare (left : Operand) (op : Comparator) (right : Operand) :
      Writes .unary [.operand left, .cmp op, .operand right] (.compare left op right)
  | between (value low high : Operand) :
      Writes .unary [.operand value, .between, .operand low, .and, .operand high]
        (.between value low high)
  | isIn (value first : Operand) (others : List Operand) :
      Writes .unary
        (.operand value :: .isIn :: .lparen :: .operand first ::
          (others.flatMap (fun other => [.comma, .operand other]) ++ [.rparen]))
        (.isIn value (first :: others))
  | not {tokens : List Token} {e : Expr} (inner : Writes .unary tokens e) :
      Writes .unary (.not :: tokens) (.not e)
  | parens {tokens : List Token} {e : Expr} (inner : Writes .disjunction tokens e) :
      Writes .unary (.lparen :: (tokens ++ [.rparen])) e
  | ofUnary {tokens : List Token} {e : Expr} (h : Writes .unary tokens e) :
      Writes .conjunction tokens e
  | and {before after : List Token} {left right : Expr}
      (hleft : Writes .conjunction before left) (hright : Writes .unary after right) :
      Writes .conjunction (before ++ .and :: after) (.and left right)
  | ofConjunction {tokens : List Token} {e : Expr} (h : Writes .conjunction tokens e) :
      Writes .disjunction tokens e
  | or {before after : List Token} {left right : Expr}
      (hleft : Writes .disjunction before left) (hright : Writes .conjunction after right) :
      Writes .disjunction (before ++ .or :: after) (.or left right)

/-! ## Chains -/

section Chains

variable {item : Reader Expr} {separator : Token} {join : Expr → Expr → Expr}

theorem readChain_of_ne {token : Token} (h : token ≠ separator) (steps : Nat) (left : Expr)
    (rest : List Token) :
    readChain item separator join (steps + 1) left (token :: rest) = .ok (left, token :: rest) :=
  if_neg h

theorem readChain_separator (steps : Nat) (left : Expr) (tokens : List Token) :
    readChain item separator join (steps + 1) left (separator :: tokens) =
      item tokens >>= fun (right, rest) =>
        readChain item separator join steps (join left right) rest :=
  if_pos rfl

/-- A chain ends at a token that is not its separator, and at the end of the tokens. -/
theorem readChain_stop {rest : List Token} (h : rest.head? ≠ some separator) (steps : Nat)
    (left : Expr) : readChain item separator join steps left rest = .ok (left, rest) := by
  cases steps with
  | zero => rfl
  | succ steps =>
      cases rest with
      | nil => rfl
      | cons token rest =>
          have hne : token ≠ separator := by
            intro heq
            exact h (by rw [heq]; rfl)
          exact readChain_of_ne hne steps left rest

theorem readChain_step {tokens rest : List Token} {left right : Expr} (steps : Nat)
    (hitem : item tokens = .ok (right, rest)) :
    readChain item separator join (steps + 1) left (separator :: tokens) =
      readChain item separator join steps (join left right) rest := by
  rw [readChain_separator, hitem]
  rfl

/-- After the tokens a chain of items stands at the expression, with steps for all that follows. -/
def Reaches (item : Reader Expr) (separator : Token) (join : Expr → Expr → Expr)
    (tokens rest : List Token) (e : Expr) : Prop :=
  ∃ steps, rest.length ≤ steps ∧
    readJoined item separator join (tokens ++ rest) =
      readChain item separator join steps e rest

theorem Reaches.of_item {tokens rest : List Token} {e : Expr}
    (hitem : item (tokens ++ rest) = .ok (e, rest)) :
    Reaches item separator join tokens rest e := by
  refine ⟨rest.length, Nat.le_refl _, ?_⟩
  unfold readJoined
  rw [hitem]
  rfl

theorem Reaches.step {before after rest : List Token} {left right : Expr}
    (h : Reaches item separator join before (separator :: (after ++ rest)) left)
    (hitem : item (after ++ rest) = .ok (right, rest)) :
    Reaches item separator join (before ++ separator :: after) rest (join left right) := by
  obtain ⟨steps, hsteps, hread⟩ := h
  cases steps with
  | zero => simp at hsteps
  | succ steps =>
      refine ⟨steps, ?_, ?_⟩
      · simp at hsteps
        omega
      · rw [List.append_assoc, List.cons_append, hread, readChain_step steps hitem]

theorem Reaches.stop {tokens rest : List Token} {e : Expr}
    (h : Reaches item separator join tokens rest e) (hstop : rest.head? ≠ some separator) :
    readJoined item separator join (tokens ++ rest) = .ok (e, rest) := by
  obtain ⟨steps, _, hread⟩ := h
  rw [hread, readChain_stop hstop]

end Chains

/-! ## Readers -/

theorem expect_self (token : Token) (rest : List Token) :
    expect token (token :: rest) = .ok rest := by
  simp [expect]

theorem readOperandsRest_append (others : List Operand) (rest : List Token) :
    readOperandsRest
        (others.flatMap (fun other => [Token.comma, .operand other]) ++ .rparen :: rest) =
      .ok (others, rest) := by
  induction others with
  | nil => rfl
  | cons other others ih =>
      simp only [List.flatMap_cons, List.cons_append, List.nil_append, readOperandsRest, ih]
      rfl

/-- A unary expression that starts with an operand is a condition. -/
theorem readUnary_operand (levels : Nat) (operand : Operand) (rest : List Token) :
    readUnary levels (.operand operand :: rest) = readCondition (.operand operand :: rest) := by
  cases levels <;> rfl

theorem readUnary_not (levels : Nat) (rest : List Token) :
    readUnary (levels + 1) (.not :: rest) =
      readUnary levels rest >>= fun (inner, rest) => .ok (.not inner, rest) :=
  rfl

theorem readUnary_lparen (levels : Nat) (rest : List Token) :
    readUnary (levels + 1) (.lparen :: rest) =
      readDisjunction (readUnary levels) rest >>= fun (inner, rest) =>
        expect .rparen rest >>= fun rest => .ok (inner, rest) :=
  rfl

/-- What the reader of a rank does with the tokens of a derivation and with what follows them. -/
def Read (levels : Nat) (tokens : List Token) (e : Expr) : Rank → Prop
  | .unary => ∀ rest, readUnary levels (tokens ++ rest) = .ok (e, rest)
  | .conjunction => ∀ rest, Reaches (readUnary levels) .and .and tokens rest e
  | .disjunction => ∀ rest, rest.head? ≠ some .and →
      Reaches (readJoined (readUnary levels) .and .and) .or .or tokens rest e

/-- Every derivation is read, given as many levels as it has tokens. -/
theorem read_of_writes {rank : Rank} {tokens : List Token} {e : Expr}
    (h : Writes rank tokens e) : ∀ levels, tokens.length ≤ levels → Read levels tokens e rank := by
  induction h with
  | compare left op right =>
      intro levels _ rest
      exact readUnary_operand levels left _
  | between value low high =>
      intro levels _ rest
      exact readUnary_operand levels value _
  | isIn value first others =>
      intro levels _ rest
      simp only [List.cons_append, List.append_assoc, List.nil_append]
      rw [readUnary_operand]
      simp only [readCondition, readOperand, expect_self, ok_bind, readOperandsRest_append]
  | not inner ih =>
      intro levels hlevels rest
      cases levels with
      | zero => simp at hlevels
      | succ levels =>
          have hinner := ih levels (by simpa using hlevels) rest
          rw [List.cons_append, readUnary_not, hinner]
          rfl
  | @parens tokens e inner ih =>
      intro levels hlevels rest
      cases levels with
      | zero => simp at hlevels
      | succ levels =>
          have hle : tokens.length ≤ levels := by
            simp at hlevels
            omega
          have hread := (ih levels hle (.rparen :: rest) (by simp)).stop (by simp)
          simp only [List.cons_append, List.append_assoc, List.nil_append]
          rw [readUnary_lparen, readDisjunction, hread]
          rfl
  | ofUnary h ih =>
      intro levels hlevels rest
      exact Reaches.of_item (ih levels hlevels rest)
  | and hleft hright ihleft ihright =>
      intro levels hlevels rest
      simp at hlevels
      exact (ihleft levels (by omega) _).step (ihright levels (by omega) rest)
  | ofConjunction h ih =>
      intro levels hlevels rest hstop
      exact Reaches.of_item ((ih levels hlevels rest).stop hstop)
  | or hleft hright ihleft ihright =>
      intro levels hlevels rest hstop
      simp at hlevels
      exact (ihleft levels (by omega) _ (by simp)).step
        ((ihright levels (by omega) rest).stop hstop)

/-- Tokens that write an expression are read as that expression. -/
theorem ofTokens_of_writes {tokens : List Token} {e : Expr}
    (h : Writes .disjunction tokens e) : ofTokens tokens = .ok e := by
  have hread := (read_of_writes h tokens.length (Nat.le_refl _) [] (by simp)).stop (by simp)
  rw [List.append_nil] at hread
  unfold ofTokens readDisjunction
  rw [hread]
  rfl

/-! ## What readers take -/

theorem expect_eq_ok_iff {wanted : Token} {tokens rest : List Token} :
    expect wanted tokens = .ok rest ↔ tokens = wanted :: rest := by
  cases tokens with
  | nil => simp [expect]
  | cons token after =>
      by_cases h : token = wanted
      · simp [expect, h]
      · simp [expect, h]

theorem readOperand_eq_ok_iff {tokens rest : List Token} {operand : Operand} :
    readOperand tokens = .ok (operand, rest) ↔ tokens = .operand operand :: rest := by
  constructor
  · intro h
    unfold readOperand at h
    split at h
    · cases h
      rfl
    · cases h
  · rintro rfl
    rfl

theorem eq_of_readOperandsRest {tokens rest : List Token} {others : List Operand}
    (h : readOperandsRest tokens = .ok (others, rest)) :
    tokens = others.flatMap (fun other => [Token.comma, .operand other]) ++ .rparen :: rest := by
  fun_induction readOperandsRest tokens generalizing others with
  | case1 operand tokens ih =>
      obtain ⟨⟨operands, after⟩, hread, hpair⟩ := bind_eq_ok_iff.mp h
      cases hpair
      simp [ih hread]
  | case2 => cases h
  | case3 =>
      cases h
      rfl
  | case4 => cases h

/-- A reader takes tokens that write what it returns at a rank, and nothing else. -/
def Sound (reader : Reader Expr) (rank : Rank) : Prop :=
  ∀ tokens e rest, reader tokens = .ok (e, rest) →
    ∃ used, tokens = used ++ rest ∧ Writes rank used e

theorem sound_readCondition : Sound readCondition .unary := by
  intro tokens e rest h
  obtain ⟨⟨value, after⟩, hvalue, h⟩ := bind_eq_ok_iff.mp h
  rw [readOperand_eq_ok_iff.mp hvalue]
  dsimp only at h
  split at h
  · rename_i op tail
    obtain ⟨⟨right, after⟩, hright, hpair⟩ := bind_eq_ok_iff.mp h
    cases hpair
    rw [readOperand_eq_ok_iff.mp hright]
    exact ⟨_, rfl, .compare value op right⟩
  · rename_i tail
    obtain ⟨⟨low, afterLow⟩, hlow, h⟩ := bind_eq_ok_iff.mp h
    obtain ⟨afterAnd, hand, h⟩ := bind_eq_ok_iff.mp h
    obtain ⟨⟨high, afterHigh⟩, hhigh, hpair⟩ := bind_eq_ok_iff.mp h
    cases hpair
    have hlowTokens : tail = .operand low :: afterLow := readOperand_eq_ok_iff.mp hlow
    have handTokens : afterLow = .and :: afterAnd := expect_eq_ok_iff.mp hand
    have hhighTokens : afterAnd = .operand high :: afterHigh := readOperand_eq_ok_iff.mp hhigh
    rw [hlowTokens, handTokens, hhighTokens]
    exact ⟨_, rfl, .between value low high⟩
  · rename_i tail
    obtain ⟨afterParen, hparen, h⟩ := bind_eq_ok_iff.mp h
    obtain ⟨⟨first, afterFirst⟩, hfirst, h⟩ := bind_eq_ok_iff.mp h
    obtain ⟨⟨others, afterOthers⟩, hothers, hpair⟩ := bind_eq_ok_iff.mp h
    cases hpair
    have hparenTokens : tail = .lparen :: afterParen := expect_eq_ok_iff.mp hparen
    have hfirstTokens : afterParen = .operand first :: afterFirst :=
      readOperand_eq_ok_iff.mp hfirst
    have hothersTokens := eq_of_readOperandsRest hothers
    dsimp only at hothersTokens
    rw [hparenTokens, hfirstTokens, hothersTokens]
    exact ⟨_, by simp, .isIn value first others⟩
  · cases h

section Joined

variable {item : Reader Expr} {separator : Token} {join : Expr → Expr → Expr} {low high : Rank}

/-- The induction is on the steps; the tokens before the chain write what it starts from. -/
theorem writes_of_readChain (hitem : Sound item low)
    (hjoin : ∀ before after left right, Writes high before left → Writes low after right →
      Writes high (before ++ separator :: after) (join left right))
    {steps : Nat} {before tokens rest : List Token} {left e : Expr}
    (hleft : Writes high before left)
    (h : readChain item separator join steps left tokens = .ok (e, rest)) :
    ∃ used, tokens = used ++ rest ∧ Writes high (before ++ used) e := by
  induction steps generalizing before tokens left with
  | zero =>
      cases h
      exact ⟨[], rfl, by simpa using hleft⟩
  | succ steps ih =>
      cases tokens with
      | nil =>
          cases h
          exact ⟨[], rfl, by simpa using hleft⟩
      | cons token tokens =>
          by_cases htoken : token = separator
          · rw [htoken, readChain_separator] at h
            obtain ⟨⟨right, after⟩, hread, h⟩ := bind_eq_ok_iff.mp h
            obtain ⟨taken, htaken, hright⟩ := hitem tokens right after hread
            have hjoined := hjoin before taken left right hleft hright
            obtain ⟨used, hused, hwrites⟩ := ih hjoined h
            refine ⟨separator :: (taken ++ used), ?_, by simpa using hwrites⟩
            simp [htoken, htaken, hused]
          · rw [readChain_of_ne htoken] at h
            cases h
            exact ⟨[], rfl, by simpa using hleft⟩

theorem Sound.joined (hitem : Sound item low)
    (hof : ∀ tokens e, Writes low tokens e → Writes high tokens e)
    (hjoin : ∀ before after left right, Writes high before left → Writes low after right →
      Writes high (before ++ separator :: after) (join left right)) :
    Sound (readJoined item separator join) high := by
  intro tokens e rest h
  obtain ⟨⟨first, after⟩, hfirst, h⟩ := bind_eq_ok_iff.mp h
  obtain ⟨taken, htaken, hwrites⟩ := hitem tokens first after hfirst
  obtain ⟨used, hused, hall⟩ := writes_of_readChain hitem hjoin (hof taken first hwrites) h
  exact ⟨taken ++ used, by simp [htaken, hused], hall⟩

end Joined

theorem Sound.disjunction {unary : Reader Expr} (h : Sound unary .unary) :
    Sound (readDisjunction unary) .disjunction := by
  have hconjunction : Sound (readJoined unary .and .and) .conjunction :=
    h.joined (fun _ _ hunary => .ofUnary hunary) (fun _ _ _ _ => .and)
  exact hconjunction.joined (fun _ _ => .ofConjunction) (fun _ _ _ _ => .or)

theorem sound_readUnary (levels : Nat) : Sound (readUnary levels) .unary := by
  induction levels with
  | zero =>
      intro tokens e rest h
      exact sound_readCondition tokens e rest h
  | succ levels ih =>
      intro tokens e rest h
      unfold readUnary at h
      split at h
      · rename_i levels' tail heq
        cases heq
        obtain ⟨⟨inner, after⟩, hinner, hpair⟩ := bind_eq_ok_iff.mp h
        cases hpair
        obtain ⟨used, hused, hwrites⟩ := ih tail inner rest hinner
        exact ⟨.not :: used, by simp [hused], hwrites.not⟩
      · rename_i levels' tail heq
        cases heq
        obtain ⟨⟨inner, after⟩, hinner, h⟩ := bind_eq_ok_iff.mp h
        obtain ⟨afterParen, hparen, hpair⟩ := bind_eq_ok_iff.mp h
        cases hpair
        obtain ⟨used, hused, hwrites⟩ := ih.disjunction tail e after hinner
        have hparenTokens := expect_eq_ok_iff.mp hparen
        exact ⟨.lparen :: (used ++ [.rparen]), by simp [hused, hparenTokens], hwrites.parens⟩
      · exact sound_readCondition _ e rest h

/-- The tokens that are read as an expression are those that write it. -/
theorem ofTokens_eq_ok_iff {tokens : List Token} {e : Expr} :
    ofTokens tokens = .ok e ↔ Writes .disjunction tokens e := by
  constructor
  · intro h
    obtain ⟨⟨read, rest⟩, hread, h⟩ := bind_eq_ok_iff.mp h
    obtain ⟨used, hused, hwrites⟩ := (sound_readUnary tokens.length).disjunction _ _ _ hread
    cases rest with
    | nil =>
        cases h
        rw [hused, List.append_nil]
        exact hwrites
    | cons token rest => cases h
  · exact ofTokens_of_writes

end Expr

end KeyedQuery
