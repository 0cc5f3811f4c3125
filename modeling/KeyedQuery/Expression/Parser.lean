import KeyedQuery.Expression.Lexer

/-!
# Reading condition expressions

```text
expr      := and ("OR" and)*
and       := unary ("AND" unary)*
unary     := "NOT" unary | "(" expr ")" | condition
condition := operand cmp operand
           | operand "BETWEEN" operand "AND" operand
           | operand "IN" "(" operand ("," operand)* ")"
```

A reader takes an expression from the front of a token list and returns what
follows it.  Every level of nesting costs a token, so the reader of unary
expressions recurses on the number of levels that may still be opened.
-/

namespace KeyedQuery

namespace Expr

/-- What a reader of tokens returns: a part of an expression and the tokens after it. -/
abbrev Reader (α : Type) := List Token → Except ParseFault (α × List Token)

def expect (wanted : Token) (tokens : List Token) : Except ParseFault (List Token) :=
  match tokens with
  | token :: rest => if token = wanted then .ok rest else .error (.expected wanted (some token))
  | [] => .error (.expected wanted none)

def readOperand : Reader Operand
  | .operand operand :: rest => .ok (operand, rest)
  | tokens => .error (.operandExpected tokens.head?)

/-- The rest of a list of operands, up to its closing parenthesis. -/
def readOperandsRest : Reader (List Operand)
  | .comma :: .operand operand :: rest => do
      let (operands, rest) ← readOperandsRest rest
      .ok (operand :: operands, rest)
  | .comma :: tokens => .error (.operandExpected tokens.head?)
  | .rparen :: rest => .ok ([], rest)
  | tokens => .error (.expected .rparen tokens.head?)

/-- A comparison, a range or a membership. -/
def readCondition : Reader Expr := fun tokens => do
  let (value, rest) ← readOperand tokens
  match rest with
  | .cmp op :: rest => do
      let (right, rest) ← readOperand rest
      .ok (.compare value op right, rest)
  | .between :: rest => do
      let (low, rest) ← readOperand rest
      let rest ← expect .and rest
      let (high, rest) ← readOperand rest
      .ok (.between value low high, rest)
  | .isIn :: rest => do
      let rest ← expect .lparen rest
      let (first, rest) ← readOperand rest
      let (others, rest) ← readOperandsRest rest
      .ok (.isIn value (first :: others), rest)
  | other => .error (.operatorExpected other.head?)

/--
Further items after a separator, joined to the left, given as many steps as
there are tokens.
-/
def readChain (item : Reader Expr) (separator : Token) (join : Expr → Expr → Expr) :
    Nat → Expr → Reader Expr
  | 0, left, tokens => .ok (left, tokens)
  | _ + 1, left, [] => .ok (left, [])
  | steps + 1, left, token :: rest =>
      if token = separator then do
        let (right, rest) ← item rest
        readChain item separator join steps (join left right) rest
      else
        .ok (left, token :: rest)

/-- Items with a separator between them, joined to the left. -/
def readJoined (item : Reader Expr) (separator : Token) (join : Expr → Expr → Expr) :
    Reader Expr := fun tokens => do
  let (first, rest) ← item tokens
  readChain item separator join rest.length first rest

/-- A disjunction of conjunctions of unary expressions. -/
def readDisjunction (unary : Reader Expr) : Reader Expr :=
  readJoined (readJoined unary .and .and) .or .or

/-- A unary expression, in which `levels` negations and parentheses may be opened. -/
def readUnary : Nat → Reader Expr
  | levels + 1, .not :: rest => do
      let (inner, rest) ← readUnary levels rest
      .ok (.not inner, rest)
  | levels + 1, .lparen :: rest => do
      let (inner, rest) ← readDisjunction (readUnary levels) rest
      let rest ← expect .rparen rest
      .ok (inner, rest)
  | _, tokens => readCondition tokens

/-- The expression that a whole token list is. -/
def ofTokens (tokens : List Token) : Except ParseFault Expr := do
  let (e, rest) ← readDisjunction (readUnary tokens.length) tokens
  match rest with
  | [] => .ok e
  | token :: _ => .error (.trailing token)

def parse (text : String) : Except ExpressionError Expr := do
  let tokens ← Token.lex text
  match ofTokens tokens with
  | .ok e => .ok e
  | .error fault => .error (.malformed fault)

end Expr

end KeyedQuery
