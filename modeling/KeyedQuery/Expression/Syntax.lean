import KeyedQuery.Condition
import KeyedQuery.Text.Quoted

/-!
# Condition expressions

The expressions that a store evaluates, as tokens and as trees.  An operand is
an attribute, named directly or by an alias that starts with `#`, or a
placeholder for a value, which starts with `:`.
-/

namespace KeyedQuery

/-- What a comparison compares. -/
inductive Operand where
  /-- An attribute: a name, or an alias with its `#`. -/
  | path (text : String)
  /-- A value placeholder, with its `:`. -/
  | value (text : String)
deriving DecidableEq, Repr

/-- A comparison operator of expressions. -/
inductive Comparator where
  | eq
  | ne
  | order (op : Comparison)
deriving DecidableEq, Repr

namespace Comparator

def symbol : Comparator → String
  | .eq => "="
  | .ne => "<>"
  | .order op => op.symbol

/-- Whether two values pass the comparison. -/
def test : Comparator → Value → Value → Bool
  | .eq, a, b => a.looseEq b
  | .ne, a, b => !a.looseEq b
  | .order op, a, b => op.test a b

end Comparator

inductive Token where
  | operand (o : Operand)
  | cmp (op : Comparator)
  | lparen
  | rparen
  | comma
  | and
  | or
  | not
  | between
  | isIn
deriving DecidableEq, Repr

inductive Expr where
  | compare (left : Operand) (op : Comparator) (right : Operand)
  | between (value low high : Operand)
  | isIn (value : Operand) (list : List Operand)
  | and (left right : Expr)
  | or (left right : Expr)
  | not (inner : Expr)
deriving DecidableEq, Repr

namespace Expr

/-- The parts of a tree of conjunctions, from left to right. -/
def conjuncts : Expr → List Expr
  | .and left right => left.conjuncts ++ right.conjuncts
  | e => [e]

end Expr

/-! ## Tokens and expressions inside messages -/

def Comparator.message : Comparator → String
  | .eq => "Eq"
  | .ne => "Ne"
  | .order .lt => "Lt"
  | .order .le => "Le"
  | .order .gt => "Gt"
  | .order .ge => "Ge"

def Operand.message : Operand → String
  | .path text => "Path(" ++ Text.quoted text ++ ")"
  | .value text => "Value(" ++ Text.quoted text ++ ")"

def Token.message : Token → String
  | .operand o => o.message
  | .cmp op => "Cmp(" ++ op.message ++ ")"
  | .lparen => "LParen"
  | .rparen => "RParen"
  | .comma => "Comma"
  | .and => "And"
  | .or => "Or"
  | .not => "Not"
  | .between => "Between"
  | .isIn => "In"

/-- The text of a token that may be missing at the end. -/
def Token.foundMessage : Option Token → String
  | some token => "Some(" ++ token.message ++ ")"
  | none => "None"

def Expr.message : Expr → String
  | .compare left op right =>
      "Compare \x7b left: " ++ left.message ++ ", op: " ++ op.message ++
        ", right: " ++ right.message ++ " \x7d"
  | .between value low high =>
      "Between \x7b value: " ++ value.message ++ ", low: " ++ low.message ++
        ", high: " ++ high.message ++ " \x7d"
  | .isIn value list =>
      "In \x7b value: " ++ value.message ++ ", list: [" ++
        ", ".intercalate (list.map Operand.message) ++ "] \x7d"
  | .and left right => "And(" ++ left.message ++ ", " ++ right.message ++ ")"
  | .or left right => "Or(" ++ left.message ++ ", " ++ right.message ++ ")"
  | .not inner => "Not(" ++ inner.message ++ ")"

/-! ## Faults -/

/-- Why tokens are not an expression. -/
inductive ParseFault where
  | trailing (token : Token)
  | expected (wanted : Token) (found : Option Token)
  | operandExpected (found : Option Token)
  | operatorExpected (found : Option Token)
deriving DecidableEq, Repr

def ParseFault.message : ParseFault → String
  | .trailing token => "unexpected " ++ token.message ++ " after expression"
  | .expected wanted found =>
      "expected " ++ wanted.message ++ ", found " ++ Token.foundMessage found
  | .operandExpected found => "expected operand, found " ++ Token.foundMessage found
  | .operatorExpected found =>
      "expected comparison, BETWEEN or IN, found " ++ Token.foundMessage found

/-- Why an expression text cannot be read or evaluated. -/
inductive ExpressionError where
  /-- A character that starts no token, at an offset in bytes. -/
  | unexpectedChar (char : Char) (offset : Nat)
  | malformed (fault : ParseFault)
  | unresolvedName (path : String)
  | unresolvedValue (placeholder : String)
deriving DecidableEq, Repr

def ExpressionError.message : ExpressionError → String
  | .unexpectedChar char offset =>
      "unexpected character `" ++ String.singleton char ++ "` at offset " ++
        Decimal.intText offset
  | .malformed fault => "syntax error: " ++ fault.message
  | .unresolvedName path => "unresolved attribute name `" ++ path ++ "`"
  | .unresolvedValue placeholder => "unresolved value `" ++ placeholder ++ "`"

end KeyedQuery
