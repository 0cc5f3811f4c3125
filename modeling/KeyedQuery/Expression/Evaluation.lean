import KeyedQuery.Expression.Parser

/-!
# Evaluating condition expressions

An expression is evaluated on a record with two tables: aliases stand for
attribute names, and placeholders for values.  An attribute that is missing or
null satisfies no condition but `<>`.
-/

namespace KeyedQuery

/-- What the aliases and placeholders of expressions stand for. -/
structure Bindings where
  /-- Aliases, with their `#`, to attribute names. -/
  names : Dict String
  /-- Placeholders, with their `:`, to values. -/
  values : Dict Value

namespace Bindings

def empty : Bindings :=
  ⟨.empty, .empty⟩

/-- The attribute that a path stands for. -/
def attributeName (b : Bindings) (path : String) : Except ExpressionError String :=
  if path.toList.head? = some '#' then
    match b.names.get? path with
    | some name => .ok name
    | none => .error (.unresolvedName path)
  else
    .ok path

/-- The value of an operand on a record; a missing or null attribute has none. -/
def resolve (b : Bindings) (r : Record) : Operand → Except ExpressionError (Option Value)
  | .path path => do
      let name ← b.attributeName path
      .ok (r.present? name)
  | .value placeholder =>
      match b.values.get? placeholder with
      | some value => .ok (some value)
      | none => .error (.unresolvedValue placeholder)

/-- Whether a value is among operands; the search stops at the first that is equal. -/
def isAmong (b : Bindings) (r : Record) (value : Value) :
    List Operand → Except ExpressionError Bool
  | [] => .ok false
  | operand :: rest => do
      let candidate ← b.resolve r operand
      if candidate.any value.looseEq then .ok true else b.isAmong r value rest

/-- Whether a record satisfies an expression. -/
def eval (b : Bindings) (r : Record) : Expr → Except ExpressionError Bool
  | .compare left op right => do
      let left ← b.resolve r left
      let right ← b.resolve r right
      match left, right with
      | some left, some right => .ok (op.test left right)
      | _, _ => .ok (op == .ne)
  | .between value low high => do
      let value ← b.resolve r value
      let low ← b.resolve r low
      let high ← b.resolve r high
      match value, low, high with
      | some value, some low, some high =>
          .ok (Comparison.ge.test value low && Comparison.le.test value high)
      | _, _, _ => .ok false
  | .isIn value list => do
      match ← b.resolve r value with
      | some value => b.isAmong r value list
      | none => .ok false
  | .and left right => do
      if ← b.eval r left then b.eval r right else .ok false
  | .or left right => do
      if ← b.eval r left then .ok true else b.eval r right
  | .not inner => do
      let holds ← b.eval r inner
      .ok (!holds)

end Bindings

end KeyedQuery
