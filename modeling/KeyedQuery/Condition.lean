import KeyedQuery.Value.Basic

/-!
# Conditions on attributes

A condition is a test of one attribute's value.  `Condition.admits` is its
direct meaning: what the test says of a value, without any expression text
between the condition and the record.
-/

namespace KeyedQuery

/-- A test of how two values are ordered. -/
inductive Comparison where
  | lt
  | le
  | gt
  | ge
deriving DecidableEq, Repr

namespace Comparison

def symbol : Comparison → String
  | .lt => "<"
  | .le => "<="
  | .gt => ">"
  | .ge => ">="

/-- Whether two values in this order pass the comparison. -/
def admits : Comparison → Ordering → Bool
  | .lt, o => o == .lt
  | .le, o => o != .gt
  | .gt, o => o == .gt
  | .ge, o => o != .lt

/-- Whether the first value passes the comparison with the second. -/
def test (c : Comparison) (a b : Value) : Bool :=
  match a.compare? b with
  | some o => c.admits o
  | none => false

end Comparison

/-- A condition on the value of one attribute. -/
inductive Condition where
  /-- Equal to a value. -/
  | equals (value : Value)
  /-- Ordered so with respect to a value. -/
  | compare (op : Comparison) (value : Value)
  /-- Within a range, both ends included. -/
  | between (low high : Value)
  /-- Equal to one of several values. -/
  | isIn (values : List Value)

namespace Condition

def isEquality : Condition → Bool
  | .equals _ => true
  | _ => false

def isMembership : Condition → Bool
  | .isIn _ => true
  | _ => false

/-- The values that the condition compares with. -/
def operands : Condition → List Value
  | .equals v => [v]
  | .compare _ v => [v]
  | .between low high => [low, high]
  | .isIn values => values

/-- The condition with every operand rewritten; the first failure wins. -/
def mapOperands {ε : Type} (f : Value → Except ε Value) : Condition → Except ε Condition
  | .equals v => do
      let v ← f v
      .ok (.equals v)
  | .compare op v => do
      let v ← f v
      .ok (.compare op v)
  | .between low high => do
      let low ← f low
      let high ← f high
      .ok (.between low high)
  | .isIn values => do
      let values ← values.mapM f
      .ok (.isIn values)

/-- Whether a value that is present passes the condition. -/
def admits (c : Condition) (value : Value) : Bool :=
  match c with
  | .equals v => value.looseEq v
  | .compare op v => op.test value v
  | .between low high => Comparison.ge.test value low && Comparison.le.test value high
  | .isIn values => values.any value.looseEq

/-- Whether a record passes the condition on an attribute; an absent value passes none. -/
def holds (c : Condition) (r : Record) (name : String) : Bool :=
  match r.present? name with
  | some value => c.admits value
  | none => false

end Condition

end KeyedQuery
