import KeyedQuery.Binary64.Rounding
import KeyedQuery.Dict

/-!
# Attribute values

The values that records hold and conditions compare with.  Two equalities live
on them: `==` tells variants apart and is the equality of primary keys, while
`looseEq` compares integers and floating-point numbers as numbers and is the
equality of conditions.
-/

namespace KeyedQuery

/-- A value of an attribute.  The fields of a nested map are in increasing name order. -/
inductive Value where
  | null
  | bool (value : Bool)
  | int (value : Int64)
  | float (value : Binary64)
  | string (value : String)
  /-- An instant, in milliseconds since the start of 1970. -/
  | timestamp (millis : Int64)
  | list (items : List Value)
  | map (fields : List (String × Value))

/-- A record: a value for each of its attributes. -/
abbrev Record := Dict Value

namespace Value

instance : Inhabited Value :=
  ⟨null⟩

/-- A nested map of any list of fields, where a later field wins over an earlier one. -/
def ofFields (fields : List (String × Value)) : Value :=
  .map (Dict.ofList fields).entries

mutual

/-- Every nested map has its fields in increasing name order. -/
def Ordered : Value → Prop
  | .list items => OrderedItems items
  | .map fields => (fields.Pairwise fun a b => a.1 < b.1) ∧ OrderedFields fields
  | _ => True

/-- Every element of a list is ordered. -/
def OrderedItems : List Value → Prop
  | [] => True
  | item :: rest => item.Ordered ∧ OrderedItems rest

/-- Every field of a map is ordered. -/
def OrderedFields : List (String × Value) → Prop
  | [] => True
  | (_, value) :: rest => value.Ordered ∧ OrderedFields rest

end

def isNull : Value → Bool
  | .null => true
  | _ => false

/-- A value that a condition can compare with: neither a list nor a map. -/
def isScalar : Value → Bool
  | .list _ => false
  | .map _ => false
  | _ => true

def asBool? : Value → Option Bool
  | .bool b => some b
  | _ => none

def asInt? : Value → Option Int64
  | .int i => some i
  | _ => none

def asBinary64? : Value → Option Binary64
  | .float x => some x
  | .int i => some (.ofInt i.toInt)
  | _ => none

def asString? : Value → Option String
  | .string s => some s
  | _ => none

def asTimestamp? : Value → Option Int64
  | .timestamp ms => some ms
  | _ => none

def typeName : Value → String
  | .null => "null"
  | .bool _ => "bool"
  | .int _ => "int"
  | .float _ => "float"
  | .string _ => "string"
  | .timestamp _ => "timestamp"
  | .list _ => "list"
  | .map _ => "map"

mutual

/-- Equal variants with equal contents, where floating-point numbers compare as numbers. -/
def same : Value → Value → Bool
  | .null, .null => true
  | .bool a, .bool b => a == b
  | .int a, .int b => a == b
  | .float a, .float b => a.sameNumber b
  | .string a, .string b => a == b
  | .timestamp a, .timestamp b => a == b
  | .list as, .list bs => sameItems as bs
  | .map as, .map bs => sameFields as bs
  | _, _ => false

/-- Lists of one length with equal elements. -/
def sameItems : List Value → List Value → Bool
  | [], [] => true
  | a :: as, b :: bs => same a b && sameItems as bs
  | _, _ => false

/-- Maps with the same names and equal values. -/
def sameFields : List (String × Value) → List (String × Value) → Bool
  | [], [] => true
  | (m, a) :: as, (n, b) :: bs => m == n && same a b && sameFields as bs
  | _, _ => false

end

@[simp] theorem same_null_iff {v : Value} : null.same v = true ↔ v = .null := by
  cases v with
  | null => exact ⟨fun _ => rfl, fun _ => rfl⟩
  | _ => constructor <;> intro h <;> cases h

theorem sameItems_cons (a b : Value) (as bs : List Value) :
    sameItems (a :: as) (b :: bs) = (a.same b && sameItems as bs) :=
  rfl

theorem sameFields_cons (m n : String) (a b : Value) (as bs : List (String × Value)) :
    sameFields ((m, a) :: as) ((n, b) :: bs) = (m == n && a.same b && sameFields as bs) :=
  rfl

instance : BEq Value :=
  ⟨same⟩

/--
The order of two values.  Numbers compare numerically whatever their variant;
values of unrelated variants have no order.
-/
def compare? : Value → Value → Option Ordering
  | .null, .null => some .eq
  | .bool a, .bool b => some (compare a b)
  | .int a, .int b => some (compare a.toInt b.toInt)
  | .int a, .float b => (Binary64.ofInt a.toInt).compare? b
  | .float a, .int b => a.compare? (Binary64.ofInt b.toInt)
  | .float a, .float b => a.compare? b
  | .string a, .string b => some (compare a b)
  | .timestamp a, .timestamp b => some (compare a.toInt b.toInt)
  | _, _ => none

/-- Equality as conditions test it: `1` and `1.0` are the same number. -/
def looseEq (a b : Value) : Bool :=
  if a.isScalar && b.isScalar then a.compare? b == some .eq else a == b

end Value

namespace Record

/-- The value of an attribute, where an attribute that is null counts as absent. -/
def present? (r : Record) (name : String) : Option Value :=
  (r.get? name).filter fun value => !value.isNull

end Record

end KeyedQuery
