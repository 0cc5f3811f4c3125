import KeyedQuery.Binary64.Basic

/-!
# JSON documents

A number is an integer of the range that 64 bits hold, signed or unsigned, or a
finite floating-point number; `2` and `2.0` are different documents.  The fields
of an object keep the order in which they were written.
-/

namespace KeyedQuery

inductive JsonNumber where
  /-- An integer that fits 64 bits, signed or unsigned. -/
  | integer (value : Int) (bounds : -2 ^ 63 ≤ value ∧ value < 2 ^ 64)
  /-- A number written with a point or an exponent, or an integer too large for 64 bits. -/
  | float (value : Binary64) (finite : value.isFinite = true)
deriving DecidableEq

namespace JsonNumber

/-- The document of a signed 64-bit integer. -/
def ofInt64 (i : Int64) : JsonNumber :=
  .integer i.toInt (by have := Int64.le_toInt i; have := Int64.toInt_lt i; omega)

end JsonNumber

inductive Json where
  | null
  | bool (value : Bool)
  | number (value : JsonNumber)
  | string (value : String)
  | array (items : List Json)
  | object (fields : List (String × Json))

namespace Json

instance : Inhabited Json :=
  ⟨null⟩

/-- The document of a signed 64-bit integer. -/
def int64 (i : Int64) : Json :=
  .number (.ofInt64 i)

/-- The document of a finite number; there is none for the others, which become `null`. -/
def ofBinary64 (x : Binary64) : Json :=
  if h : x.isFinite = true then .number (.float x h) else .null

/-- The document of a count, which is `null` beyond 64 bits. -/
def ofNat (n : Nat) : Json :=
  if h : n < 2 ^ 64 then .number (.integer n (by omega)) else .null

/-- Neither a list nor an object. -/
def isScalar : Json → Bool
  | .array _ => false
  | .object _ => false
  | _ => true

def isNull : Json → Bool
  | .null => true
  | _ => false

/-- The value of a field, where the document is an object that has it. -/
def field? (j : Json) (name : String) : Option Json :=
  match j with
  | .object fields => fields.lookup name
  | _ => none

/-- The value of a field, where an absent field and a field that is `null` are alike. -/
def field (j : Json) (name : String) : Json :=
  (j.field? name).getD .null

end Json

end KeyedQuery
