import KeyedQuery.Value.Basic
import KeyedQuery.Json.Basic

/-!
# Values and records as JSON documents

An integer that fits 64 signed bits is an integer value and every other number a
floating-point value.  Instants are written as their milliseconds, so they come
back as integers; a number that JSON cannot hold is written as `null`.
-/

namespace KeyedQuery

/-- The value of a JSON number. -/
def JsonNumber.toValue : JsonNumber → Value
  | .integer value _ =>
      match Decimal.toInt64? value with
      | some i => .int i
      | none => .float (.ofInt value)
  | .float value _ => .float value

namespace Value

mutual

/-- The value of a document. -/
def ofJson : Json → Value
  | .null => .null
  | .bool b => .bool b
  | .number n => n.toValue
  | .string s => .string s
  | .array items => .list (ofJsonItems items)
  | .object fields => ofFields (ofJsonFields fields)

def ofJsonItems : List Json → List Value
  | [] => []
  | item :: rest => ofJson item :: ofJsonItems rest

def ofJsonFields : List (String × Json) → List (String × Value)
  | [] => []
  | (name, value) :: rest => (name, ofJson value) :: ofJsonFields rest

end

mutual

/-- The document of a value. -/
def toJson : Value → Json
  | .null => .null
  | .bool b => .bool b
  | .int i => .int64 i
  | .float x => .ofBinary64 x
  | .string s => .string s
  | .timestamp ms => .int64 ms
  | .list items => .array (toJsonItems items)
  | .map fields => .object (toJsonFields fields)

def toJsonItems : List Value → List Json
  | [] => []
  | item :: rest => item.toJson :: toJsonItems rest

def toJsonFields : List (String × Value) → List (String × Json)
  | [] => []
  | (name, value) :: rest => (name, value.toJson) :: toJsonFields rest

end

end Value

namespace Record

def ofJson? : Json → Option Record
  | .object fields => some (Dict.ofList (Value.ofJsonFields fields))
  | _ => none

/-- The object of a record, its fields in name order. -/
def toJson (r : Record) : Json :=
  .object (Value.toJsonFields r.entries)

end Record

end KeyedQuery
