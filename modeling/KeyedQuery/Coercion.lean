import KeyedQuery.Calendar.Timestamp
import KeyedQuery.Binary64.Layout
import KeyedQuery.Schema.Basic
import KeyedQuery.Value.Message
import KeyedQuery.Where.Basic

/-!
# Coercion to declared types

A declared type has a representation: text, number, instant or truth value.
Operands of conditions are coerced strictly, so one that does not convert is a
fault; records are coerced leniently, so a value that does not convert stays as
it is.
-/

namespace KeyedQuery

namespace Value

/-- A value as text. -/
def toText? : Value → Option Value
  | .string s => some (.string s)
  | .int i => some (.string (Decimal.intText i.toInt))
  | .float x =>
      if x.isFinite then some (.string (String.ofList (Binary64.Layout.plain.write x))) else none
  | .bool b => some (.string (if b then "true" else "false"))
  | .timestamp ms => (Calendar.writeInstant ms.toInt).map .string
  | _ => none

/-- The number that a text stands for: an integer, or else a finite number. -/
def readNumber (text : List Char) : Option Value :=
  match Decimal.readInt64 text with
  | some i => some (.int i)
  | none => (Binary64.readFinite text).map .float

def toNumber? : Value → Option Value
  | .int i => some (.int i)
  | .float x => some (.float x)
  | .timestamp ms => some (.int ms)
  | .string s => readNumber (Text.trim s.toList)
  | _ => none

def toInstant? : Value → Option Value
  | .timestamp ms => some (.timestamp ms)
  | .int ms => some (.timestamp ms)
  | .float x => if x.isFinite then some (.timestamp x.clampToInt64) else none
  | .string s => (Calendar.readTimestamp (Text.trim s.toList)).map .timestamp
  | _ => none

/-- The truth value that a text stands for. -/
def readBool (text : List Char) : Option Bool :=
  match (String.ofList text).toLower with
  | "true" => some true
  | "1" => some true
  | "false" => some false
  | "0" => some false
  | _ => none

def toBool? : Value → Option Value
  | .bool b => some (.bool b)
  | .int i =>
      if i = 0 then some (.bool false)
      else if i = 1 then some (.bool true)
      else none
  | .string s => (readBool (Text.trim s.toList)).map .bool
  | _ => none

/-- A value in the representation of a declared type; null stays null for every type. -/
def coerce? (value : Value) (type : ScalarType) : Option Value :=
  if value.isNull then
    some .null
  else
    match type with
    | .string => value.toText?
    | .number => value.toNumber?
    | .date => value.toInstant?
    | .boolean => value.toBool?

end Value

/-- An operand that does not convert to the declared type of its attribute. -/
structure OperandFault where
  name : String
  value : Value
  type : ScalarType

def OperandFault.message (f : OperandFault) : String :=
  "value " ++ f.value.message ++ " for `" ++ f.name ++ "` is not a valid " ++ f.type.name

/-- An operand in the representation of a declared type. -/
def coerceOperand (name : String) (type : ScalarType) (value : Value) :
    Except OperandFault Value :=
  match value.coerce? type with
  | some converted => .ok converted
  | none => .error ⟨name, value, type⟩

namespace KeySchema

/-- An operand in the representation of its attribute, where the attribute is declared. -/
def coerceOperand (s : KeySchema) (name : String) (value : Value) : Except OperandFault Value :=
  match s.typeOf? name with
  | some type => KeyedQuery.coerceOperand name type value
  | none => .ok value

def coerceEntry (s : KeySchema) (entry : String × Value) :
    Except OperandFault (String × Value) := do
  let value ← s.coerceOperand entry.1 entry.2
  .ok (entry.1, value)

/-- An entry of a where clause with its operands coerced. -/
def coerceClause (s : KeySchema) (w : WhereClause) : Clause → Except OperandFault WhereClause
  | .on name condition => do
      let condition ← condition.mapOperands (s.coerceOperand name)
      .ok (w.set name condition)
  | .anyOf entries => do
      let entries ← entries.mapM s.coerceEntry
      .ok (w.addAnyOf entries)

/-- A where clause with every operand coerced, or the first operand that does not convert. -/
def coerceWhere (s : KeySchema) (w : WhereClause) : Except OperandFault WhereClause :=
  w.clauses.foldlM s.coerceClause .empty

/-- The value of an attribute in the representation of its declared type, if it converts. -/
def coerceValue (s : KeySchema) (name : String) (value : Value) : Value :=
  match s.typeOf? name with
  | some type => (value.coerce? type).getD value
  | none => value

/-- A record with every declared attribute coerced that converts. -/
def coerceRecord (s : KeySchema) (r : Record) : Record :=
  r.map s.coerceValue

end KeySchema

end KeyedQuery
