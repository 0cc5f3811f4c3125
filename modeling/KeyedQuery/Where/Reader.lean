import KeyedQuery.Query.Error
import KeyedQuery.Value.Document
import KeyedQuery.Where.Basic

/-!
# Reading where clauses

A where clause is written as an object.  A key is an attribute, whose condition
is a scalar (equality), a list (membership) or an object with one operator; the
key `or` introduces a group.  Entries keep the order of the document, and the
first fault in that order is the one reported.
-/

namespace KeyedQuery

/-- Equality of keywords, in any letter case. -/
def isKeyword (word text : String) : Bool :=
  text.toLower == word

namespace Condition

/-- An operand, which must be a scalar. -/
def readOperand (name : String) (j : Json) : Except QueryError Value :=
  if j.isScalar then .ok (Value.ofJson j) else .error (.operandNotScalar name j)

/-- A list of operands, which must not be empty. -/
def readOperands (name : String) (items : List Json) : Except QueryError (List Value) :=
  if items.isEmpty then .error (.listEmpty name) else items.mapM (readOperand name)

/-- The ends of a range: a list of exactly two operands. -/
def readRange (name : String) : Json → Except QueryError Condition
  | .array items => do
      match ← readOperands name items with
      | [low, high] => .ok (.between low high)
      | values => .error (.rangeLength name values.length)
  | _ => .error (.rangeNotList name)

/-- The condition of an operator and its operand. -/
def readOperator (name operator : String) (operand : Json) : Except QueryError Condition :=
  if isKeyword "=" operator then do
    let value ← readOperand name operand
    .ok (.equals value)
  else if isKeyword "lt" operator then do
    let value ← readOperand name operand
    .ok (.compare .lt value)
  else if isKeyword "lte" operator then do
    let value ← readOperand name operand
    .ok (.compare .le value)
  else if isKeyword "gt" operator then do
    let value ← readOperand name operand
    .ok (.compare .gt value)
  else if isKeyword "gte" operator then do
    let value ← readOperand name operand
    .ok (.compare .ge value)
  else if isKeyword "between" operator then
    readRange name operand
  else if isKeyword "inq" operator then
    match operand with
    | .array items => do
        let values ← readOperands name items
        .ok (.isIn values)
    | _ => .error (.membershipNotList name)
  else
    .error (.unknownOperator operator)

/-- The condition that a document puts on an attribute. -/
def read (name : String) : Json → Except QueryError Condition
  | .array items => do
      let values ← readOperands name items
      .ok (.isIn values)
  | .object [(operator, operand)] => readOperator name operator operand
  | .object _ => .error (.operatorCount name)
  | scalar => .ok (.equals (Value.ofJson scalar))

end Condition

namespace WhereClause

/-- One equality of a group: an object with exactly one attribute. -/
def readGroupEntry : Json → Except QueryError (String × Value)
  | .object [(name, operand)] => do
      let value ← Condition.readOperand name operand
      .ok (name, value)
  | other => .error (.groupEntry other)

/-- A group of equalities: a list that is not empty. -/
def readGroup : Json → Except QueryError (List (String × Value))
  | .array items =>
      if items.isEmpty then .error .groupEmpty else items.mapM readGroupEntry
  | _ => .error .groupNotList

/-- Add the entry of one field of the document. -/
def readField (w : WhereClause) (field : String × Json) : Except QueryError WhereClause :=
  if isKeyword "or" field.1 then do
    let entries ← readGroup field.2
    .ok (w.addAnyOf entries)
  else if isKeyword "and" field.1 then
    .error (.unsupportedCombinator field.1)
  else do
    let condition ← Condition.read field.1 field.2
    .ok (w.set field.1 condition)

/-- The where clause of a document; `null` is the empty clause. -/
def read : Json → Except QueryError WhereClause
  | .null => .ok .empty
  | .object fields => fields.foldlM readField .empty
  | other => .error (.whereNotObject other)

end WhereClause

end KeyedQuery
