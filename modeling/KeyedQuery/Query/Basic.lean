import KeyedQuery.Order
import KeyedQuery.Where.Reader

/-!
# Queries

A query says which records are wanted, in which order, and which window of them.
It is written as an object with the keys `where`, `order`, `offset` or `skip`,
`limit` and `include`; other keys are ignored.
-/

namespace KeyedQuery

structure Query where
  /-- The conditions that a record must satisfy. -/
  conditions : WhereClause
  /-- The wanted order; none stands for the order of the keys. -/
  order : List OrderSpec
  /-- How many records to leave out at the front. -/
  offset : Option Nat
  /-- How many records to return at most. -/
  limit : Option Nat
  /-- A document that is handed back with the answer as it is. -/
  included : Option Json

namespace Query

def all : Query :=
  ⟨.empty, [], none, none, none⟩

instance : Inhabited Query :=
  ⟨all⟩

/-- The whole number that a JSON number stands for, if counts can hold it. -/
def countOf? : JsonNumber → Option Nat
  | .integer value _ => if 0 ≤ value then some value.toNat else none
  | .float x _ =>
      if x.isWhole && (!x.negative || x.magnitude == 0) && x.floorMagnitude ≤ 2 ^ 64 then
        some (min x.floorMagnitude (2 ^ 64 - 1))
      else
        none

/-- A count under a key, where an absent key and `null` are alike. -/
def readCount (key : String) (j : Json) : Except QueryError (Option Nat) :=
  match j with
  | .null => .ok none
  | .number n =>
      match countOf? n with
      | some count => .ok (some count)
      | none => .error (.count key j)
  | _ => .error (.count key j)

/-- The number of records to leave out: `offset`, or else `skip`. -/
def readOffset (j : Json) : Except QueryError (Option Nat) := do
  match ← readCount "offset" (j.field "offset") with
  | some offset => .ok (some offset)
  | none => readCount "skip" (j.field "skip")

/-- The query of a document; `null` is the query for every record. -/
def read (j : Json) : Except QueryError Query :=
  match j with
  | .null => .ok all
  | .object _ => do
      let conditions ← WhereClause.read (j.field "where")
      let order ← OrderSpec.readList (j.field "order")
      let offset ← readOffset j
      let limit ← readCount "limit" (j.field "limit")
      let included := j.field "include"
      .ok ⟨conditions, order, offset, limit, if included.isNull then none else some included⟩
  | other => .error (.queryNotObject other)

end Query

/-- The record of a document, which must be an object. -/
def Record.read (j : Json) : Except QueryError Record :=
  match Record.ofJson? j with
  | some r => .ok r
  | none => .error (.recordNotObject j)

end KeyedQuery
