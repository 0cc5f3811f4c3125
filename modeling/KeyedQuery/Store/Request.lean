import KeyedQuery.Expression.Evaluation

/-!
# Requests to a store

A store answers one request with one page of records.  A page that is not the
last one carries a cursor, and the request for the next page hands it back.  A
store is any function from the requests it has seen to an answer, so nothing is
assumed of its cursors or of its progress.
-/

namespace KeyedQuery

/-- An opaque place in a table, as a store hands it out. -/
structure Cursor where
  bytes : List UInt8
deriving DecidableEq, Repr

namespace Cursor

/-- Two hexadecimal digits of a byte. -/
def byteDigits (byte : UInt8) : List Char :=
  [Nat.digitChar (byte.toNat / 16), Nat.digitChar (byte.toNat % 16)]

def text (c : Cursor) : String :=
  String.ofList (c.bytes.flatMap byteDigits)

end Cursor

/-- What a request reads. -/
inductive Access where
  /-- The records of a table or an index that satisfy a key condition. -/
  | keyed (index : Option String) (keyCondition : String)
  /-- Every record of a table. -/
  | scan
deriving DecidableEq, Repr

structure Request where
  table : String
  access : Access
  /-- A condition on the records that were read. -/
  filter : Option String
  bindings : Bindings
  /-- The cursor of the page before. -/
  cursor : Option Cursor

/-- Records, and a cursor if there may be more. -/
structure Page where
  records : List Record
  cursor : Option Cursor

/-- Why a store refuses a request. -/
inductive Rejection where
  | tableUnknown (table : String)
  | hashKeyMissing (hashKey : String)
  | indexUnknown (index table : String)
  | expression (error : ExpressionError)
  | cursorMalformed (cursor : Cursor)
  | keyWithoutName (placeholder : String)
  | keyTest (name : String) (op : Comparator)
  | keyRange (name : String)
  | keyShape (part : Expr)
  | keyWithoutHash (hashKey : String)
  /-- A cause that only the store knows. -/
  | other (message : String)

def Rejection.message : Rejection → String
  | .tableUnknown table => "table `" ++ table ++ "` not found"
  | .hashKeyMissing hashKey => "record is missing hash key `" ++ hashKey ++ "`"
  | .indexUnknown index table => "index `" ++ index ++ "` not found on `" ++ table ++ "`"
  | .expression error => error.message
  | .cursorMalformed cursor => "malformed cursor " ++ cursor.text
  | .keyWithoutName placeholder =>
      "key condition must name an attribute on the left, found `" ++ placeholder ++ "`"
  | .keyTest name op => "`" ++ name ++ " " ++ op.symbol ++ "` is not a valid key condition"
  | .keyRange name => "BETWEEN on `" ++ name ++ "` is not a valid key condition"
  | .keyShape part => "unsupported key condition " ++ part.message
  | .keyWithoutHash hashKey => "key condition must test `" ++ hashKey ++ "` for equality"
  | .other message => message

/-- Why a store has no answer. -/
inductive StoreError where
  | unavailable (message : String)
  | rejected (why : Rejection)
  | timeout
  | other (message : String)

def StoreError.message : StoreError → String
  | .unavailable message => "store unavailable: " ++ message
  | .rejected why => "request rejected: " ++ why.message
  | .timeout => "page fetch timed out"
  | .other message => message

/--
A store as its clients see it: the answer to a request, given the requests
before it, the latest first.
-/
abbrev Client := List Request → Request → Except StoreError Page

namespace Client

/-- The number of a request, counted from one, when `served` requests came before this client. -/
def callNumber (served : Nat) (earlier : List Request) : Nat :=
  served + earlier.length + 1

/-- A store that fails from call number `first` on. -/
def failingFrom (served first : Nat) (error : StoreError) (inner : Client) : Client :=
  fun earlier request =>
    if first ≤ callNumber served earlier then .error error else inner earlier request

/-- A store that gives prepared answers in turn, the last of them again and again. -/
def scripted (served : Nat) (answer : Except StoreError Page)
    (more : List (Except StoreError Page)) : Client :=
  fun earlier _ =>
    ((answer :: more)[callNumber served earlier - 1]?).getD (more.getLast?.getD answer)

end Client

end KeyedQuery
