import KeyedQuery.Plan
import KeyedQuery.Query.Basic
import KeyedQuery.Store.Request

/-!
# Why a read fails

Each constructor is one cause; `kind` says who is at fault, and `message` is the
wording.  Finding no record is no failure.
-/

namespace KeyedQuery

/-- Who is at fault for a failed read. -/
inductive ReadError.Kind where
  | argument
  | configuration
  | store
  | timeout
  | deadline
  | cancelled
  | protocol
deriving DecidableEq, Repr

/-- A cause for which a read has no result. -/
inductive ReadError where
  | query (error : QueryError)
  | plan (error : PlanError)
  | catalog (error : CatalogError)
  | keyEmpty
  | store (error : StoreError)
  /-- The store timed out after this many pages. -/
  | timeout (pages : Nat)
  | deadlineExceeded (pages : Nat)
  | cancelled (pages : Nat)
  | cursorRepeated (cursor : Cursor) (table : String)
  | tooManyPages (table : String) (limit : Nat)

/-- Who is at fault for a plan that failed. -/
def PlanError.kind : PlanError → ReadError.Kind
  | .schema _ => .configuration
  | .operand _ => .argument
  | .translation _ => .argument

/-- What a failed plan says. -/
def PlanError.detail : PlanError → String
  | .schema fault => fault.message
  | .operand fault => fault.message
  | .translation fault => fault.message

namespace ReadError

def kind : ReadError → Kind
  | .query _ => .argument
  | .plan e => e.kind
  | .catalog _ => .configuration
  | .keyEmpty => .argument
  | .store _ => .store
  | .timeout _ => .timeout
  | .deadlineExceeded _ => .deadline
  | .cancelled _ => .cancelled
  | .cursorRepeated _ _ => .protocol
  | .tooManyPages _ _ => .protocol

/-- The words in front of a cause that concerns an argument or the configuration. -/
def Kind.opening : Kind → String
  | .argument => "invalid argument: "
  | .configuration => "configuration error: "
  | .store => "store error: "
  | .protocol => "protocol error: "
  | _ => ""

/-- What a cause says, without its opening. -/
def detail : ReadError → String
  | .query e => e.message
  | .plan e => e.detail
  | .catalog e => e.message
  | .keyEmpty => "exists requires at least one key attribute"
  | .store e => e.message
  | .timeout pages => "store read timed out after " ++ Decimal.intText pages ++ " page(s)"
  | .deadlineExceeded pages =>
      "read deadline exceeded after " ++ Decimal.intText pages ++ " page(s)"
  | .cancelled pages => "read cancelled after " ++ Decimal.intText pages ++ " page(s)"
  | .cursorRepeated cursor table =>
      "store returned cursor " ++ cursor.text ++ " twice while reading `" ++ table ++ "`"
  | .tooManyPages table limit =>
      "read of `" ++ table ++ "` exceeded " ++ Decimal.intText limit ++ " pages"

def message (e : ReadError) : String :=
  e.kind.opening ++ e.detail

end ReadError

end KeyedQuery
