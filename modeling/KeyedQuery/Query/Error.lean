import KeyedQuery.Json.Printer

/-!
# Faults of a written query

Why a JSON document is not a query.  Each constructor is one cause; `kind`
gathers the causes by the part of the query that is at fault, and `message` is
the only place where their wording stands.
-/

namespace KeyedQuery

/-- The part of a query that is at fault. -/
inductive QueryError.Kind where
  | filter
  | operator
  | combinator
  | pagination
  | order
deriving DecidableEq, Repr

/-- A cause for which a document is not a query, a where clause, an order or a record. -/
inductive QueryError where
  | queryNotObject (found : Json)
  | whereNotObject (found : Json)
  | recordNotObject (found : Json)
  | groupNotList
  | groupEmpty
  | groupEntry (found : Json)
  | operandNotScalar (name : String) (found : Json)
  | listEmpty (name : String)
  | operatorCount (name : String)
  | rangeNotList (name : String)
  | rangeLength (name : String) (length : Nat)
  | membershipNotList (name : String)
  | unknownOperator (operator : String)
  | unsupportedCombinator (combinator : String)
  | count (key : String) (found : Json)
  | orderEmpty
  | orderDirection (direction spec : String)
  | orderMalformed (spec : String)
  | orderEntry (found : Json)
  | orderShape (found : Json)

namespace QueryError

/-- The part of the query that a cause concerns. -/
def kind : QueryError → Kind
  | .unknownOperator _ => .operator
  | .unsupportedCombinator _ => .combinator
  | .count _ _ => .pagination
  | .orderEmpty => .order
  | .orderDirection _ _ => .order
  | .orderMalformed _ => .order
  | .orderEntry _ => .order
  | .orderShape _ => .order
  | _ => .filter

/-- What a cause says, without the name of its kind. -/
def detail : QueryError → String
  | .queryNotObject found => "filter must be an object, got " ++ found.compact
  | .whereNotObject found => "where must be an object, got " ++ found.compact
  | .recordNotObject found => "expected a JSON object for a record, got " ++ found.compact
  | .groupNotList => "or expects a list of conditions"
  | .groupEmpty => "or requires at least one condition"
  | .groupEntry found => "or entries must have exactly one attribute, got " ++ found.compact
  | .operandNotScalar name found =>
      "operand for `" ++ name ++ "` must be a scalar, got " ++ found.compact
  | .listEmpty name => "list for `" ++ name ++ "` must not be empty"
  | .operatorCount name => "condition on `" ++ name ++ "` must have exactly one operator"
  | .rangeNotList name => "between on `" ++ name ++ "` expects a two-element list"
  | .rangeLength name length =>
      "between on `" ++ name ++ "` expects two elements, got " ++ Decimal.intText length
  | .membershipNotList name => "inq on `" ++ name ++ "` expects a list"
  | .unknownOperator operator => "`" ++ operator ++ "`"
  | .unsupportedCombinator combinator => "`" ++ combinator ++ "`"
  | .count key found => key ++ " must be a non-negative integer, got " ++ found.compact
  | .orderEmpty => "empty order field"
  | .orderDirection direction spec =>
      "unknown direction `" ++ direction ++ "` in `" ++ spec ++ "`"
  | .orderMalformed spec => "malformed order `" ++ spec ++ "`"
  | .orderEntry found => "order entries must be strings, got " ++ found.compact
  | .orderShape found => "order must be a string or a list, got " ++ found.compact

def message (e : QueryError) : String :=
  match e.kind with
  | .filter => "invalid filter: " ++ e.detail
  | .operator => "unknown operator " ++ e.detail
  | .combinator => "unsupported combinator " ++ e.detail
  | .pagination => "invalid pagination: " ++ e.detail
  | .order => "invalid order: " ++ e.detail

end QueryError

end KeyedQuery
