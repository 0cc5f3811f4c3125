import KeyedQuery.Read.Executor
import KeyedQuery.Value.Document

/-!
# Explaining queries

An explanation shows the plan of a query without asking the store: the texts
that would be sent, what their aliases and placeholders stand for, the role of
each attribute, and the order and window that would be applied.
-/

namespace KeyedQuery

/-- What is shown of a query. -/
structure Explanation where
  plan : Plan
  order : List OrderSpec
  offset : Option Nat
  limit : Option Nat

namespace Registry

def explain (r : Registry) (name : String) (q : Query) : Except ReadError Explanation := do
  let m ← (r.get name).mapError ReadError.catalog
  let p ← (m.plan q.conditions).mapError ReadError.plan
  .ok ⟨p, m.schema.effectiveOrder q.order, q.offset, q.limit⟩

end Registry

namespace Explanation

/-- An optional line of a report. -/
def line? (heading : String) (text : Option String) : List String :=
  text.toList.map fun text => heading ++ text

/-- A text of the plan with attribute names in place of aliases. -/
def resolved (e : Explanation) (text : Option String) : Option String :=
  text.map (resolveNames e.plan.bindings.names)

/-- The window, if there is one. -/
def windowText (e : Explanation) : Option String :=
  let parts :=
    line? "OFFSET " (e.offset.map fun n => Decimal.intText n) ++
      line? "LIMIT " (e.limit.map fun n => Decimal.intText n)
  if parts.isEmpty then none else some (", ".intercalate parts)

/-- The report, one fact a line. -/
def report (e : Explanation) : String :=
  "\n".intercalate <|
    [e.plan.describe] ++
      line? "Index: " e.plan.index ++
      line? "Key Condition: " (e.resolved e.plan.keyCondition) ++
      line? "Filter: " (e.resolved e.plan.filter) ++
      ["Order By: " ++ ", ".intercalate (e.order.map OrderSpec.text)] ++
      line? "Pagination: " e.windowText

/-- A field of a document that is left out where there is no value. -/
def field? (name : String) (value : Option Json) : List (String × Json) :=
  value.toList.map fun value => (name, value)

def toJson (e : Explanation) : Json :=
  let p := e.plan
  .object <|
    [("model", .string p.model), ("table", .string p.table),
      ("mode", .string p.mode.name)] ++
    field? "index" (p.index.map .string) ++
    field? "key_condition" (p.keyCondition.map .string) ++
    field? "filter" (p.filter.map .string) ++
    [("names", .object (p.bindings.names.entries.map fun entry =>
        (entry.1, .string entry.2))),
      ("values", Record.toJson p.bindings.values),
      ("roles", .array (p.classification.roles.map fun role =>
        .array [.string role.1, .string role.2.label])),
      ("order", .array (e.order.map fun spec => .string spec.text))] ++
    field? "offset" (e.offset.map Json.ofNat) ++
    field? "limit" (e.limit.map Json.ofNat) ++
    [("explanation", .string e.report)]

end Explanation

end KeyedQuery
