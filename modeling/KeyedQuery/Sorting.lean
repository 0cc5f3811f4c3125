import KeyedQuery.Coercion
import KeyedQuery.Order

/-!
# Sorting and windows

Records are sorted by the fields of an order, each compared as its declared
type.  The sort is stable: it inserts each record behind the records it does not
precede.  A window leaves records out at the front and bounds their number.
-/

namespace KeyedQuery

/-- Insert behind the last element that `x` does not precede; the list runs backwards. -/
def insertBackwards {α : Type} (before : α → α → Bool) (x : α) : List α → List α
  | [] => [x]
  | last :: rest =>
      if before x last then last :: insertBackwards before x rest else x :: last :: rest

/-- Stable sort by insertion. -/
def stableSort {α : Type} (before : α → α → Bool) (xs : List α) : List α :=
  (xs.foldl (fun sorted x => insertBackwards before x sorted) []).reverse

namespace Value

/-- The place of a variant among the variants, for values that have no order. -/
def variantRank : Value → Nat
  | .null => 0
  | .bool _ => 1
  | .int _ => 2
  | .float _ => 2
  | .string _ => 3
  | .timestamp _ => 4
  | .list _ => 5
  | .map _ => 6

end Value

/-- The order of two sort keys, where an absent one comes first. -/
def compareKeys : Option Value → Option Value → Ordering
  | none, none => .eq
  | none, some _ => .lt
  | some _, none => .gt
  | some a, some b =>
      match a.compare? b with
      | some o => o
      | none => compare a.variantRank b.variantRank

namespace Direction

/-- An ascending order as this direction sees it. -/
def orient : Direction → Ordering → Ordering
  | .asc, o => o
  | .desc, o => o.swap

end Direction

namespace KeySchema

/-- The key by which a field sorts a record: its value as the declared type, if it converts. -/
def sortKeyOf (s : KeySchema) (field : String) (r : Record) : Option Value :=
  (r.present? field).map (s.coerceValue field)

/-- The order of two records by a list of fields, the first difference deciding. -/
def compareRecords (s : KeySchema) : List OrderSpec → Record → Record → Ordering
  | [], _, _ => .eq
  | spec :: rest, a, b =>
      match spec.direction.orient
          (compareKeys (s.sortKeyOf spec.field a) (s.sortKeyOf spec.field b)) with
      | .eq => s.compareRecords rest a b
      | o => o

/-- Records in an order; equal ones keep their places. -/
def sortRecords (s : KeySchema) (order : List OrderSpec) (records : List Record) :
    List Record :=
  stableSort (fun a b => s.compareRecords order a b == .lt) records

/-- The order of a query: its own, or else ascending by the default order key. -/
def effectiveOrder (s : KeySchema) (order : List OrderSpec) : List OrderSpec :=
  if order.isEmpty then [⟨s.defaultOrderKey, .asc⟩] else order

end KeySchema

/-- The records after the first `offset`, and at most `limit` of them. -/
def window {α : Type} (offset limit : Option Nat) (records : List α) : List α :=
  let rest := records.drop (offset.getD 0)
  match limit with
  | some limit => rest.take limit
  | none => rest

end KeyedQuery
