import KeyedQuery.Classification
import KeyedQuery.Coercion
import KeyedQuery.Expression.Fragment
import KeyedQuery.Schema.Registry

/-!
# Read plans

A plan says how the records of a where clause are read: by key when the clause
fixes the hash attribute, and by a scan otherwise.  A read by key has the hash
equality and at most one narrowing condition as its key condition; every other
entry of the clause becomes a filter, in the order of the clause.
-/

namespace KeyedQuery

/-- Why a where clause cannot be planned. -/
inductive PlanError where
  | schema (fault : SchemaFault)
  | operand (fault : OperandFault)
  | translation (fault : TranslationFault)

/-- How the records of a where clause are read. -/
structure Plan where
  model : String
  table : String
  classification : Classification
  /-- The hash equality, then the narrowing condition; none in a scan. -/
  keyConditions : List Fragment
  /-- Every other condition, in the order of the clause. -/
  filters : List Fragment
  bindings : Bindings

namespace Plan

def mode (p : Plan) : ReadMode :=
  p.classification.mode

/-- The index to read; none stands for the table itself. -/
def index (p : Plan) : Option String :=
  p.classification.targetIndex

/-- The text of the key condition; a scan has none. -/
def keyCondition (p : Plan) : Option String :=
  Fragment.conjunction p.keyConditions

/-- The text of the filter, if there is anything to filter by. -/
def filter (p : Plan) : Option String :=
  Fragment.conjunction p.filters

def describe (p : Plan) : String :=
  let operation :=
    match p.mode with
    | .lookup => "QUERY"
    | .scan => "SCAN"
  "GET ITEMS FROM TABLE " ++ p.table ++ " WITH " ++ operation ++ " OPERATION"

end Plan

namespace KeySchema

/-- The attributes whose conditions form the key condition. -/
def keyAttributes (s : KeySchema) (c : Classification) : List String :=
  match c.mode with
  | .lookup => s.hashKey :: (c.sortMatch.map SortMatch.name).toList
  | .scan => []

end KeySchema

namespace Bindings

/-- Translate the conditions of some attributes as key conditions. -/
def translateKeys (b : Bindings) (w : WhereClause) :
    List String → Except TranslationFault (List Fragment × Bindings)
  | [] => .ok ([], b)
  | name :: rest =>
      match w.get? name with
      | none => b.translateKeys w rest
      | some condition =>
          match b.translate .key name condition with
          | (.error fault, _) => .error fault
          | (.ok fragment, b) => do
              let (fragments, b) ← b.translateKeys w rest
              .ok (fragment :: fragments, b)

/-- Translate entries of a where clause as filters. -/
def translateFilters (b : Bindings) :
    List Clause → Except TranslationFault (List Fragment × Bindings)
  | [] => .ok ([], b)
  | clause :: rest =>
      match b.translateClause clause with
      | (.error fault, _) => .error fault
      | (.ok fragment, b) => do
          let (fragments, b) ← b.translateFilters rest
          .ok (fragment :: fragments, b)

end Bindings

namespace Clause

/-- Whether the entry is a condition on one of some attributes. -/
def isOnOneOf (names : List String) (c : Clause) : Bool :=
  match c with
  | .on name _ => names.contains name
  | .anyOf _ => false

end Clause

namespace Model

/-- Translate a coerced where clause: the key attributes first, then all other entries. -/
def translate (m : Model) (w : WhereClause) : Except TranslationFault Plan := do
  let classification := m.schema.classify w
  let keyAttributes := m.schema.keyAttributes classification
  let (keyConditions, b) ← Bindings.empty.translateKeys w keyAttributes
  let others := w.clauses.filter fun clause => !clause.isOnOneOf keyAttributes
  let (filters, b) ← b.translateFilters others
  .ok {
    model := m.name
    table := m.tableName
    classification := classification
    keyConditions := keyConditions
    filters := filters
    bindings := b }

def plan (m : Model) (w : WhereClause) : Except PlanError Plan :=
  match m.schema.hashType with
  | .error fault => .error (.schema fault)
  | .ok _ =>
      match m.schema.coerceWhere w with
      | .error fault => .error (.operand fault)
      | .ok w =>
          match m.translate w with
          | .error fault => .error (.translation fault)
          | .ok plan => .ok plan

end Model

end KeyedQuery
