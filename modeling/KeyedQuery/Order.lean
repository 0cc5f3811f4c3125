import KeyedQuery.Query.Error
import KeyedQuery.Text.Blank

/-!
# Orders

An order is a list of fields with directions.  It is written as a text with
commas or as a list of texts; each text is a field and, after white space, a
direction in any letter case.
-/

namespace KeyedQuery

/-- The direction in which records are sorted by a field. -/
inductive Direction where
  | asc
  | desc
deriving DecidableEq, Repr

def Direction.label : Direction → String
  | .asc => "ASC"
  | .desc => "DESC"

/-- A field to sort by, and a direction. -/
structure OrderSpec where
  field : String
  direction : Direction
deriving DecidableEq, Repr

namespace OrderSpec

def text (spec : OrderSpec) : String :=
  spec.field ++ " " ++ spec.direction.label

/-- The direction that a word names. -/
def direction? (word : List Char) : Option Direction :=
  match (String.ofList word).toLower with
  | "asc" => some .asc
  | "desc" => some .desc
  | _ => none

/-- A field, or a field and a direction.  A bad direction is reported before a third word. -/
def read (spec : String) : Except QueryError OrderSpec :=
  match Text.words spec.toList with
  | [] => .error .orderEmpty
  | [field] => .ok ⟨String.ofList field, .asc⟩
  | field :: word :: more =>
      match direction? word with
      | none => .error (.orderDirection (String.ofList word) spec)
      | some direction =>
          if more.isEmpty then
            .ok ⟨String.ofList field, direction⟩
          else
            .error (.orderMalformed spec)

def readEntry : Json → Except QueryError OrderSpec
  | .string spec => read spec
  | other => .error (.orderEntry other)

/-- The pieces of a text between its commas. -/
def commaPieces (text : String) : List String :=
  (Text.pieces (fun c => c == ',') text.toList).map String.ofList

/-- The order that a document gives; `null` gives none. -/
def readList : Json → Except QueryError (List OrderSpec)
  | .null => .ok []
  | .string text => (commaPieces text).mapM read
  | .array items => items.mapM readEntry
  | other => .error (.orderShape other)

end OrderSpec

end KeyedQuery
