import KeyedQuery.Value.Basic
import KeyedQuery.Binary64.Layout
import KeyedQuery.Text.Quoted

/-!
# Values inside messages

The text that a message shows for a value names its variant, so that the number
`1` and the text `1` cannot be confused.
-/

namespace KeyedQuery

namespace Value

mutual

/-- The text of a value in a message. -/
def message : Value → String
  | .null => "Null"
  | .bool b => "Bool(" ++ (if b then "true" else "false") ++ ")"
  | .int i => "Int(" ++ Decimal.intText i.toInt ++ ")"
  | .float x => "Float(" ++ x.messageText ++ ")"
  | .string s => "String(" ++ Text.quoted s ++ ")"
  | .timestamp ms => "Timestamp(" ++ Decimal.intText ms.toInt ++ ")"
  | .list items => "List([" ++ ", ".intercalate (messageItems items) ++ "])"
  | .map fields => "Map(\x7b" ++ ", ".intercalate (messageFields fields) ++ "\x7d)"

def messageItems : List Value → List String
  | [] => []
  | item :: rest => item.message :: messageItems rest

def messageFields : List (String × Value) → List String
  | [] => []
  | (name, value) :: rest => (Text.quoted name ++ ": " ++ value.message) :: messageFields rest

end

end Value

end KeyedQuery
