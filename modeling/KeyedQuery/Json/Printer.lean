import KeyedQuery.Json.Basic
import KeyedQuery.Binary64.Layout

/-!
# JSON text

Two layouts of a document: compact, without any space, and indented by two
spaces a level with one element a line.  Strings escape quotes, backslashes and
controls, and leave every other character as it is.
-/

namespace KeyedQuery

namespace Json

/-- A hexadecimal digit in lower case. -/
def hexDigit (n : Nat) : Char :=
  Nat.digitChar n

/-- The characters that stand for `c` inside a JSON string. -/
def escapeChar (c : Char) : List Char :=
  match c with
  | '"' => ['\\', '"']
  | '\\' => ['\\', '\\']
  | '\x08' => ['\\', 'b']
  | '\t' => ['\\', 't']
  | '\n' => ['\\', 'n']
  | '\x0c' => ['\\', 'f']
  | '\r' => ['\\', 'r']
  | c =>
      if c.toNat < 0x20 then
        ['\\', 'u', '0', '0', hexDigit (c.toNat / 16), hexDigit (c.toNat % 16)]
      else
        [c]

/-- A JSON string with its quotes. -/
def stringText (text : String) : String :=
  String.ofList ('"' :: text.toList.flatMap escapeChar ++ ['"'])

end Json

def JsonNumber.text : JsonNumber → String
  | .integer value _ => Decimal.intText value
  | .float value _ => String.ofList (Binary64.Layout.json.write value)

namespace Json

mutual

/-- The text of a document without spaces. -/
def compact : Json → String
  | .null => "null"
  | .bool true => "true"
  | .bool false => "false"
  | .number n => n.text
  | .string s => stringText s
  | .array items => "[" ++ ",".intercalate (compactItems items) ++ "]"
  | .object fields => "\x7b" ++ ",".intercalate (compactFields fields) ++ "\x7d"

def compactItems : List Json → List String
  | [] => []
  | item :: rest => item.compact :: compactItems rest

def compactFields : List (String × Json) → List String
  | [] => []
  | (name, value) :: rest => (stringText name ++ ":" ++ value.compact) :: compactFields rest

end

/-- The line break and indentation at a nesting level. -/
def newline (level : Nat) : String :=
  String.ofList ('\n' :: List.replicate (2 * level) ' ')

/-- A bracketed list of parts, one a line; brackets without parts stay together. -/
def block (opening closing : String) (level : Nat) (parts : List String) : String :=
  if parts.isEmpty then
    opening ++ closing
  else
    opening ++ newline (level + 1) ++ ("," ++ newline (level + 1)).intercalate parts ++
      newline level ++ closing

mutual

/-- The indented text of a document that stands at a nesting level. -/
def indentedAt (level : Nat) : Json → String
  | .array items => block "[" "]" level (indentedItems (level + 1) items)
  | .object fields => block "\x7b" "\x7d" level (indentedFields (level + 1) fields)
  | .null => "null"
  | .bool true => "true"
  | .bool false => "false"
  | .number n => n.text
  | .string s => stringText s

def indentedItems (level : Nat) : List Json → List String
  | [] => []
  | item :: rest => item.indentedAt level :: indentedItems level rest

def indentedFields (level : Nat) : List (String × Json) → List String
  | [] => []
  | (name, value) :: rest =>
      (stringText name ++ ": " ++ value.indentedAt level) :: indentedFields level rest

end

/-- The indented text of a document. -/
def indented (j : Json) : String :=
  j.indentedAt 0

end Json

end KeyedQuery
