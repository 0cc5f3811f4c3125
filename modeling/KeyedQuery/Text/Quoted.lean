import KeyedQuery.Text.Glyph

/-!
# Quoted text for messages

A text between double quotes, as messages show it: quotes and backslashes are
escaped, the common controls have letters, and any other character without a
glyph of its own is shown by its number in braces.
-/

namespace KeyedQuery

namespace Text

/-- The characters that stand for `c` inside a quoted text. -/
def quoteChar (c : Char) : List Char :=
  match c with
  | '"' => ['\\', '"']
  | '\\' => ['\\', '\\']
  | '\n' => ['\\', 'n']
  | '\r' => ['\\', 'r']
  | '\t' => ['\\', 't']
  | '\x00' => ['\\', '0']
  | c =>
      if isSeen c then
        [c]
      else
        ['\\', 'u', '\x7b'] ++ Nat.toDigits 16 c.toNat ++ ['\x7d']

/-- The text between double quotes, with escapes. -/
def quoted (text : String) : String :=
  String.ofList ('"' :: text.toList.flatMap quoteChar ++ ['"'])

end Text

end KeyedQuery
