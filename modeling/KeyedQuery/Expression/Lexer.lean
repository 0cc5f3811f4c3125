import KeyedQuery.Expression.Syntax
import KeyedQuery.Text.Blank

/-!
# Tokens of expression text

White space separates tokens and is skipped.  A token is as long as possible:
words are maximal runs of word characters, and `<=`, `<>` and `>=` are one token
each.  The five keywords may be in any letter case.
-/

namespace KeyedQuery

/-- A character of names, aliases and placeholders: an ASCII letter, a digit or `_`. -/
def isWordChar (c : Char) : Bool :=
  c.isAlphanum || c == '_'

namespace Token

/-- The token of a word that starts with neither `#` nor `:`. -/
def ofWord (word : String) : Token :=
  match word.toUpper with
  | "AND" => .and
  | "OR" => .or
  | "NOT" => .not
  | "BETWEEN" => .between
  | "IN" => .isIn
  | _ => .operand (.path word)

/-- The word characters at the front of a text, and the text after them. -/
def spanWord (text : List Char) : List Char × List Char :=
  (text.takeWhile isWordChar, text.dropWhile isWordChar)

/-- A marked name: a mark and the word characters after it, of which there must be one. -/
def readMarked (mark : Char) (named : String → Operand) (text : List Char) :
    Option (Token × List Char) :=
  let (word, rest) := spanWord text
  if word.isEmpty then none else some (.operand (named (String.ofList (mark :: word))), rest)

/-- The token that starts with a character, and the text after it. -/
def read (c : Char) (text : List Char) : Option (Token × List Char) :=
  match c, text with
  | '(', _ => some (.lparen, text)
  | ')', _ => some (.rparen, text)
  | ',', _ => some (.comma, text)
  | '=', _ => some (.cmp .eq, text)
  | '<', '=' :: rest => some (.cmp (.order .le), rest)
  | '<', '>' :: rest => some (.cmp .ne, rest)
  | '<', _ => some (.cmp (.order .lt), text)
  | '>', '=' :: rest => some (.cmp (.order .ge), rest)
  | '>', _ => some (.cmp (.order .gt), text)
  | '#', _ => readMarked '#' .path text
  | ':', _ => readMarked ':' .value text
  | _, _ =>
      if isWordChar c then
        let (word, rest) := spanWord text
        some (ofWord (String.ofList (c :: word)), rest)
      else
        none

/--
The tokens of a text, given as many steps as it has characters.  The fault is
what remains of the text from the first character that starts no token.
-/
def readAll : Nat → List Char → Except (List Char) (List Token)
  | _, [] => .ok []
  | 0, text => .error text
  | steps + 1, c :: rest =>
      if Text.isBlank c then
        readAll steps rest
      else
        match read c rest with
        | none => .error (c :: rest)
        | some (token, rest) => do
            let tokens ← readAll steps rest
            .ok (token :: tokens)

-- Sums of numbers start from the zero of numerals, whatever other zeros are in scope.
attribute [local instance (20000)] Zero.ofOfNat0

/-- The number of bytes of a text. -/
def byteLength (text : List Char) : Nat :=
  (text.map Char.utf8Size).sum

/-- The tokens of an expression text. -/
def lex (text : String) : Except ExpressionError (List Token) :=
  let chars := text.toList
  match readAll chars.length chars with
  | .ok tokens => .ok tokens
  | .error [] => .ok []
  | .error (c :: rest) =>
      .error (.unexpectedChar c (byteLength chars - byteLength (c :: rest)))

end Token

end KeyedQuery
