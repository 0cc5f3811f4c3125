import KeyedQuery.Json.Basic
import KeyedQuery.Binary64.Rounding

/-!
# Reading JSON text

A reader takes the value at the front of a text and returns what follows it.
Nesting is bounded, so the reader of values recurses on the number of levels
that may still be opened.
-/

namespace KeyedQuery

namespace Json

/-- What a reader returns: a value and the text after it, or nothing. -/
abbrev Reader (α : Type) := List Char → Option (α × List Char)

/-- The levels of lists and objects that a document may have. -/
def maxDepth : Nat :=
  127

/-- The four characters that may stand between tokens. -/
def isSpace (c : Char) : Bool :=
  c == ' ' || c == '\t' || c == '\n' || c == '\r'

/-- The text without leading space. -/
def skipSpace (text : List Char) : List Char :=
  text.dropWhile isSpace

/-- The value of a hexadecimal digit of either case. -/
def hexValue? (c : Char) : Option Nat :=
  if '0' ≤ c ∧ c ≤ '9' then some (c.toNat - '0'.toNat)
  else if 'a' ≤ c ∧ c ≤ 'f' then some (c.toNat - 'a'.toNat + 10)
  else if 'A' ≤ c ∧ c ≤ 'F' then some (c.toNat - 'A'.toNat + 10)
  else none

/-- The value of four hexadecimal digits. -/
def hexUnit? (a b c d : Char) : Option Nat := do
  let a ← hexValue? a
  let b ← hexValue? b
  let c ← hexValue? c
  let d ← hexValue? d
  some (4096 * a + 256 * b + 16 * c + d)

/-- The character of an escape letter. -/
def unescape? (c : Char) : Option Char :=
  match c with
  | '"' => some '"'
  | '\\' => some '\\'
  | '/' => some '/'
  | 'b' => some '\x08'
  | 'f' => some '\x0c'
  | 'n' => some '\n'
  | 'r' => some '\r'
  | 't' => some '\t'
  | _ => none

/-- The first unit of a surrogate pair. -/
def isHighSurrogate (unit : Nat) : Bool :=
  0xD800 ≤ unit && unit ≤ 0xDBFF

/-- The second unit of a surrogate pair. -/
def isLowSurrogate (unit : Nat) : Bool :=
  0xDC00 ≤ unit && unit ≤ 0xDFFF

/-- One escape after its backslash; surrogates must come in pairs. -/
def readEscape : Reader Char
  | 'u' :: a :: b :: c :: d :: rest => do
      let unit ← hexUnit? a b c d
      if isHighSurrogate unit then
        match rest with
        | '\\' :: 'u' :: e :: f :: g :: h :: rest => do
            let low ← hexUnit? e f g h
            if isLowSurrogate low then
              some (Char.ofNat (0x10000 + 1024 * (unit - 0xD800) + (low - 0xDC00)), rest)
            else
              none
        | _ => none
      else if isLowSurrogate unit then
        none
      else
        some (Char.ofNat unit, rest)
  | c :: rest => (unescape? c).map fun c => (c, rest)
  | [] => none

/-- The characters of a string up to its closing quote, given enough steps. -/
def readStringRest : Nat → Reader (List Char)
  | 0, _ => none
  | _ + 1, [] => none
  | steps + 1, c :: rest =>
      if c = '"' then
        some ([], rest)
      else if c = '\\' then do
        let (c, rest) ← readEscape rest
        let (cs, rest) ← readStringRest steps rest
        some (c :: cs, rest)
      else if c.toNat < 0x20 then
        none
      else do
        let (cs, rest) ← readStringRest steps rest
        some (c :: cs, rest)

/-- A string after its opening quote. -/
def readString (text : List Char) : Option (String × List Char) :=
  (readStringRest (text.length + 1) text).map fun (cs, rest) => (String.ofList cs, rest)

/-- A required word. -/
def readWord (word : List Char) (value : Json) : Reader Json := fun text =>
  if text.take word.length = word then some (value, text.drop word.length) else none

/-- The digits after a point, if there is a point. -/
def readFraction : Reader (List Char)
  | '.' :: rest =>
      let digits := rest.takeWhile Char.isDigit
      if digits.isEmpty then none else some (digits, rest.dropWhile Char.isDigit)
  | rest => some ([], rest)

/-- The power of ten, if there is an exponent mark. -/
def readPower : Reader (Option Int)
  | [] => some (none, [])
  | mark :: rest =>
      if mark = 'e' ∨ mark = 'E' then
        let (negative, rest) := Decimal.splitSign rest
        let digits := rest.takeWhile Char.isDigit
        if digits.isEmpty then
          none
        else
          let n : Int := Decimal.ofDigits digits
          some (some (if negative then -n else n), rest.dropWhile Char.isDigit)
      else
        some (none, mark :: rest)

/-- The number nearest to a numeral; a numeral beyond all finite numbers has none. -/
def ofNumeral? (n : Decimal.Numeral) : Option JsonNumber :=
  let x := Binary64.ofNumeral n
  if h : x.isFinite = true then some (.float x h) else none

/-- An integer literal: an integer where it fits 64 bits, except for minus zero. -/
def ofLiteral? (negative : Bool) (digits : List Char) : Option JsonNumber :=
  let magnitude : Int := Decimal.ofDigits digits
  let value := if negative then -magnitude else magnitude
  if h : (-2 ^ 63 ≤ value ∧ value < 2 ^ 64) ∧ ¬(negative = true ∧ value = 0) then
    some (.integer value h.1)
  else
    ofNumeral? (.ofParts negative digits [] 0)

/-- A number: digits without a leading zero, an optional fraction, an optional exponent. -/
def readNumber (text : List Char) : Option (JsonNumber × List Char) := do
  let (negative, rest) :=
    match text with
    | '-' :: rest => (true, rest)
    | rest => (false, rest)
  let whole := rest.takeWhile Char.isDigit
  if whole.isEmpty || (whole.head? == some '0' && 1 < whole.length) then
    none
  else
    let afterWhole := rest.dropWhile Char.isDigit
    let (fraction, afterFraction) ← readFraction afterWhole
    let (power, rest) ← readPower afterFraction
    let read ←
      if fraction.isEmpty && power.isNone then
        ofLiteral? negative whole
      else
        ofNumeral? (.ofParts negative whole fraction (power.getD 0))
    some (read, rest)

/-- Items separated by commas up to a closing bracket, given enough steps. -/
def readItems {α : Type} (item : Reader α) (closing : Char) : Nat → Reader (List α)
  | 0, _ => none
  | steps + 1, text => do
      let (first, rest) ← item (skipSpace text)
      match skipSpace rest with
      | ',' :: rest => do
          let (others, rest) ← readItems item closing steps rest
          some (first :: others, rest)
      | c :: rest => if c = closing then some ([first], rest) else none
      | [] => none

/-- A possibly empty bracketed list, after its opening bracket. -/
def readList {α : Type} (item : Reader α) (closing : Char) : Reader (List α) := fun text =>
  match skipSpace text with
  | c :: rest =>
      if c = closing then some ([], rest) else readItems item closing text.length (c :: rest)
  | [] => none

/-- A field of an object: a name, a colon and a value. -/
def readField (value : Reader Json) : Reader (String × Json)
  | '"' :: rest => do
      let (name, rest) ← readString rest
      match skipSpace rest with
      | ':' :: rest => do
          let (value, rest) ← value (skipSpace rest)
          some ((name, value), rest)
      | _ => none
  | _ => none

/-- Set a field: a repeated name keeps its first place and takes the last value. -/
def setField (name : String) (value : Json) : List (String × Json) → List (String × Json)
  | [] => [(name, value)]
  | field :: rest =>
      if field.1 = name then (name, value) :: rest else field :: setField name value rest

/-- The fields of an object, with repeated names merged. -/
def mergeFields (fields : List (String × Json)) : List (String × Json) :=
  fields.foldl (fun merged field => setField field.1 field.2 merged) []

/-- A value, of which `depth` levels of lists and objects may be opened. -/
def readValue : Nat → Reader Json
  | _, '"' :: rest => do
      let (s, rest) ← readString rest
      some (.string s, rest)
  | 0, '[' :: _ => none
  | 0, '\x7b' :: _ => none
  | depth + 1, '[' :: rest => do
      let (items, rest) ← readList (readValue depth) ']' rest
      some (.array items, rest)
  | depth + 1, '\x7b' :: rest => do
      let (fields, rest) ← readList (readField (readValue depth)) '\x7d' rest
      some (.object (mergeFields fields), rest)
  | _, 'n' :: rest => readWord ['n', 'u', 'l', 'l'] .null ('n' :: rest)
  | _, 't' :: rest => readWord ['t', 'r', 'u', 'e'] (.bool true) ('t' :: rest)
  | _, 'f' :: rest => readWord ['f', 'a', 'l', 's', 'e'] (.bool false) ('f' :: rest)
  | _, text => do
      let (n, rest) ← readNumber text
      some (.number n, rest)

/-- The document of a text, which may have space around it. -/
def read (text : String) : Option Json := do
  let (value, rest) ← readValue maxDepth (skipSpace text.toList)
  if (skipSpace rest).isEmpty then some value else none

end Json

end KeyedQuery
