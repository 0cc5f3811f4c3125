import KeyedQuery.Expression.Evaluation
import KeyedQuery.Where.Basic

/-!
# Conditions as expression fragments

A condition becomes a fragment of expression text in which the attribute is an
alias and every operand a placeholder.  The tables of both grow as conditions
are translated.  A fragment is kept as data and rendered when text is wanted, so
that the same fragment can be shown with aliases or with attribute names.

| condition  | fragment                         |
|------------|----------------------------------|
| equality   | `#A = :a`                        |
| comparison | `#A < :a`                        |
| range      | `#A BETWEEN :a_start AND :a_end` |
| membership | `#A IN (:a_0, :a_1)`             |
| group      | `(#A = :a OR #B = :b)`           |
-/

namespace KeyedQuery

/-- A translated condition: aliases with placeholders. -/
inductive Fragment where
  | compare (aliasName : String) (op : Comparator) (placeholder : String)
  | between (aliasName low high : String)
  | isIn (aliasName : String) (placeholders : List String)
  | anyOf (entries : List (String × String))
deriving DecidableEq, Repr

namespace Fragment

/-- The text of a fragment, with a rendering of its aliases. -/
def render (nameOf : String → String) : Fragment → String
  | .compare aliasName op placeholder =>
      nameOf aliasName ++ " " ++ op.symbol ++ " " ++ placeholder
  | .between aliasName low high =>
      nameOf aliasName ++ " BETWEEN " ++ low ++ " AND " ++ high
  | .isIn aliasName placeholders =>
      nameOf aliasName ++ " IN (" ++ ", ".intercalate placeholders ++ ")"
  | .anyOf entries =>
      "(" ++ " OR ".intercalate
        (entries.map fun entry => nameOf entry.1 ++ " = " ++ entry.2) ++ ")"

def text (f : Fragment) : String :=
  f.render id

/-- The conjunction of fragments; there is none of no fragment. -/
def conjunction (fragments : List Fragment) : Option String :=
  if fragments.isEmpty then none else some (" AND ".intercalate (fragments.map text))

end Fragment

/-- Whether a fragment stands in a key condition or in a filter. -/
inductive Position where
  | key
  | filter
deriving DecidableEq, Repr

/-- Why a condition has no fragment. -/
inductive TranslationFault where
  | keyMembership (name : String)
  | membershipEmpty (name : String)
  | groupEmpty
deriving DecidableEq, Repr

def TranslationFault.message : TranslationFault → String
  | .keyMembership name => "membership on `" ++ name ++ "` cannot be a key condition"
  | .membershipEmpty name => "membership list for `" ++ name ++ "` is empty"
  | .groupEmpty => "or group is empty"

/-- A name with every other character replaced by `_`; the empty name is `_`. -/
def wordOfName (name : String) : List Char :=
  if name.isEmpty then
    ['_']
  else
    name.toList.map fun c => if isWordChar c then c else '_'

/-- The stem with a number behind it. -/
def numbered (stem : String) (n : Nat) : String :=
  stem ++ "_" ++ Decimal.intText n

/-- The first numbered stem from `n` on that is not taken, of at most `steps` tries and one. -/
def firstNumbered (taken : String → Bool) (stem : String) : Nat → Nat → String
  | 0, n => numbered stem n
  | steps + 1, n =>
      if taken (numbered stem n) then firstNumbered taken stem steps (n + 1)
      else numbered stem n

namespace Bindings

/-- The alias that an attribute has. -/
def aliasOf? (b : Bindings) (name : String) : Option String :=
  (b.names.entries.find? fun entry => entry.2 == name).map Prod.fst

/--
A new alias: `#` and the shortest beginning of the upper-case name that is not
in use, or else the whole of it with the first free number.
-/
def newAlias (b : Bindings) (name : String) : String :=
  let word := (wordOfName name).map Char.toUpper
  let beginnings := (List.range word.length).map fun n =>
    String.ofList ('#' :: word.take (n + 1))
  match beginnings.find? fun candidate => !b.names.contains candidate with
  | some candidate => candidate
  | none => firstNumbered b.names.contains (String.ofList ('#' :: word)) b.names.size 1

/-- The alias of an attribute, which is assigned on first use. -/
def aliasFor (b : Bindings) (name : String) : String × Bindings :=
  match b.aliasOf? name with
  | some aliasName => (aliasName, b)
  | none =>
      let aliasName := b.newAlias name
      (aliasName, { b with names := b.names.insert aliasName name })

/-- A placeholder that is not in use: `:` and the name, with the first free number if need be. -/
def newPlaceholder (b : Bindings) (base : String) : String :=
  let stem := String.ofList (':' :: wordOfName base)
  if b.values.contains stem then
    firstNumbered b.values.contains stem b.values.size 1
  else
    stem

/-- Bind a value to a new placeholder that is named after `base`. -/
def bind (b : Bindings) (base : String) (value : Value) : String × Bindings :=
  let placeholder := b.newPlaceholder base
  (placeholder, { b with values := b.values.insert placeholder value })

/-- Bind the values of a list to placeholders numbered from `n`. -/
def bindList (b : Bindings) (name : String) : Nat → List Value → List String × Bindings
  | _, [] => ([], b)
  | n, value :: rest =>
      let (placeholder, b) := b.bind (numbered name n) value
      let (placeholders, b) := b.bindList name (n + 1) rest
      (placeholder :: placeholders, b)

/-- An alias and a placeholder for each equality of a group. -/
def bindEqualities (b : Bindings) :
    List (String × Value) → List (String × String) × Bindings
  | [] => ([], b)
  | (name, value) :: rest =>
      let (aliasName, b) := b.aliasFor name
      let (placeholder, b) := b.bind name value
      let (entries, b) := b.bindEqualities rest
      ((aliasName, placeholder) :: entries, b)

/--
Translate the condition on an attribute.  The attribute has its alias also when
the condition has no fragment.
-/
def translate (b : Bindings) (position : Position) (name : String) (c : Condition) :
    Except TranslationFault Fragment × Bindings :=
  let (aliasName, b) := b.aliasFor name
  match c with
  | .equals value =>
      let (placeholder, b) := b.bind name value
      (.ok (.compare aliasName .eq placeholder), b)
  | .compare op value =>
      let (placeholder, b) := b.bind name value
      (.ok (.compare aliasName (.order op) placeholder), b)
  | .between low high =>
      let (lowHolder, b) := b.bind (name ++ "_start") low
      let (highHolder, b) := b.bind (name ++ "_end") high
      (.ok (.between aliasName lowHolder highHolder), b)
  | .isIn values =>
      if position = .key then
        (.error (.keyMembership name), b)
      else if values.isEmpty then
        (.error (.membershipEmpty name), b)
      else
        let (placeholders, b) := b.bindList name 0 values
        (.ok (.isIn aliasName placeholders), b)

def translateAnyOf (b : Bindings) (entries : List (String × Value)) :
    Except TranslationFault Fragment × Bindings :=
  if entries.isEmpty then
    (.error .groupEmpty, b)
  else
    let (entries, b) := b.bindEqualities entries
    (.ok (.anyOf entries), b)

/-- Translate an entry of a where clause as a filter. -/
def translateClause (b : Bindings) : Clause → Except TranslationFault Fragment × Bindings
  | .on name condition => b.translate .filter name condition
  | .anyOf entries => b.translateAnyOf entries

end Bindings

/-- The attribute that an alias stands for; an alias without an entry stands for itself. -/
def nameOfAlias (names : Dict String) (aliasName : String) : String :=
  (names.get? aliasName).getD aliasName

/--
Replace every alias in a text by its attribute name.  An alias is a `#` with all
the word characters after it; the first argument holds the characters of the
alias that is being read.
-/
def replaceAliases (names : Dict String) : Option (List Char) → List Char → List Char
  | none, [] => []
  | some word, [] => (nameOfAlias names (String.ofList word)).toList
  | none, c :: rest =>
      if c = '#' then
        replaceAliases names (some ['#']) rest
      else
        c :: replaceAliases names none rest
  | some word, c :: rest =>
      if isWordChar c then
        replaceAliases names (some (word ++ [c])) rest
      else
        (nameOfAlias names (String.ofList word)).toList ++
          if c = '#' then
            replaceAliases names (some ['#']) rest
          else
            c :: replaceAliases names none rest

/-- A text with attribute names in place of its aliases. -/
def resolveNames (names : Dict String) (text : String) : String :=
  String.ofList (replaceAliases names none text.toList)

end KeyedQuery
