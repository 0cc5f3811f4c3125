import KeyedQuery.Condition

/-!
# Where clauses

A where clause is an ordered conjunction.  Its entries are conditions on
attributes, at most one for each attribute, and groups of equalities of which
one must hold.  Setting the condition of an attribute that has one replaces it
where it stands, so the clause is a map that remembers the order of first
insertion, interleaved with the groups.
-/

namespace KeyedQuery

/-- One entry of a where clause. -/
inductive Clause where
  /-- A condition on an attribute. -/
  | on (name : String) (condition : Condition)
  /-- At least one of several equalities. -/
  | anyOf (entries : List (String × Value))

namespace Clause

def attribute? : Clause → Option String
  | .on name _ => some name
  | .anyOf _ => none

/-- The attributes that the entry mentions, in order. -/
def mentions : Clause → List String
  | .on name _ => [name]
  | .anyOf entries => entries.map Prod.fst

@[simp] theorem attribute?_on (name : String) (c : Condition) :
    (on name c).attribute? = some name :=
  rfl

@[simp] theorem attribute?_anyOf (entries : List (String × Value)) :
    (anyOf entries).attribute? = none :=
  rfl

@[simp] theorem mentions_on (name : String) (c : Condition) : (on name c).mentions = [name] :=
  rfl

@[simp] theorem mentions_anyOf (entries : List (String × Value)) :
    (anyOf entries).mentions = entries.map Prod.fst :=
  rfl

/-- Whether a record satisfies the entry. -/
def holds (c : Clause) (r : Record) : Bool :=
  match c with
  | .on name condition => condition.holds r name
  | .anyOf entries => entries.any fun entry => (Condition.equals entry.2).holds r entry.1

end Clause

/-- An ordered conjunction of entries. -/
structure WhereClause where
  clauses : List Clause

namespace WhereClause

/-- The clause that every record satisfies. -/
def empty : WhereClause :=
  ⟨[]⟩

instance : Inhabited WhereClause :=
  ⟨empty⟩

/-- Replace the condition of an attribute where it stands, or append it. -/
def setClause (name : String) (condition : Condition) : List Clause → List Clause
  | [] => [.on name condition]
  | .on other held :: rest =>
      if other = name then
        .on other condition :: rest
      else
        .on other held :: setClause name condition rest
  | .anyOf entries :: rest => .anyOf entries :: setClause name condition rest

@[simp] theorem setClause_nil (name : String) (c : Condition) :
    setClause name c [] = [.on name c] :=
  rfl

@[simp] theorem setClause_on_self (name : String) (c held : Condition) (rest : List Clause) :
    setClause name c (.on name held :: rest) = .on name c :: rest :=
  if_pos rfl

theorem setClause_on_of_ne {name other : String} (h : other ≠ name) (c held : Condition)
    (rest : List Clause) :
    setClause name c (.on other held :: rest) = .on other held :: setClause name c rest :=
  if_neg h

@[simp] theorem setClause_anyOf (name : String) (c : Condition)
    (entries : List (String × Value)) (rest : List Clause) :
    setClause name c (.anyOf entries :: rest) = .anyOf entries :: setClause name c rest :=
  rfl

def set (w : WhereClause) (name : String) (condition : Condition) : WhereClause :=
  ⟨setClause name condition w.clauses⟩

/-- Append a group of equalities of which one must hold. -/
def addAnyOf (w : WhereClause) (entries : List (String × Value)) : WhereClause :=
  ⟨w.clauses ++ [.anyOf entries]⟩

/-- The conditions with their attributes, in order, without the groups. -/
def attributes (w : WhereClause) : List (String × Condition) :=
  w.clauses.filterMap fun
    | .on name condition => some (name, condition)
    | .anyOf _ => none

def get? (w : WhereClause) (name : String) : Option Condition :=
  w.attributes.lookup name

def size (w : WhereClause) : Nat :=
  w.clauses.length

def isEmpty (w : WhereClause) : Bool :=
  w.clauses.isEmpty

def holds (w : WhereClause) (r : Record) : Bool :=
  w.clauses.all fun clause => clause.holds r

end WhereClause

end KeyedQuery
