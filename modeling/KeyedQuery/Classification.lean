import KeyedQuery.Schema.Basic
import KeyedQuery.Where.Basic

/-!
# How a where clause meets the keys

A clause that fixes the hash attribute by an equality pins one partition, which
can be read by key; any other clause needs a scan.  In a partition one further
condition can narrow the read: a condition on the sort attribute of the table,
or else on the sort attribute of an index that shares the hash attribute.
-/

namespace KeyedQuery

inductive KeyRole where
  | hash
  | sort
  | indexHash (index : String)
  | indexSort (index : String)
  | none
deriving DecidableEq, Repr

namespace KeyRole

def isKey : KeyRole → Bool
  | .none => false
  | _ => true

/-- The words that show a role. -/
def label : KeyRole → String
  | .hash => "hash"
  | .sort => "sort"
  | .indexHash index => "hash of " ++ index
  | .indexSort index => "sort of " ++ index
  | .none => "non-key"

end KeyRole

/-- Whether a partition is read by key or the whole table is scanned. -/
inductive ReadMode where
  | lookup
  | scan
deriving DecidableEq, Repr

def ReadMode.name : ReadMode → String
  | .lookup => "lookup"
  | .scan => "scan"

/-- The attribute whose condition narrows a read by key, and the index that sorts by it. -/
structure SortMatch where
  name : String
  /-- The index; none stands for the table itself. -/
  index : Option String
deriving DecidableEq, Repr

/-- What a schema says of the attributes of a where clause. -/
structure Classification where
  /-- The role of each attribute that the clause mentions, in order of first mention. -/
  roles : List (String × KeyRole)
  /-- The hash attribute has an equality. -/
  hashEquality : Bool
  /-- The hash attribute has a membership. -/
  hashMembership : Bool
  /-- The attribute that narrows the read. -/
  sortMatch : Option SortMatch

namespace Classification

/-- The role of an attribute that the clause mentions. -/
def role? (c : Classification) (name : String) : Option KeyRole :=
  c.roles.lookup name

/-- The index to read; none stands for the table itself. -/
def targetIndex (c : Classification) : Option String :=
  c.sortMatch.bind SortMatch.index

def mode (c : Classification) : ReadMode :=
  if c.hashEquality then .lookup else .scan

end Classification

namespace SecondaryIndex

/-- The role of an attribute in one index. -/
def role? (index : SecondaryIndex) (name : String) : Option KeyRole :=
  if index.hashKey = name then some (.indexHash index.name)
  else if index.sortKey = name then some (.indexSort index.name)
  else none

end SecondaryIndex

namespace KeySchema

/-- The role of an attribute: keys of the table come first, then indexes in order. -/
def roleOf (s : KeySchema) (name : String) : KeyRole :=
  if s.hashKey = name then .hash
  else if s.sortKey = some name then .sort
  else (s.indexes.findSome? fun index => index.role? name).getD .none

/-- The first index that shares the hash attribute of the table and sorts by an attribute. -/
def indexSortedBy? (s : KeySchema) (name : String) : Option SecondaryIndex :=
  s.indexes.find? fun index => index.sortKey == name && index.hashKey == s.hashKey

/-- Whether the clause has a condition on an attribute that can narrow a read. -/
def narrows (w : WhereClause) (name : String) : Bool :=
  (w.get? name).any fun condition => !condition.isMembership

/-- The narrowing attribute that an index sorts by: the first one of the clause. -/
def indexSortMatch? (s : KeySchema) (w : WhereClause) : Option SortMatch :=
  w.attributes.findSome? fun (name, condition) =>
    if name = s.hashKey ∨ condition.isMembership then
      none
    else
      (s.indexSortedBy? name).map fun index => ⟨name, some index.name⟩

/-- The narrowing attribute: the sort attribute of the table, or else one of an index. -/
def sortMatch? (s : KeySchema) (w : WhereClause) : Option SortMatch :=
  match s.sortKey.filter (narrows w) with
  | some sortKey => some ⟨sortKey, none⟩
  | none => s.indexSortMatch? w

/-- Note the role of an attribute, unless it has been noted. -/
def noteRole (s : KeySchema) (roles : List (String × KeyRole)) (name : String) :
    List (String × KeyRole) :=
  if (roles.lookup name).isSome then roles else roles ++ [(name, s.roleOf name)]

def classify (s : KeySchema) (w : WhereClause) : Classification :=
  let hashEquality := (w.get? s.hashKey).any Condition.isEquality
  { roles := (w.clauses.flatMap Clause.mentions).foldl s.noteRole []
    hashEquality := hashEquality
    hashMembership := (w.get? s.hashKey).any Condition.isMembership
    sortMatch := if hashEquality then s.sortMatch? w else none }

end KeySchema

end KeyedQuery
