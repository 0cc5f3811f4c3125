import KeyedQuery.Dict

/-!
# Key schemas

The keys of a table: a hash attribute, an optional sort attribute, declared
attribute types, and secondary indexes with keys of their own.  A schema is
valid when every key attribute has a declared type and the indexes are
consistent with the table and with each other.
-/

namespace KeyedQuery

/-- The type that an attribute may be declared with. -/
inductive ScalarType where
  | string
  | number
  | date
  | boolean
deriving DecidableEq, Repr

def ScalarType.name : ScalarType → String
  | .string => "string"
  | .number => "number"
  | .date => "date"
  | .boolean => "boolean"

/-- Whether an index shares the hash attribute of its table. -/
inductive IndexKind where
  | sharing
  | independent
deriving DecidableEq, Repr

def IndexKind.name : IndexKind → String
  | .sharing => "local"
  | .independent => "global"

structure SecondaryIndex where
  name : String
  hashKey : String
  sortKey : String
  kind : IndexKind
deriving DecidableEq, Repr

namespace SecondaryIndex

/-- A local index over a sort attribute, which names it. -/
def sharing (tableHash sortKey : String) : SecondaryIndex :=
  ⟨sortKey ++ "LocalIndex", tableHash, sortKey, .sharing⟩

/-- A global index over a hash attribute, which names it, and a sort attribute. -/
def independent (hashKey sortKey : String) : SecondaryIndex :=
  ⟨hashKey ++ "GlobalIndex", hashKey, sortKey, .independent⟩

end SecondaryIndex

/-- The keys, declared types and indexes of a table. -/
structure KeySchema where
  hashKey : String
  sortKey : Option String
  attributes : Dict ScalarType
  indexes : List SecondaryIndex

/-- Why a schema is not valid. -/
inductive SchemaFault where
  | hashKeyEmpty
  | hashKeyUntyped (hashKey : String)
  | sortKeyIsHashKey (sortKey : String)
  | indexRepeated (index : String)
  | indexHashKey (index tableHash : String)
  | keyUntyped (name owner : String)
deriving DecidableEq, Repr

def SchemaFault.message : SchemaFault → String
  | .hashKeyEmpty => "hash key name is empty"
  | .hashKeyUntyped name => "hash key `" ++ name ++ "` has no declared type"
  | .sortKeyIsHashKey name => "sort key `" ++ name ++ "` is also the hash key"
  | .indexRepeated index => "duplicate index name `" ++ index ++ "`"
  | .indexHashKey index tableHash =>
      "local index `" ++ index ++ "` must use the table hash key `" ++ tableHash ++ "`"
  | .keyUntyped name owner =>
      "key attribute `" ++ name ++ "` of " ++ owner ++ " has no declared type"

namespace KeySchema

/-- The hash attribute of a schema that names none. -/
def defaultHashKey : String :=
  "id"

/-- A schema with a hash attribute alone. -/
def ofHashKey (hashKey : String) (type : ScalarType) : KeySchema :=
  ⟨hashKey, none, Dict.empty.insert hashKey type, []⟩

def declare (s : KeySchema) (name : String) (type : ScalarType) : KeySchema :=
  { s with attributes := s.attributes.insert name type }

/-- Make an attribute the sort attribute of the table. -/
def withSortKey (s : KeySchema) (name : String) (type : ScalarType) : KeySchema :=
  { s.declare name type with sortKey := some name }

/-- Append an index whose attributes are declared apart. -/
def withIndex (s : KeySchema) (index : SecondaryIndex) : KeySchema :=
  { s with indexes := s.indexes ++ [index] }

/-- Append a local index over a sort attribute. -/
def withLocalIndex (s : KeySchema) (sortKey : String) (type : ScalarType) : KeySchema :=
  (s.declare sortKey type).withIndex (.sharing s.hashKey sortKey)

/-- Append a global index over a hash and a sort attribute. -/
def withGlobalIndex (s : KeySchema) (hashKey : String) (hashType : ScalarType)
    (sortKey : String) (sortType : ScalarType) : KeySchema :=
  ((s.declare hashKey hashType).declare sortKey sortType).withIndex
    (.independent hashKey sortKey)

def typeOf? (s : KeySchema) (name : String) : Option ScalarType :=
  s.attributes.get? name

def hashType (s : KeySchema) : Except SchemaFault ScalarType :=
  match s.typeOf? s.hashKey with
  | some type => .ok type
  | none => .error (.hashKeyUntyped s.hashKey)

/-- The first index of a name. -/
def index? (s : KeySchema) (name : String) : Option SecondaryIndex :=
  s.indexes.find? fun index => index.name == name

/-- The indexes that use an attribute as a key. -/
def indexesFor (s : KeySchema) (name : String) : List SecondaryIndex :=
  s.indexes.filter fun index => index.hashKey == name || index.sortKey == name

/-- Whether an attribute is a key of the table or of an index. -/
def isKey (s : KeySchema) (name : String) : Bool :=
  s.hashKey == name || s.sortKey == some name || !(s.indexesFor name).isEmpty

/-- The field that records are sorted by when a query names none. -/
def defaultOrderKey (s : KeySchema) : String :=
  s.sortKey.getD s.hashKey

/-- Require a declared type of a key attribute. -/
def requireType (s : KeySchema) (name owner : String) : Except SchemaFault Unit :=
  if s.attributes.contains name then .ok () else .error (.keyUntyped name owner)

/-- Check one index, given the names of the indexes before it. -/
def checkIndex (s : KeySchema) (earlier : List String) (index : SecondaryIndex) :
    Except SchemaFault Unit := do
  if earlier.contains index.name then
    .error (.indexRepeated index.name)
  else if index.kind = .sharing ∧ index.hashKey ≠ s.hashKey then
    .error (.indexHashKey index.name s.hashKey)
  else do
    s.requireType index.hashKey index.name
    s.requireType index.sortKey index.name

/-- Check indexes in order, given the names of the indexes before them. -/
def checkIndexes (s : KeySchema) (earlier : List String) :
    List SecondaryIndex → Except SchemaFault Unit
  | [] => .ok ()
  | index :: rest => do
      s.checkIndex earlier index
      s.checkIndexes (index.name :: earlier) rest

/-- Check the sort attribute, if the schema has one. -/
def checkSortKey (s : KeySchema) : Except SchemaFault Unit :=
  match s.sortKey with
  | none => .ok ()
  | some sortKey =>
      if sortKey = s.hashKey then
        .error (.sortKeyIsHashKey sortKey)
      else
        s.requireType sortKey "sort key"

/-- The first fault of a schema, or success for a valid one. -/
def validate (s : KeySchema) : Except SchemaFault Unit :=
  if s.hashKey = "" then
    .error .hashKeyEmpty
  else do
    let _ ← s.hashType
    s.checkSortKey
    s.checkIndexes [] s.indexes

end KeySchema

end KeyedQuery
