import KeyedQuery.Schema.Basic
import KeyedQuery.Store.KeyCondition

/-!
# A store in memory

Tables of records in the order of first insertion.  Putting a record replaces
the record of the same primary key where it stands.  A page looks at a bounded
number of records, so a page may be empty although more pages follow.  An index
is sparse: a record without its key attributes is invisible through it.
-/

namespace KeyedQuery

namespace Cursor

/-- The eight bytes of a position, most significant byte first. -/
def ofPosition (position : Nat) : Cursor :=
  ⟨[position / 2 ^ 56, position / 2 ^ 48, position / 2 ^ 40, position / 2 ^ 32,
    position / 2 ^ 24, position / 2 ^ 16, position / 2 ^ 8, position].map UInt8.ofNat⟩

/-- The position of a cursor of eight bytes. -/
def position? (c : Cursor) : Option Nat :=
  if c.bytes.length = 8 then
    some (c.bytes.foldl (fun n byte => 256 * n + byte.toNat) 0)
  else
    none

end Cursor

/-- A table: its schema, and its records in the order of first insertion. -/
structure Table where
  schema : KeySchema
  records : List Record

namespace KeySchema

/-- The values of the primary key of a record. -/
def primaryKey (s : KeySchema) (r : Record) : Option Value × Option Value :=
  (r.get? s.hashKey, s.sortKey.bind r.get?)

/-- Whether two records have one primary key, by the equality that tells variants apart. -/
def samePrimaryKey (s : KeySchema) (a b : Record) : Bool :=
  s.primaryKey a == s.primaryKey b

end KeySchema

/-- Replace the first element that is like `x`, or append `x`. -/
def replaceOrAppend {α : Type} (like : α → α → Bool) (x : α) : List α → List α
  | [] => [x]
  | y :: rest => if like y x then x :: rest else y :: replaceOrAppend like x rest

@[simp] theorem replaceOrAppend_nil {α : Type} (like : α → α → Bool) (x : α) :
    replaceOrAppend like x [] = [x] :=
  rfl

theorem replaceOrAppend_cons {α : Type} (like : α → α → Bool) (x y : α) (rest : List α) :
    replaceOrAppend like x (y :: rest) =
      if like y x then x :: rest else y :: replaceOrAppend like x rest :=
  rfl

/-- Keep the elements that pass a test which may fail; the first failure wins. -/
def selectM {α ε : Type} (test : α → Except ε Bool) : List α → Except ε (List α)
  | [] => .ok []
  | x :: rest => do
      if ← test x then do
        let kept ← selectM test rest
        .ok (x :: kept)
      else
        selectM test rest

namespace Table

def empty (schema : KeySchema) : Table :=
  ⟨schema, []⟩

/-- Put a record, which must have the hash attribute. -/
def put (t : Table) (r : Record) : Except Rejection Table :=
  match r.present? t.schema.hashKey with
  | none => .error (.hashKeyMissing t.schema.hashKey)
  | some _ => .ok { t with records := replaceOrAppend t.schema.samePrimaryKey r t.records }

/-- The key attributes of an index, or of the table itself. -/
def keyNames (t : Table) (name : String) : Option String → Except Rejection KeyNames
  | none => .ok ⟨t.schema.hashKey, t.schema.sortKey⟩
  | some index =>
      match t.schema.index? index with
      | some found => .ok ⟨found.hashKey, some found.sortKey⟩
      | none => .error (.indexUnknown index name)

end Table

/-- A request whose texts have been read and checked. -/
structure Selection where
  /-- The key attributes that a record must have to be visible. -/
  visible : Option KeyNames
  keyCondition : Option Expr
  filter : Option Expr

namespace Selection

/-- Whether a record passes an expression; no expression is passed by every record. -/
def passes (b : Bindings) (r : Record) : Option Expr → Except ExpressionError Bool
  | none => .ok true
  | some e => b.eval r e

/-- Whether a record is selected: visible, then by the key condition, then by the filter. -/
def selects (s : Selection) (b : Bindings) (r : Record) : Except ExpressionError Bool :=
  if s.visible.all fun keys => keys.presentIn r then do
    if ← passes b r s.keyCondition then passes b r s.filter else .ok false
  else
    .ok false

end Selection

def Rejection.parse (text : String) : Except Rejection Expr :=
  match Expr.parse text with
  | .ok e => .ok e
  | .error e => .error (.expression e)

namespace Table

def readFilter : Option String → Except Rejection (Option Expr)
  | none => .ok none
  | some text => (Rejection.parse text).map some

/-- Read and check the texts of a request. -/
def select (t : Table) (q : Request) : Except Rejection Selection :=
  match q.access with
  | .scan => do
      let filter ← readFilter q.filter
      .ok ⟨none, none, filter⟩
  | .keyed index keyCondition => do
      let keys ← t.keyNames q.table index
      let e ← Rejection.parse keyCondition
      keys.check q.bindings e
      let filter ← readFilter q.filter
      .ok ⟨if index.isSome then some keys else none, some e, filter⟩

/-- The position of the first record that a request looks at. -/
def start : Option Cursor → Except Rejection Nat
  | none => .ok 0
  | some cursor =>
      match cursor.position? with
      | some position => .ok position
      | none => .error (.cursorMalformed cursor)

/-- The page of a request: the selected ones of the next `pageSize` records. -/
def readPage (t : Table) (pageSize : Nat) (q : Request) : Except Rejection Page := do
  let selection ← t.select q
  let first ← start q.cursor
  let stop := min (first + pageSize) t.records.length
  let looked := (t.records.drop first).take (stop - first)
  match selectM (selection.selects q.bindings) looked with
  | .error e => .error (.expression e)
  | .ok records =>
      .ok ⟨records, if stop < t.records.length then some (.ofPosition stop) else none⟩

end Table

/-- Tables by name, and the number of records that a page looks at. -/
structure MemoryStore where
  pageSize : Nat
  tables : Dict Table
  pageSize_pos : 0 < pageSize

namespace MemoryStore

/-- The number of records that a page looks at unless told otherwise. -/
def defaultPageSize : Nat :=
  100

/-- The store without tables; a page looks at one record at least. -/
def ofPageSize (pageSize : Nat) : MemoryStore :=
  ⟨max pageSize 1, .empty, by omega⟩

/-- Create a table, in place of one of the same name. -/
def createTable (s : MemoryStore) (name : String) (schema : KeySchema) : MemoryStore :=
  { s with tables := s.tables.insert name (.empty schema) }

def table (s : MemoryStore) (name : String) : Except Rejection Table :=
  match s.tables.get? name with
  | some t => .ok t
  | none => .error (.tableUnknown name)

def put (s : MemoryStore) (name : String) (r : Record) : Except Rejection MemoryStore := do
  let t ← s.table name
  let t ← t.put r
  .ok { s with tables := s.tables.insert name t }

/-- The number of records of a table; a table that does not exist has none. -/
def count (s : MemoryStore) (name : String) : Nat :=
  match s.tables.get? name with
  | some t => t.records.length
  | none => 0

def readPage (s : MemoryStore) (q : Request) : Except Rejection Page := do
  let t ← s.table q.table
  t.readPage s.pageSize q

/-- The store as its clients see it. -/
def client (s : MemoryStore) : Client := fun _ q =>
  match s.readPage q with
  | .ok page => .ok page
  | .error why => .error (.rejected why)

end MemoryStore

end KeyedQuery
