/-!
# Maps from names, in name order

A `Dict` maps names to values.  Its entries are kept in increasing name order
with no name twice, so two dictionaries are equal exactly when they answer every
look-up alike, and the order in which answers show their entries is the order of
the type.
-/

namespace KeyedQuery

/-- A finite map from names, held as its entries in increasing name order. -/
structure Dict (α : Type) where
  entries : List (String × α)
  sorted : entries.Pairwise fun a b => a.1 < b.1

namespace Dict

variable {α β : Type}

def empty : Dict α :=
  ⟨[], List.Pairwise.nil⟩

instance : EmptyCollection (Dict α) :=
  ⟨empty⟩

instance : Inhabited (Dict α) :=
  ⟨empty⟩

/-- Put an entry at its place in name order, over an entry of the same name. -/
def insertEntry (name : String) (value : α) : List (String × α) → List (String × α)
  | [] => [(name, value)]
  | entry :: rest =>
      if name < entry.1 then
        (name, value) :: entry :: rest
      else if entry.1 < name then
        entry :: insertEntry name value rest
      else
        (name, value) :: rest

theorem eq_of_not_lt {a b : String} (hab : ¬ a < b) (hba : ¬ b < a) : a = b :=
  String.le_antisymm (String.not_lt.mp hba) (String.not_lt.mp hab)

theorem mem_insertEntry
    {name : String} {value : α} {entries : List (String × α)} {entry : String × α}
    (h : entry ∈ insertEntry name value entries) :
    entry = (name, value) ∨ entry ∈ entries := by
  induction entries with
  | nil =>
      simpa [insertEntry] using h
  | cons head rest ih =>
      simp only [insertEntry] at h
      split at h
      · simpa using h
      · split at h
        · rcases List.mem_cons.mp h with h | h
          · simp [h]
          · rcases ih h with h | h <;> simp [h]
        · rcases List.mem_cons.mp h with h | h <;> simp [h]

theorem pairwise_insertEntry
    {name : String} {value : α} {entries : List (String × α)}
    (h : entries.Pairwise fun a b => a.1 < b.1) :
    (insertEntry name value entries).Pairwise fun a b => a.1 < b.1 := by
  induction entries with
  | nil =>
      simp [insertEntry]
  | cons head rest ih =>
      obtain ⟨hhead, hrest⟩ := List.pairwise_cons.mp h
      simp only [insertEntry]
      split
      · rename_i hlt
        refine List.pairwise_cons.mpr ⟨fun entry hmem => ?_, h⟩
        rcases List.mem_cons.mp hmem with rfl | hmem
        · exact hlt
        · exact String.lt_trans hlt (hhead entry hmem)
      · split
        · rename_i hlt
          refine List.pairwise_cons.mpr ⟨fun entry hmem => ?_, ih hrest⟩
          rcases mem_insertEntry hmem with rfl | hmem
          · exact hlt
          · exact hhead entry hmem
        · rename_i hnlt hngt
          have heq : name = head.1 := eq_of_not_lt hnlt hngt
          exact List.pairwise_cons.mpr ⟨fun entry hmem => heq ▸ hhead entry hmem, hrest⟩

def insert (d : Dict α) (name : String) (value : α) : Dict α :=
  ⟨insertEntry name value d.entries, pairwise_insertEntry d.sorted⟩

def get? (d : Dict α) (name : String) : Option α :=
  d.entries.lookup name

def contains (d : Dict α) (name : String) : Bool :=
  (d.get? name).isSome

/-- The names, in increasing order. -/
def names (d : Dict α) : List String :=
  d.entries.map Prod.fst

def size (d : Dict α) : Nat :=
  d.entries.length

def isEmpty (d : Dict α) : Bool :=
  d.entries.isEmpty

/-- Rewrite every value, keeping the names. -/
def map (d : Dict α) (f : String → α → β) : Dict β :=
  ⟨d.entries.map fun entry => (entry.1, f entry.1 entry.2),
    List.pairwise_map.mpr d.sorted⟩

/-- The map of a list of entries, where a later entry wins over an earlier one. -/
def ofList (entries : List (String × α)) : Dict α :=
  entries.foldl (fun d entry => d.insert entry.1 entry.2) empty

@[ext] theorem ext {a b : Dict α} (h : a.entries = b.entries) : a = b := by
  cases a
  cases b
  simp_all

@[simp] theorem get?_empty (name : String) : (empty : Dict α).get? name = none :=
  rfl

theorem lookup_insertEntry_self (name : String) (value : α) (entries : List (String × α)) :
    (insertEntry name value entries).lookup name = some value := by
  induction entries with
  | nil =>
      simp [insertEntry]
  | cons head rest ih =>
      obtain ⟨first, held⟩ := head
      simp only [insertEntry]
      split
      · simp
      · split
        · rename_i hlt
          have hne : name ≠ first := fun h => String.lt_irrefl name (by simp [← h] at hlt)
          simpa [List.lookup_cons, beq_false_of_ne hne] using ih
        · simp

theorem lookup_insertEntry_of_ne
    {name other : String} (value : α) (entries : List (String × α)) (hne : other ≠ name) :
    (insertEntry name value entries).lookup other = entries.lookup other := by
  induction entries with
  | nil =>
      simp [insertEntry, List.lookup_cons, beq_false_of_ne hne]
  | cons head rest ih =>
      obtain ⟨first, held⟩ := head
      simp only [insertEntry]
      split
      · simp [List.lookup_cons, beq_false_of_ne hne]
      · split
        · simp only [List.lookup_cons, ih]
        · rename_i hnlt hngt
          have heq : name = first := eq_of_not_lt hnlt hngt
          have hfirst : other ≠ first := heq ▸ hne
          simp [List.lookup_cons, beq_false_of_ne hne, beq_false_of_ne hfirst]

@[simp] theorem get?_insert_self (d : Dict α) (name : String) (value : α) :
    (d.insert name value).get? name = some value :=
  lookup_insertEntry_self name value d.entries

theorem get?_insert_of_ne (d : Dict α) {name other : String} (value : α)
    (hne : other ≠ name) :
    (d.insert name value).get? other = d.get? other :=
  lookup_insertEntry_of_ne value d.entries hne

/-- One equation for both cases of a look-up after an insertion. -/
theorem get?_insert (d : Dict α) (name other : String) (value : α) :
    (d.insert name value).get? other = if other = name then some value else d.get? other := by
  by_cases h : other = name
  · simp [h]
  · simp [h, get?_insert_of_ne d value h]

theorem names_map (d : Dict α) (f : String → α → β) : (d.map f).names = d.names := by
  simp [names, map, Function.comp_def]

end Dict

end KeyedQuery
