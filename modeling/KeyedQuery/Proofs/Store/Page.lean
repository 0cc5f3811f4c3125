import KeyedQuery.Proofs.Except
import KeyedQuery.Store.Memory

/-!
# One page of a table

A page holds the selected ones of the records it looks at, and a cursor that
stands for the position behind them.  The cursor has eight bytes, so the store
reads every cursor that it gave, and reads it as the position that it stands for
when that fits into eight bytes.
-/

namespace KeyedQuery

/-! ## Positions -/

namespace Cursor

/-- The next byte brings a position from one byte to the next. -/
theorem next_byte (position k : Nat) :
    256 * (position / 2 ^ (k + 8)) + position / 2 ^ k % 2 ^ 8 = position / 2 ^ k := by
  rw [Nat.pow_add, ← Nat.div_div_eq_div_mul]
  exact Nat.div_add_mod _ _

theorem position?_ofPosition {position : Nat} (h : position < 2 ^ 64) :
    (ofPosition position).position? = some position := by
  have hfirst : position / 2 ^ 56 < 2 ^ 8 := Nat.div_lt_of_lt_mul h
  simp only [ofPosition, position?, List.map_cons, List.map_nil, List.length_cons,
    List.length_nil, List.foldl_cons, List.foldl_nil, UInt8.toNat_ofNat']
  rw [if_pos (by decide), Nat.mul_zero, Nat.zero_add, Nat.mod_eq_of_lt hfirst,
    next_byte position 48, next_byte position 40, next_byte position 32, next_byte position 24,
    next_byte position 16, next_byte position 8]
  exact congrArg some (Nat.div_add_mod position 256)

theorem exists_position?_ofPosition (position : Nat) :
    ∃ other, (ofPosition position).position? = some other :=
  ⟨_, rfl⟩

end Cursor

/-! ## Selection -/

theorem selectM_eq_filter {α ε : Type} {test : α → Except ε Bool} {keep : α → Bool}
    {xs : List α} (h : ∀ x ∈ xs, test x = .ok (keep x)) :
    selectM test xs = .ok (xs.filter keep) := by
  induction xs with
  | nil => rfl
  | cons x rest ih =>
      have hrest := ih fun y hy => h y (List.mem_cons_of_mem x hy)
      rw [selectM, h x List.mem_cons_self, ok_bind]
      cases hx : keep x <;> simp [hx, hrest]

namespace Table

variable {t : Table} {q : Request} {selection : Selection} {keep : Record → Bool}

/-- The page of a request that selects records by a test. -/
def pageOf (t : Table) (keep : Record → Bool) (pageSize first : Nat) : Page :=
  ⟨((t.records.drop first).take pageSize).filter keep,
    if first + pageSize < t.records.length then some (.ofPosition (first + pageSize)) else none⟩

theorem take_looked (t : Table) (pageSize first : Nat) :
    (t.records.drop first).take (min (first + pageSize) t.records.length - first) =
      (t.records.drop first).take pageSize := by
  rw [List.take_eq_take_iff, List.length_drop]
  omega

theorem readPage_eq_pageOf (hselect : t.select q = .ok selection)
    (hkeep : ∀ r, selection.selects q.bindings r = .ok (keep r)) {first : Nat}
    (hstart : start q.cursor = .ok first) (pageSize : Nat) :
    t.readPage pageSize q = .ok (t.pageOf keep pageSize first) := by
  unfold readPage
  rw [hselect, ok_bind, hstart, ok_bind]
  dsimp only
  rw [take_looked, selectM_eq_filter fun r _ => hkeep r]
  unfold pageOf
  by_cases hmore : first + pageSize < t.records.length
  · have hstop : min (first + pageSize) t.records.length = first + pageSize := by omega
    simp [hmore, hstop]
  · have hstop : min (first + pageSize) t.records.length = t.records.length := by omega
    simp [hmore, hstop]

/-- A page that a table gave has a cursor of a position or none. -/
theorem exists_position_of_readPage {pageSize : Nat} {page : Page} {cursor : Cursor}
    (h : t.readPage pageSize q = .ok page) (hcursor : page.cursor = some cursor) :
    ∃ position, cursor = .ofPosition position := by
  obtain ⟨selection, _, h⟩ := bind_eq_ok_iff.mp h
  obtain ⟨first, _, h⟩ := bind_eq_ok_iff.mp h
  dsimp only at h
  split at h
  · cases h
  · cases h
    dsimp only at hcursor
    split at hcursor
    · cases hcursor
      exact ⟨_, rfl⟩
    · cases hcursor

end Table

/-- A store reads a page from the table that it has under the name. -/
theorem MemoryStore.readPage_of_get? {s : MemoryStore} {t : Table} {q : Request}
    (h : s.tables.get? q.table = some t) : s.readPage q = t.readPage s.pageSize q := by
  simp only [readPage, table, h, ok_bind]

/-- A cursor that a store in memory gave in answer to some request. -/
def MemoryStore.Issued (cursor : Cursor) : Prop :=
  ∃ (s : MemoryStore) (q : Request) (page : Page),
    s.readPage q = .ok page ∧ page.cursor = some cursor

theorem MemoryStore.Issued.position {cursor : Cursor} (h : Issued cursor) :
    ∃ position, cursor.position? = some position := by
  obtain ⟨s, q, page, hpage, hcursor⟩ := h
  obtain ⟨t, _, hread⟩ := bind_eq_ok_iff.mp hpage
  obtain ⟨position, rfl⟩ := Table.exists_position_of_readPage hread hcursor
  exact Cursor.exists_position?_ofPosition position

end KeyedQuery
