import KeyedQuery.Proofs.Store.Page
import KeyedQuery.Proofs.Store.Put

/-!
# Draining a table that is put to

A drain asks for page after page, each with the cursor of the page before it,
while others put records between the pages.  A page looks at the positions that
follow those of the page before it.  Since puts keep every position and its key,
a drain looks once at each position, and no key comes back twice.
-/

namespace KeyedQuery

/-- The same request for the page behind a cursor. -/
def Request.behind (q : Request) (cursor : Option Cursor) : Request :=
  { q with cursor }

namespace Cursor

/-- The first cursor stands for an earlier position than the second. -/
def Precedes (a b : Cursor) : Prop :=
  ∃ i j, a.position? = some i ∧ b.position? = some j ∧ i < j

end Cursor

/-- The last page has no cursor. -/
def Ended (pages : List Page) : Prop :=
  ∃ last, pages.getLast? = some last ∧ last.cursor = none

namespace MemoryStore

/--
At most `limit` pages of a request, from page number `number` on, each asked for
with the cursor of the page before it.  Page number `k` is read from `stores k`.
-/
def drain (q : Request) (stores : Nat → MemoryStore) :
    Nat → Nat → Option Cursor → Except Rejection (List Page)
  | 0, _, _ => .ok []
  | limit + 1, number, cursor => do
      let page ← (stores number).readPage (q.behind cursor)
      match page.cursor with
      | none => .ok [page]
      | some next => do
          let rest ← drain q stores limit (number + 1) (some next)
          .ok (page :: rest)

/--
A request that a table accepts, whose conditions say `keep`, while records are
put between the pages.  Positions fit into cursors.
-/
structure Draining (q : Request) (stores : Nat → MemoryStore) (t : Table)
    (keep : Record → Bool) (pageSize : Nat) : Prop where
  table : (stores 0).tables.get? q.table = some t
  keysApart : t.KeysApart
  accepted : ∃ selection, t.select q = .ok selection ∧
    ∀ r, selection.selects q.bindings r = .ok (keep r)
  pageSize : (stores 0).pageSize = pageSize
  puts : ∀ k, (stores k).Puts (stores (k + 1))
  bound : ∀ k, (stores k).count q.table ≤ 2 ^ 64

/-- The records that page number `k` looks at. -/
def lookedAt (q : Request) (stores : Nat → MemoryStore) (pageSize k : Nat) : List Record :=
  (((stores k).records q.table).drop (k * pageSize)).take pageSize

/-- Page number `k`: what it keeps, and a cursor if records follow it. -/
def pageAt (q : Request) (stores : Nat → MemoryStore) (keep : Record → Bool)
    (pageSize k : Nat) : Page :=
  ⟨(lookedAt q stores pageSize k).filter keep,
    if (k + 1) * pageSize < (stores k).count q.table then
      some (.ofPosition ((k + 1) * pageSize))
    else
      none⟩

/-- The records that the first pages look at. -/
def lookedUntil (q : Request) (stores : Nat → MemoryStore) (pageSize count : Nat) : List Record :=
  (List.range count).flatMap (lookedAt q stores pageSize)

theorem lt_ceil {pageSize count total : Nat} (hpos : 0 < pageSize)
    (h : count * pageSize < total) : count < (total + pageSize - 1) / pageSize := by
  have hle : (count + 1) * pageSize ≤ total + pageSize - 1 := by
    rw [Nat.succ_mul]
    omega
  exact (Nat.le_div_iff_mul_le hpos).mpr hle

theorem ceil_le {pageSize count total : Nat} (hpos : 0 < pageSize)
    (h : total ≤ count * pageSize) : (total + pageSize - 1) / pageSize ≤ count := by
  refine Nat.le_of_lt_succ ((Nat.div_lt_iff_lt_mul hpos).mpr ?_)
  rw [Nat.succ_mul]
  omega

namespace Draining

variable {q : Request} {stores : Nat → MemoryStore} {t : Table} {keep : Record → Bool}
  {pageSize : Nat}

/-! ## The stores -/

theorem puts_of_le (h : Draining q stores t keep pageSize) {i j : Nat} (hle : i ≤ j) :
    (stores i).Puts (stores j) := by
  induction hle with
  | refl => exact .refl
  | step _ ih => exact Relation.ReflTransGen.trans ih (h.puts _)

theorem pageSize_pos (h : Draining q stores t keep pageSize) : 0 < pageSize :=
  h.pageSize ▸ (stores 0).pageSize_pos

theorem pageSize_eq (h : Draining q stores t keep pageSize) (k : Nat) :
    (stores k).pageSize = pageSize := by
  rw [(h.puts_of_le (Nat.zero_le k)).pageSize, h.pageSize]

theorem table_at (h : Draining q stores t keep pageSize) (k : Nat) :
    ∃ t', (stores k).tables.get? q.table = some t' ∧ t.Puts t' :=
  (h.puts_of_le (Nat.zero_le k)).table h.table

theorem table_of_le (h : Draining q stores t keep pageSize) {i j : Nat} (hle : i ≤ j) :
    ∃ t₁ t₂ : Table, (stores i).records q.table = t₁.records ∧ (stores j).records q.table = t₂.records ∧
      t₁.Puts t₂ ∧ t₁.schema = t.schema ∧ t₂.schema = t.schema ∧ t₂.KeysApart := by
  obtain ⟨t₁, ht₁, hputs₁⟩ := h.table_at i
  obtain ⟨t₂, ht₂, hputs₂⟩ := (h.puts_of_le hle).table ht₁
  have hputs := Relation.ReflTransGen.trans hputs₁ hputs₂
  exact ⟨t₁, t₂, records_of_get? ht₁, records_of_get? ht₂, hputs₂, hputs₁.schema,
    Table.Puts.schema hputs, h.keysApart.puts hputs⟩

theorem count_le_count (h : Draining q stores t keep pageSize) {i j : Nat} (hle : i ≤ j) :
    (stores i).count q.table ≤ (stores j).count q.table := by
  obtain ⟨t₁, t₂, h₁, h₂, hputs, _⟩ := h.table_of_le hle
  rw [count_eq_length_records, count_eq_length_records, h₁, h₂]
  exact hputs.length_le

/-- A position keeps its record, or gets another one of the same primary key. -/
theorem records_of_le (h : Draining q stores t keep pageSize) {i j : Nat} (hle : i ≤ j)
    {position : Nat} {a : Record} (ha : ((stores i).records q.table)[position]? = some a) :
    ∃ b, ((stores j).records q.table)[position]? = some b ∧
      (a = b ∨ t.schema.samePrimaryKey a b = true) := by
  obtain ⟨t₁, t₂, h₁, h₂, hputs, hschema, _⟩ := h.table_of_le hle
  rw [h₁] at ha
  rw [h₂, ← hschema]
  exact hputs.getElem? ha

theorem eq_of_samePrimaryKey (h : Draining q stores t keep pageSize) {k i j : Nat}
    {a b : Record} (ha : ((stores k).records q.table)[i]? = some a)
    (hb : ((stores k).records q.table)[j]? = some b)
    (hsame : t.schema.samePrimaryKey a b = true) : i = j := by
  obtain ⟨_, t', _, ht', _, _, hschema, hapart⟩ := h.table_of_le (Nat.le_refl k)
  rw [ht'] at ha hb
  rw [← hschema] at hsame
  exact hapart.eq_of_samePrimaryKey ha hb hsame

/-! ## One page after another -/

theorem readPage_eq (h : Draining q stores t keep pageSize) {k : Nat} {cursor : Option Cursor}
    (hstart : Table.start cursor = .ok (k * pageSize)) :
    (stores k).readPage (q.behind cursor) = .ok (pageAt q stores keep pageSize k) := by
  obtain ⟨selection, hselect, hselects⟩ := h.accepted
  obtain ⟨t', htable, hputs⟩ := h.table_at k
  have hselect' : t'.select (q.behind cursor) = .ok selection := by
    rw [← hselect]
    simp only [Table.select, Table.keyNames, Request.behind, hputs.schema]
  have hpage := Table.readPage_eq_pageOf hselect' hselects hstart (stores k).pageSize
  have hrecords := records_of_get? htable
  have hcount : (stores k).count q.table = t'.records.length := by
    rw [count_eq_length_records, hrecords]
  have hfound : (stores k).tables.get? (q.behind cursor).table = some t' := htable
  rw [readPage_of_get? hfound, hpage, h.pageSize_eq]
  simp only [Table.pageOf, pageAt, lookedAt, hrecords, hcount, Nat.succ_mul]

/--
A drain gives page after page as long as there are cursors.  It stops at its limit,
or at a page that records do not follow.
-/
theorem drain_eq (h : Draining q stores t keep pageSize) (limit : Nat) {k : Nat}
    {cursor : Option Cursor} (hstart : Table.start cursor = .ok (k * pageSize)) :
    ∃ count ≤ limit,
      drain q stores limit k cursor =
        .ok ((List.range' k count).map (pageAt q stores keep pageSize)) ∧
      (∀ j, k ≤ j → j + 1 < k + count → (j + 1) * pageSize < (stores j).count q.table) ∧
      (count = limit ∨
        0 < count ∧ (stores (k + count - 1)).count q.table ≤ (k + count) * pageSize) := by
  induction limit generalizing k cursor with
  | zero => exact ⟨0, Nat.le_refl 0, rfl, fun j hj hlt => by omega, .inl rfl⟩
  | succ limit ih =>
      rw [drain, h.readPage_eq hstart, ok_bind]
      by_cases hmore : (k + 1) * pageSize < (stores k).count q.table
      · have hnext : Table.start (some (.ofPosition ((k + 1) * pageSize))) =
            .ok ((k + 1) * pageSize) := by
          have hbound := h.bound k
          rw [Table.start, Cursor.position?_ofPosition (by omega)]
        obtain ⟨count, hle, hdrain, hfull, hend⟩ := ih hnext
        refine ⟨count + 1, by omega, ?_, ?_, ?_⟩
        · simp only [pageAt, if_pos hmore, hdrain, ok_bind, List.range'_succ, List.map_cons]
        · intro j hj hlt
          rcases Nat.eq_or_lt_of_le hj with rfl | hj
          · exact hmore
          · exact hfull j hj (by omega)
        · have hnumber : k + 1 + count = k + (count + 1) := by omega
          rw [hnumber] at hend
          rcases hend with hlimit | ⟨_, hend⟩
          · exact .inl (by omega)
          · exact .inr ⟨by omega, hend⟩
      · refine ⟨1, by omega, ?_, fun j hj hlt => by omega, .inr ⟨by omega, Nat.le_of_not_lt hmore⟩⟩
        simp [pageAt, if_neg hmore]

/-! ## The positions that pages look at -/

/-- Pages that records follow look at a full stretch of positions each. -/
theorem length_lookedUntil {count : Nat}
    (hfull : ∀ j < count, (j + 1) * pageSize < (stores j).count q.table) :
    (lookedUntil q stores pageSize count).length = count * pageSize := by
  induction count with
  | zero => simp [lookedUntil]
  | succ count ih =>
      have hlast := hfull count (Nat.lt_succ_self count)
      have hbefore := ih fun j hj => hfull j (by omega)
      rw [count_eq_length_records, Nat.succ_mul] at hlast
      unfold lookedUntil at hbefore ⊢
      rw [List.range_succ, List.flatMap_append, List.length_append, hbefore, Nat.succ_mul]
      simp only [List.flatMap_singleton, lookedAt, List.length_take, List.length_drop]
      omega

theorem lookedUntil_succ (count : Nat) :
    lookedUntil q stores pageSize (count + 1) =
      lookedUntil q stores pageSize count ++ lookedAt q stores pageSize count := by
  simp [lookedUntil, List.range_succ]

theorem length_lookedUntil_succ (h : Draining q stores t keep pageSize) {count : Nat}
    (hfull : ∀ j < count, (j + 1) * pageSize < (stores j).count q.table) :
    (lookedUntil q stores pageSize (count + 1)).length =
      min ((count + 1) * pageSize) ((stores count).count q.table) := by
  have hbefore : count * pageSize ≤ (stores count).count q.table := by
    cases count with
    | zero => simp
    | succ count =>
        have hlast := hfull count (Nat.lt_succ_self count)
        have hgrown := h.count_le_count (Nat.le_add_right count 1)
        omega
  rw [lookedUntil_succ, List.length_append, length_lookedUntil hfull, lookedAt, List.length_take,
    List.length_drop, ← count_eq_length_records, Nat.succ_mul]
  omega

/-- The records looked at are those at positions 0, 1, 2, ..., each when its page was read. -/
theorem getElem?_lookedUntil (h : Draining q stores t keep pageSize) {count : Nat}
    (hfull : ∀ j, j + 1 < count → (j + 1) * pageSize < (stores j).count q.table) {i : Nat}
    (hi : i < count * pageSize) :
    (lookedUntil q stores pageSize count)[i]? =
      ((stores (i / pageSize)).records q.table)[i]? := by
  induction count with
  | zero => omega
  | succ count ih =>
      have hlength : (lookedUntil q stores pageSize count).length = count * pageSize :=
        length_lookedUntil fun j hj => hfull j (by omega)
      rw [lookedUntil_succ]
      rw [Nat.succ_mul] at hi
      by_cases hbefore : i < count * pageSize
      · rw [List.getElem?_append_left (by omega)]
        exact ih (fun j hj => hfull j (by omega)) hbefore
      · have hnumber : i / pageSize = count := by
          rw [Nat.div_eq_iff h.pageSize_pos]
          omega
        rw [List.getElem?_append_right (by omega), hlength, hnumber, lookedAt,
          List.getElem?_take_of_lt (by omega), List.getElem?_drop]
        congr 1
        omega

theorem length_lookedUntil_le (q : Request) (stores : Nat → MemoryStore) (pageSize count : Nat) :
    (lookedUntil q stores pageSize count).length ≤ count * pageSize := by
  induction count with
  | zero => simp [lookedUntil]
  | succ count ih =>
      rw [lookedUntil_succ, List.length_append, Nat.succ_mul, lookedAt, List.length_take]
      omega

theorem records_of_lookedUntil (h : Draining q stores t keep pageSize) {count : Nat}
    (hfull : ∀ j, j + 1 < count → (j + 1) * pageSize < (stores j).count q.table) {i : Nat}
    {a : Record} (ha : (lookedUntil q stores pageSize count)[i]? = some a) :
    ((stores (i / pageSize)).records q.table)[i]? = some a := by
  obtain ⟨hi, _⟩ := List.getElem?_eq_some_iff.mp ha
  have hlength := length_lookedUntil_le q stores pageSize count
  rw [← h.getElem?_lookedUntil hfull (by omega), ha]

/-- No two records that a drain looks at have the same primary key. -/
theorem pairwise_lookedUntil (h : Draining q stores t keep pageSize) {count : Nat}
    (hfull : ∀ j, j + 1 < count → (j + 1) * pageSize < (stores j).count q.table) :
    (lookedUntil q stores pageSize count).Pairwise fun a b =>
      t.schema.samePrimaryKey a b = false := by
  refine List.pairwise_iff_getElem.mpr fun i j hi hj hlt => ?_
  have ha := h.records_of_lookedUntil hfull (List.getElem?_eq_getElem hi)
  have hb := h.records_of_lookedUntil hfull (List.getElem?_eq_getElem hj)
  have hle : i / pageSize ≤ j / pageSize := Nat.div_le_div_right (Nat.le_of_lt hlt)
  obtain ⟨c, hc, hac⟩ := h.records_of_le hle ha
  -- the later store still has the key of the earlier position, and has it there only
  refine Bool.eq_false_iff.mpr fun hsame => ?_
  have hkey : t.schema.samePrimaryKey c (lookedUntil q stores pageSize count)[j] = true := by
    rcases hac with heq | hac
    · exact heq ▸ hsame
    · exact KeySchema.samePrimaryKey_trans (KeySchema.samePrimaryKey_symm hac) hsame
  have heq := h.eq_of_samePrimaryKey hc hb hkey
  omega

/-- A record that stays in the table is looked at where it stands. -/
theorem lookedUntil_of_stays (h : Draining q stores t keep pageSize) {count : Nat}
    (hfull : ∀ j, j + 1 < count → (j + 1) * pageSize < (stores j).count q.table) {r : Record}
    (hstays : ∀ k < count, r ∈ (stores k).records q.table) {i : Nat}
    (hfirst : ((stores 0).records q.table)[i]? = some r) (hi : i < count * pageSize) :
    (lookedUntil q stores pageSize count)[i]? = some r := by
  rw [h.getElem?_lookedUntil hfull hi]
  obtain ⟨b, hb, hsame⟩ := h.records_of_le (Nat.zero_le (i / pageSize)) hfirst
  rcases hsame with rfl | hsame
  · exact hb
  · have hnumber : i / pageSize < count := (Nat.div_lt_iff_lt_mul h.pageSize_pos).mpr hi
    obtain ⟨j, hj⟩ := List.mem_iff_getElem?.mp (hstays _ hnumber)
    have heq := h.eq_of_samePrimaryKey hj hb hsame
    rw [heq, hb] at hj
    rw [hb, hj]

/-! ## The number of pages -/

/-- Pages before the last one are full, so they are not more than the records need. -/
theorem count_le (h : Draining q stores t keep pageSize) {count total : Nat}
    (hfull : ∀ j, j + 1 < count → (j + 1) * pageSize < (stores j).count q.table)
    (htotal : ∀ k < count, (stores k).count q.table ≤ total) :
    count ≤ max 1 ((total + pageSize - 1) / pageSize) := by
  match count with
  | 0 => omega
  | 1 => omega
  | count + 2 =>
      have hlast := hfull count (by omega)
      have hcount := htotal count (by omega)
      have hlt := lt_ceil h.pageSize_pos (Nat.lt_of_lt_of_le hlast hcount)
      omega

theorem count_eq_of_ended (h : Draining q stores t keep pageSize) {count : Nat}
    (hfull : ∀ j, j + 1 < count → (j + 1) * pageSize < (stores j).count q.table)
    (hpos : 0 < count) (hend : (stores (count - 1)).count q.table ≤ count * pageSize) :
    count = max 1 (((stores (count - 1)).count q.table + pageSize - 1) / pageSize) := by
  have hle := h.count_le hfull fun k hk => h.count_le_count (Nat.le_sub_one_of_lt hk)
  have hge := ceil_le h.pageSize_pos hend
  omega

/-! ## What is returned -/

theorem records_pages (q : Request) (stores : Nat → MemoryStore) (keep : Record → Bool)
    (pageSize count : Nat) :
    ((List.range count).map (pageAt q stores keep pageSize)).flatMap Page.records =
      (lookedUntil q stores pageSize count).filter keep := by
  simp [lookedUntil, List.flatMap_map, List.filter_flatMap, pageAt]

theorem ended_iff {count : Nat} :
    Ended ((List.range count).map (pageAt q stores keep pageSize)) ↔
      0 < count ∧ (stores (count - 1)).count q.table ≤ count * pageSize := by
  cases count with
  | zero => simp [Ended]
  | succ count => simp [Ended, List.range_succ, pageAt]

theorem pairwise_cursors (h : Draining q stores t keep pageSize) (count : Nat) :
    (((List.range count).map (pageAt q stores keep pageSize)).filterMap Page.cursor).Pairwise
      Cursor.Precedes := by
  rw [List.pairwise_filterMap, List.pairwise_map]
  refine List.pairwise_lt_range.imp fun {i j} hlt a ha b hb => ?_
  have hi := h.bound i
  have hj := h.bound j
  have hmono : (i + 1) * pageSize < (j + 1) * pageSize :=
    Nat.mul_lt_mul_of_pos_right (by omega) h.pageSize_pos
  simp only [pageAt, Option.ite_none_right_eq_some, Option.some.injEq] at ha hb
  obtain ⟨ha, rfl⟩ := ha
  obtain ⟨hb, rfl⟩ := hb
  exact ⟨_, _, Cursor.position?_ofPosition (by omega), Cursor.position?_ofPosition (by omega),
    hmono⟩

/-- A record that stays and passes is returned, and no other record of its primary key is. -/
theorem exists_returned_once (h : Draining q stores t keep pageSize) {count : Nat}
    (hfull : ∀ j, j + 1 < count → (j + 1) * pageSize < (stores j).count q.table)
    (hend : (stores (count - 1)).count q.table ≤ count * pageSize) {r : Record}
    (hr : r ∈ t.records) (hkeep : keep r = true)
    (hstays : ∀ k < count, r ∈ (stores k).records q.table) :
    ∃ before after, (lookedUntil q stores pageSize count).filter keep = before ++ r :: after ∧
      ∀ other ∈ before ++ after, t.schema.samePrimaryKey r other = false := by
  obtain ⟨i, hi⟩ := List.mem_iff_getElem?.mp hr
  have hfirst : ((stores 0).records q.table)[i]? = some r := by
    rw [records_of_get? h.table, hi]
  have hlt : i < count * pageSize := by
    obtain ⟨hlt, _⟩ := List.getElem?_eq_some_iff.mp hfirst
    have hgrown := h.count_le_count (Nat.zero_le (count - 1))
    rw [count_eq_length_records] at hgrown
    omega
  have hlooked := h.lookedUntil_of_stays hfull hstays hfirst hlt
  have hmem : r ∈ (lookedUntil q stores pageSize count).filter keep :=
    List.mem_filter.mpr ⟨List.mem_iff_getElem?.mpr ⟨i, hlooked⟩, hkeep⟩
  have hpairwise := (h.pairwise_lookedUntil hfull).filter keep
  obtain ⟨before, after, heq⟩ := List.append_of_mem hmem
  rw [heq] at hpairwise
  obtain ⟨_, hafter, hbefore⟩ := List.pairwise_append.mp hpairwise
  refine ⟨before, after, heq, fun other hother => ?_⟩
  rcases List.mem_append.mp hother with hother | hother
  · refine Bool.eq_false_iff.mpr fun hsame => ?_
    have hdiffer := hbefore other hother r List.mem_cons_self
    rw [KeySchema.samePrimaryKey_symm hsame] at hdiffer
    cases hdiffer
  · exact (List.pairwise_cons.mp hafter).1 other hother

end Draining

/--
A drain of any accepted request, by key or by a scan, over a table that was filled
by puts and is put to between the pages.  It looks at one position after another,
each as it is when its page is read, and returns those that pass the conditions of
the request.  No primary key comes back twice, the cursors increase, and a record
that stays in the table and passes comes back once.  A drain that ends has looked
at every position, in as many pages as that takes; it ends within its limit if
few enough records are added.
-/
theorem drain_between_puts {q : Request} {stores : Nat → MemoryStore} {t : Table}
    {selection : Selection} {keep : Record → Bool} {pageSize : Nat}
    (hreachable : (stores 0).Reachable) (htable : (stores 0).tables.get? q.table = some t)
    (hselect : t.select q = .ok selection)
    (hselects : ∀ r, selection.selects q.bindings r = .ok (keep r))
    (hsize : (stores 0).pageSize = pageSize) (hputs : ∀ k, (stores k).Puts (stores (k + 1)))
    (hbound : ∀ k, (stores k).count q.table ≤ 2 ^ 64) (limit : Nat) :
    ∃ (pages : List Page) (looked : List Record), drain q stores limit 0 none = .ok pages ∧
      looked.length =
        min (pages.length * pageSize) ((stores (pages.length - 1)).count q.table) ∧
      (∀ i < looked.length, looked[i]? = ((stores (i / pageSize)).records q.table)[i]?) ∧
      pages.flatMap Page.records = looked.filter keep ∧
      (pages.flatMap Page.records).Pairwise (fun a b => t.schema.samePrimaryKey a b = false) ∧
      (pages.filterMap Page.cursor).Pairwise Cursor.Precedes ∧
      (Ended pages → ∀ r ∈ t.records, keep r = true →
        (∀ k < pages.length, r ∈ (stores k).records q.table) →
        ∃ before after, pages.flatMap Page.records = before ++ r :: after ∧
          ∀ other ∈ before ++ after, t.schema.samePrimaryKey r other = false) ∧
      (Ended pages → ∀ m, (stores (pages.length - 1)).count q.table = t.records.length + m →
        looked.length = t.records.length + m ∧
          pages.length = max 1 ((t.records.length + m + pageSize - 1) / pageSize)) ∧
      ∀ m, (∀ k < limit, (stores k).count q.table ≤ t.records.length + m) →
        max 1 ((t.records.length + m + pageSize - 1) / pageSize) ≤ limit →
        Ended pages ∧
          pages.length ≤ max 1 ((t.records.length + m + pageSize - 1) / pageSize) := by
  have h : Draining q stores t keep pageSize :=
    ⟨htable, hreachable.keysApart htable, ⟨selection, hselect, hselects⟩, hsize, hputs, hbound⟩
  have hstart : Table.start none = .ok (0 * pageSize) := by simp [Table.start]
  obtain ⟨count, hle, hdrain, hfull, hend⟩ := h.drain_eq limit hstart
  simp only [Nat.zero_add, Nat.zero_le, true_implies, ← List.range_eq_range'] at hdrain hfull hend
  have hlooked : (lookedUntil q stores pageSize count).length =
      min (count * pageSize) ((stores (count - 1)).count q.table) := by
    cases count with
    | zero => simp [lookedUntil]
    | succ count => exact h.length_lookedUntil_succ fun j hj => hfull j (by omega)
  refine ⟨_, lookedUntil q stores pageSize count, hdrain, ?_⟩
  rw [Draining.records_pages, List.length_map, List.length_range, Draining.ended_iff]
  refine ⟨hlooked, ?_, rfl, (h.pairwise_lookedUntil hfull).filter keep, h.pairwise_cursors count,
    ?_, ?_, ?_⟩
  · intro i hi
    exact h.getElem?_lookedUntil hfull (by omega)
  · rintro ⟨_, hall⟩ r hr hkeep hstays
    exact h.exists_returned_once hfull hall hr hkeep hstays
  · rintro ⟨hpos, hall⟩ m hm
    rw [hlooked, ← hm]
    exact ⟨by omega, h.count_eq_of_ended hfull hpos hall⟩
  · intro m hm hlimit
    refine ⟨?_, h.count_le hfull fun k hk => hm k (by omega)⟩
    rcases hend with rfl | hend
    · refine ⟨by omega, Nat.le_of_not_lt fun hmore => ?_⟩
      have hfew := hm (count - 1) (by omega)
      have hlt := lt_ceil h.pageSize_pos (Nat.lt_of_lt_of_le hmore hfew)
      omega
    · exact hend

/-- A store that looks at one record at a time. -/
def narrow (records : List Record) : MemoryStore :=
  ⟨1, Dict.empty.insert "t" ⟨.ofHashKey "id" .string, records⟩, Nat.one_pos⟩

def numbered (id : String) (n : Int64) : Record :=
  Dict.ofList [("id", .string id), ("n", .int n)]

/-- Behind the first page its record is replaced and another one is added. -/
def growing : Nat → MemoryStore
  | 0 => narrow [numbered "a" 1, numbered "b" 1]
  | _ + 1 => narrow [numbered "a" 2, numbered "b" 1, numbered "c" 1]

/-- A scan for the records with the number one. -/
def scanOfOnes : Request :=
  ⟨"t", .scan, some "#N = :n",
    ⟨Dict.empty.insert "#N" "n", Dict.empty.insert ":n" (.int 1)⟩, none⟩

theorem selects_scanOfOnes (r : Record) :
    (Selection.mk none none (some (.compare (.path "#N") .eq (.value ":n")))).selects
      scanOfOnes.bindings r = .ok ((Condition.equals (.int 1)).holds r "n") := by
  have hname : scanOfOnes.bindings.attributeName "#N" = .ok "n" := rfl
  have hvalue : scanOfOnes.bindings.values.get? ":n" = some (.int 1) := rfl
  simp only [Selection.selects, Selection.passes, Bindings.eval, Bindings.resolve, hname, hvalue,
    ok_bind, Option.all_none, if_true, Condition.holds]
  cases r.present? "n" <;> rfl

theorem puts_growing (k : Nat) : (growing k).Puts (growing (k + 1)) := by
  cases k with
  | zero =>
      have hreplace : (growing 0).put "t" (numbered "a" 2) =
          .ok (narrow [numbered "a" 2, numbered "b" 1]) := rfl
      have hadd : (narrow [numbered "a" 2, numbered "b" 1]).put "t" (numbered "c" 1) =
          .ok (growing 1) := rfl
      exact .tail (.single ⟨_, _, hreplace⟩) ⟨_, _, hadd⟩
  | succ k => exact .refl

theorem reachable_growing : (growing 0).Reachable := by
  have hfirst : ((ofPageSize 1).createTable "t" (.ofHashKey "id" .string)).put "t"
      (numbered "a" 1) = .ok (narrow [numbered "a" 1]) := rfl
  have hsecond : (narrow [numbered "a" 1]).put "t" (numbered "b" 1) = .ok (growing 0) := rfl
  exact .put (.put (.createTable (.start 1) _ _) hfirst) hsecond

theorem drain_between_puts_growing :
    ∃ pages, drain scanOfOnes growing 3 0 none = .ok pages ∧ Ended pages ∧
      pages.flatMap Page.records = [numbered "a" 1, numbered "b" 1, numbered "c" 1] ∧
      ∃ before after, pages.flatMap Page.records = before ++ numbered "b" 1 :: after ∧
        ∀ other ∈ before ++ after,
          (KeySchema.ofHashKey "id" .string).samePrimaryKey (numbered "b" 1) other = false := by
  have hbound : ∀ k, (growing k).count scanOfOnes.table ≤ 2 ^ 64 := by
    intro k
    cases k with
    | zero => decide
    | succ k => exact (by decide : (growing 1).count scanOfOnes.table ≤ 2 ^ 64)
  obtain ⟨pages, looked, hdrain, _, _, _, _, _, honce, _, hends⟩ :=
    drain_between_puts (t := ⟨.ofHashKey "id" .string, [numbered "a" 1, numbered "b" 1]⟩)
      reachable_growing rfl rfl selects_scanOfOnes rfl puts_growing hbound 3
  obtain ⟨hended, _⟩ := hends 1 (by decide) (by decide)
  have hrun : drain scanOfOnes growing 3 0 none =
      .ok [⟨[numbered "a" 1], some (.ofPosition 1)⟩, ⟨[numbered "b" 1], some (.ofPosition 2)⟩,
        ⟨[numbered "c" 1], none⟩] := rfl
  rw [hrun] at hdrain
  cases hdrain
  have hstays : ∀ k < 3, numbered "b" 1 ∈ (growing k).records scanOfOnes.table := by
    intro k hk
    cases k with
    | zero => exact .tail _ (.head _)
    | succ k => exact .tail _ (.head _)
  exact ⟨_, hrun, hended, rfl, honce hended _ (.tail _ (.head _)) rfl hstays⟩

end MemoryStore

end KeyedQuery
