import KeyedQuery.Proofs.Expression.Operators
import KeyedQuery.Proofs.Store.Drain

/-!
# Pages behind any cursor

A cursor comes back from outside, so it may have any bytes.  Eight bytes are a position
and the position is the eight bytes, one by one; the position may be behind the records
or close to the largest word.  Computed with words of 64 bits, where a sum that does not
fit is cut off and a range out of bounds is empty, a page is the same as with numbers.
-/

namespace KeyedQuery

/-! ## Cursors and positions -/

namespace Cursor

variable {c : Cursor} {position : Nat}

theorem position?_eq_none_iff : c.position? = none ↔ c.bytes.length ≠ 8 := by
  simp [position?]

theorem eight_of_position? (h : c.position? = some position) :
    ∃ b₀ b₁ b₂ b₃ b₄ b₅ b₆ b₇ : UInt8, c.bytes = [b₀, b₁, b₂, b₃, b₄, b₅, b₆, b₇] := by
  have hlength : c.bytes.length = 8 := by
    by_contra hne
    rw [position?_eq_none_iff.mpr hne] at h
    cases h
  match hbytes : c.bytes, hlength with
  | [b₀, b₁, b₂, b₃, b₄, b₅, b₆, b₇], _ => exact ⟨b₀, b₁, b₂, b₃, b₄, b₅, b₆, b₇, rfl⟩

theorem position?_bounds (h : c.position? = some position) :
    position < 2 ^ 64 ∧ ofPosition position = c := by
  obtain ⟨b₀, b₁, b₂, b₃, b₄, b₅, b₆, b₇, hbytes⟩ := eight_of_position? h
  obtain ⟨bytes⟩ := c
  cases hbytes
  simp only [position?, List.length_cons, List.length_nil, List.foldl_cons, List.foldl_nil] at h
  rw [if_pos (by decide)] at h
  have hposition := (Option.some.inj h).symm
  have h₀ := b₀.toNat_lt
  have h₁ := b₁.toNat_lt
  have h₂ := b₂.toNat_lt
  have h₃ := b₃.toNat_lt
  have h₄ := b₄.toNat_lt
  have h₅ := b₅.toNat_lt
  have h₆ := b₆.toNat_lt
  have h₇ := b₇.toNat_lt
  constructor
  · omega
  · simp only [ofPosition, List.map_cons, List.map_nil, mk.injEq, List.cons.injEq, and_true,
      ← UInt8.toNat_inj, UInt8.toNat_ofNat']
    refine ⟨?_, ?_, ?_, ?_, ?_, ?_, ?_, ?_⟩ <;> omega

/-- Positions that fit into a word and cursors of eight bytes are the same. -/
theorem position?_eq_some_iff :
    c.position? = some position ↔ position < 2 ^ 64 ∧ c = ofPosition position := by
  constructor
  · intro h
    obtain ⟨hlt, heq⟩ := position?_bounds h
    exact ⟨hlt, heq.symm⟩
  · rintro ⟨hlt, rfl⟩
    exact position?_ofPosition hlt

end Cursor

/-! ## Words of 64 bits -/

namespace Word

/-- The sum of two words, or the largest word where the sum does not fit. -/
def saturatingAdd (a b : UInt64) : UInt64 :=
  if a + b < a then .ofNat (2 ^ 64 - 1) else a + b

theorem toNat_saturatingAdd (a b : UInt64) :
    (saturatingAdd a b).toNat = min (a.toNat + b.toNat) (2 ^ 64 - 1) := by
  have ha := a.toNat_lt
  have hb := b.toNat_lt
  have hsum : (a + b).toNat = (a.toNat + b.toNat) % 2 ^ 64 := UInt64.toNat_add a b
  unfold saturatingAdd
  split
  · rename_i hlt
    rw [UInt64.lt_iff_toNat_lt] at hlt
    have hlast : (UInt64.ofNat (2 ^ 64 - 1)).toNat = 2 ^ 64 - 1 := rfl
    omega
  · rename_i hge
    rw [UInt64.lt_iff_toNat_lt] at hge
    omega

theorem toNat_min (a b : UInt64) : (min a b).toNat = min a.toNat b.toNat := by
  show (if a ≤ b then a else b).toNat = _
  simp only [UInt64.le_iff_toNat_le]
  split <;> omega

/-- The elements between two bounds, which must be in order and in range. -/
def slice? {α : Type} (xs : List α) (first stop : UInt64) : Option (List α) :=
  if first ≤ stop ∧ stop.toNat ≤ xs.length then
    some ((xs.drop first.toNat).take (stop - first).toNat)
  else
    none

/-- A range that is out of order has no elements. -/
theorem getD_slice? {α : Type} {xs : List α} {first stop : UInt64} (h : stop.toNat ≤ xs.length) :
    (slice? xs first stop).getD [] = (xs.drop first.toNat).take (stop.toNat - first.toNat) := by
  unfold slice?
  split
  · rename_i hbounds
    rw [Option.getD_some, UInt64.toNat_sub_of_le _ _ hbounds.1]
  · rename_i hbounds
    have hlt : stop.toNat < first.toNat := by
      simpa [h, UInt64.le_iff_toNat_le] using hbounds
    have hzero : stop.toNat - first.toNat = 0 := by omega
    rw [hzero, List.take_zero]
    rfl

end Word

namespace Table

variable {t : Table} {q : Request}

/-- The page of a request, with sizes and positions in words of 64 bits. -/
def readPageInWords (t : Table) (pageSize : UInt64) (q : Request) : Except Rejection Page := do
  let selection ← t.select q
  let position ← start q.cursor
  let first := UInt64.ofNat position
  let count := UInt64.ofNat t.records.length
  let stop := min (Word.saturatingAdd first pageSize) count
  let looked := (Word.slice? t.records first stop).getD []
  match selectM (selection.selects q.bindings) looked with
  | .error e => .error (.expression e)
  | .ok records => .ok ⟨records, if stop < count then some (.ofPosition stop.toNat) else none⟩

theorem start_lt {cursor : Option Cursor} {position : Nat} (h : start cursor = .ok position) :
    position < 2 ^ 64 := by
  cases cursor with
  | none =>
      cases h
      decide
  | some c =>
      unfold start at h
      dsimp only at h
      split at h
      · rename_i found hfound
        cases h
        exact (Cursor.position?_bounds hfound).1
      · cases h

/-- No sum and no range of a page leaves the words: the page is the one of the numbers. -/
theorem readPageInWords_eq (hcount : t.records.length < 2 ^ 64) (pageSize : UInt64) :
    t.readPageInWords pageSize q = t.readPage pageSize.toNat q := by
  unfold readPageInWords readPage
  cases t.select q with
  | error why => rfl
  | ok selection =>
      rw [ok_bind, ok_bind]
      cases hstart : start q.cursor with
      | error why => rfl
      | ok position =>
          rw [ok_bind, ok_bind]
          dsimp only
          have hposition : (UInt64.ofNat position).toNat = position :=
            UInt64.toNat_ofNat_of_lt' (start_lt hstart)
          have hlength : (UInt64.ofNat t.records.length).toNat = t.records.length :=
            UInt64.toNat_ofNat_of_lt' hcount
          have hstop : (min (Word.saturatingAdd (.ofNat position) pageSize)
              (.ofNat t.records.length)).toNat =
                min (position + pageSize.toNat) t.records.length := by
            rw [Word.toNat_min, Word.toNat_saturatingAdd, hposition, hlength]
            -- Where the sum is cut off, it is still no less than the number of records.
            omega
          have hrange : min (position + pageSize.toNat) t.records.length ≤ t.records.length :=
            Nat.min_le_right _ _
          rw [Word.getD_slice? (by rwa [hstop]), hstop, hposition]
          cases selectM (selection.selects q.bindings) _ with
          | error e => rfl
          | ok records => simp only [UInt64.lt_iff_toNat_lt, hstop, hlength]

end Table

/-! ## Selections that resolve -/

namespace Selection

variable {s : Selection} {b : Bindings}

/-- Every operand of the expressions of a selection has a meaning under the tables. -/
def Resolves (s : Selection) (b : Bindings) : Prop :=
  ∀ e, e ∈ s.keyCondition ∨ e ∈ s.filter → b.Resolves e

/-- Whether a record is selected; where a test fails it is not. -/
def keeps (s : Selection) (b : Bindings) (r : Record) : Bool :=
  (s.selects b r).toOption.getD false

theorem exists_passes {e? : Option Expr} (h : ∀ e ∈ e?, b.Resolves e) (r : Record) :
    ∃ holds, passes b r e? = .ok holds := by
  cases e? with
  | none => exact ⟨true, rfl⟩
  | some e => exact (h e rfl).exists_eval r

/-- No test of a selection that resolves fails. -/
theorem Resolves.selects_eq (h : s.Resolves b) (r : Record) :
    s.selects b r = .ok (s.keeps b r) := by
  have hsome : ∃ holds, s.selects b r = .ok holds := by
    obtain ⟨key, hkey⟩ := exists_passes (fun e he => h e (.inl he)) r
    obtain ⟨filter, hfilter⟩ := exists_passes (fun e he => h e (.inr he)) r
    unfold selects
    split
    · rw [hkey, ok_bind]
      cases key with
      | false => exact ⟨false, rfl⟩
      | true => exact ⟨filter, hfilter⟩
    · exact ⟨false, rfl⟩
  obtain ⟨holds, hholds⟩ := hsome
  unfold keeps
  rw [hholds]
  rfl

end Selection

namespace Table

variable {t : Table} {q : Request} {pageSize : Nat} {why : Rejection}

theorem readPage_of_select_error (h : t.select q = .error why) :
    t.readPage pageSize q = .error why := by
  unfold readPage
  rw [h]
  rfl

/-- A cursor is looked at only after the texts of the request. -/
theorem readPage_of_start_error {selection : Selection} (hselect : t.select q = .ok selection)
    (h : start q.cursor = .error why) : t.readPage pageSize q = .error why := by
  unfold readPage
  rw [hselect, ok_bind, h]
  rfl

/-- A page of the records that follow a position, with a cursor where it stops short of the end. -/
structure PageFrom (t : Table) (keep : Record → Bool) (pageSize k : Nat) (page : Page) :
    Prop where
  records : page.records = ((t.records.drop k).take pageSize).filter keep
  between : ∀ r ∈ page.records, ∃ i, k ≤ i ∧ i < min (k + pageSize) t.records.length ∧
    t.records[i]? = some r
  behind : t.records.length ≤ k → page.records = []
  more : page.cursor.isSome = true ↔ k + pageSize < t.records.length
  next : ∀ next, page.cursor = some next →
    next = .ofPosition (k + pageSize) ∧ next.position? = some (k + pageSize)

theorem pageFrom_pageOf (hcount : t.records.length < 2 ^ 64) (keep : Record → Bool)
    (pageSize k : Nat) : t.PageFrom keep pageSize k (t.pageOf keep pageSize k) := by
  constructor
  · rfl
  · intro r hr
    obtain ⟨i, hi⟩ := List.mem_iff_getElem?.mp (List.mem_filter.mp hr).1
    rw [List.getElem?_take, List.getElem?_drop] at hi
    split at hi
    · have hrange := (List.getElem?_eq_some_iff.mp hi).1
      exact ⟨k + i, by omega, by omega, hi⟩
    · cases hi
  · intro hle
    simp [pageOf, List.drop_eq_nil_of_le hle]
  · unfold pageOf
    split <;> simp_all
  · intro next hnext
    unfold pageOf at hnext
    split at hnext
    · rename_i hmore
      cases hnext
      exact ⟨rfl, Cursor.position?_ofPosition (by omega)⟩
    · cases hnext

/-- The cursor of a page stands for a later position than the one that the page is from. -/
theorem PageFrom.precedes {keep : Record → Bool} {k : Nat} {page : Page} {c next : Cursor}
    (h : t.PageFrom keep pageSize k page) (hpos : 0 < pageSize) (hc : c.position? = some k)
    (hnext : page.cursor = some next) : c.Precedes next :=
  ⟨k, k + pageSize, hc, (h.next next hnext).2, Nat.lt_add_of_pos_right hpos⟩

end Table

theorem Cursor.Precedes.ne {a b : Cursor} (h : a.Precedes b) : b ≠ a := by
  rintro rfl
  obtain ⟨i, j, hi, hj, hlt⟩ := h
  rw [hi] at hj
  exact absurd (Option.some.inj hj) (Nat.ne_of_lt hlt)

namespace MemoryStore

/--
Any bytes may come as a cursor.  They are refused unless they are eight, and else the page
holds the selected ones of the records that follow their position.  It goes on strictly
behind that position, until there are no more records.
-/
theorem readPage_behind_cursor {s : MemoryStore} {t : Table} {q : Request}
    (htable : s.tables.get? q.table = some t) (hcount : t.records.length < 2 ^ 64)
    (hsize : s.pageSize < 2 ^ 64) (c : Cursor) :
    s.readPage (q.behind (some c)) =
        t.readPageInWords (.ofNat s.pageSize) (q.behind (some c)) ∧
      (c.position? = none ↔ c.bytes.length ≠ 8) ∧
      (∀ k, c.position? = some k ↔ k < 2 ^ 64 ∧ c = .ofPosition k) ∧
      (∀ why, t.select q = .error why → s.readPage (q.behind (some c)) = .error why) ∧
      ∀ selection, t.select q = .ok selection → selection.Resolves q.bindings →
        (c.bytes.length ≠ 8 → s.readPage (q.behind (some c)) = .error (.cursorMalformed c)) ∧
        ∀ k, c.position? = some k →
          ∃ page, s.readPage (q.behind (some c)) = .ok page ∧
            t.PageFrom (selection.keeps q.bindings) s.pageSize k page ∧
            ∀ next, page.cursor = some next → c.Precedes next ∧ next ≠ c := by
  have hfound : s.tables.get? (q.behind (some c)).table = some t := htable
  rw [readPage_of_get? hfound]
  refine ⟨?_, Cursor.position?_eq_none_iff, fun k => Cursor.position?_eq_some_iff,
    fun why hselect => Table.readPage_of_select_error hselect, ?_⟩
  · rw [Table.readPageInWords_eq hcount, UInt64.toNat_ofNat_of_lt' hsize]
  · intro selection hselect hresolves
    have hselect' : t.select (q.behind (some c)) = .ok selection := hselect
    constructor
    · intro hlength
      have hstart : Table.start (q.behind (some c)).cursor = .error (.cursorMalformed c) := by
        simp [Request.behind, Table.start, Cursor.position?_eq_none_iff.mpr hlength]
      exact Table.readPage_of_start_error hselect' hstart
    · intro k hk
      have hstart : Table.start (q.behind (some c)).cursor = .ok k := by
        simp [Request.behind, Table.start, hk]
      have hpage := Table.readPage_eq_pageOf hselect' hresolves.selects_eq hstart s.pageSize
      have hfrom := Table.pageFrom_pageOf hcount (selection.keeps q.bindings) s.pageSize k
      refine ⟨_, hpage, hfrom, fun next hnext => ?_⟩
      have hprecedes := hfrom.precedes s.pageSize_pos hk hnext
      exact ⟨hprecedes, hprecedes.ne⟩

/-- The second of two records, nothing behind the largest word, and no three bytes. -/
theorem readPage_behind_cursor_scanOfOnes :
    (∃ page, (growing 0).readPage (scanOfOnes.behind (some (.ofPosition 1))) = .ok page ∧
      page.records = [numbered "b" 1] ∧ page.cursor = none) ∧
    (∃ page, (growing 0).readPage (scanOfOnes.behind (some (.ofPosition (2 ^ 64 - 1)))) =
      .ok page ∧ page.records = []) ∧
    (growing 0).readPage (scanOfOnes.behind (some ⟨[0, 0, 1]⟩)) =
      .error (.cursorMalformed ⟨[0, 0, 1]⟩) := by
  let t : Table := ⟨.ofHashKey "id" .string, [numbered "a" 1, numbered "b" 1]⟩
  let selection : Selection := ⟨none, none, some (.compare (.path "#N") .eq (.value ":n"))⟩
  have htable : (growing 0).tables.get? scanOfOnes.table = some t := rfl
  have hcount : t.records.length < 2 ^ 64 := by decide
  have hsize : (growing 0).pageSize < 2 ^ 64 := by decide
  have hselect : t.select scanOfOnes = .ok selection := rfl
  have hresolves : selection.Resolves scanOfOnes.bindings := by
    rintro e (⟨⟨⟩⟩ | ⟨⟨⟩⟩) operand hoperand r
    rcases List.mem_pair.mp hoperand with rfl | rfl
    · exact ⟨_, rfl⟩
    · exact ⟨_, rfl⟩
  refine ⟨?_, ?_, ?_⟩
  · obtain ⟨_, _, _, _, hanswers⟩ := readPage_behind_cursor htable hcount hsize (.ofPosition 1)
    obtain ⟨page, hpage, hfrom, _⟩ := (hanswers selection hselect hresolves).2 1 rfl
    refine ⟨page, hpage, hfrom.records, ?_⟩
    have hlast : ¬ page.cursor.isSome = true := hfrom.more.not.mpr (by decide)
    simpa using hlast
  · obtain ⟨_, _, _, _, hanswers⟩ :=
      readPage_behind_cursor htable hcount hsize (.ofPosition (2 ^ 64 - 1))
    obtain ⟨page, hpage, hfrom, _⟩ :=
      (hanswers selection hselect hresolves).2 (2 ^ 64 - 1) (Cursor.position?_ofPosition (by decide))
    exact ⟨page, hpage, hfrom.behind (by decide)⟩
  · obtain ⟨_, _, _, _, hanswers⟩ := readPage_behind_cursor htable hcount hsize ⟨[0, 0, 1]⟩
    exact (hanswers selection hselect hresolves).1 (by decide)

end MemoryStore

end KeyedQuery
