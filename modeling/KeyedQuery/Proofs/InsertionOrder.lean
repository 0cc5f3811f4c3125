import Mathlib.Data.List.Basic
import Mathlib.Data.List.Induction
import KeyedQuery.Store.Memory

/-!
# Maps in insertion order

A list that is changed by replacing or appending is a map that remembers the order
of first insertion: for each kind of element it holds the last one, at the place of
the first one.  What is of one kind is said by a test under which an element need
not be like itself; such an element replaces nothing and is never replaced.
-/

namespace KeyedQuery

/-! ## Replacing or appending -/

/-- A symmetric and transitive test; an element need not be like itself. -/
structure Likeness {α : Type} (like : α → α → Bool) : Prop where
  symm : ∀ {a b}, like a b = true → like b a = true
  trans : ∀ {a b c}, like a b = true → like b c = true → like a c = true

namespace Likeness

variable {α : Type} {like : α → α → Bool}

theorem comm (h : Likeness like) (a b : α) : like a b = like b a :=
  Bool.eq_iff_iff.mpr ⟨h.symm, h.symm⟩

/-- Elements that are like each other are like the same elements. -/
theorem congr (h : Likeness like) {a b : α} (hab : like a b = true) (c : α) :
    like a c = like b c :=
  Bool.eq_iff_iff.mpr ⟨h.trans (h.symm hab), h.trans hab⟩

/-- Of unlike elements at most one is like a third. -/
theorem unlike_of_like (h : Likeness like) {a b c : α} (hac : like a c = true)
    (hab : like a b = false) : like b c = false := by
  rw [h.comm, ← h.congr hac]
  exact hab

end Likeness

section ReplaceOrAppend

variable {α : Type} {like : α → α → Bool} {x : α} {xs : List α}

theorem length_le_replaceOrAppend (like : α → α → Bool) (x : α) (xs : List α) :
    xs.length ≤ (replaceOrAppend like x xs).length := by
  induction xs with
  | nil => simp
  | cons y rest ih =>
      rw [replaceOrAppend_cons]
      split
      · exact Nat.le_refl _
      · simpa using ih

theorem mem_replaceOrAppend {y : α} (h : y ∈ replaceOrAppend like x xs) : y = x ∨ y ∈ xs := by
  induction xs with
  | nil => simpa using h
  | cons z rest ih =>
      rw [replaceOrAppend_cons] at h
      split at h
      · rcases List.mem_cons.mp h with h | h
        · exact .inl h
        · exact .inr (List.mem_cons_of_mem z h)
      · rcases List.mem_cons.mp h with rfl | h
        · exact .inr List.mem_cons_self
        · exact (ih h).imp_right (List.mem_cons_of_mem z)

/-- An element keeps its place, or is replaced there by one that it is like. -/
theorem getElem?_replaceOrAppend (like : α → α → Bool) (x : α) {i : Nat} {y : α}
    (h : xs[i]? = some y) :
    ∃ z, (replaceOrAppend like x xs)[i]? = some z ∧ (y = z ∨ like y z = true) := by
  induction xs generalizing i with
  | nil => simp at h
  | cons first rest ih =>
      rw [replaceOrAppend_cons]
      split
      · rename_i hlike
        cases i with
        | zero =>
            cases h
            exact ⟨x, rfl, .inr hlike⟩
        | succ i => exact ⟨y, h, .inl rfl⟩
      · cases i with
        | zero => exact ⟨y, h, .inl rfl⟩
        | succ i => exact ih h

theorem pairwise_replaceOrAppend (hlike : Likeness like)
    (h : xs.Pairwise fun a b => like a b = false) :
    (replaceOrAppend like x xs).Pairwise fun a b => like a b = false := by
  induction xs with
  | nil => exact List.pairwise_singleton _ _
  | cons y rest ih =>
      obtain ⟨hy, hrest⟩ := List.pairwise_cons.mp h
      rw [replaceOrAppend_cons]
      split
      · rename_i hyx
        refine List.pairwise_cons.mpr ⟨fun b hb => ?_, hrest⟩
        rw [← hlike.congr hyx]
        exact hy b hb
      · rename_i hunlike
        refine List.pairwise_cons.mpr ⟨fun b hb => ?_, ih hrest⟩
        rcases mem_replaceOrAppend hb with rfl | hb
        · exact Bool.eq_false_iff.mpr hunlike
        · exact hy b hb

end ReplaceOrAppend

/-! ## Maps in insertion order -/

section InsertionOrder

variable {α : Type} {like : α → α → Bool} {xs : List α}

/-- The elements that no earlier element is like. -/
def firstOfEach (like : α → α → Bool) : List α → List α
  | [] => []
  | x :: rest => x :: (firstOfEach like rest).filter fun y => !like x y

theorem firstOfEach_cons (like : α → α → Bool) (x : α) (rest : List α) :
    firstOfEach like (x :: rest) = x :: (firstOfEach like rest).filter fun y => !like x y :=
  rfl

/-- The last element that is like `x`; where there is none, `x` itself. -/
def lastLike (like : α → α → Bool) (xs : List α) (x : α) : α :=
  (xs.reverse.find? (like x)).getD x

/-- For each first element the last one that is like it, in the order of the first ones. -/
def insertionOrder (like : α → α → Bool) (xs : List α) : List α :=
  (firstOfEach like xs).map (lastLike like xs)

theorem firstOfEach_append (like : α → α → Bool) (xs ys : List α) :
    firstOfEach like (xs ++ ys) =
      firstOfEach like xs ++ (firstOfEach like ys).filter fun y => !xs.any (like · y) := by
  induction xs with
  | nil => exact (List.filter_eq_self.mpr fun _ _ => rfl).symm
  | cons x rest ih =>
      rw [List.cons_append, firstOfEach_cons, ih, firstOfEach_cons, List.filter_append,
        List.filter_filter]
      simp only [List.any_cons, Bool.not_or, List.cons_append]

theorem firstOfEach_append_singleton (like : α → α → Bool) (xs : List α) (x : α) :
    firstOfEach like (xs ++ [x]) =
      if xs.any (like · x) then firstOfEach like xs else firstOfEach like xs ++ [x] := by
  have hone : firstOfEach like [x] = [x] := rfl
  rw [firstOfEach_append, hone]
  by_cases hany : xs.any (like · x) = true
  · simp [hany]
  · simp [hany]

theorem lastLike_append_singleton (like : α → α → Bool) (xs : List α) (x y : α) :
    lastLike like (xs ++ [x]) y = if like y x then x else lastLike like xs y := by
  unfold lastLike
  rw [List.reverse_append, List.reverse_singleton, List.singleton_append, List.find?_cons]
  cases like y x <;> rfl

theorem pairwise_firstOfEach (like : α → α → Bool) (xs : List α) :
    (firstOfEach like xs).Pairwise fun a b => like a b = false := by
  induction xs with
  | nil => exact .nil
  | cons x rest ih =>
      refine List.pairwise_cons.mpr ⟨fun y hy => ?_, ih.filter _⟩
      simpa using (List.mem_filter.mp hy).2

theorem mem_of_mem_firstOfEach {x : α} (h : x ∈ firstOfEach like xs) : x ∈ xs := by
  induction xs with
  | nil => cases h
  | cons y rest ih =>
      rcases List.mem_cons.mp h with rfl | h
      · exact List.mem_cons_self
      · exact List.mem_cons_of_mem y (ih (List.mem_of_mem_filter h))

theorem lastLike_eq_or (like : α → α → Bool) (xs : List α) (x : α) :
    lastLike like xs x = x ∨ lastLike like xs x ∈ xs ∧ like x (lastLike like xs x) = true := by
  unfold lastLike
  cases hfind : xs.reverse.find? (like x) with
  | none => exact .inl rfl
  | some y =>
      exact .inr ⟨List.mem_reverse.mp (List.mem_of_find?_eq_some hfind), List.find?_some hfind⟩

theorem mem_of_mem_insertionOrder {x : α} (h : x ∈ insertionOrder like xs) : x ∈ xs := by
  obtain ⟨first, hfirst, rfl⟩ := List.mem_map.mp h
  rcases lastLike_eq_or like xs first with heq | ⟨hmem, _⟩
  · rw [heq]
    exact mem_of_mem_firstOfEach hfirst
  · exact hmem

theorem like_lastLike (hlike : Likeness like) (xs : List α) (x y : α) :
    like (lastLike like xs x) y = like x y := by
  rcases lastLike_eq_or like xs x with heq | ⟨_, hlast⟩
  · rw [heq]
  · exact (hlike.congr hlast y).symm

theorem pairwise_insertionOrder (hlike : Likeness like) (xs : List α) :
    (insertionOrder like xs).Pairwise fun a b => like a b = false := by
  refine List.pairwise_map.mpr ((pairwise_firstOfEach like xs).imp fun {a b} hunlike => ?_)
  rw [like_lastLike hlike, hlike.comm, like_lastLike hlike, hlike.comm]
  exact hunlike

/-- What is like an element of the list is like a first one. -/
theorem any_insertionOrder (hlike : Likeness like) (xs : List α) (x : α) :
    (insertionOrder like xs).any (like · x) = xs.any (like · x) := by
  have hfirst : (firstOfEach like xs).any (like · x) = xs.any (like · x) := by
    induction xs with
    | nil => rfl
    | cons y rest ih =>
        rw [firstOfEach_cons, List.any_cons, List.any_cons, List.any_filter, ← ih]
        by_cases hy : like y x = true
        · simp [hy]
        · have hothers : ∀ z, (!like y z && like z x) = like z x := by
            intro z
            by_cases hz : like z x = true
            · have hyz : like y z = false :=
                Bool.eq_false_iff.mpr fun hyz => hy (hlike.trans hyz hz)
              simp [hyz]
            · simp [hz]
          simp [hothers]
  rw [← hfirst, insertionOrder, List.any_map]
  congr 1
  funext y
  exact like_lastLike hlike xs y x

/-- Among unlike elements at most one is replaced. -/
theorem replaceOrAppend_eq (hlike : Likeness like) (h : xs.Pairwise fun a b => like a b = false)
    (x : α) :
    replaceOrAppend like x xs =
      if xs.any (like · x) then xs.map fun y => if like y x then x else y else xs ++ [x] := by
  induction xs with
  | nil => rfl
  | cons y rest ih =>
      obtain ⟨hy, hrest⟩ := List.pairwise_cons.mp h
      rw [replaceOrAppend_cons]
      by_cases hyx : like y x = true
      · have hothers : rest.map (fun z => if like z x then x else z) = rest.map id :=
          List.map_congr_left fun z hz => by simp [hlike.unlike_of_like hyx (hy z hz)]
        simp [hyx, hothers]
      · rw [if_neg hyx, ih hrest]
        by_cases hany : rest.any (like · x) = true
        · simp [hyx, hany]
        · simp [hyx, hany]

/-- Replacing or appending one after the other keeps a map in insertion order. -/
theorem foldl_replaceOrAppend_eq (hlike : Likeness like) (xs : List α) :
    xs.foldl (fun held x => replaceOrAppend like x held) [] = insertionOrder like xs := by
  -- The induction is on the last element, which replaces or is appended.
  induction xs using List.reverseRecOn with
  | nil => rfl
  | append_singleton xs x ih =>
      rw [List.foldl_append, List.foldl_cons, List.foldl_nil, ih,
        replaceOrAppend_eq hlike (pairwise_insertionOrder hlike xs), any_insertionOrder hlike]
      have hlast : ∀ y, lastLike like (xs ++ [x]) y =
          if like (lastLike like xs y) x then x else lastLike like xs y := by
        intro y
        rw [lastLike_append_singleton, like_lastLike hlike]
      by_cases hany : xs.any (like · x) = true
      · rw [if_pos hany, insertionOrder, insertionOrder, firstOfEach_append_singleton,
          if_pos hany, List.map_map]
        exact List.map_congr_left fun y _ => (hlast y).symm
      · have hfresh : ∀ y ∈ xs, like y x = false := by
          simpa using hany
        have hself : lastLike like (xs ++ [x]) x = x := by
          rw [lastLike_append_singleton]
          rcases lastLike_eq_or like xs x with heq | ⟨hmem, hlast⟩
          · simp [heq]
          · rw [hlike.comm, hfresh _ hmem] at hlast
            cases hlast
        have hkept : (firstOfEach like xs).map (lastLike like (xs ++ [x])) =
            (firstOfEach like xs).map (lastLike like xs) := by
          refine List.map_congr_left fun y hy => ?_
          rw [lastLike_append_singleton, hfresh y (mem_of_mem_firstOfEach hy)]
          rfl
        rw [if_neg hany, insertionOrder, insertionOrder, firstOfEach_append_singleton,
          if_neg hany, List.map_append, hkept, List.map_singleton, hself]

end InsertionOrder

end KeyedQuery
