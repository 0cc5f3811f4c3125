import KeyedQuery.Proofs.Sorting

/-!
# Stable sorts

A list has one rearrangement only that is in order and keeps equal elements in their
places among each other, and insertion finds it.  What the sort does to a list that is
in order already, and what two sorts after each other do, follows from that.
-/

namespace KeyedQuery

open Std

variable {α β : Type}

/-- Whether an element stands before another in an order, and is not equal to it there. -/
def precedes (cmp : α → α → Ordering) (a b : α) : Bool :=
  cmp a b == .lt

/-- The elements of a list that are equal to an element in an order, in their places. -/
def alike (cmp : α → α → Ordering) (a : α) (xs : List α) : List α :=
  xs.filter fun x => cmp a x == .eq

/-- A list is in order when no element stands before an earlier one. -/
def InOrder (cmp : α → α → Ordering) (xs : List α) : Prop :=
  xs.Pairwise fun a b => (cmp a b).isLE = true

section Insertion

variable {cmp : α → α → Ordering}

theorem precedes_eq_false_iff [OrientedCmp cmp] {a b : α} :
    precedes cmp a b = false ↔ (cmp b a).isLE = true := by
  have hswap : cmp b a = (cmp a b).swap := OrientedCmp.eq_swap
  rw [hswap, precedes]
  cases cmp a b <;> simp

theorem inOrder_insertBackwards [TransCmp cmp] (x : α) {xs : List α}
    (h : InOrder cmp xs.reverse) : InOrder cmp (insertBackwards (precedes cmp) x xs).reverse := by
  simp only [InOrder, List.pairwise_reverse] at h ⊢
  induction xs with
  | nil => exact List.pairwise_singleton _ _
  | cons last rest ih =>
      obtain ⟨hlast, hrest⟩ := List.pairwise_cons.mp h
      unfold insertBackwards
      split
      · rename_i hbefore
        refine List.pairwise_cons.mpr ⟨fun y hy => ?_, ih hrest⟩
        have hlt : cmp x last = .lt := by simpa [precedes] using hbefore
        rcases List.mem_cons.mp ((perm_insertBackwards _ x rest).mem_iff.mp hy) with rfl | hy
        · rw [hlt]
          rfl
        · exact hlast y hy
      · rename_i hbefore
        refine List.pairwise_cons.mpr ⟨fun y hy => ?_, h⟩
        have hle : (cmp last x).isLE = true := by simpa [precedes_eq_false_iff] using hbefore
        rcases List.mem_cons.mp hy with rfl | hy
        · exact hle
        · exact TransCmp.isLE_trans (hlast y hy) hle

/-- An element is not inserted before one that is equal to it. -/
theorem alike_insertBackwards [TransCmp cmp] (a x : α) (xs : List α) :
    alike cmp a (insertBackwards (precedes cmp) x xs) = alike cmp a (x :: xs) := by
  induction xs with
  | nil => rfl
  | cons last rest ih =>
      unfold insertBackwards
      split
      · rename_i hbefore
        have hlt : cmp x last = .lt := by simpa [precedes] using hbefore
        have hapart : ¬ (cmp a x = .eq ∧ cmp a last = .eq) := by
          rintro ⟨hx, hlast⟩
          have heq := TransCmp.eq_trans (OrientedCmp.eq_symm hx) hlast
          simp [heq] at hlt
        unfold alike at ih ⊢
        rw [List.filter_cons, ih]
        by_cases hx : cmp a x = .eq
        · have hlast : ¬ cmp a last = .eq := fun hlast => hapart ⟨hx, hlast⟩
          simp [hx, hlast]
        · simp [hx, List.filter_cons]
      · rfl

theorem inOrder_foldl_insertBackwards [TransCmp cmp] (xs : List α) {sorted : List α}
    (h : InOrder cmp sorted.reverse) :
    InOrder cmp (xs.foldl (fun sorted x => insertBackwards (precedes cmp) x sorted)
      sorted).reverse := by
  induction xs generalizing sorted with
  | nil => exact h
  | cons x rest ih => exact ih (inOrder_insertBackwards x h)

theorem alike_foldl_insertBackwards [TransCmp cmp] (a : α) (xs sorted : List α) :
    alike cmp a (xs.foldl (fun sorted x => insertBackwards (precedes cmp) x sorted) sorted) =
      alike cmp a (xs.reverse ++ sorted) := by
  induction xs generalizing sorted with
  | nil => rfl
  | cons x rest ih =>
      rw [List.foldl_cons, ih, List.reverse_cons, List.append_assoc]
      unfold alike at *
      rw [List.filter_append, List.filter_append, List.singleton_append]
      congr 1
      exact alike_insertBackwards a x sorted

end Insertion

/-! ## What a stable sort is -/

section Sorting

variable {cmp cmp₁ cmp₂ : α → α → Ordering}

theorem inOrder_stableSort [TransCmp cmp] (xs : List α) :
    InOrder cmp (stableSort (precedes cmp) xs) :=
  inOrder_foldl_insertBackwards xs List.Pairwise.nil

theorem alike_stableSort [TransCmp cmp] (a : α) (xs : List α) :
    alike cmp a (stableSort (precedes cmp) xs) = alike cmp a xs := by
  have h := @alike_foldl_insertBackwards α cmp _ a xs []
  rw [List.append_nil] at h
  unfold alike stableSort at *
  rw [List.filter_reverse, h, List.filter_reverse, List.reverse_reverse]

theorem InOrder.isLE_head [ReflCmp cmp] {a b : α} {xs : List α} (h : InOrder cmp (a :: xs))
    (hb : b ∈ a :: xs) : (cmp a b).isLE = true := by
  rcases List.mem_cons.mp hb with rfl | hb
  · have hself : cmp b b = .eq := ReflCmp.compare_self
    rw [hself]
    rfl
  · exact (List.pairwise_cons.mp h).1 b hb

/-- Two rearrangements in order that keep the places of equal elements are one. -/
theorem eq_of_alike [TransCmp cmp] {xs ys : List α} (hperm : xs.Perm ys) (hxs : InOrder cmp xs)
    (hys : InOrder cmp ys) (halike : ∀ a, alike cmp a xs = alike cmp a ys) : xs = ys := by
  induction xs generalizing ys with
  | nil => exact hperm.nil_eq
  | cons x xs ih =>
      cases ys with
      | nil => exact hperm.eq_nil
      | cons y ys =>
          have hxy := hxs.isLE_head (hperm.mem_iff.mpr List.mem_cons_self)
          have hyx := hys.isLE_head (hperm.mem_iff.mp List.mem_cons_self)
          have heq : cmp x y = .eq := OrientedCmp.isLE_antisymm hxy hyx
          have hhead : x = y := by
            have h := halike x
            simp only [alike, List.filter_cons, ReflCmp.compare_self, heq] at h
            exact (List.cons.inj h).1
          subst hhead
          refine congrArg (x :: ·) (ih hperm.cons_inv hxs.tail hys.tail fun a => ?_)
          have h := halike a
          simp only [alike, List.filter_cons] at h ⊢
          split at h
          · exact (List.cons.inj h).2
          · exact h

theorem stableSort_of_inOrder [TransCmp cmp] {xs : List α} (h : InOrder cmp xs) :
    stableSort (precedes cmp) xs = xs :=
  eq_of_alike (perm_stableSort _ xs) (inOrder_stableSort xs) h fun a => alike_stableSort a xs

/-! ## Two sorts after each other -/

theorem alike_compareLex (a : α) (xs : List α) :
    alike (compareLex cmp₁ cmp₂) a xs = alike cmp₂ a (alike cmp₁ a xs) := by
  simp only [alike, List.filter_filter, compareLex]
  congr 1
  funext x
  cases cmp₁ a x <;> simp

theorem alike_comm (a : α) (xs : List α) :
    alike cmp₁ a (alike cmp₂ a xs) = alike cmp₂ a (alike cmp₁ a xs) := by
  simp only [alike, List.filter_filter, Bool.and_comm]

/-- A relation that holds along the elements alike to each one holds between any two alike. -/
theorem pairwise_of_alike [ReflCmp cmp] {R : α → α → Prop} {xs : List α}
    (h : ∀ a, (alike cmp a xs).Pairwise R) : xs.Pairwise fun a b => cmp a b = .eq → R a b := by
  induction xs with
  | nil => exact .nil
  | cons x xs ih =>
      refine List.pairwise_cons.mpr ⟨fun y hy heq => ?_, ih fun a => ?_⟩
      · have hx := h x
        simp only [alike, List.filter_cons, ReflCmp.compare_self, beq_self_eq_true, if_true] at hx
        exact (List.pairwise_cons.mp hx).1 y (List.mem_filter.mpr ⟨hy, by simp [heq]⟩)
      · exact (h a).sublist ((List.sublist_cons_self x xs).filter _)

theorem inOrder_compareLex {xs : List α} (h₁ : InOrder cmp₁ xs)
    (h₂ : xs.Pairwise fun a b => cmp₁ a b = .eq → (cmp₂ a b).isLE = true) :
    InOrder (compareLex cmp₁ cmp₂) xs := by
  refine (h₁.and h₂).imp fun {a b} hab => ?_
  simp only [compareLex, Ordering.isLE_then_iff_and]
  refine ⟨hab.1, ?_⟩
  cases hfirst : cmp₁ a b with
  | lt => exact .inl rfl
  | eq => exact .inr (hab.2 hfirst)
  | gt => simp [hfirst] at hab

/-- Sorting by one order and then by another is sorting by the second, and by the first in it. -/
theorem stableSort_compareLex [TransCmp cmp₁] [TransCmp cmp₂] (xs : List α) :
    stableSort (precedes (compareLex cmp₁ cmp₂)) xs =
      stableSort (precedes cmp₁) (stableSort (precedes cmp₂) xs) := by
  have hinner : InOrder cmp₂ (stableSort (precedes cmp₂) xs) := inOrder_stableSort xs
  refine (eq_of_alike ?_ ?_ (inOrder_stableSort xs) fun a => ?_).symm
  · exact ((perm_stableSort _ _).trans (perm_stableSort _ xs)).trans (perm_stableSort _ xs).symm
  · refine inOrder_compareLex (inOrder_stableSort _) (pairwise_of_alike fun a => ?_)
    rw [alike_stableSort]
    exact hinner.sublist List.filter_sublist
  · rw [alike_stableSort, alike_compareLex, alike_compareLex, alike_stableSort, ← alike_comm,
      alike_stableSort, alike_comm]

/-! ## Sorts of images -/

theorem insertBackwards_map (before : α → α → Bool) (f : β → α) (x : β) (xs : List β) :
    insertBackwards before (f x) (xs.map f) =
      (insertBackwards (fun a b => before (f a) (f b)) x xs).map f := by
  induction xs with
  | nil => rfl
  | cons last rest ih =>
      rw [List.map_cons]
      unfold insertBackwards
      split
      · rw [List.map_cons, ih]
      · rfl

theorem stableSort_map (before : α → α → Bool) (f : β → α) (xs : List β) :
    stableSort before (xs.map f) = (stableSort (fun a b => before (f a) (f b)) xs).map f := by
  have hfold : ∀ sorted : List β,
      (xs.map f).foldl (fun sorted x => insertBackwards before x sorted) (sorted.map f) =
        (xs.foldl (fun sorted x => insertBackwards (fun a b => before (f a) (f b)) x sorted)
          sorted).map f := by
    induction xs with
    | nil => exact fun sorted => rfl
    | cons x xs ih =>
        intro sorted
        rw [List.map_cons, List.foldl_cons, insertBackwards_map, ih, List.foldl_cons]
  rw [stableSort, stableSort, List.map_reverse]
  exact congrArg List.reverse (hfold [])

end Sorting

end KeyedQuery
