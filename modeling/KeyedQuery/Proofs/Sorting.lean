import KeyedQuery.Sorting

/-!
# What sorting and windows keep

Sorting rearranges records and a window leaves some of them out; neither adds a
record.
-/

namespace KeyedQuery

variable {α : Type}

theorem perm_insertBackwards (before : α → α → Bool) (x : α) (xs : List α) :
    (insertBackwards before x xs).Perm (x :: xs) := by
  induction xs with
  | nil => exact .refl _
  | cons last rest ih =>
      unfold insertBackwards
      split
      · exact (ih.cons last).trans (.swap x last rest)
      · exact .refl _

theorem perm_foldl_insertBackwards (before : α → α → Bool) (xs sorted : List α) :
    (xs.foldl (fun sorted x => insertBackwards before x sorted) sorted).Perm (xs ++ sorted) := by
  induction xs generalizing sorted with
  | nil => exact .refl _
  | cons x rest ih =>
      rw [List.foldl_cons]
      have hstep := (perm_insertBackwards before x sorted).append_left rest
      exact (ih _).trans (hstep.trans List.perm_middle)

theorem perm_stableSort (before : α → α → Bool) (xs : List α) :
    (stableSort before xs).Perm xs := by
  have h := perm_foldl_insertBackwards before xs []
  rw [List.append_nil] at h
  exact (List.reverse_perm _).trans h

theorem KeySchema.perm_sortRecords (s : KeySchema) (order : List OrderSpec)
    (records : List Record) : (s.sortRecords order records).Perm records :=
  perm_stableSort _ records

theorem window_sublist (offset limit : Option Nat) (xs : List α) :
    (window offset limit xs).Sublist xs := by
  have hdrop : (xs.drop (offset.getD 0)).Sublist xs := List.drop_sublist _ _
  unfold window
  cases limit with
  | none => exact hdrop
  | some limit => exact (List.take_sublist _ _).trans hdrop

end KeyedQuery
