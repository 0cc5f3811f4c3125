import Mathlib.Data.List.Dedup
import KeyedQuery.Proofs.InsertionOrder
import KeyedQuery.Proofs.Where.Build

/-!
# The entries of a clause that was built

Adding an entry replaces what it is like or appends it.  Conditions on one attribute
are alike, and a group is like nothing, not even like itself.  So a clause that was
built is a map in insertion order from attributes to conditions, with all of the
groups at their places in between.
-/

namespace KeyedQuery

namespace Clause

/-- Whether two entries are conditions on one attribute. -/
def sameAttribute : Clause → Clause → Bool
  | .on name _, .on other _ => name == other
  | _, _ => false

/-- The equalities of a group. -/
def group? : Clause → Option (List (String × Value))
  | .on _ _ => none
  | .anyOf entries => some entries

def conditionOn? (name : String) : Clause → Option Condition
  | .on other c => if other = name then some c else none
  | .anyOf _ => none

@[simp] theorem sameAttribute_on_on (name other : String) (c held : Condition) :
    (on name c).sameAttribute (on other held) = (name == other) :=
  rfl

@[simp] theorem sameAttribute_anyOf (entries : List (String × Value)) (clause : Clause) :
    (anyOf entries).sameAttribute clause = false :=
  rfl

@[simp] theorem sameAttribute_to_anyOf (clause : Clause) (entries : List (String × Value)) :
    clause.sameAttribute (anyOf entries) = false := by
  cases clause <;> rfl

@[simp] theorem group?_on (name : String) (c : Condition) : (on name c).group? = none :=
  rfl

@[simp] theorem group?_anyOf (entries : List (String × Value)) :
    (anyOf entries).group? = some entries :=
  rfl

@[simp] theorem conditionOn?_on (name other : String) (c : Condition) :
    (on other c).conditionOn? name = if other = name then some c else none :=
  rfl

@[simp] theorem conditionOn?_anyOf (name : String) (entries : List (String × Value)) :
    (anyOf entries).conditionOn? name = none :=
  rfl

theorem likeness_sameAttribute : Likeness sameAttribute := by
  constructor
  · intro a b h
    cases a <;> cases b <;> simp_all
  · intro a b c hab hbc
    cases a <;> cases b <;> cases c <;> simp_all

end Clause

namespace WhereClause

open Clause

variable {w : WhereClause} {clause : Clause} {name : String}

/-! ## Adding an entry -/

theorem setClause_eq_replaceOrAppend (name : String) (c : Condition) (clauses : List Clause) :
    setClause name c clauses = replaceOrAppend sameAttribute (.on name c) clauses := by
  induction clauses with
  | nil => rfl
  | cons first rest ih =>
      cases first with
      | on other held =>
          by_cases hname : other = name
          · simp [replaceOrAppend_cons, hname]
          · simp [setClause_on_of_ne hname, replaceOrAppend_cons, hname, ih]
      | anyOf entries => simp [replaceOrAppend_cons, ih]

theorem append_anyOf_eq_replaceOrAppend (entries : List (String × Value))
    (clauses : List Clause) :
    clauses ++ [.anyOf entries] = replaceOrAppend sameAttribute (.anyOf entries) clauses := by
  induction clauses with
  | nil => rfl
  | cons first rest ih => simp [replaceOrAppend_cons, ih]

theorem clauses_add (w : WhereClause) (clause : Clause) :
    (w.add clause).clauses = replaceOrAppend sameAttribute clause w.clauses := by
  cases clause with
  | on name c => exact setClause_eq_replaceOrAppend name c w.clauses
  | anyOf entries => exact append_anyOf_eq_replaceOrAppend entries w.clauses

theorem get?_eq_findSome? (w : WhereClause) (name : String) :
    w.get? name = w.clauses.findSome? (conditionOn? name) := by
  obtain ⟨clauses⟩ := w
  simp only [get?, attributes]
  induction clauses with
  | nil => rfl
  | cons first rest ih =>
      cases first with
      | on other c =>
          by_cases hname : name = other
          · simp [hname]
          · have hother : other ≠ name := fun heq => hname heq.symm
            simp [hother, List.lookup_cons, beq_false_of_ne hname, ih]
      | anyOf entries => simpa [List.findSome?_cons] using ih

theorem findSome?_setClause (name other : String) (c : Condition) (clauses : List Clause) :
    (setClause name c clauses).findSome? (conditionOn? other) =
      if name = other then some c else clauses.findSome? (conditionOn? other) := by
  induction clauses with
  | nil => simp
  | cons first rest ih =>
      cases first with
      | on held condition =>
          by_cases hheld : held = name
          · by_cases hname : name = other <;> simp [hheld, hname]
          · by_cases hother : held = other
            · subst hother
              simp [setClause_on_of_ne hheld, Ne.symm hheld]
            · simp [setClause_on_of_ne hheld, hother, ih]
      | anyOf entries => simpa [List.findSome?_cons] using ih

/-- A look-up finds the condition that was added, or what it found before. -/
theorem get?_add (w : WhereClause) (clause : Clause) (name : String) :
    (w.add clause).get? name = (clause.conditionOn? name).or (w.get? name) := by
  rw [get?_eq_findSome?, get?_eq_findSome?]
  cases clause with
  | on other c =>
      have hset := findSome?_setClause other name c w.clauses
      by_cases hother : other = name
      · simpa [add, set, hother] using hset
      · simpa [add, set, hother] using hset
  | anyOf entries => simp [add, addAnyOf]

theorem mem_names_add :
    name ∈ (w.add clause).names ↔ name ∈ w.names ∨ clause.attribute? = some name := by
  cases clause with
  | on other c =>
      rw [add, names_set]
      by_cases hother : other ∈ w.names
      · simp only [if_pos hother, attribute?_on, Option.some.injEq, iff_self_or]
        rintro rfl
        exact hother
      · simp [hother, eq_comm]
  | anyOf entries => simp [add, addAnyOf, names]

/-- The groups of a clause, in order. -/
def groups (w : WhereClause) : List (List (String × Value)) :=
  w.clauses.filterMap group?

theorem groups_add (w : WhereClause) (clause : Clause) :
    (w.add clause).groups = w.groups ++ clause.group?.toList := by
  cases clause with
  | on name c =>
      obtain ⟨clauses⟩ := w
      simp only [add, set, groups, group?_on, Option.toList_none, List.append_nil]
      induction clauses with
      | nil => rfl
      | cons first rest ih =>
          cases first with
          | on other held =>
              by_cases hother : other = name
              · simp [hother, List.filterMap_cons]
              · simpa [setClause_on_of_ne hother, List.filterMap_cons] using ih
          | anyOf entries => simpa [List.filterMap_cons] using ih
  | anyOf entries => simp [add, addAnyOf, groups]

/-- Every entry is a condition on an attribute or a group. -/
theorem size_eq (w : WhereClause) : w.size = w.names.length + w.groups.length := by
  obtain ⟨clauses⟩ := w
  simp only [size, names, groups]
  induction clauses with
  | nil => rfl
  | cons first rest ih =>
      cases first with
      | on name c =>
          simp only [List.filterMap_cons, attribute?_on, group?_on, List.length_cons, ih]
          omega
      | anyOf entries =>
          simp only [List.filterMap_cons, attribute?_anyOf, group?_anyOf, List.length_cons, ih]
          omega

/-! ## Building a clause -/

theorem build_append_singleton (calls : List Clause) (call : Clause) :
    build (calls ++ [call]) = (build calls).add call := by
  simp [build]

theorem clauses_build (calls : List Clause) :
    (build calls).clauses = insertionOrder sameAttribute calls := by
  rw [← foldl_replaceOrAppend_eq likeness_sameAttribute]
  induction calls using List.reverseRecOn with
  | nil => rfl
  | append_singleton calls call ih =>
      rw [build_append_singleton, clauses_add, ih, List.foldl_append, List.foldl_cons,
        List.foldl_nil]

theorem get?_build (calls : List Clause) (name : String) :
    (build calls).get? name = (calls.filterMap (conditionOn? name)).getLast? := by
  induction calls using List.reverseRecOn with
  | nil => rfl
  | append_singleton calls call ih =>
      rw [build_append_singleton, get?_add, ih, List.filterMap_append, List.getLast?_append]
      cases hcall : call.conditionOn? name <;> simp [hcall]

theorem mem_names_build {calls : List Clause} :
    name ∈ (build calls).names ↔ name ∈ calls.filterMap attribute? := by
  induction calls using List.reverseRecOn with
  | nil => rfl
  | append_singleton calls call ih =>
      rw [build_append_singleton, mem_names_add, ih, List.filterMap_append, List.mem_append]
      cases hcall : call.attribute? <;> simp [hcall, eq_comm]

/-- A clause that was built has each attribute that was added, once. -/
theorem length_names_build (calls : List Clause) :
    (build calls).names.length = (calls.filterMap attribute?).dedup.length := by
  have hperm : (build calls).names.Perm (calls.filterMap attribute?).dedup := by
    apply (List.perm_ext_iff_of_nodup (distinct_build calls) (List.nodup_dedup _)).mpr
    intro name
    rw [mem_names_build, List.mem_dedup]
  exact hperm.length_eq

theorem groups_build (calls : List Clause) :
    (build calls).groups = calls.filterMap group? := by
  induction calls using List.reverseRecOn with
  | nil => rfl
  | append_singleton calls call ih =>
      rw [build_append_singleton, groups_add, ih, List.filterMap_append]
      cases hcall : call.group? <;> simp [hcall]

/-- What no earlier call is like stands behind all that was there when it was added. -/
theorem getElem?_clauses_build {before after : List Clause} {call : Clause}
    (hfirst : ∀ earlier ∈ before, earlier.sameAttribute call = false) :
    (build (before ++ call :: after)).clauses[(build before).size]? =
      some (lastLike sameAttribute (before ++ call :: after) call) := by
  have hfresh : (!before.any (sameAttribute · call)) = true := by
    simpa using hfirst
  have hsize : (build before).size = (firstOfEach sameAttribute before).length := by
    rw [size, clauses_build, insertionOrder, List.length_map]
  rw [clauses_build, insertionOrder, firstOfEach_append, firstOfEach_cons, List.filter_cons,
    if_pos hfresh, hsize, List.getElem?_map, List.getElem?_append_right (Nat.le_refl _),
    Nat.sub_self]
  rfl

/--
A clause that calls built, each of which sets the condition of an attribute or adds a
group, is a map in insertion order.  No attribute has two conditions, and a look-up
finds the condition that was set last.  What the first call for it placed stays
behind all that was there before; a condition becomes the last one for its attribute.
The groups are those that were added, in order and as they were.  There are as many
entries as different attributes and calls for a group.
-/
theorem build_insertionOrder (calls : List Clause) :
    let w := build calls
    w.names.Nodup ∧
      (∀ name, w.get? name = (calls.filterMap (conditionOn? name)).getLast?) ∧
      w.clauses = insertionOrder sameAttribute calls ∧
      (∀ before call after, calls = before ++ call :: after →
        (∀ earlier ∈ before, earlier.sameAttribute call = false) →
        w.clauses[(build before).size]? = some (lastLike sameAttribute calls call)) ∧
      w.groups = calls.filterMap group? ∧
      w.size =
        (calls.filterMap attribute?).dedup.length + (calls.filterMap group?).length := by
  refine ⟨distinct_build calls, get?_build calls, clauses_build calls, ?_, groups_build calls, ?_⟩
  · rintro before call after rfl hfirst
    exact getElem?_clauses_build hfirst
  · rw [size_eq, length_names_build, groups_build]

/-- Groups are all kept, also groups of the same equalities. -/
example (c c' : Condition) :
    (build [.on "a" c, .anyOf [], .on "b" c, .anyOf [], .on "a" c']).clauses =
      [.on "a" c', .anyOf [], .on "b" c, .anyOf []] := by
  rfl

end WhereClause

end KeyedQuery
