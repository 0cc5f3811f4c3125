import Mathlib.Data.List.Forall2

/-!
# Steps that may fail

How a sequence of steps goes on from a success and stops at a failure.
-/

namespace KeyedQuery

variable {ε α β : Type}

@[simp] theorem ok_bind (a : α) (f : α → Except ε β) : (Except.ok a >>= f) = f a :=
  rfl

/-- A sequence succeeds exactly when both of its steps do. -/
theorem bind_eq_ok_iff {x : Except ε α} {f : α → Except ε β} {b : β} :
    (x >>= f) = Except.ok b ↔ ∃ a, x = Except.ok a ∧ f a = Except.ok b := by
  cases x with
  | error e =>
      constructor
      · intro h
        cases h
      · rintro ⟨a, h, _⟩
        cases h
  | ok a =>
      constructor
      · intro h
        exact ⟨a, rfl, h⟩
      · rintro ⟨a', h, hf⟩
        cases h
        exact hf

/-- A sequence fails when its first step does, or else its second. -/
theorem bind_eq_error_iff {x : Except ε α} {f : α → Except ε β} {e : ε} :
    (x >>= f) = .error e ↔ x = .error e ∨ ∃ a, x = .ok a ∧ f a = .error e := by
  cases x with
  | error e' =>
      constructor
      · intro h
        cases h
        exact .inl rfl
      · rintro (h | ⟨a, h, _⟩)
        · cases h
          rfl
        · cases h
  | ok a =>
      constructor
      · exact fun h => .inr ⟨a, rfl, h⟩
      · rintro (h | ⟨a', h, hf⟩)
        · cases h
        · cases h
          exact hf

/-- A step that is followed by one that cannot fail. -/
theorem bind_ok_eq_error_iff {x : Except ε α} {f : α → β} {e : ε} :
    (x >>= fun a => .ok (f a)) = .error e ↔ x = .error e := by
  rw [bind_eq_error_iff]
  constructor
  · rintro (h | ⟨_, _, hnone⟩)
    · exact h
    · cases hnone
  · exact .inl

theorem exists_of_isOk {x : Except ε α} (h : x.isOk = true) : ∃ a, x = .ok a := by
  cases x with
  | error e => cases h
  | ok a => exact ⟨a, rfl⟩

@[simp] theorem mapError_eq_ok_iff {ε' : Type} {x : Except ε α} {f : ε → ε'} {a : α} :
    x.mapError f = .ok a ↔ x = .ok a := by
  cases x with
  | error e => constructor <;> intro h <;> cases h
  | ok b => constructor <;> intro h <;> cases h <;> rfl

theorem mapError_eq_error_iff {ε' : Type} {x : Except ε α} {f : ε → ε'} {e : ε'} :
    x.mapError f = .error e ↔ ∃ cause, x = .error cause ∧ e = f cause := by
  cases x with
  | error cause =>
      constructor
      · intro h
        cases h
        exact ⟨cause, rfl, rfl⟩
      · rintro ⟨_, hcause, rfl⟩
        cases hcause
        rfl
  | ok a =>
      constructor
      · intro h
        cases h
      · rintro ⟨_, hnone, _⟩
        cases hnone

theorem eq_ok_of_toOption {x : Except ε α} {a : α} (h : x.toOption = some a) : x = .ok a := by
  cases x with
  | error e => cases h
  | ok b =>
      cases h
      rfl

/-- A fold fails at the first step that fails. -/
theorem exists_of_foldlM_error {step : β → α → Except ε β} {xs : List α} {s : β} {e : ε}
    (h : xs.foldlM step s = .error e) :
    ∃ before x after s', xs = before ++ x :: after ∧ before.foldlM step s = .ok s' ∧
      step s' x = .error e := by
  induction xs generalizing s with
  | nil => cases h
  | cons x xs ih =>
      rw [List.foldlM_cons] at h
      rcases bind_eq_error_iff.mp h with hfirst | ⟨s', hstep, hrest⟩
      · exact ⟨[], x, xs, s, rfl, rfl, hfirst⟩
      · obtain ⟨before, y, after, s'', rfl, hbefore, hy⟩ := ih hrest
        refine ⟨x :: before, y, after, s'', rfl, ?_, hy⟩
        rw [List.foldlM_cons, hstep, ok_bind, hbefore]

/-- A list of steps succeeds exactly when all of them do. -/
theorem mapM_eq_ok_iff {f : α → Except ε β} {xs : List α} {ys : List β} :
    xs.mapM f = .ok ys ↔ List.Forall₂ (fun x y => f x = .ok y) xs ys := by
  induction xs generalizing ys with
  | nil =>
      rw [List.mapM_nil, List.forall₂_nil_left_iff]
      exact ⟨fun h => (Except.ok.inj h).symm, fun h => h ▸ rfl⟩
  | cons x xs ih =>
      rw [List.mapM_cons, List.forall₂_cons_left_iff]
      constructor
      · intro h
        obtain ⟨y, hy, h⟩ := bind_eq_ok_iff.mp h
        obtain ⟨others, hothers, hpair⟩ := bind_eq_ok_iff.mp h
        cases hpair
        exact ⟨y, others, hy, ih.mp hothers, rfl⟩
      · rintro ⟨y, others, hy, hothers, rfl⟩
        rw [hy, ok_bind, ih.mpr hothers]
        rfl

/-- A list of steps fails with the failure of one of them. -/
theorem exists_of_mapM_error {f : α → Except ε β} {xs : List α} {e : ε}
    (h : xs.mapM f = .error e) : ∃ x ∈ xs, f x = .error e := by
  induction xs with
  | nil => cases h
  | cons x xs ih =>
      rw [List.mapM_cons] at h
      rcases bind_eq_error_iff.mp h with hfirst | ⟨y, _, h⟩
      · exact ⟨x, List.mem_cons_self, hfirst⟩
      · rcases bind_eq_error_iff.mp h with hrest | ⟨others, _, h⟩
        · obtain ⟨other, hother, hstep⟩ := ih hrest
          exact ⟨other, List.mem_cons_of_mem x hother, hstep⟩
        · cases h

/-- In related lists every element of the first has its partner in the second. -/
theorem exists_of_mem_forall₂ {R : α → β → Prop} {xs : List α} {ys : List β}
    (h : List.Forall₂ R xs ys) {x : α} (hx : x ∈ xs) : ∃ y ∈ ys, R x y := by
  induction h with
  | nil => cases hx
  | @cons _ y _ _ hfirst _ ih =>
      rcases List.mem_cons.mp hx with rfl | hx
      · exact ⟨y, List.mem_cons_self, hfirst⟩
      · obtain ⟨other, hother, hrelated⟩ := ih hx
        exact ⟨other, List.mem_cons_of_mem y hother, hrelated⟩

/-- A list has partners when each of its elements has one. -/
theorem exists_forall₂_iff {R : α → β → Prop} {xs : List α} :
    (∃ ys, List.Forall₂ R xs ys) ↔ ∀ x ∈ xs, ∃ y, R x y := by
  constructor
  · rintro ⟨ys, h⟩ x hx
    obtain ⟨y, _, hy⟩ := exists_of_mem_forall₂ h hx
    exact ⟨y, hy⟩
  · intro h
    induction xs with
    | nil => exact ⟨[], .nil⟩
    | cons x xs ih =>
        obtain ⟨y, hy⟩ := h x List.mem_cons_self
        obtain ⟨ys, hys⟩ := ih fun x hx => h x (List.mem_cons_of_mem _ hx)
        exact ⟨y :: ys, .cons hy hys⟩

end KeyedQuery
