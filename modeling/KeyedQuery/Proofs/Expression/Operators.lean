import KeyedQuery.Expression.Evaluation
import KeyedQuery.Proofs.Except

/-!
# How the operators relate

Once every operand has a meaning, an evaluation does not fail, and an operand is
a value or absent.  A range is then two comparisons, a membership is a chain of
equalities, and a difference is a negated equality, also where operands are
absent.  A condition that is put together from tests of attributes without a
negation needs one of its attributes to hold.
-/

namespace KeyedQuery

/-- A path stands for an attribute: an alias for what the table says, a bare name for itself. -/
def StandsFor (names : Dict String) (path name : String) : Prop :=
  if path.toList.head? = some '#' then names.get? path = some name else path = name

theorem Bindings.attributeName_eq_ok_iff {b : Bindings} {path name : String} :
    b.attributeName path = .ok name ↔ StandsFor b.names path name := by
  unfold attributeName StandsFor
  split
  · cases b.names.get? path <;> simp
  · simp

/-- The operands of an expression, from left to right. -/
def Expr.operands : Expr → List Operand
  | .compare left _ right => [left, right]
  | .between value low high => [value, low, high]
  | .isIn value list => value :: list
  | .and left right => left.operands ++ right.operands
  | .or left right => left.operands ++ right.operands
  | .not inner => inner.operands

/-- Every operand of an expression has a meaning under the tables. -/
def Bindings.Resolves (b : Bindings) (e : Expr) : Prop :=
  ∀ operand ∈ e.operands, ∀ r, ∃ value, b.resolve r operand = .ok value

/-- Whether operands that may be absent pass a comparison; an absent one differs from all. -/
def Comparator.testPresent (op : Comparator) : Option Value → Option Value → Bool
  | some left, some right => op.test left right
  | _, _ => op == .ne

namespace Comparator

@[simp] theorem testPresent_some (op : Comparator) (left right : Value) :
    op.testPresent (some left) (some right) = op.test left right :=
  rfl

@[simp] theorem testPresent_none_left (op : Comparator) (right : Option Value) :
    op.testPresent none right = (op == .ne) :=
  rfl

@[simp] theorem testPresent_none_right (op : Comparator) (left : Option Value) :
    op.testPresent left none = (op == .ne) := by
  cases left <;> rfl

theorem testPresent_eq (value : Value) (candidate : Option Value) :
    eq.testPresent (some value) candidate = candidate.any value.looseEq := by
  cases candidate <;> rfl

end Comparator

def Operand.isPath : Operand → Bool
  | .path _ => true
  | .value _ => false

namespace Expr

/-- A value is equal to the first operand or to one of the others, joined to the left. -/
def anyEqual (value first : Operand) (others : List Operand) : Expr :=
  others.foldl (fun e operand => .or e (.compare value .eq operand)) (.compare value .eq first)

/-- No difference and no negation, and in every test an attribute without which it fails. -/
def isPositive : Expr → Bool
  | .compare left op right => op != .ne && (left.isPath || right.isPath)
  | .between value low high => value.isPath || low.isPath || high.isPath
  | .isIn value list => value.isPath || list.all Operand.isPath
  | .and left right => left.isPositive && right.isPositive
  | .or left right => left.isPositive && right.isPositive
  | .not _ => false

end Expr

namespace Bindings

variable {b : Bindings} {r : Record}

/-! ## Operands that have a meaning -/

theorem Resolves.exists_compare {left right : Operand} {op : Comparator}
    (h : b.Resolves (.compare left op right)) (r : Record) :
    ∃ l l', b.resolve r left = .ok l ∧ b.resolve r right = .ok l' := by
  obtain ⟨l, hleft⟩ := h left List.mem_cons_self r
  obtain ⟨l', hright⟩ := h right (List.mem_cons_of_mem _ List.mem_cons_self) r
  exact ⟨l, l', hleft, hright⟩

theorem Resolves.exists_between {value low high : Operand}
    (h : b.Resolves (.between value low high)) (r : Record) :
    ∃ v lo hi, b.resolve r value = .ok v ∧ b.resolve r low = .ok lo ∧
      b.resolve r high = .ok hi := by
  obtain ⟨v, hvalue⟩ := h value List.mem_cons_self r
  obtain ⟨lo, hlow⟩ := h low (List.mem_cons_of_mem _ List.mem_cons_self) r
  obtain ⟨hi, hhigh⟩ :=
    h high (List.mem_cons_of_mem _ (List.mem_cons_of_mem _ List.mem_cons_self)) r
  exact ⟨v, lo, hi, hvalue, hlow, hhigh⟩

/-- The values that operands have on a record. -/
abbrev Candidates (b : Bindings) (r : Record) :=
  List.Forall₂ fun operand candidate => b.resolve r operand = .ok candidate

theorem Resolves.exists_candidates {value : Operand} {list : List Operand}
    (h : b.Resolves (.isIn value list)) (r : Record) :
    ∃ candidates, b.Candidates r list candidates :=
  exists_forall₂_iff.mpr fun operand hoperand =>
    h operand (List.mem_cons_of_mem value hoperand) r

theorem isAmong_cons {operand : Operand} {list : List Operand} {candidate : Option Value}
    (value : Value) (h : b.resolve r operand = .ok candidate) :
    b.isAmong r value (operand :: list) =
      if candidate.any value.looseEq then .ok true else b.isAmong r value list := by
  show (b.resolve r operand >>= _) = _
  rw [h, ok_bind]

theorem isAmong_eq (value : Value) {list : List Operand} {candidates : List (Option Value)}
    (h : b.Candidates r list candidates) :
    b.isAmong r value list =
      .ok (candidates.any fun candidate => candidate.any value.looseEq) := by
  induction h with
  | nil => rfl
  | @cons operand candidate _ _ hfirst _ ih =>
      rw [isAmong_cons value hfirst, ih, List.any_cons]
      cases candidate.any value.looseEq <;> rfl

/-! ## One operator -/

theorem eval_compare {left right : Operand} {l l' : Option Value} (op : Comparator)
    (hleft : b.resolve r left = .ok l) (hright : b.resolve r right = .ok l') :
    b.eval r (.compare left op right) = .ok (op.testPresent l l') := by
  show (b.resolve r left >>= _) = _
  rw [hleft, ok_bind, hright, ok_bind]
  cases l <;> cases l' <;> rfl

theorem eval_between_eq {value low high : Operand} {v lo hi : Option Value}
    (hvalue : b.resolve r value = .ok v) (hlow : b.resolve r low = .ok lo)
    (hhigh : b.resolve r high = .ok hi) :
    b.eval r (.between value low high) =
      .ok (Comparator.testPresent (.order .ge) v lo &&
        Comparator.testPresent (.order .le) v hi) := by
  show (b.resolve r value >>= _) = _
  rw [hvalue, ok_bind, hlow, ok_bind, hhigh, ok_bind]
  cases v <;> cases lo <;> cases hi <;> simp [Comparator.test]

theorem eval_isIn_eq {value : Operand} {list : List Operand} {v : Option Value}
    {candidates : List (Option Value)} (hvalue : b.resolve r value = .ok v)
    (hlist : b.Candidates r list candidates) :
    b.eval r (.isIn value list) = .ok (candidates.any (Comparator.eq.testPresent v)) := by
  show (b.resolve r value >>= _) = _
  rw [hvalue, ok_bind]
  cases v with
  | none => simp
  | some held => simpa only [← Comparator.testPresent_eq] using isAmong_eq held hlist

variable {left right inner : Expr} {first : Bool}

theorem eval_and (h : b.eval r left = .ok first) :
    b.eval r (.and left right) = if first then b.eval r right else .ok false := by
  show (b.eval r left >>= _) = _
  rw [h, ok_bind]

theorem eval_or (h : b.eval r left = .ok first) :
    b.eval r (.or left right) = if first then .ok true else b.eval r right := by
  show (b.eval r left >>= _) = _
  rw [h, ok_bind]

theorem eval_not (h : b.eval r inner = .ok first) :
    b.eval r (.not inner) = .ok (!first) := by
  show (b.eval r inner >>= _) = _
  rw [h, ok_bind]

/-! ## Chains of conditions -/

section Chains

variable {α β : Type} {expr : α → Expr} {holds : β → Bool} {xs : List α} {ys : List β}
  {left : Expr} {first : Bool}

/-- The induction is on the conditions behind those that have been joined so far. -/
theorem eval_foldl_or (h : List.Forall₂ (fun x y => b.eval r (expr x) = .ok (holds y)) xs ys)
    (hleft : b.eval r left = .ok first) :
    b.eval r (xs.foldl (fun e x => .or e (expr x)) left) = .ok (first || ys.any holds) := by
  induction h generalizing left first with
  | nil => rw [List.foldl_nil, hleft, List.any_nil, Bool.or_false]
  | cons hfirst _ ih =>
      rw [List.foldl_cons, List.any_cons, ← Bool.or_assoc]
      apply ih
      rw [eval_or hleft, hfirst]
      cases first <;> rfl

theorem eval_foldl_and (h : List.Forall₂ (fun x y => b.eval r (expr x) = .ok (holds y)) xs ys)
    (hleft : b.eval r left = .ok first) :
    b.eval r (xs.foldl (fun e x => .and e (expr x)) left) = .ok (first && ys.all holds) := by
  induction h generalizing left first with
  | nil => rw [List.foldl_nil, hleft, List.all_nil, Bool.and_true]
  | cons hfirst _ ih =>
      rw [List.foldl_cons, List.all_cons, ← Bool.and_assoc]
      apply ih
      rw [eval_and hleft, hfirst]
      cases first <;> rfl

end Chains

/-! ## Derived operators -/

/-- A range is two comparisons. -/
theorem eval_between {value low high : Operand} (h : b.Resolves (.between value low high)) :
    ∃ holds, b.eval r (.between value low high) = .ok holds ∧
      b.eval r (.and (.compare value (.order .ge) low) (.compare value (.order .le) high)) =
        .ok holds := by
  obtain ⟨v, lo, hi, hvalue, hlow, hhigh⟩ := h.exists_between r
  refine ⟨_, eval_between_eq hvalue hlow hhigh, ?_⟩
  rw [eval_and (eval_compare _ hvalue hlow), eval_compare _ hvalue hhigh]
  cases Comparator.testPresent (.order .ge) v lo <;> rfl

/-- A membership is a chain of equalities. -/
theorem eval_isIn {value first : Operand} {others : List Operand}
    (h : b.Resolves (.isIn value (first :: others))) :
    ∃ holds, b.eval r (.isIn value (first :: others)) = .ok holds ∧
      b.eval r (Expr.anyEqual value first others) = .ok holds := by
  obtain ⟨v, hvalue⟩ := h value List.mem_cons_self r
  obtain ⟨candidates, hcandidates⟩ := h.exists_candidates r
  refine ⟨_, eval_isIn_eq hvalue hcandidates, ?_⟩
  cases hcandidates with
  | cons hfirst hothers =>
      exact eval_foldl_or (hothers.imp fun _ _ h => eval_compare .eq hvalue h)
        (eval_compare .eq hvalue hfirst)

/-- A difference is a negated equality. -/
theorem eval_ne {left right : Operand} (h : b.Resolves (.compare left .ne right)) :
    ∃ holds, b.eval r (.compare left .ne right) = .ok holds ∧
      b.eval r (.not (.compare left .eq right)) = .ok holds := by
  obtain ⟨l, l', hleft, hright⟩ := h.exists_compare r
  refine ⟨_, eval_compare .ne hleft hright, ?_⟩
  rw [eval_not (eval_compare .eq hleft hright)]
  cases l <;> cases l' <;> rfl

/-! ## Absent attributes -/

/-- A record has none of the attributes that an expression mentions, or has null for them. -/
def Absent (b : Bindings) (r : Record) (e : Expr) : Prop :=
  ∀ path name, .path path ∈ e.operands → StandsFor b.names path name →
    r.get? name = none ∨ r.get? name = some .null

theorem present?_eq_none {name : String} (h : r.get? name = none ∨ r.get? name = some .null) :
    r.present? name = none := by
  unfold Record.present?
  rcases h with h | h
  · rw [h]
    rfl
  · rw [h]
    rfl

variable {e e' : Expr}

theorem Absent.of_left (h : b.Absent r (.and e e')) : b.Absent r e :=
  fun path name hmem => h path name (List.mem_append_left _ hmem)

theorem Absent.of_right (h : b.Absent r (.and e e')) : b.Absent r e' :=
  fun path name hmem => h path name (List.mem_append_right _ hmem)

theorem Resolves.of_left (h : b.Resolves (.and e e')) : b.Resolves e :=
  fun operand hmem => h operand (List.mem_append_left _ hmem)

theorem Resolves.of_right (h : b.Resolves (.and e e')) : b.Resolves e' :=
  fun operand hmem => h operand (List.mem_append_right _ hmem)

/-- Where every operand has a meaning, an evaluation gives an answer. -/
theorem Resolves.exists_eval (h : b.Resolves e) (r : Record) : ∃ holds, b.eval r e = .ok holds := by
  induction e with
  | compare left op right =>
      obtain ⟨l, l', hleft, hright⟩ := h.exists_compare r
      exact ⟨_, eval_compare op hleft hright⟩
  | between value low high =>
      obtain ⟨v, lo, hi, hvalue, hlow, hhigh⟩ := h.exists_between r
      exact ⟨_, eval_between_eq hvalue hlow hhigh⟩
  | isIn value list =>
      obtain ⟨v, hvalue⟩ := h value List.mem_cons_self r
      obtain ⟨candidates, hcandidates⟩ := h.exists_candidates r
      exact ⟨_, eval_isIn_eq hvalue hcandidates⟩
  | and left right ihLeft ihRight =>
      obtain ⟨l, hleft⟩ := ihLeft h.of_left
      obtain ⟨l', hright⟩ := ihRight h.of_right
      rw [eval_and hleft, hright]
      cases l
      · exact ⟨false, rfl⟩
      · exact ⟨l', rfl⟩
  | or left right ihLeft ihRight =>
      obtain ⟨l, hleft⟩ := ihLeft fun o ho => h o (List.mem_append_left _ ho)
      obtain ⟨l', hright⟩ := ihRight fun o ho => h o (List.mem_append_right _ ho)
      rw [eval_or hleft, hright]
      cases l
      · exact ⟨l', rfl⟩
      · exact ⟨true, rfl⟩
  | not inner ih =>
      obtain ⟨holds, hholds⟩ := ih h
      exact ⟨!holds, eval_not hholds⟩

/-- An attribute that the record does not have is an operand without a value. -/
theorem resolve_of_absent {operand : Operand} (hresolves : b.Resolves e)
    (habsent : b.Absent r e) (hmem : operand ∈ e.operands) (hpath : operand.isPath = true) :
    b.resolve r operand = .ok none := by
  obtain ⟨v, hv⟩ := hresolves operand hmem r
  cases operand with
  | value placeholder => cases hpath
  | path path =>
      obtain ⟨name, hname, hvalue⟩ := bind_eq_ok_iff.mp hv
      cases hvalue
      rw [hv, present?_eq_none (habsent path name hmem (attributeName_eq_ok_iff.mp hname))]

theorem eval_compare_of_absent {left right : Operand} {op : Comparator} (hop : op ≠ .ne)
    (hpath : left.isPath = true ∨ right.isPath = true)
    (hresolves : b.Resolves (.compare left op right))
    (habsent : b.Absent r (.compare left op right)) :
    b.eval r (.compare left op right) = .ok false := by
  obtain ⟨l, l', hleft, hright⟩ := hresolves.exists_compare r
  have hmem : right ∈ [left, right] := List.mem_cons_of_mem _ List.mem_cons_self
  rcases hpath with hpath | hpath
  · have hnone := resolve_of_absent hresolves habsent List.mem_cons_self hpath
    rw [eval_compare op hnone hright]
    simpa using hop
  · have hnone := resolve_of_absent hresolves habsent hmem hpath
    rw [eval_compare op hleft hnone]
    simpa using hop

/-- A range fails as soon as one of its three operands has no value. -/
theorem eval_between_of_absent {value low high : Operand}
    (hpath : value.isPath = true ∨ low.isPath = true ∨ high.isPath = true)
    (hresolves : b.Resolves (.between value low high))
    (habsent : b.Absent r (.between value low high)) :
    b.eval r (.between value low high) = .ok false := by
  obtain ⟨v, lo, hi, hvalue, hlow, hhigh⟩ := hresolves.exists_between r
  have hlowMem : low ∈ [value, low, high] := List.mem_cons_of_mem _ List.mem_cons_self
  have hhighMem : high ∈ [value, low, high] :=
    List.mem_cons_of_mem _ (List.mem_cons_of_mem _ List.mem_cons_self)
  rcases hpath with hpath | hpath | hpath
  · have hnone := resolve_of_absent hresolves habsent List.mem_cons_self hpath
    rw [eval_between_eq hnone hlow hhigh]
    rfl
  · have hnone := resolve_of_absent hresolves habsent hlowMem hpath
    rw [eval_between_eq hvalue hnone hhigh, Comparator.testPresent_none_right]
    rfl
  · have hnone := resolve_of_absent hresolves habsent hhighMem hpath
    rw [eval_between_eq hvalue hlow hnone, Comparator.testPresent_none_right]
    simp

theorem eval_isIn_of_absent {value : Operand} {list : List Operand}
    (hpath : value.isPath = true ∨ ∀ operand ∈ list, operand.isPath = true)
    (hresolves : b.Resolves (.isIn value list)) (habsent : b.Absent r (.isIn value list)) :
    b.eval r (.isIn value list) = .ok false := by
  obtain ⟨v, hvalue⟩ := hresolves value List.mem_cons_self r
  rcases hpath with hpath | hpaths
  · obtain ⟨candidates, hcandidates⟩ := hresolves.exists_candidates r
    have hnone := resolve_of_absent hresolves habsent List.mem_cons_self hpath
    rw [eval_isIn_eq hnone hcandidates]
    simp
  · have hnone : b.Candidates r list (list.map fun _ => none) :=
      List.forall₂_map_right_iff.mpr (List.forall₂_same.mpr fun operand hoperand =>
        resolve_of_absent hresolves habsent (List.mem_cons_of_mem value hoperand)
          (hpaths operand hoperand))
    rw [eval_isIn_eq hvalue hnone]
    simp

/-- A positive condition fails where all attributes that it mentions are absent. -/
theorem eval_of_absent (hpositive : e.isPositive = true) (hresolves : b.Resolves e)
    (habsent : b.Absent r e) : b.eval r e = .ok false := by
  induction e with
  | compare left op right =>
      simp only [Expr.isPositive, Bool.and_eq_true, Bool.or_eq_true, bne_iff_ne] at hpositive
      exact eval_compare_of_absent hpositive.1 hpositive.2 hresolves habsent
  | between value low high =>
      simp only [Expr.isPositive, Bool.or_eq_true, or_assoc] at hpositive
      exact eval_between_of_absent hpositive hresolves habsent
  | isIn value list =>
      simp only [Expr.isPositive, Bool.or_eq_true, List.all_eq_true] at hpositive
      exact eval_isIn_of_absent hpositive hresolves habsent
  | and left right ihleft _ =>
      have hleft := (Bool.and_eq_true_iff.mp hpositive).1
      rw [eval_and (ihleft hleft (Resolves.of_left hresolves) (Absent.of_left habsent))]
      rfl
  | or left right ihleft ihright =>
      obtain ⟨hleft, hright⟩ := Bool.and_eq_true_iff.mp hpositive
      rw [eval_or (ihleft hleft (Resolves.of_left hresolves) (Absent.of_left habsent))]
      exact ihright hright (Resolves.of_right hresolves) (Absent.of_right habsent)
  | not inner _ => cases hpositive

/-! ## One meaning -/

/--
On every record, whatever the tables, as long as they give every operand a meaning: a
range says what two comparisons say, a membership what a chain of equalities says, a
difference what a negated equality says, and a positive condition fails where all
attributes that it mentions are absent or null.
-/
theorem eval_consistent (b : Bindings) (r : Record) :
    (∀ value low high, b.Resolves (.between value low high) →
      ∃ holds, b.eval r (.between value low high) = .ok holds ∧
        b.eval r (.and (.compare value (.order .ge) low) (.compare value (.order .le) high)) =
          .ok holds) ∧
    (∀ value first others, b.Resolves (.isIn value (first :: others)) →
      ∃ holds, b.eval r (.isIn value (first :: others)) = .ok holds ∧
        b.eval r (Expr.anyEqual value first others) = .ok holds) ∧
    (∀ left right, b.Resolves (.compare left .ne right) →
      ∃ holds, b.eval r (.compare left .ne right) = .ok holds ∧
        b.eval r (.not (.compare left .eq right)) = .ok holds) ∧
    ∀ e : Expr, e.isPositive = true → b.Resolves e → b.Absent r e → b.eval r e = .ok false :=
  ⟨fun _ _ _ => eval_between, fun _ _ _ => eval_isIn, fun _ _ => eval_ne,
    fun _ => eval_of_absent⟩

/-- Tests of an attribute that is null and of one that is missing, the latter on either side. -/
def sparse : Expr :=
  .and (.or (.compare (.path "#N") (.order .le) (.value ":lo"))
      (.isIn (.path "#M") [.value ":lo", .value ":hi"]))
    (.between (.value ":lo") (.path "#M") (.value ":hi"))

theorem eval_consistent_sparse :
    let b : Bindings := ⟨Dict.ofList [("#M", "m"), ("#N", "n")],
      Dict.ofList [(":hi", .string "z"), (":lo", .int 1)]⟩
    let r : Record := Dict.ofList [("a", .int 1), ("n", .null)]
    (∃ holds, b.eval r (.between (.path "a") (.value ":lo") (.path "#M")) = .ok holds ∧
      b.eval r (.and (.compare (.path "a") (.order .ge) (.value ":lo"))
        (.compare (.path "a") (.order .le) (.path "#M"))) = .ok holds) ∧
    (∃ holds, b.eval r (.isIn (.path "a") [.path "n", .value ":lo"]) = .ok holds ∧
      b.eval r (.or (.compare (.path "a") .eq (.path "n"))
        (.compare (.path "a") .eq (.value ":lo"))) = .ok holds) ∧
    (∃ holds, b.eval r (.compare (.path "n") .ne (.path "#M")) = .ok holds ∧
      b.eval r (.not (.compare (.path "n") .eq (.path "#M"))) = .ok holds) ∧
    sparse.isPositive = true ∧ b.Resolves sparse ∧ b.Absent r sparse ∧
      b.eval r sparse = .ok false := by
  intro b r
  have hresolves : ∀ operand ∈ [Operand.path "a", .path "n", .path "#M", .path "#N",
      .value ":lo", .value ":hi"], ∀ r, ∃ value, b.resolve r operand = .ok value := by
    intro operand hoperand r
    simp only [List.mem_cons, List.not_mem_nil, or_false] at hoperand
    rcases hoperand with rfl | rfl | rfl | rfl | rfl | rfl <;> exact ⟨_, rfl⟩
  have hsparse : b.Resolves sparse := fun operand hoperand =>
    hresolves operand (by revert operand; decide)
  have habsent : b.Absent r sparse := by
    intro path name hmem hname
    have hpath : path = "#N" ∨ path = "#M" := by
      simpa [sparse, Expr.operands] using hmem
    have hattribute := attributeName_eq_ok_iff.mpr hname
    rcases hpath with rfl | rfl
    · have hn : b.attributeName "#N" = .ok "n" := rfl
      cases hn.symm.trans hattribute
      exact .inr rfl
    · have hm : b.attributeName "#M" = .ok "m" := rfl
      cases hm.symm.trans hattribute
      exact .inl rfl
  obtain ⟨hbetween, hisIn, hne, hpositive⟩ := eval_consistent b r
  refine ⟨hbetween _ _ _ fun operand hoperand => hresolves operand (by revert operand; decide),
    hisIn _ _ _ fun operand hoperand => hresolves operand (by revert operand; decide),
    hne _ _ fun operand hoperand => hresolves operand (by revert operand; decide),
    rfl, hsparse, habsent, hpositive sparse rfl hsparse habsent⟩

end Bindings

end KeyedQuery
