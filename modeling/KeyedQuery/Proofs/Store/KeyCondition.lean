import KeyedQuery.Proofs.Store.Acceptance

/-!
# What a key condition is

A store accepts a tree of conjunctions whose leaves test the hash attribute for
equality, once, and the sort attribute at most once, in any order and nesting.  The
check goes through the leaves from left to right and keeps two marks; each mark counts
the tests of its attribute, of which there is never a second one.  Every record that
satisfies such a condition has the value of the one equality as its hash attribute.
-/

namespace KeyedQuery

namespace KeyNames

/--
A tree of conjunctions of so many tests of the hash attribute and so many tests of the
sort attribute, and of nothing else.
-/
inductive Tests (k : KeyNames) (names : Dict String) : Nat → Nat → Expr → Prop where
  | hash {path placeholder : String} (hpath : StandsFor names path k.hash) :
      Tests k names 1 0 (.compare (.path path) .eq (.value placeholder))
  | order {path name placeholder : String} {op : Comparator} (hpath : StandsFor names path name)
      (hsort : k.sort = some name) (hop : op ≠ .ne) :
      Tests k names 0 1 (.compare (.path path) op (.value placeholder))
  | range {path name low high : String} (hpath : StandsFor names path name)
      (hsort : k.sort = some name) :
      Tests k names 0 1 (.between (.path path) (.value low) (.value high))
  | and {hashes hashes' sorts sorts' : Nat} {left right : Expr}
      (hleft : Tests k names hashes sorts left) (hright : Tests k names hashes' sorts' right) :
      Tests k names (hashes + hashes') (sorts + sorts') (.and left right)

variable {k : KeyNames} {b : Bindings} {t t' : KeysTested} {e : Expr} {hashes sorts : Nat}

/-! ## The check counts -/

/-- The marks after some tests, of which no attribute has had more than one. -/
def Counts (t : KeysTested) (hashes sorts : Nat) (t' : KeysTested) : Prop :=
  t'.hash.toNat = t.hash.toNat + hashes ∧ t'.sort.toNat = t.sort.toNat + sorts

theorem counts_hash_iff :
    Counts t 1 0 t' ↔ t.hash = false ∧ t' = { t with hash := true } := by
  obtain ⟨hash, sort⟩ := t
  obtain ⟨hash', sort'⟩ := t'
  cases hash <;> cases hash' <;> cases sort <;> cases sort' <;> simp [Counts]

theorem counts_sort_iff :
    Counts t 0 1 t' ↔ t.sort = false ∧ t' = { t with sort := true } := by
  obtain ⟨hash, sort⟩ := t
  obtain ⟨hash', sort'⟩ := t'
  cases hash <;> cases hash' <;> cases sort <;> cases sort' <;> simp [Counts]

/-- A mark that ends up with a count has been at every count before it. -/
theorem exists_toNat_eq {n m : Nat} {mark : Bool} (h : n + m = mark.toNat) :
    ∃ before : Bool, before.toNat = n := by
  have hle := mark.toNat_le
  rcases (by omega : n = 0 ∨ n = 1) with rfl | rfl
  · exact ⟨false, rfl⟩
  · exact ⟨true, rfl⟩

/-- Counting goes on from where it has come to. -/
theorem counts_add_iff {hashes' sorts' : Nat} :
    Counts t (hashes + hashes') (sorts + sorts') t' ↔
      ∃ between, Counts t hashes sorts between ∧ Counts between hashes' sorts' t' := by
  constructor
  · rintro ⟨hhash, hsort⟩
    obtain ⟨hash, hhash'⟩ := exists_toNat_eq (n := t.hash.toNat + hashes) (m := hashes')
      (by rw [Nat.add_assoc]; exact hhash.symm)
    obtain ⟨sort, hsort'⟩ := exists_toNat_eq (n := t.sort.toNat + sorts) (m := sorts')
      (by rw [Nat.add_assoc]; exact hsort.symm)
    refine ⟨⟨hash, sort⟩, ⟨hhash', hsort'⟩, ?_, ?_⟩
    · rw [hhash', hhash, Nat.add_assoc]
    · rw [hsort', hsort, Nat.add_assoc]
  · rintro ⟨between, ⟨hhash, hsort⟩, hhash', hsort'⟩
    exact ⟨by omega, by omega⟩

theorem testedName_eq_ok_iff {path name : String} :
    testedName b (.path path) = .ok name ↔ StandsFor b.names path name := by
  rw [← Bindings.attributeName_eq_ok_iff]
  simp only [testedName]
  split
  · rename_i hname
    simp [hname]
  · rename_i hname
    simp [hname]

/-- A test of an attribute by a comparison is counted for the one that it tests. -/
theorem checkPart_compare_eq_ok_iff (hkeys : k.sort ≠ some k.hash) {path placeholder : String}
    {op : Comparator} :
    k.checkPart b t (.compare (.path path) op (.value placeholder)) = .ok t' ↔
      ∃ hashes sorts, Tests k b.names hashes sorts (.compare (.path path) op (.value placeholder)) ∧
        Counts t hashes sorts t' := by
  rw [checkPart, bind_eq_ok_iff]
  constructor
  · rintro ⟨name, hname, h⟩
    rw [testedName_eq_ok_iff] at hname
    split at h
    · rename_i htest
      obtain ⟨rfl, rfl, hfirst⟩ := htest
      cases h
      exact ⟨1, 0, .hash hname, counts_hash_iff.mpr ⟨hfirst, rfl⟩⟩
    · split at h
      · rename_i htest
        obtain ⟨hsort, hop, hfirst⟩ := htest
        cases h
        exact ⟨0, 1, .order hname hsort.symm hop, counts_sort_iff.mpr ⟨hfirst, rfl⟩⟩
      · cases h
  · rintro ⟨hashes, sorts, htests, hcounts⟩
    cases htests with
    | hash hpath =>
        obtain ⟨hfirst, rfl⟩ := counts_hash_iff.mp hcounts
        exact ⟨k.hash, testedName_eq_ok_iff.mpr hpath, if_pos ⟨rfl, rfl, hfirst⟩⟩
    | @order _ name _ _ hpath hsort hop =>
        obtain ⟨hfirst, rfl⟩ := counts_sort_iff.mp hcounts
        have hother : name ≠ k.hash := fun heq => hkeys (by rw [hsort, heq])
        refine ⟨name, testedName_eq_ok_iff.mpr hpath, ?_⟩
        rw [if_neg fun htest => hother htest.1, if_pos ⟨hsort.symm, hop, hfirst⟩]

theorem checkPart_between_eq_ok_iff {path low high : String} :
    k.checkPart b t (.between (.path path) (.value low) (.value high)) = .ok t' ↔
      ∃ hashes sorts,
        Tests k b.names hashes sorts (.between (.path path) (.value low) (.value high)) ∧
          Counts t hashes sorts t' := by
  rw [checkPart, bind_eq_ok_iff]
  constructor
  · rintro ⟨name, hname, h⟩
    rw [testedName_eq_ok_iff] at hname
    split at h
    · rename_i htest
      obtain ⟨hsort, hfirst⟩ := htest
      cases h
      exact ⟨0, 1, .range hname hsort.symm, counts_sort_iff.mpr ⟨hfirst, rfl⟩⟩
    · cases h
  · rintro ⟨hashes, sorts, htests, hcounts⟩
    cases htests with
    | range hpath hsort =>
        obtain ⟨hfirst, rfl⟩ := counts_sort_iff.mp hcounts
        exact ⟨_, testedName_eq_ok_iff.mpr hpath, if_pos ⟨hsort.symm, hfirst⟩⟩

/-- What is refused, and is no test, is no test that is accepted. -/
theorem refused_iff {why : Rejection} (hrefused : k.checkPart b t e = .error why)
    (hother : ∀ hashes sorts, ¬ Tests k b.names hashes sorts e) :
    k.checkPart b t e = .ok t' ↔
      ∃ hashes sorts, Tests k b.names hashes sorts e ∧ Counts t hashes sorts t' := by
  rw [hrefused]
  constructor
  · intro h
    cases h
  · rintro ⟨hashes, sorts, htests, _⟩
    exact absurd htests (hother hashes sorts)

/-- A part is accepted when it is a test, and then it is counted. -/
theorem checkPart_eq_ok_iff (hkeys : k.sort ≠ some k.hash) (hpart : ∀ l r, e ≠ .and l r) :
    k.checkPart b t e = .ok t' ↔
      ∃ hashes sorts, Tests k b.names hashes sorts e ∧ Counts t hashes sorts t' := by
  cases e with
  | compare left op right =>
      cases right with
      | path other => exact refused_iff rfl nofun
      | value placeholder =>
          cases left with
          | path path => exact checkPart_compare_eq_ok_iff hkeys
          | value other => exact refused_iff rfl nofun
  | between value low high =>
      cases low with
      | path other => exact refused_iff rfl nofun
      | value low =>
          cases high with
          | path other => exact refused_iff rfl nofun
          | value high =>
              cases value with
              | path path => exact checkPart_between_eq_ok_iff
              | value other => exact refused_iff rfl nofun
  | isIn value list => exact refused_iff rfl nofun
  | and left right => exact absurd rfl (hpart left right)
  | or left right => exact refused_iff rfl nofun
  | not inner => exact refused_iff rfl nofun

theorem conjuncts_of_ne_and (hpart : ∀ l r, e ≠ .and l r) : e.conjuncts = [e] := by
  cases e with
  | and left right => exact absurd rfl (hpart left right)
  | _ => rfl

theorem foldlM_checkPart_of_leaf (hkeys : k.sort ≠ some k.hash) (hpart : ∀ l r, e ≠ .and l r) :
    e.conjuncts.foldlM (k.checkPart b) t = .ok t' ↔
      ∃ hashes sorts, Tests k b.names hashes sorts e ∧ Counts t hashes sorts t' := by
  rw [conjuncts_of_ne_and hpart, List.foldlM_cons, bind_eq_ok_iff,
    ← checkPart_eq_ok_iff hkeys hpart]
  constructor
  · rintro ⟨_, hstep, hdone⟩
    cases hdone
    exact hstep
  · intro hstep
    exact ⟨t', hstep, rfl⟩

/-- Going through the leaves of a tree counts its tests. -/
theorem foldlM_checkPart_eq_ok_iff (hkeys : k.sort ≠ some k.hash) :
    e.conjuncts.foldlM (k.checkPart b) t = .ok t' ↔
      ∃ hashes sorts, Tests k b.names hashes sorts e ∧ Counts t hashes sorts t' := by
  -- The induction is on the tree; the marks after the left part are those before the right one.
  induction e generalizing t t' with
  | and left right ihleft ihright =>
      rw [Expr.conjuncts, List.foldlM_append, bind_eq_ok_iff]
      constructor
      · rintro ⟨between, hbefore, hafter⟩
        obtain ⟨hashes, sorts, hleft, hcounts⟩ := ihleft.mp hbefore
        obtain ⟨hashes', sorts', hright, hcounts'⟩ := ihright.mp hafter
        exact ⟨_, _, .and hleft hright, counts_add_iff.mpr ⟨between, hcounts, hcounts'⟩⟩
      · rintro ⟨_, _, htests, hcounts⟩
        cases htests with
        | and hleft hright =>
            obtain ⟨between, hcounts, hcounts'⟩ := counts_add_iff.mp hcounts
            exact ⟨between, ihleft.mpr ⟨_, _, hleft, hcounts⟩,
              ihright.mpr ⟨_, _, hright, hcounts'⟩⟩
  | _ => exact foldlM_checkPart_of_leaf hkeys (by simp)

/-- A key condition has one test of the hash attribute and at most one of the sort attribute. -/
theorem check_eq_ok_iff (hkeys : k.sort ≠ some k.hash) :
    k.check b e = .ok () ↔ ∃ sorts, sorts ≤ 1 ∧ Tests k b.names 1 sorts e := by
  rw [check, bind_eq_ok_iff]
  constructor
  · rintro ⟨⟨hash, sort⟩, hfold, hmark⟩
    obtain ⟨hashes, sorts, htests, hcounts⟩ := (foldlM_checkPart_eq_ok_iff hkeys).mp hfold
    obtain ⟨hhash, hsort⟩ := hcounts
    cases hash with
    | false => cases hmark
    | true =>
        have hone : hashes = 1 := by simpa using hhash.symm
        have hsorts : sorts = sort.toNat := by simpa using hsort.symm
        subst hone hsorts
        exact ⟨_, sort.toNat_le, htests⟩
  · rintro ⟨sorts, hle, htests⟩
    have hcounts : Counts ⟨false, false⟩ 1 sorts ⟨true, decide (sorts = 1)⟩ := by
      rcases (by omega : sorts = 0 ∨ sorts = 1) with rfl | rfl <;> exact ⟨rfl, rfl⟩
    exact ⟨_, (foldlM_checkPart_eq_ok_iff hkeys).mpr ⟨1, sorts, htests, hcounts⟩, rfl⟩

/-! ## One partition -/

theorem eval_and_eq_ok_true_iff {r : Record} {left right : Expr} :
    b.eval r (.and left right) = .ok true ↔
      b.eval r left = .ok true ∧ b.eval r right = .ok true := by
  rw [Bindings.eval, bind_eq_ok_iff]
  constructor
  · rintro ⟨holds, hleft, hright⟩
    cases holds with
    | false => cases hright
    | true => exact ⟨hleft, hright⟩
  · rintro ⟨hleft, hright⟩
    exact ⟨true, hleft, hright⟩

/-- A record that passes an equality has an attribute with the value. -/
theorem present_of_eval_equality {r : Record} {path name placeholder : String} {h : Value}
    (hpath : StandsFor b.names path name) (hvalue : b.values.get? placeholder = some h)
    (heval : b.eval r (.compare (.path path) .eq (.value placeholder)) = .ok true) :
    ∃ v, r.present? name = some v ∧ v.looseEq h = true := by
  have hname := Bindings.attributeName_eq_ok_iff.mpr hpath
  simp only [Bindings.eval, Bindings.resolve, hname, hvalue, ok_bind] at heval
  cases hpresent : r.present? name with
  | none =>
      rw [hpresent] at heval
      cases heval
  | some v =>
      rw [hpresent] at heval
      exact ⟨v, rfl, Except.ok.inj heval⟩

/-- A tree with a test of the hash attribute pins that attribute, whatever the values are. -/
theorem Tests.exists_placeholder {names : Dict String} (h : Tests k names hashes sorts e)
    (hhash : 1 ≤ hashes) :
    ∃ placeholder, .value placeholder ∈ e.operands ∧
      ∀ (values : Dict Value) (held : Value), values.get? placeholder = some held →
        ∀ r, (⟨names, values⟩ : Bindings).eval r e = .ok true →
          ∃ v, r.present? k.hash = some v ∧ v.looseEq held = true := by
  induction h with
  | hash hpath =>
      refine ⟨_, List.mem_cons_of_mem _ List.mem_cons_self, ?_⟩
      exact fun values held hheld r heval => present_of_eval_equality hpath hheld heval
  | order _ _ _ => cases hhash
  | range _ _ => cases hhash
  | @and hashes hashes' _ _ _ _ _ _ ihleft ihright =>
      rcases (by omega : 1 ≤ hashes ∨ 1 ≤ hashes') with hleft | hright
      · obtain ⟨placeholder, hmem, hpins⟩ := ihleft hleft
        refine ⟨placeholder, List.mem_append_left _ hmem, fun values held hheld r heval => ?_⟩
        exact hpins values held hheld r (eval_and_eq_ok_true_iff.mp heval).1
      · obtain ⟨placeholder, hmem, hpins⟩ := ihright hright
        refine ⟨placeholder, List.mem_append_right _ hmem, fun values held hheld r heval => ?_⟩
        exact hpins values held hheld r (eval_and_eq_ok_true_iff.mp heval).2

theorem exists_held_of_resolves {placeholder : String} (h : b.Resolves e)
    (hmem : .value placeholder ∈ e.operands) : ∃ held, b.values.get? placeholder = some held := by
  obtain ⟨value, hvalue⟩ := h _ hmem .empty
  rw [Bindings.resolve] at hvalue
  split at hvalue
  · rename_i held hheld
    exact ⟨held, hheld⟩
  · cases hvalue

/--
A store accepts as a key condition exactly the trees of conjunctions with one equality
on the hash attribute and at most one comparison or range on the sort attribute, each
of an attribute on the left with values.  Under any values for the placeholders of such
a tree, all records that satisfy it have one and the same hash attribute, up to the
equality of conditions.
-/
theorem check_pins_partition (hkeys : k.sort ≠ some k.hash) (b : Bindings) (e : Expr) :
    (k.check b e = .ok () ↔ ∃ sorts, sorts ≤ 1 ∧ Tests k b.names 1 sorts e) ∧
      (k.check b e = .ok () →
        ∀ values, (⟨b.names, values⟩ : Bindings).Resolves e →
          ∃ placeholder held, .value placeholder ∈ e.operands ∧
            values.get? placeholder = some held ∧
            ∀ r, (⟨b.names, values⟩ : Bindings).eval r e = .ok true →
              ∃ v, r.present? k.hash = some v ∧ v.looseEq held = true) := by
  refine ⟨check_eq_ok_iff hkeys, fun hcheck values hresolves => ?_⟩
  obtain ⟨sorts, _, htests⟩ := (check_eq_ok_iff hkeys).mp hcheck
  obtain ⟨placeholder, hmem, hpins⟩ := htests.exists_placeholder (Nat.le_refl 1)
  obtain ⟨held, hheld⟩ := exists_held_of_resolves hresolves hmem
  exact ⟨placeholder, held, hmem, hheld, hpins values held hheld⟩

/-- A range on the sort attribute before the equality, one by its name and one by an alias. -/
def rangeFirst : Expr :=
  .and (.between (.path "id") (.value ":lo") (.value ":hi"))
    (.compare (.path "#R") .eq (.value ":r"))

theorem check_pins_partition_rangeFirst :
    let k : KeyNames := ⟨"realm", some "id"⟩
    let names := Dict.ofList [("#R", "realm")]
    let values := Dict.ofList [(":hi", .string "9"), (":lo", .string "1"), (":r", .int 1)]
    k.sort ≠ some k.hash ∧ k.check ⟨names, values⟩ rangeFirst = .ok () ∧
      (⟨names, values⟩ : Bindings).Resolves rangeFirst ∧
      ∃ held, ∀ r, (⟨names, values⟩ : Bindings).eval r rangeFirst = .ok true →
        ∃ v, r.present? "realm" = some v ∧ v.looseEq held = true := by
  intro k names values
  have hkeys : k.sort ≠ some k.hash := by decide
  have hrealm : StandsFor names "#R" k.hash := by
    unfold StandsFor
    decide +kernel
  have hid : StandsFor names "id" "id" := by
    unfold StandsFor
    decide +kernel
  obtain ⟨hexact, hpins⟩ := check_pins_partition hkeys ⟨names, values⟩ rangeFirst
  have hcheck := hexact.mpr ⟨1, Nat.le_refl 1, .and (.range hid rfl) (.hash hrealm)⟩
  have hresolves : (⟨names, values⟩ : Bindings).Resolves rangeFirst := by
    intro operand hoperand r
    simp only [rangeFirst, Expr.operands, List.cons_append, List.nil_append, List.mem_cons,
      List.not_mem_nil, or_false] at hoperand
    rcases hoperand with rfl | rfl | rfl | rfl | rfl <;> exact ⟨_, rfl⟩
  obtain ⟨_, held, _, _, hall⟩ := hpins hcheck values hresolves
  exact ⟨hkeys, hcheck, hresolves, held, hall⟩

end KeyNames

end KeyedQuery
