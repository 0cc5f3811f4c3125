import Mathlib.Data.List.Forall2
import KeyedQuery.Proofs.Expression.FragmentText
import KeyedQuery.Proofs.Expression.Operators

/-!
# What a translated clause says

`Renders` relates an entry of a where clause to the fragments that stand for it
under some tables.  Translation gives such a fragment, and a fragment that
renders an entry evaluates, on every record and without an error, to what the
entry says of the record directly.  Tables that grow keep what they render.
-/

namespace KeyedQuery

namespace Bindings

/-- A path that is a marked word and stands for an attribute. -/
def Names (b : Bindings) (path name : String) : Prop :=
  MarkedWord '#' path ∧ b.names.get? path = some name

/-- A placeholder that is a marked word and stands for a value. -/
def Holds (b : Bindings) (placeholder : String) (value : Value) : Prop :=
  MarkedWord ':' placeholder ∧ b.values.get? placeholder = some value

theorem Names.mono {b b' : Bindings} {path name : String} (h : b.Names path name)
    (hsub : b ⊆ b') : b'.Names path name :=
  ⟨h.1, hsub.1 _ _ h.2⟩

theorem Holds.mono {b b' : Bindings} {placeholder : String} {value : Value}
    (h : b.Holds placeholder value) (hsub : b ⊆ b') : b'.Holds placeholder value :=
  ⟨h.1, hsub.2 _ _ h.2⟩

theorem attributeName_of_names {b : Bindings} {path name : String} (h : b.Names path name) :
    b.attributeName path = .ok name := by
  obtain ⟨⟨word, _, _, rfl⟩, hget⟩ := h
  unfold attributeName
  rw [if_pos (by simp), hget]

theorem resolve_path {b : Bindings} {path name : String} (h : b.Names path name) (r : Record) :
    b.resolve r (.path path) = .ok (r.present? name) := by
  simp only [resolve, attributeName_of_names h, ok_bind]

theorem resolve_value {b : Bindings} {placeholder : String} {value : Value}
    (h : b.Holds placeholder value) (r : Record) :
    b.resolve r (.value placeholder) = .ok (some value) := by
  simp only [resolve, h.2]

theorem isAmong_values {b : Bindings} {placeholders : List String} {values : List Value}
    (h : List.Forall₂ b.Holds placeholders values) (r : Record) (value : Value) :
    b.isAmong r value (placeholders.map .value) = .ok (values.any value.looseEq) := by
  have hcandidates : b.Candidates r (placeholders.map .value) (values.map some) :=
    List.forall₂_map_left_iff.mpr
      (List.forall₂_map_right_iff.mpr (h.imp fun _ _ hheld => resolve_value hheld r))
  rw [isAmong_eq value hcandidates, List.any_map]
  rfl

end Bindings

open Bindings

/-- The fragments that stand for an entry of a where clause under some tables. -/
inductive Renders (b : Bindings) : Clause → Fragment → Prop where
  | equals {name path placeholder : String} {value : Value}
      (hpath : b.Names path name) (hvalue : b.Holds placeholder value) :
      Renders b (.on name (.equals value)) (.compare path .eq placeholder)
  | compare {name path placeholder : String} {op : Comparison} {value : Value}
      (hpath : b.Names path name) (hvalue : b.Holds placeholder value) :
      Renders b (.on name (.compare op value)) (.compare path (.order op) placeholder)
  | between {name path lowHolder highHolder : String} {low high : Value}
      (hpath : b.Names path name) (hlow : b.Holds lowHolder low)
      (hhigh : b.Holds highHolder high) :
      Renders b (.on name (.between low high)) (.between path lowHolder highHolder)
  | isIn {name path : String} {placeholders : List String} {values : List Value}
      (hpath : b.Names path name) (hne : placeholders ≠ [])
      (hvalues : List.Forall₂ b.Holds placeholders values) :
      Renders b (.on name (.isIn values)) (.isIn path placeholders)
  | anyOf {entries : List (String × Value)} {pairs : List (String × String)}
      (hne : pairs ≠ [])
      (hentries : List.Forall₂
        (fun pair entry => b.Names pair.1 entry.1 ∧ b.Holds pair.2 entry.2) pairs entries) :
      Renders b (.anyOf entries) (.anyOf pairs)

namespace Renders

variable {b b' : Bindings} {c : Clause} {f : Fragment}

theorem mono (h : Renders b c f) (hsub : b ⊆ b') : Renders b' c f := by
  cases h with
  | equals hpath hvalue => exact .equals (hpath.mono hsub) (hvalue.mono hsub)
  | compare hpath hvalue => exact .compare (hpath.mono hsub) (hvalue.mono hsub)
  | between hpath hlow hhigh =>
      exact .between (hpath.mono hsub) (hlow.mono hsub) (hhigh.mono hsub)
  | isIn hpath hne hvalues =>
      exact .isIn (hpath.mono hsub) hne (hvalues.imp fun _ _ h => h.mono hsub)
  | anyOf hne hentries =>
      exact .anyOf hne (hentries.imp fun _ _ h => ⟨h.1.mono hsub, h.2.mono hsub⟩)

theorem spelled (h : Renders b c f) : f.Spelled := by
  cases h with
  | equals hpath hvalue => exact ⟨hpath.1, hvalue.1⟩
  | compare hpath hvalue => exact ⟨hpath.1, hvalue.1⟩
  | between hpath hlow hhigh => exact ⟨hpath.1, hlow.1, hhigh.1⟩
  | isIn hpath hne hvalues =>
      refine ⟨hpath.1, hne, fun name hname => ?_⟩
      obtain ⟨value, _, hheld⟩ := exists_of_mem_forall₂ hvalues hname
      exact hheld.1
  | anyOf hne hentries =>
      refine ⟨hne, fun pair hpair => ?_⟩
      obtain ⟨entry, _, hpath, hvalue⟩ := exists_of_mem_forall₂ hentries hpair
      exact ⟨hpath.1, hvalue.1⟩

theorem eval_compare {name path placeholder : String} {op : Comparator} {value : Value}
    (hne : op ≠ .ne) (hpath : b.Names path name) (hvalue : b.Holds placeholder value)
    (r : Record) :
    b.eval r (.compare (.path path) op (.value placeholder)) =
      .ok ((r.present? name).any fun held => op.test held value) := by
  rw [Bindings.eval_compare op (resolve_path hpath r) (resolve_value hvalue r)]
  cases r.present? name with
  | none => simp [hne]
  | some held => rfl

theorem eval_equality {pair : String × String} {entry : String × Value}
    (h : b.Names pair.1 entry.1 ∧ b.Holds pair.2 entry.2) (r : Record) :
    b.eval r (Fragment.equality pair) = .ok ((Condition.equals entry.2).holds r entry.1) := by
  unfold Fragment.equality
  rw [eval_compare (by simp) h.1 h.2]
  unfold Condition.holds
  cases r.present? entry.1 <;> rfl

/-- A fragment evaluates to what the entry that it renders says of the record. -/
theorem eval_expr (h : Renders b c f) (r : Record) : b.eval r f.expr = .ok (c.holds r) := by
  cases h with
  | @equals name path placeholder value hpath hvalue =>
      have hentry : b.Names (path, placeholder).1 (name, value).1 ∧
          b.Holds (path, placeholder).2 (name, value).2 := ⟨hpath, hvalue⟩
      exact eval_equality hentry r
  | @compare name path placeholder op value hpath hvalue =>
      simp only [Fragment.expr, Clause.holds, Condition.holds]
      rw [eval_compare (by simp) hpath hvalue]
      cases r.present? name <;> rfl
  | @between name path lowHolder highHolder low high hpath hlow hhigh =>
      simp only [Fragment.expr, Clause.holds, Condition.holds, eval, resolve_path hpath,
        resolve_value hlow, resolve_value hhigh, ok_bind]
      cases r.present? name <;> rfl
  | @isIn name path placeholders values hpath hne hvalues =>
      simp only [Fragment.expr, Clause.holds, Condition.holds, eval, resolve_path hpath,
        ok_bind]
      cases r.present? name with
      | none => rfl
      | some held => exact isAmong_values hvalues r held
  | @anyOf entries pairs hne hentries =>
      cases hentries with
      | nil => exact absurd rfl hne
      | cons hfirst hrest =>
          exact eval_foldl_or (hrest.imp fun _ _ h => eval_equality h r) (eval_equality hfirst r)

end Renders

namespace Bindings

/-! ## Translation -/

theorem holds_of_bind {b b' : Bindings} {base placeholder : String} {value : Value}
    (h : b.bind base value = (placeholder, b')) :
    b ⊆ b' ∧ b'.names = b.names ∧ b'.Holds placeholder value := by
  obtain ⟨hsub, hnames, hmarked, hget⟩ := bind_spec h
  exact ⟨hsub, hnames, hmarked, hget⟩

theorem names_of_aliasFor {b b' : Bindings} {name path : String} (hb : b.AliasesMarked)
    (h : b.aliasFor name = (path, b')) :
    b ⊆ b' ∧ b'.AliasesMarked ∧ b'.Names path name := by
  obtain ⟨hsub, hmarked, hpath, hget⟩ := aliasFor_spec hb h
  exact ⟨hsub, hmarked, hpath, hget⟩

/-- Every value of a list has its placeholder, and earlier placeholders keep their values. -/
theorem bindList_spec {b b' : Bindings} {name : String} {n : Nat} {values : List Value}
    {placeholders : List String} (h : b.bindList name n values = (placeholders, b')) :
    b ⊆ b' ∧ b'.names = b.names ∧ List.Forall₂ b'.Holds placeholders values := by
  induction values generalizing b n placeholders with
  | nil =>
      cases h
      exact ⟨subset_refl _, rfl, .nil⟩
  | cons value values ih =>
      rcases hfirst : b.bind (numbered name n) value with ⟨placeholder, b₁⟩
      rcases hrest : b₁.bindList name (n + 1) values with ⟨others, b₂⟩
      simp only [bindList, hfirst, hrest] at h
      cases h
      obtain ⟨hsub₁, hnames₁, hheld⟩ := holds_of_bind hfirst
      obtain ⟨hsub₂, hnames₂, hothers⟩ := ih hrest
      exact ⟨subset_trans hsub₁ hsub₂, hnames₂.trans hnames₁, .cons (hheld.mono hsub₂) hothers⟩

theorem bindEqualities_spec {b b' : Bindings} {entries : List (String × Value)}
    {pairs : List (String × String)} (hb : b.AliasesMarked)
    (h : b.bindEqualities entries = (pairs, b')) :
    b ⊆ b' ∧ b'.AliasesMarked ∧
      List.Forall₂ (fun pair entry => b'.Names pair.1 entry.1 ∧ b'.Holds pair.2 entry.2)
        pairs entries := by
  induction entries generalizing b pairs with
  | nil =>
      cases h
      exact ⟨subset_refl _, hb, .nil⟩
  | cons entry entries ih =>
      obtain ⟨name, value⟩ := entry
      rcases halias : b.aliasFor name with ⟨path, b₁⟩
      rcases hbind : b₁.bind name value with ⟨placeholder, b₂⟩
      rcases hrest : b₂.bindEqualities entries with ⟨others, b₃⟩
      simp only [bindEqualities, halias, hbind, hrest] at h
      cases h
      obtain ⟨hsub₁, hmarked₁, hpath⟩ := names_of_aliasFor hb halias
      obtain ⟨hsub₂, hnames₂, hheld⟩ := holds_of_bind hbind
      obtain ⟨hsub₃, hmarked₃, hothers⟩ := ih (hmarked₁.of_names_eq hnames₂) hrest
      refine ⟨subset_trans hsub₁ (subset_trans hsub₂ hsub₃), hmarked₃, .cons ⟨?_, ?_⟩ hothers⟩
      · exact hpath.mono (subset_trans hsub₂ hsub₃)
      · exact hheld.mono hsub₃

/-- A fragment that translation gives renders the condition, which is no membership in a key. -/
theorem translate_spec {b b' : Bindings} {position : Position} {name : String} {c : Condition}
    {f : Fragment} (hb : b.AliasesMarked)
    (h : b.translate position name c = (.ok f, b')) :
    b ⊆ b' ∧ b'.AliasesMarked ∧ Renders b' (.on name c) f ∧
      (position = .key → c.isMembership = false) := by
  rcases halias : b.aliasFor name with ⟨path, b₁⟩
  obtain ⟨hsub₁, hmarked₁, hpath⟩ := names_of_aliasFor hb halias
  cases c with
  | equals value =>
      rcases hbind : b₁.bind name value with ⟨placeholder, b₂⟩
      simp only [translate, halias, hbind] at h
      cases h
      obtain ⟨hsub₂, hnames, hheld⟩ := holds_of_bind hbind
      exact ⟨subset_trans hsub₁ hsub₂, hmarked₁.of_names_eq hnames,
        .equals (hpath.mono hsub₂) hheld, fun _ => rfl⟩
  | compare op value =>
      rcases hbind : b₁.bind name value with ⟨placeholder, b₂⟩
      simp only [translate, halias, hbind] at h
      cases h
      obtain ⟨hsub₂, hnames, hheld⟩ := holds_of_bind hbind
      exact ⟨subset_trans hsub₁ hsub₂, hmarked₁.of_names_eq hnames,
        .compare (hpath.mono hsub₂) hheld, fun _ => rfl⟩
  | between low high =>
      rcases hlow : b₁.bind (name ++ "_start") low with ⟨lowHolder, b₂⟩
      rcases hhigh : b₂.bind (name ++ "_end") high with ⟨highHolder, b₃⟩
      simp only [translate, halias, hlow, hhigh] at h
      cases h
      obtain ⟨hsub₂, hnames₂, hheldLow⟩ := holds_of_bind hlow
      obtain ⟨hsub₃, hnames₃, hheldHigh⟩ := holds_of_bind hhigh
      exact ⟨subset_trans hsub₁ (subset_trans hsub₂ hsub₃),
        (hmarked₁.of_names_eq hnames₂).of_names_eq hnames₃,
        .between (hpath.mono (subset_trans hsub₂ hsub₃)) (hheldLow.mono hsub₃) hheldHigh,
        fun _ => rfl⟩
  | isIn values =>
      rcases hlist : b₁.bindList name 0 values with ⟨placeholders, b₂⟩
      simp only [translate, halias, hlist] at h
      split at h
      · cases h
      · rename_i hposition
        split at h
        · cases h
        · rename_i hvalues
          cases h
          obtain ⟨hsub₂, hnames, hheld⟩ := bindList_spec hlist
          refine ⟨subset_trans hsub₁ hsub₂, hmarked₁.of_names_eq hnames,
            .isIn (hpath.mono hsub₂) ?_ hheld, fun hkey => absurd hkey hposition⟩
          intro hnil
          rw [hnil, List.forall₂_nil_left_iff] at hheld
          exact hvalues (by rw [hheld]; rfl)

theorem translateClause_spec {b b' : Bindings} {c : Clause} {f : Fragment}
    (hb : b.AliasesMarked) (h : b.translateClause c = (.ok f, b')) :
    b ⊆ b' ∧ b'.AliasesMarked ∧ Renders b' c f := by
  cases c with
  | on name condition =>
      obtain ⟨hsub, hmarked, hrenders, _⟩ := translate_spec hb h
      exact ⟨hsub, hmarked, hrenders⟩
  | anyOf entries =>
      rcases hpairs : b.bindEqualities entries with ⟨pairs, b₁⟩
      simp only [translateClause, translateAnyOf, hpairs] at h
      split at h
      · cases h
      · rename_i hentries
        cases h
        obtain ⟨hsub, hmarked, hall⟩ := bindEqualities_spec hb hpairs
        refine ⟨hsub, hmarked, .anyOf ?_ hall⟩
        intro hnil
        rw [hnil, List.forall₂_nil_left_iff] at hall
        exact hentries (by rw [hall]; rfl)

end Bindings

end KeyedQuery
