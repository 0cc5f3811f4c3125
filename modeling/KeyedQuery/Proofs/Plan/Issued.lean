import KeyedQuery.Proofs.Expression.Layout
import KeyedQuery.Proofs.Plan.Placeholders

/-!
# Issued aliases and placeholders

Tables are changed by calls for the alias of an attribute and for a placeholder of a
value.  Whatever the calls, each search ends with its first candidate that is free,
an alias stands for one attribute and an attribute has one alias, and a placeholder is
issued once and keeps its value.  The aliases of attributes may as well be held in a
table of their own, which is then the inverse of the table of the aliases.
-/

namespace KeyedQuery

/-! ## Candidates -/

/-- The first candidate that is not taken, of endlessly many; none after `last` is tried. -/
def FirstFree (taken : String → Bool) (candidate : Nat → String) (last : Nat)
    (found : String) : Prop :=
  ∃ k ≤ last, found = candidate k ∧ taken (candidate k) = false ∧
    ∀ j < k, taken (candidate j) = true

/-- The beginnings of a word as aliases, from the shortest on, and then the word with a number. -/
def aliasCandidate (word : List Char) (k : Nat) : String :=
  if k < word.length then
    String.ofList ('#' :: word.take (k + 1))
  else
    numbered (String.ofList ('#' :: word)) (k - word.length + 1)

/-- A stem, and then the stem with a number. -/
def placeholderCandidate (stem : String) : Nat → String
  | 0 => stem
  | n + 1 => numbered stem (n + 1)

/-- The search among numbered names of which more are tried than names are taken. -/
theorem exists_firstNumbered_free {α : Type} (d : Dict α) (stem : String) :
    ∃ k ≤ d.size, firstNumbered d.contains stem d.size 1 = numbered stem (k + 1) ∧
      d.contains (numbered stem (k + 1)) = false ∧
      ∀ j < k, d.contains (numbered stem (j + 1)) = true := by
  obtain ⟨k, hle, heq, hpassed, _⟩ := exists_firstNumbered_eq d.contains stem d.size 1
  have hfree := firstNumbered_fresh d stem 1
  simp only [Nat.add_comm 1] at heq hpassed
  rw [heq] at hfree
  exact ⟨k, hle, heq, hfree, hpassed⟩

namespace Bindings

theorem newAlias_firstFree (b : Bindings) (name : String) :
    FirstFree b.names.contains (aliasCandidate ((wordOfName name).map Char.toUpper))
      ((wordOfName name).length + b.names.size) (b.newAlias name) := by
  unfold newAlias
  dsimp only
  have hlength : ((wordOfName name).map Char.toUpper).length = (wordOfName name).length :=
    List.length_map _
  rw [← hlength]
  generalize (wordOfName name).map Char.toUpper = word
  have hbeginning : ∀ j < word.length,
      aliasCandidate word j = String.ofList ('#' :: word.take (j + 1)) :=
    fun j hj => if_pos hj
  have hnumbered : ∀ j, aliasCandidate word (word.length + j) =
      numbered (String.ofList ('#' :: word)) (j + 1) := by
    intro j
    rw [aliasCandidate, if_neg (by omega), Nat.add_sub_cancel_left]
  split
  · rename_i found hfind
    obtain ⟨hfree, k, hk, rfl, hpassed⟩ := List.find?_eq_some_iff_getElem.mp hfind
    simp only [List.length_map, List.length_range] at hk
    simp only [List.getElem_map, List.getElem_range, Bool.not_not] at hfree hpassed ⊢
    refine ⟨k, by omega, (hbeginning k hk).symm, ?_, fun j hj => ?_⟩
    · rw [hbeginning k hk]
      simpa using hfree
    · rw [hbeginning j (by omega)]
      exact hpassed j hj
  · rename_i hnone
    obtain ⟨k, hle, heq, hfree, hpassed⟩ :=
      exists_firstNumbered_free b.names (String.ofList ('#' :: word))
    -- All beginnings are taken, so the candidates that are passed over include them.
    refine ⟨word.length + k, by omega, ?_, ?_, fun j hj => ?_⟩
    · rw [hnumbered, heq]
    · rw [hnumbered]
      exact hfree
    · by_cases hlt : j < word.length
      · have htaken := List.find?_eq_none.mp hnone (aliasCandidate word j)
          (List.mem_map.mpr ⟨j, List.mem_range.mpr hlt, (hbeginning j hlt).symm⟩)
        simpa using htaken
      · obtain ⟨i, rfl⟩ := Nat.exists_eq_add_of_le (Nat.le_of_not_lt hlt)
        rw [hnumbered]
        exact hpassed i (by omega)

theorem newPlaceholder_firstFree (b : Bindings) (base : String) :
    FirstFree b.values.contains
      (placeholderCandidate (String.ofList (':' :: wordOfName base))) (b.values.size + 1)
      (b.newPlaceholder base) := by
  unfold newPlaceholder
  dsimp only
  split
  · rename_i htaken
    obtain ⟨k, hle, heq, hfree, hpassed⟩ :=
      exists_firstNumbered_free b.values (String.ofList (':' :: wordOfName base))
    refine ⟨k + 1, by omega, heq, hfree, fun j hj => ?_⟩
    cases j with
    | zero => exact htaken
    | succ j => exact hpassed j (by omega)
  · rename_i hfree
    exact ⟨0, by omega, rfl, by simpa [placeholderCandidate] using hfree, by simp⟩

end Bindings

/-! ## Runs -/

section Runs

variable {σ ι ο : Type} (step : σ → ι → ο × σ)

/-- The answers to inputs that are taken one after the other, each beside its input. -/
def runAll (s : σ) : List ι → List (ι × ο) × σ
  | [] => ([], s)
  | input :: rest =>
      let (output, s) := step s input
      let (answers, s) := runAll s rest
      ((input, output) :: answers, s)

theorem runAll_append (s : σ) (before after : List ι) :
    runAll step s (before ++ after) =
      ((runAll step s before).1 ++ (runAll step (runAll step s before).2 after).1,
        (runAll step (runAll step s before).2 after).2) := by
  induction before generalizing s with
  | nil => rfl
  | cons input before ih => simp only [List.cons_append, runAll, ih]

/-- Every input has one answer. -/
theorem map_fst_runAll (s : σ) (inputs : List ι) :
    (runAll step s inputs).1.map Prod.fst = inputs := by
  induction inputs generalizing s with
  | nil => rfl
  | cons input inputs ih => simp only [runAll, List.map_cons, ih]

end Runs

/-- An answer that means something in tables that grow goes on to mean it to the end of a run. -/
theorem Bindings.runAll_spec {ι ο : Type} {step : Bindings → ι → ο × Bindings}
    (Meaning : Bindings → ι → ο → Prop)
    (hmono : ∀ {b b' input output}, Meaning b input output → b ⊆ b' → Meaning b' input output)
    (hstep : ∀ {b b' input output}, b.AliasesMarked → step b input = (output, b') →
      b ⊆ b' ∧ b'.AliasesMarked ∧ Meaning b' input output)
    {b b' : Bindings} {inputs : List ι} {answers : List (ι × ο)} (hb : b.AliasesMarked)
    (h : runAll step b inputs = (answers, b')) :
    b ⊆ b' ∧ b'.AliasesMarked ∧ ∀ answer ∈ answers, Meaning b' answer.1 answer.2 := by
  induction inputs generalizing b answers with
  | nil =>
      cases h
      exact ⟨subset_refl _, hb, by simp⟩
  | cons input inputs ih =>
      rcases hfirst : step b input with ⟨output, b₁⟩
      rcases hrest : runAll step b₁ inputs with ⟨others, b₂⟩
      simp only [runAll, hfirst, hrest] at h
      cases h
      obtain ⟨hsub₁, hmarked₁, hmeans⟩ := hstep hb hfirst
      obtain ⟨hsub₂, hmarked₂, hothers⟩ := ih hmarked₁ hrest
      refine ⟨subset_trans hsub₁ hsub₂, hmarked₂, fun answer hanswer => ?_⟩
      rcases List.mem_cons.mp hanswer with rfl | hanswer
      · exact hmono hmeans hsub₂
      · exact hothers answer hanswer

/-! ## Calls -/

/-- A call for the alias of an attribute, or for a placeholder of a value. -/
inductive Call where
  | aliasFor (name : String)
  | bind (base : String) (value : Value)

namespace Call

/-- The operand that a name issued by a call is. -/
def operand (text : String) : Call → Operand
  | .aliasFor _ => .path text
  | .bind _ _ => .value text

def mark : Call → Char
  | .aliasFor _ => '#'
  | .bind _ _ => ':'

def name? : Call → Option String
  | .aliasFor name => some name
  | .bind _ _ => none

end Call

def aliasesOf (issued : List (Call × String)) : List String :=
  issued.filterMap fun
    | (.aliasFor _, text) => some text
    | (.bind _ _, _) => none

def placeholdersOf (issued : List (Call × String)) : List String :=
  issued.filterMap fun
    | (.aliasFor _, _) => none
    | (.bind _ _, text) => some text

namespace Bindings

def issue (b : Bindings) : Call → String × Bindings
  | .aliasFor name => b.aliasFor name
  | .bind base value => b.bind base value

/-- An issued name stands for what it was asked for. -/
def Means (b : Bindings) : Call → String → Prop
  | .aliasFor name, path => b.Names path name
  | .bind _ value, placeholder => b.Holds placeholder value

variable {b b' : Bindings} {call : Call} {text : String} {calls : List Call}
  {issued : List (Call × String)}

theorem Means.mono (h : b.Means call text) (hsub : b ⊆ b') : b'.Means call text := by
  cases call with
  | aliasFor name => exact Names.mono h hsub
  | bind base value => exact Holds.mono h hsub

theorem Means.marked (h : b.Means call text) : MarkedWord call.mark text := by
  cases call with
  | aliasFor name => exact h.1
  | bind base value => exact h.1

theorem issue_spec (hb : b.AliasesMarked) (h : b.issue call = (text, b')) :
    b ⊆ b' ∧ b'.AliasesMarked ∧ b'.Means call text := by
  cases call with
  | aliasFor name => exact names_of_aliasFor hb h
  | bind base value =>
      obtain ⟨hsub, hnames, hheld⟩ := holds_of_bind h
      exact ⟨hsub, hb.of_names_eq hnames, hheld⟩

/-- Every issued name stands for what it was asked for, and goes on to do so. -/
theorem issued_spec (hb : b.AliasesMarked) (h : runAll issue b calls = (issued, b')) :
    b ⊆ b' ∧ b'.AliasesMarked ∧ ∀ entry ∈ issued, b'.Means entry.1 entry.2 :=
  runAll_spec Means Means.mono issue_spec hb h

/-- The tables grow by what is issued. -/
theorem grows_issued (h : runAll issue b calls = (issued, b')) :
    b.Grows b' (aliasesOf issued) (placeholdersOf issued) (calls.filterMap Call.name?) := by
  induction calls generalizing b issued with
  | nil =>
      cases h
      exact Grows.refl _
  | cons call calls ih =>
      rcases hfirst : b.issue call with ⟨text, b₁⟩
      rcases hrest : runAll issue b₁ calls with ⟨others, b₂⟩
      simp only [runAll, hfirst, hrest] at h
      cases h
      cases call with
      | aliasFor name => exact (grows_aliasFor hfirst).trans (ih hrest)
      | bind base value => exact (grows_bind hfirst).trans (ih hrest)

end Bindings

/-! ## A table of the aliases of attributes -/

/-- Tables with the aliases of attributes held beside them. -/
structure IndexedBindings where
  bindings : Bindings
  /-- Attributes to their aliases. -/
  aliases : Dict String

namespace IndexedBindings

def empty : IndexedBindings :=
  ⟨.empty, .empty⟩

def issue (x : IndexedBindings) : Call → String × IndexedBindings
  | .aliasFor name =>
      match x.aliases.get? name with
      | some path => (path, x)
      | none =>
          let path := x.bindings.newAlias name
          (path,
            ⟨{ x.bindings with names := x.bindings.names.insert path name },
              x.aliases.insert name path⟩)
  | .bind base value =>
      let (text, bindings) := x.bindings.bind base value
      (text, { x with bindings })

/-- An attribute has an alias when the alias stands for the attribute. -/
def Inverse (x : IndexedBindings) : Prop :=
  ∀ path name,
    x.bindings.names.get? path = some name ↔ x.aliases.get? name = some path

variable {x : IndexedBindings} {call : Call} {calls : List Call}

theorem Inverse.aliasOf?_eq (h : x.Inverse) (name : String) :
    x.bindings.aliasOf? name = x.aliases.get? name := by
  cases hfound : x.bindings.aliasOf? name with
  | some path =>
      have hget := Bindings.get?_of_aliasOf? hfound
      exact ((h path name).mp hget).symm
  | none =>
      cases hheld : x.aliases.get? name with
      | none => rfl
      | some path =>
          exact absurd ((h path name).mpr hheld)
            (Bindings.get?_ne_of_aliasOf?_eq_none hfound path)

/-- A new alias for an attribute that has none goes into both tables. -/
theorem Inverse.insert (h : x.Inverse) {path name : String}
    (hpath : x.bindings.names.get? path = none) (hname : x.aliases.get? name = none) :
    Inverse ⟨{ x.bindings with names := x.bindings.names.insert path name },
      x.aliases.insert name path⟩ := by
  intro other held
  simp only [Dict.get?_insert]
  by_cases hother : other = path
  · by_cases hheld : held = name
    · simp [hother, hheld]
    · have hunused : x.aliases.get? held ≠ some path := by
        rw [Ne, ← h path held, hpath]
        simp
      simp [hother, hheld, hunused, Ne.symm hheld]
  · by_cases hheld : held = name
    · have hunused : x.bindings.names.get? other ≠ some name := by
        rw [Ne, h other name, hname]
        simp
      simp [hother, hheld, hunused, Ne.symm hother]
    · simp [hother, hheld, h other held]

/-- One call issues the same name with and without the table of the aliases of attributes. -/
theorem Inverse.issue (h : x.Inverse) (call : Call) :
    (x.issue call).2.Inverse ∧ (x.issue call).1 = (x.bindings.issue call).1 ∧
      (x.issue call).2.bindings = (x.bindings.issue call).2 := by
  cases call with
  | bind base value => exact ⟨h, rfl, rfl⟩
  | aliasFor name =>
      have haliasOf := h.aliasOf?_eq name
      cases hheld : x.aliases.get? name with
      | some path =>
          rw [hheld] at haliasOf
          simp only [IndexedBindings.issue, hheld, Bindings.issue, Bindings.aliasFor, haliasOf]
          exact ⟨h, trivial, trivial⟩
      | none =>
          rw [hheld] at haliasOf
          have hpath := Dict.get?_eq_none_of_contains_eq_false
            (x.bindings.newAlias_spec name).1
          simp only [IndexedBindings.issue, hheld, Bindings.issue, Bindings.aliasFor, haliasOf]
          exact ⟨h.insert hpath hheld, trivial, trivial⟩

theorem Inverse.runAll (h : x.Inverse) (calls : List Call) :
    (runAll IndexedBindings.issue x calls).2.Inverse ∧
      (runAll IndexedBindings.issue x calls).1 =
        (runAll Bindings.issue x.bindings calls).1 ∧
      (runAll IndexedBindings.issue x calls).2.bindings =
        (runAll Bindings.issue x.bindings calls).2 := by
  induction calls generalizing x with
  | nil => exact ⟨h, rfl, rfl⟩
  | cons call calls ih =>
      obtain ⟨hfirst, htext, hbindings⟩ := h.issue call
      obtain ⟨hrest, hissued, hall⟩ := ih hfirst
      simp only [KeyedQuery.runAll]
      rw [← htext, ← hbindings]
      exact ⟨hrest, by rw [hissued], hall⟩

theorem inverse_empty : empty.Inverse := by
  intro path name
  constructor
  · intro h
    cases h
  · intro h
    cases h

end IndexedBindings

/-! ## Reading what was issued -/

namespace Token

/-- A marked word is one token in front of anything that ends a word. -/
theorem lex_append_iff {mark : Char} (named : String → Operand) {text rest : String}
    {tokens : List Token} (hblank : Text.isBlank mark = false)
    (hread : ∀ after, read mark after = readMarked mark named after) (h : MarkedWord mark text)
    (hrest : EndsWord rest.toList) :
    lex (text ++ rest) = .ok tokens ↔
      ∃ more, lex rest = .ok more ∧ tokens = .operand (named text) :: more := by
  obtain ⟨word, hne, hword, rfl⟩ := h
  have hfirst : read mark (word ++ rest.toList) =
      some (.operand (named (String.ofList (mark :: word))), rest.toList) := by
    rw [hread, readMarked_append hne hword hrest]
  have htext : (String.ofList (mark :: word) ++ rest).toList = mark :: (word ++ rest.toList) := by
    simp
  rw [lex_eq_ok_iff, htext]
  constructor
  · intro hlayout
    have hall := hlayout.lexes (word ++ rest.toList).length.succ (by simp)
    rw [readAll, if_neg (by simp [hblank]), hfirst] at hall
    obtain ⟨more, hmore, hpair⟩ := bind_eq_ok_iff.mp hall
    cases hpair
    exact ⟨more, lex_eq_ok_iff.mpr (layout_of_readAll hmore), rfl⟩
  · rintro ⟨more, hmore, rfl⟩
    have hlexes := Lexes.token hblank hfirst (by simp) (lex_eq_ok_iff.mp hmore).lexes
    exact layout_of_readAll (hlexes _ (Nat.le_refl _))

/-- An issued name is one token in front of anything that ends a word. -/
theorem lex_issued_append_iff {call : Call} {text rest : String} {tokens : List Token}
    (h : MarkedWord call.mark text) (hrest : EndsWord rest.toList) :
    lex (text ++ rest) = .ok tokens ↔
      ∃ more, lex rest = .ok more ∧ tokens = .operand (call.operand text) :: more := by
  cases call with
  | aliasFor name =>
      have hblank : Text.isBlank '#' = false := by decide
      exact lex_append_iff .path hblank (fun _ => rfl) h hrest
  | bind base value =>
      have hblank : Text.isBlank ':' = false := by decide
      exact lex_append_iff .value hblank (fun _ => rfl) h hrest

-- Blanks, commas and parentheses end a word, as the end of the text does.
example : [' ', ',', '(', ')'].any isWordChar = false := by
  decide

end Token

/-! ## What calls leave behind -/

namespace Bindings

/--
The names that calls have issued, with the tables after them.  The searches are
those of a further call, and the tables hold what was issued for as long as calls
follow.
-/
structure Account (calls : List Call) (issued : List (Call × String)) (b : Bindings) :
    Prop where
  answered : issued.map Prod.fst = calls
  aliasSearch : ∀ name, FirstFree b.names.contains
    (aliasCandidate ((wordOfName name).map Char.toUpper))
    ((wordOfName name).length + b.names.size) (b.newAlias name)
  placeholderSearch : ∀ base, FirstFree b.values.contains
    (placeholderCandidate (String.ofList (':' :: wordOfName base)))
    (b.values.size + 1) (b.newPlaceholder base)
  inverse : ∃ aliases, runAll IndexedBindings.issue .empty calls = (issued, ⟨b, aliases⟩) ∧
    ∀ path name, b.names.get? path = some name ↔ aliases.get? name = some path
  aliases : ∀ name other path otherPath, (.aliasFor name, path) ∈ issued →
    (.aliasFor other, otherPath) ∈ issued → (path = otherPath ↔ name = other)
  placeholders : (placeholdersOf issued).Nodup
  kept : ∀ before after, calls = before ++ after → (runAll Bindings.issue .empty before).2 ⊆ b
  means : ∀ entry ∈ issued, b.Means entry.1 entry.2
  lexes : ∀ entry ∈ issued, ∀ rest tokens, EndsWord rest.toList →
    (Token.lex (entry.2 ++ rest) = .ok tokens ↔
      ∃ more, Token.lex rest = .ok more ∧ tokens = .operand (entry.1.operand entry.2) :: more)

/--
Whatever calls are made, aliases and attributes belong to each other one by one,
no placeholder is issued twice, and nothing that was issued is given up.
-/
theorem account_of_calls (calls : List Call) :
    Account calls (runAll Bindings.issue .empty calls).1
      (runAll Bindings.issue .empty calls).2 := by
  rcases hall : runAll Bindings.issue .empty calls with ⟨issued, b⟩
  obtain ⟨_, _, hmeans⟩ := issued_spec aliasesMarked_empty hall
  have hgrows := grows_issued hall
  constructor
  · have hcalls := map_fst_runAll Bindings.issue .empty calls
    rwa [hall] at hcalls
  · exact b.newAlias_firstFree
  · exact b.newPlaceholder_firstFree
  · obtain ⟨hinverse, hissued, hbindings⟩ :=
      IndexedBindings.inverse_empty.runAll calls
    have hstart : IndexedBindings.empty.bindings = .empty := rfl
    rw [hstart, hall] at hissued hbindings
    subst hissued hbindings
    exact ⟨_, rfl, hinverse⟩
  · intro name other path otherPath hpath hother
    have hname : b.Names path name := hmeans _ hpath
    have hotherName : b.Names otherPath other := hmeans _ hother
    constructor
    · rintro rfl
      exact Option.some.inj (hname.2.symm.trans hotherName.2)
    · rintro rfl
      exact hgrows.distinct aliasesDistinct_empty _ _ _ hname.2 hotherName.2
  · exact hgrows.nodup
  · rintro before after rfl
    rcases hbefore : runAll Bindings.issue .empty before with ⟨first, middle⟩
    obtain ⟨_, hmarked, _⟩ := issued_spec aliasesMarked_empty hbefore
    rcases hafter : runAll Bindings.issue middle after with ⟨second, last⟩
    rw [runAll_append Bindings.issue, hbefore, hafter] at hall
    cases hall
    exact (issued_spec hmarked hafter).1
  · exact hmeans
  · intro entry hentry rest tokens hrest
    exact Token.lex_issued_append_iff (hmeans entry hentry).marked hrest

-- A name with a number may be in use already, and then the next number is tried.
example :
    (runAll Bindings.issue .empty [.aliasFor "id", .aliasFor "i", .aliasFor "id",
      .bind "a_1" (.bool true), .bind "a" (.bool true), .bind "a" (.bool false)]).1.map Prod.snd =
        ["#I", "#I_1", "#I", ":a_1", ":a", ":a_2"] := by
  decide +kernel

end Bindings

end KeyedQuery
