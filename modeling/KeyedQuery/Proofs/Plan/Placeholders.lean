import KeyedQuery.Proofs.Plan.Meaning

/-!
# Placeholder tables

Translation issues aliases and placeholders and uses them in the fragment that it
gives.  What it issues is all that the tables grow by, so the tables of a plan
hold exactly what its two texts use: an alias for every attribute that the clause
mentions, and a placeholder for every place of an operand.
-/

namespace KeyedQuery

namespace Token

/-- The attribute, or the alias of one, that a token is. -/
def path? : Token → Option String
  | .operand (.path path) => some path
  | _ => none

def placeholder? : Token → Option String
  | .operand (.value placeholder) => some placeholder
  | _ => none

theorem path?_eq_some_iff {token : Token} {path : String} :
    token.path? = some path ↔ token = .operand (.path path) := by
  cases token with
  | operand o => cases o <;> simp [path?]
  | _ => simp [path?]

theorem placeholder?_eq_some_iff {token : Token} {placeholder : String} :
    token.placeholder? = some placeholder ↔ token = .operand (.value placeholder) := by
  cases token with
  | operand o => cases o <;> simp [placeholder?]
  | _ => simp [placeholder?]

/-- A separator that is dropped leaves what is kept of the lists between. -/
theorem filterMap_intercalate {α : Type} {keep : Token → Option String} {separator : Token}
    (h : keep separator = none) (tokens : α → List Token) (xs : List α) :
    ([separator].intercalate (xs.map tokens)).filterMap keep =
      xs.flatMap fun x => (tokens x).filterMap keep := by
  cases xs with
  | nil => rfl
  | cons x xs =>
      rw [List.map_cons, intercalate_cons_eq_append_flatMap, List.filterMap_append,
        List.flatMap_cons, List.flatMap_map, List.filterMap_flatMap]
      simp [h]

end Token

namespace Fragment

/-- The aliases in a fragment, in order. -/
def aliases (f : Fragment) : List String :=
  f.tokens.filterMap Token.path?

def placeholders (f : Fragment) : List String :=
  f.tokens.filterMap Token.placeholder?

@[simp] theorem aliases_compare (path : String) (op : Comparator) (placeholder : String) :
    (compare path op placeholder).aliases = [path] :=
  rfl

@[simp] theorem placeholders_compare (path : String) (op : Comparator) (placeholder : String) :
    (compare path op placeholder).placeholders = [placeholder] :=
  rfl

@[simp] theorem aliases_between (path low high : String) :
    (between path low high).aliases = [path] :=
  rfl

@[simp] theorem placeholders_between (path low high : String) :
    (between path low high).placeholders = [low, high] :=
  rfl

@[simp] theorem aliases_isIn (path : String) (names : List String) :
    (isIn path names).aliases = [path] := by
  have hlist : ([Token.comma].intercalate
      (names.map fun name => [.operand (.value name)])).filterMap Token.path? = [] := by
    rw [Token.filterMap_intercalate rfl]
    simp [Token.path?]
  simp only [aliases, tokens, List.filterMap_append, hlist]
  rfl

@[simp] theorem placeholders_isIn (path : String) (names : List String) :
    (isIn path names).placeholders = names := by
  have hlist : ([Token.comma].intercalate
      (names.map fun name => [.operand (.value name)])).filterMap Token.placeholder? =
        names := by
    rw [Token.filterMap_intercalate rfl]
    simp [Token.placeholder?]
  simp only [placeholders, tokens, List.filterMap_append, hlist]
  exact List.append_nil names

@[simp] theorem aliases_anyOf (entries : List (String × String)) :
    (anyOf entries).aliases = entries.map Prod.fst := by
  have hlist : ([Token.or].intercalate (entries.map equalityTokens)).filterMap Token.path? =
      entries.map Prod.fst := by
    rw [Token.filterMap_intercalate rfl, ← List.flatMap_pure_eq_map]
    rfl
  simp only [aliases, tokens, List.filterMap_append, hlist]
  exact List.append_nil _

@[simp] theorem placeholders_anyOf (entries : List (String × String)) :
    (anyOf entries).placeholders = entries.map Prod.snd := by
  have hlist :
      ([Token.or].intercalate (entries.map equalityTokens)).filterMap Token.placeholder? =
        entries.map Prod.snd := by
    rw [Token.filterMap_intercalate rfl, ← List.flatMap_pure_eq_map]
    rfl
  simp only [placeholders, tokens, List.filterMap_append, hlist]
  exact List.append_nil _

theorem Spelled.marked {f : Fragment} (h : f.Spelled) :
    (∀ path ∈ f.aliases, MarkedWord '#' path) ∧
      ∀ placeholder ∈ f.placeholders, MarkedWord ':' placeholder := by
  cases f with
  | compare path op placeholder =>
      obtain ⟨hpath, hplaceholder⟩ := h
      simpa using ⟨hpath, hplaceholder⟩
  | between path low high =>
      obtain ⟨hpath, hlow, hhigh⟩ := h
      simpa using ⟨hpath, hlow, hhigh⟩
  | isIn path names =>
      obtain ⟨hpath, _, hnames⟩ := h
      simpa using ⟨hpath, hnames⟩
  | anyOf entries =>
      constructor
      · intro path hpath
        rw [aliases_anyOf] at hpath
        obtain ⟨entry, hentry, rfl⟩ := List.mem_map.mp hpath
        exact (h.2 entry hentry).1
      · intro placeholder hplaceholder
        rw [placeholders_anyOf] at hplaceholder
        obtain ⟨entry, hentry, rfl⟩ := List.mem_map.mp hplaceholder
        exact (h.2 entry hentry).2

end Fragment

namespace Bindings

/-- No two aliases stand for one attribute. -/
def AliasesDistinct (b : Bindings) : Prop :=
  ∀ path other name, b.names.get? path = some name → b.names.get? other = some name →
    path = other

theorem aliasesDistinct_empty : empty.AliasesDistinct := by
  intro path other name h
  cases h

def HasAlias (b : Bindings) (name : String) : Prop :=
  ∃ path, b.names.get? path = some name

/--
What tables grow by: aliases for attributes, which may have been there, and
placeholders, which are new.
-/
structure Grows (b b' : Bindings) (aliases placeholders attributes : List String) : Prop where
  alias_iff : ∀ path,
    b'.names.contains path = true ↔ b.names.contains path = true ∨ path ∈ aliases
  attribute_iff : ∀ name, b'.HasAlias name ↔ b.HasAlias name ∨ name ∈ attributes
  distinct : b.AliasesDistinct → b'.AliasesDistinct
  placeholder_iff : ∀ placeholder, b'.values.contains placeholder = true ↔
    b.values.contains placeholder = true ∨ placeholder ∈ placeholders
  fresh : ∀ placeholder ∈ placeholders, b.values.contains placeholder = false
  nodup : placeholders.Nodup

theorem Grows.refl (b : Bindings) : b.Grows b [] [] [] :=
  ⟨by simp, by simp, id, by simp, by simp, List.nodup_nil⟩

variable {b b₁ b' : Bindings} {name : String}

theorem Grows.trans {aliases₁ placeholders₁ attributes₁ : List String}
    {aliases₂ placeholders₂ attributes₂ : List String}
    (h₁ : b.Grows b₁ aliases₁ placeholders₁ attributes₁)
    (h₂ : b₁.Grows b' aliases₂ placeholders₂ attributes₂) :
    b.Grows b' (aliases₁ ++ aliases₂) (placeholders₁ ++ placeholders₂)
      (attributes₁ ++ attributes₂) := by
  -- What the first part issued is taken when the second part begins.
  have hfresh : ∀ placeholder ∈ placeholders₂,
      b.values.contains placeholder = false ∧ placeholder ∉ placeholders₁ := by
    intro placeholder hmem
    have hfree := h₂.fresh placeholder hmem
    rw [Bool.eq_false_iff, Ne, h₁.placeholder_iff, not_or] at hfree
    exact ⟨Bool.eq_false_iff.mpr hfree.1, hfree.2⟩
  constructor
  · intro path
    rw [h₂.alias_iff, h₁.alias_iff, List.mem_append, or_assoc]
  · intro name
    rw [h₂.attribute_iff, h₁.attribute_iff, List.mem_append, or_assoc]
  · exact fun h => h₂.distinct (h₁.distinct h)
  · intro placeholder
    rw [h₂.placeholder_iff, h₁.placeholder_iff, List.mem_append, or_assoc]
  · intro placeholder hmem
    rcases List.mem_append.mp hmem with hmem | hmem
    · exact h₁.fresh placeholder hmem
    · exact (hfresh placeholder hmem).1
  · apply List.nodup_append.mpr
    refine ⟨h₁.nodup, h₂.nodup, ?_⟩
    intro first hfirst second hsecond heq
    rw [heq] at hfirst
    exact (hfresh second hsecond).2 hfirst

/-! ## One name -/

theorem grows_of_aliasOf? {path : String} (h : b.aliasOf? name = some path) :
    b.Grows b [path] [] [name] := by
  have hget := get?_of_aliasOf? h
  have hcontains : b.names.contains path = true := by
    simp [Dict.contains, hget]
  refine ⟨?_, ?_, id, by simp, by simp, List.nodup_nil⟩
  · intro other
    simp only [List.mem_singleton, iff_self_or]
    rintro rfl
    exact hcontains
  · intro other
    simp only [List.mem_singleton, iff_self_or]
    rintro rfl
    exact ⟨path, hget⟩

theorem hasAlias_insert {path other : String} (h : b.names.contains path = false) :
    HasAlias { b with names := b.names.insert path name } other ↔
      b.HasAlias other ∨ other = name := by
  have hnew := Dict.get?_eq_none_of_contains_eq_false h
  constructor
  · rintro ⟨found, hfound⟩
    rw [Dict.get?_insert] at hfound
    split at hfound
    · cases hfound
      exact .inr rfl
    · exact .inl ⟨found, hfound⟩
  · rintro (⟨found, hfound⟩ | rfl)
    · have hne : found ≠ path := by
        rintro rfl
        rw [hnew] at hfound
        cases hfound
      exact ⟨found, by rw [Dict.get?_insert_of_ne _ _ hne, hfound]⟩
    · exact ⟨path, Dict.get?_insert_self _ _ _⟩

theorem aliasesDistinct_insert {path : String} (hfree : ∀ other, b.names.get? other ≠ some name)
    (h : b.AliasesDistinct) :
    AliasesDistinct { b with names := b.names.insert path name } := by
  intro first second held hfirst hsecond
  simp only [Dict.get?_insert] at hfirst hsecond
  -- Either alias may be the new one, whose attribute had none before.
  split at hfirst <;> split at hsecond
  · rename_i hleft hright
    rw [hleft, hright]
  · cases hfirst
    exact absurd hsecond (hfree second)
  · cases hsecond
    exact absurd hfirst (hfree first)
  · exact h first second held hfirst hsecond

theorem grows_aliasFor {path : String} (h : b.aliasFor name = (path, b')) :
    b.Grows b' [path] [] [name] := by
  unfold aliasFor at h
  split at h
  · rename_i found hfound
    cases h
    exact grows_of_aliasOf? hfound
  · rename_i hnone
    cases h
    have hfresh := (b.newAlias_spec name).1
    refine ⟨?_, ?_, aliasesDistinct_insert (get?_ne_of_aliasOf?_eq_none hnone), by simp, by simp,
      List.nodup_nil⟩
    · intro other
      rw [Dict.contains_insert, List.mem_singleton, or_comm]
    · intro other
      rw [hasAlias_insert hfresh, List.mem_singleton]

theorem grows_bind {base placeholder : String} {value : Value}
    (h : b.bind base value = (placeholder, b')) : b.Grows b' [] [placeholder] [] := by
  cases h
  refine ⟨by simp, by simp [HasAlias], id, ?_, ?_, by simp⟩
  · intro other
    rw [Dict.contains_insert, List.mem_singleton, or_comm]
  · intro other hother
    rw [List.mem_singleton.mp hother]
    exact (b.newPlaceholder_spec base).1

/-! ## Conditions -/

theorem grows_bindList {n : Nat} {values : List Value} {placeholders : List String}
    (h : b.bindList name n values = (placeholders, b')) : b.Grows b' [] placeholders [] := by
  induction values generalizing b n placeholders with
  | nil =>
      cases h
      exact Grows.refl _
  | cons value values ih =>
      rcases hfirst : b.bind (numbered name n) value with ⟨placeholder, b₁⟩
      rcases hrest : b₁.bindList name (n + 1) values with ⟨others, b₂⟩
      simp only [bindList, hfirst, hrest] at h
      cases h
      exact (grows_bind hfirst).trans (ih hrest)

theorem grows_bindEqualities {entries : List (String × Value)} {pairs : List (String × String)}
    (h : b.bindEqualities entries = (pairs, b')) :
    b.Grows b' (pairs.map Prod.fst) (pairs.map Prod.snd) (entries.map Prod.fst) := by
  induction entries generalizing b pairs with
  | nil =>
      cases h
      exact Grows.refl _
  | cons entry entries ih =>
      obtain ⟨name, value⟩ := entry
      rcases halias : b.aliasFor name with ⟨path, b₁⟩
      rcases hbind : b₁.bind name value with ⟨placeholder, b₂⟩
      rcases hrest : b₂.bindEqualities entries with ⟨others, b₃⟩
      simp only [bindEqualities, halias, hbind, hrest] at h
      cases h
      exact ((grows_aliasFor halias).trans (grows_bind hbind)).trans (ih hrest)

/-- The tables grow by what the fragment of a condition uses. -/
theorem grows_translate {position : Position} {c : Condition} {f : Fragment}
    (h : b.translate position name c = (.ok f, b')) :
    b.Grows b' f.aliases f.placeholders [name] := by
  rcases halias : b.aliasFor name with ⟨path, b₁⟩
  have hgrows := grows_aliasFor halias
  cases c with
  | equals value =>
      rcases hbind : b₁.bind name value with ⟨placeholder, b₂⟩
      simp only [translate, halias, hbind] at h
      cases h
      exact hgrows.trans (grows_bind hbind)
  | compare op value =>
      rcases hbind : b₁.bind name value with ⟨placeholder, b₂⟩
      simp only [translate, halias, hbind] at h
      cases h
      exact hgrows.trans (grows_bind hbind)
  | between low high =>
      rcases hlow : b₁.bind (name ++ "_start") low with ⟨lowHolder, b₂⟩
      rcases hhigh : b₂.bind (name ++ "_end") high with ⟨highHolder, b₃⟩
      simp only [translate, halias, hlow, hhigh] at h
      cases h
      exact (hgrows.trans (grows_bind hlow)).trans (grows_bind hhigh)
  | isIn values =>
      rcases hlist : b₁.bindList name 0 values with ⟨placeholders, b₂⟩
      simp only [translate, halias, hlist] at h
      split at h
      · cases h
      · split at h
        · cases h
        · cases h
          simpa using hgrows.trans (grows_bindList hlist)

theorem grows_translateClause {clause : Clause} {f : Fragment}
    (h : b.translateClause clause = (.ok f, b')) :
    b.Grows b' f.aliases f.placeholders clause.mentions := by
  cases clause with
  | on name c => exact grows_translate h
  | anyOf entries =>
      rcases hpairs : b.bindEqualities entries with ⟨pairs, b₁⟩
      simp only [translateClause, translateAnyOf, hpairs] at h
      split at h
      · cases h
      · cases h
        simpa using grows_bindEqualities hpairs

/-! ## Clauses -/

theorem grows_translateKeys {w : WhereClause} {names : List String} {fragments : List Fragment}
    (h : b.translateKeys w names = .ok (fragments, b')) :
    b.Grows b' (fragments.flatMap Fragment.aliases) (fragments.flatMap Fragment.placeholders)
      ((w.conditionsOn names).flatMap Clause.mentions) := by
  induction names generalizing b fragments with
  | nil =>
      cases h
      exact Grows.refl _
  | cons name names ih =>
      unfold translateKeys at h
      unfold WhereClause.conditionsOn
      cases hget : w.get? name with
      | none =>
          rw [hget] at h
          rw [List.filterMap_cons, hget]
          exact ih h
      | some c =>
          rw [hget] at h
          rcases hfirst : b.translate .key name c with ⟨result, b₁⟩
          simp only [hfirst] at h
          cases result with
          | error fault => cases h
          | ok f =>
              obtain ⟨⟨others, b₂⟩, hrest, hpair⟩ := bind_eq_ok_iff.mp h
              cases hpair
              rw [List.filterMap_cons, hget]
              exact (grows_translate hfirst).trans (ih hrest)

theorem grows_translateFilters {clauses : List Clause} {fragments : List Fragment}
    (h : b.translateFilters clauses = .ok (fragments, b')) :
    b.Grows b' (fragments.flatMap Fragment.aliases) (fragments.flatMap Fragment.placeholders)
      (clauses.flatMap Clause.mentions) := by
  induction clauses generalizing b fragments with
  | nil =>
      cases h
      exact Grows.refl _
  | cons clause clauses ih =>
      unfold translateFilters at h
      rcases hfirst : b.translateClause clause with ⟨result, b₁⟩
      simp only [hfirst] at h
      cases result with
      | error fault => cases h
      | ok f =>
          obtain ⟨⟨others, b₂⟩, hrest, hpair⟩ := bind_eq_ok_iff.mp h
          cases hpair
          exact (grows_translateClause hfirst).trans (ih hrest)

end Bindings

/-! ## Plans -/

namespace Plan

def fragments (p : Plan) : List Fragment :=
  p.keyConditions ++ p.filters

/-- The tokens of the two texts of a plan. -/
def tokens (p : Plan) : List Token :=
  [Token.and].intercalate (p.keyConditions.map Fragment.tokens) ++
    [Token.and].intercalate (p.filters.map Fragment.tokens)

theorem filterMap_tokens (p : Plan) {keep : Token → Option String} (h : keep .and = none) :
    p.tokens.filterMap keep = p.fragments.flatMap fun f => f.tokens.filterMap keep := by
  rw [tokens, List.filterMap_append, Token.filterMap_intercalate h,
    Token.filterMap_intercalate h, fragments, List.flatMap_append]

theorem mem_tokens_path_iff {p : Plan} {path : String} :
    .operand (.path path) ∈ p.tokens ↔ path ∈ p.fragments.flatMap Fragment.aliases := by
  have hkept : p.tokens.filterMap Token.path? = p.fragments.flatMap Fragment.aliases :=
    p.filterMap_tokens rfl
  rw [← hkept, List.mem_filterMap]
  simp [Token.path?_eq_some_iff]

theorem mem_tokens_value_iff {p : Plan} {placeholder : String} :
    .operand (.value placeholder) ∈ p.tokens ↔
      placeholder ∈ p.fragments.flatMap Fragment.placeholders := by
  have hkept : p.tokens.filterMap Token.placeholder? =
      p.fragments.flatMap Fragment.placeholders := p.filterMap_tokens rfl
  rw [← hkept, List.mem_filterMap]
  simp [Token.placeholder?_eq_some_iff]

theorem Of.spelled {p : Plan} {m : Model} {w : WhereClause} (h : p.Of m w) :
    (∀ f ∈ p.keyConditions, f.Spelled) ∧ ∀ f ∈ p.filters, f.Spelled :=
  ⟨Bindings.spelled_of_forall₂ (h.keyConditions.imp fun _ _ h => h.1),
    Bindings.spelled_of_forall₂ h.filters⟩

/-- The tables start empty and grow by what the fragments of the plan use. -/
theorem grows_of_translate {m : Model} {w : WhereClause} {p : Plan}
    (h : m.translate w = .ok p) :
    Bindings.empty.Grows p.bindings (p.fragments.flatMap Fragment.aliases)
      (p.fragments.flatMap Fragment.placeholders)
      ((w.conditionsOn (m.schema.keyAttributes p.classification) ++
        w.clauses.filter fun clause =>
          !clause.isOnOneOf (m.schema.keyAttributes p.classification)).flatMap
            Clause.mentions) := by
  unfold Model.translate at h
  obtain ⟨⟨keyConditions, b₁⟩, hkeys, h⟩ := bind_eq_ok_iff.mp h
  obtain ⟨⟨filters, b₂⟩, hfilters, h⟩ := bind_eq_ok_iff.mp h
  cases h
  simp only [fragments, List.flatMap_append]
  exact (Bindings.grows_translateKeys hkeys).trans (Bindings.grows_translateFilters hfilters)

/--
The tables of a plan and the tokens of its texts agree: the operands are aliases
and placeholders, and each table has exactly those that occur.
-/
structure Exact (p : Plan) (w : WhereClause) (tokens : List Token) : Prop where
  operands : ∀ o, .operand o ∈ tokens →
    ∃ text, o = .path text ∧ MarkedWord '#' text ∨ o = .value text ∧ MarkedWord ':' text
  aliases : ∀ path, .operand (.path path) ∈ tokens ↔ p.bindings.names.contains path = true
  placeholders : ∀ placeholder,
    .operand (.value placeholder) ∈ tokens ↔ p.bindings.values.contains placeholder = true
  once : (tokens.filterMap Token.placeholder?).Nodup
  distinct : ∀ path other name, p.bindings.names.get? path = some name →
    p.bindings.names.get? other = some name → path = other
  attributes : ∀ name, (∃ path, p.bindings.names.get? path = some name) ↔ name ∈ w.mentions

end Plan

/--
A plan uses each placeholder once and defines exactly the aliases and placeholders
that it uses, the aliases one by one for the attributes that its clause mentions.
-/
theorem Model.plan_placeholders {m : Model} {w : WhereClause} {p : Plan}
    (h : m.plan w = .ok p) :
    ∃ keyTokens filterTokens, Token.lexText p.keyCondition = .ok keyTokens ∧
      Token.lexText p.filter = .ok filterTokens ∧ p.Exact w (keyTokens ++ filterTokens) := by
  obtain ⟨coerced, hcoerced, htranslate⟩ := exists_translate_of_plan h
  have hdistinct := KeySchema.distinct_coerceWhere hcoerced
  have hgrows := Plan.grows_of_translate htranslate
  obtain ⟨hkeys, hfilters⟩ := (of_translate htranslate).spelled
  have hspelled : ∀ f ∈ p.fragments, f.Spelled := by
    intro f hf
    rcases List.mem_append.mp hf with hf | hf
    · exact hkeys f hf
    · exact hfilters f hf
  refine ⟨_, _, Fragment.lex_conjunction hkeys, Fragment.lex_conjunction hfilters, ?_⟩
  show p.Exact w p.tokens
  refine ⟨?_, ?_, ?_, ?_, ?_, ?_⟩
  · intro o ho
    cases o with
    | path path =>
        obtain ⟨f, hf, hpath⟩ := List.mem_flatMap.mp (Plan.mem_tokens_path_iff.mp ho)
        exact ⟨path, .inl ⟨rfl, (hspelled f hf).marked.1 path hpath⟩⟩
    | value placeholder =>
        obtain ⟨f, hf, hvalue⟩ := List.mem_flatMap.mp (Plan.mem_tokens_value_iff.mp ho)
        exact ⟨placeholder, .inr ⟨rfl, (hspelled f hf).marked.2 placeholder hvalue⟩⟩
  · intro path
    rw [Plan.mem_tokens_path_iff, hgrows.alias_iff]
    simp [Bindings.empty, Dict.contains]
  · intro placeholder
    rw [Plan.mem_tokens_value_iff, hgrows.placeholder_iff]
    simp [Bindings.empty, Dict.contains]
  · have hkept : p.tokens.filterMap Token.placeholder? =
        p.fragments.flatMap Fragment.placeholders := p.filterMap_tokens rfl
    rw [hkept]
    exact hgrows.nodup
  · exact hgrows.distinct Bindings.aliasesDistinct_empty
  · intro name
    rw [← KeySchema.mem_mentions_coerceWhere hcoerced, ← hdistinct.mem_mentions_iff]
    simpa [Bindings.HasAlias, Bindings.empty] using hgrows.attribute_iff name

theorem Model.plan_placeholders_awkward :
    ∃ p keyTokens filterTokens, awkward.plan .awkward = .ok p ∧
      Token.lexText p.keyCondition = .ok keyTokens ∧
      Token.lexText p.filter = .ok filterTokens ∧
      p.Exact .awkward (keyTokens ++ filterTokens) := by
  have hok : (awkward.plan .awkward).isOk = true := by
    decide +kernel
  obtain ⟨p, hp⟩ := exists_of_isOk hok
  obtain ⟨keyTokens, filterTokens, hkeys, hfilters, hexact⟩ := plan_placeholders hp
  exact ⟨p, keyTokens, filterTokens, hp, hkeys, hfilters, hexact⟩

end KeyedQuery
