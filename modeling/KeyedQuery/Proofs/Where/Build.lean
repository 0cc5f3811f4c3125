import KeyedQuery.Proofs.Where.Distinct

/-!
# Building clauses from entries

A clause is built by adding entries one after the other, from the empty clause.
Whatever the entries are, the clause has one condition for each attribute; and if
the entries are on different attributes, it consists of exactly these entries, in
their order.  Reading a document and coercing a clause both build their result.
-/

namespace KeyedQuery

namespace WhereClause

def add (w : WhereClause) : Clause → WhereClause
  | .on name condition => w.set name condition
  | .anyOf entries => w.addAnyOf entries

/-- The clause that entries build one after the other. -/
def build (entries : List Clause) : WhereClause :=
  entries.foldl add empty

theorem Distinct.add {w : WhereClause} (h : w.Distinct) (clause : Clause) :
    (w.add clause).Distinct := by
  cases clause with
  | on name c => exact h.set name c
  | anyOf entries => exact h.addAnyOf entries

theorem distinct_build (entries : List Clause) : (build entries).Distinct := by
  have hfold : ∀ w : WhereClause, w.Distinct → (entries.foldl WhereClause.add w).Distinct := by
    intro w hw
    induction entries generalizing w with
    | nil => exact hw
    | cons clause entries ih => exact ih (w.add clause) (hw.add clause)
  exact hfold empty distinct_empty

theorem mem_add {w : WhereClause} {clause entry : Clause} (h : entry ∈ (w.add clause).clauses) :
    entry = clause ∨ entry ∈ w.clauses := by
  cases clause with
  | on name c => exact mem_setClause h
  | anyOf entries =>
      rcases List.mem_append.mp h with h | h
      · exact .inr h
      · exact .inl (List.mem_singleton.mp h)

theorem mem_of_mem_build {entries : List Clause} {entry : Clause}
    (h : entry ∈ (build entries).clauses) : entry ∈ entries := by
  have hfold : ∀ w : WhereClause, entry ∈ (entries.foldl WhereClause.add w).clauses →
      entry ∈ entries ∨ entry ∈ w.clauses := by
    clear h
    intro w h
    induction entries generalizing w with
    | nil => exact .inr h
    | cons clause entries ih =>
        rcases ih (w.add clause) h with h | h
        · exact .inl (List.mem_cons_of_mem clause h)
        · rcases mem_add h with rfl | h
          · exact .inl List.mem_cons_self
          · exact .inr h
  simpa [empty] using hfold empty h

/-- The attributes that the clause mentions, in order. -/
def mentions (w : WhereClause) : List String :=
  w.clauses.flatMap Clause.mentions

theorem Distinct.mem_mentions_iff {w : WhereClause} (h : w.Distinct) (names : List String)
    {name : String} :
    name ∈ (w.conditionsOn names ++
        w.clauses.filter fun clause => !clause.isOnOneOf names).flatMap Clause.mentions ↔
      name ∈ w.mentions := by
  have hmem : ∀ clause, clause ∈ (w.conditionsOn names ++
      w.clauses.filter fun clause => !clause.isOnOneOf names) ↔ clause ∈ w.clauses := by
    intro clause
    rw [List.mem_append, h.mem_conditionsOn_iff, List.mem_filter]
    by_cases hon : clause.isOnOneOf names = true
    · simp [hon]
    · simp [hon]
  simp only [mentions, List.mem_flatMap, hmem]

theorem mem_mentions_setClause {name other : String} {c : Condition} {clauses : List Clause} :
    other ∈ (setClause name c clauses).flatMap Clause.mentions ↔
      other = name ∨ other ∈ clauses.flatMap Clause.mentions := by
  induction clauses with
  | nil => simp
  | cons clause rest ih =>
      cases clause with
      | on first held =>
          by_cases hfirst : first = name
          · simp [hfirst]
          · simp only [setClause_on_of_ne hfirst, List.flatMap_cons, List.mem_append, ih]
            exact or_left_comm
      | anyOf entries =>
          simp only [setClause_anyOf, List.flatMap_cons, List.mem_append, ih]
          exact or_left_comm

theorem mem_mentions_add {w : WhereClause} {clause : Clause} {name : String} :
    name ∈ (w.add clause).mentions ↔ name ∈ w.mentions ∨ name ∈ clause.mentions := by
  cases clause with
  | on other c =>
      have hset : name ∈ (w.add (.on other c)).mentions ↔ name = other ∨ name ∈ w.mentions :=
        mem_mentions_setClause
      rw [hset, or_comm]
      simp
  | anyOf entries => simp [mentions, add, addAnyOf]

theorem mem_mentions_build {entries : List Clause} {name : String} :
    name ∈ (build entries).mentions ↔ name ∈ entries.flatMap Clause.mentions := by
  have hfold : ∀ w : WhereClause, name ∈ (entries.foldl WhereClause.add w).mentions ↔
      name ∈ w.mentions ∨ name ∈ entries.flatMap Clause.mentions := by
    induction entries with
    | nil => simp
    | cons clause entries ih =>
        intro w
        rw [List.foldl_cons, ih, mem_mentions_add, List.flatMap_cons, List.mem_append, or_assoc]
  have hempty : name ∉ empty.mentions := by
    simp [mentions, empty]
  rw [build, hfold empty]
  simp [hempty]

theorem setClause_of_not_mem {name : String} {clauses : List Clause}
    (h : name ∉ clauses.filterMap Clause.attribute?) (c : Condition) :
    setClause name c clauses = clauses ++ [.on name c] := by
  induction clauses with
  | nil => rfl
  | cons clause rest ih =>
      cases clause with
      | on other held =>
          simp only [List.filterMap_cons, Clause.attribute?_on, List.mem_cons, not_or] at h
          have hne : other ≠ name := fun heq => h.1 heq.symm
          simp [setClause_on_of_ne hne, ih h.2]
      | anyOf entries =>
          simp only [List.filterMap_cons, Clause.attribute?_anyOf] at h
          simp [ih h]

theorem add_eq_append {w : WhereClause} {clause : Clause}
    (h : ∀ name, clause.attribute? = some name → name ∉ w.names) :
    w.add clause = ⟨w.clauses ++ [clause]⟩ := by
  cases clause with
  | on name c =>
      have hset := setClause_of_not_mem (h name rfl) c
      simp [add, set, hset]
  | anyOf entries => rfl

theorem foldl_add_eq_append {w : WhereClause} {entries : List Clause}
    (h : (w.names ++ entries.filterMap Clause.attribute?).Nodup) :
    entries.foldl add w = ⟨w.clauses ++ entries⟩ := by
  -- The induction is on the entries to come; those added so far stand in the clause.
  induction entries generalizing w with
  | nil => simp
  | cons clause entries ih =>
      have hadd : w.add clause = ⟨w.clauses ++ [clause]⟩ := by
        apply add_eq_append
        intro name hname hmem
        rw [List.filterMap_cons, hname] at h
        simp only [List.nodup_append] at h
        exact h.2.2 name hmem name List.mem_cons_self rfl
      rw [List.foldl_cons, hadd, ih]
      · simp
      · cases clause with
        | on name c => simpa [names, List.filterMap_cons] using h
        | anyOf entries => simpa [names, List.filterMap_cons] using h

/-- Entries on different attributes build the clause of exactly these entries. -/
theorem build_eq {entries : List Clause} (h : (entries.filterMap Clause.attribute?).Nodup) :
    build entries = ⟨entries⟩ := by
  unfold build
  rw [foldl_add_eq_append]
  · simp [empty]
  · simpa [empty, names] using h

theorem Distinct.build_eq {w : WhereClause} (h : w.Distinct) : build w.clauses = w :=
  WhereClause.build_eq h

/-- A fold that turns each item into an entry and adds it builds the clause of these entries. -/
theorem foldlM_eq_ok_iff {ε α : Type} {step : WhereClause → α → Except ε WhereClause}
    {R : α → Clause → Prop}
    (hstep : ∀ w x w', step w x = .ok w' ↔ ∃ clause, R x clause ∧ w' = w.add clause)
    {xs : List α} {w w' : WhereClause} :
    xs.foldlM step w = .ok w' ↔
      ∃ entries, List.Forall₂ R xs entries ∧ w' = entries.foldl add w := by
  induction xs generalizing w with
  | nil =>
      constructor
      · intro h
        cases h
        exact ⟨[], .nil, rfl⟩
      · rintro ⟨entries, hentries, rfl⟩
        cases hentries
        rfl
  | cons x xs ih =>
      rw [List.foldlM_cons]
      constructor
      · intro h
        obtain ⟨added, hadded, hrest⟩ := bind_eq_ok_iff.mp h
        obtain ⟨clause, hclause, rfl⟩ := (hstep w x added).mp hadded
        obtain ⟨entries, hentries, rfl⟩ := ih.mp hrest
        exact ⟨clause :: entries, .cons hclause hentries, rfl⟩
      · rintro ⟨entries, hentries, rfl⟩
        cases hentries with
        | @cons _ clause _ others hclause hothers =>
            rw [(hstep w x _).mpr ⟨clause, hclause, rfl⟩, ok_bind]
            exact ih.mpr ⟨others, hothers, rfl⟩

end WhereClause

/-! ## Rewriting operands -/

namespace Condition

variable {ε : Type} {f : Value → Except ε Value} {c converted : Condition}

/-- What a condition becomes when a function rewrites its operands. -/
inductive Rewrites (f : Value → Except ε Value) : Condition → Condition → Prop where
  | equals {v v' : Value} (h : f v = .ok v') : Rewrites f (.equals v) (.equals v')
  | compare {op : Comparison} {v v' : Value} (h : f v = .ok v') :
      Rewrites f (.compare op v) (.compare op v')
  | between {low low' high high' : Value} (hlow : f low = .ok low') (hhigh : f high = .ok high') :
      Rewrites f (.between low high) (.between low' high')
  | isIn {values values' : List Value}
      (h : List.Forall₂ (fun v v' => f v = .ok v') values values') :
      Rewrites f (.isIn values) (.isIn values')

theorem mapOperands_eq_ok_iff : c.mapOperands f = .ok converted ↔ Rewrites f c converted := by
  constructor
  · intro h
    cases c with
    | equals v =>
        obtain ⟨v', hv, h⟩ := bind_eq_ok_iff.mp h
        cases h
        exact .equals hv
    | compare op v =>
        obtain ⟨v', hv, h⟩ := bind_eq_ok_iff.mp h
        cases h
        exact .compare hv
    | between low high =>
        obtain ⟨low', hlow, h⟩ := bind_eq_ok_iff.mp h
        obtain ⟨high', hhigh, h⟩ := bind_eq_ok_iff.mp h
        cases h
        exact .between hlow hhigh
    | isIn values =>
        obtain ⟨values', hvalues, h⟩ := bind_eq_ok_iff.mp h
        cases h
        exact .isIn (mapM_eq_ok_iff.mp hvalues)
  · intro h
    cases h with
    | equals hv => simp [mapOperands, hv]
    | compare hv => simp [mapOperands, hv]
    | between hlow hhigh => simp [mapOperands, hlow, hhigh]
    | isIn hvalues => simp [mapOperands, mapM_eq_ok_iff.mpr hvalues]

theorem Rewrites.operands (h : Rewrites f c converted) :
    List.Forall₂ (fun v v' => f v = .ok v') c.operands converted.operands := by
  cases h with
  | equals hv => exact .cons hv .nil
  | compare hv => exact .cons hv .nil
  | between hlow hhigh => exact .cons hlow (.cons hhigh .nil)
  | isIn hvalues => exact hvalues

theorem exists_rewrites_iff :
    (∃ converted, Rewrites f c converted) ↔ ∀ v ∈ c.operands, ∃ v', f v = .ok v' := by
  constructor
  · rintro ⟨converted, h⟩
    exact exists_forall₂_iff.mp ⟨_, h.operands⟩
  · intro h
    cases c with
    | equals v =>
        obtain ⟨v', hv⟩ := h v List.mem_cons_self
        exact ⟨_, .equals hv⟩
    | compare op v =>
        obtain ⟨v', hv⟩ := h v List.mem_cons_self
        exact ⟨_, .compare hv⟩
    | between low high =>
        obtain ⟨low', hlow⟩ := h low List.mem_cons_self
        obtain ⟨high', hhigh⟩ := h high (List.mem_cons_of_mem low List.mem_cons_self)
        exact ⟨_, .between hlow hhigh⟩
    | isIn values =>
        obtain ⟨values', hvalues⟩ := exists_forall₂_iff.mpr h
        exact ⟨_, .isIn hvalues⟩

end Condition

/-- The operands of an entry, each with its attribute. -/
def Clause.operands : Clause → List (String × Value)
  | .on name c => c.operands.map fun v => (name, v)
  | .anyOf entries => entries

namespace KeySchema

variable {s : KeySchema} {w coerced : WhereClause}

/-! ## Coercion -/

/-- An operand that does not convert to the declared type of its attribute. -/
def Refuses (s : KeySchema) (operand : String × Value) : Prop :=
  ∃ type, s.typeOf? operand.1 = some type ∧ operand.2.coerce? type = none

theorem not_refuses_iff {operand : String × Value} :
    ¬ s.Refuses operand ↔ ∃ v, s.coerceOperand operand.1 operand.2 = .ok v := by
  unfold Refuses coerceOperand KeyedQuery.coerceOperand
  cases s.typeOf? operand.1 with
  | none => simp
  | some type => cases hconverted : operand.2.coerce? type <;> simp [hconverted]

/-- What an entry becomes when its operands are coerced. -/
inductive Coerces (s : KeySchema) : Clause → Clause → Prop where
  | on {name : String} {c converted : Condition}
      (h : c.Rewrites (s.coerceOperand name) converted) :
      Coerces s (.on name c) (.on name converted)
  | anyOf {entries converted : List (String × Value)}
      (h : List.Forall₂
        (fun entry entry' =>
          entry'.1 = entry.1 ∧ s.coerceOperand entry.1 entry.2 = .ok entry'.2)
        entries converted) :
      Coerces s (.anyOf entries) (.anyOf converted)

theorem coerceEntry_eq_ok_iff {entry entry' : String × Value} :
    s.coerceEntry entry = .ok entry' ↔
      entry'.1 = entry.1 ∧ s.coerceOperand entry.1 entry.2 = .ok entry'.2 := by
  rw [coerceEntry, bind_eq_ok_iff]
  constructor
  · rintro ⟨v, hv, hpair⟩
    cases hpair
    exact ⟨rfl, hv⟩
  · rintro ⟨hname, hv⟩
    exact ⟨entry'.2, hv, by rw [← hname]⟩

theorem coerceEntries_eq_ok_iff {entries entries' : List (String × Value)} :
    entries.mapM s.coerceEntry = .ok entries' ↔ s.Coerces (.anyOf entries) (.anyOf entries') := by
  simp only [mapM_eq_ok_iff, coerceEntry_eq_ok_iff]
  constructor
  · exact fun h => .anyOf h
  · intro h
    cases h with
    | anyOf h => exact h

theorem coerceClause_eq_ok_iff {clause : Clause} {w' : WhereClause} :
    s.coerceClause w clause = .ok w' ↔ ∃ converted, s.Coerces clause converted ∧
      w' = w.add converted := by
  cases clause with
  | on name c =>
      rw [coerceClause, bind_eq_ok_iff]
      constructor
      · rintro ⟨converted, h, hset⟩
        cases hset
        exact ⟨_, .on (Condition.mapOperands_eq_ok_iff.mp h), rfl⟩
      · rintro ⟨_, hcoerces, rfl⟩
        cases hcoerces with
        | on h => exact ⟨_, Condition.mapOperands_eq_ok_iff.mpr h, rfl⟩
  | anyOf entries =>
      rw [coerceClause, bind_eq_ok_iff]
      constructor
      · rintro ⟨converted, h, hadd⟩
        cases hadd
        exact ⟨_, coerceEntries_eq_ok_iff.mp h, rfl⟩
      · rintro ⟨converted, hcoerces, rfl⟩
        cases hcoerces with
        | anyOf h => exact ⟨_, coerceEntries_eq_ok_iff.mpr (.anyOf h), rfl⟩

theorem exists_coerces_iff {clause : Clause} :
    (∃ converted, s.Coerces clause converted) ↔
      ∀ operand ∈ clause.operands, ¬ s.Refuses operand := by
  simp only [not_refuses_iff]
  cases clause with
  | on name c =>
      have hall : (∀ operand ∈ (Clause.on name c).operands,
          ∃ v, s.coerceOperand operand.1 operand.2 = .ok v) ↔
          ∀ v ∈ c.operands, ∃ v', s.coerceOperand name v = .ok v' := by
        simp [Clause.operands]
      rw [hall, ← Condition.exists_rewrites_iff]
      constructor
      · rintro ⟨_, hcoerces⟩
        cases hcoerces with
        | on h => exact ⟨_, h⟩
      · rintro ⟨converted, h⟩
        exact ⟨_, .on h⟩
  | anyOf entries =>
      constructor
      · rintro ⟨_, hcoerces⟩ operand hoperand
        cases hcoerces with
        | anyOf h =>
            obtain ⟨_, _, _, hv⟩ := exists_of_mem_forall₂ h hoperand
            exact ⟨_, hv⟩
      · intro h
        have hpairs : ∀ entry ∈ entries, ∃ entry' : String × Value,
            entry'.1 = entry.1 ∧ s.coerceOperand entry.1 entry.2 = .ok entry'.2 := by
          intro entry hentry
          obtain ⟨v, hv⟩ := h entry hentry
          exact ⟨(entry.1, v), rfl, hv⟩
        obtain ⟨converted, hconverted⟩ := exists_forall₂_iff.mpr hpairs
        exact ⟨_, .anyOf hconverted⟩

theorem coerceWhere_eq_ok_iff :
    s.coerceWhere w = .ok coerced ↔
      ∃ entries, List.Forall₂ s.Coerces w.clauses entries ∧
        coerced = WhereClause.build entries := by
  have hstep : ∀ before clause after, s.coerceClause before clause = .ok after ↔
      ∃ converted, s.Coerces clause converted ∧ after = before.add converted :=
    fun _ _ _ => coerceClause_eq_ok_iff
  exact WhereClause.foldlM_eq_ok_iff hstep

/-- A clause can be coerced when none of its operands is refused. -/
theorem exists_coerceWhere_iff :
    (∃ coerced, s.coerceWhere w = .ok coerced) ↔
      ∀ clause ∈ w.clauses, ∀ operand ∈ clause.operands, ¬ s.Refuses operand := by
  simp only [coerceWhere_eq_ok_iff, ← exists_coerces_iff, ← exists_forall₂_iff]
  constructor
  · rintro ⟨_, entries, hentries, _⟩
    exact ⟨entries, hentries⟩
  · rintro ⟨entries, hentries⟩
    exact ⟨_, entries, hentries, rfl⟩

/-- A coerced clause has one condition for each attribute, whatever it was coerced from. -/
theorem distinct_coerceWhere (h : s.coerceWhere w = .ok coerced) : coerced.Distinct := by
  obtain ⟨entries, _, rfl⟩ := coerceWhere_eq_ok_iff.mp h
  exact WhereClause.distinct_build entries

theorem filterMap_attribute?_of_coerces {clauses entries : List Clause}
    (h : List.Forall₂ s.Coerces clauses entries) :
    entries.filterMap Clause.attribute? = clauses.filterMap Clause.attribute? := by
  induction h with
  | nil => rfl
  | cons hfirst _ ih =>
      cases hfirst with
      | on _ => simp [ih]
      | anyOf _ => simpa [List.filterMap_cons] using ih

theorem Coerces.mentions {clause converted : Clause} (h : s.Coerces clause converted) :
    converted.mentions = clause.mentions := by
  cases h with
  | on _ => rfl
  | anyOf h =>
      induction h with
      | nil => rfl
      | cons hfirst _ ih =>
          simp only [Clause.mentions_anyOf, List.map_cons, hfirst.1] at ih ⊢
          rw [ih]

theorem mentions_of_coerces {clauses entries : List Clause}
    (h : List.Forall₂ s.Coerces clauses entries) :
    entries.flatMap Clause.mentions = clauses.flatMap Clause.mentions := by
  induction h with
  | nil => rfl
  | cons hfirst _ ih => rw [List.flatMap_cons, List.flatMap_cons, hfirst.mentions, ih]

theorem mem_mentions_coerceWhere (h : s.coerceWhere w = .ok coerced) {name : String} :
    name ∈ coerced.mentions ↔ name ∈ w.mentions := by
  obtain ⟨entries, hentries, rfl⟩ := coerceWhere_eq_ok_iff.mp h
  rw [WhereClause.mem_mentions_build, mentions_of_coerces hentries, WhereClause.mentions]

/-- A clause with one condition for each attribute is coerced entry by entry. -/
theorem coerces_of_coerceWhere (hdistinct : w.Distinct) (h : s.coerceWhere w = .ok coerced) :
    List.Forall₂ s.Coerces w.clauses coerced.clauses := by
  obtain ⟨entries, hentries, rfl⟩ := coerceWhere_eq_ok_iff.mp h
  have hnodup : (entries.filterMap Clause.attribute?).Nodup := by
    rw [filterMap_attribute?_of_coerces hentries]
    exact hdistinct
  rw [WhereClause.build_eq hnodup]
  exact hentries

/-- In a clause with one condition for each attribute no condition is lost to another one. -/
theorem exists_mem_coerceWhere (hdistinct : w.Distinct) (h : s.coerceWhere w = .ok coerced)
    {name : String} {c : Condition} (hc : .on name c ∈ w.clauses) :
    ∃ converted, c.Rewrites (s.coerceOperand name) converted ∧
      .on name converted ∈ coerced.clauses := by
  obtain ⟨clause, hmem, hcoerces⟩ := exists_of_mem_forall₂ (coerces_of_coerceWhere hdistinct h) hc
  cases hcoerces with
  | on hconverted => exact ⟨_, hconverted, hmem⟩

end KeySchema

end KeyedQuery
