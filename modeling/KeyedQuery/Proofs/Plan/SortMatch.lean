import KeyedQuery.Proofs.Plan.Partition

/-!
# The attribute that narrows a read

The search for a narrowing attribute, said as a choice among the entries of a
clause: an entry on the sort attribute of the table comes before any other, and
after it comes the first entry on the sort attribute of an index that shares the
hash attribute, with the first such index.  An entry that is neither, and is no
equality on the hash attribute, may be left out without changing the choice.
-/

namespace KeyedQuery

namespace KeySchema

variable {s : KeySchema} {w : WhereClause}

/-! ## Entries that can narrow a read -/

/-- An entry on the sort attribute of the table that is no membership. -/
inductive OnTableSort (s : KeySchema) : Clause → Prop where
  | on {name : String} {c : Condition} (hsort : s.sortKey = some name)
      (hc : c.isMembership = false) : OnTableSort s (.on name c)

/-- An index of the schema by which a partition of the table is sorted by an attribute. -/
def Sorts (s : KeySchema) (index : SecondaryIndex) (name : String) : Prop :=
  index.sortKey = name ∧ index.hashKey = s.hashKey

/--
An entry on the sort attribute of an index that shares the hash attribute, other than
the hash attribute itself, that is no membership.
-/
inductive OnIndexSort (s : KeySchema) : Clause → Prop where
  | on {name : String} {c : Condition} {index : SecondaryIndex} (hname : name ≠ s.hashKey)
      (hc : c.isMembership = false) (hmem : index ∈ s.indexes) (hsorts : s.Sorts index name) :
      OnIndexSort s (.on name c)

/-- The documented preference among the entries of a clause. -/
inductive Prefers (s : KeySchema) (w : WhereClause) : SortMatch → Prop where
  | table {name : String} {c : Condition} (hsort : s.sortKey = some name)
      (hmem : .on name c ∈ w.clauses) (hc : c.isMembership = false) : Prefers s w ⟨name, none⟩
  | index {before after : List Clause} {name : String} {c : Condition}
      {earlier later : List SecondaryIndex} {index : SecondaryIndex}
      (htable : ∀ clause ∈ w.clauses, ¬ s.OnTableSort clause)
      (hclauses : w.clauses = before ++ .on name c :: after)
      (hbefore : ∀ clause ∈ before, ¬ s.OnIndexSort clause)
      (hname : name ≠ s.hashKey) (hc : c.isMembership = false)
      (hindexes : s.indexes = earlier ++ index :: later) (hsorts : s.Sorts index name)
      (hearlier : ∀ other ∈ earlier, ¬ s.Sorts other name) : Prefers s w ⟨name, some index.name⟩

/-- An entry that says nothing of a key: it is a group, a membership, or on another attribute. -/
inductive Idle (s : KeySchema) : Clause → Prop where
  | group (entries : List (String × Value)) : Idle s (.anyOf entries)
  | membership {name : String} {c : Condition} (hc : c.isMembership = true) : Idle s (.on name c)
  | other {name : String} {c : Condition} (hhash : name ≠ s.hashKey)
      (hsort : s.sortKey ≠ some name)
      (hindexes : ∀ index ∈ s.indexes, index.hashKey = s.hashKey → index.sortKey ≠ name) :
      Idle s (.on name c)

/-- The entries that are left when some idle ones are taken out of a clause. -/
inductive Leaves (s : KeySchema) : List Clause → List Clause → Prop where
  | nil : Leaves s [] []
  | drop {clause : Clause} {clauses rest : List Clause} (hidle : s.Idle clause)
      (h : Leaves s clauses rest) : Leaves s (clause :: clauses) rest
  | keep {clause : Clause} {clauses rest : List Clause} (h : Leaves s clauses rest) :
      Leaves s (clause :: clauses) (clause :: rest)

theorem Idle.not_onTableSort {clause : Clause} (h : s.Idle clause) : ¬ s.OnTableSort clause := by
  rintro ⟨hsort, hc⟩
  cases h with
  | membership hmembership => simp [hc] at hmembership
  | other _ hother _ => exact hother hsort

theorem Idle.not_onIndexSort {clause : Clause} (h : s.Idle clause) : ¬ s.OnIndexSort clause := by
  rintro ⟨_, hc, hmem, hsorts, hhash⟩
  cases h with
  | membership hmembership => simp [hc] at hmembership
  | other _ _ hother => exact hother _ hmem hhash hsorts

theorem Idle.ne_equality {clause : Clause} (h : s.Idle clause) (value : Value) :
    .on s.hashKey (.equals value) ≠ clause := by
  rintro rfl
  cases h with
  | membership hmembership => cases hmembership
  | other hhash _ _ => exact hhash rfl

/-! ## The search, entry by entry -/

theorem indexSortedBy?_eq_some_iff {name : String} {index : SecondaryIndex} :
    s.indexSortedBy? name = some index ↔
      ∃ earlier later, s.indexes = earlier ++ index :: later ∧ s.Sorts index name ∧
        ∀ other ∈ earlier, ¬ s.Sorts other name := by
  have htest (other : SecondaryIndex) :
      (other.sortKey == name && other.hashKey == s.hashKey) = true ↔ s.Sorts other name := by
    simp [Sorts]
  simp only [indexSortedBy?, List.find?_eq_some_iff_append, Bool.not_eq_true', htest,
    ← Bool.not_eq_true]
  constructor
  · rintro ⟨hsorts, earlier, later, hindexes, hearlier⟩
    exact ⟨earlier, later, hindexes, hsorts, hearlier⟩
  · rintro ⟨earlier, later, hindexes, hsorts, hearlier⟩
    exact ⟨hsorts, earlier, later, hindexes, hearlier⟩

/-- What one entry lets the search for an index find. -/
def indexMatchOf? (s : KeySchema) : Clause → Option SortMatch
  | .on name c =>
      if name = s.hashKey ∨ c.isMembership then
        none
      else
        (s.indexSortedBy? name).map fun index => ⟨name, some index.name⟩
  | .anyOf _ => none

/-- The search for an index goes through the entries and skips the groups. -/
theorem indexSortMatch?_eq (s : KeySchema) (w : WhereClause) :
    s.indexSortMatch? w = w.clauses.findSome? s.indexMatchOf? := by
  obtain ⟨clauses⟩ := w
  unfold indexSortMatch? WhereClause.attributes
  induction clauses with
  | nil => rfl
  | cons clause rest ih =>
      cases clause with
      | on name c =>
          simp only [List.filterMap_cons, List.findSome?_cons, indexMatchOf?]
          split <;> simp_all
      | anyOf entries => simpa [List.findSome?_cons, indexMatchOf?] using ih

theorem indexMatchOf?_eq_some_iff {clause : Clause} {matched : SortMatch} :
    s.indexMatchOf? clause = some matched ↔
      ∃ name c index, clause = .on name c ∧ name ≠ s.hashKey ∧ c.isMembership = false ∧
        s.indexSortedBy? name = some index ∧ matched = ⟨name, some index.name⟩ := by
  cases clause with
  | on name c =>
      by_cases htest : name = s.hashKey ∨ c.isMembership = true
      · simp only [indexMatchOf?, if_pos htest, reduceCtorEq, false_iff]
        rintro ⟨_, _, _, hclause, hname, hc, _⟩
        cases hclause
        rcases htest with hhash | hmembership
        · exact hname hhash
        · simp [hc] at hmembership
      · have htest' := htest
        simp only [not_or, Bool.not_eq_true] at htest'
        simp only [indexMatchOf?, if_neg htest, Option.map_eq_some_iff]
        constructor
        · rintro ⟨index, hindex, rfl⟩
          exact ⟨name, c, index, rfl, htest'.1, htest'.2, hindex, rfl⟩
        · rintro ⟨_, _, index, hclause, _, _, hindex, rfl⟩
          cases hclause
          exact ⟨index, hindex, rfl⟩
  | anyOf entries => simp [indexMatchOf?]

theorem indexMatchOf?_eq_none_iff {clause : Clause} :
    s.indexMatchOf? clause = none ↔ ¬ s.OnIndexSort clause := by
  constructor
  · rintro hnone ⟨hname, hc, hmem, hsorts, hhash⟩
    simp only [indexMatchOf?, hname, hc, Bool.false_eq_true, or_self, if_false,
      Option.map_eq_none_iff] at hnone
    have htest := List.find?_eq_none.mp hnone _ hmem
    simp [hsorts, hhash] at htest
  · intro hnot
    by_contra hsome
    obtain ⟨matched, hmatched⟩ := Option.ne_none_iff_exists'.mp hsome
    obtain ⟨name, c, index, rfl, hname, hc, hindex, _⟩ := indexMatchOf?_eq_some_iff.mp hmatched
    obtain ⟨hmem, hsorts, hhash⟩ := indexSortedBy?_spec hindex
    exact hnot ⟨hname, hc, hmem, hsorts, hhash⟩

theorem narrows_iff (hdistinct : w.Distinct) {name : String} :
    narrows w name = true ↔ ∃ c, .on name c ∈ w.clauses ∧ c.isMembership = false := by
  simp [narrows, Option.any_eq_true, hdistinct.get?_eq_some_iff]

theorem filter_narrows_eq_none_iff (hdistinct : w.Distinct) :
    s.sortKey.filter (narrows w) = none ↔ ∀ clause ∈ w.clauses, ¬ s.OnTableSort clause := by
  rw [Option.filter_eq_none_iff]
  constructor
  · rintro hnone _ hmem ⟨hsort, hc⟩
    exact hnone _ hsort ((narrows_iff hdistinct).mpr ⟨_, hmem, hc⟩)
  · intro hnone name hsort hnarrows
    obtain ⟨c, hmem, hc⟩ := (narrows_iff hdistinct).mp hnarrows
    exact hnone _ hmem ⟨hsort, hc⟩

/-- The search takes an entry on the sort attribute of the table, or else the first on an index. -/
theorem sortMatch?_cases (s : KeySchema) (hdistinct : w.Distinct) :
    (∃ name c, s.sortKey = some name ∧ .on name c ∈ w.clauses ∧ c.isMembership = false ∧
        s.sortMatch? w = some ⟨name, none⟩) ∨
      (∀ clause ∈ w.clauses, ¬ s.OnTableSort clause) ∧
        s.sortMatch? w = w.clauses.findSome? s.indexMatchOf? := by
  unfold sortMatch?
  cases htable : s.sortKey.filter (narrows w) with
  | some name =>
      obtain ⟨hsort, hnarrows⟩ := Option.filter_eq_some_iff.mp htable
      obtain ⟨c, hmem, hc⟩ := (narrows_iff hdistinct).mp hnarrows
      exact .inl ⟨name, c, hsort, hmem, hc, rfl⟩
  | none =>
      exact .inr ⟨(filter_narrows_eq_none_iff hdistinct).mp htable, s.indexSortMatch?_eq w⟩

/-- The search finds what the documented preference says. -/
theorem sortMatch?_eq_some_iff (hdistinct : w.Distinct) {matched : SortMatch} :
    s.sortMatch? w = some matched ↔ s.Prefers w matched := by
  rcases s.sortMatch?_cases hdistinct with ⟨name, c, hsort, hmem, hc, heq⟩ | ⟨hnone, heq⟩
  · rw [heq]
    constructor
    · rintro ⟨⟩
      exact .table hsort hmem hc
    · rintro (⟨hsort', _, _⟩ | ⟨hnone, _⟩)
      · rw [hsort] at hsort'
        cases hsort'
        rfl
      · exact absurd ⟨hsort, hc⟩ (hnone _ hmem)
  · simp only [heq, List.findSome?_eq_some_iff, indexMatchOf?_eq_some_iff,
      indexMatchOf?_eq_none_iff, indexSortedBy?_eq_some_iff]
    constructor
    · rintro ⟨before, _, after, hclauses, ⟨name, c, index, rfl, hname, hc,
        ⟨earlier, later, hindexes, hsorts, hearlier⟩, rfl⟩, hbefore⟩
      exact .index hnone hclauses hbefore hname hc hindexes hsorts hearlier
    · rintro (⟨hsort, hmem, hc⟩ |
        ⟨_, hclauses, hbefore, hname, hc, hindexes, hsorts, hearlier⟩)
      · exact absurd ⟨hsort, hc⟩ (hnone _ hmem)
      · exact ⟨_, _, _, hclauses, ⟨_, _, _, rfl, hname, hc,
          ⟨_, _, hindexes, hsorts, hearlier⟩, rfl⟩, hbefore⟩

theorem sortMatch?_isSome_iff (hdistinct : w.Distinct) :
    (s.sortMatch? w).isSome = true ↔
      ∃ clause ∈ w.clauses, s.OnTableSort clause ∨ s.OnIndexSort clause := by
  rcases s.sortMatch?_cases hdistinct with ⟨name, c, hsort, hmem, hc, heq⟩ | ⟨hnone, heq⟩
  · simpa [heq] using ⟨_, hmem, .inl ⟨hsort, hc⟩⟩
  · have hentry (clause : Clause) :
        (s.indexMatchOf? clause).isSome = true ↔ s.OnIndexSort clause := by
      rw [← Option.ne_none_iff_isSome, Ne, indexMatchOf?_eq_none_iff, not_not]
    simp only [heq, List.findSome?_isSome_iff, hentry]
    constructor
    · rintro ⟨clause, hmem, hindex⟩
      exact ⟨clause, hmem, .inr hindex⟩
    · rintro ⟨clause, hmem, hsort | hindex⟩
      · exact absurd hsort (hnone clause hmem)
      · exact ⟨clause, hmem, hindex⟩

/-- The preferred attribute has a condition of its own, outside the groups. -/
theorem Prefers.exists_on {matched : SortMatch} (h : s.Prefers w matched) :
    ∃ c, .on matched.name c ∈ w.clauses ∧ c.isMembership = false := by
  cases h with
  | table _ hmem hc => exact ⟨_, hmem, hc⟩
  | index _ hclauses _ _ hc _ _ _ => exact ⟨_, by simp [hclauses], hc⟩

/-- The index that is named is one of the schema, and it shares the hash attribute. -/
theorem Prefers.exists_index {matched : SortMatch} (h : s.Prefers w matched) {name : String}
    (hname : matched.index = some name) :
    ∃ index ∈ s.indexes, index.name = name ∧ s.Sorts index matched.name := by
  cases h with
  | table _ _ _ => cases hname
  | index _ _ _ _ _ hindexes hsorts _ =>
      cases hname
      exact ⟨_, by simp [hindexes], rfl, hsorts⟩

/-! ## Entries that do not matter -/

namespace Leaves

variable {clauses rest : List Clause}

theorem sublist (h : s.Leaves clauses rest) : rest.Sublist clauses := by
  induction h with
  | nil => exact .slnil
  | drop _ _ ih => exact ih.cons _
  | keep _ ih => exact ih.cons_cons _

theorem mem_iff (h : s.Leaves clauses rest) {clause : Clause} (hidle : ¬ s.Idle clause) :
    clause ∈ rest ↔ clause ∈ clauses := by
  induction h with
  | nil => rfl
  | drop hfirst _ ih =>
      have hne : clause ≠ _ := fun heq => hidle (heq ▸ hfirst)
      rw [ih, List.mem_cons, or_iff_right hne]
  | keep _ ih => rw [List.mem_cons, List.mem_cons, ih]

theorem findSome?_indexMatchOf? (h : s.Leaves clauses rest) :
    rest.findSome? s.indexMatchOf? = clauses.findSome? s.indexMatchOf? := by
  induction h with
  | nil => rfl
  | drop hidle _ ih =>
      rw [List.findSome?_cons, indexMatchOf?_eq_none_iff.mpr hidle.not_onIndexSort, ih]
  | keep _ ih => rw [List.findSome?_cons, List.findSome?_cons, ih]

theorem made {w' : WhereClause} (h : s.Leaves w.clauses w'.clauses) (hw : w.Made) : w'.Made := by
  have hdistinct : w'.Distinct := hw.distinct.sublist (h.sublist.filterMap Clause.attribute?)
  rw [← hdistinct.build_eq]
  exact .calls _

theorem narrows_eq {w' : WhereClause} (h : s.Leaves w.clauses w'.clauses)
    (hdistinct : w.Distinct) (hdistinct' : w'.Distinct) {sortKey : String}
    (hsort : s.sortKey = some sortKey) : narrows w' sortKey = narrows w sortKey := by
  rw [Bool.eq_iff_iff, narrows_iff hdistinct, narrows_iff hdistinct']
  refine exists_congr fun c => and_congr_left fun hc => h.mem_iff ?_
  exact fun hidle => hidle.not_onTableSort ⟨hsort, hc⟩

/-- Neither part of the search meets an idle entry, so what is left is searched alike. -/
theorem sortMatch?_eq {w' : WhereClause} (h : s.Leaves w.clauses w'.clauses)
    (hdistinct : w.Distinct) (hdistinct' : w'.Distinct) : s.sortMatch? w' = s.sortMatch? w := by
  have htable : s.sortKey.filter (narrows w') = s.sortKey.filter (narrows w) := by
    cases hsort : s.sortKey with
    | none => rfl
    | some sortKey => simp only [Option.filter_some, h.narrows_eq hdistinct hdistinct' hsort]
  simp only [sortMatch?, htable, indexSortMatch?_eq, h.findSome?_indexMatchOf?]

end Leaves

/-! ## The choice -/

theorem sortMatch_classify (hdistinct : w.Distinct) :
    ((∃ value, .on s.hashKey (.equals value) ∈ w.clauses) ∧
        (s.classify w).sortMatch = s.sortMatch? w) ∨
      (¬ ∃ value, .on s.hashKey (.equals value) ∈ w.clauses) ∧
        (s.classify w).sortMatch = none := by
  simp only [← hdistinct.get?_eq_some_iff, ← isEquality_iff]
  by_cases hequality : (w.get? s.hashKey).any Condition.isEquality = true
  · exact .inl ⟨hequality, by simp [classify, hequality]⟩
  · exact .inr ⟨hequality, by simp [classify, hequality]⟩

theorem sortMatch_classify_eq_some_iff (hdistinct : w.Distinct) {matched : SortMatch} :
    (s.classify w).sortMatch = some matched ↔
      (∃ value, .on s.hashKey (.equals value) ∈ w.clauses) ∧ s.Prefers w matched := by
  rcases sortMatch_classify (s := s) hdistinct with ⟨hhash, heq⟩ | ⟨hhash, heq⟩
  · rw [heq, sortMatch?_eq_some_iff hdistinct, and_iff_right hhash]
  · simp [heq, hhash]

theorem sortMatch_classify_isSome_iff (hdistinct : w.Distinct) :
    (s.classify w).sortMatch.isSome = true ↔
      (∃ value, .on s.hashKey (.equals value) ∈ w.clauses) ∧
        ∃ clause ∈ w.clauses, s.OnTableSort clause ∨ s.OnIndexSort clause := by
  rcases sortMatch_classify (s := s) hdistinct with ⟨hhash, heq⟩ | ⟨hhash, heq⟩
  · rw [heq, sortMatch?_isSome_iff hdistinct, and_iff_right hhash]
  · simp [heq, hhash]

theorem Leaves.sortMatch_classify {w' : WhereClause} (h : s.Leaves w.clauses w'.clauses)
    (hdistinct : w.Distinct) (hdistinct' : w'.Distinct) :
    (s.classify w').sortMatch = (s.classify w).sortMatch := by
  ext matched
  -- An equality on the hash attribute is never idle, so both clauses have it or neither has.
  rw [sortMatch_classify_eq_some_iff hdistinct, sortMatch_classify_eq_some_iff hdistinct',
    ← sortMatch?_eq_some_iff hdistinct, ← sortMatch?_eq_some_iff hdistinct',
    h.sortMatch?_eq hdistinct hdistinct']
  refine and_congr_left fun _ => exists_congr fun value => h.mem_iff ?_
  exact fun hidle => hidle.ne_equality value rfl

/--
In a read by key the narrowing attribute is the sort attribute of the table, if that has
a condition other than a membership; else it is the first attribute of the clause with
such a condition that some index sharing the hash attribute sorts by, with the first such
index.  The index that is named shares the hash attribute, the attribute has a condition
outside the groups, and idle entries do not matter.
-/
theorem sortMatch_preference (s : KeySchema) {w : WhereClause} (hw : w.Made) :
    ((s.classify w).sortMatch.isSome = true ↔
        (∃ value, .on s.hashKey (.equals value) ∈ w.clauses) ∧
          ∃ clause ∈ w.clauses, s.OnTableSort clause ∨ s.OnIndexSort clause) ∧
      (∀ matched, (s.classify w).sortMatch = some matched ↔
        (∃ value, .on s.hashKey (.equals value) ∈ w.clauses) ∧ s.Prefers w matched) ∧
      (∀ name, (s.classify w).targetIndex = some name →
        ∃ index ∈ s.indexes, index.name = name ∧ index.hashKey = s.hashKey ∧
          ((s.indexes.map SecondaryIndex.name).Nodup → s.index? name = some index)) ∧
      (∀ matched, (s.classify w).sortMatch = some matched →
        ∃ c, .on matched.name c ∈ w.clauses ∧ c.isMembership = false) ∧
      ∀ w' : WhereClause, s.Leaves w.clauses w'.clauses →
        w'.Made ∧ (s.classify w').sortMatch = (s.classify w).sortMatch := by
  have hexact (matched : SortMatch) : (s.classify w).sortMatch = some matched ↔
      (∃ value, .on s.hashKey (.equals value) ∈ w.clauses) ∧ s.Prefers w matched :=
    sortMatch_classify_eq_some_iff hw.distinct
  refine ⟨sortMatch_classify_isSome_iff hw.distinct, hexact, ?_, ?_, ?_⟩
  · intro name hname
    obtain ⟨matched, hmatched, hindex⟩ := Option.bind_eq_some_iff.mp hname
    obtain ⟨index, hmem, rfl, _, hhash⟩ := ((hexact matched).mp hmatched).2.exists_index hindex
    exact ⟨index, hmem, rfl, hhash, fun hnames => index?_name_of_nodup hnames hmem⟩
  · intro matched hmatched
    exact ((hexact matched).mp hmatched).2.exists_on
  · intro w' hleaves
    have hw' := hleaves.made hw
    exact ⟨hw', hleaves.sortMatch_classify hw.distinct hw'.distinct⟩

/--
Three indexes that sort members by the time when they joined: one of bands, and two of
realms, as the table itself.
-/
def guild : KeySchema :=
  ⟨"realm", some "id", Dict.empty, [.independent "band" "joined", .sharing "realm" "role",
    .sharing "realm" "joined", .independent "realm" "joined"]⟩

/-- The members of a realm from some time on, among conditions that do not narrow the read. -/
def joinedSince : WhereClause :=
  ⟨[.on "id" (.isIn [.string "1", .string "2"]), .anyOf [("id", .string "1"), ("role", .null)],
    .on "joined" (.compare .ge (.int 5)), .on "realm" (.equals (.string "x")),
    .on "role" (.equals (.string "lead"))]⟩

theorem sortMatch_preference_joinedSince :
    joinedSince.Made ∧
      (guild.classify joinedSince).sortMatch = some ⟨"joined", some "joinedLocalIndex"⟩ ∧
      (∃ index ∈ guild.indexes, index.name = "joinedLocalIndex" ∧ index.hashKey = "realm") ∧
      (guild.classify ⟨joinedSince.clauses.drop 2⟩).sortMatch =
        some ⟨"joined", some "joinedLocalIndex"⟩ := by
  have hdistinct : joinedSince.Distinct := by
    unfold WhereClause.Distinct
    decide +kernel
  have hmade : joinedSince.Made := by
    rw [← hdistinct.build_eq]
    exact .calls _
  obtain ⟨_, hexact, htarget, _, hleaves⟩ := sortMatch_preference guild hmade
  have hname : (SecondaryIndex.sharing "realm" "joined").name = "joinedLocalIndex" := by
    decide +kernel
  have hclauses : joinedSince.clauses = joinedSince.clauses.take 2 ++
      .on "joined" (.compare .ge (.int 5)) :: joinedSince.clauses.drop 3 := rfl
  have hindexes : guild.indexes = guild.indexes.take 2 ++
      .sharing "realm" "joined" :: guild.indexes.drop 3 := rfl
  have htable : ∀ clause ∈ joinedSince.clauses, ¬ guild.OnTableSort clause := by
    rintro _ hmem @⟨_, c, ⟨⟩, hc⟩
    have honly : c = .isIn [.string "1", .string "2"] := by
      simpa [joinedSince] using hmem
    rw [honly] at hc
    cases hc
  have hbefore : ∀ clause ∈ joinedSince.clauses.take 2, ¬ guild.OnIndexSort clause := by
    rintro _ hmem @⟨name, c, _, _, hc, _, _⟩
    have honly : name = "id" ∧ c = .isIn [.string "1", .string "2"] := by
      simpa [joinedSince] using hmem
    rw [honly.2] at hc
    cases hc
  have hearlier : ∀ other ∈ guild.indexes.take 2, ¬ guild.Sorts other "joined" := by
    unfold Sorts
    decide
  have hmatched := (hexact _).mpr ⟨⟨.string "x", by simp [joinedSince, guild]⟩,
    .index htable hclauses hbefore (by decide) rfl hindexes ⟨rfl, rfl⟩ hearlier⟩
  rw [hname] at hmatched
  obtain ⟨index, hmem, hindex, hhash, _⟩ := htarget "joinedLocalIndex" (by
    rw [Classification.targetIndex, hmatched, Option.bind_some])
  refine ⟨hmade, hmatched, ⟨index, hmem, hindex, hhash⟩, ?_⟩
  have hrest : guild.Leaves joinedSince.clauses (joinedSince.clauses.drop 2) :=
    .drop (.membership rfl) (.drop (.group _) (.keep (.keep (.keep .nil))))
  rw [(hleaves ⟨joinedSince.clauses.drop 2⟩ hrest).2, hmatched]

end KeySchema

end KeyedQuery
