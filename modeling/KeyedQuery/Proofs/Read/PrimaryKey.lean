import KeyedQuery.Proofs.Coercion
import KeyedQuery.Proofs.Read.Answer
import KeyedQuery.Proofs.Schema.Valid
import KeyedQuery.Proofs.Sorting
import KeyedQuery.Proofs.Store.Put

/-!
# What a primary key names

A put tells primary keys apart by an equality that tells an integer from a
floating-point number, and a condition does not.  So a table may hold several
records that a condition on the primary key does not tell apart.  Where it does,
a number in a key attribute has two representations.
-/

namespace KeyedQuery

/-! ## Agreement -/

/-- The value of an attribute and another value are an integer and a floating-point number. -/
def Record.mixes (r : Record) (name : String) (v : Value) : Bool :=
  (r.get? name).any fun held => held.mixed v

theorem Record.get?_of_present? {r : Record} {name : String} {v : Value}
    (h : r.present? name = some v) : r.get? name = some v :=
  (Option.filter_eq_some_iff.mp h).1

theorem Value.eq_number_of_mixed {v w : Value} {type : ScalarType} (h : v.mixed w = true)
    (hof : w.isOf type = true) : type = .number := by
  cases w <;> cases type <;> simp_all [isOf, mixed]

namespace KeySchema

variable {s : KeySchema} {a b : Record}

def keyNamesOf (s : KeySchema) : List String :=
  s.hashKey :: s.sortKey.toList

/-- Both records have every attribute of the primary key, and conditions take the values for equal. -/
def Agree (s : KeySchema) (a b : Record) : Prop :=
  ∀ name ∈ s.keyNamesOf, ∃ v w, a.present? name = some v ∧ b.present? name = some w ∧
    v.looseEq w = true

/-- In a key attribute one record has an integer and the other a floating-point number. -/
def Mixed (s : KeySchema) (a b : Record) : Prop :=
  ∃ name ∈ s.keyNamesOf, ∃ v, b.get? name = some v ∧ a.mixes name v = true

theorem exists_typeOf?_of_valid (h : s.Valid) {name : String} (hname : name ∈ s.keyNamesOf) :
    ∃ type, s.typeOf? name = some type := by
  have htyped : s.attributes.contains name = true := by
    rcases List.mem_cons.mp hname with rfl | hsort
    · exact h.hashTyped
    · exact h.sortTyped name (by simpa using hsort)
  exact Option.isSome_iff_exists.mp htyped

theorem samePrimaryKey_of_beq
    (h : ∀ name ∈ s.keyNamesOf, ∃ v w, a.get? name = some v ∧ b.get? name = some w ∧
      (v == w) = true) : s.samePrimaryKey a b = true := by
  refine samePrimaryKey_iff.mpr ⟨?_, ?_⟩
  · obtain ⟨v, w, hv, hw, heq⟩ := h s.hashKey List.mem_cons_self
    simpa [hv, hw] using heq
  · cases hsort : s.sortKey with
    | none => rfl
    | some name =>
        have hname : name ∈ s.keyNamesOf := by simp [keyNamesOf, hsort]
        obtain ⟨v, w, hv, hw, heq⟩ := h name hname
        simpa [hv, hw] using heq

theorem mixed_of_agree (h : s.Agree a b) (hother : s.samePrimaryKey a b = false) :
    s.Mixed a b := by
  by_contra hunmixed
  have hsame : s.samePrimaryKey a b = true := by
    refine samePrimaryKey_of_beq fun name hname => ?_
    obtain ⟨v, w, hv, hw, hloose⟩ := h name hname
    have ha := Record.get?_of_present? hv
    have hb := Record.get?_of_present? hw
    have hvw : v.mixed w = false := by
      by_contra hmixed
      exact hunmixed ⟨name, hname, w, hb, by simpa [Record.mixes, ha] using hmixed⟩
    exact ⟨v, w, ha, hb, Value.beq_of_looseEq hloose hvw⟩
  rw [hother] at hsame
  cases hsame

end KeySchema

/-! ## Equalities on the primary key -/

namespace WhereClause

/-- The clause has a plain equality on every attribute of the primary key. -/
def FixesKey (w : WhereClause) (s : KeySchema) : Prop :=
  ∀ name ∈ s.keyNamesOf, ∃ v, .on name (.equals v) ∈ w.clauses

/-- Some operand on a key attribute is a number in another representation than in the record. -/
def MixesKey (w : WhereClause) (s : KeySchema) (r : Record) : Prop :=
  ∃ name ∈ s.keyNamesOf, ∃ v, .on name (.equals v) ∈ w.clauses ∧ r.mixes name v = true

variable {w coerced : WhereClause} {s : KeySchema} {a b r : Record}

theorem exists_of_holds_equals {name : String} {v : Value} (h : w.holds r = true)
    (hclause : .on name (.equals v) ∈ w.clauses) :
    ∃ held, r.get? name = some held ∧ held.looseEq v = true := by
  have hholds : (Condition.equals v).holds r name = true := List.all_eq_true.mp h _ hclause
  unfold Condition.holds at hholds
  split at hholds
  · rename_i held hpresent
    exact ⟨held, Record.get?_of_present? hpresent, hholds⟩
  · cases hholds

theorem samePrimaryKey_of_fixesKey (h : w.FixesKey s) (ha : w.holds a = true)
    (hb : w.holds b = true) (hmixa : ¬ w.MixesKey s a) (hmixb : ¬ w.MixesKey s b) :
    s.samePrimaryKey a b = true := by
  have hbeq : ∀ r, w.holds r = true → ¬ w.MixesKey s r → ∀ name ∈ s.keyNamesOf, ∀ v,
      .on name (.equals v) ∈ w.clauses → ∃ held, r.get? name = some held ∧ (held == v) = true := by
    intro r hr hmix name hname v hclause
    obtain ⟨held, hget, hloose⟩ := exists_of_holds_equals hr hclause
    have hunmixed : held.mixed v = false := by
      by_contra hmixed
      exact hmix ⟨name, hname, v, hclause, by simpa [Record.mixes, hget] using hmixed⟩
    exact ⟨held, hget, Value.beq_of_looseEq hloose hunmixed⟩
  refine KeySchema.samePrimaryKey_of_beq fun name hname => ?_
  obtain ⟨v, hclause⟩ := h name hname
  obtain ⟨x, hx, hxv⟩ := hbeq a ha hmixa name hname v hclause
  obtain ⟨y, hy, hyv⟩ := hbeq b hb hmixb name hname v hclause
  exact ⟨x, y, hx, hy, PartialEquivBEq.trans hxv (PartialEquivBEq.symm hyv)⟩

theorem FixesKey.coerceWhere (h : w.FixesKey s) (hdistinct : w.Distinct)
    (hcoerced : s.coerceWhere w = .ok coerced) : coerced.FixesKey s := by
  intro name hname
  obtain ⟨v, hclause⟩ := h name hname
  obtain ⟨converted, hconverted, hmem⟩ :=
    KeySchema.exists_mem_coerceWhere hdistinct hcoerced hclause
  cases hconverted with
  | @equals _ v' _ => exact ⟨v', hmem⟩

/-- Coercion changes no key attribute of a record that satisfies an equality on it. -/
theorem MixesKey.coerceRecord (hcoerced : s.coerceWhere w = .ok coerced)
    (hholds : coerced.holds r = true) (h : coerced.MixesKey s r) :
    coerced.MixesKey s (s.coerceRecord r) := by
  obtain ⟨name, hname, v, hclause, hmixes⟩ := h
  have hsame : (s.coerceRecord r).get? name = r.get? name :=
    KeySchema.get?_coerceRecord_of_holds (KeySchema.coercedClause_of_mem hcoerced hclause)
      (List.all_eq_true.mp hholds _ hclause)
  refine ⟨name, hname, v, hclause, ?_⟩
  unfold Record.mixes at hmixes ⊢
  rw [hsame]
  exact hmixes

theorem not_mixesKey (hvalid : s.Valid) (hcoerced : s.coerceWhere w = .ok coerced)
    (hnumber : ∀ name ∈ s.keyNamesOf, s.typeOf? name ≠ some .number) :
    ¬ coerced.MixesKey s r := by
  rintro ⟨name, hname, v, hclause, hmixes⟩
  obtain ⟨type, htype⟩ := KeySchema.exists_typeOf?_of_valid hvalid hname
  have hoperand : v = .null ∨ v.isOf type = true :=
    KeySchema.coercedClause_of_mem hcoerced hclause v (List.mem_singleton_self v) type htype
  have hmixed : ∃ held, r.get? name = some held ∧ held.mixed v = true := by
    simpa [Record.mixes, Option.any_eq_true] using hmixes
  obtain ⟨held, _, hmixed⟩ := hmixed
  rcases hoperand with rfl | hof
  · cases held <;> cases hmixed
  · have htypeNumber := Value.eq_number_of_mixed hmixed hof
    rw [htypeNumber] at htype
    exact hnumber name hname htype

end WhereClause

namespace Table

variable {t : Table} {w coerced : WhereClause}

/-- Two records that an equality on the primary key finds are told apart by a representation. -/
theorem KeysApart.pairwise_filter (h : t.KeysApart) (hfixes : w.FixesKey t.schema) :
    (t.records.filter w.holds).Pairwise fun a b =>
      w.MixesKey t.schema a ∨ w.MixesKey t.schema b := by
  have hapart : (t.records.filter w.holds).Pairwise fun a b =>
      t.schema.samePrimaryKey a b = false := h.sublist List.filter_sublist
  refine hapart.imp_of_mem fun {a b} ha hb hother => ?_
  by_contra hmix
  obtain ⟨hmixa, hmixb⟩ := not_or.mp hmix
  have hsame := WhereClause.samePrimaryKey_of_fixesKey hfixes (List.of_mem_filter ha)
    (List.of_mem_filter hb) hmixa hmixb
  rw [hother] at hsame
  cases hsame

theorem KeysApart.pairwise_arrange (h : t.KeysApart)
    (hcoerced : t.schema.coerceWhere w = .ok coerced) (hfixes : coerced.FixesKey t.schema)
    (q : Query) :
    (t.schema.arrange q (t.records.filter coerced.holds)).Pairwise fun a b =>
      coerced.MixesKey t.schema a ∨ coerced.MixesKey t.schema b := by
  have hmapped : ((t.records.filter coerced.holds).map t.schema.coerceRecord).Pairwise
      fun a b => coerced.MixesKey t.schema a ∨ coerced.MixesKey t.schema b := by
    refine List.pairwise_map.mpr ((h.pairwise_filter hfixes).imp_of_mem ?_)
    intro a b ha hb hmix
    exact hmix.imp (WhereClause.MixesKey.coerceRecord hcoerced (List.of_mem_filter ha))
      (WhereClause.MixesKey.coerceRecord hcoerced (List.of_mem_filter hb))
  have hperm := t.schema.perm_sortRecords (t.schema.effectiveOrder q.order)
    ((t.records.filter coerced.holds).map t.schema.coerceRecord)
  have hsorted := (hperm.pairwise_iff fun {a b} hmix => hmix.symm).mpr hmapped
  exact hsorted.sublist (window_sublist _ _ _)

end Table

theorem length_le_one_of_pairwise {α : Type} {R : α → α → Prop} {xs : List α}
    (h : xs.Pairwise R) (hfalse : ∀ a b, ¬ R a b) : xs.length ≤ 1 := by
  cases xs with
  | nil => simp
  | cons x rest =>
      cases rest with
      | nil => simp
      | cons y rest => exact absurd (List.rel_of_pairwise_cons h List.mem_cons_self) (hfalse x y)

/--
Two records of a table that was filled by puts and that conditions on the primary
key do not tell apart have a key attribute in which one has an integer and the
other a floating-point number.  Of any two records that a read by equalities on
the primary key returns, one has a number in another representation than the
operand; so a key without a number names one record at most.
-/
theorem MemoryStore.Reachable.primaryKeys {s : MemoryStore} (hreachable : s.Reachable)
    {table : String} {t : Table} (htable : s.tables.get? table = some t) :
    (t.records.Pairwise fun a b => t.schema.Agree a b → t.schema.Mixed a b) ∧
      ∀ (x : Executor) (name : String) (q : Query) (context : ReadContext) (m : Model)
        (answer : Answer), x.client = s.client → x.registry.get name = .ok m →
        m.tableName = table → m.schema = t.schema → m.schema.validate = .ok () →
        t.records.length ≤ 2 ^ 64 → q.conditions.Distinct → q.conditions.FixesKey m.schema →
        (x.read name q context).result = .ok answer →
        ∃ coerced, m.schema.coerceWhere q.conditions = .ok coerced ∧
          (answer.records.Pairwise fun a b =>
            coerced.MixesKey m.schema a ∨ coerced.MixesKey m.schema b) ∧
          ((∀ field ∈ m.schema.keyNamesOf, m.schema.typeOf? field ≠ some .number) →
            answer.records.length ≤ 1) := by
  have happart := hreachable.keysApart htable
  refine ⟨happart.imp fun hother hagree => KeySchema.mixed_of_agree hagree hother, ?_⟩
  intro x name q context m answer hclient hmodel hname hschema hvalid hbound hdistinct hfixes hread
  have hvalid := KeySchema.validate_eq_ok_iff.mp hvalid
  obtain ⟨p, fetched, hplan, hfetched, rfl⟩ := (Executor.read_eq_ok_iff hmodel).mp hread
  obtain ⟨coerced, hcoerced, hcoercedDistinct, hof⟩ := Model.of_plan hplan
  have hfound : s.tables.get? m.tableName = some t := by
    rw [hname]
    exact htable
  have hall : fetched.records = t.records.filter coerced.holds := by
    rw [hclient] at hfetched
    exact (hof.readsPages hcoercedDistinct hvalid hfound hschema.symm).records_of_fetchAll
      hbound hfetched
  have hpairwise : (m.schema.arrange q fetched.records).Pairwise fun a b =>
      coerced.MixesKey m.schema a ∨ coerced.MixesKey m.schema b := by
    have hcoercedFixes := hfixes.coerceWhere hdistinct hcoerced
    rw [hall]
    rw [hschema] at hcoerced hcoercedFixes ⊢
    exact happart.pairwise_arrange hcoerced hcoercedFixes q
  refine ⟨coerced, hcoerced, hpairwise, fun hnumber => ?_⟩
  refine length_le_one_of_pairwise hpairwise fun a b hmix => ?_
  exact hmix.elim (WhereClause.not_mixesKey hvalid hcoerced hnumber)
    (WhereClause.not_mixesKey hvalid hcoerced hnumber)

-- A floating-point operand may equal several integers, which a put keeps apart.
example : [9007199254740992, 9007199254740993].all fun n =>
    (Value.int n).looseEq (.float ⟨0x4340000000000000⟩) := by
  decide +kernel

/-- The number one as an integer, and as a floating-point number. -/
def Record.oneAsInt : Record :=
  Dict.ofList [("n", .int 1)]

def Record.oneAsFloat : Record :=
  Dict.ofList [("n", .float ⟨0x3FF0000000000000⟩)]

def Model.ones : Model :=
  ⟨"ones", none, .ofHashKey "n" .number⟩

def MemoryStore.ones (records : List Record) : MemoryStore :=
  ⟨1, Dict.empty.insert "ones" ⟨Model.ones.schema, records⟩, Nat.one_pos⟩

def Executor.ones : Executor :=
  ⟨(MemoryStore.ones [.oneAsInt, .oneAsFloat]).client, ⟨Dict.empty.insert "ones" .ones⟩, .default⟩

def Query.one : Query :=
  { Query.all with conditions := WhereClause.empty.set "n" (.equals (.int 1)) }

theorem MemoryStore.reachable_ones : (ones [.oneAsInt, .oneAsFloat]).Reachable := by
  have hint : ((ofPageSize 1).createTable "ones" Model.ones.schema).put "ones" .oneAsInt =
      .ok (ones [.oneAsInt]) := rfl
  have hfloat : (ones [.oneAsInt]).put "ones" .oneAsFloat =
      .ok (ones [.oneAsInt, .oneAsFloat]) := rfl
  exact .put (.put (.createTable (.start 1) _ _) hint) hfloat

theorem MemoryStore.Reachable.primaryKeys_ones :
    ∃ (answer : Answer) (coerced : WhereClause),
      (Executor.ones.read "ones" .one .idle).result = .ok answer ∧
      (answer.records.Pairwise fun a b =>
        coerced.MixesKey Model.ones.schema a ∨ coerced.MixesKey Model.ones.schema b) ∧
      [Record.oneAsInt, .oneAsFloat].Pairwise fun a b =>
        Model.ones.schema.Agree a b → Model.ones.schema.Mixed a b := by
  have hok : (Executor.ones.read "ones" .one .idle).result.isOk = true := by decide +kernel
  obtain ⟨answer, hread⟩ := exists_of_isOk hok
  have hfixes : Query.one.conditions.FixesKey Model.ones.schema := by
    intro name hname
    rw [List.mem_singleton.mp hname]
    exact ⟨.int 1, List.mem_singleton_self _⟩
  have htable : (ones [.oneAsInt, .oneAsFloat]).tables.get? "ones" =
      some ⟨Model.ones.schema, [.oneAsInt, .oneAsFloat]⟩ := rfl
  obtain ⟨hagree, hreads⟩ := primaryKeys reachable_ones htable
  obtain ⟨coerced, _, hpairwise, _⟩ := hreads .ones "ones" .one .idle .ones answer rfl rfl rfl rfl
    rfl (by decide) (List.nodup_singleton _) hfixes hread
  exact ⟨answer, coerced, hread, hpairwise, hagree⟩

/-- Two puts of one key as conditions see it, and a read by that key, which finds both records. -/
theorem MemoryStore.reachable_ones_agree :
    (ones [.oneAsInt, .oneAsFloat]).Reachable ∧
      Model.ones.schema.Agree .oneAsInt .oneAsFloat ∧
      (Executor.ones.find "ones" .one).result.toOption.map List.length = some 2 := by
  refine ⟨reachable_ones, ?_, by decide +kernel⟩
  intro name hname
  rw [List.mem_singleton.mp hname]
  exact ⟨_, _, rfl, rfl, by decide +kernel⟩

end KeyedQuery
