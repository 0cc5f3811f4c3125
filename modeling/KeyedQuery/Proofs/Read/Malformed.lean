import KeyedQuery.Proofs.Read.Paging
import KeyedQuery.Proofs.Schema.Registry
import KeyedQuery.Read.Executor

/-!
# Malformed requests

A document that is no query, a name that no model has and a where clause without a
plan are found before anything is asked of the store.  All that can go wrong from
then on is the store, the time and the caller who gives up.  So the kind of a
failure tells whether the store was asked.
-/

namespace KeyedQuery

/-- A cause that lies in what is asked for, or in the models, and in no store. -/
def ReadError.Malformed (e : ReadError) : Prop :=
  e.kind = .argument ∨ e.kind = .configuration

/-! ## While pages are fetched -/

theorem ReadContext.not_malformed_of_stop? {context : ReadContext} {pages : Nat} {e : ReadError}
    (h : context.stop? pages = some e) : ¬ e.Malformed := by
  unfold stop? at h
  split at h
  · cases h
    simp [ReadError.Malformed, ReadError.kind]
  · split at h
    · cases h
      simp [ReadError.Malformed, ReadError.kind]
    · cases h

theorem StoreError.not_malformed_afterPages (e : StoreError) (pages : Nat) :
    ¬ (e.afterPages pages).Malformed := by
  cases e <;> simp [afterPages, ReadError.Malformed, ReadError.kind]

namespace Plan

section Rounds

variable {p : Plan} {client : Client} {maxPages remaining : Nat} {context : ReadContext}
  {before : Progress} {e : ReadError}

/-- A read fails in a round for a cause that is not malformed, or in a later round. -/
theorem error_of_fetchFrom
    (h : (p.fetchFrom client maxPages context remaining before).result = .error e) :
    ¬ e.Malformed ∨ ∃ page fewer, remaining = fewer + 1 ∧
      (p.fetchFrom client maxPages context fewer
        (before.addPage (p.request before.cursor) page)).result = .error e := by
  rw [fetchFrom_eq] at h
  split at h
  · rename_i hstop
    cases h
    exact .inl (ReadContext.not_malformed_of_stop? hstop)
  · rename_i failure _ _
    cases h
    exact .inl (failure.not_malformed_afterPages _)
  · rename_i page _ _
    dsimp only [Outcome.called] at h
    split at h
    · cases h
    · split at h
      · cases h
        exact .inl (by simp [ReadError.Malformed, ReadError.kind])
      · split at h
        · cases h
          exact .inl (by simp [ReadError.Malformed, ReadError.kind])
        · rename_i fewer
          exact .inr ⟨page, fewer, rfl, h⟩

theorem not_malformed_of_fetchFrom
    (h : (p.fetchFrom client maxPages context remaining before).result = .error e) :
    ¬ e.Malformed := by
  induction remaining generalizing before with
  | zero =>
      rcases error_of_fetchFrom h with hcause | ⟨_, _, hnone, _⟩
      · exact hcause
      · cases hnone
  | succ remaining ih =>
      rcases error_of_fetchFrom h with hcause | ⟨page, fewer, hfewer, hlater⟩
      · exact hcause
      · cases hfewer
        exact ih hlater

end Rounds

end Plan

/-! ## Before the store is asked -/

/-- The query of a document, its model, and the plan of its conditions. -/
def Registry.prepare (r : Registry) (name : String) (j : Json) :
    Except ReadError (Query × Model × Plan) := do
  let q ← (Query.read j).mapError .query
  let m ← (r.get name).mapError .catalog
  let p ← (m.plan q.conditions).mapError .plan
  .ok (q, m, p)

theorem PlanError.malformed (e : PlanError) : (ReadError.plan e).Malformed := by
  cases e <;> simp [ReadError.Malformed, ReadError.kind, kind]

/-- In a valid schema the conditions of a query are all that can be at fault for a plan. -/
theorem Model.kind_of_plan_eq_error {m : Model} (hvalid : m.schema.Valid) {w : WhereClause}
    {e : PlanError} (h : m.plan w = .error e) : e.kind = .argument := by
  obtain ⟨type, htype⟩ := KeySchema.hashType_eq_ok_iff.mpr hvalid.hashTyped
  unfold plan at h
  rw [htype] at h
  dsimp only at h
  split at h
  · cases h
    rfl
  · split at h
    · cases h
      rfl
    · cases h

namespace Registry

variable {r : Registry} {name : String} {j : Json} {e : ReadError}

theorem prepare_eq_ok_iff {q : Query} {m : Model} {p : Plan} :
    r.prepare name j = .ok (q, m, p) ↔
      Query.read j = .ok q ∧ r.get name = .ok m ∧ m.plan q.conditions = .ok p := by
  simp only [prepare, bind_eq_ok_iff, mapError_eq_ok_iff, Except.ok.injEq, Prod.mk.injEq]
  constructor
  · rintro ⟨q, hq, m, hm, p, hp, rfl, rfl, rfl⟩
    exact ⟨hq, hm, hp⟩
  · rintro ⟨hq, hm, hp⟩
    exact ⟨q, hq, m, hm, p, hp, rfl, rfl, rfl⟩

/-- The three causes for which nothing can be asked of a store, in the order in which they are met. -/
theorem prepare_error_cases (h : r.prepare name j = .error e) :
    (∃ fault, e = .query fault) ∨ (∃ fault, r.get name = .error fault ∧ e = .catalog fault) ∨
      ∃ m w fault, r.get name = .ok m ∧ m.plan w = .error fault ∧ e = .plan fault := by
  rcases bind_eq_error_iff.mp h with hquery | ⟨q, _, h⟩
  · obtain ⟨fault, _, rfl⟩ := mapError_eq_error_iff.mp hquery
    exact .inl ⟨fault, rfl⟩
  · rcases bind_eq_error_iff.mp h with hmodel | ⟨m, hmodel, h⟩
    · obtain ⟨fault, hfault, rfl⟩ := mapError_eq_error_iff.mp hmodel
      exact .inr (.inl ⟨fault, hfault, rfl⟩)
    · obtain ⟨fault, hfault, rfl⟩ := mapError_eq_error_iff.mp (bind_ok_eq_error_iff.mp h)
      exact .inr (.inr ⟨m, q.conditions, fault, mapError_eq_ok_iff.mp hmodel, hfault, rfl⟩)

theorem malformed_of_prepare (h : r.prepare name j = .error e) : e.Malformed := by
  rcases prepare_error_cases h with ⟨_, rfl⟩ | ⟨_, _, rfl⟩ | ⟨_, _, fault, _, _, rfl⟩
  · exact .inl rfl
  · exact .inr rfl
  · exact fault.malformed

theorem Reachable.kind_of_prepare (hr : r.Reachable) {m : Model} (hmodel : r.get name = .ok m)
    (h : r.prepare name j = .error e) : e.kind = .argument := by
  rcases prepare_error_cases h with ⟨_, rfl⟩ | ⟨_, hnone, _⟩ | ⟨other, _, _, hother, hplan, rfl⟩
  · rfl
  · rw [hmodel] at hnone
    cases hnone
  · exact other.kind_of_plan_eq_error (hr.valid (get_eq_ok_iff.mp hother)) hplan

end Registry

namespace Executor

/-- A request is prepared without the store, and the store has a part in all that follows. -/
theorem findJson_eq (x : Executor) (name : String) (j : Json) :
    x.findJson name j = .after (x.registry.prepare name j) fun (q, m, p) =>
      (p.fetchAll x.client x.config .idle).map fun fetched =>
        ⟨m.schema.arrange q fetched.records, q.included, p.mode, fetched.pages⟩ := by
  simp only [findJson, read, model, Registry.prepare, Outcome.after_bind]
  rfl

theorem findJson_of_prepare_error {x : Executor} {name : String} {j : Json} {e : ReadError}
    (h : x.registry.prepare name j = .error e) : x.findJson name j = .fail e := by
  rw [findJson_eq, h]
  rfl

/-- What is met after a request was prepared is not malformed. -/
theorem not_malformed_of_prepare {x : Executor} {name : String} {j : Json}
    {prepared : Query × Model × Plan} (h : x.registry.prepare name j = .ok prepared)
    {e : ReadError} (herror : (x.findJson name j).result = .error e) : ¬ e.Malformed := by
  rw [findJson_eq, h] at herror
  exact Plan.not_malformed_of_fetchFrom (Outcome.result_map_eq_error_iff.mp herror)

/-- The kind of a failure tells whether the request could be prepared. -/
theorem malformed_iff {x : Executor} {name : String} {j : Json} {e : ReadError}
    (herror : (x.findJson name j).result = .error e) :
    e.Malformed ↔ x.registry.prepare name j = .error e := by
  refine ⟨fun hmalformed => ?_, Registry.malformed_of_prepare⟩
  cases hprepare : x.registry.prepare name j with
  | error cause =>
      rw [findJson_of_prepare_error hprepare] at herror
      cases herror
      rfl
  | ok prepared => exact absurd hmalformed (not_malformed_of_prepare hprepare herror)

/--
A read of a document fails for its arguments or for the configuration only where
nothing was asked of the store, and then it does so alike over every store.  It fails
so exactly when there is no query, no model or no plan.  Where the model was
registered, the arguments are all that can be at fault.
-/
theorem findJson_malformed (x : Executor) (name : String) (j : Json) :
    (∀ e, (x.findJson name j).result = .error e → e.kind = .argument ∨ e.kind = .configuration →
        (x.findJson name j).calls = [] ∧
          ∀ client, findJson { x with client } name j = x.findJson name j) ∧
      ((∃ e, (x.findJson name j).result = .error e ∧
          (e.kind = .argument ∨ e.kind = .configuration)) ↔
        ¬ ∃ q m p, Query.read j = .ok q ∧ x.registry.get name = .ok m ∧
          m.plan q.conditions = .ok p) ∧
      (x.registry.Reachable → ∀ m, x.registry.get name = .ok m →
        ∀ e, (x.findJson name j).result = .error e → e.kind ≠ .configuration) := by
  refine ⟨fun e herror hkind => ?_, ⟨?_, fun hunprepared => ?_⟩,
    fun hr m hm e herror hkind => ?_⟩
  · have hprepare := (malformed_iff herror).mp hkind
    have hagain : ∀ client, findJson { x with client } name j = .fail e :=
      fun client => findJson_of_prepare_error hprepare
    rw [findJson_of_prepare_error hprepare]
    exact ⟨rfl, hagain⟩
  · rintro ⟨e, herror, hkind⟩ ⟨q, m, p, hprepared⟩
    exact not_malformed_of_prepare (Registry.prepare_eq_ok_iff.mpr hprepared) herror hkind
  · cases hprepare : x.registry.prepare name j with
    | error e =>
        rw [findJson_of_prepare_error hprepare]
        exact ⟨e, rfl, Registry.malformed_of_prepare hprepare⟩
    | ok prepared =>
        obtain ⟨q, m, p⟩ := prepared
        exact absurd ⟨q, m, p, Registry.prepare_eq_ok_iff.mp hprepare⟩ hunprepared
  · have hprepare := (malformed_iff herror).mp (.inr hkind)
    rw [hr.kind_of_prepare hm hprepare] at hkind
    cases hkind

/-- A document that is no query is refused over every store. -/
example (client : Client) (r : Registry) (name : String) :
    findJson ⟨client, r, .default⟩ name (.string "all") =
      ⟨[], .error (.query (.queryNotObject (.string "all")))⟩ :=
  rfl

end Executor

end KeyedQuery
