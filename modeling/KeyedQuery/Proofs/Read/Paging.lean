import KeyedQuery.Read.Paging

/-!
# How a read follows cursors

Nothing is assumed of the store: it may repeat cursors, never end, or fail at any
request.  A read that goes on has fetched pages with distinct cursors, fewer of
them than it may fetch.  It either goes on with one page more, or is complete, or
fails for one of five causes; the number of pages that it may still fetch bounds
how often it goes on.

Lists of pages and of requests have the latest first, as a store sees them.
-/

namespace KeyedQuery

namespace ReadContext

theorem stop?_of_cancelled {context : ReadContext} {k : Nat} (h : context.cancelled k = true) :
    context.stop? k = some (.cancelled k) := by
  simp [stop?, h]

theorem stop?_eq_none {context : ReadContext} (hdeadline : context.deadline = none) {k : Nat}
    (h : context.cancelled k = false) : context.stop? k = none := by
  simp [stop?, h, hdeadline]

end ReadContext

namespace Outcome

variable {α β γ : Type}

theorem map_map (o : Outcome α) (f : α → β) (g : β → γ) : (o.map f).map g = o.map (g ∘ f) := by
  obtain ⟨calls, result⟩ := o
  cases result <;> rfl

theorem after_bind (e : Except ReadError α) (f : α → Except ReadError β)
    (next : β → Outcome γ) :
    Outcome.after (e >>= f) next = .after e fun a => .after (f a) next := by
  cases e <;> rfl

theorem result_after_eq_ok_iff {e : Except ReadError α} {next : α → Outcome β} {b : β} :
    (Outcome.after e next).result = .ok b ↔ ∃ a, e = .ok a ∧ (next a).result = .ok b := by
  cases e with
  | error error =>
      constructor
      · intro h
        cases h
      · rintro ⟨a, h, _⟩
        cases h
  | ok a => exact ⟨fun h => ⟨a, rfl, h⟩, fun ⟨_, ha, h⟩ => Except.ok.inj ha ▸ h⟩

theorem result_map_eq_ok_iff {o : Outcome α} {f : α → β} {b : β} :
    (o.map f).result = .ok b ↔ ∃ a, o.result = .ok a ∧ f a = b := by
  obtain ⟨calls, result⟩ := o
  cases result with
  | error error =>
      constructor
      · intro h
        cases h
      · rintro ⟨a, h, _⟩
        cases h
  | ok a => exact ⟨fun h => ⟨a, rfl, Except.ok.inj h⟩, fun ⟨_, ha, h⟩ => Except.ok.inj ha ▸ congrArg _ h⟩

theorem result_map_eq_error_iff {o : Outcome α} {f : α → β} {e : ReadError} :
    (o.map f).result = .error e ↔ o.result = .error e := by
  obtain ⟨calls, result⟩ := o
  cases result with
  | error error => constructor <;> intro h <;> cases h <;> rfl
  | ok a => constructor <;> intro h <;> cases h

end Outcome

theorem StoreError.afterPages_of_ne {e : StoreError} (h : e ≠ .timeout) (pages : Nat) :
    e.afterPages pages = .store e := by
  cases e with
  | timeout => exact absurd rfl h
  | unavailable message => rfl
  | rejected why => rfl
  | other message => rfl

namespace Plan

/-! ## Pages and requests -/

/-- The request after some pages. -/
def requestAfter (p : Plan) : List Page → Request
  | [] => p.request none
  | page :: _ => p.request page.cursor

/-- The requests for some pages. -/
def asked (p : Plan) : List Page → List Request
  | [] => []
  | _ :: before => p.requestAfter before :: p.asked before

/-- What a store answers after it has given some pages. -/
def answerAfter (p : Plan) (client : Client) (pages : List Page) : Except StoreError Page :=
  client (p.asked pages) (p.requestAfter pages)

/-- A store gives these pages, each of them after those before it. -/
def Serves (p : Plan) (client : Client) : List Page → Prop
  | [] => True
  | page :: before => p.Serves client before ∧ p.answerAfter client before = .ok page

/-- Every page has a cursor, and no two pages have the same one. -/
def DistinctCursors (pages : List Page) : Prop :=
  none ∉ pages.map Page.cursor ∧ (pages.map Page.cursor).Nodup

/-- The first request has no cursor, and every other one has the cursor of the page before it. -/
inductive Threads (p : Plan) (client : Client) : List Request → Prop where
  | empty : Threads p client []
  | first : Threads p client [p.request none]
  | next {request : Request} {earlier : List Request} {page : Page}
      (h : Threads p client (request :: earlier))
      (hpage : client earlier request = .ok page) (hcursor : page.cursor ≠ none) :
      Threads p client (p.request page.cursor :: request :: earlier)

/-- A read that has fetched these pages and is not at its end. -/
structure Underway (p : Plan) (client : Client) (config : ReadConfig) (context : ReadContext)
    (pages : List Page) : Prop where
  served : p.Serves client pages
  cursors : DistinctCursors pages
  fewer : pages.length < config.maxPages
  notCancelled : ∀ k < pages.length, context.cancelled k = false

/-- A read ends after these pages with a last one. -/
structure Completes (p : Plan) (client : Client) (context : ReadContext) (pages : List Page)
    (last : Page) : Prop where
  notCancelled : context.cancelled pages.length = false
  answer : p.answerAfter client pages = .ok last
  cursor : last.cursor = none

/-- A read fails after these pages, having made these requests. -/
inductive Fails (p : Plan) (client : Client) (config : ReadConfig) (context : ReadContext)
    (pages : List Page) : List Request → ReadError → Prop where
  /-- Nothing is asked of the store any more. -/
  | cancelled (h : context.cancelled pages.length = true) :
      Fails p client config context pages (p.asked pages) (.cancelled pages.length)
  | timeout (hrun : context.cancelled pages.length = false)
      (h : p.answerAfter client pages = .error .timeout) :
      Fails p client config context pages (p.requestAfter pages :: p.asked pages)
        (.timeout pages.length)
  | store {e : StoreError} (hrun : context.cancelled pages.length = false)
      (h : p.answerAfter client pages = .error e) (hne : e ≠ .timeout) :
      Fails p client config context pages (p.requestAfter pages :: p.asked pages) (.store e)
  | cursorRepeated {page : Page} {next : Cursor}
      (hrun : context.cancelled pages.length = false)
      (h : p.answerAfter client pages = .ok page) (hnext : page.cursor = some next)
      (hseen : some next ∈ pages.map Page.cursor) :
      Fails p client config context pages (p.requestAfter pages :: p.asked pages)
        (.cursorRepeated next p.table)
  | tooManyPages {page : Page} {next : Cursor}
      (hrun : context.cancelled pages.length = false)
      (h : p.answerAfter client pages = .ok page) (hnext : page.cursor = some next)
      (hfresh : some next ∉ pages.map Page.cursor)
      (hlimit : pages.length + 1 = config.maxPages) :
      Fails p client config context pages (p.requestAfter pages :: p.asked pages)
        (.tooManyPages p.table config.maxPages)

theorem length_asked (p : Plan) (pages : List Page) : (p.asked pages).length = pages.length := by
  induction pages with
  | nil => rfl
  | cons page before ih => simp [asked, ih]

theorem distinctCursors_cons {page : Page} {next : Cursor} {before : List Page}
    (hnext : page.cursor = some next) (hfresh : some next ∉ before.map Page.cursor)
    (h : DistinctCursors before) : DistinctCursors (page :: before) := by
  unfold DistinctCursors
  rw [List.map_cons, hnext]
  exact ⟨by simpa using h.1, List.nodup_cons.mpr ⟨hfresh, h.2⟩⟩

theorem DistinctCursors.of_cons {page : Page} {before : List Page}
    (h : DistinctCursors (page :: before)) :
    DistinctCursors before ∧
      ∃ next, page.cursor = some next ∧ some next ∉ before.map Page.cursor := by
  obtain ⟨hsome, hnodup⟩ := h
  rw [List.map_cons] at hsome hnodup
  obtain ⟨hfresh, hnodup⟩ := List.nodup_cons.mp hnodup
  refine ⟨⟨fun hmem => hsome (List.mem_cons_of_mem _ hmem), hnodup⟩, ?_⟩
  cases hcursor : page.cursor with
  | none =>
      rw [hcursor] at hsome
      exact absurd (List.mem_cons_self ..) hsome
  | some next =>
      rw [hcursor] at hfresh
      exact ⟨next, rfl, hfresh⟩

/-! ## One round -/

section Rounds

variable {p : Plan} {client : Client} {config : ReadConfig} {context : ReadContext}
  {pages : List Page}

/-- The progress of a read that has fetched these pages. -/
def progress (p : Plan) (pages : List Page) : Progress :=
  { fetched := ⟨pages.reverse.flatMap Page.records, pages.length⟩
    cursor := pages.head?.bind Page.cursor
    seen := pages.filterMap Page.cursor
    earlier := p.asked pages }

theorem request_progress (p : Plan) (pages : List Page) :
    p.request (p.progress pages).cursor = p.requestAfter pages := by
  cases pages with
  | nil => rfl
  | cons page before => rfl

theorem addPage_progress (p : Plan) (pages : List Page) (page : Page) :
    (p.progress pages).addPage (p.requestAfter pages) page = p.progress (page :: pages) := by
  cases h : page.cursor <;> simp [progress, Progress.addPage, asked, h]

theorem mem_seen_progress {next : Cursor} :
    next ∈ (p.progress pages).seen ↔ some next ∈ pages.map Page.cursor := by
  simp [progress]

/-- A round asks whether the read goes on, then the store, and then for the cursor of its page. -/
theorem fetchFrom_eq (p : Plan) (client : Client) (maxPages : Nat) (context : ReadContext)
    (remaining : Nat) (s : Progress) :
    p.fetchFrom client maxPages context remaining s =
      match context.stop? s.fetched.pages, client s.earlier (p.request s.cursor) with
      | some e, _ => .fail e
      | none, .error e => .called (p.request s.cursor) (.fail (e.afterPages s.fetched.pages))
      | none, .ok page =>
          .called (p.request s.cursor) <|
            match page.cursor with
            | none => ⟨[], .ok (s.addPage (p.request s.cursor) page).fetched⟩
            | some next =>
                if next ∈ s.seen then
                  .fail (.cursorRepeated next p.table)
                else
                  match remaining with
                  | 0 => .fail (.tooManyPages p.table maxPages)
                  | fewer + 1 =>
                      p.fetchFrom client maxPages context fewer
                        (s.addPage (p.request s.cursor) page) := by
  rw [fetchFrom]
  cases context.stop? s.fetched.pages with
  | some e => rfl
  | none =>
      dsimp only
      cases client s.earlier (p.request s.cursor) <;> rfl

/-- A round that gets a page with a new cursor is followed by one with one page fewer to go. -/
theorem fetchFrom_of_fresh (hdeadline : context.deadline = none)
    (hrun : context.cancelled pages.length = false) {page : Page} {next : Cursor}
    (h : p.answerAfter client pages = .ok page) (hnext : page.cursor = some next)
    (hfresh : some next ∉ pages.map Page.cursor) (maxPages remaining : Nat) :
    p.fetchFrom client maxPages context (remaining + 1) (p.progress pages) =
      .called (p.requestAfter pages)
        (p.fetchFrom client maxPages context remaining (p.progress (page :: pages))) := by
  have hstop : context.stop? (p.progress pages).fetched.pages = none :=
    ReadContext.stop?_eq_none hdeadline hrun
  have hanswer : client (p.progress pages).earlier (p.requestAfter pages) = .ok page := h
  have hseen : next ∉ (p.progress pages).seen := fun hmem => hfresh (mem_seen_progress.mp hmem)
  rw [fetchFrom_eq, request_progress, hstop, hanswer]
  simp only [hnext, if_neg hseen, addPage_progress]

theorem fetchFrom_of_completes (hdeadline : context.deadline = none) {last : Page}
    (h : p.Completes client context pages last) (maxPages remaining : Nat) :
    p.fetchFrom client maxPages context remaining (p.progress pages) =
      ⟨[p.requestAfter pages],
        .ok ⟨(last :: pages).reverse.flatMap Page.records, pages.length + 1⟩⟩ := by
  have hstop : context.stop? (p.progress pages).fetched.pages = none :=
    ReadContext.stop?_eq_none hdeadline h.notCancelled
  have hanswer : client (p.progress pages).earlier (p.requestAfter pages) = .ok last := h.answer
  rw [fetchFrom_eq, request_progress, hstop, hanswer]
  simp only [h.cursor, addPage_progress]
  rfl

theorem fetchFrom_of_error (hdeadline : context.deadline = none)
    (hrun : context.cancelled pages.length = false) {e : StoreError}
    (h : p.answerAfter client pages = .error e) (maxPages remaining : Nat) :
    p.fetchFrom client maxPages context remaining (p.progress pages) =
      ⟨[p.requestAfter pages], .error (e.afterPages pages.length)⟩ := by
  have hstop : context.stop? (p.progress pages).fetched.pages = none :=
    ReadContext.stop?_eq_none hdeadline hrun
  have hanswer : client (p.progress pages).earlier (p.requestAfter pages) = .error e := h
  rw [fetchFrom_eq, request_progress, hstop, hanswer]
  rfl

/-- A round that fails makes one request at most. -/
theorem fetchFrom_of_fails (hdeadline : context.deadline = none) {calls : List Request}
    {error : ReadError} (h : p.Fails client config context pages calls error)
    {remaining : Nat} (hremaining : pages.length + remaining + 1 = config.maxPages) :
    ∃ requests, calls = requests ++ p.asked pages ∧
      p.fetchFrom client config.maxPages context remaining (p.progress pages) =
        ⟨requests.reverse, .error error⟩ := by
  cases h with
  | cancelled h =>
      have hstop : context.stop? (p.progress pages).fetched.pages =
          some (.cancelled pages.length) := ReadContext.stop?_of_cancelled h
      refine ⟨[], rfl, ?_⟩
      rw [fetchFrom_eq, hstop]
      rfl
  | timeout hrun h =>
      exact ⟨[p.requestAfter pages], rfl, fetchFrom_of_error hdeadline hrun h _ _⟩
  | store hrun h hne =>
      refine ⟨[p.requestAfter pages], rfl, ?_⟩
      rw [fetchFrom_of_error hdeadline hrun h, StoreError.afterPages_of_ne hne]
      rfl
  | @cursorRepeated page next hrun h hnext hseen =>
      have hstop : context.stop? (p.progress pages).fetched.pages = none :=
        ReadContext.stop?_eq_none hdeadline hrun
      have hanswer : client (p.progress pages).earlier (p.requestAfter pages) = .ok page := h
      refine ⟨[p.requestAfter pages], rfl, ?_⟩
      rw [fetchFrom_eq, request_progress, hstop, hanswer]
      simp only [hnext, if_pos (mem_seen_progress.mpr hseen)]
      rfl
  | @tooManyPages page next hrun h hnext hfresh hlimit =>
      have hstop : context.stop? (p.progress pages).fetched.pages = none :=
        ReadContext.stop?_eq_none hdeadline hrun
      have hanswer : client (p.progress pages).earlier (p.requestAfter pages) = .ok page := h
      have hunseen : next ∉ (p.progress pages).seen :=
        fun hmem => hfresh (mem_seen_progress.mp hmem)
      have hzero : remaining = 0 := by omega
      refine ⟨[p.requestAfter pages], rfl, ?_⟩
      rw [fetchFrom_eq, request_progress, hstop, hanswer, hzero]
      simp only [hnext, if_neg hunseen]
      rfl

/-- After every round a read is complete, fails, or goes on with one page more. -/
theorem Underway.cases (h : p.Underway client config context pages) :
    (∃ last, p.Completes client context pages last) ∨
      (∃ calls error, p.Fails client config context pages calls error) ∨
      ∃ page, p.Underway client config context (page :: pages) := by
  cases hrun : context.cancelled pages.length with
  | true => exact .inr (.inl ⟨_, _, .cancelled hrun⟩)
  | false =>
      cases hanswer : p.answerAfter client pages with
      | error e =>
          by_cases hne : e = .timeout
          · rw [hne] at hanswer
            exact .inr (.inl ⟨_, _, .timeout hrun hanswer⟩)
          · exact .inr (.inl ⟨_, _, .store hrun hanswer hne⟩)
      | ok page =>
          cases hnext : page.cursor with
          | none => exact .inl ⟨page, hrun, hanswer, hnext⟩
          | some next =>
              by_cases hseen : some next ∈ pages.map Page.cursor
              · exact .inr (.inl ⟨_, _, .cursorRepeated hrun hanswer hnext hseen⟩)
              · by_cases hlimit : pages.length + 1 = config.maxPages
                · exact .inr (.inl ⟨_, _, .tooManyPages hrun hanswer hnext hseen hlimit⟩)
                · have hfewer := h.fewer
                  refine .inr (.inr ⟨page, ⟨h.served, hanswer⟩,
                    distinctCursors_cons hnext hseen h.cursors, ?_, ?_⟩)
                  · rw [List.length_cons]
                    omega
                  · intro k hk
                    rw [List.length_cons] at hk
                    by_cases hlast : k = pages.length
                    · rw [hlast]
                      exact hrun
                    · exact h.notCancelled k (by omega)

/-! ## Reads that succeed -/

section Success

variable {p : Plan} {client : Client} {config : ReadConfig} {context : ReadContext}
  {maxPages remaining : Nat} {before : Progress} {fetched : Fetched}

/-- A round of a read that succeeds gets a page, and is the last one if that has no cursor. -/
theorem page_of_fetchFrom
    (h : (p.fetchFrom client maxPages context remaining before).result = .ok fetched) :
    ∃ page, client before.earlier (p.request before.cursor) = .ok page ∧
      ((page.cursor = none ∧
          fetched = (before.addPage (p.request before.cursor) page).fetched) ∨
        ∃ next fewer, page.cursor = some next ∧ remaining = fewer + 1 ∧
          (p.fetchFrom client maxPages context fewer
            (before.addPage (p.request before.cursor) page)).result = .ok fetched) := by
  rw [fetchFrom_eq] at h
  split at h
  · cases h
  · cases h
  · rename_i page _ hpage
    refine ⟨page, hpage, ?_⟩
    dsimp only [Outcome.called] at h
    split at h
    · rename_i hnone
      cases h
      exact .inl ⟨hnone, rfl⟩
    · rename_i next hnext
      split at h
      · cases h
      · split at h
        · cases h
        · exact .inr ⟨next, _, hnext, rfl, h⟩

/-- What every round keeps, and the last round turns into a property of its result. -/
theorem fetchFrom_property {P : Progress → Prop} {Q : Fetched → Prop}
    (hnext : ∀ s page next, P s → client s.earlier (p.request s.cursor) = .ok page →
      page.cursor = some next → P (s.addPage (p.request s.cursor) page))
    (hlast : ∀ s page, P s → client s.earlier (p.request s.cursor) = .ok page →
      page.cursor = none → Q (s.addPage (p.request s.cursor) page).fetched)
    (hbefore : P before)
    (h : (p.fetchFrom client maxPages context remaining before).result = .ok fetched) :
    Q fetched := by
  induction remaining generalizing before with
  | zero =>
      obtain ⟨page, hpage, ⟨hnone, rfl⟩ | ⟨_, _, _, hfewer, _⟩⟩ := page_of_fetchFrom h
      · exact hlast before page hbefore hpage hnone
      · cases hfewer
  | succ remaining ih =>
      obtain ⟨page, hpage, ⟨hnone, rfl⟩ | ⟨next, fewer, hsome, hfewer, hrest⟩⟩ :=
        page_of_fetchFrom h
      · exact hlast before page hbefore hpage hnone
      · cases hfewer
        exact ih (hnext before page next hbefore hpage hsome) hrest

/-- What holds of the records of every page holds of every record that is fetched. -/
theorem forall_records_fetchAll {P : Record → Prop}
    (hpages : ∀ earlier cursor page, client earlier (p.request cursor) = .ok page →
      ∀ r ∈ page.records, P r)
    (h : (p.fetchAll client config context).result = .ok fetched) :
    ∀ r ∈ fetched.records, P r := by
  have hadd : ∀ (s : Progress) page, (∀ r ∈ s.fetched.records, P r) →
      client s.earlier (p.request s.cursor) = .ok page →
        ∀ r ∈ (s.addPage (p.request s.cursor) page).fetched.records, P r := by
    intro s page hbefore hpage r hr
    rcases List.mem_append.mp hr with hr | hr
    · exact hbefore r hr
    · exact hpages _ _ page hpage r hr
  exact fetchFrom_property (P := fun s : Progress => ∀ r ∈ s.fetched.records, P r)
    (Q := fun fetched : Fetched => ∀ r ∈ fetched.records, P r)
    (fun s page _ hbefore hpage _ => hadd s page hbefore hpage)
    (fun s page hbefore hpage _ => hadd s page hbefore hpage)
    (fun r hr => by cases hr) h

end Success

/-! ## Whole reads -/

theorem Underway.of_cons {page : Page} (h : p.Underway client config context (page :: pages)) :
    p.Underway client config context pages ∧ context.cancelled pages.length = false ∧
      p.answerAfter client pages = .ok page ∧
      ∃ next, page.cursor = some next ∧ some next ∉ pages.map Page.cursor := by
  obtain ⟨hserved, hcursors, hfewer, hcancelled⟩ := h
  rw [List.length_cons] at hfewer hcancelled
  obtain ⟨hbefore, hnext⟩ := hcursors.of_cons
  refine ⟨⟨hserved.1, hbefore, by omega, ?_⟩, ?_, hserved.2, hnext⟩
  · intro k hk
    exact hcancelled k (by omega)
  · exact hcancelled _ (by omega)

theorem underway_nil : p.Underway client config context [] where
  served := trivial
  cursors := ⟨List.not_mem_nil, List.nodup_nil⟩
  fewer := config.maxPages_pos
  notCancelled := by
    intro k hk
    simp at hk

/-- What a read does from the start is what it did so far, followed by what it does from here. -/
theorem fetchFrom_of_underway (hdeadline : context.deadline = none)
    (h : p.Underway client config context pages) {remaining : Nat}
    (hremaining : pages.length + remaining + 1 = config.maxPages) {requests : List Request}
    {result : Except ReadError Fetched}
    (hrest : p.fetchFrom client config.maxPages context remaining (p.progress pages) =
      ⟨requests, result⟩) :
    p.fetchFrom client config.maxPages context (config.maxPages - 1) .start =
      ⟨(p.asked pages).reverse ++ requests, result⟩ := by
  induction pages generalizing remaining requests with
  | nil =>
      have hall : config.maxPages - 1 = remaining := by
        rw [List.length_nil] at hremaining
        omega
      rw [hall]
      exact hrest
  | cons page before ih =>
      obtain ⟨hbefore, hrun, hanswer, next, hnext, hfresh⟩ := h.of_cons
      have hround :=
        fetchFrom_of_fresh hdeadline hrun hanswer hnext hfresh config.maxPages remaining
      rw [hrest] at hround
      have hremaining' : before.length + (remaining + 1) + 1 = config.maxPages := by
        rw [List.length_cons] at hremaining
        omega
      rw [ih hbefore hremaining' hround]
      simp [asked]

/-- A read gets to its end, since every round that is not the last one uses up a page. -/
theorem exists_end (p : Plan) (client : Client) (config : ReadConfig) (context : ReadContext) :
    ∃ pages, p.Underway client config context pages ∧
      ((∃ last, p.Completes client context pages last) ∨
        ∃ calls error, p.Fails client config context pages calls error) := by
  have hfrom : ∀ remaining pages, p.Underway client config context pages →
      config.maxPages ≤ pages.length + remaining →
      ∃ pages, p.Underway client config context pages ∧
        ((∃ last, p.Completes client context pages last) ∨
          ∃ calls error, p.Fails client config context pages calls error) := by
    intro remaining
    induction remaining with
    | zero =>
        intro pages h hlimit
        exact absurd h.fewer (by omega)
    | succ remaining ih =>
        intro pages h hlimit
        rcases h.cases with hlast | hfails | ⟨page, hpage⟩
        · exact ⟨pages, h, .inl hlast⟩
        · exact ⟨pages, h, .inr hfails⟩
        · refine ih (page :: pages) hpage ?_
          rw [List.length_cons]
          omega
  exact hfrom config.maxPages [] underway_nil (by simp)

theorem fetchAll_eq_fetchFrom (hdeadline : context.deadline = none)
    (htimeout : config.timeout = none) :
    p.fetchAll client config context =
      p.fetchFrom client config.maxPages context (config.maxPages - 1) .start := by
  have hcontext : context.withDefaultDeadline config.timeout = context := by
    obtain ⟨cancelled, deadline, elapsed⟩ := context
    cases hdeadline
    simp [ReadContext.withDefaultDeadline, htimeout]
  rw [fetchAll, hcontext]

theorem fetchAll_of_completes (hdeadline : context.deadline = none)
    (htimeout : config.timeout = none) (h : p.Underway client config context pages)
    {last : Page} (hlast : p.Completes client context pages last) :
    p.fetchAll client config context =
      ⟨(p.asked (last :: pages)).reverse,
        .ok ⟨(last :: pages).reverse.flatMap Page.records, pages.length + 1⟩⟩ := by
  have hfewer := h.fewer
  have hremaining : pages.length + (config.maxPages - 1 - pages.length) + 1 = config.maxPages := by
    omega
  rw [fetchAll_eq_fetchFrom hdeadline htimeout,
    fetchFrom_of_underway hdeadline h hremaining (fetchFrom_of_completes hdeadline hlast _ _)]
  simp [asked]

theorem fetchAll_of_fails (hdeadline : context.deadline = none)
    (htimeout : config.timeout = none) (h : p.Underway client config context pages)
    {calls : List Request} {error : ReadError}
    (hfails : p.Fails client config context pages calls error) :
    p.fetchAll client config context = ⟨calls.reverse, .error error⟩ := by
  have hfewer := h.fewer
  have hremaining : pages.length + (config.maxPages - 1 - pages.length) + 1 = config.maxPages := by
    omega
  obtain ⟨requests, hcalls, hrest⟩ := fetchFrom_of_fails hdeadline hfails hremaining
  rw [fetchAll_eq_fetchFrom hdeadline htimeout, fetchFrom_of_underway hdeadline h hremaining hrest,
    hcalls, List.reverse_append]

theorem threads_of_underway (h : p.Underway client config context pages) :
    p.Threads client (p.asked pages) ∧
      p.Threads client (p.requestAfter pages :: p.asked pages) := by
  induction pages with
  | nil => exact ⟨.empty, .first⟩
  | cons page before ih =>
      obtain ⟨hbefore, _, hanswer, next, hnext, _⟩ := h.of_cons
      have hthreads := (ih hbefore).2
      refine ⟨hthreads, .next hthreads hanswer ?_⟩
      rw [hnext]
      exact Option.some_ne_none next

/-- The requests of a read are those for its pages, and at most one more. -/
theorem calls_fetchAll (p : Plan) (client : Client) (hdeadline : context.deadline = none)
    (htimeout : config.timeout = none) :
    ∃ pages, p.Underway client config context pages ∧
      ((p.fetchAll client config context).calls.reverse = p.asked pages ∨
        (p.fetchAll client config context).calls.reverse =
          p.requestAfter pages :: p.asked pages) := by
  obtain ⟨pages, h, ⟨last, hlast⟩ | ⟨calls, error, hfails⟩⟩ := p.exists_end client config context
  · refine ⟨pages, h, .inr ?_⟩
    rw [fetchAll_of_completes hdeadline htimeout h hlast, List.reverse_reverse]
    rfl
  · refine ⟨pages, h, ?_⟩
    rw [fetchAll_of_fails hdeadline htimeout h hfails, List.reverse_reverse]
    cases hfails <;> simp

theorem length_calls_fetchAll (p : Plan) (client : Client) (hdeadline : context.deadline = none)
    (htimeout : config.timeout = none) :
    (p.fetchAll client config context).calls.length ≤ config.maxPages := by
  obtain ⟨pages, h, hcalls⟩ := calls_fetchAll p client hdeadline htimeout
  have hfewer := h.fewer
  rw [← List.length_reverse]
  rcases hcalls with hcalls | hcalls <;> rw [hcalls]
  · rw [length_asked]
    omega
  · rw [List.length_cons, length_asked]
    omega

theorem threads_fetchAll (p : Plan) (client : Client) (hdeadline : context.deadline = none)
    (htimeout : config.timeout = none) :
    p.Threads client (p.fetchAll client config context).calls.reverse := by
  obtain ⟨pages, h, hcalls⟩ := calls_fetchAll p client hdeadline htimeout
  have hthreads := threads_of_underway h
  rcases hcalls with hcalls | hcalls <;> rw [hcalls]
  · exact hthreads.1
  · exact hthreads.2

/--
A read without a deadline, whatever the store does.  It makes no more requests
than it may fetch pages, and hands every cursor on to the next request.  It
succeeds exactly when the store gives pages with distinct cursors and then a last
one without a cursor, all of them before the read is cancelled and within the
limit of pages; its records are then those of the pages in order of arrival.
Every other read fails, for the cause that ends it.
-/
theorem fetchAll_of_any_store (p : Plan) (client : Client) (config : ReadConfig)
    (context : ReadContext) (hdeadline : context.deadline = none)
    (htimeout : config.timeout = none) :
    (p.fetchAll client config context).calls.length ≤ config.maxPages ∧
      p.Threads client (p.fetchAll client config context).calls.reverse ∧
      (∀ calls fetched, p.fetchAll client config context = ⟨calls, .ok fetched⟩ ↔
        ∃ pages last, p.Underway client config context pages ∧
          p.Completes client context pages last ∧
          calls = (p.asked (last :: pages)).reverse ∧
          fetched = ⟨(last :: pages).reverse.flatMap Page.records, pages.length + 1⟩) ∧
      (∀ calls error, p.fetchAll client config context = ⟨calls, .error error⟩ ↔
        ∃ pages, p.Underway client config context pages ∧
          p.Fails client config context pages calls.reverse error) := by
  refine ⟨length_calls_fetchAll p client hdeadline htimeout,
    threads_fetchAll p client hdeadline htimeout, ?_, ?_⟩
  · intro calls fetched
    constructor
    · intro h
      obtain ⟨pages, hpages, ⟨last, hlast⟩ | ⟨made, error, hfails⟩⟩ :=
        p.exists_end client config context
      · rw [fetchAll_of_completes hdeadline htimeout hpages hlast] at h
        cases h
        exact ⟨pages, last, hpages, hlast, rfl, rfl⟩
      · rw [fetchAll_of_fails hdeadline htimeout hpages hfails] at h
        cases h
    · rintro ⟨pages, last, hpages, hlast, rfl, rfl⟩
      exact fetchAll_of_completes hdeadline htimeout hpages hlast
  · intro calls error
    constructor
    · intro h
      obtain ⟨pages, hpages, ⟨last, hlast⟩ | ⟨made, cause, hfails⟩⟩ :=
        p.exists_end client config context
      · rw [fetchAll_of_completes hdeadline htimeout hpages hlast] at h
        cases h
      · rw [fetchAll_of_fails hdeadline htimeout hpages hfails] at h
        cases h
        rw [← List.reverse_reverse made] at hfails
        exact ⟨pages, hpages, hfails⟩
    · rintro ⟨pages, hpages, hfails⟩
      rw [fetchAll_of_fails hdeadline htimeout hpages hfails, List.reverse_reverse]

end Rounds

end Plan

/-- The plan that reads a whole table. -/
def Plan.ofTable (name : String) : Plan :=
  ⟨name, name, ⟨[], false, false, none⟩, [], [], .empty⟩

/-- A store that gives one page again and again. -/
def Client.repeating (page : Page) : Client :=
  .scripted 0 (.ok page) []

theorem Plan.fetchAll_of_repeating_store :
    ReadContext.idle.deadline = none ∧ ReadConfig.default.withoutTimeout.timeout = none ∧
      ((ofTable "t").fetchAll (.repeating ⟨[], some ⟨[7]⟩⟩) ReadConfig.default.withoutTimeout
        .idle).result = .error (.cursorRepeated ⟨[7]⟩ "t") := by
  refine ⟨rfl, rfl, ?_⟩
  have hpage : (ofTable "t").Underway (.repeating ⟨[], some ⟨[7]⟩⟩)
      ReadConfig.default.withoutTimeout .idle [⟨[], some ⟨[7]⟩⟩] :=
    ⟨⟨trivial, rfl⟩, by simp [DistinctCursors], by decide, fun _ _ => rfl⟩
  have hstore := fetchAll_of_any_store (ofTable "t") (.repeating ⟨[], some ⟨[7]⟩⟩)
    ReadConfig.default.withoutTimeout .idle rfl rfl
  have hfails := (hstore.2.2.2 [_, _] _).mpr ⟨_, hpage, .cursorRepeated rfl rfl rfl (by simp)⟩
  rw [hfails]
  rfl

end KeyedQuery
