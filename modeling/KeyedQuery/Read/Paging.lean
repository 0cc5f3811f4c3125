import KeyedQuery.Read.Error

/-!
# Following cursors

A read fetches page after page until the store gives no cursor.  It stops early
when it is cancelled, when its deadline has passed, when the store fails, when a
cursor comes back that the store gave before, and when it has fetched as many
pages as it may.  A read that stops early has no records, whatever it fetched.
-/

namespace KeyedQuery

/-- The limits of reads. -/
structure ReadConfig where
  /-- The milliseconds that a whole read may take. -/
  timeout : Option Nat
  /-- The number of pages that a read may fetch. -/
  maxPages : Nat
  maxPages_pos : 0 < maxPages

namespace ReadConfig

/-- Thirty seconds and ten thousand pages. -/
def default : ReadConfig :=
  ⟨some 30000, 10000, by decide⟩

instance : Inhabited ReadConfig :=
  ⟨default⟩

def withTimeout (c : ReadConfig) (millis : Nat) : ReadConfig :=
  { c with timeout := some millis }

def withoutTimeout (c : ReadConfig) : ReadConfig :=
  { c with timeout := none }

theorem max_one_pos (n : Nat) : 0 < max n 1 := by
  omega

/-- The limits with a number of pages, which is one at least. -/
def withMaxPages (c : ReadConfig) (maxPages : Nat) : ReadConfig :=
  { c with maxPages := max maxPages 1, maxPages_pos := max_one_pos maxPages }

end ReadConfig

/--
What a read sees of the world between two pages, as functions of the number of
pages it has fetched.
-/
structure ReadContext where
  /-- Whether the caller has given the read up. -/
  cancelled : Nat → Bool
  /-- The milliseconds from the start of the read until its deadline. -/
  deadline : Option Nat
  /-- The milliseconds since the start of the read. -/
  elapsed : Nat → Nat

namespace ReadContext

/-- A read that nobody cancels, without a deadline of its own, in a world where no time passes. -/
def idle : ReadContext :=
  ⟨fun _ => false, none, fun _ => 0⟩

instance : Inhabited ReadContext :=
  ⟨idle⟩

/-- The context under a timeout, which counts only where there is no deadline. -/
def withDefaultDeadline (c : ReadContext) (timeout : Option Nat) : ReadContext :=
  { c with deadline := c.deadline.or timeout }

/-- Why a read must not fetch another page; cancellation is seen before the deadline. -/
def stop? (c : ReadContext) (pages : Nat) : Option ReadError :=
  if c.cancelled pages then some (.cancelled pages)
  else if c.deadline.any fun deadline => deadline ≤ c.elapsed pages then
    some (.deadlineExceeded pages)
  else none

end ReadContext

namespace Plan

/-- What the plan reads. -/
def access (p : Plan) : Access :=
  match p.keyCondition with
  | some keyCondition => .keyed p.index keyCondition
  | none => .scan

def request (p : Plan) (cursor : Option Cursor) : Request :=
  ⟨p.table, p.access, p.filter, p.bindings, cursor⟩

end Plan

/-- A result, and the requests that were made for it, in order. -/
structure Outcome (α : Type) where
  calls : List Request
  result : Except ReadError α

namespace Outcome

variable {α β : Type}

/-- A failure before any request. -/
def fail (e : ReadError) : Outcome α :=
  ⟨[], .error e⟩

/-- The outcome with its result computed further. -/
def map (f : α → β) (o : Outcome α) : Outcome β :=
  ⟨o.calls, o.result.map f⟩

/-- Go on with a value that needs no request, or fail. -/
def after (e : Except ReadError α) (next : α → Outcome β) : Outcome β :=
  match e with
  | .ok a => next a
  | .error e => fail e

/-- The outcome after one more request in front. -/
def called (request : Request) (o : Outcome α) : Outcome α :=
  ⟨request :: o.calls, o.result⟩

end Outcome

/-- The records of a read in order of arrival, and the number of its pages. -/
structure Fetched where
  records : List Record
  pages : Nat

/-- What a read has fetched so far. -/
structure Progress where
  fetched : Fetched
  /-- The cursor of the last page. -/
  cursor : Option Cursor
  /-- Every cursor that the store has given. -/
  seen : List Cursor
  /-- The requests so far, the latest first. -/
  earlier : List Request

namespace Progress

def start : Progress :=
  ⟨⟨[], 0⟩, none, [], []⟩

def addPage (s : Progress) (request : Request) (page : Page) : Progress :=
  { fetched := ⟨s.fetched.records ++ page.records, s.fetched.pages + 1⟩
    cursor := page.cursor
    seen := page.cursor.toList ++ s.seen
    earlier := request :: s.earlier }

end Progress

/-- The failure of a read whose store failed. -/
def StoreError.afterPages (pages : Nat) : StoreError → ReadError
  | .timeout => .timeout pages
  | e => .store e

namespace Plan

/--
Fetch the next page and those after it.  The first argument is the number of
pages that may still be fetched after the next one.
-/
def fetchFrom (p : Plan) (client : Client) (maxPages : Nat) (context : ReadContext) :
    Nat → Progress → Outcome Fetched
  | remaining, s =>
      match context.stop? s.fetched.pages with
      | some e => .fail e
      | none =>
          let request := p.request s.cursor
          .called request <|
            match client s.earlier request with
            | .error e => .fail (e.afterPages s.fetched.pages)
            | .ok page =>
                match page.cursor with
                | none => ⟨[], .ok (s.addPage request page).fetched⟩
                | some next =>
                    if next ∈ s.seen then
                      .fail (.cursorRepeated next p.table)
                    else
                      match remaining with
                      | 0 => .fail (.tooManyPages p.table maxPages)
                      | remaining + 1 =>
                          p.fetchFrom client maxPages context remaining (s.addPage request page)

/-- Fetch every page of a plan. -/
def fetchAll (p : Plan) (client : Client) (config : ReadConfig) (context : ReadContext) :
    Outcome Fetched :=
  p.fetchFrom client config.maxPages (context.withDefaultDeadline config.timeout)
    (config.maxPages - 1) .start

end Plan

end KeyedQuery
