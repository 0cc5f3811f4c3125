import KeyedQuery.Store.Request

/-!
# Key conditions that a store accepts

A key condition pins one partition: it tests the hash attribute for equality,
once, and may test the sort attribute, once, by a comparison or a range.
-/

namespace KeyedQuery

/-- The key attributes of a table or of an index. -/
structure KeyNames where
  hash : String
  sort : Option String
deriving DecidableEq, Repr

/-- Which key attributes a key condition has tested so far. -/
structure KeysTested where
  hash : Bool
  sort : Bool
deriving DecidableEq, Repr

namespace KeyNames

/-- The attribute on the left of a test. -/
def testedName (b : Bindings) : Operand → Except Rejection String
  | .path path =>
      match b.attributeName path with
      | .ok name => .ok name
      | .error e => .error (.expression e)
  | .value placeholder => .error (.keyWithoutName placeholder)

/-- Add one part of a key condition to the tests so far. -/
def checkPart (k : KeyNames) (b : Bindings) (tested : KeysTested) (part : Expr) :
    Except Rejection KeysTested :=
  match part with
  | .compare left op (.value _) => do
      let name ← testedName b left
      if name = k.hash ∧ op = .eq ∧ tested.hash = false then
        .ok { tested with hash := true }
      else if some name = k.sort ∧ op ≠ .ne ∧ tested.sort = false then
        .ok { tested with sort := true }
      else
        .error (.keyTest name op)
  | .between value (.value _) (.value _) => do
      let name ← testedName b value
      if some name = k.sort ∧ tested.sort = false then
        .ok { tested with sort := true }
      else
        .error (.keyRange name)
  | other => .error (.keyShape other)

/-- Accept a key condition, or give the first reason not to. -/
def check (k : KeyNames) (b : Bindings) (e : Expr) : Except Rejection Unit := do
  let tested ← e.conjuncts.foldlM (k.checkPart b) ⟨false, false⟩
  if tested.hash then .ok () else .error (.keyWithoutHash k.hash)

/-- Whether a record has all key attributes, none of them null. -/
def presentIn (k : KeyNames) (r : Record) : Bool :=
  (r.present? k.hash).isSome && k.sort.all fun name => (r.present? name).isSome

end KeyNames

end KeyedQuery
