/-!
# Faults

A fault is a failure that no caller can handle: the run in which it arises ends there, and nothing
is answered after it. Errors that a caller can meet and go on from are values of the operations'
own error types instead.

Sizes and counts are natural numbers. Where a 64-bit result could fail to fit, the operation uses
`checkedAdd`, `checkedSub` or `checkedDouble`, which fault exactly when it does.
-/

namespace AtomHeap

/-- A failure that ends the run. -/
inductive Fault
  /-- An unsigned 64-bit result would not fit. -/
  | overflow
  /-- A list was asked for an entry that it does not have. -/
  | indexOutOfRange
  /-- A condition that every caller has to guarantee did not hold. -/
  | brokenContract
  /-- There was no memory, and nobody to be told. -/
  | exhausted
  /-- A thread waits for a lock that it holds itself. -/
  | deadlock
  /-- A walk along links came back to where it had been. -/
  | endless
  /-- Scripts called each other more deeply than the run allows. -/
  | tooDeep
  deriving DecidableEq, Repr

def wordCount : Nat := UInt64.size

/-- The sum of two counts, if it is a 64-bit word. -/
def checkedAdd (a b : Nat) : Except Fault Nat :=
  if a + b < wordCount then .ok (a + b) else .error .overflow

/-- The difference of two counts, if it is not negative. -/
def checkedSub (a b : Nat) : Except Fault Nat :=
  if b ≤ a then .ok (a - b) else .error .overflow

def checkedDouble (a : Nat) : Except Fault Nat :=
  if 2 * a < wordCount then .ok (2 * a) else .error .overflow

theorem checkedAdd_eq_ok_iff {a b c : Nat} :
    checkedAdd a b = .ok c ↔ a + b < wordCount ∧ c = a + b := by
  unfold checkedAdd
  split <;> simp <;> omega

theorem checkedSub_eq_ok_iff {a b c : Nat} : checkedSub a b = .ok c ↔ b ≤ a ∧ c = a - b := by
  unfold checkedSub
  split <;> simp <;> omega

theorem checkedDouble_eq_ok_iff {a c : Nat} :
    checkedDouble a = .ok c ↔ 2 * a < wordCount ∧ c = 2 * a := by
  unfold checkedDouble
  split <;> simp <;> omega

end AtomHeap
