import AtomHeap.Fault
/-!
# How long cycles take

The collector keeps the length of the last cycle that swept and the mean of all of them, in whole
milliseconds. The mean moves towards each new length by its share in all.
-/

namespace AtomHeap

/-- The lengths of cycles. -/
structure Timing where
  last : Nat := 0
  mean : Nat := 0
  deriving DecidableEq, Repr

/-- The quotient of two counts, rounded down. -/
def checkedDiv (a b : Nat) : Except Fault Nat :=
  if b = 0 then .error .brokenContract else .ok (a / b)

/-- Takes note of the length of a cycle, the last of so many. -/
def Timing.note (t : Timing) (elapsed cycles : Nat) : Except Fault Timing := do
  let share ← checkedDiv (max elapsed t.mean - min elapsed t.mean) cycles
  let mean ← if t.mean > elapsed then checkedSub t.mean share else checkedAdd t.mean share
  return { last := elapsed, mean }

end AtomHeap
