/-!
# The monitor

A monitor runs requested cycles from a thread of its own, its watcher. Starting raises a flag and,
if it was down, spawns a watcher; stopping lowers the flag and waits for the lock that a watcher
holds while it runs. A watcher spawned before a stop may get its turn only after a later start, so
there can be several watchers; the lock lets one of them run at a time.

Each function here is a step that the others cannot see the middle of.
-/

namespace AtomHeap

/-- How far a watcher is. -/
inductive Watcher
  /-- Spawned, and without the lock. -/
  | waiting
  /-- Has the lock and sleeps. -/
  | asleep
  /-- Slept, and is about to look at the flag. -/
  | awake
  /-- Saw the flag up, and is about to look for a request. -/
  | looking
  /-- Saw a request, and is about to collect. -/
  | collecting
  /-- Saw the flag down, and is about to give the lock back. -/
  | leaving
  deriving DecidableEq, Repr

/-- The flag, and the watchers that were not done yet. -/
structure Monitor where
  running : Bool := false
  watchers : List Watcher := []
  deriving DecidableEq, Repr

namespace Watcher

def hasLock : Watcher → Bool
  | .waiting => false
  | _ => true

/-- Where a watcher is after its next step, given the flag and whether a cycle is requested; none if
that was its last one. Whoever makes the step from `collecting` runs the cycle. -/
def next (running requested : Bool) : Watcher → Option Watcher
  | .waiting => some .asleep
  | .asleep => some .awake
  | .awake => some (if running then .looking else .leaving)
  | .looking => some (if requested then .collecting else .asleep)
  | .collecting => some .asleep
  | .leaving => none

end Watcher

namespace Monitor

def isLocked (m : Monitor) : Bool := m.watchers.any (·.hasLock)

/-- Raises the flag; if it was down, a watcher is spawned. -/
def start (m : Monitor) : Monitor :=
  if m.running then m else { running := true, watchers := m.watchers ++ [.waiting] }

def lower (m : Monitor) : Monitor := { m with running := false }

/-- Lets a watcher make a step; none if there is no such watcher, or it waits for the lock. -/
def step? (m : Monitor) (i : Nat) (requested : Bool) : Option Monitor :=
  match m.watchers[i]? with
  | none => none
  | some w =>
    if w = .waiting ∧ m.isLocked then none
    else
      match w.next m.running requested with
      | some w => some { m with watchers := m.watchers.set i w }
      | none => some { m with watchers := m.watchers.eraseIdx i }

/-- Lets the first watcher make up to `n` steps, none of them from `collecting`. -/
def rouse (m : Monitor) (requested : Bool) : Nat → Monitor
  | 0 => m
  | n + 1 =>
    if m.watchers.head? = some .collecting then m
    else
      match m.step? 0 requested with
      | some m => m.rouse requested n
      | none => m

/-- Whether a stop that has lowered the flag can return. -/
def canReturn (m : Monitor) : Bool := !m.isLocked

end Monitor

end AtomHeap
