import AtomHeap.Atom
/-!
# The collector

A collection cycle marks what the roots of every attached thread name and sweeps the rest. To ask
the threads for their roots the collector publishes the number of the cycle, its epoch, and takes a
snapshot of who is attached. A thread that sees a new epoch at a safe point sends a report stamped
with it; a thread that leaves sends an empty one. All reports go through one queue, so reports of a
cycle that was given up can still be in it when the next one marks. Those are left out of account.

Each function here is a step that the others cannot see the middle of.
-/

namespace AtomHeap

abbrev MutatorId := Nat

abbrev ThreadId := Nat

/-- What the collector is doing. -/
inductive Phase
  | idle
  | marking
  | sweeping
  deriving DecidableEq, Repr

/-- The roots of a mutator, as it sent them for a cycle. -/
structure Report where
  mutator : MutatorId
  epoch : Nat
  atoms : List Atom
  deriving DecidableEq, Repr

/-- What a call for a cycle came to. -/
inductive Outcome
  /-- A cycle ran and destroyed this many atoms. -/
  | collected (n : Nat)
  /-- A cycle could not start or could not finish marking. -/
  | deferred
  /-- There was nothing worth a cycle, or collection is switched off. -/
  | notNeeded
  deriving DecidableEq, Repr

/-- Who is attached, how far the running cycle is, and what came of earlier ones. -/
structure Collector where
  /-- The attached mutators and their threads. -/
  registered : List (MutatorId × ThreadId) := []
  nextMutator : MutatorId := 1
  /-- The number of the last cycle that began to mark. -/
  epoch : Nat := 0
  /-- The number of the marking cycle that mutators see; 0 while none asks for roots. -/
  activeEpoch : Nat := 0
  /-- The reports that nobody took yet, in the order they were sent. -/
  reports : List Report := []
  /-- The mutators whose reports the marking cycle still waits for. -/
  pending : List MutatorId := []
  /-- Whether a cycle runs, or somebody keeps cycles out. -/
  locked : Bool := false
  phase : Phase := .idle
  /-- Whether requested cycles are left to a monitor. -/
  background : Bool := false
  /-- How many cycles swept. -/
  collections : Nat := 0
  /-- How many atoms all cycles destroyed. -/
  collectedTotal : Nat := 0
  /-- How many atoms the last cycle destroyed. -/
  collectedLast : Nat := 0
  /-- How many calls for a cycle were deferred. -/
  deferred : Nat := 0
  deriving DecidableEq, Repr

namespace Collector

/-! ## What mutators do -/

/-- Puts a mutator of a thread on the list of those attached. -/
def register (c : Collector) (thread : ThreadId) : MutatorId × Collector :=
  (c.nextMutator,
    { c with
      registered := (c.nextMutator, thread) :: c.registered
      nextMutator := c.nextMutator + 1 })

/-- Takes a mutator off the list of those attached. -/
def deregister (c : Collector) (id : MutatorId) : Collector :=
  { c with registered := c.registered.filter (·.1 ≠ id) }

/-- The epoch that a mutator has to answer, which last answered `lastEpoch`. -/
def dueEpoch? (c : Collector) (lastEpoch : Nat) : Option Nat :=
  if c.activeEpoch ≠ 0 ∧ c.activeEpoch ≠ lastEpoch then some c.activeEpoch else none

def send (c : Collector) (r : Report) : Collector := { c with reports := c.reports ++ [r] }

def isAttached (c : Collector) (thread : ThreadId) : Bool := c.registered.any (·.2 == thread)

/-! ## What the cycle does -/

def lock (c : Collector) : Collector := { c with locked := true }

def unlock (c : Collector) : Collector := { c with locked := false }

def countDeferred (c : Collector) : Collector := { c with deferred := c.deferred + 1 }

def nextEpoch (c : Collector) : Collector := { c with epoch := c.epoch + 1 }

def publish (c : Collector) : Collector := { c with activeEpoch := c.epoch }

/-- Waits from now on for a report of everybody who is attached. -/
def snapshot (c : Collector) : Collector := { c with pending := c.registered.map (·.1) }

def excuse (c : Collector) (id : MutatorId) : Collector := { c with pending := c.pending.erase id }

def takeReport? (c : Collector) : Option (Report × Collector) :=
  match c.reports with
  | [] => none
  | r :: reports => some (r, { c with reports })

def retract (c : Collector) : Collector := { c with activeEpoch := 0 }

def enter (c : Collector) (phase : Phase) : Collector := { c with phase }

def countCollected (c : Collector) (n : Nat) : Collector :=
  { c with
    collections := c.collections + 1
    collectedTotal := c.collectedTotal + n
    collectedLast := n }

end Collector

end AtomHeap
