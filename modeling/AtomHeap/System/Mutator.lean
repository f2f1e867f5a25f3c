import AtomHeap.System.Cycle
/-!
# Mutators at work

A mutator allocates and interns through safe points. At a safe point it answers a cycle that asks
for roots, and runs a requested cycle unless that is left to a monitor.

Reading a mutator's roots may do other things on the way, such as intern or collect. So the
operations that read roots work in any monad that can work on a system, and take the way to read the
roots as a parameter; in the plainest one, `StateT System (Except Fault)`, reading roots may be any
function.
-/

namespace AtomHeap

/-- Monads that can work on a system. -/
class MonadSystem (m : Type → Type) where
  onSystem {α : Type} (f : System → Except Fault (α × System)) : m α

export MonadSystem (onSystem)

instance : MonadSystem (StateT System (Except Fault)) where
  onSystem f := f

namespace System

/-! ## Steps -/

def attach (s : System) (thread : ThreadId) : MutatorId × System :=
  let (id, collector) := s.collector.register thread
  let (pool, heap) := s.store.heap.openPool
  (id,
    { s with
      collector
      store := { s.store with heap }
      mutators := s.mutators ++ [{ id, thread, pool }] })

/-- The epoch that a mutator has to answer, if there is one. From then on it counts as answered. -/
def observe (s : System) (id : MutatorId) : Except Fault (Option Nat × System) := do
  match s.collector.dueEpoch? (← s.mutator id).lastEpoch with
  | none => return (none, s)
  | some epoch => return (some epoch, s.updateMutator id ({ · with lastEpoch := epoch }))

def send (s : System) (r : Report) : System := s.onCollector (·.send r)

/-- Sends the last report of a mutator that is no longer on the list of those attached. -/
def sendLast (s : System) (m : Mutator) : System :=
  match s.collector.dueEpoch? m.lastEpoch with
  | some epoch => s.send ⟨m.id, epoch, []⟩
  | none => s

def closeMutator (s : System) (m : Mutator) : Except Fault System := do
  let heap ← s.store.heap.closePool m.pool
  return { s with
    store := { s.store with heap }
    mutators := s.mutators.filter (·.id ≠ m.id) }

/-- Detaches a mutator. It leaves the list before it looks for an epoch to answer, so no cycle waits
for a mutator that is gone. -/
def detach (s : System) (id : MutatorId) : Except Fault System := do
  let m ← s.mutator id
  ((s.onCollector (·.deregister id)).sendLast m).closeMutator m

def stackOf (s : System) (id : MutatorId) : Except Fault RootStack := do
  return (← s.mutator id).roots

/-- Whether a mutator at a safe point runs a cycle. -/
def leavesCycleToMutators (s : System) : Bool := s.isRequested && !s.collector.background

/-! ## Operations that read roots -/

section

variable {m : Type → Type} [Monad m] [MonadSystem m]

def collectFrom (readRoots : MutatorId → m (List Atom)) (id : MutatorId) (onlyIfNeeded : Bool) :
    m Outcome := do
  let refusal ← onSystem fun s => do s.tryBegin (← s.mutator id).thread (some id) onlyIfNeeded
  match refusal with
  | some outcome => return outcome
  | none =>
    let atoms ← readRoots id
    onSystem (·.complete (some (id, atoms)))

/-- Answers a cycle that asks a mutator for its roots. -/
def answer (readRoots : MutatorId → m (List Atom)) (id : MutatorId) : m Unit := do
  match ← onSystem (·.observe id) with
  | none => return
  | some epoch =>
    let atoms ← readRoots id
    onSystem fun s => return ((), s.send ⟨id, epoch, atoms⟩)

def safePoint (readRoots : MutatorId → m (List Atom)) (id : MutatorId) : m Unit := do
  answer readRoots id
  if ← onSystem fun s => return (s.leavesCycleToMutators, s) then
    discard <| collectFrom readRoots id true

/-- Allocates from the pool of a mutator, after a safe point. -/
def allocFrom (readRoots : MutatorId → m (List Atom)) (id : MutatorId) (size : Nat) :
    m (Except AllocError Address) := do
  safePoint readRoots id
  onSystem fun s => do
    let pool := (← s.mutator id).pool
    s.onStore (·.alloc (some pool) size)

/-- Interns bytes on behalf of a mutator, after a safe point. -/
def internFrom (readRoots : MutatorId → m (List Atom)) (id : MutatorId) (span : Span)
    (blob : BlobId) : m (Except AtomError Interned) := do
  safePoint readRoots id
  onSystem (onStore (·.intern span blob))

/-- Looks bytes up on behalf of a mutator, after a safe point. -/
def lookupFrom (readRoots : MutatorId → m (List Atom)) (id : MutatorId) (span : Span)
    (blob : BlobId) : m (Option Atom) := do
  safePoint readRoots id
  onSystem (onStore (·.lookup span blob))

/-- Reads the roots of a mutator whose root stack is all it has. -/
def readStack (id : MutatorId) : m (List Atom) :=
  onSystem fun s => return (((← s.stackOf id).report {}).atoms.toList, s)

end

end System

end AtomHeap
