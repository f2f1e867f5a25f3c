import AtomHeap.Cycle.Collector
import AtomHeap.Cycle.Marker
import AtomHeap.Cycle.Monitor
import AtomHeap.Store.Intern
import AtomHeap.Store.Sweep
/-!
# The system

A store, its collector, the mutators attached to it, and its monitor. A mutator is a thread's
handle: it has a pool of its own, and the roots that keep the thread's atoms from being collected.
-/

namespace AtomHeap

/-- A thread's handle on a system. -/
structure Mutator where
  id : MutatorId
  thread : ThreadId
  pool : PoolId
  roots : RootStack := {}
  /-- The last epoch that the mutator answered; 0 if none. -/
  lastEpoch : Nat := 0
  deriving DecidableEq, Repr

/-- A store, its collector, the attached mutators and the monitor. -/
structure System where
  config : Config
  store : Store
  collector : Collector := {}
  mutators : List Mutator := []
  monitor : Monitor := {}

/-- What the collector shows of its state. -/
inductive Standing
  | idle
  /-- Idle, and a cycle is requested. -/
  | requested
  | marking
  | sweeping
  deriving DecidableEq, Repr

namespace System

/-- A system on a heap, without atoms and mutators. -/
def empty (heap : Heap) (config : Config) : System := { config, store := .empty heap config }

/-- A system on a heap, without atoms and mutators, if memory has room for its hash chains. -/
def create (heap : Heap) (config : Config) : Except Fault System :=
  if config.atomBuckets.toNat ≤ Table.maxChains then .ok (empty heap config) else .error .exhausted

def isRequested (s : System) : Bool := s.store.table.requested

def standing (s : System) : Standing :=
  match s.collector.phase with
  | .marking => .marking
  | .sweeping => .sweeping
  | .idle => if s.isRequested then .requested else .idle

def mutator (s : System) (id : MutatorId) : Except Fault Mutator :=
  match s.mutators.find? (·.id == id) with
  | some m => .ok m
  | none => .error .brokenContract

def updateMutator (s : System) (id : MutatorId) (f : Mutator → Mutator) : System :=
  { s with mutators := s.mutators.map fun m => if m.id = id then f m else m }

def onCollector (s : System) (f : Collector → Collector) : System :=
  { s with collector := f s.collector }

def onTable : System → (Table → Table) → System
  | ⟨config, ⟨heap, table, calls⟩, collector, mutators, monitor⟩, f =>
    ⟨config, ⟨heap, f table, calls⟩, collector, mutators, monitor⟩

def onStore {α : Type} (f : Store → Except Fault (α × Store)) : System → Except Fault (α × System)
  | ⟨config, store, collector, mutators, monitor⟩ => do
    let (answer, store) ← f store
    return (answer, ⟨config, store, collector, mutators, monitor⟩)

end System

end AtomHeap
