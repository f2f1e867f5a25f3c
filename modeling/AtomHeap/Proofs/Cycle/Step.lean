import AtomHeap.Proofs.Store.Run
import AtomHeap.System.Mutator
/-!
# Steps of a system

Mutators, the cycle and other callers work on a system side by side. A `World` is a system with how
far each of them is; a `World.Step` is what one of them does without the others seeing the middle of
it. The system may do any such steps in any order: a `World.Run` is a sequence of them, with what
happened on the way.

A mutator may be in the middle of several visits, because reading its roots may take it to another
safe point. What the collector only shows, such as its phase and its figures, may change at any time.
-/

namespace AtomHeap

/-- What of a collector cycles go by. -/
def Collector.core (c : Collector) : Collector :=
  { c with
    phase := .idle, background := false
    collections := 0, collectedTotal := 0, collectedLast := 0, deferred := 0 }

namespace World

/-- What a mutator is in the middle of. -/
inductive Visit
  /-- It saw an epoch that it has to answer. -/
  | saw (id : MutatorId) (epoch : Nat)
  /-- It noted the epoch as answered, and reads its roots; the report has those read so far. -/
  | reading (r : Report)
  /-- It left the list of those attached, and had last answered an epoch. -/
  | leaving (id : MutatorId) (lastEpoch : Nat)
  /-- It left, and saw an epoch that it has to answer. -/
  | parting (id : MutatorId) (epoch : Nat)
  deriving DecidableEq, Repr

/-- How far the cycle is that keeps others out. -/
inductive Stage
  /-- There is none. -/
  | idle
  /-- There is none, and somebody keeps cycles out. -/
  | held
  | locked
  /-- The table marks what is touched. -/
  | begun
  /-- The cycle has its epoch. -/
  | numbered
  /-- Mutators see the epoch. -/
  | published
  /-- It is settled who is waited for. The roots of the mutator that runs the cycle are read; these
  were so far. -/
  | asked (atoms : List Atom)
  /-- Reports are taken. -/
  | awaiting
  /-- Nobody is waited for any longer, and mutators see no epoch. -/
  | complete
  /-- Some report was not there in time, and mutators see no epoch. -/
  | abandoned
  | aborted
  /-- All that is left is to let others in. -/
  | ended
  deriving DecidableEq, Repr

/-- What happened in a step. -/
inductive Event
  /-- A caller touched an atom. -/
  | store (event : Store.Event)
  /-- A cycle began to mark. -/
  | began
  /-- A cycle with an epoch settled who is waited for. -/
  | asked (epoch : Nat) (initiator : Option MutatorId) (ids : List MutatorId)
  /-- The roots of the mutator that runs the cycle were marked. -/
  | initiated (r : Report)
  /-- The roots of a report were marked. -/
  | applied (r : Report)
  /-- A report was left out of account. -/
  | ignored (r : Report)
  /-- The sweep of the cycle with an epoch destroyed atoms. -/
  | swept (epoch : Nat) (destroyed : List Atom)
  deriving DecidableEq, Repr

end World

/-- A system at work. -/
structure World where
  system : System
  stage : World.Stage := .idle
  /-- The mutator that runs the cycle, if one does. -/
  initiator : Option MutatorId := none
  visits : List World.Visit := []

namespace World

/-- A system on a heap, without atoms and mutators, at rest. -/
def empty (heap : Heap) (config : Config) : World := { system := .empty heap config }

def table (w : World) : Table := w.system.store.table

/-- The epoch of the last cycle that began to mark. -/
def epoch (w : World) : Nat := w.system.collector.epoch

def pending (w : World) : List MutatorId := w.system.collector.pending

/-- Steps, where `spans` says which spans callers hand over. -/
inductive Step (spans : Span → Prop) (w : World) : List Event → World → Prop
  -- Callers
  | call {store : Store} {events : List Store.Event} : Store.Call spans w.system.store events store →
      Step spans w (events.map .store) { w with system := { w.system with store } }
  -- Mutators
  | attach (thread : ThreadId) : Step spans w [] { w with system := (w.system.attach thread).2 }
  | setRoots (id : MutatorId) (roots : RootStack) :
      Step spans w [] { w with system := w.system.updateMutator id ({ · with roots }) }
  | look {id : MutatorId} {m : Mutator} {epoch : Nat} : w.system.mutator id = .ok m →
      w.system.collector.dueEpoch? m.lastEpoch = some epoch →
      Step spans w [] { w with visits := .saw id epoch :: w.visits }
  | note {id : MutatorId} {epoch : Nat} : .saw id epoch ∈ w.visits →
      Step spans w []
        { w with
          system := w.system.updateMutator id ({ · with lastEpoch := epoch })
          visits := .reading ⟨id, epoch, []⟩ :: w.visits.erase (.saw id epoch) }
  | read {r : Report} (a : Atom) : .reading r ∈ w.visits →
      Step spans w []
        { w with visits := .reading { r with atoms := r.atoms ++ [a] } :: w.visits.erase (.reading r) }
  | send {r : Report} : .reading r ∈ w.visits →
      Step spans w [] { w with system := w.system.send r, visits := w.visits.erase (.reading r) }
  | leave {id : MutatorId} {m : Mutator} : w.system.mutator id = .ok m →
      Step spans w []
        { w with
          system := w.system.onCollector (·.deregister id)
          visits := .leaving id m.lastEpoch :: w.visits }
  | part {id : MutatorId} {lastEpoch epoch : Nat} : .leaving id lastEpoch ∈ w.visits →
      w.system.collector.dueEpoch? lastEpoch = some epoch →
      Step spans w [] { w with visits := .parting id epoch :: w.visits.erase (.leaving id lastEpoch) }
  | partUnasked {id : MutatorId} {lastEpoch : Nat} : .leaving id lastEpoch ∈ w.visits →
      w.system.collector.dueEpoch? lastEpoch = none →
      Step spans w [] { w with visits := w.visits.erase (.leaving id lastEpoch) }
  | sendLast {id : MutatorId} {epoch : Nat} : .parting id epoch ∈ w.visits →
      Step spans w []
        { w with system := w.system.send ⟨id, epoch, []⟩, visits := w.visits.erase (.parting id epoch) }
  | close {m : Mutator} {system : System} : w.system.closeMutator m = .ok system →
      Step spans w [] { w with system }
  -- What the collector and the monitor show
  | display {collector : Collector} (monitor : Monitor) : collector.core = w.system.collector.core →
      Step spans w [] { w with system := { w.system with collector, monitor } }
  -- The lock
  | hold : w.stage = .idle → w.system.collector.locked = false →
      Step spans w [] { w with system := w.system.onCollector .lock, stage := .held }
  | release : w.stage = .held →
      Step spans w [] { w with system := w.system.onCollector .unlock, stage := .idle }
  | lock (initiator : Option MutatorId) : w.stage = .idle → w.system.collector.locked = false →
      w.table.agcEnabled = true →
      Step spans w [] { w with system := w.system.onCollector .lock, stage := .locked, initiator }
  | clearRequest : w.stage = .locked →
      Step spans w [] { w with system := w.system.onTable ({ · with requested := false }) }
  | decline : w.stage = .locked →
      Step spans w [] { w with system := w.system.onCollector .unlock, stage := .idle }
  | rest : w.stage = .ended →
      Step spans w [] { w with system := w.system.onCollector .unlock, stage := .idle }
  -- The cycle, up to the call for roots
  | begin : w.stage = .locked →
      Step spans w [.began] { w with system := w.system.onTable .beginMarking, stage := .begun }
  | number : w.stage = .begun →
      Step spans w [] { w with system := w.system.onCollector .nextEpoch, stage := .numbered }
  | publish : w.stage = .numbered →
      Step spans w [] { w with system := w.system.onCollector .publish, stage := .published }
  | snapshot : w.stage = .published →
      Step spans w [.asked w.epoch w.initiator (w.system.collector.registered.map (·.1))]
        { w with system := w.system.onCollector .snapshot, stage := .asked [] }
  -- The roots of the mutator that runs the cycle
  | readOwn {id : MutatorId} {atoms : List Atom} (a : Atom) : w.stage = .asked atoms → w.initiator = some id →
      Step spans w [] { w with stage := .asked (atoms ++ [a]) }
  | markOwn {id : MutatorId} {atoms : List Atom} : w.stage = .asked atoms → w.initiator = some id →
      Step spans w [.initiated ⟨id, w.epoch, atoms⟩]
        { w with system := w.system.markInitiator id atoms, stage := .awaiting }
  | markNone : w.stage = .asked [] → w.initiator = none → Step spans w [] { w with stage := .awaiting }
  -- Reports
  | receive {r : Report} {collector : Collector} : w.stage = .awaiting → w.pending ≠ [] →
      w.system.collector.takeReport? = some (r, collector) →
      Step spans w [if r.epoch = w.epoch then .applied r else .ignored r]
        { w with system := { w.system with collector }.receive r }
  | finish : w.stage = .awaiting → w.pending = [] →
      Step spans w [] { w with system := w.system.onCollector .retract, stage := .complete }
  | timeOut : w.stage = .awaiting → w.pending ≠ [] →
      Step spans w [] { w with system := w.system.onCollector .retract, stage := .abandoned }
  -- The end
  | abort : w.stage = .abandoned →
      Step spans w [] { w with system := w.system.onTable .abortMarking, stage := .aborted }
  | postpone : w.stage = .aborted →
      Step spans w [] { w with system := w.system.onTable .postpone, stage := .ended }
  | sweep {swept : Table.Swept} {table : Table} {n : Nat} {store : Store} : w.stage = .complete →
      w.table.sweep = .ok (swept, table) → w.system.store.sweep = .ok (n, store) →
      Step spans w [.swept w.epoch swept.destroyed.toList]
        { w with system := { w.system with store }, stage := .ended }

/-- Sequences of steps, with what happened on the way, the latest step first. -/
inductive Run (spans : Span → Prop) (w₀ : World) : List Event → World → Prop
  | start : Run spans w₀ [] w₀
  | step {w w' : World} {trace events : List Event} :
      Run spans w₀ trace w → Step spans w events w' → Run spans w₀ (events ++ trace) w'

variable {spans : Span → Prop} {w w' w'' w₀ : World} {trace trace' events : List Event}

theorem Run.intern {i : Interned} {store : Store} (h : Run spans w₀ trace w) (span : Span)
    (hspan : spans span) (blob : BlobId)
    (hi : w.system.store.internLocked span false blob = .ok (.ok i, store)) :
    Run spans w₀ (.store (if i.isNew then .made i.atom else .found i.atom) :: trace)
      { w with system := { w.system with store } } := h.step (.call (.intern hspan hi))

theorem Run.trans (h : Run spans w₀ trace w) (h' : Run spans w trace' w') :
    Run spans w₀ (trace' ++ trace) w' := by
  induction h' with
  | start => exact h
  | step _ hstep ih =>
    rw [List.append_assoc]
    exact .step ih hstep

end World

end AtomHeap
