import AtomHeap.System.Basic
/-!
# Cycles

The steps of a collection cycle, and the two stretches between which the roots of the mutator that
runs it are read: `System.tryBegin` decides whether a cycle begins and, if so, makes everybody mark;
`System.complete` takes the reports and sweeps, or gives up if somebody did not report.
-/

namespace AtomHeap.System

/-! ## Steps -/

/-- From now on, atoms that are touched are marked. -/
def beginMarking (s : System) : System :=
  (s.onCollector (·.enter .marking)).onTable Table.beginMarking

def callForRoots (s : System) : System :=
  ((s.onCollector Collector.nextEpoch).onCollector Collector.publish).onCollector Collector.snapshot

/-- Marks the roots of the mutator that runs the cycle, which is not waited for. -/
def markInitiator (s : System) (id : MutatorId) (atoms : List Atom) : System :=
  (s.onCollector (·.excuse id)).onTable (·.applyMarks atoms)

/-- Takes a report. One of another cycle is left out of account. -/
def receive (s : System) (r : Report) : System :=
  if r.epoch = s.collector.epoch then
    (s.onTable (·.applyMarks r.atoms)).onCollector (·.excuse r.mutator)
  else s

/-- Gives the cycle up and takes its marks back. -/
def giveUp (s : System) : System :=
  (((s.onCollector Collector.retract).onTable Table.abortMarking).onCollector
    Collector.countDeferred).onTable Table.postpone

/-- Sweeps. The answer is how many atoms were destroyed. -/
def sweep (s : System) : Except Fault (Nat × System) := do
  let s := (s.onCollector Collector.retract).onCollector (·.enter .sweeping)
  let (n, s) ← s.onStore Store.sweep
  return (n, s.onCollector (·.countCollected n))

def rest (s : System) : System := (s.onCollector (·.enter .idle)).onCollector Collector.unlock

/-! ## From the call to the roots -/

/-- Puts off a call for a cycle: it is counted, and a cycle is requested. -/
def defer (s : System) : System :=
  (s.onCollector Collector.countDeferred).onTable (·.requestCollection.2)

/-- Whether a cycle that may begin does. One that runs in any case asks nothing of the table. -/
def isDue (s : System) (onlyIfNeeded : Bool) : Except Fault Bool :=
  if onlyIfNeeded then s.store.table.shouldCollect else .ok true

/-- Begins a cycle on behalf of a thread, for the mutator that runs it if there is one. The answer
says why none began; there is none if it did. A call from a thread that has a mutator attached, but
not on behalf of it, is put off, because that mutator could not report; so is a call while cycles
are kept out. -/
def tryBegin (s : System) (thread : ThreadId) (initiator : Option MutatorId) (onlyIfNeeded : Bool) :
    Except Fault (Option Outcome × System) :=
  if !s.store.table.agcEnabled then .ok (some .notNeeded, s)
  else if initiator.isNone && s.collector.isAttached thread then .ok (some .deferred, s.defer)
  else if s.collector.locked then .ok (some .deferred, s.defer)
  else do
    let s := (s.onCollector Collector.lock).onTable fun t => { t with requested := false }
    if ← s.isDue onlyIfNeeded then return (none, s.beginMarking.callForRoots)
    else return (some .notNeeded, s.onCollector Collector.unlock)

/-! ## From the roots to the outcome -/

/-- Takes reports off the queue until nobody is waited for or none is left. -/
def awaitReports (s : System) : List Report → System
  | [] => s.onCollector ({ · with reports := [] })
  | r :: reports =>
    if s.collector.pending.isEmpty then s.onCollector ({ · with reports := r :: reports })
    else (s.receive r).awaitReports reports

/-- Ends a cycle that began, given the roots of the mutator that runs it: it sweeps if all others
reported, and is given up if not. -/
def complete (s : System) (initiator : Option (MutatorId × List Atom)) :
    Except Fault (Outcome × System) := do
  let s := match initiator with
    | some (id, atoms) => s.markInitiator id atoms
    | none => s
  let s := s.awaitReports s.collector.reports
  if s.collector.pending.isEmpty then
    let (n, s) ← s.sweep
    return (.collected n, s.rest)
  else return (.deferred, s.giveUp.rest)

/-! ## Cycles without a mutator -/

def collect (s : System) (thread : ThreadId) (onlyIfNeeded : Bool) :
    Except Fault (Outcome × System) := do
  match ← s.tryBegin thread none onlyIfNeeded with
  | (some outcome, s) => return (outcome, s)
  | (none, s) => s.complete none

/-- A cycle on behalf of a thread, if one is requested and still due. -/
def maybeCollect (s : System) (thread : ThreadId) : Except Fault (Outcome × System) :=
  if s.isRequested then s.collect thread true else .ok (.notNeeded, s)

end AtomHeap.System
