import AtomHeap.Session.Atoms
import AtomHeap.Session.Memory
import AtomHeap.System.Watch
/-!
# Steps about cycles

Mutators, their roots and scripts, cycles, and the monitor. Everything here runs on one thread,
number 0, except that `collectApart` calls for its cycle from another one.
-/

namespace AtomHeap.Session

def mainThread : ThreadId := 0

def otherThread : ThreadId := 1

/-- Reads the roots of a mutator: its stack, and then what its script reports, if it has one. -/
def readRoots (runScript : List Step → SessionM (List Record)) (id : MutatorId) :
    SessionM (List Atom) := do
  let name ← nameOf id
  let stack ← ask (·.stackOf id)
  let marker := stack.report {}
  match (← book).scripts.lookup name with
  | none => return marker.atoms.toList
  | some script =>
    let outer := (← book).marker
    onBook ({ · with marker := some marker })
    let records ← runScript script
    let reported := ((← book).marker.getD {}).atoms.toList
    onBook fun b => { b with marker := outer, reports := b.reports.push (name, records) }
    return reported

def runningMarker : SessionM Marker := do
  match (← book).marker with
  | some marker => return marker
  | none => unusable "no script is running"

/-- Reports more from the running script. The answer is how many reports there are now. -/
def report (f : Marker → Marker) : SessionM Answer := do
  let marker := f (← runningMarker)
  onBook ({ · with marker := some marker })
  return .number marker.length

def changeStack (id : MutatorId) (f : RootStack → RootStack) : SessionM Unit :=
  change fun s => return s.updateMutator id fun m => { m with roots := f m.roots }

/-- Gives a mutator's name a script, or takes its script away. -/
def saveScript (name : String) (script : Option (List Step)) : SessionM Unit :=
  onBook fun b =>
    let others := b.scripts.filter (·.1 ≠ name)
    { b with scripts := (script.map (name, ·)).toList ++ others }

/-- Waits until no cycle runs and nobody keeps cycles out. On one thread that is now or never. -/
def waitForLock : SessionM Unit := do
  if (← ask fun s => return s.collector.locked) then fault .deadlock

/-- A cycle called for by a thread without a mutator, during which mutators make safe points. -/
def collectFromOutside (readRoots : MutatorId → SessionM (List Atom)) (respond : List MutatorId) :
    SessionM Outcome := do
  let refusal ← onSystem (·.tryBegin otherThread none false)
  for id in respond do
    System.safePoint readRoots id
  match refusal with
  | some outcome => return outcome
  | none => onSystem (·.complete none)

/-- Attaches a mutator under a name. One that had the name before is detached then. -/
def attach (as : String) (script : Option (List Step)) : SessionM Answer := do
  let id ← onSystem fun s => return s.attach mainThread
  let old := (← book).mutators.lookup as
  onBook fun b => { b with mutators := (as, id) :: b.mutators.filter (·.1 ≠ as) }
  if script.isSome then saveScript as script
  if let some old := old then change (·.detach old)
  return .number id

def CycleStep.perform (readRoots : MutatorId → SessionM (List Atom)) : CycleStep → SessionM Answer
  | .detach name => do
    let id ← mutatorOf name
    onBook fun b => { b with mutators := b.mutators.filter (·.1 ≠ name) }
    change (·.detach id)
    return .done
  | .mark atom => do
    let atom ← atomOf atom
    report (·.mark atom)
  | .markWords words => do
    let words ← words.mapM wordOf
    report (·.markWords words)
  | .push name atoms => do
    let id ← mutatorOf name
    for atom in atoms do
      let atom ← atomOf atom
      changeStack id (·.push atom)
    return .number (← ask (·.stackOf id)).length
  | .pop name => do
    let id ← mutatorOf name
    let (atom, _) := (← ask (·.stackOf id)).pop
    changeStack id (·.pop.2)
    return .someAtom atom
  | .clearRoots name => do
    let id ← mutatorOf name
    changeStack id fun _ => {}
    return .truth (← ask (·.stackOf id)).isEmpty
  | .safePoint name => do
    System.safePoint readRoots (← mutatorOf name)
    return .done
  | .mutatorId name => return .mutator (← mutatorOf name)
  | .collect => return .outcome (← onSystem (·.collect mainThread false))
  | .maybeCollect => return .outcome (← onSystem (·.maybeCollect mainThread))
  | .collectFrom name => do
    return .outcome (← System.collectFrom readRoots (← mutatorOf name) false)
  | .collectApart respond => do
    let respond ← respond.mapM mutatorOf
    return .outcome (← collectFromOutside readRoots respond)
  | .waitForCycle => do
    waitForLock
    return .done
  | .metrics => return .metrics (← ask fun s => return s.metrics)
  | .config => return .config (← ask fun s => return s.config)
  | .startMonitor => do
    change fun s => return s.startMonitor
    return .done
  | .stopMonitor => do
    change fun s => return s.stopMonitor
    return .done
  | .monitorRound => return .monitorRan (← onSystem (·.monitorRound otherThread))

end AtomHeap.Session
