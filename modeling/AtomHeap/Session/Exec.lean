import AtomHeap.Session.Cycles
/-!
# Running a session

Steps run in order. Some run other steps: a held or serial one its own, and one that reads roots the
scripts of mutators. How deeply scripts may call each other is bounded, which only a script that
calls itself without end can notice.
-/

namespace AtomHeap.Session

def records (run : Step → SessionM Answer) (steps : List Step) : SessionM (List Record) :=
  steps.mapM fun step => recorded (run step)

/-- Runs a step and those that go with it. The answer is that of the first. -/
def runRound (run : Step → SessionM Answer) (step : Step) (more : List Step) : SessionM Answer := do
  let answer ← run step
  more.forM fun step => discard (run step)
  return answer

/-- Runs rounds of steps up to the first failure; `done` and `answers` are of the rounds before. -/
def series (run : Step → SessionM Answer) (kind : SeriesKind) (step : Nat → Step)
    (more : List Step) (done : Nat) (answers : Array Answer) : Nat → SessionM Answer
  | 0 => return .series kind done answers.toList none
  | rounds + 1 => do
    let round := runRound run (step done) more
    match ← tryCatch (Except.ok <$> round) fun failure => pure (.error failure) with
    | .ok answer =>
      let answers := if kind.tellsAnswers then answers.push answer else answers
      series run kind step more (done + 1) answers rounds
    | .error failure => return .series kind done answers.toList (some failure)

def hold (run : Step → SessionM Answer) (steps : List Step) : SessionM Answer := do
  waitForLock
  change fun s => return s.onCollector Collector.lock
  let records ← records run steps
  change fun s => return s.onCollector Collector.unlock
  return .records records

/-- Runs a step, within which others can run to a depth. -/
def exec : Nat → Step → SessionM Answer
  | 0, _ => fault .tooDeep
  | depth + 1, step =>
    let run := exec depth
    let readRoots := readRoots (records run)
    match step with
    | .memory step => step.perform readRoots
    | .atoms step => step.perform readRoots
    | .cycles step => step.perform readRoots
    | .attach as script => attach as script
    | .setScript name script => do
      saveScript name script
      return .done
    | .hold steps => hold run steps
    | .series kind rounds step more => series run kind step more 0 #[] rounds

/-- How deeply steps may run within steps: more deeply than the stack of any thread reaches. -/
def maxDepth : Nat := UInt32.size

/-- Runs steps in order. The answer is their records, and the fault that ended the session if one
did. -/
def run (state : State) (records : Array Record) : List Step → List Record × Option Fault
  | [] => (records.toList, none)
  | step :: steps =>
    match recorded (exec maxDepth step) state with
    | .ok (.ok record, state) => run state (records.push record) steps
    | .ok (.error _, state) => run state records steps
    | .error fault => (records.toList, some fault)

/-! ## Where a session starts -/

/-- Which requests for memory the system grants. -/
abbrev Grants := Nat → Nat → Bool

/-- Why a session does not start. -/
inductive StartError
  /-- A configuration was refused. -/
  | config (error : ConfigError)
  | fault (fault : Fault)

def accept (config : Config) : Except StartError Unit := config.check.mapError .config

/-- A heap with a configuration and, if one is given, with an out-of-memory hook. -/
def createHeap (config : Config) (grants : Grants) (hook : Option String) :
    Except StartError Heap := do
  accept config
  let heap ← (Heap.create config.limits grants).mapError .fault
  return match hook with
    | some label => heap.setHook label
    | none => heap

def createSystem (heap : Heap) (config : Config) : Except StartError System := do
  accept config
  (System.create heap config).mapError .fault

def onBareHeap (config : Config) (grants : Grants) (hook : Option String) (traced : Bool) :
    Except StartError State := do
  return { stage := .heap (← createHeap config grants hook), book := { traced } }

/-- A session on a heap and a table with a configuration of its own. -/
def onHeapAndTable (config tableConfig : Config) (grants : Grants) (hook : Option String)
    (traced : Bool) : Except StartError State := do
  let system ← createSystem (← createHeap config grants hook) tableConfig
  return { stage := .system system, book := { traced } }

/-- A session on a whole system, whose monitor runs if the configuration says so. -/
def onSystemOf (config : Config) (grants : Grants) (hook : Option String) (traced : Bool) :
    Except StartError State := do
  let system ← createSystem (← createHeap config grants hook) config
  let system := if config.monitorOn then system.startMonitor else system
  return { stage := .system system, book := { traced } }

end AtomHeap.Session
