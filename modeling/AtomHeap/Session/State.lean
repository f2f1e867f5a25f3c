import AtomHeap.Session.Answer
import AtomHeap.Session.Step
import AtomHeap.System.Mutator
import Std.Data.HashMap.Basic
/-!
# The state of a session

What a session works on, and the book it keeps of names. A failed step leaves all it did before it
failed; a fault ends the session.
-/

namespace AtomHeap

/-- What a session works on: a heap alone, or a system. -/
inductive Stage
  | heap (heap : Heap)
  | system (system : System)

namespace Session

/-- The names that a session gave, and the record that it is writing. -/
structure Book where
  atoms : Std.HashMap String Atom := ∅
  /-- The atom interned last. -/
  latest : Option Atom := none
  /-- Blocks, with the sizes that they were allocated with. -/
  blocks : Std.HashMap String (Address × Nat) := ∅
  pools : List (String × PoolId) := []
  mutators : List (String × MutatorId) := []
  blobs : Std.HashMap String BlobId := ∅
  /-- The bytes that last, by label. -/
  lasting : Std.HashMap String (List UInt8) := ∅
  /-- The scripts of mutators. A script stays with its name. -/
  scripts : List (String × List Step) := []
  /-- What the running script reported. -/
  marker : Option Marker := none
  /-- The scripts that ended during the step. -/
  reports : Array (String × List Record) := #[]
  /-- The hooks that ran during the step. -/
  hooks : Array HookCall := #[]
  /-- Whether records have the figures after each step. -/
  traced : Bool := false

/-- A running session. -/
structure State where
  stage : Stage
  book : Book := {}

end Session

/-- Steps of a session: they can fail, or end the session by a fault. -/
abbrev SessionM := ExceptT Session.Failure (StateT Session.State (Except Fault))

namespace Session

def fault {α : Type} (f : Fault) : SessionM α := fun _ => .error f

/-- Gives up a step that makes no sense where it stands. -/
def unusable {α : Type} (why : String) : SessionM α := throw (.unusable why)

instance : MonadSystem SessionM where
  onSystem f := fun
    | ⟨.system system, book⟩ => do
      let (answer, system) ← f system
      return (.ok answer, ⟨.system system, book⟩)
    | ⟨.heap heap, book⟩ => .ok (.error (.unusable "there is no table"), ⟨.heap heap, book⟩)

def onHeap {α : Type} (f : Heap → Except Fault (α × Heap)) : SessionM α := fun
  | ⟨.system system, book⟩ => do
    let (answer, system) ← system.onStore (·.onHeap f)
    return (.ok answer, ⟨.system system, book⟩)
  | ⟨.heap heap, book⟩ => do
    let (answer, heap) ← f heap
    return (.ok answer, ⟨.heap heap, book⟩)

def onStore {α : Type} (f : Store → Except Fault (α × Store)) : SessionM α := onSystem (·.onStore f)

def ask {α : Type} (f : System → Except Fault α) : SessionM α := onSystem fun s => return (← f s, s)

def change (f : System → Except Fault System) : SessionM Unit :=
  onSystem fun s => return ((), ← f s)

def askHeap {α : Type} (f : Heap → Except Fault α) : SessionM α := onHeap fun h => return (← f h, h)

def book : SessionM Book := fun s => .ok (.ok s.book, s)

def onBook (f : Book → Book) : SessionM Unit := fun
  | ⟨stage, book⟩ => .ok (.ok (), ⟨stage, f book⟩)

/-- An answer that may be an error of the table. -/
def orFail {α : Type} : Except AtomError α → SessionM α
  | .ok a => pure a
  | .error e => throw (.atom e)

/-! ## Names -/

/-- What a name stands for, where it stands for something. -/
def named {α : Type} (name : String) (found : Option α) : SessionM α :=
  match found with
  | some a => pure a
  | none => unusable s!"nothing has the name {name}"

def atomOf : AtomRef → SessionM Atom
  | .named name => do named name ((← book).atoms[name]?)
  | .latest => do
    match (← book).latest with
    | some a => return a
    | none => unusable "no atom was interned"
  | .word word =>
    match Atom.ofWord? word with
    | some a => pure a
    | none => unusable "not the word of an atom"

def wordOf : WordRef → SessionM UInt64
  | .word word => pure word
  | .named name otherwise => do
    match (← book).atoms[name]? with
    | some a => return a.toWord
    | none => named name otherwise

def blobOf : BlobRef → SessionM BlobId
  | .number id => pure id
  | .named name => do named name ((← book).blobs[name]?)

/-- The block of a name, with the size that it was allocated with. -/
def blockOf (name : String) : SessionM (Address × Nat) := do named name ((← book).blocks[name]?)

def poolOf (name : String) : SessionM PoolId := do named name ((← book).pools.lookup name)

def mutatorOf (name : String) : SessionM MutatorId := do named name ((← book).mutators.lookup name)

def nameOf (id : MutatorId) : SessionM String := do
  match (← book).mutators.find? (·.2 == id) with
  | some (name, _) => return name
  | none => fault .brokenContract

/-- Who acts in a step. -/
inductive Actor
  /-- The table, the shared pool or the system as a whole. -/
  | none
  | mutator (id : MutatorId)
  | pool (id : PoolId)

def actorOf : Option String → SessionM Actor
  | .none => pure .none
  | some name => do
    let book ← book
    match book.mutators.lookup name, book.pools.lookup name with
    | some id, _ => return .mutator id
    | _, some id => return .pool id
    | _, _ => unusable s!"nobody has the name {name}"

/-- The bytes that a step names. Bytes that last are the same for good under their label. -/
def spanOf : Source → SessionM Span
  | .bytes bytes => pure { bytes }
  | .lasting label given range => do
    let all ← named label <| (← book).lasting[label]?.or given
    onBook fun b => { b with lasting := b.lasting.insert label all }
    let (first, last) := range.getD (0, all.length)
    return { bytes := (all.take last).drop first, place := some ⟨label, first⟩ }

/-- Saves the atom interned last, also under a name if there is one. -/
def saveAtom (as : Option String) (atom : Atom) : SessionM Unit :=
  onBook fun b =>
    match as with
    | some name => { b with atoms := b.atoms.insert name atom, latest := some atom }
    | none => { b with latest := some atom }

/-! ## Records -/

/-- Whether a hook is one of a type that was there from the start. These agree to every release and
are not recorded. -/
def isBuiltin : HookCall → Bool
  | .released { asked := some (id, _), .. } => id ≤ BlobId.discarded
  | _ => false

/-- Moves the hooks that ran from the stage to the book. -/
def gatherHooks : SessionM Unit := fun
  | ⟨.system ⟨config, ⟨heap, table, calls⟩, collector, mutators, monitor⟩, book⟩ =>
    let calls := calls.filter (!isBuiltin ·)
    .ok (.ok (), ⟨.system ⟨config, ⟨heap, table, #[]⟩, collector, mutators, monitor⟩,
      { book with hooks := book.hooks ++ calls }⟩)
  | ⟨.heap heap, book⟩ =>
    let calls := (heap.refusals.map HookCall.refused).toArray
    .ok (.ok (), ⟨.heap { heap with refusals := [] }, { book with hooks := book.hooks ++ calls }⟩)

/-- The figures as they are now, where they are traced. -/
def snapshot : SessionM (Option Snapshot) := fun
  | ⟨stage, book⟩ =>
    if !book.traced then .ok (.ok none, ⟨stage, book⟩)
    else do
      let snapshot ← match stage with
        | .heap heap => pure { table := none, heap := heap.stat }
        | .system system =>
          pure { table := some (← system.store.table.stat), heap := system.store.heap.stat }
      return (.ok (some snapshot), ⟨stage, book⟩)

/-- Takes what was noted for a record: the scripts that ended and the hooks that ran. -/
def takeNotes : SessionM (Array (String × List Record) × Array HookCall) := fun
  | ⟨stage, book⟩ =>
    .ok (.ok (book.reports, book.hooks), ⟨stage, { book with reports := #[], hooks := #[] }⟩)

/-- Runs a step and makes its record. What was noted for the record of a step around it is kept. -/
def recorded (step : SessionM Answer) : SessionM Record := do
  gatherHooks
  let (outerReports, outerHooks) ← takeNotes
  let answer ← tryCatch (Except.ok <$> step) fun failure => pure (.error failure)
  gatherHooks
  let (reports, hooks) ← takeNotes
  let snapshot ← snapshot
  onBook ({ · with reports := outerReports, hooks := outerHooks })
  return .mk answer reports.toList hooks.toList snapshot

end Session

end AtomHeap
