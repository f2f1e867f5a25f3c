import AtomHeap.Memory.Alloc
import AtomHeap.Memory.Free
import AtomHeap.Table.Insert
import AtomHeap.Table.Reference
import AtomHeap.Table.Sweep
/-!
# The store

A heap with an atom table on it, and a log of the hooks that ran. The table takes the copies of its
payloads from a local pool of the heap; other pools of the heap may serve other blocks meanwhile.
-/

namespace AtomHeap

/-- What an acquire hook did. -/
inductive AcquireAnswer
  /-- It took note of the atom. -/
  | observed
  /-- It took or gave back a reference. -/
  | counted (result : Except AtomError Unit)
  /-- It interned some text. -/
  | interned (result : Except AtomError Atom)

/-- One run of a hook. -/
inductive HookCall
  /-- The acquire hook of a type ran for a new atom, which had this many references then. -/
  | acquired (type : BlobId × String) (atom : Atom) (refs : Nat) (answer : AcquireAnswer)
  /-- A release hook was asked. -/
  | released (call : ReleaseCall)
  /-- The system refused memory. -/
  | refused (refusal : Refusal)

/-- A heap, the atom table on it, and the hooks that ran. -/
structure Store where
  heap : Heap
  table : Table
  /-- The hooks that ran, in order. -/
  calls : Array HookCall := #[]

namespace Store

def empty (heap : Heap) (config : Config) : Store :=
  let (pool, heap) := heap.openPool
  { heap, table := .empty config pool }

/-- Moves the refusals that the heap's hook was told of to the log. -/
def logRefusals : Store → Store
  | ⟨heap, table, calls⟩ =>
    match heap.refusals with
    | [] => ⟨heap, table, calls⟩
    | refusals => ⟨{ heap with refusals := [] }, table, calls ++ (refusals.map .refused).toArray⟩

/-- Works on the heap. Refusals on the way are logged. -/
def onHeap {α : Type} (f : Heap → Except Fault (α × Heap)) : Store → Except Fault (α × Store)
  | ⟨heap, table, calls⟩ => do
    let (answer, heap) ← f heap
    return (answer, logRefusals ⟨heap, table, calls⟩)

/-- Allocates from a local pool, or from the shared one. -/
def alloc (s : Store) (from? : Option PoolId) (size : Nat) :
    Except Fault (Except AllocError Address × Store) := s.onHeap (·.alloc from? size)

def register : Store → Atom → Except AtomError Unit × Store
  | ⟨heap, table, calls⟩, a =>
    let (answer, table) := table.register a
    (answer, ⟨heap, table, calls⟩)

def unregister : Store → Atom → Except AtomError Unit × Store
  | ⟨heap, table, calls⟩, a =>
    let (answer, table) := table.unregister a
    (answer, ⟨heap, table, calls⟩)

/-- The atom of a type for some bytes, without creating it or taking a reference. -/
def lookup : Store → Span → BlobId → Except Fault (Option Atom × Store)
  | ⟨heap, table, calls⟩, span, blob => do
    let (answer, table) ← table.lookup span blob
    return (answer, ⟨heap, table, calls⟩)

/-- Asks for a cycle. The answer is whether none had been asked for before. -/
def requestCollection : Store → Bool × Store
  | ⟨heap, table, calls⟩ =>
    let (answer, table) := table.requestCollection
    (answer, ⟨heap, table, calls⟩)

end Store

end AtomHeap
