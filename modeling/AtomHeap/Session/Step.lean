import AtomHeap.Blob.Registry
import AtomHeap.Cycle.Collector
import AtomHeap.Table.Basic
/-!
# The steps of a session

A session is a program: a list of steps that one thread runs on a heap or on a whole system. Steps
name the blocks, atoms, pools, mutators and blob types of earlier steps. The roots of a mutator can
have a script, steps that run each time the roots are read.
-/

namespace AtomHeap.Session

/-- How a step names an atom. -/
inductive AtomRef
  /-- By the name it was saved under. -/
  | named (name : String)
  /-- By the atom of a machine word, which may be forged. -/
  | word (word : UInt64)
  /-- The atom that the session interned last. -/
  | latest

/-- How a step names a machine word. -/
inductive WordRef
  | word (word : UInt64)
  /-- The word of the atom saved under a name; `otherwise` if there is none. -/
  | named (name : String) (otherwise : Option UInt64)

/-- Callers give the numbers of blob types in as many digits as they like; the last 32 bits count. -/
instance : Coe Nat BlobId := ⟨UInt32.ofNat⟩

/-- How a step names a blob type. -/
inductive BlobRef
  | number (id : BlobId)
  /-- By the name of a type that the session registered. -/
  | named (name : String)

/-- How a step names bytes. -/
inductive Source
  | bytes (bytes : List UInt8)
  /-- Bytes that last, under a label that keeps the bytes it was first used with, and the part of
  them from one offset to another. -/
  | lasting (label : String) (bytes : Option (List UInt8)) (range : Option (Nat × Nat))

/-- A step that concerns memory. `who` is the pool or mutator that acts; without one the shared pool
does. -/
inductive MemoryStep
  | openPool (as : String)
  | closePool (pool : String)
  | alloc (who : Option String) (size : Nat) (as : Option String)
  /-- Without a size, the block is freed with the size that it was allocated with. -/
  | free (who : Option String) (block : String) (size : Option Nat)
  | poolStat (pool : String) (sizeClass : Nat)
  | heapStat
  | globalFree (sizeClasses : List Nat)
  | owns (block : String) (offset : Nat)
  | ownsNull
  | setHook (label : String)
  | destroyAll

/-- A step that concerns atoms and blob types. `who` is the mutator that acts, if one does. -/
inductive AtomStep
  | intern (who : Option String) (source : Source) (blob : BlobRef) (as : Option String)
  | internStatic (source : Source) (blob : BlobRef) (as : Option String)
  | internStr (who : Option String) (text : String) (as : Option String)
  | internWide (text : String) (as : Option String)
  | initBuiltins (names : List String)
  | lookup (who : Option String) (source : Source) (blob : BlobRef) (as : Option String)
  | bytesOf (atom : AtomRef)
  | stringOf (atom : AtomRef)
  | info (atom : AtomRef)
  | register (atom : AtomRef)
  | unregister (atom : AtomRef)
  | areLive (atoms : List AtomRef)
  | registerBlob (type : BlobType)
  | unregisterBlob (blob : BlobRef)
  | findBlob (name : String)
  | blobType (blob : BlobRef)
  | blobNames
  | setFallback (hook : ReleaseHook)
  | lockAtoms
  | request
  | tableStat
  | closeTable

/-- A step that concerns mutators, their roots, cycles or the monitor. -/
inductive CycleStep
  | detach (mutator : String)
  /-- Reports an atom from the running script. -/
  | mark (atom : AtomRef)
  /-- Reports the atoms among some words from the running script. -/
  | markWords (words : List WordRef)
  | push (mutator : String) (atoms : List AtomRef)
  | pop (mutator : String)
  | clearRoots (mutator : String)
  | safePoint (mutator : String)
  | mutatorId (mutator : String)
  /-- A cycle on behalf of the session's thread. -/
  | collect
  /-- The same, if one is requested and still due. -/
  | maybeCollect
  /-- A cycle run by a mutator. -/
  | collectFrom (mutator : String)
  /-- A cycle run by a thread without a mutator, during which these mutators make safe points. -/
  | collectApart (respond : List String)
  | waitForCycle
  | metrics
  | config
  | startMonitor
  | stopMonitor
  /-- Starts the monitor, lets it see to a pending request, and stops it. -/
  | monitorRound

/-- What the answer of a series is about. -/
inductive SeriesKind
  /-- Steps of which only success matters. -/
  | repeated
  /-- Steps of which only the number matters. -/
  | counted
  /-- Allocations. -/
  | blocks
  /-- Interns. -/
  | atoms
  deriving DecidableEq, Repr

/-- Whether the answer of a series tells those of its rounds. -/
def SeriesKind.tellsAnswers : SeriesKind → Bool
  | .repeated | .counted => false
  | .blocks | .atoms => true

/-- One step. -/
inductive Step
  | memory (step : MemoryStep)
  | atoms (step : AtomStep)
  | cycles (step : CycleStep)
  /-- Attaches a mutator, with a script or with the one that its name has already. -/
  | attach (as : String) (script : Option (List Step))
  /-- Gives a mutator another script, or takes its script away. -/
  | setScript (mutator : String) (script : Option (List Step))
  /-- Runs steps while cycles are kept out. -/
  | hold (steps : List Step)
  /-- Runs rounds of steps up to the first failure, as one: for each number below `rounds` a step
  and those that go with it. -/
  | series (kind : SeriesKind) (rounds : Nat) (step : Nat → Step) (more : List Step)

end AtomHeap.Session
