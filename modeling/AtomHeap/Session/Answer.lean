import AtomHeap.Memory.Stat
import AtomHeap.Session.Step
import AtomHeap.Store.Basic
import AtomHeap.System.Metrics
import AtomHeap.Table.Stat
/-!
# What a session answers

Each step gives a record: its answer or why it failed, the root reports made during it, the hooks
that ran during it, and the figures after it where these are traced. A step that runs other steps
has their records in its own.
-/

namespace AtomHeap.Session

/-- Why a step was not carried out. -/
inductive Failure
  | alloc (error : AllocError)
  | atom (error : AtomError)
  /-- The step itself makes no sense where it stands. -/
  | unusable (why : String)
  deriving DecidableEq, Repr

/-- The figures of a heap, and of the table on it if there is one. -/
structure Snapshot where
  table : Option TableStat
  heap : HeapStat
  deriving DecidableEq, Repr

mutual

/-- The answer of a step. -/
inductive Answer
  | done
  | number (n : Nat)
  | numbers (ns : List Nat)
  | someNumber (n : Option Nat)
  | truth (b : Bool)
  /-- Which of some atoms are live. -/
  | live (which : List Bool)
  /-- Whether the monitor ran before it was started, meanwhile, and after it was stopped. -/
  | monitorRan (at? : List Bool)
  | mutator (id : MutatorId)
  | bytes (bytes : List UInt8)
  | text (text : String)
  | block (place : Heap.Place)
  /-- An atom, whether it is new where that is known, and where its bytes lie. -/
  | interned (atom : Atom) (isNew : Option Bool) (place : Option Heap.Place)
  | atoms (atoms : List Atom)
  | someAtom (atom : Option Atom)
  | info (info : AtomInfo)
  | blobType (type : Option BlobType)
  | blobNames (names : List (BlobId × String))
  | heapStat (stat : HeapStat)
  | poolStat (pool : PoolStat) (heapInUse : Nat)
  | tableStat (stat : TableStat)
  | metrics (metrics : Metrics)
  | config (config : Config)
  | outcome (outcome : Outcome)
  /-- The records of steps run within the step. -/
  | records (records : List Record)
  /-- How many rounds of a series were done in full, the answers of their first steps where these
  are told, and why the series ended early if it did. -/
  | series (kind : SeriesKind) (done : Nat) (answers : List Answer) (failure : Option Failure)

/-- What came of a step. -/
inductive Record
  /-- The answer; the scripts that ran for reports of roots, in the order in which they ended, under
  the names of their mutators; the hooks that ran; and the figures after the step. -/
  | mk (answer : Except Failure Answer) (reports : List (String × List Record))
      (hooks : List HookCall) (snapshot : Option Snapshot)

end

end AtomHeap.Session
