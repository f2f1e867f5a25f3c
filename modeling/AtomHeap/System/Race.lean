import AtomHeap.System.Mutator
/-!
# Racing interns

Several threads intern the same names. Which thread makes an atom depends on the schedule, and so do
the slots; how many atoms there are, their references and their text do not. Here the threads run
one after another.
-/

namespace AtomHeap.System

/-- What came of interning one name by all threads. -/
structure RacedName where
  /-- How many of the interns made an atom. -/
  winners : Nat
  /-- Whether all of them gave the same atom. -/
  agree : Bool
  /-- The references to it in the end. -/
  refs : Nat
  /-- The text of the atom. -/
  text : String
  deriving DecidableEq, Repr

/-- A thread attaches, interns names as text in order, and leaves. -/
def raceThread (thread : ThreadId) (names : List String) :
    StateT System (Except Fault) (Array Interned) := do
  let id ← modifyGet (·.attach thread)
  let results ← names.toArray.mapM fun name => do
    match ← internFrom readStack id { bytes := Text.utf8Bytes name } BlobId.text with
    | .ok interned => return interned
    | .error _ => throw Fault.brokenContract
  onSystem fun s => return ((), ← s.detach id)
  return results

/-- What came of interning the name at one place of the list, given what it gave each thread. -/
def raced (s : System) (results : List Interned) : RacedName :=
  let atoms := results.map (·.atom)
  let first := atoms.headD default
  { winners := results.countP (·.isNew)
    agree := atoms.all (· == first)
    refs := (s.store.table.refsOf first).toOption.getD 0
    text := (s.store.stringOf first).toOption.getD "" }

/-- Lets some threads intern the same names, one after another. -/
def race (s : System) (threads : Nat) (names : List String) :
    Except Fault (List RacedName × System) := do
  let (byThread, s) ← ((List.range threads).mapM fun thread => raceThread thread names) |>.run s
  let byName := (List.range names.length).map fun i => byThread.filterMap (·[i]?)
  return (byName.map s.raced, s)

end AtomHeap.System
