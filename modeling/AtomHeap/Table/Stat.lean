import AtomHeap.Table.Basic
/-!
# Figures of an atom table

What a table reports about itself and about one atom.
-/

namespace AtomHeap

/-- The figures of a table. -/
structure TableStat where
  count : Nat
  builtin : Nat
  chains : Nat
  bytes : Nat
  nonGarbage : Nat
  agcEnabled : Bool
  requested : Bool
  shouldCollect : Bool
  deriving DecidableEq, Repr

def Table.stat (t : Table) : Except Fault TableStat := do
  return {
    count := t.count
    builtin := t.builtin
    chains := t.chains.size
    bytes := t.bytes
    nonGarbage := t.nonGarbage
    agcEnabled := t.agcEnabled
    requested := t.requested
    shouldCollect := ← t.shouldCollect }

/-- What a table says about a handle. -/
structure AtomInfo where
  atom : Atom
  live : Bool
  refs : Except AtomError Nat
  blob : Except AtomError BlobId
  length : Except AtomError Nat

def Table.info (t : Table) (a : Atom) : AtomInfo :=
  { atom := a
    live := t.isLive a
    refs := t.refsOf a
    blob := t.blobOf a
    length := (t.bytesOf a).map List.length }

end AtomHeap
