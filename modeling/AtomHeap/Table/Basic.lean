import AtomHeap.Blob.Registry
import AtomHeap.Config
import AtomHeap.Hash
import AtomHeap.Memory.Heap
import Std.Data.TreeSet.Basic
/-!
# The atom table

A table is an array of slots, each empty or holding the entry of a live atom, and a set of hash
chains through the slots in use: each entry names the slot that follows its own. A slot counts how often
it was emptied, modulo `2 ^ 24`; an atom is the index of its slot with that count, so `Table.entry` tells
a current atom from a stale one. Indices are not bounded here, and an atom has 32 bits for its own: it names one
slot as long as there are at most `2 ^ 32` of them.

Slots below the builtin boundary are never emptied. Empty slots above it are kept in a set of holes,
the lowest of which is used first.
-/

namespace AtomHeap

/-- Where bytes lie that stay unchanged at one place for good. -/
structure StaticPlace where
  /-- The bytes they are a part of. -/
  label : String
  /-- The distance from the start of those. -/
  offset : Nat
  deriving DecidableEq, Repr

/-- Bytes handed to the table, with their place if they lie where they last. -/
structure Span where
  bytes : List UInt8
  place : Option StaticPlace := none
  deriving DecidableEq, Repr

/-- The data of an atom. -/
inductive Payload
  /-- No bytes. -/
  | empty
  /-- A copy, in a block of the heap. -/
  | pooled (block : Address) (bytes : List UInt8)
  /-- The caller's own bytes. -/
  | kept (place : StaticPlace) (bytes : List UInt8)
  deriving DecidableEq, Repr

namespace Payload

def bytes : Payload → List UInt8
  | .empty => []
  | .pooled _ bytes => bytes
  | .kept _ bytes => bytes

/-- The block that a payload fills, and how many bytes of it were asked for. -/
def block? : Payload → Option (Address × Nat)
  | .pooled block bytes => some (block, bytes.length)
  | _ => none

def copied : Payload → Nat
  | .pooled _ bytes => bytes.length
  | _ => 0

/-- Whether a payload is the very bytes of a span, at their place. -/
def isAt (p : Payload) (span : Span) : Bool :=
  match p, span.place with
  | .kept place bytes, some at? => place == at? && bytes.length == span.bytes.length
  | _, _ => false

end Payload

/-- A live atom. -/
structure Entry where
  payload : Payload
  blob : BlobId
  hash : UInt64
  /-- The slot that follows on the hash chain. -/
  next : Option Nat := none
  /-- The references that callers hold. -/
  refs : Nat := 1
  /-- Whether the running cycle reached the atom. -/
  marked : Bool
  deriving DecidableEq, Repr

def Entry.withdraw (e : Entry) (id : BlobId) : Entry :=
  if e.blob = id then { e with blob := BlobId.discarded } else e

/-- A place for an atom. -/
structure Slot where
  /-- How often the slot was emptied, modulo `2 ^ 24`. -/
  generation : BitVec 24 := 0
  entry : Option Entry := none
  deriving DecidableEq, Repr

def Slot.atom (s : Slot) (index : Nat) : Atom := ⟨.ofNat index, s.generation⟩

/-- Atoms, their hash chains, and when to collect them. -/
structure Table where
  /-- The first slot of each hash chain, the one that was linked last. -/
  chains : Array (Option Nat)
  slots : Array Slot := #[]
  /-- The empty slots at or above the builtin boundary. -/
  holes : Std.TreeSet Nat := ∅
  /-- The number of live atoms. -/
  count : Nat := 0
  /-- Slots below this index are never emptied. -/
  builtin : Nat := 0
  /-- The live atoms left by the last cycle. -/
  nonGarbage : Nat := 0
  /-- The bytes of all copied payloads. -/
  bytes : Nat := 0
  /-- Whether a cycle is marking; then every atom touched is marked. -/
  marking : Bool := false
  /-- Whether a cycle was asked for. -/
  requested : Bool := false
  blobs : BlobRegistry := .initial
  /-- Decides for types without a release hook, with how often it was asked. -/
  fallback : Option (ReleaseHook × Nat) := none
  agcEnabled : Bool
  margin : Nat
  /-- The pool that the copies of payloads come from. -/
  pool : PoolId

namespace Table

/-- A table without atoms that takes its memory from a pool. -/
def empty (config : Config) (pool : PoolId) : Table :=
  { chains := Array.replicate config.atomBuckets.toNat none
    agcEnabled := config.agcEnabled
    margin := config.agcMargin.toNat
    pool }

/-- The most hash chains that memory has room for. -/
def maxChains : Nat := UInt32.size

def entry (t : Table) (a : Atom) : Except AtomError Entry :=
  match t.slots[a.index.toNat]? with
  | none => .error .unknownAtom
  | some s =>
    if s.generation = a.generation then
      match s.entry with
      | some e => .ok e
      | none => .error .stale
    else .error .stale

def isLive (t : Table) (a : Atom) : Bool := (t.entry a).isOk

def setEntry (t : Table) (index : Nat) (e : Option Entry) : Table :=
  { t with slots := t.slots.modify index fun s => { s with entry := e } }

/-! ## What can be asked about an atom -/

def bytesOf (t : Table) (a : Atom) : Except AtomError (List UInt8) := do
  return (← t.entry a).payload.bytes

def blobOf (t : Table) (a : Atom) : Except AtomError BlobId := do return (← t.entry a).blob

def refsOf (t : Table) (a : Atom) : Except AtomError Nat := do return (← t.entry a).refs

/-! ## When to collect -/

/-- Whether the live atoms outnumber those left by the last cycle by more than the margin. -/
def shouldCollect (t : Table) : Except Fault Bool :=
  if t.agcEnabled then do return t.count > (← checkedAdd t.nonGarbage t.margin)
  else .ok false

/-- Asks for a cycle. The answer is whether none had been asked for before. -/
def requestCollection (t : Table) : Bool × Table :=
  if t.agcEnabled then (!t.requested, { t with requested := true }) else (false, t)

/-- Lets the next request wait for another margin of new atoms. -/
def postpone (t : Table) : Table := { t with nonGarbage := t.count }

def lockAtoms (t : Table) : Table :=
  { t with
    builtin := t.slots.size
    nonGarbage := t.count
    holes := t.holes.filter (t.slots.size ≤ ·) }

/-! ## Blob types -/

def registerBlob (t : Table) (type : BlobType) : Except AtomError (BlobId × Table) := do
  let (id, blobs) ← t.blobs.register type
  return (id, { t with blobs })

/-- Takes a blob type out of use; its atoms get the discarded type. -/
def unregisterBlob (t : Table) (id : BlobId) : Except AtomError Table := do
  let blobs ← t.blobs.unregister id
  return { t with blobs, slots := t.slots.map fun s => { s with entry := s.entry.map (·.withdraw id) } }

/-- Sets the hook that decides for types without a release hook. -/
def setFallback (t : Table) (hook : ReleaseHook) : Table := { t with fallback := some (hook, 0) }

end Table

end AtomHeap
