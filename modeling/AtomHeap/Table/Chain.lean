import AtomHeap.Table.Basic
/-!
# Hash chains

The slot of each live atom is on the chain that its hash selects. A chain starts at the slot that
the table keeps for it and goes on from each slot to the one that its entry names. New slots go in
front of their chain. When there are more than twice as many atoms as chains, the number of chains
is doubled and all slots are linked anew, in the order of their indices.

A walk along a chain is given as many steps as there are slots. One that takes more has come to some
slot twice and would not end.
-/

namespace AtomHeap.Table

/-- The number of the chain of a hash, and its first slot. -/
def chainOf (t : Table) (hash : UInt64) : Except Fault (Nat × Option Nat) := do
  let number ← Hash.chain hash t.chains.size
  match t.chains[number]? with
  | some first => return (number, first)
  | none => throw .indexOutOfRange

def slot (t : Table) (index : Nat) : Except Fault Slot :=
  match t.slots[index]? with
  | some s => .ok s
  | none => .error .indexOutOfRange

/-- Whether an entry is the atom of a type for a span. Types that do not copy want the very same
bytes in memory. -/
def isFor (e : Entry) (hash : UInt64) (span : Span) (blob : BlobId) (nocopy : Bool) : Bool :=
  e.hash == hash && e.blob == blob &&
    if nocopy then e.payload.isAt span else e.payload.bytes == span.bytes

/-- The first slot from some slot on whose entry passes; an empty slot ends the search. -/
def search (t : Table) (pass : Entry → Bool) : Nat → Option Nat → Except Fault (Option Nat)
  | _, none => .ok none
  | 0, some _ => .error .endless
  | steps + 1, some index => do
    match (← t.slot index).entry with
    | none => return none
    | some e => if pass e then return some index else t.search pass steps e.next

/-- The slot of the atom of a type for a span, if there is one. -/
def find (t : Table) (hash : UInt64) (span : Span) (blob : BlobId) (nocopy : Bool) :
    Except Fault (Option Nat) := do
  let (_, first) ← t.chainOf hash
  t.search (isFor · hash span blob nocopy) t.slots.size first

def setFirst (t : Table) (number : Nat) (first : Option Nat) : Table :=
  { t with chains := t.chains.modify number fun _ => first }

/-- Puts an entry into a slot, and the slot in front of the chain of its hash. -/
def link (t : Table) (index : Nat) (e : Entry) : Except Fault Table := do
  let (number, first) ← t.chainOf e.hash
  return (t.setEntry index (some { e with next := first })).setFirst number (some index)

/-- Lets the slot that a slot follows, from some slot on, be followed by the one after instead. -/
def bypass (t : Table) (index : Nat) (next : Option Nat) : Nat → Option Nat → Except Fault Table
  | _, none => .error .brokenContract
  | 0, some _ => .error .endless
  | steps + 1, some i => do
    match (← t.slot i).entry with
    | none => .error .brokenContract
    | some e =>
      if e.next = some index then return t.setEntry i (some { e with next })
      else t.bypass index next steps e.next

/-- Takes the slot of an entry off the chain of its hash, on which it has to be. -/
def unlink (t : Table) (index : Nat) (e : Entry) : Except Fault Table := do
  let (number, first) ← t.chainOf e.hash
  if first = some index then return t.setFirst number e.next
  else t.bypass index e.next t.slots.size first

/-- Links those of some slots that are in use, in order. -/
def linkAll (t : Table) : List Nat → Except Fault Table
  | [] => .ok t
  | index :: rest => do
    match (← t.slot index).entry with
    | none => t.linkAll rest
    | some e => (← t.link index e).linkAll rest

/-- Doubles the number of chains and links all slots in use anew. -/
def grow (t : Table) : Except Fault Table := do
  let size ← checkedDouble t.chains.size
  { t with chains := Array.replicate size none }.linkAll (List.range t.slots.size)

/-- Doubles the number of chains if there are more than twice as many atoms. -/
def growIfFull (t : Table) : Except Fault Table := do
  if t.count > (← checkedDouble t.chains.size) then t.grow else return t

end AtomHeap.Table
