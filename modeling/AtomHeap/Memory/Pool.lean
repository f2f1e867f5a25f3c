import AtomHeap.Fault
import AtomHeap.Memory.FreeList
import AtomHeap.Memory.Size
/-!
# Pools

A pool has one shelf for each size class, holding the free blocks of that class and how many blocks
the pool has in use, and a bump space, a region from whose front new blocks are carved. A block may
be freed into another pool than the one that served it, so a shelf's count can be negative.
-/

namespace AtomHeap

/-- What a pool keeps for one size class. -/
structure Shelf where
  free : FreeList := {}
  /-- Blocks served less blocks taken back. -/
  inUse : Int := 0
  deriving DecidableEq, Repr, Inhabited

/-- Free blocks by size class, and a space to carve new ones from. -/
structure Pool where
  shelves : Array Shelf
  space : Option Region := none
  deriving DecidableEq, Repr

namespace Pool

/-- A pool that holds nothing, for requests up to `allocFast` bytes. -/
def empty (allocFast : Nat) : Pool :=
  { shelves := Array.replicate (SizeClass.count allocFast) {} }

/-- A pool that holds nothing, if memory has room for its shelves. -/
def create (allocFast : Nat) : Except Fault Pool :=
  if SizeClass.count allocFast ≤ SizeClass.maxCount then .ok (empty allocFast)
  else .error .exhausted

def shelf (p : Pool) (c : Nat) : Except Fault Shelf :=
  match p.shelves[c]? with
  | some s => .ok s
  | none => .error .indexOutOfRange

def setShelf (p : Pool) (c : Nat) (s : Shelf) : Pool :=
  { p with shelves := p.shelves.setIfInBounds c s }

/-- How many free blocks of a class the pool holds. -/
def freeCount (p : Pool) (c : Nat) : Except Fault Nat := do return (← p.shelf c).free.length

/-- How many more blocks of a class the pool served than it took back. -/
def inUse (p : Pool) (c : Nat) : Except Fault Int := do return (← p.shelf c).inUse

def spaceLeft (p : Pool) : Nat :=
  match p.space with
  | some r => r.length
  | none => 0

/-- Takes the topmost free block of a class, if there is one. -/
def pop (p : Pool) (c : Nat) : Except Fault (Option Address × Pool) := do
  let s ← p.shelf c
  match s.free.pop? with
  | some (b, free) => return (some b, p.setShelf c { s with free })
  | none => return (none, p)

def push (p : Pool) (c : Nat) (b : Address) : Except Fault Pool := do
  let s ← p.shelf c
  return p.setShelf c { s with free := s.free.push b }

/-- Changes the number of blocks of a class in use. -/
def count (p : Pool) (c : Nat) (change : Int) : Except Fault Pool := do
  let s ← p.shelf c
  return p.setShelf c { s with inUse := s.inUse + change }

/-- Takes up to `n` of the topmost free blocks of a class. -/
def splitTop (p : Pool) (c n : Nat) : Except Fault (FreeList × Pool) := do
  let s ← p.shelf c
  let (taken, free) := s.free.splitTop n
  return (taken, p.setShelf c { s with free })

/-- Puts free blocks of a class on top of those the pool has. -/
def append (p : Pool) (c : Nat) (top : FreeList) : Except Fault Pool := do
  let s ← p.shelf c
  return p.setShelf c { s with free := s.free.append top }

/-- Carves `size` bytes from the front of the bump space, if it is that long. -/
def carve? (p : Pool) (size : Nat) : Option (Address × Pool) :=
  match p.space with
  | none => none
  | some r =>
    if r.length < size then none
    else some (r.start, { p with space := some ⟨r.start.advance size, r.length - size⟩ })

/-- Takes what is left of the bump space, if anything is. -/
def takeSpace (p : Pool) : Option Region × Pool :=
  match p.space with
  | none => (none, p)
  | some r => (if r.length = 0 then none else some r, { p with space := none })

/-- Gives up the bump space. What is left of it, less a tail shorter than `alignment`, becomes a
free block of its own where it is short enough for one; otherwise it is handed back. -/
def retire (p : Pool) (allocFast : Nat) : Except Fault (Option Region × Pool) :=
  match p.takeSpace with
  | (none, p) => .ok (none, p)
  | (some r, p) =>
    let length := r.length - r.length % alignment
    if length = 0 then .ok (none, p)
    else
      match SizeClass.ofSize length allocFast with
      | .ok (.fast c) => do return (none, ← p.push c r.start)
      | _ => .ok (some { r with length }, p)

/-- Puts the shelves of `p` on top of those of `q`, class by class. -/
def merge (p q : Pool) : Pool :=
  { q with
    shelves := q.shelves.zipWith (fun old new =>
      ⟨old.free.append new.free, old.inUse + new.inUse⟩) p.shelves }

/-- Forgets all blocks, counts and the bump space. -/
def reset (p : Pool) : Pool := { shelves := p.shelves.map fun _ => {} }

end Pool

end AtomHeap
