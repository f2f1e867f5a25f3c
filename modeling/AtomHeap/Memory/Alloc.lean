import AtomHeap.Memory.Heap
/-!
# Serving requests

A fast request is served from the shelf of its class, else carved from the bump space of the pool,
else the pool is refilled: a local pool takes a batch of blocks from the shared pool; where there
are none, the pool gives up its bump space for a left-over region or a new chunk.
-/

namespace AtomHeap

/-- The most blocks that a local pool takes from the shared pool at a time. -/
def refillBatch : Nat := 64

/-- The first region of at least `min` bytes, and the others with the last one in its place. -/
def Region.takeFirst? (regions : List Region) (min : Nat) : Option (Region × List Region) :=
  match regions.findIdx? (min ≤ ·.length) with
  | none => none
  | some i =>
    match regions[i]?, regions.getLast? with
    | some r, some last => some (r, (regions.set i last).dropLast)
    | _, _ => none

namespace Heap

/-- A region of at least `min` bytes to carve from: a left-over one, or else a new chunk. -/
def newSpace (h : Heap) (min : Nat) : Except Fault (Except AllocError Region × Heap) :=
  match Region.takeFirst? h.leftOver min with
  | some (r, leftOver) => .ok (.ok r, { h with leftOver })
  | none => do
    let length := max h.limits.chunkSize min
    match ← h.obtain length with
    | (.error e, h) => return (.error e, h)
    | (.ok (), h) =>
      let chunk : ChunkId := .carving (h.firstCarving + h.carving.size)
      return (.ok ⟨chunk.start, length⟩, { h with carving := h.carving.push length })

/-- Gives up the bump space of a pool for another one and carves the first block from that. -/
def carveAnew (h : Heap) (p : Pool) (size : Nat) :
    Except Fault (Except AllocError Address × Pool × Heap) := do
  let (remainder, p) ← p.retire h.limits.allocFast
  let h := { h with leftOver := h.leftOver ++ remainder.toList }
  match ← h.newSpace size with
  | (.error e, h) => return (.error e, p, h)
  | (.ok r, h) =>
    match { p with space := some r }.carve? size with
    | some (b, p) => return (.ok b, p, h)
    | none => return (.error .outOfMemory, { p with space := some r }, h)

/-- A block of class `c` for the local pool `p`, which has none free and no room to carve one: the
topmost of a batch from the shared pool, the rest of which `p` keeps. -/
def refill (h : Heap) (p : Pool) (c : Nat) :
    Except Fault (Except AllocError Address × Pool × Heap) := do
  let (global, h) := h.takeGlobal
  let (batch, global) ← global.splitTop c refillBatch
  let h := { h with global }
  match batch.pop? with
  | some (b, rest) => return (.ok b, ← p.append c rest, h)
  | none => h.carveAnew p (SizeClass.blockSize c)

/-- A block of class `c` from pool `p`; `more` is what the pool does when it has none. -/
def serve (h : Heap) (p : Pool) (c : Nat)
    (more : Heap → Pool → Except Fault (Except AllocError Address × Pool × Heap)) :
    Except Fault (Except AllocError Address × Pool × Heap) := do
  let (answer, p, h) ←
    match ← p.pop c with
    | (some b, p) => pure (.ok b, p, h)
    | (none, p) =>
      match p.carve? (SizeClass.blockSize c) with
      | some (b, p) => pure (.ok b, p, h)
      | none => more h p
  match answer with
  | .error e => return (.error e, p, h)
  | .ok b =>
    return (.ok b, ← p.count c 1, { h with bytesInUse := h.bytesInUse + SizeClass.blockSize c })

def allocBig (h : Heap) (size : Nat) : Except Fault (Except AllocError Address × Heap) :=
  match roundUp size with
  | .error e => .ok (.error e, h)
  | .ok rounded => do
    match ← h.obtain rounded with
    | (.error e, h) => return (.error e, h)
    | (.ok (), h) =>
      let chunk : ChunkId := .big h.big.size
      return (.ok chunk.start,
        { h with big := h.big.push (some rounded), bytesInUse := h.bytesInUse + rounded })

def allocGlobal (h : Heap) (size : Nat) : Except Fault (Except AllocError Address × Heap) :=
  match SizeClass.ofSize size h.limits.allocFast with
  | .error e => .ok (.error e, h)
  | .ok .big => h.allocBig size
  | .ok (.fast c) => do
    let (p, h) := h.takeGlobal
    let (answer, p, h) ← h.serve p c fun h p => h.carveAnew p (SizeClass.blockSize c)
    return (answer, { h with global := p })

def allocLocal (h : Heap) (id : PoolId) (size : Nat) :
    Except Fault (Except AllocError Address × Heap) :=
  match SizeClass.ofSize size h.limits.allocFast with
  | .error e => .ok (.error e, h)
  | .ok .big => h.allocBig size
  | .ok (.fast c) => do
    let (p, h) ← h.takeOut id
    let (answer, p, h) ← h.serve p c fun h p => h.refill p c
    return (answer, h.putBack id p)

/-- Allocates from a local pool, or from the shared one. -/
def alloc (h : Heap) (from? : Option PoolId) (size : Nat) :
    Except Fault (Except AllocError Address × Heap) :=
  match from? with
  | some id => h.allocLocal id size
  | none => h.allocGlobal size

end Heap

end AtomHeap
