import AtomHeap.Memory.Heap
/-!
# Taking blocks back

A freed block goes on the shelf of its class, in whatever pool takes it back. A local pool whose
list grows past the limit gives the half freed last to the shared pool. The chunk of a big block
goes back to the system.

The caller says how long the block is. A length that no block can have, and a big length where no
big block of that length starts, break the contract of `free`.
-/

namespace AtomHeap.Heap

/-- Returns the chunk of a big block to the system. -/
def freeBig (h : Heap) (b : Address) (size : Nat) : Except Fault Heap :=
  match b, roundUp size with
  | ⟨.big number, 0⟩, .ok rounded =>
    if h.chunkLength? (.big number) = some rounded then
      .ok { h with
        big := h.big.setIfInBounds number none
        reserved := h.reserved - rounded
        bytesInUse := h.bytesInUse - rounded }
    else .error .brokenContract
  | _, _ => .error .brokenContract

def takeBack (h : Heap) (p : Pool) (c : Nat) (b : Address) : Except Fault (Pool × Heap) := do
  let p ← (← p.push c b).count c (-1)
  return (p, { h with bytesInUse := h.bytesInUse - SizeClass.blockSize c })

def freeGlobal (h : Heap) (b : Address) (size : Nat) : Except Fault Heap :=
  match SizeClass.ofSize size h.limits.allocFast with
  | .error _ => .error .brokenContract
  | .ok .big => h.freeBig b size
  | .ok (.fast c) => do
    let (p, h) := h.takeGlobal
    let (p, h) ← h.takeBack p c b
    return { h with global := p }

/-- Gives the topmost half of a local pool's list of a class to the shared pool, if the list is
longer than the limit. -/
def spill (h : Heap) (p : Pool) (c : Nat) : Except Fault (Pool × Heap) := do
  let length ← p.freeCount c
  if length > h.limits.localFreeMax then
    let (top, p) ← p.splitTop c (length / 2)
    let (global, h) := h.takeGlobal
    return (p, { h with global := ← global.append c top })
  else return (p, h)

def freeLocal (h : Heap) (id : PoolId) (b : Address) (size : Nat) : Except Fault Heap :=
  match SizeClass.ofSize size h.limits.allocFast with
  | .error _ => .error .brokenContract
  | .ok .big => h.freeBig b size
  | .ok (.fast c) => do
    let (p, h) ← h.takeOut id
    let (p, h) ← h.takeBack p c b
    let (p, h) ← h.spill p c
    return h.putBack id p

/-- Frees a block into a local pool, or into the shared one. -/
def free (h : Heap) (into? : Option PoolId) (b : Address) (size : Nat) : Except Fault Heap :=
  match into? with
  | some id => h.freeLocal id b size
  | none => h.freeGlobal b size

end AtomHeap.Heap
