import AtomHeap.Memory.Heap
/-!
# Figures of a heap

What a heap and a local pool report about themselves.
-/

namespace AtomHeap

/-- The figures of a heap. -/
structure HeapStat where
  bytesInUse : Nat
  reserved : Nat
  chunks : Nat
  allocFast : Nat
  localFreeMax : Nat
  deriving DecidableEq, Repr

def Heap.stat (h : Heap) : HeapStat :=
  { bytesInUse := h.bytesInUse
    reserved := h.reserved
    chunks := h.chunkCount
    allocFast := h.limits.allocFast
    localFreeMax := h.limits.localFreeMax }

/-- The figures of a pool for one size class. -/
structure PoolStat where
  free : Nat
  /-- Blocks served less blocks taken back. -/
  inUse : Int
  /-- The bytes left to carve from. -/
  space : Nat
  deriving DecidableEq, Repr

def Pool.stat (p : Pool) (c : Nat) : Except Fault PoolStat := do
  return { free := ← p.freeCount c, inUse := ← p.inUse c, space := p.spaceLeft }

end AtomHeap
