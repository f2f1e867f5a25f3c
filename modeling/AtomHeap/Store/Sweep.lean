import AtomHeap.Store.Basic
/-!
# Giving memory back

The sweep of a store hands the blocks of the atoms it destroys back to the table's pool. Closing a
store hands back the blocks of all atoms, and then the pool.
-/

namespace AtomHeap.Store

def freeBlocks (heap : Heap) (pool : PoolId) : List (Address × Nat) → Except Fault Heap
  | [] => .ok heap
  | (block, size) :: rest => do freeBlocks (← heap.freeLocal pool block size) pool rest

/-- Sweeps the table. The answer is how many atoms were destroyed. -/
def sweep : Store → Except Fault (Nat × Store)
  | ⟨heap, table, calls⟩ => do
    let (swept, table) ← table.sweep
    let heap ← freeBlocks heap table.pool swept.freed.toList
    return (swept.destroyed.size, ⟨heap, table, calls ++ swept.calls.map .released⟩)

def blocks (s : Store) : List (Address × Nat) :=
  s.table.slots.toList.filterMap fun slot => slot.entry.bind (·.payload.block?)

def close (s : Store) : Except Fault Heap := do
  (← freeBlocks s.heap s.table.pool s.blocks).closePool s.table.pool

end AtomHeap.Store
