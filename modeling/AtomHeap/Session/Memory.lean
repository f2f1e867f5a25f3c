import AtomHeap.Session.State
/-!
# Memory steps
-/

namespace AtomHeap.Session

def orFailAlloc {α : Type} : Except AllocError α → SessionM α
  | .ok a => pure a
  | .error e => throw (.alloc e)

def allocBy (readRoots : MutatorId → SessionM (List Atom)) (actor : Actor) (size : Nat) :
    SessionM (Except AllocError Address) :=
  match actor with
  | .none => onHeap (·.alloc none size)
  | .pool id => onHeap (·.alloc (some id) size)
  | .mutator id => System.allocFrom readRoots id size

def poolOfActor : Actor → SessionM (Option PoolId)
  | .none => pure none
  | .pool id => pure (some id)
  | .mutator id => ask fun s => return some (← s.mutator id).pool

def dropPool (id : PoolId) : SessionM Unit := onHeap fun h => return ((), ← h.closePool id)

/-- Saves a block under a name, if there is one. -/
def saveBlock (as : Option String) (block : Address) (size : Nat) : SessionM Unit :=
  match as with
  | some name => onBook fun b => { b with blocks := b.blocks.insert name (block, size) }
  | none => pure ()

/-- Whether a table or a pool of its own stands on the heap. -/
def inUse : SessionM Bool := fun
  | ⟨.system system, book⟩ => .ok (.ok true, ⟨.system system, book⟩)
  | ⟨.heap heap, book⟩ => .ok (.ok !book.pools.isEmpty, ⟨.heap heap, book⟩)

def MemoryStep.perform (readRoots : MutatorId → SessionM (List Atom)) :
    MemoryStep → SessionM Answer
  | .openPool as => do
    let id ← onHeap fun h => return h.openPool
    let old := (← book).pools.lookup as
    onBook fun b => { b with pools := (as, id) :: b.pools.filter (·.1 ≠ as) }
    if let some old := old then dropPool old
    return .done
  | .closePool pool => do
    let id ← poolOf pool
    onBook fun b => { b with pools := b.pools.filter (·.1 ≠ pool) }
    dropPool id
    return .done
  | .alloc who size as => do
    let block ← orFailAlloc (← allocBy readRoots (← actorOf who) size)
    saveBlock as block size
    return .block (← askHeap fun h => return h.place block)
  | .free who block size => do
    let (address, allocated) ← blockOf block
    let pool ← poolOfActor (← actorOf who)
    onHeap fun h => return ((), ← h.free pool address (size.getD allocated))
    return .done
  | .poolStat pool sizeClass => do
    let id ← poolOf pool
    askHeap fun h => return .poolStat (← (← h.pool id).stat sizeClass) h.bytesInUse
  | .heapStat => askHeap fun h => return .heapStat h.stat
  | .globalFree sizeClasses =>
    askHeap fun h => return .numbers (← sizeClasses.mapM h.globalFreeCount)
  | .owns block offset => do
    let (address, _) ← blockOf block
    askHeap fun h => return .truth (h.owns (address.advance offset))
  | .ownsNull => askHeap fun h => return .truth (h.owns .null)
  | .setHook label => do
    onHeap fun h => return ((), h.setHook label)
    return .done
  | .destroyAll => do
    if ← inUse then unusable "something still uses the heap"
    onHeap fun h => return ((), h.destroyAll)
    onBook fun b => { b with blocks := ∅ }
    return .done

end AtomHeap.Session
