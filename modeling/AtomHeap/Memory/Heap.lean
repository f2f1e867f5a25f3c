import AtomHeap.Config
import AtomHeap.Memory.Pool
/-!
# The heap

A heap owns the chunks obtained from the system, a shared pool, any number of local pools, and the
regions that pools left over when they gave up their bump spaces. Small blocks are carved from
carving chunks, which stay until `Heap.destroyAll`. A big block is a chunk of its own, returned to
the system as soon as it is freed.

Which requests the system grants is a parameter of the heap (`grants`), a function of the number
of the request and its length, so every pattern of refusals is one of its values.

`Heap.alloc` and `Heap.free` are in `Memory/Alloc` and `Memory/Free`.
-/

namespace AtomHeap

/-- The settings that a heap works by. -/
structure Limits where
  allocFast : Nat
  chunkSize : Nat
  localFreeMax : Nat
  deriving DecidableEq, Repr

def Config.limits (c : Config) : Limits :=
  ⟨c.allocFast.toNat, c.chunkSize.toNat, c.localFreeMax.toNat⟩

abbrev PoolId := Nat

/-- A request that the system refused, as the out-of-memory hook is told of it. -/
structure Refusal where
  /-- The name under which the hook was installed. -/
  hook : String
  /-- The length of the chunk asked for. -/
  size : Nat
  deriving DecidableEq, Repr

/-- Chunks, pools and what is left over. -/
structure Heap where
  limits : Limits
  /-- Whether the system grants its `n`-th request, one for this many bytes. -/
  grants : Nat → Nat → Bool
  /-- How many requests the system has had. -/
  asked : Nat := 0
  /-- The name of the hook to be told of refusals. -/
  hook : Option String := none
  /-- The refusals the hook was told of and that were not collected yet, in order. -/
  refusals : List Refusal := []
  /-- The pool shared by all threads. -/
  global : Pool
  /-- The pools of single threads, the one that worked last in front. -/
  locals : List (PoolId × Pool) := []
  /-- The number of the next local pool. -/
  nextPool : PoolId := 0
  /-- Regions given up by pools, to be carved from again. -/
  leftOver : List Region := []
  /-- The number of the oldest carving chunk. -/
  firstCarving : Nat := 0
  /-- The lengths of the carving chunks, the oldest first. -/
  carving : Array Nat := #[]
  /-- The lengths of the chunks of all big blocks ever served, by number; none for a chunk that was
  returned. -/
  big : Array (Option Nat) := #[]
  /-- The lengths of all chunks, added up. -/
  reserved : Nat := 0
  /-- The lengths of all blocks handed out, added up. -/
  bytesInUse : Nat := 0

namespace Heap

def empty (limits : Limits) (grants : Nat → Nat → Bool) : Heap :=
  { limits, grants, global := Pool.empty limits.allocFast }

/-- A heap that holds nothing yet, if memory has room for its shared pool. -/
def create (limits : Limits) (grants : Nat → Nat → Bool) : Except Fault Heap := do
  return { limits, grants, global := ← Pool.create limits.allocFast }

def pool (h : Heap) (id : PoolId) : Except Fault Pool :=
  match h.locals.lookup id with
  | some p => .ok p
  | none => .error .brokenContract

/-- Takes the local pool of a number out of the heap, to be worked on. -/
def takeOut (h : Heap) (id : PoolId) : Except Fault (Pool × Heap) := do
  let p ← h.pool id
  return (p, { h with locals := h.locals.eraseP (·.1 == id) })

def putBack (h : Heap) (id : PoolId) (p : Pool) : Heap :=
  { h with locals := (id, p) :: h.locals }

/-- Takes the shared pool out of the heap, to be worked on. -/
def takeGlobal (h : Heap) : Pool × Heap := (h.global, { h with global := { shelves := #[] } })

def openPool (h : Heap) : PoolId × Heap :=
  (h.nextPool,
    { h with
      locals := (h.nextPool, Pool.empty h.limits.allocFast) :: h.locals
      nextPool := h.nextPool + 1 })

/-- Closes a local pool: its blocks and counts go to the shared pool, and what is left of its bump
space to the left-over regions. -/
def closePool (h : Heap) (id : PoolId) : Except Fault Heap := do
  let (remainder, p) := (← h.pool id).takeSpace
  return { h with
    global := p.merge h.global
    leftOver := h.leftOver ++ remainder.toList
    locals := h.locals.filter (·.1 ≠ id) }

/-- Returns every chunk to the system, whatever is still in use. The local pools are left as they
are; they must not serve or take back blocks again. -/
def destroyAll (h : Heap) : Heap :=
  { h with
    global := h.global.reset
    leftOver := []
    firstCarving := h.firstCarving + h.carving.size
    carving := #[]
    big := h.big.map fun _ => none
    reserved := 0
    bytesInUse := 0 }

/-! ## What can be asked about a heap -/

def chunkCount (h : Heap) : Nat := h.carving.size + h.big.countP (·.isSome)

/-- The place of a carving chunk among those there are. -/
def carvingIndex? (h : Heap) (number : Nat) : Option Nat :=
  if h.firstCarving ≤ number then some (number - h.firstCarving) else none

def chunkLength? (h : Heap) : ChunkId → Option Nat
  | .nowhere => none
  | .carving number => (h.carvingIndex? number).bind (h.carving[·]?)
  | .big number => h.big[number]?.join

/-- Whether a big block starts at an address, or a carving chunk contains it. -/
def owns (h : Heap) (a : Address) : Bool :=
  match a.chunk, h.chunkLength? a.chunk with
  | .big _, some _ => a.offset == 0
  | _, some length => a.offset < length
  | _, none => false

/-- How many free blocks of a class the shared pool holds. -/
def globalFreeCount (h : Heap) (c : Nat) : Except Fault Nat := h.global.freeCount c

/-- Where a block lies, in terms that do not depend on how many chunks there were before. -/
inductive Place
  /-- In the carving chunk of this number, counted from 0, at this offset. -/
  | carved (chunk offset : Nat)
  /-- In a chunk of its own. -/
  | big
  deriving DecidableEq, Repr

def place (h : Heap) (a : Address) : Place :=
  match a.chunk with
  | .carving number =>
    match h.carvingIndex? number with
    | some i => .carved i a.offset
    | none => .big
  | _ => .big

/-! ## The system -/

/-- Asks the system for a chunk of some length. A length that no memory can have is a bad request.
What would take the heap past the address space is refused whatever `grants` says. A refusal goes to
the hook, and ends the run if there is none. -/
def obtain (h : Heap) (size : Nat) : Except Fault (Except AllocError Unit × Heap) :=
  if size > maxRequest then .ok (.error .badRequest, h)
  else if h.grants h.asked size && h.reserved + size < wordCount then
    .ok (.ok (), { h with asked := h.asked + 1, reserved := h.reserved + size })
  else
    match h.hook with
    | none => .error .exhausted
    | some hook =>
      .ok (.error .outOfMemory,
        { h with asked := h.asked + 1, refusals := h.refusals ++ [⟨hook, size⟩] })

/-- Installs the hook to be told of refusals, in place of the last one. -/
def setHook (h : Heap) (hook : String) : Heap := { h with hook := some hook }

end Heap

end AtomHeap
