/-!
# Request sizes and size classes

Every block starts at a multiple of `alignment` bytes and is a multiple of it long. A request is
rounded up to such a length. Rounded requests up to a ceiling are served from size classes: class
`c` holds the blocks of `c * alignment` bytes. Longer ones are big.
-/

namespace AtomHeap

/-- Blocks start at, and are as long as, a multiple of this many bytes. -/
def alignment : Nat := 16

/-- The longest request that can be served: rounded up, it is still a signed 64-bit length. -/
def maxRequest : Nat := UInt64.size / 2 - 1 - (alignment - 1)

/-- Why a request for memory was not served. -/
inductive AllocError
  /-- Nothing was asked for, or more than any memory can hold. -/
  | badRequest
  /-- The system did not give the memory. -/
  | outOfMemory
  deriving DecidableEq, Repr

def AllocError.message : AllocError → String
  | .badRequest => "bad allocation request"
  | .outOfMemory => "out of memory"

/-- The length of the block that serves a request. -/
def roundUp (size : Nat) : Except AllocError Nat :=
  if 1 ≤ size ∧ size ≤ maxRequest then
    .ok ((size + (alignment - 1)) / alignment * alignment)
  else .error .badRequest

/-- Where the block for a request comes from. -/
inductive SizeClass
  /-- The free list of this number. -/
  | fast (index : Nat)
  /-- A chunk of its own. -/
  | big
  deriving DecidableEq, Repr

namespace SizeClass

def blockSize (index : Nat) : Nat := index * alignment

/-- How many classes serve requests up to the ceiling `allocFast`; class 0 stays empty. -/
def count (allocFast : Nat) : Nat := allocFast / alignment + 1

/-- The most classes for which memory has room in a pool. -/
def maxCount : Nat := UInt32.size

/-- The class that serves a request, where rounded requests up to `allocFast` bytes are fast. -/
def ofSize (size allocFast : Nat) : Except AllocError SizeClass :=
  match roundUp size with
  | .error e => .error e
  | .ok rounded => .ok (if rounded ≤ allocFast then .fast (rounded / alignment) else .big)

end SizeClass

end AtomHeap
