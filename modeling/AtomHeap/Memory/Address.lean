/-!
# Addresses

Memory comes from the system in chunks. A byte is addressed by its chunk and its offset in that.
Chunks are numbered from 0 in the order in which they were obtained, those that small blocks are
carved from and those of big blocks each on their own, and no number is used twice. So addresses in
different chunks never meet, and the null address meets none.
-/

namespace AtomHeap

/-- The identity of a chunk. -/
inductive ChunkId
  /-- No chunk: that of the null address. -/
  | nowhere
  /-- The carving chunk of this number. -/
  | carving (number : Nat)
  /-- The chunk of the big block of this number. -/
  | big (number : Nat)
  deriving DecidableEq, Repr, Inhabited

/-- The place of a byte. -/
structure Address where
  chunk : ChunkId
  /-- The distance from the start of the chunk. -/
  offset : Nat
  deriving DecidableEq, Repr, Inhabited

def Address.null : Address := ⟨.nowhere, 0⟩

def Address.advance (a : Address) (n : Nat) : Address := { a with offset := a.offset + n }

def ChunkId.start (c : ChunkId) : Address := ⟨c, 0⟩

/-- A stretch of bytes within one chunk. -/
structure Region where
  start : Address
  length : Nat
  deriving DecidableEq, Repr

end AtomHeap
