import AtomHeap.Memory.Size
/-!
# Configuration

The settings of a heap and the atom table on it, and the conditions under which they are accepted.
-/

namespace AtomHeap

/-- The settings of a heap and an atom table. -/
structure Config where
  /-- Requests up to this many bytes, after rounding, are served from size classes. -/
  allocFast : UInt64 := 512
  /-- The length of the chunks that small blocks are carved from. -/
  chunkSize : UInt64 := 65536
  /-- A thread's free list that grows past this length gives half of itself to the shared pool. -/
  localFreeMax : UInt64 := 200
  /-- How many hash chains the table starts with. -/
  atomBuckets : UInt64 := 1024
  /-- When off, slots are never used again and no cycle runs. -/
  agcEnabled : Bool := true
  /-- A cycle is asked for once the live atoms outnumber those left by the last one by more than
  this. -/
  agcMargin : UInt64 := 10000
  /-- How many milliseconds a cycle waits for the attached threads to report their roots. -/
  markTimeout : UInt64 := 100
  /-- Whether a monitor runs from the start. -/
  monitorOn : Bool := false
  /-- How many milliseconds the monitor sleeps between two looks at the request. -/
  monitorWaitTime : UInt64 := 10
  deriving DecidableEq, Repr

/-- Why a configuration is refused. -/
inductive ConfigError
  | allocFast
  | chunkSize
  | atomBuckets
  | localFreeMax
  deriving DecidableEq, Repr

def ConfigError.message : ConfigError → String
  | .allocFast => s!"alloc_fast must be a non zero multiple of {alignment}"
  | .chunkSize => s!"chunk_size must be a multiple of {alignment} and at least alloc_fast"
  | .atomBuckets => "atom_buckets must be a power of two"
  | .localFreeMax => "local_free_max must be at least 2"

/-- Whether a number of hash chains is a power of two. -/
def isPowerOfTwo (n : Nat) : Bool := 1 <<< n.log2 == n

/-- Accepts a configuration, or names the first setting that is out of bounds. -/
def Config.check (c : Config) : Except ConfigError Unit :=
  if c.allocFast.toNat = 0 ∨ c.allocFast.toNat % alignment ≠ 0 then .error .allocFast
  else if c.chunkSize.toNat % alignment ≠ 0 ∨ c.chunkSize.toNat < c.allocFast.toNat then
    .error .chunkSize
  else if !isPowerOfTwo c.atomBuckets.toNat then .error .atomBuckets
  else if c.localFreeMax.toNat < 2 then .error .localFreeMax
  else .ok ()

/-- All settings are within their bounds. -/
structure Config.Accepted (c : Config) : Prop where
  allocFast : c.allocFast.toNat ≠ 0 ∧ c.allocFast.toNat % alignment = 0
  chunkSize : c.chunkSize.toNat % alignment = 0 ∧ c.allocFast.toNat ≤ c.chunkSize.toNat
  atomBuckets : isPowerOfTwo c.atomBuckets.toNat = true
  localFreeMax : 2 ≤ c.localFreeMax.toNat

theorem Config.check_eq_ok_iff {c : Config} : c.check = .ok () ↔ c.Accepted := by
  constructor
  · intro h
    unfold check at h
    split at h
    · cases h
    · split at h
      · cases h
      · split at h
        · cases h
        · split at h
          · cases h
          · rename_i hfast hchunk hbuckets hmax
            exact ⟨by simpa using hfast, by simpa using hchunk, by simpa using hbuckets, Nat.le_of_not_lt hmax⟩
  · rintro ⟨hfast, hchunk, hbuckets, hmax⟩
    simp [check, hfast, hchunk, hbuckets, Nat.not_lt.2 hmax]

theorem isPowerOfTwo_iff {n : Nat} : isPowerOfTwo n = true ↔ ∃ k, n = 1 <<< k := by
  simp only [isPowerOfTwo, beq_iff_eq]
  constructor
  · exact fun h => ⟨_, h.symm⟩
  · rintro ⟨k, rfl⟩
    simp only [Nat.one_shiftLeft, Nat.log2_two_pow]

end AtomHeap
