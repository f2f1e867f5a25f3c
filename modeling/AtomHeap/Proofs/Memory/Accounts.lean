import AtomHeap.Proofs.Memory.Tallies
/-!
# The accounts of a heap

What a heap says of itself, how many bytes are in use and reserved, how many chunks it has and how many
blocks of each class are handed out, is exact after any requests: `accounts_exact`. That there are no more
bytes in use than reserved is not a matter of the counters alone. It takes that each byte has one owner.
-/

namespace AtomHeap.Heap

variable {limits : Limits} {grants : Nat → Nat → Bool} {h : Heap} {out : List Region} {r : Region} {c : Nat}

/-- The shared pool and the local ones. -/
def pools (h : Heap) : List Pool := h.global :: h.locals.map (·.2)

theorem Shaped.sound_of_mem_pools {p : Pool} (hs : Shaped limits h) (hp : p ∈ h.pools) :
    p.Sound h.limits.allocFast := by
  rcases List.mem_cons.1 hp with rfl | hp
  · exact hs.global
  · obtain ⟨x, hx, rfl⟩ := List.mem_map.1 hp
    exact hs.locals x hx

/-- What a heap counts, where its callers have the blocks `out`. -/
structure Accounted (h : Heap) (out : List Region) : Prop where
  bytes_in_use : h.bytesInUse = total out
  /-- What the pools count of a class, some of it less than nothing, adds up to its blocks. -/
  in_use : ∀ c < SizeClass.count h.limits.allocFast, ∃ counts : List Int,
    h.pools.mapM (·.inUse c) = .ok counts ∧ counts.sum = out.countP (·.length = SizeClass.blockSize c)
  reserved : h.reserved = total h.chunks
  chunk_count : h.chunkCount = h.chunks.length
  /-- The big chunks are the blocks too long for a class, neither more nor fewer. -/
  big : h.bigChunks.Perm (out.filter (h.limits.allocFast < ·.length))
  /-- What is reserved and not in use is there to be served. -/
  unused : h.reserved = h.bytesInUse + total (h.freeBlocks ++ h.spaces ++ h.leftOver)
  in_use_le : h.bytesInUse ≤ h.reserved
  all_freed : out = [] → h.bytesInUse = 0

theorem pools_inUse (ho : Owned limits h out) (hc : c < SizeClass.count h.limits.allocFast) :
    h.pools.mapM (·.inUse c) = .ok (h.pools.map (·.tally c)) := by
  have hsound : ∀ p ∈ h.pools, p.Sound h.limits.allocFast := fun p hp => ho.shaped.sound_of_mem_pools hp
  generalize h.pools = pools at hsound
  induction pools with
  | nil => rfl
  | cons p pools ih =>
    rw [List.mapM_cons, Pool.inUse_eq (hsound p (.head _)) hc, ih fun q hq => hsound q (.tail _ hq)]
    rfl

theorem sum_pools (h : Heap) (c : Nat) : (h.pools.map (·.tally c)).sum = h.tally c := by
  rw [pools, List.map_cons, List.sum_cons, List.map_map]
  rfl

theorem nodup_bigChunks (h : Heap) : h.bigChunks.Nodup := by
  have hids : ((List.range h.big.size).map ChunkId.big).Nodup := List.nodup_range.map fun _ _ => ChunkId.big.inj
  refine hids.filterMap fun k l r hk hl => ?_
  obtain ⟨_, -, rfl⟩ := Option.map_eq_some_iff.1 hk
  obtain ⟨_, -, hr⟩ := Option.map_eq_some_iff.1 hl
  exact congrArg (·.start.chunk) hr.symm

/-- The big chunks are the big blocks in the hands of callers. -/
theorem Owned.bigChunks_perm (ho : Owned limits h out) :
    h.bigChunks.Perm (out.filter (h.limits.allocFast < ·.length)) := by
  refine (List.perm_ext_iff_of_nodup (nodup_bigChunks h) (ho.nodup.filter _)).2 fun r => ?_
  rw [mem_bigChunks, List.mem_filter, decide_eq_true_eq]
  constructor
  · rintro ⟨n, hstart, hlen⟩
    have hr : r ∈ out := by
      have := ho.big n r.length hlen
      rwa [← hstart] at this
    refine ⟨hr, Nat.lt_of_not_le fun hle => ?_⟩
    -- A block of a size class would be in a carving chunk.
    obtain ⟨m, hm⟩ := (ho.handed r hr).fast hle
    rw [hstart] at hm
    cases hm
  · rintro ⟨hr, hlt⟩
    exact (ho.handed r hr).big hlt

/-- Every byte of a chunk is in use or can be served. -/
theorem Owned.total_chunks (ho : Owned limits h out) :
    total h.chunks = total out + total (h.freeBlocks ++ h.spaces ++ h.leftOver) := by
  rw [← total_append]
  refine total_eq_of_coverage fun a => ?_
  rw [coverage_chunks, coverage_append, coverage_free, ho.bytes]

theorem Tallied.accounted (ht : Tallied h out) (hs : Settled limits h out) : Accounted h out := by
  have hunused : h.reserved = h.bytesInUse + total (h.freeBlocks ++ h.spaces ++ h.leftOver) := by
    rw [ht.backed, hs.owned.total_chunks, hs.inUse]
  exact {
    bytes_in_use := hs.inUse
    in_use := fun c hc => ⟨_, pools_inUse hs.owned hc, (sum_pools h c).trans (ht.counts c hc)⟩
    reserved := ht.backed
    chunk_count := (length_chunks h).symm
    big := hs.owned.bigChunks_perm
    unused := hunused
    in_use_le := Nat.le.intro hunused.symm
    all_freed := fun hout => hs.inUse.trans (congrArg total hout) }

/-- After any requests to a heap with an accepted configuration, made in any order, through any pools and
whatever the system refused, the accounts of the heap are exact. -/
theorem accounts_exact {c : Config} (hc : c.check = .ok ()) (hr : Run c.limits grants h out) :
    Accounted h out := by
  have hchunk := chunkSize_aligned hc
  obtain ⟨hs, ht⟩ := hr.inv (I := fun h out => Settled c.limits h out ∧ Tallied h out)
    ⟨settled_empty grants hchunk, tallied_empty _ _⟩ fun ⟨hs, ht⟩ hq => ⟨hs.request hq, ht.request hs hq⟩
  exact ht.accounted hs

/-- A small block that came from one local pool and went back to another, which then has fewer than none in
use, and a big one that is still there. -/
theorem accounts_exact_elsewhere :
    ∃ h, Run ⟨32, 64, 2⟩ (fun _ _ => true) h [⟨⟨.big 0, 0⟩, 48⟩] ∧
      Accounted h [⟨⟨.big 0, 0⟩, 48⟩] ∧ (do (← h.pool 0).inUse 2) = .ok 1 ∧ (do (← h.pool 1).inUse 2) = .ok (-1) := by
  have opened := (@Run.start ⟨32, 64, 2⟩ fun _ _ => true).openPool.openPool
  have small := opened.served (by rintro _ ⟨⟩; exact .tail _ (.head _)) (rfl : alloc _ (some 0) 20 = _) rfl
  have both := small.served (hasPool_none _) (rfl : alloc _ none 33 = _) rfl
  have freed := both.freed (by rintro _ ⟨⟩; exact .tail _ (.head _)) (.tail _ (.head _)) (rfl : roundUp 17 = _)
    (rfl : free _ (some 1) _ _ = _)
  exact ⟨_, freed, accounts_exact (c := { allocFast := 32, chunkSize := 64, localFreeMax := 2 }) rfl freed, rfl, rfl⟩

end AtomHeap.Heap
