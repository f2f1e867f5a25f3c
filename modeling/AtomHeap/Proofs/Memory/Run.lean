import AtomHeap.Proofs.Memory.Freeing
/-!
# Runs of a heap

`Run limits grants h out`: some requests, in any order, took a new heap to `h`, and `out` are the
blocks that its callers have then. Which chunks the system grants is up to `grants`. A block may be
freed into any pool, with any size of its own class.

`run_owned` is the invariant of all runs, and `bytes_partitioned` says what it means for the bytes of
the heap and that no request within the contract is left without an answer.
-/

namespace AtomHeap.Heap

variable {limits : Limits} {grants : Nat → Nat → Bool} {h h' : Heap} {out : List Region} {r : Region}
  {a : Address}

/-- The shared pool, or a local pool that is open. -/
def HasPool (h : Heap) (pool? : Option PoolId) : Prop := ∀ id ∈ pool?, id ∈ h.locals.map (·.1)

theorem hasPool_none (h : Heap) : h.HasPool none := nofun

/-- Heaps that requests lead to, with the blocks that callers have. -/
inductive Run (limits : Limits) (grants : Nat → Nat → Bool) : Heap → List Region → Prop
  | start : Run limits grants (.empty limits grants) []
  | openPool {h : Heap} {out : List Region} : Run limits grants h out → Run limits grants h.openPool.2 out
  | closePool {h h' : Heap} {out : List Region} {id : PoolId} :
      Run limits grants h out → h.HasPool (some id) → h.closePool id = .ok h' → Run limits grants h' out
  | setHook {h : Heap} {out : List Region} (hook : String) :
      Run limits grants h out → Run limits grants (h.setHook hook) out
  | served {h h' : Heap} {out : List Region} {from? : Option PoolId} {size length : Nat} {b : Address} :
      Run limits grants h out → h.HasPool from? → h.alloc from? size = .ok (.ok b, h') →
      roundUp size = .ok length → Run limits grants h' (⟨b, length⟩ :: out)
  | refused {h h' : Heap} {out : List Region} {from? : Option PoolId} {size : Nat} {e : AllocError} :
      Run limits grants h out → h.HasPool from? → h.alloc from? size = .ok (.error e, h') →
      Run limits grants h' out
  | freed {h h' : Heap} {out : List Region} {into? : Option PoolId} {r : Region} {size : Nat} :
      Run limits grants h out → h.HasPool into? → r ∈ out → roundUp size = .ok r.length →
      h.free into? r.start size = .ok h' → Run limits grants h' (out.erase r)

/-- A heap that memory has room for is the empty one. -/
theorem create_eq (hc : Heap.create limits grants = .ok h) : h = .empty limits grants := by
  simp only [Heap.create, Pool.create, bind, Except.bind] at hc
  split at hc
  · cases hc
  · rename_i p hp
    split at hp
    · cases hp
      cases hc
      rfl
    · cases hp

theorem owned_empty (grants : Nat → Nat → Bool) (hchunk : limits.chunkSize % alignment = 0) :
    Owned limits (.empty limits grants) [] where
  limits := rfl
  chunkSize := hchunk
  global := Pool.sound_empty _
  locals _ hx := nomatch hx
  ids := .nil
  fresh _ hx := nomatch hx
  leftOver _ hr := nomatch hr
  bytes a := by
    have hbytes : (Heap.empty limits grants).bytesAt a = 0 := by
      obtain ⟨chunk, offset⟩ := a
      cases chunk <;> simp [bytesAt, hasByte, chunkLength?, carvingIndex?, Heap.empty]
    rw [hbytes]
    simp [held, Heap.empty, Pool.held_empty, heldByLocals]
  handed _ hr := nomatch hr
  big n length hlen := by simp [chunkLength?, Heap.empty] at hlen

/-- Ownership does not depend on who is told of refusals, nor on what was told. -/
theorem Owned.withHook (ho : Owned limits h out) (hook : Option String) (refusals : List Refusal) :
    Owned limits { h with hook, refusals } out :=
  ⟨ho.limits, ho.chunkSize, ho.global, ho.locals, ho.ids, ho.fresh, ho.leftOver, ho.bytes,
    fun r hr => (ho.handed r hr).mono rfl fun _ _ hlen => hlen, ho.big⟩

/-- Every heap that a run leads to has one owner for each byte. -/
theorem run_owned (hchunk : limits.chunkSize % alignment = 0) (hr : Run limits grants h out) :
    Owned limits h out := by
  induction hr with
  | start => exact owned_empty grants hchunk
  | openPool _ ih => exact ih.openPool
  | closePool _ hid hclose ih => exact (ih.closePool_ends (hid _ rfl)).post_of_ok hclose
  | setHook hook _ ih => exact ih.withHook (some hook) _
  | served _ hfrom halloc hsize ih =>
    obtain ⟨blocks, howned, rounded, hround, rfl⟩ := (ih.alloc_ends hfrom _).post_of_ok halloc
    cases hsize.symm.trans hround
    exact howned
  | refused _ hfrom halloc ih =>
    obtain ⟨blocks, howned, rfl⟩ := (ih.alloc_ends hfrom _).post_of_ok halloc
    exact howned
  | freed _ hinto hmem hsize hfree ih => exact (ih.free_ends hinto hmem hsize).post_of_ok hfree

/-! ## What it means for the bytes -/

/-- The free blocks of all pools, each as long as the class of the list it is on. -/
def freeBlocks (h : Heap) : List Region := h.global.freeBlocks ++ h.locals.flatMap (·.2.freeBlocks)

/-- The bump spaces of all pools. -/
def spaces (h : Heap) : List Region := h.global.space.toList ++ h.locals.flatMap (·.2.space.toList)

/-- How the bytes of a heap are shared out, where its callers have the blocks `out`. -/
structure Partitioned (h : Heap) (out : List Region) : Prop where
  /-- Each byte of each chunk lies in just one block of a caller, free block, bump space or left-over
  region, and no other byte lies in any. -/
  one_owner : ∀ a, coverage (out ++ h.freeBlocks ++ h.spaces ++ h.leftOver) a = if h.hasByte a then 1 else 0
  /-- Blocks in carving chunks are as long as their class says. -/
  fast : ∀ r ∈ out, ∀ n, r.start.chunk = .carving n →
    ∃ c, 1 ≤ c ∧ c < SizeClass.count h.limits.allocFast ∧ r.length = SizeClass.blockSize c
  /-- All other blocks are whole chunks. -/
  big : ∀ r ∈ out, (∃ n, r.start.chunk = .carving n) ∨
    ∃ n, r.start = (ChunkId.big n).start ∧ h.chunkLength? (.big n) = some r.length
  aligned : ∀ r ∈ out, r.start.offset % alignment = 0
  /-- A block lies in one chunk. -/
  inside : ∀ r ∈ out, ∃ length, h.chunkLength? r.start.chunk = some length ∧ r.start.offset + r.length ≤ length
  apart : out.Pairwise Region.Apart
  /-- Nothing that a caller has is free. -/
  not_free : ∀ r ∈ out, ∀ q ∈ h.freeBlocks ++ h.spaces ++ h.leftOver, r.Apart q
  /-- A request is answered, unless memory is short and there is no hook to be told. -/
  alloc_answers : ∀ from?, h.HasPool from? → ∀ size,
    (∃ answer h', h.alloc from? size = .ok (answer, h')) ∨
      (h.hook = none ∧ h.alloc from? size = .error .exhausted)
  free_answers : ∀ into?, h.HasPool into? → ∀ r ∈ out, ∀ size, roundUp size = .ok r.length →
    ∃ h', h.free into? r.start size = .ok h'
  close_answers : ∀ id, h.HasPool (some id) → ∃ h', h.closePool id = .ok h'

theorem coverage_free (h : Heap) (a : Address) :
    coverage (h.freeBlocks ++ h.spaces ++ h.leftOver) a = h.held a := by
  have hlocals (locals : List (PoolId × Pool)) :
      coverage (locals.flatMap (·.2.freeBlocks)) a + coverage (locals.flatMap (·.2.space.toList)) a =
        heldByLocals locals a := by
    induction locals with
    | nil => rfl
    | cons x locals ih =>
      rw [heldByLocals_cons, ← ih]
      simp only [List.flatMap_cons, coverage_append, Pool.held]
      omega
  have := hlocals h.locals
  simp only [freeBlocks, spaces, coverage_append, held, Pool.held]
  omega

theorem Owned.inside (ho : Owned limits h out) (hr : r ∈ out) :
    ∃ length, h.chunkLength? r.start.chunk = some length ∧ r.start.offset + r.length ≤ length := by
  have hpos := (ho.handed r hr).pos
  -- The last byte of a block is a byte of some chunk, the one that its first byte is in.
  have hb : 0 < h.bytesAt (r.start.advance (r.length - 1)) := by
    have h₁ := coverage_pos_of_mem hr (Region.covers_last hpos)
    have h₂ := ho.bytes (r.start.advance (r.length - 1))
    omega
  obtain ⟨length, hlen, hlt⟩ := bytesAt_pos hb
  refine ⟨length, hlen, ?_⟩
  simp only [Address.advance] at hlt
  omega

theorem Owned.fast (ho : Owned limits h out) (hr : r ∈ out) {n : Nat} (hn : r.start.chunk = .carving n) :
    ∃ c, 1 ≤ c ∧ c < SizeClass.count h.limits.allocFast ∧ r.length = SizeClass.blockSize c := by
  have hhanded := ho.handed r hr
  obtain ⟨size, hsize⟩ := hhanded.serves
  have hle : r.length ≤ h.limits.allocFast := by
    apply Nat.le_of_not_lt
    intro hlt
    obtain ⟨m, hstart, -⟩ := hhanded.big hlt
    rw [hstart] at hn
    cases hn
  have hal := aligned_of_roundUp hsize
  have hpos := hhanded.pos
  refine ⟨r.length / alignment, ?_, ?_, ?_⟩
  · simp only [alignment] at *
    omega
  · simp only [SizeClass.count, alignment] at *
    omega
  · simp only [SizeClass.blockSize, alignment] at *
    omega

theorem Owned.whole (ho : Owned limits h out) (hr : r ∈ out) :
    (∃ n, r.start.chunk = .carving n) ∨
      ∃ n, r.start = (ChunkId.big n).start ∧ h.chunkLength? (.big n) = some r.length := by
  by_cases hle : r.length ≤ h.limits.allocFast
  · exact .inl ((ho.handed r hr).fast hle)
  · exact .inr ((ho.handed r hr).big (Nat.lt_of_not_le hle))

theorem Owned.partitioned (ho : Owned limits h out) : Partitioned h out where
  one_owner a := by
    rw [List.append_assoc, List.append_assoc, coverage_append, ← List.append_assoc, coverage_free]
    exact ho.bytes a
  fast _ hr _ hn := ho.fast hr hn
  big _ hr := ho.whole hr
  aligned r hr := (ho.handed r hr).aligned
  inside _ hr := ho.inside hr
  apart := ho.apart
  not_free _ hr _ hq :=
    apart_of_coverage_le (fun a => by rw [coverage_free]; exact ho.coverage_le_one a) hr hq
  alloc_answers from? hfrom size := by
    rcases ho.alloc_ends hfrom size with ⟨⟨answer, h'⟩, halloc, -⟩ | ⟨halloc, hhook⟩
    · exact .inl ⟨answer, h', halloc⟩
    · exact .inr ⟨hhook, halloc⟩
  free_answers into? hinto r hr size hsize := by
    obtain ⟨h', hfree, -⟩ := (ho.free_ends hinto hr hsize).exists_ok
    exact ⟨h', hfree⟩
  close_answers id hid := by
    obtain ⟨h', hclose, -⟩ := (ho.closePool_ends (hid id rfl)).exists_ok
    exact ⟨h', hclose⟩

theorem chunkSize_aligned {c : Config} (hc : c.check = .ok ()) : c.limits.chunkSize % alignment = 0 :=
  (Config.check_eq_ok_iff.1 hc).chunkSize.1

/-- After any requests to a heap with an accepted configuration, made in any order, through any
pools and whatever the system refused, each byte of each chunk has exactly one owner. -/
theorem bytes_partitioned {c : Config} (hc : c.check = .ok ()) (hr : Run c.limits grants h out) :
    h.limits = c.limits ∧ Partitioned h out :=
  have ho := run_owned (chunkSize_aligned hc) hr
  ⟨ho.limits, ho.partitioned⟩

/-- A small block from a local pool, freed into the shared one and served again from there, and a big
block beside it. -/
theorem bytes_partitioned_two_blocks :
    ∃ h, Run ⟨32, 64, 2⟩ (fun _ _ => true) h [⟨⟨.carving 0, 0⟩, 32⟩, ⟨⟨.big 0, 0⟩, 48⟩] ∧
      Partitioned h [⟨⟨.carving 0, 0⟩, 32⟩, ⟨⟨.big 0, 0⟩, 48⟩] := by
  have opened := (@Run.start ⟨32, 64, 2⟩ fun _ _ => true).openPool
  have small := opened.served (by rintro _ ⟨⟩; exact .head _) (rfl : alloc _ (some 0) 20 = _) rfl
  have both := small.served (hasPool_none _) (rfl : alloc _ none 33 = _) rfl
  have freed := both.freed (hasPool_none _) (.tail _ (.head _)) (rfl : roundUp 32 = _) (rfl : free _ none _ _ = _)
  have again := freed.served (hasPool_none _) (rfl : alloc _ none 17 = _) rfl
  exact ⟨_, again, (bytes_partitioned (c := { allocFast := 32, chunkSize := 64, localFreeMax := 2 }) rfl again).2⟩

end AtomHeap.Heap
