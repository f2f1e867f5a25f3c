import AtomHeap.Proofs.Memory.Drift
/-!
# The lifetime of a heap

A heap serves requests. While no local pool is open it may also give back all its chunks at once, whatever
is still in use, and goes on as if it were new. `Life limits grants n h out` is a lifetime of `n` requests so
far, and `Life.fits` says that all figures of such a heap are words and that no request goes wrong.
-/

namespace AtomHeap.Heap

variable {limits : Limits} {grants : Nat → Nat → Bool} {h h' : Heap} {p : Pool} {out out' : List Region}
  {c n size : Nat}

/-- Heaps that requests lead to, and that nothing but the chunks is left of when these are given back. -/
inductive Life (limits : Limits) (grants : Nat → Nat → Bool) : Nat → Heap → List Region → Prop
  | start : Life limits grants 0 (.empty limits grants) []
  | request {n : Nat} {h h' : Heap} {out out' : List Region} :
      Life limits grants n h out → Request h out h' out' → Life limits grants (n + 1) h' out'
  | destroyAll {n : Nat} {h : Heap} {out : List Region} :
      Life limits grants n h out → h.locals = [] → Life limits grants n h.destroyAll []

theorem Run.life (hr : Run limits grants h out) : ∃ n, Life limits grants n h out :=
  hr.inv (I := fun h out => ∃ n, Life limits grants n h out) ⟨0, .start⟩ fun ⟨n, hl⟩ hq => ⟨n + 1, hl.request hq⟩

/-! ## A heap whose chunks are given back -/

theorem reset_eq {allocFast : Nat} (hp : p.Sound allocFast) : p.reset = Pool.empty allocFast := by
  unfold Pool.reset Pool.empty
  rw [← hp.size]
  exact congrArg (Pool.mk · none) Array.map_const'

theorem Shaped.destroyAll_eq (hs : Shaped limits h) :
    h.destroyAll =
      { h with
        global := Pool.empty h.limits.allocFast
        leftOver := []
        firstCarving := h.firstCarving + h.carving.size
        carving := #[]
        big := .replicate h.big.size none
        reserved := 0
        bytesInUse := 0 } := by
  unfold Heap.destroyAll
  rw [reset_eq hs.global, Array.map_const']

theorem Shaped.destroyAll (hs : Shaped limits h) : Shaped limits h.destroyAll where
  limits := hs.limits
  chunkSize := hs.chunkSize
  global := by
    have hglobal : h.destroyAll.global = Pool.empty h.limits.allocFast := reset_eq hs.global
    rw [hglobal]
    exact Pool.sound_empty _
  locals := hs.locals
  ids := hs.ids
  fresh := hs.fresh
  leftOver _ hr := nomatch hr

theorem chunkLength?_destroyAll (h : Heap) (k : ChunkId) : h.destroyAll.chunkLength? k = none := by
  cases k with
  | nowhere => rfl
  | carving n => simp [chunkLength?, Heap.destroyAll]
  | big n => cases hn : h.big[n]? <;> simp [chunkLength?, Heap.destroyAll, hn]

theorem bytesAt_destroyAll (h : Heap) (a : Address) : h.destroyAll.bytesAt a = 0 := by
  simp [bytesAt, hasByte, chunkLength?_destroyAll]

theorem Owned.destroyAll (ho : Owned limits h out) (hlocals : h.locals = []) : Owned limits h.destroyAll [] := by
  have hglobal : h.destroyAll.global = Pool.empty h.limits.allocFast := reset_eq ho.global
  have hlocals' : h.destroyAll.locals = [] := hlocals
  refine ho.shaped.destroyAll.owned (fun a => ?_) nofun fun n length hlen => ?_
  · rw [bytesAt_destroyAll, held, hglobal, hlocals', Pool.held_empty]
    rfl
  · rw [chunkLength?_destroyAll] at hlen
    cases hlen

theorem Solvent.destroyAll (hs : Solvent limits h out) (hlocals : h.locals = []) :
    Solvent limits h.destroyAll [] := by
  have howned := hs.settled.owned
  have hglobal : h.destroyAll.global = Pool.empty h.limits.allocFast := reset_eq howned.global
  have hlocals' : h.destroyAll.locals = [] := hlocals
  refine ⟨⟨howned.destroyAll hlocals, rfl⟩, ⟨fun c _ => ?_, ?_⟩, (by decide : 0 < wordCount)⟩
  · rw [tally, hglobal, hlocals', Pool.tally_empty]
    rfl
  · have hchunks : total h.destroyAll.chunks = total [] := total_eq_of_coverage fun a => by
      rw [coverage_chunks, bytesAt_destroyAll]
      rfl
    exact hchunks.symm

theorem drift_destroyAll (ho : Owned limits h out) (hlocals : h.locals = []) (c : Nat) : h.destroyAll.drift c = 0 := by
  have hglobal : h.destroyAll.global = Pool.empty h.limits.allocFast := reset_eq ho.global
  have hlocals' : h.destroyAll.locals = [] := hlocals
  rw [drift_eq, hglobal, hlocals', Pool.tally_empty]
  rfl

theorem Life.solvent (hchunk : limits.chunkSize % alignment = 0) (hl : Life limits grants n h out) :
    Solvent limits h out := by
  induction hl with
  | start => exact solvent_empty grants hchunk
  | request _ hq ih => exact ih.request hq
  | destroyAll _ hlocals ih => exact ih.destroyAll hlocals

theorem Life.drift (hchunk : limits.chunkSize % alignment = 0) (hl : Life limits grants n h out)
    (hc : c < SizeClass.count limits.allocFast) : h.drift c ≤ n := by
  induction hl with
  | start => simp [drift_eq, Heap.empty, Pool.tally_empty]
  | request hl hq ih =>
    have howned := (hl.solvent hchunk).settled.owned
    have := hq.drift howned (howned.limits ▸ hc)
    omega
  | destroyAll hl hlocals _ =>
    rw [drift_destroyAll (hl.solvent hchunk).settled.owned hlocals]
    exact Nat.zero_le _

/-! ## Calls -/

/-- The blocks handed out after an allocation. -/
def handed (size : Nat) (answer : Except AllocError Address) (out : List Region) : List Region :=
  match answer, roundUp size with
  | .ok b, .ok length => ⟨b, length⟩ :: out
  | _, _ => out

/-- An allocation is a request, whatever is answered. -/
theorem Request.of_alloc {from? : Option PoolId} {answer : Except AllocError Address} (hfrom : h.HasPool from?)
    (ha : h.alloc from? size = .ok (answer, h')) : Request h out h' (handed size answer out) := by
  cases answer with
  | error e => exact .refused hfrom ha
  | ok b =>
    obtain ⟨length, hround⟩ := exists_length ha
    simp only [handed, hround]
    exact .served hfrom ha hround

/-- What callers ask of a heap: the contract that they keep to, the call, and the blocks handed out after it. -/
inductive Ask : {α : Type} → (Heap → List Region → Prop) → (Heap → Except Fault (α × Heap)) →
    (α → List Region → List Region) → Prop
  | openPool : Ask (fun _ _ => True) (fun h => .ok h.openPool) fun _ out => out
  | closePool (id : PoolId) :
      Ask (fun h _ => h.HasPool (some id)) (fun h => return ((), ← h.closePool id)) fun _ out => out
  | setHook (hook : String) : Ask (fun _ _ => True) (fun h => .ok ((), h.setHook hook)) fun _ out => out
  | alloc (from? : Option PoolId) (size : Nat) :
      Ask (fun h _ => h.HasPool from?) (·.alloc from? size) (handed size)
  /-- A block is given back as long as it was asked for, by whoever has it. -/
  | free (into? : Option PoolId) (r : Region) (size : Nat) :
      Ask (fun h out => h.HasPool into? ∧ r ∈ out ∧ roundUp size = .ok r.length)
        (fun h => return ((), ← h.free into? r.start size)) fun _ out => out.erase r

/-- A call in its contract is a request, and goes wrong for want of memory only, whatever blocks others have. -/
theorem Ask.ends {α : Type} {contract : Heap → List Region → Prop} {f : Heap → Except Fault (α × Heap)}
    {after : α → List Region → List Region} (hf : Ask contract f after) {mine : List Region}
    (ho : Owned limits h (mine ++ out)) (hcontract : contract h out) :
    Ends (f h) True fun p => Request h out p.2 (after p.1 out) := by
  cases hf with
  | openPool => exact .ok .openPool
  | closePool id =>
    obtain ⟨h', hclose, -⟩ := (ho.closePool_ends (hcontract _ rfl)).exists_ok
    exact .inl ⟨((), h'), bind_eq_ok_iff.2 ⟨h', hclose, rfl⟩, .closePool hcontract hclose⟩
  | setHook hook => exact .ok (.setHook hook)
  | alloc from? size =>
    rcases ho.alloc_ends hcontract size with ⟨⟨answer, h'⟩, halloc, -⟩ | ⟨halloc, -⟩
    · exact .inl ⟨_, halloc, .of_alloc hcontract halloc⟩
    · exact .inr ⟨halloc, trivial⟩
  | free into? r size =>
    obtain ⟨hinto, hmem, hround⟩ := hcontract
    obtain ⟨h', hfree, -⟩ := (ho.free_ends hinto (List.mem_append_right mine hmem) hround).exists_ok
    exact .inl ⟨((), h'), bind_eq_ok_iff.2 ⟨h', hfree, rfl⟩, .freed hinto hmem hround hfree⟩

/-! ## All figures are words -/

/-- How many values a signed figure has to either side of zero. -/
def signedCount : Nat := wordCount / 2

/-- All figures of a heap are words, and nothing was ever taken from them that they did not have. -/
structure Fits (h : Heap) (out : List Region) : Prop where
  bytes_in_use : h.bytesInUse = total out
  reserved : h.reserved = total h.chunks
  bytes_in_use_le : h.bytesInUse ≤ h.reserved
  reserved_lt : h.reserved < wordCount
  /-- Class 0 has no blocks. -/
  free_count : ∀ p ∈ h.pools, ∀ c, 0 < c → ∀ n, p.freeCount c = .ok n → n < wordCount
  in_use : ∀ p ∈ h.pools, ∀ c < SizeClass.count h.limits.allocFast,
    ∃ n, p.inUse c = .ok n ∧ n.natAbs < signedCount

theorem Solvent.fits (hs : Solvent limits h out)
    (hdrift : ∀ c < SizeClass.count limits.allocFast, h.drift c < signedCount) : Fits h out where
  bytes_in_use := hs.settled.inUse
  reserved := hs.tallied.backed
  bytes_in_use_le := hs.settled.inUse ▸ hs.inUse_le
  reserved_lt := hs.bounded
  free_count _ hp _ hc _ hn := hs.freeCount_lt hp hc hn
  in_use p hp c hc := by
    have howned := hs.settled.owned
    exact ⟨p.tally c, Pool.inUse_eq (howned.sound hp) hc,
      Nat.lt_of_le_of_lt (natAbs_tally_le hp c) (hdrift c (howned.limits ▸ hc))⟩

end AtomHeap.Heap
