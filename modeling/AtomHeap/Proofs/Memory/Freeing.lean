import AtomHeap.Proofs.Memory.Ownership
/-!
# What taking a block back moves

A block that is freed goes from its caller to the pool that takes it back, whichever that is, and
half of a long list from there to the shared pool. Opening and closing pools moves whole pools.
-/

namespace AtomHeap.Heap

variable {limits : Limits} {h h' : Heap} {p q : Pool} {out : List Region} {r : Region} {a : Address}
  {id : PoolId} {c size : Nat}

theorem takeBack_ends (hp : p.Sound h.limits.allocFast) (hc : c < SizeClass.count h.limits.allocFast)
    {b : Address} (hb : b.offset % alignment = 0) :
    Ends (h.takeBack p c b) False fun (q, h') =>
      q.Sound h.limits.allocFast ∧ (∃ bytesInUse, h' = { h with bytesInUse }) ∧
        ∀ a, q.held a = p.held a + coverage (blocksAt c [b]) a := by
  unfold takeBack
  refine (Pool.push_ends hp hc hb).bind ?_
  rintro p₁ ⟨hp₁, -, hheld₁⟩
  refine (Pool.count_ends hp₁ hc (-1)).bind ?_
  rintro p₂ ⟨hp₂, -, hheld₂⟩
  exact .ok ⟨hp₂, ⟨_, rfl⟩, fun a => (hheld₂ a).trans (hheld₁ a)⟩

theorem spill_ends (hp : p.Sound h.limits.allocFast) (hg : h.global.Sound h.limits.allocFast)
    (hc : c < SizeClass.count h.limits.allocFast) :
    Ends (h.spill p c) False fun (q, h') =>
      q.Sound h.limits.allocFast ∧
        ∃ global, h' = { h with global } ∧ global.Sound h.limits.allocFast ∧
          ∀ a, q.held a + global.held a = p.held a + h.global.held a := by
  obtain ⟨s, hs, hshelf, -⟩ := hp.shelf hc
  unfold spill
  simp only [Pool.freeCount, hshelf, bind, Except.bind, pure, Except.pure]
  -- Half of the list goes over if it is too long.
  split
  · refine (Pool.splitTop_ends hp hc _).bind ?_
    rintro ⟨top, q⟩ ⟨hq, -, htop, hheld⟩
    refine (Pool.append_ends hg hc htop).bind ?_
    rintro g ⟨hg', -, hgheld⟩
    refine .ok ⟨hq, g, rfl, hg', fun a => ?_⟩
    have h₁ := hheld a
    have h₂ := hgheld a
    dsimp only
    omega
  · exact .ok ⟨hp, h.global, rfl, hg, fun a => rfl⟩

theorem coverage_erase (hr : r ∈ out) (a : Address) :
    coverage out a = coverage [r] a + coverage (out.erase r) a :=
  (coverage_perm (List.perm_cons_erase hr)).trans coverage_cons

theorem Owned.coverage_le_one (ho : Owned limits h out) (a : Address) : coverage out a + h.held a ≤ 1 :=
  ho.bytes a ▸ bytesAt_le_one h a

theorem Owned.apart (ho : Owned limits h out) : out.Pairwise Region.Apart :=
  pairwise_apart_of_coverage_le fun a => Nat.le_trans (Nat.le_add_right _ _) (ho.coverage_le_one a)

theorem Owned.nodup (ho : Owned limits h out) : out.Nodup := by
  apply ho.apart.imp_of_mem
  intro r q hr _ hap
  rintro rfl
  -- A block has a first byte, so it is not apart from itself.
  have hcov := Region.covers_start (ho.handed r hr).pos
  exact hap r.start ⟨hcov, hcov⟩

/-- A big block stays in the hands of its caller when another block is freed. -/
theorem Owned.big_erase (ho : Owned limits h out) {n length : Nat} (hn : (ChunkId.big n) ≠ r.start.chunk)
    (hlen : h.chunkLength? (.big n) = some length) : ⟨(ChunkId.big n).start, length⟩ ∈ out.erase r :=
  (List.mem_erase_of_ne fun e => hn (congrArg (·.start.chunk) e)).2 (ho.big n length hlen)

/-- A fast block that is freed: its class, and where it lies. -/
theorem Owned.fast_of_mem (ho : Owned limits h out) (hr : r ∈ out) (hsize : roundUp size = .ok r.length)
    (hclass : SizeClass.ofSize size h.limits.allocFast = .ok (.fast c)) :
    blocksAt c [r.start] = [r] ∧ r.start.offset % alignment = 0 ∧ ∃ n, r.start.chunk = .carving n := by
  obtain ⟨hround, hfast, -⟩ := SizeClass.ofSize_eq_fast hclass
  have hlen : r.length = SizeClass.blockSize c := Except.ok.inj (hsize.symm.trans hround)
  refine ⟨?_, (ho.handed r hr).aligned, (ho.handed r hr).fast (hlen ▸ hfast)⟩
  rw [blocksAt, List.map_singleton, ← hlen]

theorem Owned.freeLocal_fast (ho : Owned limits h out) (hid : id ∈ h.locals.map (·.1)) (hr : r ∈ out)
    (hsize : roundUp size = .ok r.length)
    (hclass : SizeClass.ofSize size h.limits.allocFast = .ok (.fast c)) :
    Ends (h.freeLocal id r.start size) False fun h' => Owned limits h' (out.erase r) := by
  obtain ⟨-, -, hc⟩ := SizeClass.ofSize_eq_fast hclass
  obtain ⟨hblock, haligned, n, hn⟩ := ho.fast_of_mem hr hsize hclass
  obtain ⟨p, rest, htake, hperm⟩ := takeOut_spec hid
  have hp : p.Sound h.limits.allocFast := ho.locals (id, p) (hperm.symm.subset (.head _))
  simp only [freeLocal, hclass, htake, bind, Except.bind]
  refine (takeBack_ends (h := { h with locals := rest }) hp hc haligned).bind ?_
  rintro ⟨p₁, h₁⟩ ⟨hp₁, ⟨bytesInUse, rfl⟩, hheld₁⟩
  refine (spill_ends (h := { h with locals := rest, bytesInUse }) hp₁ ho.global hc).bind ?_
  rintro ⟨p₂, h₂⟩ ⟨hp₂, global, rfl, hglobal, hheld₂⟩
  refine .ok (ho.putBack hperm rfl rfl rfl hglobal hp₂ ho.leftOver ?_ ?_ ?_)
  · -- The block goes to the pool, and some of the list from there to the shared pool.
    intro a
    have e₁ := ho.bytes a
    have e₂ := held_takeOut hperm a
    have e₃ := hheld₁ a
    have e₄ := hheld₂ a
    have e₅ := coverage_erase hr a
    have e₆ : bytesAt { h with locals := rest, bytesInUse, global } a = h.bytesAt a := rfl
    rw [hblock] at e₃
    simp only [held] at *
    omega
  · intro q hq
    exact (ho.handed q (List.mem_of_mem_erase hq)).mono rfl fun m length hlen => hlen
  · intro m length hlen
    exact ho.big_erase (by simp [hn]) hlen

theorem Owned.freeGlobal_fast (ho : Owned limits h out) (hr : r ∈ out) (hsize : roundUp size = .ok r.length)
    (hclass : SizeClass.ofSize size h.limits.allocFast = .ok (.fast c)) :
    Ends (h.freeGlobal r.start size) False fun h' => Owned limits h' (out.erase r) := by
  obtain ⟨-, -, hc⟩ := SizeClass.ofSize_eq_fast hclass
  obtain ⟨hblock, haligned, n, hn⟩ := ho.fast_of_mem hr hsize hclass
  simp only [freeGlobal, hclass, takeGlobal]
  refine (takeBack_ends (h := { h with global := { shelves := #[] } }) ho.global hc haligned).bind ?_
  rintro ⟨p₁, h₁⟩ ⟨hp₁, ⟨bytesInUse, rfl⟩, hheld⟩
  refine .ok (ho.putGlobal rfl rfl rfl hp₁ ho.leftOver ?_ ?_ ?_)
  · intro a
    have e₁ := ho.bytes a
    have e₂ := hheld a
    have e₃ := coverage_erase hr a
    have e₄ : bytesAt { h with global := { shelves := #[] }, bytesInUse } a = h.bytesAt a := rfl
    rw [hblock] at e₂
    simp only [held] at *
    omega
  · intro q hq
    exact (ho.handed q (List.mem_of_mem_erase hq)).mono rfl fun m length hlen => hlen
  · intro m length hlen
    exact ho.big_erase (by simp [hn]) hlen

/-- The chunk of a big block takes its bytes with it. -/
theorem bytesAt_dropBig {n length : Nat} (hlen : h.chunkLength? (.big n) = some length) (a : Address) :
    h.bytesAt a =
      { h with big := h.big.setIfInBounds n none }.bytesAt a + coverage [⟨(ChunkId.big n).start, length⟩] a := by
  refine bytesAt_newChunk ?_ hlen ?_ a
  · by_cases hn : n < h.big.size <;> simp [chunkLength?, hn]
  · intro other hother
    cases other with
    | nowhere => rfl
    | carving m => rfl
    | big m =>
      have hm : n ≠ m := fun e => hother (congrArg ChunkId.big e.symm)
      simp [chunkLength?, hm]

theorem Owned.freeBig_ends (ho : Owned limits h out) (hr : r ∈ out) (hsize : roundUp size = .ok r.length)
    (hbig : h.limits.allocFast < r.length) :
    Ends (h.freeBig r.start size) False fun h' => Owned limits h' (out.erase r) := by
  obtain ⟨n, hstart, hlen⟩ := (ho.handed r hr).big hbig
  have hr' : r = ⟨(ChunkId.big n).start, r.length⟩ := by rw [← hstart]
  have hkeep {m length : Nat} (hm : m ≠ n) (hl : h.chunkLength? (.big m) = some length) :
      chunkLength? { h with big := h.big.setIfInBounds n none } (.big m) = some length := by
    rw [← hl]
    simp [chunkLength?, hm.symm]
  simp only [freeBig, hstart, ChunkId.start, hsize, hlen, if_true]
  refine .ok ⟨ho.limits, ho.chunkSize, ho.global, ho.locals, ho.ids, ho.fresh, ho.leftOver, ?_, ?_, ?_⟩
  · intro a
    have e₁ := ho.bytes a
    have e₂ := coverage_erase hr a
    have e₃ := bytesAt_dropBig hlen a
    rw [← hr'] at e₃
    change coverage (out.erase r) a + h.held a = { h with big := h.big.setIfInBounds n none }.bytesAt a
    omega
  · intro q hq
    obtain ⟨hserves, haligned, hfast, hwhole⟩ := ho.handed q (List.mem_of_mem_erase hq)
    refine ⟨hserves, haligned, hfast, fun hlt => ?_⟩
    obtain ⟨m, hqstart, hqlen⟩ := hwhole hlt
    refine ⟨m, hqstart, hkeep ?_ hqlen⟩
    -- The block with the number of the chunk is the one that goes, and nobody has it twice.
    rintro rfl
    have hsame : q = r := by
      have : q.length = r.length := Option.some.inj (hqlen.symm.trans hlen)
      rw [hr', ← this, ← hqstart]
    exact ho.nodup.not_mem_erase (hsame ▸ hq)
  · intro m length hl
    -- The chunk is gone, so its block need not be anybody's any longer.
    by_cases hm : m = n
    · subst hm
      by_cases hlt : m < h.big.size <;> simp [chunkLength?, hlt] at hl
    · apply ho.big_erase (by simp [hstart, ChunkId.start, hm])
      rw [← hl]
      simp [chunkLength?, Ne.symm hm]

theorem free_of_big {into? : Option PoolId} {b : Address}
    (hclass : SizeClass.ofSize size h.limits.allocFast = .ok .big) : h.free into? b size = h.freeBig b size := by
  cases into? <;> simp only [Heap.free, freeLocal, freeGlobal, hclass]

/-- The specification of `free`: it always succeeds on a block in the hands of a caller, given a size
that such a block serves, into whichever pool. -/
theorem Owned.free_ends (ho : Owned limits h out) {into? : Option PoolId}
    (hinto : ∀ id ∈ into?, id ∈ h.locals.map (·.1))
    (hr : r ∈ out) (hsize : roundUp size = .ok r.length) :
    Ends (h.free into? r.start size) False fun h' => Owned limits h' (out.erase r) := by
  have hclass : SizeClass.ofSize size h.limits.allocFast = _ := SizeClass.ofSize_of_roundUp hsize
  split at hclass
  · cases into? with
    | none => exact ho.freeGlobal_fast hr hsize hclass
    | some id => exact ho.freeLocal_fast (hinto id rfl) hr hsize hclass
  · rw [free_of_big hclass]
    exact ho.freeBig_ends hr hsize (Nat.lt_of_not_le ‹_›)

/-! ## Opening and closing pools -/

theorem Shaped.openPool (hs : Shaped limits h) : Shaped limits h.openPool.2 where
  limits := hs.limits
  chunkSize := hs.chunkSize
  global := hs.global
  locals x hx := by
    rcases List.mem_cons.1 hx with rfl | hx
    · exact Pool.sound_empty _
    · exact hs.locals x hx
  ids := by
    refine List.nodup_cons.2 ⟨fun hmem => ?_, hs.ids⟩
    obtain ⟨x, hx, he⟩ := List.mem_map.1 hmem
    exact Nat.lt_irrefl _ (he ▸ hs.fresh x hx)
  fresh x hx := by
    rcases List.mem_cons.1 hx with rfl | hx
    · exact Nat.lt_succ_self _
    · exact Nat.lt_succ_of_lt (hs.fresh x hx)
  leftOver := hs.leftOver

theorem Owned.openPool (ho : Owned limits h out) : Owned limits h.openPool.2 out := by
  refine ho.shaped.openPool.owned (fun a => ?_) (fun r hr => (ho.handed r hr).mono rfl fun n length hlen => hlen) ho.big
  have hheld : h.openPool.2.held a = h.held a := by
    simp [Heap.openPool, held, heldByLocals_cons, Pool.held_empty]
  rw [hheld]
  exact ho.bytes a

theorem filter_ne_of_nodup {locals : List (PoolId × Pool)} (hids : (locals.map (·.1)).Nodup) :
    locals.filter (·.1 ≠ id) = locals.eraseP (·.1 == id) := by
  induction locals with
  | nil => rfl
  | cons x locals ih =>
    obtain ⟨hx, hids⟩ := List.nodup_cons.1 hids
    by_cases hi : x.1 = id
    · subst hi
      simp only [List.eraseP_cons, beq_self_eq_true, cond_true, ne_eq, not_true, decide_false, Bool.false_eq_true,
        not_false_eq_true, List.filter_cons_of_neg]
      apply List.filter_eq_self.2
      intro y hy
      have hne : y.1 ≠ x.1 := fun e => hx (List.mem_map.2 ⟨y, hy, e⟩)
      simpa using hne
    · have hne : (x.1 == id) = false := beq_eq_false_iff_ne.2 hi
      rw [List.filter_cons_of_pos (by simpa using hi), List.eraseP_cons_of_neg (by simp [hne]), ih hids]

theorem closePool_cases (hc : h.closePool id = .ok h') :
    ∃ p, h.locals.lookup id = some p ∧
      h' = { h with
        global := p.takeSpace.2.merge h.global
        leftOver := h.leftOver ++ p.takeSpace.1.toList
        locals := h.locals.filter (·.1 ≠ id) } := by
  obtain ⟨p, hpool, hc⟩ := bind_eq_ok_iff.1 hc
  cases hc
  exact ⟨p, pool_eq_ok_iff.1 hpool, rfl⟩

/-- The pool that is closed is one of the local ones, and the others stay. -/
theorem Shaped.closePool_inv (hs : Shaped limits h) (hc : h.closePool id = .ok h') :
    ∃ p, p.Sound h.limits.allocFast ∧ h.locals.Perm ((id, p) :: h.locals.eraseP (·.1 == id)) ∧
      h' = { h with
        global := p.takeSpace.2.merge h.global
        leftOver := h.leftOver ++ p.takeSpace.1.toList
        locals := h.locals.eraseP (·.1 == id) } := by
  obtain ⟨p, hlookup, rfl⟩ := closePool_cases hc
  exact ⟨p, hs.sound_of_lookup hlookup, perm_takeOut hlookup, by rw [filter_ne_of_nodup hs.ids]⟩

theorem Shaped.closePool (hs : Shaped limits h) (hc : h.closePool id = .ok h') : Shaped limits h' := by
  obtain ⟨p, hlookup, rfl⟩ := closePool_cases hc
  obtain ⟨hsound, hspace, -, hal, -⟩ := Pool.takeSpace_spec (hs.sound_of_lookup hlookup)
  refine ⟨hs.limits, hs.chunkSize, (Pool.merge_spec hsound hs.global hspace).1, ?_, ?_, ?_, ?_⟩
  · exact fun x hx => hs.locals x (List.mem_of_mem_filter hx)
  · exact hs.ids.sublist (List.filter_sublist.map _)
  · exact fun x hx => hs.fresh x (List.mem_of_mem_filter hx)
  · intro r hr
    rcases List.mem_append.1 hr with hr | hr
    · exact hs.leftOver r hr
    · exact hal r (Option.mem_toList.1 hr)

/-- Closing a pool that is open always succeeds. -/
theorem Owned.closePool_ends (ho : Owned limits h out) (hid : id ∈ h.locals.map (·.1)) :
    Ends (h.closePool id) False fun h' => Owned limits h' out := by
  obtain ⟨h', hclose⟩ : ∃ h', h.closePool id = .ok h' := by
    obtain ⟨p, hlookup⟩ := lookup_isSome hid
    simp only [Heap.closePool, Heap.pool, hlookup]
    exact ⟨_, rfl⟩
  obtain ⟨p, hp, hperm, rfl⟩ := ho.shaped.closePool_inv hclose
  obtain ⟨hsound, hspace, -, -, hheld⟩ := Pool.takeSpace_spec hp
  obtain ⟨-, hmheld⟩ := Pool.merge_spec hsound ho.global hspace
  rw [hclose]
  refine .ok ((ho.shaped.closePool hclose).owned (fun a => ?_) (fun r hr => ?_) ho.big)
  · have e₁ := ho.bytes a
    have e₂ := held_takeOut hperm a
    have e₃ := hheld a
    have e₄ := hmheld a
    simp only [held, coverage_append] at *
    change _ = h.bytesAt a
    omega
  · exact (ho.handed r hr).mono rfl fun n length hlen => hlen

end AtomHeap.Heap
