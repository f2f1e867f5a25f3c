import AtomHeap.Proofs.Memory.Demand
/-!
# When the system refuses

A request that is refused memory comes back after its pool gave up the bump space that was too short for it.
`Refused` says what such a request leaves behind: the record of the refusal, and a pool that has the remainder of
that space as a free block. So nothing is lost (`NothingLost`), neither from the figures nor from what can be
served, and the remainder is what the pool serves next where a block of its length is asked for.
-/

namespace AtomHeap

/-- The layout of a chunk that was refused. -/
def Refusal.layout (r : Refusal) : Nat × Nat := (r.size, alignment)

namespace Pool

variable {allocFast c d n : Nat} {p q : Pool} {s : Shelf} {b : Address} {top : FreeList}

theorem setShelf_self (hs : p.shelves[c]? = some s) : p.setShelf c s = p := by
  obtain ⟨hlt, rfl⟩ := Array.getElem?_eq_some_iff.1 hs
  simp [setShelf, Array.setIfInBounds, hlt]

/-- Where a list has no block, none is taken from it. -/
theorem splitTop_unlisted (hp : p.Sound allocFast) (hlists : p.lists c = false)
    (h : p.splitTop c n = .ok (top, q)) : q = p := by
  unfold splitTop shelf at h
  split at h
  · rename_i s hs
    have hcounted := (hp.shelves c s hs).counted
    obtain ⟨⟨blocks, length⟩, inUse⟩ := s
    have hblocks : blocks = [] := by simpa [lists, hs] using hlists
    subst hblocks
    have hlength : length = 0 := hcounted
    subst hlength
    cases h
    exact setShelf_self hs
  · cases h

theorem inUse_setFree (hs : p.shelves[c]? = some s) (free : FreeList) (d : Nat) :
    (p.setShelf c { s with free }).inUse d = p.inUse d := by
  have hlt := (Array.getElem?_eq_some_iff.1 hs).1
  unfold inUse shelf setShelf
  by_cases hd : c = d
  · subst hd
    simp only [Array.getElem?_setIfInBounds_self_of_lt hlt, hs]
    rfl
  · simp only [Array.getElem?_setIfInBounds_ne hd]

theorem inUse_push (h : p.push c b = .ok q) (d : Nat) : q.inUse d = p.inUse d := by
  unfold push shelf at h
  split at h
  · rename_i s hs
    cases h
    exact inUse_setFree hs _ d
  · cases h

/-- The block pushed last is the one that is popped. -/
theorem pop_push (h : p.push c b = .ok q) : ∃ q', q.pop c = .ok (some b, q') := by
  unfold push shelf at h
  split at h
  · rename_i s hs
    have hlt := (Array.getElem?_eq_some_iff.1 hs).1
    cases h
    unfold pop shelf setShelf
    simp only [Array.getElem?_setIfInBounds_self_of_lt hlt]
    exact ⟨_, rfl⟩
  · cases h

/-- What a pool is after it gave up a bump space that was too short for a block of class `c`. -/
structure Retired (allocFast : Nat) (p q : Pool) : Prop where
  retire : p.retire allocFast = .ok (none, q)
  sound : q.Sound allocFast
  inUse : ∀ d, q.inUse d = p.inUse d
  held : ∀ a, q.held a = p.held a
  /-- What was left of it is the first block that the pool serves in its class. -/
  remainder : ∀ r, p.space = some r → 0 < r.length →
    ∃ d q', SizeClass.ofSize r.length allocFast = .ok (.fast d) ∧ q.pop d = .ok (some r.start, q')

theorem retired (hp : p.Sound allocFast) (hc : SizeClass.Serves allocFast c) (hfits : p.fits c = false) :
    ∃ q, Retired allocFast p q := by
  obtain ⟨q, hretire, hcases⟩ := retire_cases hp hc hfits
  obtain ⟨hq, -, -, hheld⟩ := (retire_ends hp).post_of_ok hretire
  refine ⟨q, hretire, hq, fun d => ?_, fun a => ?_, fun r hr hpos => ?_⟩
  · rcases hcases with ⟨-, rfl⟩ | ⟨r, e, -, -, hpush⟩
    · rfl
    · exact inUse_push hpush d
  · have := hheld a
    simpa using this.symm
  · rcases hcases with ⟨hzero, -⟩ | ⟨r', d, hr', hclass, hpush⟩
    · simp only [spaceLeft, hr] at hzero
      omega
    · rw [hr, Option.some.injEq] at hr'
      subst hr'
      obtain ⟨q', hpop⟩ := pop_push hpush
      exact ⟨d, q', hclass, hpop⟩

end Pool

namespace Heap

variable {limits : Limits} {h h' : Heap} {p p' q : Pool} {out : List Region} {from? : Option PoolId}
  {c min size length : Nat} {answer : Except AllocError Address} {e : AllocError}

/-! ## What a refused request leaves behind -/

/-- A heap after a request that was refused. -/
inductive Refused (h : Heap) : Option PoolId → Nat → Heap → Prop
  | big {from? : Option PoolId} {size asked : Nat} {refusals : List Refusal} :
      SizeClass.ofSize size h.limits.allocFast = .ok .big → Refused h from? size { h with asked, refusals }
  | shared {size asked : Nat} {refusals : List Refusal} {q : Pool} :
      Pool.Retired h.limits.allocFast h.global q → Refused h none size { h with asked, refusals, global := q }
  | own {size asked : Nat} {refusals : List Refusal} {id : PoolId} {p q : Pool} :
      h.locals.lookup id = some p → Pool.Retired h.limits.allocFast p q →
      Refused h (some id) size { h with asked, refusals, locals := (id, q) :: h.locals.eraseP (·.1 == id) }

theorem newSpace_refused (hn : h.newSpace min = .ok (.error e, h')) :
    ∃ asked refusals, h' = { h with asked, refusals } := by
  cases newSpace_cases hn
  exact ⟨_, _, rfl⟩

theorem carveAnew_refused (hretire : p.retire h.limits.allocFast = .ok (none, q))
    (hc : h.carveAnew p size = .ok (.error e, p', h')) :
    p' = q ∧ ∃ asked refusals, h' = { h with asked, refusals } := by
  obtain ⟨⟨remainder, p₁⟩, hretire', hc⟩ := bind_eq_ok_iff.1 hc
  cases hretire.symm.trans hretire'
  simp only [Option.toList_none, List.append_nil] at hc
  obtain ⟨⟨_ | r, h₁⟩, hspace, hc⟩ := bind_eq_ok_iff.1 hc
  · cases hc
    exact ⟨rfl, newSpace_refused hspace⟩
  · -- A new space is long enough for the block.
    obtain ⟨b, p₁, hcarve⟩ := Pool.carve_isSome (p := q) (newSpace_length hspace)
    simp only [hcarve] at hc
    cases hc

theorem refill_refused (hg : h.global.Sound h.limits.allocFast)
    (hretire : p.retire h.limits.allocFast = .ok (none, q)) (hr : h.refill p c = .ok (.error e, p', h')) :
    p' = q ∧ ∃ asked refusals, h' = { h with asked, refusals } := by
  cases refill_cases hr with
  | anew hsplit hempty hcarve =>
    have hlists : h.global.lists c = false := by
      rw [Pool.lists_of_splitTop hg hsplit, hempty]
      rfl
    cases Pool.splitTop_unlisted hg hlists hsplit
    exact carveAnew_refused (h := { h with global := h.global }) hretire hcarve

/-- A pool is refused a block only after it could not serve one by itself. -/
theorem serve_refused {more : Heap → Pool → Except Fault (Except AllocError Address × Pool × Heap)}
    (hs : h.serve p c more = .ok (.error e, q, h')) : p.fits c = false ∧ more h p = .ok (.error e, q, h') := by
  obtain ⟨p₁, h₁, hfound, rfl, rfl⟩ := serve_cases hs
  cases hfound with
  | more hpop hcarve hmore =>
    obtain ⟨rfl, -⟩ := Pool.lists_of_pop_none hpop
    exact ⟨Pool.fits_of_carve_none hcarve, hmore⟩

theorem allocBig_refused (ha : h.allocBig size = .ok (.error e, h')) :
    ∃ asked refusals, h' = { h with asked, refusals } := by
  cases allocBig_cases ha
  exact ⟨_, _, rfl⟩

theorem takeOut_lookup {id : PoolId} (ht : h.takeOut id = .ok (p, h')) :
    h.locals.lookup id = some p ∧ h' = { h with locals := h.locals.eraseP (·.1 == id) } := by
  obtain ⟨p₁, hp, ht⟩ := bind_eq_ok_iff.1 ht
  cases ht
  exact ⟨pool_eq_ok_iff.1 hp, rfl⟩

theorem Owned.alloc_refused (ho : Owned limits h out) (hround : roundUp size = .ok length)
    (ha : h.alloc from? size = .ok (.error e, h')) : Refused h from? size h' := by
  rcases SizeClass.ofSize_cases hround h.limits.allocFast with ⟨c, -, hclass⟩ | ⟨-, hclass⟩
  · have hc := SizeClass.serves_of_ofSize hclass
    cases from? with
    | none =>
      simp only [Heap.alloc, allocGlobal, hclass, takeGlobal] at ha
      obtain ⟨⟨answer, p', h₁⟩, hserve, ha⟩ := bind_eq_ok_iff.1 ha
      cases ha
      obtain ⟨hfits, hmore⟩ := serve_refused hserve
      obtain ⟨q, hq⟩ := Pool.retired ho.global hc hfits
      obtain ⟨rfl, asked, refusals, rfl⟩ :=
        carveAnew_refused (h := { h with global := { shelves := #[] } }) hq.retire hmore
      exact .shared hq
    | some id =>
      simp only [Heap.alloc, allocLocal, hclass] at ha
      obtain ⟨⟨p, h₀⟩, htake, ha⟩ := bind_eq_ok_iff.1 ha
      obtain ⟨⟨answer, p', h₁⟩, hserve, ha⟩ := bind_eq_ok_iff.1 ha
      cases ha
      obtain ⟨hlookup, rfl⟩ := takeOut_lookup htake
      have hp : p.Sound h.limits.allocFast := ho.locals (id, p) ((perm_takeOut hlookup).symm.subset (.head _))
      obtain ⟨hfits, hmore⟩ := serve_refused hserve
      obtain ⟨q, hq⟩ := Pool.retired hp hc hfits
      obtain ⟨rfl, asked, refusals, rfl⟩ :=
        refill_refused (h := { h with locals := h.locals.eraseP (·.1 == id) }) ho.global hq.retire hmore
      exact .own hlookup hq
  · obtain ⟨asked, refusals, rfl⟩ := allocBig_refused ((alloc_of_big hclass).symm.trans ha)
    exact .big hclass

theorem Refused.collected (hr : Refused h from? size h') (refusals : List Refusal) :
    Refused h from? size { h' with refusals } := by
  cases hr with
  | big hclass => exact .big hclass
  | shared hq => exact .shared hq
  | own hlookup hq => exact .own hlookup hq

/-! ## Nothing is lost -/

/-- All figures of a heap, and what it has to serve, are as they were. -/
structure NothingLost (h h' : Heap) : Prop where
  bytes_in_use : h'.bytesInUse = h.bytesInUse
  reserved : h'.reserved = h.reserved
  chunk_count : h'.chunkCount = h.chunkCount
  shared_in_use : ∀ c, h'.global.inUse c = h.global.inUse c
  local_in_use : ∀ id c, (do (← h'.pool id).inUse c) = (do (← h.pool id).inUse c)
  /-- Each byte is held as before, if maybe by another list. -/
  held : ∀ a, h'.held a = h.held a
  free : total (h'.freeBlocks ++ h'.spaces ++ h'.leftOver) = total (h.freeBlocks ++ h.spaces ++ h.leftOver)

theorem NothingLost.collected (hn : NothingLost h h') (refusals : List Refusal) :
    NothingLost h { h' with refusals } :=
  ⟨hn.bytes_in_use, hn.reserved, hn.chunk_count, hn.shared_in_use, hn.local_in_use, hn.held, hn.free⟩

theorem total_free (hheld : ∀ a, h'.held a = h.held a) :
    total (h'.freeBlocks ++ h'.spaces ++ h'.leftOver) = total (h.freeBlocks ++ h.spaces ++ h.leftOver) :=
  total_eq_of_coverage fun a => by rw [coverage_free, coverage_free, hheld]

theorem pool_putBack {id other : PoolId} :
    { h with locals := (id, q) :: h.locals.eraseP (·.1 == id) }.pool other =
      if other = id then .ok q else h.pool other := by
  unfold Heap.pool
  rw [lookup_putBack]
  by_cases hid : other = id
  · simp only [hid, if_true]
  · simp only [hid, if_false]

theorem Refused.nothingLost (hr : Refused h from? size h') : NothingLost h h' := by
  cases hr with
  | big hclass => exact ⟨rfl, rfl, rfl, fun _ => rfl, fun _ _ => rfl, fun _ => rfl, rfl⟩
  | @shared _ asked refusals q hq =>
    have hheld (a) : { h with asked, refusals, global := q }.held a = h.held a := by
      simp only [held, hq.held]
    exact ⟨rfl, rfl, rfl, hq.inUse, fun _ _ => rfl, hheld, total_free hheld⟩
  | @own _ asked refusals id p q hlookup hq =>
    have hheld (a) : { h with asked, refusals, locals := (id, q) :: h.locals.eraseP (·.1 == id) }.held a =
        h.held a := by
      rw [held_takeOut (perm_takeOut hlookup)]
      simp only [held, heldByLocals_cons, hq.held]
      omega
    refine ⟨rfl, rfl, rfl, fun _ => rfl, fun other c => ?_, hheld, total_free hheld⟩
    have hpool : h.pool id = .ok p := pool_eq_ok_iff.2 hlookup
    have hputBack := @pool_putBack h q id other
    change ({ h with locals := (id, q) :: h.locals.eraseP (·.1 == id) }.pool other >>= (·.inUse c)) =
      (h.pool other >>= (·.inUse c))
    rw [hputBack]
    split
    · rename_i hid
      rw [hid, hpool]
      exact hq.inUse c
    · rfl

/-! ## The remainder is served next -/

/-- The bump space of the pool that is asked. -/
def space? (h : Heap) (from? : Option PoolId) : Option Region :=
  match from? with
  | none => h.global.space
  | some id => (h.locals.lookup id).bind (·.space)

/-- A free block of its class is what a pool serves first. -/
theorem serve_of_pop {b : Address} (hp : p.Sound h.limits.allocFast) (hc : c < SizeClass.count h.limits.allocFast)
    (hpop : p.pop c = .ok (some b, q))
    (more : Heap → Pool → Except Fault (Except AllocError Address × Pool × Heap)) :
    ∃ q' h', h.serve p c more = .ok (.ok b, q', h') := by
  have hq := ((Pool.pop_ends hp hc).post_of_ok hpop).1
  obtain ⟨q', hcount, -⟩ := (Pool.count_ends hq hc 1).exists_ok
  refine ⟨q', { h with bytesInUse := h.bytesInUse + SizeClass.blockSize c }, ?_⟩
  unfold serve
  simp only [hpop, hcount, bind, Except.bind, pure, Except.pure]

theorem Refused.remainder (hr : Refused h from? size h')
    (hfast : SizeClass.ofSize size h.limits.allocFast ≠ .ok .big) {r : Region} (hspace : h.space? from? = some r)
    (hpos : 0 < r.length) : ∃ h'', h'.alloc from? r.length = .ok (.ok r.start, h'') := by
  cases hr with
  | big hclass => exact absurd hclass hfast
  | @shared _ asked refusals q hq =>
    obtain ⟨d, q', hclass, hpop⟩ := hq.remainder r hspace hpos
    obtain ⟨q₁, h₁, hserve⟩ := serve_of_pop (h := { h with asked, refusals, global := { shelves := #[] } }) hq.sound
      (SizeClass.serves_of_ofSize hclass).lt hpop fun h p => h.carveAnew p (SizeClass.blockSize d)
    simp only [Heap.alloc, allocGlobal, hclass, takeGlobal, hserve, bind, Except.bind]
    exact ⟨_, rfl⟩
  | @own _ asked refusals id p q hlookup hq =>
    simp only [space?, hlookup, Option.bind_some] at hspace
    obtain ⟨d, q', hclass, hpop⟩ := hq.remainder r hspace hpos
    obtain ⟨q₁, h₁, hserve⟩ := serve_of_pop (h := { h with asked, refusals, locals := h.locals.eraseP (·.1 == id) })
      hq.sound (SizeClass.serves_of_ofSize hclass).lt hpop fun h p => h.refill p d
    simp only [Heap.alloc, allocLocal, hclass, takeOut, Heap.pool, List.lookup_cons, beq_self_eq_true,
      List.eraseP_cons, cond_true, bind, Except.bind, hserve, pure, Except.pure]
    exact ⟨_, rfl⟩

/-! ## Refusals are reported -/

/-- The chunk that serves a request: one to be carved from, or the block alone. -/
def chunkFor (h : Heap) (length : Nat) : Nat := if length ≤ h.limits.allocFast then h.limits.chunkSize else length

/-- A request ended with `answer`, where refusals are told to a hook: out of memory is reported exactly, and loses
nothing. -/
structure Reported (h : Heap) (from? : Option PoolId) (size : Nat) (hook : String)
    (answer : Except AllocError Address) (h' : Heap) : Prop where
  /-- It is reported where the system was asked and gave nothing, -/
  refused_iff : answer = .error .outOfMemory ↔ h'.asked = h.asked + 1 ∧ h'.reserved = h.reserved
  /-- that is where nothing in store serves the request and the system refuses the chunk that it takes. -/
  foreseen : answer = .error .outOfMemory ↔ ∃ n, h.demand? from? size = some n ∧ h.supply.Denies n
  /-- The hook is told once, of that chunk. -/
  told : answer = .error .outOfMemory → ∃ refusal length, h'.refusals = h.refusals ++ [refusal] ∧
    refusal.hook = hook ∧ roundUp size = .ok length ∧ refusal.layout = (h.chunkFor length, alignment)
  untold : answer ≠ .error .outOfMemory → h'.refusals = h.refusals
  nothing_lost : answer = .error .outOfMemory → NothingLost h h'
  /-- What a pool had left to carve from, it serves next, be the refusal collected or not. -/
  remainder : answer = .error .outOfMemory → ∀ length, roundUp size = .ok length → length ≤ h.limits.allocFast →
    ∀ r, h.space? from? = some r → 0 < r.length →
    ∀ refusals, ∃ h'', { h' with refusals }.alloc from? r.length = .ok (.ok r.start, h'')

theorem demand_eq_chunkFor {n : Nat} (hround : roundUp size = .ok length) (hn : h.demand? from? size = some n) :
    n = h.chunkFor length := by
  rcases demand_cases hn with ⟨c, hclass, -, rfl⟩ | ⟨hclass, hround'⟩
  · obtain ⟨hround', hle, -⟩ := SizeClass.ofSize_eq_fast hclass
    cases hround.symm.trans hround'
    exact (if_pos hle).symm
  · obtain ⟨_, hround'', hlt⟩ := SizeClass.ofSize_eq_big hclass
    cases hround.symm.trans hround''
    cases hround.symm.trans hround'
    exact (if_neg (Nat.not_le.2 hlt)).symm

/-- A request that the system grants a chunk has more reserved for it than before. -/
theorem refused_iff_of_supplied {demand? : Option Nat} (hpos : ∀ n, demand? = some n → 0 < n)
    (hs : Supplied h.supply demand? answer h'.supply) :
    answer = .error .outOfMemory ↔ h'.asked = h.asked + 1 ∧ h'.reserved = h.reserved := by
  change _ ↔ h'.supply.asked = h.supply.asked + 1 ∧ h'.supply.reserved = h.supply.reserved
  generalize h.supply = s at hs
  generalize h'.supply = s' at hs
  cases hs with
  | stocked => simp
  | granted =>
    have := hpos _ rfl
    simp only [reduceCtorEq, false_iff]
    omega
  | denied => simp
  | unheard => simp

theorem Owned.reported (ho : Owned limits h out) (hchunk : h.limits.allocFast ≤ h.limits.chunkSize) {hook : String}
    (hhook : h.hook = some hook) (hfrom : h.HasPool from?) (size : Nat) :
    ∃ answer h', h.alloc from? size = .ok (answer, h') ∧ Reported h from? size hook answer h' := by
  cases hround : roundUp size with
  | error e =>
    obtain ⟨rfl, -⟩ := roundUp_eq_error_iff.1 hround
    have hnone : h.demand? from? size = none := by simp only [demand?, SizeClass.ofSize, hround]
    exact ⟨_, h, alloc_of_no_size hround from?, by simp, by simp [hnone], by simp, fun _ => rfl, by simp, by simp⟩
  | ok length =>
    have hhungry : ¬ h.supply.Starves (h.demand? from? size) := by
      rintro ⟨hnone, -⟩
      cases hhook.symm.trans hnone
    obtain ⟨⟨answer, h'⟩, halloc, hs⟩ :=
      ((ho.alloc_supplied hchunk hfrom hround).starve hhungry).exists_ok
    refine ⟨answer, h', halloc, refused_iff_of_supplied ?_ hs, hs.outOfMemory_iff, ?_, ?_, ?_, ?_⟩
    · intro n hn
      have hlength := pos_of_roundUp hround
      rw [demand_eq_chunkFor hround hn]
      unfold chunkFor
      split <;> omega
    · rintro rfl
      rcases hs.refusals with ⟨hne, -⟩ | ⟨hook', n, hhook', hn, -, -, htold⟩
      · exact absurd rfl hne
      · cases hhook.symm.trans hhook'
        exact ⟨⟨hook, n⟩, length, htold, rfl, hround, Prod.ext (demand_eq_chunkFor hround hn) rfl⟩
    · intro hne
      rcases hs.refusals with ⟨-, hsame⟩ | ⟨-, -, -, -, -, hanswer, -⟩
      · exact hsame
      · exact absurd hanswer hne
    · rintro rfl
      exact (ho.alloc_refused hround halloc).nothingLost
    · rintro rfl length' hround' hfast r hspace hlt refusals
      cases hround.symm.trans hround'
      refine ((ho.alloc_refused hround halloc).collected refusals).remainder (fun hbig => ?_) hspace hlt
      obtain ⟨_, hround', hlt⟩ := SizeClass.ofSize_eq_big hbig
      cases hround.symm.trans hround'
      exact absurd hfast (Nat.not_le.2 hlt)

end Heap

end AtomHeap
