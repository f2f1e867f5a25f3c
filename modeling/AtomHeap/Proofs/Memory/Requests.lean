import AtomHeap.Proofs.Memory.Run
/-!
# Requests and the bytes in use

`Heap.Request h out h' out'` is one request of somebody who has the blocks `out` of a heap and then has
`out'`. Others may have blocks of the same heap. Whoever makes it, a request keeps `Heap.Settled`: each
byte has one owner, and the heap counts as many bytes in use as all the blocks handed out are long. What the
steps of a request can come to is said by one lemma for each (`newSpace_cases`, `carveAnew_cases`, `alloc_cases`,
`free_cases` and so on), which all that follows goes by.
-/

namespace AtomHeap.Heap

/-- One request to a heap, of somebody who has the blocks `out`. -/
inductive Request (h : Heap) (out : List Region) : Heap → List Region → Prop
  | openPool : Request h out h.openPool.2 out
  | closePool {h' : Heap} {id : PoolId} :
      h.HasPool (some id) → h.closePool id = .ok h' → Request h out h' out
  | setHook (hook : String) : Request h out (h.setHook hook) out
  /-- The refusals so far are collected. -/
  | collect : Request h out { h with refusals := [] } out
  | served {h' : Heap} {from? : Option PoolId} {size length : Nat} {b : Address} :
      h.HasPool from? → h.alloc from? size = .ok (.ok b, h') → roundUp size = .ok length →
      Request h out h' (⟨b, length⟩ :: out)
  | refused {h' : Heap} {from? : Option PoolId} {size : Nat} {e : AllocError} :
      h.HasPool from? → h.alloc from? size = .ok (.error e, h') → Request h out h' out
  | freed {h' : Heap} {into? : Option PoolId} {r : Region} {size : Nat} :
      h.HasPool into? → r ∈ out → roundUp size = .ok r.length → h.free into? r.start size = .ok h' →
      Request h out h' (out.erase r)

/-- The lengths of some blocks together. -/
def total (out : List Region) : Nat := (out.map (·.length)).sum

/-- Each byte of a heap whose callers have the blocks `out` has one owner, and the bytes in use are
counted. -/
structure Settled (limits : Limits) (h : Heap) (out : List Region) : Prop where
  owned : Owned limits h out
  inUse : h.bytesInUse = total out

variable {limits : Limits} {grants : Nat → Nat → Bool} {h h' h'' : Heap} {p q : Pool}
  {out out' out'' mine : List Region} {r : Region} {id : PoolId} {c m n size length : Nat}
  {from? : Option PoolId} {b : Address} {answer : Except AllocError Address}

theorem total_cons (r : Region) (out : List Region) : total (r :: out) = r.length + total out := by
  unfold total
  rw [List.map_cons, List.sum_cons]

theorem total_append (out out' : List Region) : total (out ++ out') = total out + total out' := by
  unfold total
  rw [List.map_append, List.sum_append]

theorem total_perm (hp : out.Perm out') : total out = total out' := (hp.map _).sum_nat

/-! ## What the system is asked for -/

/-- What asking the system for this many bytes comes to: the heap has them, or a record that it asked. -/
inductive Asked (h : Heap) (size : Nat) : Except AllocError Unit → Heap → Prop
  | granted : h.reserved + size < wordCount →
      Asked h size (.ok ()) { h with asked := h.asked + 1, reserved := h.reserved + size }
  | denied {e : AllocError} {asked : Nat} {refusals : List Refusal} : Asked h size (.error e) { h with asked, refusals }

theorem obtain_cases {answer : Except AllocError Unit} (ho : h.obtain size = .ok (answer, h')) :
    Asked h size answer h' := by
  unfold obtain at ho
  split at ho
  · cases ho
    exact .denied
  · split at ho
    · rename_i hgranted
      cases ho
      exact .granted (of_decide_eq_true (Bool.and_eq_true_iff.1 hgranted).2)
    · split at ho
      all_goals cases ho
      exact .denied

/-- Where a new bump space comes from: it was left over, or it is all of a new chunk. -/
inductive Spaced (h : Heap) (min : Nat) : Except AllocError Region → Heap → Prop
  | spare {r : Region} {leftOver : List Region} : Region.takeFirst? h.leftOver min = some (r, leftOver) →
      Spaced h min (.ok r) { h with leftOver }
  | chunk {length : Nat} : length = max h.limits.chunkSize min → h.reserved + length < wordCount →
      Spaced h min (.ok ⟨(ChunkId.carving (h.firstCarving + h.carving.size)).start, length⟩)
        { h with asked := h.asked + 1, reserved := h.reserved + length, carving := h.carving.push length }
  | denied {e : AllocError} {asked : Nat} {refusals : List Refusal} : Spaced h min (.error e) { h with asked, refusals }

theorem newSpace_cases {answer : Except AllocError Region} (hn : h.newSpace size = .ok (answer, h')) :
    Spaced h size answer h' := by
  unfold newSpace at hn
  split at hn
  · rename_i htake
    cases hn
    exact .spare htake
  · obtain ⟨⟨_ | _, h₁⟩, hobtain, hn⟩ := bind_eq_ok_iff.1 hn
    all_goals
      cases hn
      cases obtain_cases hobtain
    · exact .denied
    · exact .chunk rfl ‹_›

/-- What becomes of a pool that gives up its bump space for another one to carve a block from. -/
inductive Anew (h : Heap) (p : Pool) (size : Nat) : Except AllocError Address → Pool → Heap → Prop
  | refused {e : AllocError} {r? : Option Region} {q : Pool} {h' : Heap} : p.retire h.limits.allocFast = .ok (r?, q) →
      { h with leftOver := h.leftOver ++ r?.toList }.newSpace size = .ok (.error e, h') → Anew h p size (.error e) q h'
  | carved {r : Region} {b : Address} {r? : Option Region} {p₁ q : Pool} {h' : Heap} :
      p.retire h.limits.allocFast = .ok (r?, p₁) →
      { h with leftOver := h.leftOver ++ r?.toList }.newSpace size = .ok (.ok r, h') →
      { p₁ with space := some r }.carve? size = some (b, q) → Anew h p size (.ok b) q h'
  /-- The new bump space is too short. -/
  | short {r : Region} {r? : Option Region} {q : Pool} {h' : Heap} : p.retire h.limits.allocFast = .ok (r?, q) →
      { h with leftOver := h.leftOver ++ r?.toList }.newSpace size = .ok (.ok r, h') →
      Anew h p size (.error .outOfMemory) { q with space := some r } h'

theorem carveAnew_cases (hc : h.carveAnew p size = .ok (answer, q, h')) : Anew h p size answer q h' := by
  obtain ⟨⟨r?, p₁⟩, hretire, hc⟩ := bind_eq_ok_iff.1 hc
  obtain ⟨⟨e | r, h₁⟩, hspace, hc⟩ := bind_eq_ok_iff.1 hc
  · cases hc
    exact .refused hretire hspace
  · simp only at hc
    split at hc
    all_goals
      rename_i hcarve
      cases hc
    · exact .carved hretire hspace hcarve
    · exact .short hretire hspace

/-- How a local pool that is out of blocks of class `c` comes by one: with a batch from the shared pool, or anew where
the shared pool has none. -/
inductive Refilled (h : Heap) (p : Pool) (c : Nat) : Except AllocError Address → Pool → Heap → Prop
  | batch {b : Address} {batch rest : FreeList} {global q : Pool} :
      h.global.splitTop c refillBatch = .ok (batch, global) → batch.blocks = b :: rest.blocks →
      p.append c rest = .ok q → Refilled h p c (.ok b) q { h with global }
  | anew {answer : Except AllocError Address} {batch : FreeList} {global q : Pool} {h' : Heap} :
      h.global.splitTop c refillBatch = .ok (batch, global) → batch.blocks = [] →
      { h with global }.carveAnew p (SizeClass.blockSize c) = .ok (answer, q, h') → Refilled h p c answer q h'

theorem refill_cases (hr : h.refill p c = .ok (answer, q, h')) : Refilled h p c answer q h' := by
  obtain ⟨⟨batch, global⟩, hsplit, hr⟩ := bind_eq_ok_iff.1 hr
  simp only at hr
  split at hr
  · rename_i b rest hpop
    obtain ⟨q', happend, hr⟩ := bind_eq_ok_iff.1 hr
    cases hr
    exact .batch hsplit (FreeList.pop?_eq_some_iff.1 hpop).1 happend
  · rename_i hpop
    exact .anew hsplit (FreeList.pop?_eq_none_iff.1 hpop) hr

/-- What becomes of a request for a chunk of its own. -/
inductive Chunked (h : Heap) (size : Nat) : Except AllocError Address → Heap → Prop
  | granted {length : Nat} : roundUp size = .ok length → h.reserved + length < wordCount →
      Chunked h size (.ok (ChunkId.big h.big.size).start)
        { h with
          asked := h.asked + 1, reserved := h.reserved + length
          big := h.big.push (some length), bytesInUse := h.bytesInUse + length }
  | denied {e : AllocError} {asked : Nat} {refusals : List Refusal} :
      Chunked h size (.error e) { h with asked, refusals }

theorem allocBig_cases (ha : h.allocBig size = .ok (answer, h')) : Chunked h size answer h' := by
  unfold allocBig at ha
  split at ha
  · cases ha
    exact .denied
  · rename_i hround
    obtain ⟨⟨_ | _, h₁⟩, hobtain, ha⟩ := bind_eq_ok_iff.1 ha
    all_goals
      cases ha
      cases obtain_cases hobtain
    · exact .denied
    · exact .granted hround ‹_›

/-! ## What requests do to the figures -/

/-- A heap with the same bytes in use and the same local pools. -/
structure SameBooks (h h' : Heap) : Prop where
  inUse : h'.bytesInUse = h.bytesInUse
  locals : h'.locals = h.locals

theorem newSpace_books {r : Except AllocError Region} (hn : h.newSpace size = .ok (r, h')) : SameBooks h h' := by
  cases newSpace_cases hn <;> exact ⟨rfl, rfl⟩

theorem carveAnew_books (hc : h.carveAnew p size = .ok (answer, q, h')) : SameBooks h h' := by
  cases carveAnew_cases hc with
  | refused _ hspace | carved _ hspace | short _ hspace =>
    exact ⟨(newSpace_books hspace).inUse, (newSpace_books hspace).locals⟩

theorem refill_books (hr : h.refill p c = .ok (answer, q, h')) : SameBooks h h' := by
  cases refill_cases hr with
  | batch => exact ⟨rfl, rfl⟩
  | anew _ _ hcarve =>
    have hbooks := carveAnew_books hcarve
    exact ⟨hbooks.inUse, hbooks.locals⟩

/-- How many bytes an answer hands out, where a block has this many. -/
def handedOut : Except AllocError Address → Nat → Nat
  | .ok _, length => length
  | .error _, _ => 0

/-- How a pool `p` comes by a block of class `c`, or is refused one; what it and the heap are then. -/
inductive Found (h : Heap) (p : Pool) (c : Nat)
    (more : Heap → Pool → Except Fault (Except AllocError Address × Pool × Heap)) :
    Except AllocError Address → Pool → Heap → Prop
  | popped {b : Address} {q : Pool} : p.pop c = .ok (some b, q) → Found h p c more (.ok b) q h
  | carved {b : Address} {p₁ q : Pool} :
      p.pop c = .ok (none, p₁) → p₁.carve? (SizeClass.blockSize c) = some (b, q) → Found h p c more (.ok b) q h
  | more {answer : Except AllocError Address} {p₁ q : Pool} {h' : Heap} :
      p.pop c = .ok (none, p₁) → p₁.carve? (SizeClass.blockSize c) = none → more h p₁ = .ok (answer, q, h') →
      Found h p c more answer q h'

/-- However a block was come by, all that is left is to count it. -/
theorem serve_cases {more : Heap → Pool → Except Fault (Except AllocError Address × Pool × Heap)}
    (hs : h.serve p c more = .ok (answer, q, h')) :
    ∃ p₁ h₁, Found h p c more answer p₁ h₁ ∧
      match answer with
      | .error _ => q = p₁ ∧ h' = h₁
      | .ok _ =>
        p₁.count c 1 = .ok q ∧ h' = { h₁ with bytesInUse := h₁.bytesInUse + SizeClass.blockSize c } := by
  obtain ⟨⟨_ | b, p₁⟩, hpop, hs⟩ := bind_eq_ok_iff.1 hs
  · simp only at hs
    split at hs
    · rename_i b p₂ hcarve
      obtain ⟨_, hfound, hs⟩ := bind_eq_ok_iff.1 hs
      cases hfound
      obtain ⟨q₁, hcount, hs⟩ := bind_eq_ok_iff.1 hs
      cases hs
      exact ⟨p₂, h, .carved hpop hcarve, hcount, rfl⟩
    · rename_i hcarve
      obtain ⟨⟨e | b, p₂, h₁⟩, hmore, hs⟩ := bind_eq_ok_iff.1 hs
      · cases hs
        exact ⟨p₂, h₁, .more hpop hcarve hmore, rfl, rfl⟩
      · obtain ⟨q₁, hcount, hs⟩ := bind_eq_ok_iff.1 hs
        cases hs
        exact ⟨p₂, h₁, .more hpop hcarve hmore, hcount, rfl⟩
  · obtain ⟨_, hfound, hs⟩ := bind_eq_ok_iff.1 hs
    cases hfound
    obtain ⟨q₁, hcount, hs⟩ := bind_eq_ok_iff.1 hs
    cases hs
    exact ⟨p₁, h, .popped hpop, hcount, rfl⟩

/-- Serving counts the block that it hands out. -/
theorem serve_books {more : Heap → Pool → Except Fault (Except AllocError Address × Pool × Heap)}
    (hmore : ∀ p answer q h', more h p = .ok (answer, q, h') → SameBooks h h')
    (hs : h.serve p c more = .ok (answer, q, h')) :
    h'.bytesInUse = h.bytesInUse + handedOut answer (SizeClass.blockSize c) ∧ h'.locals = h.locals := by
  obtain ⟨p₁, h₁, hfound, hcount⟩ := serve_cases hs
  have hbooks : SameBooks h h₁ := by
    cases hfound with
    | popped => exact ⟨rfl, rfl⟩
    | carved => exact ⟨rfl, rfl⟩
    | more _ _ hm => exact hmore _ _ _ _ hm
  cases answer with
  | error e =>
    obtain ⟨-, rfl⟩ := hcount
    exact ⟨hbooks.inUse, hbooks.locals⟩
  | ok b =>
    obtain ⟨-, rfl⟩ := hcount
    exact ⟨congrArg (· + _) hbooks.inUse, hbooks.locals⟩

theorem mem_putBack {rest : List (PoolId × Pool)} (hperm : h.locals.Perm ((id, p) :: rest)) (other : PoolId) :
    other ∈ ((id, q) :: rest).map (·.1) ↔ other ∈ h.locals.map (·.1) :=
  (hperm.map (·.1)).symm.mem_iff

theorem takeOut_eq (ht : h.takeOut id = .ok (p, h')) :
    ∃ rest, h' = { h with locals := rest } ∧ h.locals.Perm ((id, p) :: rest) := by
  obtain ⟨p₁, hp, ht⟩ := bind_eq_ok_iff.1 ht
  cases ht
  exact ⟨_, rfl, perm_takeOut (pool_eq_ok_iff.1 hp)⟩

theorem allocBig_books (hround : roundUp size = .ok length) (ha : h.allocBig size = .ok (answer, h')) :
    h'.bytesInUse = h.bytesInUse + handedOut answer length ∧ h'.locals = h.locals := by
  cases allocBig_cases ha with
  | denied => exact ⟨rfl, rfl⟩
  | granted hlength =>
    cases hround.symm.trans hlength
    exact ⟨rfl, rfl⟩

/-- How a request for a block of this many bytes is answered: by the system, by the shared pool or by a
local one. -/
inductive Allocated (h : Heap) (size length : Nat) : Except AllocError Address → Heap → Prop
  | big {answer : Except AllocError Address} {h' : Heap} :
      h.limits.allocFast < length → h.allocBig size = .ok (answer, h') → Allocated h size length answer h'
  | shared {answer : Except AllocError Address} {c : Nat} {q : Pool} {h₁ : Heap} :
      length = SizeClass.blockSize c →
      { h with global := { shelves := #[] } }.serve h.global c
        (fun h p => h.carveAnew p (SizeClass.blockSize c)) = .ok (answer, q, h₁) →
      Allocated h size length answer { h₁ with global := q }
  | own {answer : Except AllocError Address} {c : Nat} {id : PoolId} {p q : Pool} {rest : List (PoolId × Pool)}
      {h₁ : Heap} :
      length = SizeClass.blockSize c → h.locals.Perm ((id, p) :: rest) →
      { h with locals := rest }.serve p c (fun h p => h.refill p c) = .ok (answer, q, h₁) →
      Allocated h size length answer (h₁.putBack id q)

theorem alloc_cases (hround : roundUp size = .ok length) (ha : h.alloc from? size = .ok (answer, h')) :
    Allocated h size length answer h' := by
  rcases SizeClass.ofSize_cases hround h.limits.allocFast with ⟨c, hlength, hclass⟩ | ⟨hbig, hclass⟩
  · cases from? with
    | none =>
      unfold Heap.alloc allocGlobal at ha
      simp only [hclass] at ha
      obtain ⟨⟨answer₁, q, h₁⟩, hserve, ha⟩ := bind_eq_ok_iff.1 ha
      cases ha
      exact .shared hlength hserve
    | some id =>
      unfold Heap.alloc allocLocal at ha
      simp only [hclass] at ha
      obtain ⟨⟨p, h₁⟩, htake, ha⟩ := bind_eq_ok_iff.1 ha
      obtain ⟨⟨answer₁, q, h₂⟩, hserve, ha⟩ := bind_eq_ok_iff.1 ha
      cases ha
      obtain ⟨rest, rfl, hperm⟩ := takeOut_eq htake
      exact .own hlength hperm hserve
  · exact .big hbig ((alloc_of_big hclass).symm.trans ha)

/-- An allocation counts the block that it hands out, and opens and closes no pool. -/
theorem alloc_books (hround : roundUp size = .ok length) (ha : h.alloc from? size = .ok (answer, h')) :
    h'.bytesInUse = h.bytesInUse + handedOut answer length ∧
      ∀ id, id ∈ h'.locals.map (·.1) ↔ id ∈ h.locals.map (·.1) := by
  cases alloc_cases hround ha with
  | big _ hbig =>
    obtain ⟨hinUse, hlocals⟩ := allocBig_books hround hbig
    refine ⟨hinUse, fun id => ?_⟩
    rw [hlocals]
  | shared hlength hserve =>
    obtain ⟨hinUse, hlocals⟩ := serve_books (fun _ _ _ _ => carveAnew_books) hserve
    refine ⟨hlength ▸ hinUse, fun id => ?_⟩
    rw [hlocals]
  | own hlength hperm hserve =>
    obtain ⟨hinUse, hlocals⟩ := serve_books (fun _ _ _ _ => refill_books) hserve
    refine ⟨hlength ▸ hinUse, fun other => ?_⟩
    unfold putBack
    simp only [hlocals]
    exact mem_putBack hperm other

/-- A size that no block has is refused before anything is done. -/
theorem alloc_of_no_size {e : AllocError} (hround : roundUp size = .error e) (from? : Option PoolId) :
    h.alloc from? size = .ok (.error e, h) := by
  cases from? <;> simp only [Heap.alloc, allocLocal, allocGlobal, SizeClass.ofSize, hround]

/-- What is served has the length of a block. -/
theorem exists_length (ha : h.alloc from? size = .ok (.ok b, h')) : ∃ length, roundUp size = .ok length := by
  cases hround : roundUp size with
  | ok length => exact ⟨length, rfl⟩
  | error e =>
    rw [alloc_of_no_size hround] at ha
    cases ha

theorem alloc_pools (ha : h.alloc from? size = .ok (answer, h')) (id : PoolId) :
    id ∈ h'.locals.map (·.1) ↔ id ∈ h.locals.map (·.1) := by
  cases hround : roundUp size with
  | ok length => exact (alloc_books hround ha).2 id
  | error e =>
    rw [alloc_of_no_size hround] at ha
    cases ha
    exact .rfl

theorem hasPool_of_pool (hp : h.pool id = .ok p) : h.HasPool (some id) := by
  intro _ hid
  cases hid
  exact ((perm_takeOut (pool_eq_ok_iff.1 hp)).map (·.1)).symm.subset List.mem_cons_self

/-- What a local pool that is not open serves, the shared pool would as well. -/
theorem exists_hasPool (ha : h.alloc from? size = .ok (answer, h')) :
    ∃ pool?, h.HasPool pool? ∧ h.alloc pool? size = .ok (answer, h') := by
  cases from? with
  | none => exact ⟨none, h.hasPool_none, ha⟩
  | some id =>
    cases hclass : SizeClass.ofSize size h.limits.allocFast with
    | ok c =>
      cases c with
      | big => exact ⟨none, h.hasPool_none, by rwa [alloc_of_big hclass] at ha ⊢⟩
      | fast c =>
        have hlocal := ha
        simp only [Heap.alloc, allocLocal, hclass] at hlocal
        obtain ⟨⟨p, h₁⟩, htake, -⟩ := bind_eq_ok_iff.1 hlocal
        obtain ⟨p, hpool, -⟩ := bind_eq_ok_iff.1 htake
        exact ⟨some id, hasPool_of_pool hpool, ha⟩
    | error e => exact ⟨none, h.hasPool_none, by simpa only [Heap.alloc, allocLocal, allocGlobal, hclass] using ha⟩

/-- All that taking a block back into a pool does. -/
theorem takeBack_inv (ht : h.takeBack p c b = .ok (q, h')) :
    ∃ p₁, p.push c b = .ok p₁ ∧ p₁.count c (-1) = .ok q ∧
      h' = { h with bytesInUse := h.bytesInUse - SizeClass.blockSize c } := by
  obtain ⟨p₁, hpush, ht⟩ := bind_eq_ok_iff.1 ht
  obtain ⟨p₂, hcount, ht⟩ := bind_eq_ok_iff.1 ht
  cases ht
  exact ⟨p₁, hpush, hcount, rfl⟩

theorem takeBack_books (ht : h.takeBack p c b = .ok (q, h')) :
    h'.bytesInUse = h.bytesInUse - SizeClass.blockSize c ∧ h'.locals = h.locals := by
  obtain ⟨_, -, -, rfl⟩ := takeBack_inv ht
  exact ⟨rfl, rfl⟩

/-- What a local pool with so many blocks of class `c` gives to the shared one. -/
inductive Spilled (h : Heap) (p : Pool) (c : Nat) : Pool → Heap → Prop
  | short {length : Nat} : p.freeCount c = .ok length → length ≤ h.limits.localFreeMax → Spilled h p c p h
  | long {length : Nat} {top : FreeList} {global q : Pool} :
      p.freeCount c = .ok length → h.limits.localFreeMax < length → p.splitTop c (length / 2) = .ok (top, q) →
      h.global.append c top = .ok global → Spilled h p c q { h with global }

theorem spill_cases (hs : h.spill p c = .ok (q, h')) : Spilled h p c q h' := by
  obtain ⟨length, hlength, hs⟩ := bind_eq_ok_iff.1 hs
  split at hs
  · rename_i hlong
    obtain ⟨⟨top, p₁⟩, hsplit, hs⟩ := bind_eq_ok_iff.1 hs
    obtain ⟨global, happend, hs⟩ := bind_eq_ok_iff.1 hs
    cases hs
    exact .long hlength hlong hsplit happend
  · rename_i hshort
    cases hs
    exact .short hlength (Nat.le_of_not_lt hshort)

theorem spill_books (hs : h.spill p c = .ok (q, h')) : SameBooks h h' := by
  cases spill_cases hs <;> exact ⟨rfl, rfl⟩

/-- All that returning a big block does. -/
theorem freeBig_inv (hf : h.freeBig b size = .ok h') :
    ∃ n length, b = (ChunkId.big n).start ∧ roundUp size = .ok length ∧ h.chunkLength? (.big n) = some length ∧
      h' = { h with
        big := h.big.setIfInBounds n none
        reserved := h.reserved - length
        bytesInUse := h.bytesInUse - length } := by
  unfold freeBig at hf
  split at hf
  · rename_i n length hround
    split at hf
    · rename_i hlength
      cases hf
      exact ⟨n, length, rfl, hround, hlength, rfl⟩
    · cases hf
  · cases hf

theorem freeBig_books (hround : roundUp size = .ok length) (hf : h.freeBig b size = .ok h') :
    h'.bytesInUse = h.bytesInUse - length ∧ h'.locals = h.locals := by
  obtain ⟨n, length', -, hround', -, rfl⟩ := freeBig_inv hf
  cases hround.symm.trans hround'
  exact ⟨rfl, rfl⟩

/-- How a block of this many bytes goes back: to the system, to the shared pool or to a local one. -/
inductive Freed (h : Heap) (b : Address) (size length : Nat) : Heap → Prop
  | big {h' : Heap} : h.limits.allocFast < length → h.freeBig b size = .ok h' → Freed h b size length h'
  | shared {c : Nat} {q : Pool} {h₁ : Heap} :
      length = SizeClass.blockSize c →
      { h with global := { shelves := #[] } }.takeBack h.global c b = .ok (q, h₁) →
      Freed h b size length { h₁ with global := q }
  | own {c : Nat} {id : PoolId} {p p₁ q : Pool} {rest : List (PoolId × Pool)} {h₁ h₂ : Heap} :
      length = SizeClass.blockSize c → h.locals.Perm ((id, p) :: rest) →
      { h with locals := rest }.takeBack p c b = .ok (p₁, h₁) → h₁.spill p₁ c = .ok (q, h₂) →
      Freed h b size length (h₂.putBack id q)

theorem free_cases {into? : Option PoolId} (hround : roundUp size = .ok length)
    (hf : h.free into? b size = .ok h') : Freed h b size length h' := by
  rcases SizeClass.ofSize_cases hround h.limits.allocFast with ⟨c, hlength, hclass⟩ | ⟨hbig, hclass⟩
  · cases into? with
    | none =>
      unfold Heap.free freeGlobal at hf
      simp only [hclass] at hf
      obtain ⟨⟨q, h₁⟩, hback, hf⟩ := bind_eq_ok_iff.1 hf
      cases hf
      exact .shared hlength hback
    | some id =>
      unfold Heap.free freeLocal at hf
      simp only [hclass] at hf
      obtain ⟨⟨p, h₁⟩, htake, hf⟩ := bind_eq_ok_iff.1 hf
      obtain ⟨⟨p₁, h₂⟩, hback, hf⟩ := bind_eq_ok_iff.1 hf
      obtain ⟨⟨q, h₃⟩, hspill, hf⟩ := bind_eq_ok_iff.1 hf
      cases hf
      obtain ⟨rest, rfl, hperm⟩ := takeOut_eq htake
      exact .own hlength hperm hback hspill
  · exact .big hbig ((free_of_big hclass).symm.trans hf)

/-- A block that is freed is not counted any longer, and no pool is opened or closed. -/
theorem free_books {into? : Option PoolId} (hround : roundUp size = .ok length)
    (hf : h.free into? b size = .ok h') :
    h'.bytesInUse = h.bytesInUse - length ∧ ∀ id, id ∈ h'.locals.map (·.1) ↔ id ∈ h.locals.map (·.1) := by
  cases free_cases hround hf with
  | big _ hbig =>
    obtain ⟨hinUse, hlocals⟩ := freeBig_books hround hbig
    refine ⟨hinUse, fun id => ?_⟩
    rw [hlocals]
  | shared hlength hback =>
    obtain ⟨hinUse, hlocals⟩ := takeBack_books hback
    refine ⟨hlength ▸ hinUse, fun id => ?_⟩
    rw [hlocals]
  | own hlength hperm hback hspill =>
    obtain ⟨hinUse, hlocals⟩ := takeBack_books hback
    have hbooks := spill_books hspill
    refine ⟨hlength ▸ hbooks.inUse.trans hinUse, fun other => ?_⟩
    unfold putBack
    simp only [hbooks.locals, hlocals]
    exact mem_putBack hperm other

/-! ## Requests keep heaps settled -/

theorem Owned.perm (ho : Owned limits h out) (hp : out.Perm out') : Owned limits h out' where
  limits := ho.limits
  chunkSize := ho.chunkSize
  global := ho.global
  locals := ho.locals
  ids := ho.ids
  fresh := ho.fresh
  leftOver := ho.leftOver
  bytes a := by
    rw [← coverage_perm hp]
    exact ho.bytes a
  handed r hr := ho.handed r (hp.symm.subset hr)
  big n length hlen := hp.subset (ho.big n length hlen)

theorem Settled.perm (hs : Settled limits h out) (hp : out.Perm out') : Settled limits h out' :=
  ⟨hs.owned.perm hp, hs.inUse.trans (total_perm hp)⟩

theorem Settled.served (hs : Settled limits h out) (hfrom : h.HasPool from?)
    (ha : h.alloc from? size = .ok (.ok b, h')) (hround : roundUp size = .ok length) :
    Settled limits h' (⟨b, length⟩ :: out) := by
  obtain ⟨blocks, howned, rounded, hrounded, rfl⟩ := (hs.owned.alloc_ends hfrom _).post_of_ok ha
  cases hround.symm.trans hrounded
  refine ⟨howned, ?_⟩
  rw [(alloc_books hround ha).1, hs.inUse, total_cons, Nat.add_comm]
  rfl

theorem Settled.refused (hs : Settled limits h out) (hfrom : h.HasPool from?) {e : AllocError}
    (ha : h.alloc from? size = .ok (.error e, h')) : Settled limits h' out := by
  obtain ⟨blocks, howned, rfl⟩ := (hs.owned.alloc_ends hfrom _).post_of_ok ha
  refine ⟨howned, ?_⟩
  cases hround : roundUp size with
  | ok length => exact (alloc_books hround ha).1.trans hs.inUse
  | error e =>
    rw [alloc_of_no_size hround] at ha
    cases ha
    exact hs.inUse

theorem Settled.freed (hs : Settled limits h out) {into? : Option PoolId} (hinto : h.HasPool into?)
    (hr : r ∈ out) (hround : roundUp size = .ok r.length) (hf : h.free into? r.start size = .ok h') :
    Settled limits h' (out.erase r) := by
  refine ⟨(hs.owned.free_ends hinto hr hround).post_of_ok hf, ?_⟩
  have htotal := (total_perm (List.perm_cons_erase hr)).trans (total_cons r _)
  have hinUse := (free_books hround hf).1
  have := hs.inUse
  omega

theorem Settled.closePool (hs : Settled limits h out) (hid : h.HasPool (some id))
    (hc : h.closePool id = .ok h') : Settled limits h' out := by
  refine ⟨(hs.owned.closePool_ends (hid id rfl)).post_of_ok hc, ?_⟩
  obtain ⟨_, -, rfl⟩ := closePool_cases hc
  exact hs.inUse

/-- A request keeps a heap settled. -/
theorem Settled.request (hs : Settled limits h out) (hq : Request h out h' out') : Settled limits h' out' := by
  cases hq with
  | openPool => exact ⟨hs.owned.openPool, hs.inUse⟩
  | closePool hid hclose => exact hs.closePool hid hclose
  | setHook hook => exact ⟨hs.owned.withHook (some hook) h.refusals, hs.inUse⟩
  | collect => exact ⟨hs.owned.withHook h.hook [], hs.inUse⟩
  | served hfrom halloc hround => exact hs.served hfrom halloc hround
  | refused hfrom halloc => exact hs.refused hfrom halloc
  | freed hinto hmem hround hfree => exact hs.freed hinto hmem hround hfree

/-- A request of one party does not need to know what blocks the others have. -/
theorem Request.frame (hq : Request h out h' out') (mine : List Region) :
    ∃ all, Request h (mine ++ out) h' all ∧ all.Perm (mine ++ out') := by
  cases hq with
  | openPool => exact ⟨_, .openPool, .refl _⟩
  | closePool hid hclose => exact ⟨_, .closePool hid hclose, .refl _⟩
  | setHook hook => exact ⟨_, .setHook hook, .refl _⟩
  | collect => exact ⟨_, .collect, .refl _⟩
  | served hfrom halloc hround => exact ⟨_, .served hfrom halloc hround, List.perm_middle.symm⟩
  | refused hfrom halloc => exact ⟨_, .refused hfrom halloc, .refl _⟩
  | @freed _ _ r _ hinto hmem hround hfree =>
    refine ⟨_, .freed hinto (List.mem_append_right mine hmem) hround hfree, ?_⟩
    -- The block is one of their own, and nobody has it twice.
    have hsplit : (mine ++ out).Perm (r :: (mine ++ out.erase r)) :=
      ((List.perm_cons_erase hmem).append_left mine).trans List.perm_middle
    have := hsplit.erase r
    rwa [List.erase_cons_head] at this

/-! ## Requests in a row -/

/-- Some requests in a row, of somebody who has the blocks `out` first. Blocks have no order. -/
inductive Requests : Nat → Heap → List Region → Heap → List Region → Prop
  | none {h : Heap} {out out' : List Region} : out.Perm out' → Requests 0 h out h out'
  | next {n : Nat} {h h₁ h₂ : Heap} {out out₁ out₂ out' : List Region} :
      out.Perm out₁ → Request h out₁ h₁ out₂ → Requests n h₁ out₂ h₂ out' → Requests (n + 1) h out h₂ out'

namespace Requests

theorem refl (h : Heap) (out : List Region) : Requests 0 h out h out := .none (.refl _)

theorem perm (hp : out.Perm out') (hs : Requests n h out' h' out'') : Requests n h out h' out'' := by
  cases hs with
  | none hp' => exact .none (hp.trans hp')
  | next hp' hq hs => exact .next (hp.trans hp') hq hs

theorem cons (hq : Request h out h' out') (hs : Requests n h' out' h'' out'') : Requests (n + 1) h out h'' out'' :=
  .next (.refl _) hq hs

theorem one (hq : Request h out h' out') : Requests 1 h out h' out' := .cons hq (.refl _ _)

theorem trans (hs : Requests m h out h' out') (hs' : Requests n h' out' h'' out'') :
    Requests (n + m) h out h'' out'' := by
  induction hs with
  | none hp => exact hs'.perm hp
  | next hp hq _ ih => exact .next hp hq (ih hs')

theorem permRight (hs : Requests n h out h' out') (hp : out'.Perm out'') : Requests n h out h' out'' :=
  Nat.zero_add n ▸ hs.trans (.none hp)

theorem settled (hs : Requests n h out h' out') (hsettled : Settled limits h out) : Settled limits h' out' := by
  induction hs with
  | none hp => exact hsettled.perm hp
  | next hp hq _ ih => exact ih ((hsettled.perm hp).request hq)

end Requests

/-- The same local pools are open. -/
def SamePools (h h' : Heap) : Prop := ∀ id, id ∈ h'.locals.map (·.1) ↔ id ∈ h.locals.map (·.1)

theorem SamePools.refl (h : Heap) : SamePools h h := fun _ => .rfl

theorem SamePools.trans (hs : SamePools h h') (hs' : SamePools h' h'') : SamePools h h'' :=
  fun id => (hs' id).trans (hs id)

theorem SamePools.hasPool {pool? : Option PoolId} (hs : SamePools h h') (hp : h.HasPool pool?) : h'.HasPool pool? :=
  fun id hid => (hs id).2 (hp id hid)

/-! ## Runs -/

/-- What holds of a new heap and is kept by requests holds of every heap that requests led to. -/
theorem Run.inv {I : Heap → List Region → Prop} (hstart : I (.empty limits grants) [])
    (hrequest : ∀ {h out h' out'}, I h out → Request h out h' out' → I h' out') (hr : Run limits grants h out) :
    I h out := by
  induction hr with
  | start => exact hstart
  | openPool _ ih => exact hrequest ih .openPool
  | closePool _ hid hclose ih => exact hrequest ih (.closePool hid hclose)
  | setHook hook _ ih => exact hrequest ih (.setHook hook)
  | served _ hfrom halloc hsize ih => exact hrequest ih (.served hfrom halloc hsize)
  | refused _ hfrom halloc ih => exact hrequest ih (.refused hfrom halloc)
  | freed _ hinto hmem hsize hfree ih => exact hrequest ih (.freed hinto hmem hsize hfree)

theorem settled_empty (grants : Nat → Nat → Bool) (hchunk : limits.chunkSize % alignment = 0) :
    Settled limits (.empty limits grants) [] :=
  ⟨owned_empty grants hchunk, rfl⟩

/-- In every heap that requests led to, the bytes in use are those of the blocks handed out. -/
theorem Run.settled (hchunk : limits.chunkSize % alignment = 0) (hr : Run limits grants h out) :
    Settled limits h out :=
  hr.inv (settled_empty grants hchunk) Settled.request

end AtomHeap.Heap
