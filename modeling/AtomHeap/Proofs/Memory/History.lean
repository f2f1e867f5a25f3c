import AtomHeap.Proofs.Memory.Lifetime
/-!
# Histories

A heap may give back all its chunks while local pools are open. These keep what they have, though it lies in no
chunk any longer; they are not to serve or take back blocks again, but nothing hinders them, and what they have
goes to the shared pool when they are closed. `History limits grants h out` is any such history: requests in any
order, and all chunks given back at any time.

That each byte has one owner is lost then. `Shaped` is what all histories keep: every pool is sound and has a
number of its own.
-/

namespace AtomHeap.Heap

variable {limits : Limits} {grants : Nat → Nat → Bool} {h h' : Heap} {p q : Pool} {out out' : List Region}
  {id : PoolId} {c size : Nat} {from? into? : Option PoolId} {b : Address} {answer : Except AllocError Address}

namespace Shaped

theorem lt_of_shelf {allocFast : Nat} {s : Shelf} (hp : p.Sound allocFast) (hs : p.shelf c = .ok s) :
    c < SizeClass.count allocFast :=
  hp.size ▸ (Array.getElem?_eq_some_iff.1 (Pool.shelves_of_shelf hs)).1

/-- A pool that serves a class has a shelf for it. -/
theorem serve_lt {allocFast : Nat} {more : Heap → Pool → Except Fault (Except AllocError Address × Pool × Heap)}
    (hp : p.Sound allocFast) (hs : h.serve p c more = .ok (answer, q, h')) : c < SizeClass.count allocFast := by
  obtain ⟨x, hpop, -⟩ := bind_eq_ok_iff.1 hs
  obtain ⟨s, hshelf, -⟩ := bind_eq_ok_iff.1 hpop
  exact lt_of_shelf hp hshelf

theorem allocBig_untouched (ha : h.allocBig size = .ok (answer, h')) :
    h'.limits = h.limits ∧ h'.nextPool = h.nextPool ∧ h'.leftOver = h.leftOver ∧
      ∀ b, answer = .ok b → b.offset % alignment = 0 := by
  cases allocBig_cases ha with
  | denied => exact ⟨rfl, rfl, rfl, nofun⟩
  | granted =>
    refine ⟨rfl, rfl, rfl, ?_⟩
    rintro _ ⟨⟩
    rfl

theorem served_shared (hs : Shaped limits h)
    (hserve : { h with global := { shelves := #[] } }.serve h.global c
      (fun h p => h.carveAnew p (SizeClass.blockSize c)) = .ok (answer, q, h')) :
    Served (fun g g' => g' = g) c { h with global := { shelves := #[] } } h.global answer q h' := by
  have hready : { h with global := { shelves := #[] } }.Ready := ⟨hs.chunkSize, hs.leftOver⟩
  exact (serve_ends (h := { h with global := { shelves := #[] } }) (G := fun g g' => g' = g) rfl
    hready hs.global (serve_lt hs.global hserve)
    fun q hq => carveAnew_ends hready hq _).post_of_ok hserve

theorem served_own {rest : List (PoolId × Pool)} (hs : Shaped limits h) (hperm : h.locals.Perm ((id, p) :: rest))
    (hserve : { h with locals := rest }.serve p c (fun h p => h.refill p c) = .ok (answer, q, h')) :
    Served (fun _ g' => g'.Sound h.limits.allocFast) c { h with locals := rest } p answer q h' := by
  have hp : p.Sound h.limits.allocFast := hs.locals (_, p) (hperm.symm.subset (.head _))
  have hready : { h with locals := rest }.Ready := ⟨hs.chunkSize, hs.leftOver⟩
  have hc := serve_lt hp hserve
  exact (serve_ends (h := { h with locals := rest })
    (G := fun _ g' => g'.Sound h.limits.allocFast) hs.global hready hp hc
    fun q hq => refill_ends hready hq hs.global hc).post_of_ok hserve

theorem alloc (hs : Shaped limits h) (ha : h.alloc from? size = .ok (answer, h')) :
    Shaped limits h' ∧ ∀ b, answer = .ok b → b.offset % alignment = 0 := by
  cases hround : roundUp size with
  | error e =>
    rw [alloc_of_no_size hround] at ha
    cases ha
    exact ⟨hs, nofun⟩
  | ok length =>
    cases alloc_cases hround ha with
    | big _ hbig =>
      obtain ⟨hlimits, hnext, hleft, hblock⟩ := allocBig_untouched hbig
      have hglobal := allocBig_global hbig
      exact ⟨hs.of_untouched hlimits (allocBig_books hround hbig).2 hnext (hglobal ▸ hs.global)
        (hleft ▸ hs.leftOver), hblock⟩
    | shared _ hserve =>
      have hserved := hs.served_shared hserve
      obtain ⟨hlimits, hlocals, hnext, -, -⟩ := hserved.untouched
      exact ⟨hs.of_untouched hlimits hlocals hnext hserved.pool
        hserved.leftOver, hserved.block⟩
    | own _ hperm hserve =>
      have hserved := hs.served_own hperm hserve
      exact ⟨hs.putBack hperm hserved.untouched.limits hserved.untouched.locals hserved.untouched.nextPool
        hserved.global hserved.pool hserved.leftOver, hserved.block⟩

theorem takeBack_lt {allocFast : Nat} (hp : p.Sound allocFast) (ht : h.takeBack p c b = .ok (q, h')) :
    c < SizeClass.count allocFast := by
  obtain ⟨p₁, hpush, -⟩ := bind_eq_ok_iff.1 ht
  obtain ⟨s, hshelf, -⟩ := bind_eq_ok_iff.1 hpush
  exact lt_of_shelf hp hshelf

theorem free (hs : Shaped limits h) (hb : b.offset % alignment = 0) {length : Nat} (hround : roundUp size = .ok length)
    (hf : h.free into? b size = .ok h') : Shaped limits h' := by
  cases free_cases hround hf with
  | big _ hbig =>
    obtain ⟨_, _, -, -, -, rfl⟩ := freeBig_inv hbig
    exact ⟨hs.limits, hs.chunkSize, hs.global, hs.locals, hs.ids, hs.fresh, hs.leftOver⟩
  | shared _ hback =>
    have hc := takeBack_lt hs.global hback
    obtain ⟨hq, ⟨_, rfl⟩, -⟩ := (takeBack_ends (h := { h with global := { shelves := #[] } }) hs.global hc
      hb).post_of_ok hback
    exact ⟨hs.limits, hs.chunkSize, hq, hs.locals, hs.ids, hs.fresh, hs.leftOver⟩
  | @own _ _ p _ _ rest _ _ _ hperm hback hspill =>
    have hp : p.Sound h.limits.allocFast := hs.locals (_, p) (hperm.symm.subset (.head _))
    have hc := takeBack_lt hp hback
    obtain ⟨hp₁, ⟨bytesInUse, rfl⟩, -⟩ := (takeBack_ends (h := { h with locals := rest }) hp hc hb).post_of_ok hback
    obtain ⟨hq, global, rfl, hglobal, -⟩ :=
      (spill_ends (h := { h with locals := rest, bytesInUse }) hp₁ hs.global hc).post_of_ok hspill
    exact hs.putBack hperm rfl rfl rfl hglobal hq hs.leftOver

/-- A request keeps the shape of a heap, and hands out blocks that are aligned. -/
theorem request (hs : Shaped limits h) (hout : ∀ r ∈ out, r.start.offset % alignment = 0)
    (hq : Request h out h' out') : Shaped limits h' ∧ ∀ r ∈ out', r.start.offset % alignment = 0 := by
  cases hq with
  | openPool => exact ⟨hs.openPool, hout⟩
  | closePool _ hclose => exact ⟨hs.closePool hclose, hout⟩
  | setHook hook => exact ⟨⟨hs.limits, hs.chunkSize, hs.global, hs.locals, hs.ids, hs.fresh, hs.leftOver⟩, hout⟩
  | collect => exact ⟨⟨hs.limits, hs.chunkSize, hs.global, hs.locals, hs.ids, hs.fresh, hs.leftOver⟩, hout⟩
  | served _ halloc _ =>
    obtain ⟨hs', hblock⟩ := hs.alloc halloc
    refine ⟨hs', fun r hr => ?_⟩
    rcases List.mem_cons.1 hr with rfl | hr
    · exact hblock _ rfl
    · exact hout r hr
  | refused _ halloc => exact ⟨(hs.alloc halloc).1, hout⟩
  | freed _ hmem hround hfree =>
    exact ⟨hs.free (hout _ hmem) hround hfree, fun r hr => hout r (List.mem_of_mem_erase hr)⟩

end Shaped

/-- Heaps that requests lead to, and resets at any time, with the blocks that callers have. -/
inductive History (limits : Limits) (grants : Nat → Nat → Bool) : Heap → List Region → Prop
  | start : History limits grants (.empty limits grants) []
  | request {h h' : Heap} {out out' : List Region} :
      History limits grants h out → Request h out h' out' → History limits grants h' out'
  | destroyAll {h : Heap} {out : List Region} : History limits grants h out → History limits grants h.destroyAll []

theorem Run.history (hr : Run limits grants h out) : History limits grants h out := hr.inv .start .request

theorem History.shaped (hchunk : limits.chunkSize % alignment = 0) (hh : History limits grants h out) :
    Shaped limits h ∧ ∀ r ∈ out, r.start.offset % alignment = 0 := by
  induction hh with
  | start => exact ⟨(owned_empty grants hchunk).shaped, nofun⟩
  | request _ hq ih => exact ih.1.request ih.2 hq
  | destroyAll _ ih => exact ⟨ih.1.destroyAll, nofun⟩

end AtomHeap.Heap
