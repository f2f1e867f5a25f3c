import AtomHeap.Proofs.Memory.Chunks
import Mathlib.Algebra.BigOperators.Group.List.Basic
/-!
# What the pools count

`Heap.tally h c` adds up the counts of class `c` of all pools. A block may go back into another pool than
the one it came from, so no count means much by itself, and some are negative; but serving a block raises
the sum by one, taking it back lowers it by one, and everything that only moves free blocks, closing a pool
among it, leaves it as it is.
-/

namespace AtomHeap

namespace Pool

variable {p q : Pool} {c d n allocFast size : Nat} {s : Shelf} {b : Address} {b? : Option Address} {top : FreeList}

/-- What a pool counts of a class. -/
def tally (p : Pool) (c : Nat) : Int :=
  match p.shelves[c]? with
  | some s => s.inUse
  | none => 0

theorem inUse_eq (hp : p.Sound allocFast) (hc : c < SizeClass.count allocFast) : p.inUse c = .ok (p.tally c) := by
  obtain ⟨s, hs, hshelf, -⟩ := hp.shelf hc
  simp only [Pool.inUse, tally, hshelf, hs]
  rfl

theorem tally_setShelf (hs : p.shelf c = .ok s) (t : Shelf) (d : Nat) :
    (p.setShelf c t).tally d = p.tally d + if d = c then t.inUse - s.inUse else 0 := by
  have hget := shelves_of_shelf hs
  by_cases hd : d = c
  · subst hd
    have hlt := (Array.getElem?_eq_some_iff.1 hget).1
    simp only [tally, setShelf, Array.getElem?_setIfInBounds_self_of_lt hlt, hget, if_true]
    omega
  · simp only [tally, setShelf, Array.getElem?_setIfInBounds_ne (Ne.symm hd), hd, if_false, Int.add_zero]

/-- A shelf with another list of free blocks counts the same. -/
theorem tally_setFree (hs : p.shelf c = .ok s) (free : FreeList) : (p.setShelf c { s with free }).tally = p.tally := by
  funext d
  rw [tally_setShelf hs]
  simp

theorem tally_count {change : Int} (hq : p.count c change = .ok q) (d : Nat) :
    q.tally d = p.tally d + if d = c then change else 0 := by
  obtain ⟨s, hs, hq⟩ := bind_eq_ok_iff.1 hq
  cases hq
  rw [tally_setShelf hs]
  simp only [Int.add_comm s.inUse, Int.add_sub_cancel]

theorem tally_pop (hq : p.pop c = .ok (b?, q)) : q.tally = p.tally := by
  obtain ⟨s, hs, hq⟩ := bind_eq_ok_iff.1 hq
  split at hq
  all_goals cases hq
  · exact tally_setFree hs _
  · rfl

theorem tally_push (hq : p.push c b = .ok q) : q.tally = p.tally := by
  obtain ⟨s, hs, hq⟩ := bind_eq_ok_iff.1 hq
  cases hq
  exact tally_setFree hs _

theorem tally_splitTop (hq : p.splitTop c n = .ok (top, q)) : q.tally = p.tally := by
  obtain ⟨s, hs, hq⟩ := bind_eq_ok_iff.1 hq
  cases hq
  exact tally_setFree hs _

theorem tally_append (hq : p.append c top = .ok q) : q.tally = p.tally := by
  obtain ⟨s, hs, hq⟩ := bind_eq_ok_iff.1 hq
  cases hq
  exact tally_setFree hs _

theorem tally_carve (hq : p.carve? size = some (b, q)) : q.tally = p.tally := by
  obtain ⟨_, -, -, -, rfl⟩ := carve?_eq_some_iff.1 hq
  rfl

theorem tally_takeSpace (p : Pool) : p.takeSpace.2.tally = p.tally := by
  unfold takeSpace
  split <;> rfl

theorem tally_retire {remainder : Option Region} (hq : p.retire allocFast = .ok (remainder, q)) :
    q.tally = p.tally := by
  rcases retire_inv hq with ⟨_, _, -, -, -, hpush⟩ | ⟨-, rfl⟩
  · exact (tally_push hpush).trans rfl
  · rfl

theorem tally_empty (allocFast c : Nat) : (Pool.empty allocFast).tally c = 0 := by
  unfold tally
  split
  · rename_i s hs
    simp only [Pool.empty, Array.getElem?_replicate, Option.ite_none_right_eq_some, Option.some.injEq] at hs
    rw [← hs.2]
  · rfl

/-- The counts of a pool that is merged into another go with its blocks. -/
theorem tally_merge (hp : p.Sound allocFast) (hq : q.Sound allocFast) (hc : c < SizeClass.count allocFast) :
    (p.merge q).tally c = p.tally c + q.tally c := by
  obtain ⟨s, hs, -, -⟩ := hp.shelf hc
  obtain ⟨t, ht, -, -⟩ := hq.shelf hc
  simp only [tally, merge, Array.getElem?_zipWith, hs, ht]
  exact Int.add_comm _ _

end Pool

namespace Heap

variable {limits : Limits} {h h' : Heap} {p q : Pool} {out out' : List Region} {r : Region} {id : PoolId}
  {c d size length : Nat} {from? into? : Option PoolId} {b : Address} {answer : Except AllocError Address}

/-- What all pools count of a class. -/
def tally (h : Heap) (c : Nat) : Int := h.global.tally c + (h.locals.map (·.2.tally c)).sum

theorem tally_takeOut {rest : List (PoolId × Pool)} (hperm : h.locals.Perm ((id, p) :: rest)) (c : Nat) :
    h.tally c = h.global.tally c + p.tally c + (rest.map (·.2.tally c)).sum := by
  rw [tally, (hperm.map _).sum_eq, List.map_cons, List.sum_cons, Int.add_assoc]

/-- A pool `p` works for a heap `h`, which makes them `q` and `h'`, and no block is counted on the way. -/
structure Uncounted (h : Heap) (p q : Pool) (h' : Heap) : Prop where
  pool : q.tally = p.tally
  global : h'.global.tally = h.global.tally
  backed : h.Backed → h'.Backed

theorem newSpace_global {answer : Except AllocError Region} (hn : h.newSpace size = .ok (answer, h')) :
    h'.global = h.global := by
  cases newSpace_cases hn <;> rfl

theorem carveAnew_uncounted (hc : h.carveAnew p size = .ok (answer, q, h')) : Uncounted h p q h' := by
  have hbacked {answer : Except AllocError Region} {r? : Option Region}
      (hspace : { h with leftOver := h.leftOver ++ r?.toList }.newSpace size = .ok (answer, h')) (hb : h.Backed) :
      h'.Backed :=
    Backed.newSpace (h := { h with leftOver := h.leftOver ++ r?.toList }) hb hspace
  cases carveAnew_cases hc with
  | refused hretire hspace | short hretire hspace =>
    have hpool := Pool.tally_retire hretire
    have hglobal := congrArg Pool.tally (newSpace_global hspace)
    exact ⟨hpool, hglobal, hbacked hspace⟩
  | carved hretire hspace hcarve =>
    have hpool := Pool.tally_retire hretire
    have hglobal := congrArg Pool.tally (newSpace_global hspace)
    exact ⟨(Pool.tally_carve hcarve).trans hpool, hglobal, hbacked hspace⟩

theorem refill_uncounted (hr : h.refill p c = .ok (answer, q, h')) : Uncounted h p q h' := by
  cases refill_cases hr with
  | batch hsplit _ happend =>
    have hglobal := Pool.tally_splitTop hsplit
    exact ⟨Pool.tally_append happend, hglobal, fun hb => hb⟩
  | anew hsplit _ hcarve =>
    have hglobal := Pool.tally_splitTop hsplit
    have huncounted := carveAnew_uncounted hcarve
    exact ⟨huncounted.pool, huncounted.global.trans hglobal, huncounted.backed⟩

/-- Serving counts the block that it hands out, if there is one, on the shelf of its class. -/
theorem serve_tally {more : Heap → Pool → Except Fault (Except AllocError Address × Pool × Heap)}
    (hmore : ∀ p answer q h', more h p = .ok (answer, q, h') → Uncounted h p q h')
    (hs : h.serve p c more = .ok (answer, q, h')) :
    (∀ d, q.tally d = p.tally d + if d = c then (handedOut answer 1 : Int) else 0) ∧
      h'.global.tally = h.global.tally ∧ (h.Backed → h'.Backed) := by
  obtain ⟨p₁, h₁, hfound, hcount⟩ := serve_cases hs
  have huncounted : Uncounted h p p₁ h₁ := by
    cases hfound with
    | popped hpop => exact ⟨Pool.tally_pop hpop, rfl, fun hb => hb⟩
    | carved hpop hcarve => exact ⟨(Pool.tally_carve hcarve).trans (Pool.tally_pop hpop), rfl, fun hb => hb⟩
    | more hpop _ hm =>
      have := hmore _ _ _ _ hm
      exact ⟨this.pool.trans (Pool.tally_pop hpop), this.global, this.backed⟩
  cases answer with
  | error e =>
    obtain ⟨rfl, rfl⟩ := hcount
    refine ⟨fun d => ?_, huncounted.global, huncounted.backed⟩
    simp [huncounted.pool, handedOut]
  | ok b =>
    obtain ⟨hcount, rfl⟩ := hcount
    refine ⟨fun d => ?_, huncounted.global, huncounted.backed⟩
    rw [Pool.tally_count hcount, huncounted.pool]
    rfl

theorem blockSize_eq_iff : SizeClass.blockSize c = SizeClass.blockSize d ↔ d = c := by
  simp only [SizeClass.blockSize, alignment]
  omega

/-- A request changes the counts of the class of a block of this length by so much, and no others. -/
structure Recounted (h h' : Heap) (length : Nat) (change : Int) : Prop where
  tally : ∀ d < SizeClass.count h.limits.allocFast,
    h'.tally d = h.tally d + if length = SizeClass.blockSize d then change else 0
  backed : h.Backed → h'.Backed

/-- No class has blocks as long as a big one. -/
theorem ne_blockSize (hbig : h.limits.allocFast < length) (hd : d < SizeClass.count h.limits.allocFast) :
    length ≠ SizeClass.blockSize d := by
  simp only [SizeClass.count, SizeClass.blockSize, alignment] at *
  omega

/-- A big block is counted by no pool. -/
theorem recounted_big {change : Int} (hbig : h.limits.allocFast < length) (hglobal : h'.global = h.global)
    (hlocals : h'.locals = h.locals) (hbacked : h.Backed → h'.Backed) : Recounted h h' length change := by
  refine ⟨fun d hd => ?_, hbacked⟩
  rw [if_neg (ne_blockSize hbig hd), Int.add_zero, Heap.tally, Heap.tally, hglobal, hlocals]

theorem allocBig_global (ha : h.allocBig size = .ok (answer, h')) : h'.global = h.global := by
  cases allocBig_cases ha <;> rfl

/-- An allocation counts the block that it hands out. -/
theorem alloc_recounted (hround : roundUp size = .ok length) (ha : h.alloc from? size = .ok (answer, h')) :
    Recounted h h' length (handedOut answer 1) := by
  cases alloc_cases hround ha with
  | big hbig ha =>
    exact recounted_big hbig (allocBig_global ha) (allocBig_books hround ha).2 fun hb => hb.allocBig ha
  | shared hlength hserve =>
    obtain ⟨htally, -, hbacked⟩ := serve_tally (fun _ _ _ _ => carveAnew_uncounted) hserve
    have hlocals := (serve_books (fun _ _ _ _ => carveAnew_books) hserve).2
    refine ⟨fun d _ => ?_, hbacked⟩
    simp only [Heap.tally, htally, hlocals, hlength, blockSize_eq_iff]
    omega
  | own hlength hperm hserve =>
    obtain ⟨htally, hglobal, hbacked⟩ := serve_tally (fun _ _ _ _ => refill_uncounted) hserve
    have hlocals := (serve_books (fun _ _ _ _ => refill_books) hserve).2
    refine ⟨fun d _ => ?_, hbacked⟩
    rw [tally_takeOut hperm]
    simp only [Heap.tally, putBack, List.map_cons, List.sum_cons, htally, hglobal, hlocals, hlength,
      blockSize_eq_iff]
    omega

theorem takeBack_tally (ht : h.takeBack p c b = .ok (q, h')) :
    (∀ d, q.tally d = p.tally d + if d = c then -1 else 0) ∧ ∃ bytesInUse, h' = { h with bytesInUse } := by
  obtain ⟨p₁, hpush, hcount, rfl⟩ := takeBack_inv ht
  refine ⟨fun d => ?_, _, rfl⟩
  rw [Pool.tally_count hcount, Pool.tally_push hpush]

theorem spill_tally (hs : h.spill p c = .ok (q, h')) :
    q.tally = p.tally ∧ ∃ global, h' = { h with global } ∧ global.tally = h.global.tally := by
  cases spill_cases hs with
  | short => exact ⟨rfl, h.global, rfl, rfl⟩
  | long _ _ hsplit happend => exact ⟨Pool.tally_splitTop hsplit, _, rfl, Pool.tally_append happend⟩

theorem freeBig_pools (hf : h.freeBig b size = .ok h') : h'.global = h.global ∧ h'.locals = h.locals := by
  obtain ⟨_, _, -, -, -, rfl⟩ := freeBig_inv hf
  exact ⟨rfl, rfl⟩

/-- A block that is freed is not counted any longer, whichever pool takes it back. -/
theorem free_recounted (hround : roundUp size = .ok length) (hf : h.free into? b size = .ok h') :
    Recounted h h' length (-1) := by
  cases free_cases hround hf with
  | big hbig hf =>
    obtain ⟨hglobal, hlocals⟩ := freeBig_pools hf
    exact recounted_big hbig hglobal hlocals fun hb => hb.freeBig hf
  | shared hlength hback =>
    obtain ⟨htally, _, rfl⟩ := takeBack_tally hback
    refine ⟨fun d _ => ?_, fun hb => hb⟩
    simp only [Heap.tally, htally, hlength, blockSize_eq_iff]
    omega
  | own hlength hperm hback hspill =>
    obtain ⟨htally, _, rfl⟩ := takeBack_tally hback
    obtain ⟨hspilled, global, rfl, hglobal⟩ := spill_tally hspill
    refine ⟨fun d _ => ?_, fun hb => hb⟩
    rw [tally_takeOut hperm]
    simp only [Heap.tally, putBack, List.map_cons, List.sum_cons, htally, hspilled, hglobal, hlength,
      blockSize_eq_iff]
    omega

/-- The counts of a pool that is closed go to the shared one. -/
theorem closePool_tally (ho : Owned limits h out) (hc : h.closePool id = .ok h')
    (hd : d < SizeClass.count h.limits.allocFast) : h'.tally d = h.tally d := by
  obtain ⟨p, hp, hperm, rfl⟩ := ho.shaped.closePool_inv hc
  rw [tally_takeOut hperm, Heap.tally]
  simp only [Pool.tally_merge (Pool.takeSpace_spec hp).1 ho.global hd, Pool.tally_takeSpace]
  omega

/-! ## Requests keep heaps tallied -/

/-- The counts of each class add up to its blocks in the hands of callers, and the bytes reserved are those
of the chunks. -/
structure Tallied (h : Heap) (out : List Region) : Prop where
  counts : ∀ c < SizeClass.count h.limits.allocFast,
    h.tally c = out.countP (·.length = SizeClass.blockSize c)
  backed : h.Backed

theorem tallied_empty (limits : Limits) (grants : Nat → Nat → Bool) : Tallied (.empty limits grants) [] where
  counts c _ := by simp [Heap.tally, Heap.empty, Pool.tally_empty]
  backed := rfl

/-- A heap stays tallied where its counts change as the blocks in the hands of callers do. -/
theorem Tallied.recounted {change : Int} (ht : Tallied h out) (hlimits : h'.limits = h.limits)
    (hr : Recounted h h' length change)
    (hout : ∀ c, (out'.countP (·.length = SizeClass.blockSize c) : Int) =
      out.countP (·.length = SizeClass.blockSize c) + if length = SizeClass.blockSize c then change else 0) :
    Tallied h' out' where
  counts c hc := by
    rw [hlimits] at hc
    rw [hr.tally c hc, ht.counts c hc, hout]
  backed := hr.backed ht.backed

theorem Tallied.refused {e : AllocError} (ht : Tallied h out) (hlimits : h'.limits = h.limits)
    (ha : h.alloc from? size = .ok (.error e, h')) : Tallied h' out := by
  cases hround : roundUp size with
  | ok length => exact ht.recounted hlimits (alloc_recounted hround ha) fun c => by simp [handedOut]
  | error e =>
    rw [alloc_of_no_size hround] at ha
    cases ha
    exact ht

theorem Tallied.freed (ht : Tallied h out) (hlimits : h'.limits = h.limits) (hr : r ∈ out)
    (hround : roundUp size = .ok r.length) (hf : h.free into? r.start size = .ok h') :
    Tallied h' (out.erase r) := by
  refine ht.recounted hlimits (free_recounted hround hf) fun c => ?_
  rw [(List.perm_cons_erase hr).countP_eq _, List.countP_cons]
  simp only [decide_eq_true_eq]
  split_ifs <;> omega

theorem Tallied.closePool (ht : Tallied h out) (ho : Owned limits h out) (hc : h.closePool id = .ok h') :
    Tallied h' out := by
  have hclosed := fun d => closePool_tally (d := d) ho hc
  obtain ⟨_, -, rfl⟩ := closePool_cases hc
  exact ⟨fun c hc => (hclosed c hc).trans (ht.counts c hc), ht.backed⟩

/-- A request keeps a heap tallied. -/
theorem Tallied.request (ht : Tallied h out) (hs : Settled limits h out) (hq : Request h out h' out') :
    Tallied h' out' := by
  have hlimits : h'.limits = h.limits := (hs.request hq).owned.limits.trans hs.owned.limits.symm
  cases hq with
  | openPool =>
    refine ⟨fun c hc => ?_, ht.backed⟩
    rw [← ht.counts c hc]
    simp [Heap.tally, Heap.openPool, Pool.tally_empty]
  | closePool _ hclose => exact ht.closePool hs.owned hclose
  | setHook hook => exact ⟨ht.counts, ht.backed⟩
  | collect => exact ⟨ht.counts, ht.backed⟩
  | served _ halloc hround =>
    refine ht.recounted hlimits (alloc_recounted hround halloc) fun c => ?_
    rw [List.countP_cons]
    simp only [decide_eq_true_eq, handedOut]
    split_ifs <;> omega
  | refused _ halloc => exact ht.refused hlimits halloc
  | freed _ hmem hround hfree => exact ht.freed hlimits hmem hround hfree

end Heap

end AtomHeap
