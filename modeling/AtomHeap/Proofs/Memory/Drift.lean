import AtomHeap.Proofs.Memory.Solvent
import Mathlib.Data.Nat.Cast.Basic
/-!
# How far the counts of pools drift

A block may go back into another pool than the one it came from, so what the pools count of a class adds up
to something small while single counts drift ever further from zero. Each request moves one of them by at
most one (`Request.drift`), so it takes as many requests as a count is far off.
-/

namespace AtomHeap.Heap

variable {limits : Limits} {grants : Nat → Nat → Bool} {h h' : Heap} {p q : Pool} {out out' : List Region}
  {r : Region} {id : PoolId} {c size length n : Nat} {from? into? : Option PoolId} {b : Address}
  {answer : Except AllocError Address}

/-- How far from zero the counts of a class are, those of all pools together. -/
def drift (h : Heap) (c : Nat) : Nat := (h.pools.map fun p => (p.tally c).natAbs).sum

theorem natAbs_tally_le (hp : p ∈ h.pools) (c : Nat) : (p.tally c).natAbs ≤ h.drift c := by
  obtain ⟨before, after, hpools⟩ := List.append_of_mem hp
  simp only [drift, hpools, List.map_append, List.map_cons, List.sum_append, List.sum_cons]
  omega

theorem drift_eq (h : Heap) (c : Nat) :
    h.drift c = (h.global.tally c).natAbs + (h.locals.map fun x => (x.2.tally c).natAbs).sum := by
  simp only [drift, pools, List.map_cons, List.sum_cons, List.map_map]
  rfl

theorem drift_takeOut {rest : List (PoolId × Pool)} (hperm : h.locals.Perm ((id, p) :: rest)) (c : Nat) :
    h.drift c =
      (h.global.tally c).natAbs + (p.tally c).natAbs + (rest.map fun x => (x.2.tally c).natAbs).sum := by
  rw [drift_eq, (hperm.map _).sum_eq, List.map_cons, List.sum_cons, Nat.add_assoc]

theorem drift_congr (hglobal : h'.global.tally = h.global.tally) (hlocals : h'.locals = h.locals) (c : Nat) :
    h'.drift c = h.drift c := by rw [drift_eq, drift_eq, hglobal, hlocals]

theorem alloc_drift (hround : roundUp size = .ok length) (ha : h.alloc from? size = .ok (answer, h')) (d : Nat) :
    h'.drift d ≤ h.drift d + 1 := by
  have hone : handedOut answer 1 ≤ 1 := by cases answer <;> simp [handedOut]
  cases alloc_cases hround ha with
  | big _ ha =>
    rw [drift_congr (congrArg Pool.tally (allocBig_global ha)) (allocBig_books hround ha).2]
    exact Nat.le_succ _
  | shared _ hserve =>
    obtain ⟨htally, -, -⟩ := serve_tally (fun _ _ _ _ => carveAnew_uncounted) hserve
    have hlocals := (serve_books (fun _ _ _ _ => carveAnew_books) hserve).2
    simp only [drift_eq, htally, hlocals]
    split_ifs <;> omega
  | own _ hperm hserve =>
    obtain ⟨htally, hglobal, -⟩ := serve_tally (fun _ _ _ _ => refill_uncounted) hserve
    have hlocals := (serve_books (fun _ _ _ _ => refill_books) hserve).2
    rw [drift_takeOut hperm]
    simp only [drift_eq, putBack, List.map_cons, List.sum_cons, htally, hglobal, hlocals]
    split_ifs <;> omega

theorem free_drift (hround : roundUp size = .ok length) (hf : h.free into? b size = .ok h') (d : Nat) :
    h'.drift d ≤ h.drift d + 1 := by
  cases free_cases hround hf with
  | big _ hf =>
    obtain ⟨hglobal, hlocals⟩ := freeBig_pools hf
    rw [drift_congr (congrArg Pool.tally hglobal) hlocals]
    exact Nat.le_succ _
  | shared _ hback =>
    obtain ⟨htally, _, rfl⟩ := takeBack_tally hback
    simp only [drift_eq, htally]
    split_ifs <;> omega
  | own _ hperm hback hspill =>
    obtain ⟨htally, _, rfl⟩ := takeBack_tally hback
    obtain ⟨hspilled, global, rfl, hglobal⟩ := spill_tally hspill
    rw [drift_takeOut hperm]
    simp only [drift_eq, putBack, List.map_cons, List.sum_cons, htally, hspilled, hglobal]
    split_ifs <;> omega

/-- The counts of a pool that is closed are added to those of the shared one, and may cancel out. -/
theorem closePool_drift (ho : Owned limits h out) (hc : h.closePool id = .ok h')
    (hd : c < SizeClass.count h.limits.allocFast) : h'.drift c ≤ h.drift c := by
  obtain ⟨p, hp, hperm, rfl⟩ := ho.shaped.closePool_inv hc
  rw [drift_takeOut hperm, drift_eq]
  simp only [Pool.tally_merge (Pool.takeSpace_spec hp).1 ho.global hd, Pool.tally_takeSpace]
  omega

/-- A request moves the counts of a class by at most one. -/
theorem Request.drift (ho : Owned limits h out) (hq : Request h out h' out')
    (hc : c < SizeClass.count h.limits.allocFast) : h'.drift c ≤ h.drift c + 1 := by
  cases hq with
  | openPool =>
    rw [drift_eq, drift_eq]
    simp only [Heap.openPool, List.map_cons, List.sum_cons, Pool.tally_empty]
    omega
  | closePool _ hclose => exact Nat.le_succ_of_le (closePool_drift ho hclose hc)
  | setHook hook => exact Nat.le_succ _
  | collect => exact Nat.le_succ _
  | served _ halloc hround => exact alloc_drift hround halloc c
  | @refused _ _ size _ _ halloc =>
    cases hround : roundUp size with
    | ok length => exact alloc_drift hround halloc c
    | error e =>
      rw [alloc_of_no_size hround] at halloc
      cases halloc
      exact Nat.le_succ _
  | freed _ _ hround hfree => exact free_drift hround hfree c

/-! ## Requests in a row -/

namespace Requests

theorem solvent (hs : Requests n h out h' out') (hsolvent : Solvent limits h out) : Solvent limits h' out' := by
  induction hs with
  | none hp => exact hsolvent.perm hp
  | next hp hq _ ih => exact ih ((hsolvent.perm hp).request hq)

theorem drift (hs : Requests n h out h' out') (hsolvent : Solvent limits h out)
    (hc : c < SizeClass.count limits.allocFast) : h'.drift c ≤ h.drift c + n := by
  induction hs with
  | none => exact Nat.le_refl _
  | next hp hq _ ih =>
    have hsolvent := hsolvent.perm hp
    have howned := hsolvent.settled.owned
    have hone := hq.drift howned (howned.limits ▸ hc)
    have := ih (hsolvent.request hq)
    omega

end Requests

/-! ## Figures that are words -/

theorem Owned.sound (ho : Owned limits h out) (hp : p ∈ h.pools) : p.Sound h.limits.allocFast := by
  rcases List.mem_cons.1 hp with rfl | hp
  · exact ho.global
  · obtain ⟨x, hx, rfl⟩ := List.mem_map.1 hp
    exact ho.locals x hx

/-- The free blocks of a pool are among those of its heap. -/
theorem total_freeBlocks_le (hp : p ∈ h.pools) : total p.freeBlocks ≤ total h.freeBlocks := by
  have hall : h.freeBlocks = h.pools.flatMap (·.freeBlocks) := by
    simp only [freeBlocks, pools, List.flatMap_cons, List.flatMap_map]
  obtain ⟨before, after, hpools⟩ := List.append_of_mem hp
  rw [hall, hpools, List.flatMap_append, List.flatMap_cons, total_append, total_append]
  omega

theorem total_blocksOn {shelves : List Shelf} {s : Shelf} {i : Nat} (hs : shelves[i]? = some s) (c : Nat) :
    s.free.blocks.length * SizeClass.blockSize (c + i) ≤ total (blocksOn c shelves) := by
  induction shelves generalizing c i with
  | nil => cases hs
  | cons t shelves ih =>
    rw [blocksOn_cons, total_append]
    cases i with
    | zero =>
      cases hs
      refine Nat.le_add_right_of_le (Nat.le_of_eq ?_)
      simp [total, blocksAt, Function.comp_def]
    | succ i =>
      have := ih hs (c + 1)
      rw [Nat.add_right_comm c 1 i] at this
      exact Nat.le_add_left_of_le this

/-- The free blocks of a class lie in the bytes reserved, so there are no more of them than bytes. -/
theorem Solvent.freeCount_lt (hs : Solvent limits h out) (hp : p ∈ h.pools) (hc : 0 < c)
    (hn : p.freeCount c = .ok n) : n < wordCount := by
  obtain ⟨s, hshelf, hn⟩ := bind_eq_ok_iff.1 hn
  cases hn
  have hget := Pool.shelves_of_shelf hshelf
  have hcounted : s.free.length = s.free.blocks.length := ((hs.settled.owned.sound hp).shelves c s hget).counted
  have hblocks := total_blocksOn (Array.getElem?_toList ▸ hget) 0
  have hpool : total p.freeBlocks ≤ total h.freeBlocks := total_freeBlocks_le hp
  have hunused := (hs.tallied.accounted hs.settled).unused
  have hbounded : h.reserved < wordCount := hs.bounded
  rw [total_append, total_append] at hunused
  have hlength : s.free.length ≤ s.free.blocks.length * SizeClass.blockSize (0 + c) := by
    rw [hcounted, Nat.zero_add]
    exact Nat.le_mul_of_pos_right _ (Nat.mul_pos hc (by decide))
  unfold Pool.freeBlocks at hpool
  omega

end AtomHeap.Heap
