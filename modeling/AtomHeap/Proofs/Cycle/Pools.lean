import AtomHeap.Proofs.Cycle.Works
/-!
# Mutators come and go

The pools of a system are open, and no two of its users have the same one (`Opened`). A mutator that attaches
opens one more, and one that detaches closes its own, which is nobody else's.
-/

namespace AtomHeap.System

open Heap (Owned HasPool)

variable {limits : Limits} {out : List Region} {s : System} {m : Mutator} {id : MutatorId} {heap : Heap}

structure Opened (s : System) : Prop where
  nodup : s.pools.Nodup
  hasPool : ∀ id ∈ s.pools, s.store.heap.HasPool (some id)

theorem create_eq {config : Config} (h : System.create heap config = .ok s) :
    config.atomBuckets.toNat ≤ Table.maxChains ∧ s = .empty heap config := by
  unfold System.create at h
  split at h
  · cases h
    exact ⟨‹_›, rfl⟩
  · cases h

theorem attach_pools (s : System) (thread : ThreadId) :
    (s.attach thread).2.pools = s.pools ++ [s.store.heap.nextPool] :=
  congrArg (s.store.table.pool :: ·) List.map_append

theorem attach_opened (hs : s.Opened) (ho : Owned limits s.store.heap out) (thread : ThreadId) :
    (s.attach thread).2.Opened := by
  have hfresh : s.store.heap.nextPool ∉ s.pools := fun hmem => by
    obtain ⟨p, hp, heq⟩ := List.mem_map.1 (hs.hasPool _ hmem _ rfl)
    exact Nat.ne_of_lt (ho.fresh p hp) heq
  constructor
  · rw [attach_pools]
    exact List.nodup_append.2 ⟨hs.nodup, List.nodup_singleton _, fun a ha b hb heq =>
      hfresh (List.mem_singleton.1 hb ▸ heq ▸ ha)⟩
  · rintro id hid _ ⟨⟩
    rw [attach_pools] at hid
    rcases List.mem_append.1 hid with hid | hid
    · exact List.mem_cons_of_mem _ (hs.hasPool id hid _ rfl)
    · cases List.mem_singleton.1 hid
      exact List.mem_cons_self

theorem mutator_of_mem (hid : ∃ m ∈ s.mutators, m.id = id) : ∃ m, s.mutator id = .ok m := by
  obtain ⟨m, hm, heq⟩ := hid
  cases hfind : s.mutators.find? (·.id == id) with
  | none => exact absurd (beq_iff_eq.2 heq) (List.find?_eq_none.1 hfind m hm)
  | some m' =>
    refine ⟨m', ?_⟩
    unfold System.mutator
    rw [hfind]

theorem map_pool_updateMutator (s : System) (id : MutatorId) {f : Mutator → Mutator} (hf : ∀ m, (f m).pool = m.pool) :
    (s.updateMutator id f).mutators.map (·.pool) = s.mutators.map (·.pool) := by
  unfold updateMutator
  rw [List.map_map]
  refine List.map_congr_left fun m _ => ?_
  dsimp only [Function.comp_apply]
  split
  · exact hf m
  · rfl

theorem mutator_pool (hm : s.mutator id = .ok m) : m.pool ∈ s.pools :=
  List.mem_cons_of_mem _ (List.mem_map_of_mem (mem_of_mutator hm))

/-- What is left when a mutator is gone, given the heap without its pool. -/
def leftBy (s : System) (m : Mutator) (heap : Heap) : System :=
  { s with
    store := { s.store with heap }
    collector := ((s.onCollector (·.deregister m.id)).sendLast m).collector
    mutators := s.mutators.filter (·.id ≠ m.id) }

theorem sendLast_eq (s : System) (m : Mutator) :
    s.sendLast m = { s with collector := (s.sendLast m).collector } ∧
      (s.sendLast m).collector.counters = s.collector.counters := by
  unfold sendLast
  split <;> exact ⟨rfl, rfl⟩

theorem detach_eq (hm : s.mutator id = .ok m) :
    s.detach id = (s.store.heap.closePool m.pool).map (s.leftBy m) := by
  obtain rfl := id_of_mutator hm
  unfold detach closeMutator
  simp only [hm, bind, Except.bind]
  rw [(sendLast_eq _ m).1]
  simp only [onCollector]
  cases s.store.heap.closePool m.pool <;> rfl

/-- Only the pool of the mutator that leaves is closed. -/
theorem leftBy_opened (hs : s.Opened) (hm : m ∈ s.mutators) (hclose : s.store.heap.closePool m.pool = .ok heap) :
    (s.leftBy m heap).Opened := by
  have hsub : (s.leftBy m heap).pools.Sublist s.pools := (List.filter_sublist.map _).cons_cons _
  refine ⟨hs.nodup.sublist hsub, fun id hid => ?_⟩
  rintro _ ⟨⟩
  obtain ⟨p, hp, hpid⟩ := List.mem_map.1 (hs.hasPool id (hsub.subset hid) _ rfl)
  have hne : id ≠ m.pool := by
    rintro rfl
    rcases List.mem_cons.1 hid with heq | hid
    · exact (List.nodup_cons.1 hs.nodup).1 (heq ▸ List.mem_map_of_mem hm)
    · obtain ⟨m', hm', hpool⟩ := List.mem_map.1 hid
      obtain ⟨hmem', hne⟩ := List.mem_filter.1 hm'
      have heq := List.inj_on_of_nodup_map (List.nodup_cons.1 hs.nodup).2 hmem' hm hpool
      simp [heq] at hne
  obtain ⟨q, -, hclosed⟩ := bind_eq_ok_iff.1 hclose
  cases hclosed
  exact List.mem_map.2 ⟨p, List.mem_filter.2 ⟨hp, by simpa [hpid] using hne⟩, hpid⟩

end AtomHeap.System
