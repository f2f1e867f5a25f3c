import AtomHeap.Proofs.Cycle.Pools
import AtomHeap.Proofs.Store.Shown
import AtomHeap.System.Metrics
/-!
# What a system shows

`System.shown` is all that callers can tell of a system. Systems that show the same (`Alike`), each sound and alone
on its heap (`Kept`), do the same at each step that the library consists of.
-/

namespace AtomHeap

/-- A mutator apart from its pool. -/
def Mutator.shown (m : Mutator) : Mutator := { m with pool := 0 }

namespace System

open Table (Changes Tuning)

variable {α : Type} {memory : StaticMemory} {s s' u : System} {store : Store} {k : Nat} {id : MutatorId}
  {m : Mutator}

/-- What callers can tell of a system. -/
structure Shown where
  table : Table
  /-- The hooks that ran, apart from those that were told of refused memory. -/
  told : List HookCall
  bytesInUse : Nat
  collector : Collector
  mutators : List Mutator
  monitor : Monitor

def shown (s : System) : Shown where
  table := s.store.table.shown
  told := s.store.told
  bytesInUse := s.store.heap.bytesInUse
  collector := s.collector
  mutators := s.mutators.map Mutator.shown
  monitor := s.monitor

/-- Systems that show the same. Where the one can double its chains, so can the other. -/
structure Alike (s u : System) : Prop where
  store : s.store.Alike u.store
  collector : u.collector = s.collector
  mutators : u.mutators.map Mutator.shown = s.mutators.map Mutator.shown
  monitor : u.monitor = s.monitor

/-- What all steps keep of a system that is alone on its heap. -/
structure Kept (memory : StaticMemory) (s : System) : Prop where
  housed : ∃ buckets limits, s.Housed buckets limits []
  canonical : s.store.table.Canonical memory
  opened : s.Opened

theorem Alike.shown (h : s.Alike u) (hs : s.Kept memory) (hu : u.Kept memory) : u.shown = s.shown := by
  obtain ⟨_, _, hhoused⟩ := hs.housed
  obtain ⟨_, _, hhousedu⟩ := hu.housed
  unfold System.shown
  rw [h.store.table.shown, h.store.told, Store.bytesInUse_of_shown hhoused hhousedu h.store.table.shown, h.collector,
    h.mutators, h.monitor]

/-! ## What steps keep -/

namespace Kept

variable (h : s.Kept memory)

include h

theorem onStore (hh : ∀ buckets limits, s.Housed buckets limits [] →
      store.Housed buckets limits [] ∧ s.store.Grows k [] store)
    (hc : ∀ buckets, s.store.table.Sound buckets 0 → Changes (Span.Lies memory) s.store.table store.table) :
    Kept memory { s with store } := by
  obtain ⟨buckets, limits, hhoused⟩ := h.housed
  obtain ⟨hhoused', hgrows⟩ := hh buckets limits hhoused
  have hpools : System.pools { s with store } = s.pools :=
    congrArg (· :: s.mutators.map Mutator.pool) hgrows.pool
  refine ⟨⟨buckets, limits, hhoused'⟩, h.canonical.changes hhoused.table (hc buckets hhoused.table), ?_, ?_⟩
  · rw [hpools]
    exact h.opened.nodup
  · rw [hpools]
    exact fun id hid => hgrows.pools.hasPool (h.opened.hasPool id hid)

theorem internSpan {span : Span} {lasting : Bool} {blob : BlobId} {r : Except AtomError Interned}
    (hspan : span.Lies memory) (hi : s.store.internSpan span lasting blob = .ok (r, store)) :
    Kept memory { s with store } := by
  refine h.onStore (fun _ _ hhoused => hhoused.internSpan hi) fun buckets hsound => ?_
  obtain ⟨events, hrun⟩ := Store.internSpan_run (Span.lies_of_bytes memory) hspan hi
  exact hrun.changes hsound

theorem lookup {span : Span} {blob : BlobId} {found : Option Atom}
    (hl : s.store.lookup span blob = .ok (found, store)) : Kept memory { s with store } :=
  h.onStore (fun _ _ hhoused => (hhoused.lookup_ends span blob).post_of_ok hl) fun _ _ =>
    (Table.lookup_amended (Store.lookup_table hl)).changes

theorem sweep {n : Nat} (hsweep : s.store.sweep = .ok (n, store)) : Kept memory { s with store } := by
  refine h.onStore (k := 0) (fun _ _ hhoused => ?_) fun buckets hsound => ?_
  · obtain ⟨hhoused', hgrows, -⟩ := hhoused.sweep_ends.post_of_ok hsweep
    exact ⟨hhoused', hgrows⟩
  · obtain ⟨events, hrun⟩ := Store.sweep_run hsweep
    exact hrun.changes hsound

theorem onTable {f : Table → α × Table} (hf : Tuning f) : Kept memory (s.onTable fun t => (f t).2) :=
  h.onStore (k := 0) (fun _ _ hhoused => hhoused.tuned hf rfl rfl) fun _ _ => hf.changes _

/-- Work on what is neither the store nor the mutators' pools. -/
theorem congr (hstore : s'.store = s.store) (hmutators : s'.mutators.map (·.pool) = s.mutators.map (·.pool)) :
    s'.Kept memory := by
  have hpools : s'.pools = s.pools := by
    unfold System.pools
    rw [hstore, hmutators]
  obtain ⟨hhoused, hcanonical, hnodup, hopened⟩ := h
  refine ⟨?_, ?_, ?_, ?_⟩
  · unfold System.Housed
    rwa [hstore]
  · rwa [hstore]
  · rwa [hpools]
  · rwa [hpools, hstore]

theorem attach (thread : ThreadId) : (s.attach thread).2.Kept memory := by
  obtain ⟨buckets, limits, hhoused⟩ := h.housed
  have hopened := attach_opened h.opened hhoused.heap.settled.owned thread
  have hrequest := hhoused.request .openPool (hopened.hasPool _ List.mem_cons_self) s.store.calls
  exact ⟨⟨buckets, limits, hrequest⟩, h.canonical, hopened⟩

theorem leftBy {heap : Heap} (hm : s.mutator id = .ok m) (hclose : s.store.heap.closePool m.pool = .ok heap) :
    (s.leftBy m heap).Kept memory := by
  obtain ⟨buckets, limits, hhoused⟩ := h.housed
  have hopened := leftBy_opened h.opened (mem_of_mutator hm) hclose
  have hpool := h.opened.hasPool _ (mutator_pool hm)
  have hrequest := hhoused.request (.closePool hpool hclose) (hopened.hasPool _ List.mem_cons_self) s.store.calls
  exact ⟨⟨buckets, limits, hrequest⟩, h.canonical, hopened⟩

theorem detach (hd : s.detach id = .ok s') : s'.Kept memory := by
  obtain ⟨m, hm, -⟩ := bind_eq_ok_iff.1 hd
  rw [detach_eq hm] at hd
  cases hclose : s.store.heap.closePool m.pool with
  | error e =>
    rw [hclose] at hd
    cases hd
  | ok heap =>
    rw [hclose] at hd
    cases hd
    exact h.leftBy hm hclose

end Kept

/-! ## What steps show -/

theorem mutator_shown (h : u.mutators.map Mutator.shown = s.mutators.map Mutator.shown) (id : MutatorId) :
    (u.mutator id).map Mutator.shown = (s.mutator id).map Mutator.shown := by
  have hfind (ms : List Mutator) :
      (ms.find? (·.id == id)).map Mutator.shown = (ms.map Mutator.shown).find? (·.id == id) := by
    rw [List.find?_map]
    rfl
  have heq := hfind u.mutators
  rw [h, ← hfind] at heq
  unfold mutator
  cases hu : u.mutators.find? (·.id == id) <;> cases hs : s.mutators.find? (·.id == id) <;> rw [hu, hs] at heq
  · cases heq
  · cases heq
  · exact congrArg Except.ok (Option.some.inj heq)

theorem mutator_of_shown (h : u.mutators.map Mutator.shown = s.mutators.map Mutator.shown)
    (hm : s.mutator id = .ok m) : ∃ m', u.mutator id = .ok m' ∧ m'.shown = m.shown := by
  have heq := mutator_shown h id
  rw [hm] at heq
  cases hu : u.mutator id with
  | error e =>
    rw [hu] at heq
    cases heq
  | ok m' =>
    rw [hu] at heq
    exact ⟨m', rfl, Except.ok.inj heq⟩

namespace Alike

variable (h : s.Alike u)

include h

theorem onCollector (f : Collector → Collector) : (s.onCollector f).Alike (u.onCollector f) :=
  ⟨h.store, congrArg f h.collector, h.mutators, h.monitor⟩

theorem onTable {f : Table → α × Table} (hf : Tuning f) :
    (f u.store.table).1 = (f s.store.table).1 ∧ (s.onTable fun t => (f t).2).Alike (u.onTable fun t => (f t).2) := by
  obtain ⟨hanswer, hstore⟩ := h.store.tuned hf
  exact ⟨hanswer, hstore, h.collector, h.mutators, h.monitor⟩

theorem updateMutator (id : MutatorId) {f : Mutator → Mutator} (hf : ∀ m, (f m).shown = f m.shown) :
    (s.updateMutator id f).Alike (u.updateMutator id f) := by
  have hmap (ms : List Mutator) : (ms.map fun m => if m.id = id then f m else m).map Mutator.shown =
      (ms.map Mutator.shown).map fun m => if m.id = id then f m else m := by
    simp only [List.map_map]
    refine List.map_congr_left fun m _ => ?_
    dsimp only [Function.comp_apply]
    have hid : m.shown.id = m.id := rfl
    rw [hid]
    split
    · exact hf m
    · rfl
  refine ⟨h.store, h.collector, ?_, h.monitor⟩
  have hmutators := congrArg (List.map fun m => if m.id = id then f m else m) h.mutators
  rw [← hmap, ← hmap] at hmutators
  exact hmutators

theorem attach (thread : ThreadId) :
    (u.attach thread).1 = (s.attach thread).1 ∧ (s.attach thread).2.Alike (u.attach thread).2 := by
  have hcollector := congrArg (Collector.register · thread) h.collector
  refine ⟨congrArg (·.1) hcollector, ⟨h.store.table, h.store.told⟩, congrArg (·.2) hcollector, ?_, h.monitor⟩
  dsimp only [System.attach]
  rw [List.map_append, List.map_append, h.mutators, h.collector]
  rfl

theorem leftBy {heap heap' : Heap} {m' : Mutator} (hm : m'.shown = m.shown) :
    (s.leftBy m heap).Alike (u.leftBy m' heap') := by
  have hid : m'.id = m.id := congrArg (·.id) hm
  have hlast : m'.lastEpoch = m.lastEpoch := congrArg (·.lastEpoch) hm
  have hfilter (ms : List Mutator) : (ms.filter (·.id ≠ m.id)).map Mutator.shown =
      (ms.map Mutator.shown).filter (·.id ≠ m.id) := by
    rw [List.filter_map]
    rfl
  refine ⟨⟨h.store.table, h.store.told⟩, ?_, ?_, h.monitor⟩
  · unfold System.leftBy sendLast
    dsimp only [System.onCollector]
    rw [h.collector, hid, hlast]
    split <;> rfl
  · dsimp only [System.leftBy]
    rw [hid, hfilter, h.mutators, hfilter]

end Alike

end System

end AtomHeap
