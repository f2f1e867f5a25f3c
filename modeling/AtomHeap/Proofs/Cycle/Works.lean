import AtomHeap.Proofs.Cycle.Operations
import AtomHeap.Proofs.Store.Housed
import AtomHeap.System.Mutator
/-!
# What the library does to a system goes well

`Act` lists what the library does to a system, each with what callers guarantee for it, and `Works` is what an
act comes to: a few more atoms, and counters that go up by one at most. In a system whose store is housed each
act goes wrong for want of memory only (`Act.ends`).
-/

namespace AtomHeap

/-- The counters of a collector went up by so much at most. -/
structure Collector.Later (n : Nat) (c c' : Collector) : Prop where
  epoch : c'.epoch ≤ c.epoch + n
  collections : c'.collections ≤ c.collections + n
  deferred : c'.deferred ≤ c.deferred + n
  mutators : c'.nextMutator ≤ c.nextMutator + n

theorem Collector.Later.refl (n : Nat) (c : Collector) : c.Later n c :=
  ⟨Nat.le_add_right _ _, Nat.le_add_right _ _, Nat.le_add_right _ _, Nat.le_add_right _ _⟩

theorem Collector.Later.mono {m n : Nat} {c c' : Collector} (h : c.Later m c') (hle : m ≤ n) : c.Later n c' :=
  ⟨Nat.le_trans h.epoch (Nat.add_le_add_left hle _), Nat.le_trans h.collections (Nat.add_le_add_left hle _),
    Nat.le_trans h.deferred (Nat.add_le_add_left hle _), Nat.le_trans h.mutators (Nat.add_le_add_left hle _)⟩

theorem Collector.Later.trans {m n : Nat} {c c' c'' : Collector} (h : c.Later m c') (h' : c'.Later n c'') :
    c.Later (m + n) c'' where
  epoch := by
    have := h.epoch
    have := h'.epoch
    omega
  collections := by
    have := h.collections
    have := h'.collections
    omega
  deferred := by
    have := h.deferred
    have := h'.deferred
    omega
  mutators := by
    rw [← Nat.add_assoc]
    exact Nat.le_trans h'.mutators (Nat.add_le_add_right h.mutators n)

/-- What a collector counts. -/
def Collector.counters (c : Collector) : Nat × Nat × Nat × Nat × Nat :=
  (c.epoch, c.collections, c.deferred, c.nextMutator, c.collectedTotal)

namespace System

open Heap (Solvent Request Requests SamePools HasPool)

variable {buckets k l m n : Nat} {limits : Limits} {others : List Region} {s s' s'' : System} {id : MutatorId}
  {thread : ThreadId}

/-- The pools that a system has open: that of its table and those of its mutators. -/
def pools (s : System) : List PoolId := s.store.table.pool :: s.mutators.map (·.pool)

/-- The blocks that the heap has handed out are those of copies and those that others have. -/
abbrev Housed (buckets : Nat) (limits : Limits) (others : List Region) (s : System) : Prop :=
  s.store.Housed buckets limits others

/-- At most `k` atoms are made, no counter goes up by more than `n`, and the pools are the same. -/
structure Works (k n : Nat) (others : List Region) (s s' : System) : Prop where
  grows : s.store.Grows k others s'.store
  later : s.collector.Later n s'.collector
  /-- An atom that is collected is no longer live. -/
  collected : s'.collector.collectedTotal + s'.store.table.count ≤
    s.collector.collectedTotal + s.store.table.count + k
  mutators : s'.mutators.map (·.pool) = s.mutators.map (·.pool)

namespace Works

theorem refl (others : List Region) (s : System) : s.Works 0 0 others s :=
  ⟨.refl others _, .refl 0 _, Nat.le_refl _, rfl⟩

theorem trans (h : s.Works k m others s') (h' : s'.Works l n others s'') : s.Works (k + l) (m + n) others s'' where
  grows := h.grows.trans h'.grows
  later := h.later.trans h'.later
  collected := by
    have := h.collected
    have := h'.collected
    omega
  mutators := h'.mutators.trans h.mutators

theorem pools (h : s.Works k n others s') : s'.pools = s.pools := by
  unfold System.pools
  rw [h.grows.pool, h.mutators]

/-- Only the store changed. -/
theorem of_store {store : Store} (h : s.store.Grows k others store) : s.Works k 0 others { s with store } :=
  ⟨h, .refl 0 _, by
    have := h.count
    simp only
    omega, rfl⟩

/-- Only the collector changed, and only for what it is doing. -/
theorem onCollector (others : List Region) (s : System) {f : Collector → Collector}
    (hf : s.collector.Later n (f s.collector))
    (hcollected : (f s.collector).collectedTotal = s.collector.collectedTotal) :
    s.Works 0 n others (s.onCollector f) :=
  ⟨.refl others _, hf, Nat.le_of_eq (congrArg (· + s.store.table.count) hcollected), rfl⟩

end Works

/-- What an act comes to in a system whose store is housed. -/
structure Goes (buckets : Nat) (limits : Limits) (k n : Nat) (others : List Region) (s s' : System) : Prop where
  housed : Housed buckets limits others s'
  works : s.Works k n others s'

namespace Goes

theorem refl (hh : Housed buckets limits others s) : s.Goes buckets limits 0 0 others s := ⟨hh, .refl others s⟩

theorem trans (h : s.Goes buckets limits k m others s') (h' : s'.Goes buckets limits l n others s'') :
    s.Goes buckets limits (k + l) (m + n) others s'' := ⟨h'.housed, h.works.trans h'.works⟩

theorem mono (h : s.Goes buckets limits k m others s') (hk : k ≤ l) (hm : m ≤ n) :
    s.Goes buckets limits l n others s' :=
  ⟨h.housed, h.works.grows.mono hk, h.works.later.mono hm,
    Nat.le_trans h.works.collected (Nat.add_le_add_left hk _), h.works.mutators⟩

theorem onCollector (hh : Housed buckets limits others s) {f : Collector → Collector}
    (hf : s.collector.Later n (f s.collector))
    (hcollected : (f s.collector).collectedTotal = s.collector.collectedTotal) :
    s.Goes buckets limits 0 n others (s.onCollector f) := ⟨hh, .onCollector others s hf hcollected⟩

/-- Work on what the collector does not count. -/
theorem calm (hh : Housed buckets limits others s) (f : Collector → Collector)
    (hf : (f s.collector).counters = s.collector.counters) : s.Goes buckets limits 0 0 others (s.onCollector f) := by
  simp only [Collector.counters, Prod.mk.injEq] at hf
  obtain ⟨hepoch, hcollections, hdeferred, hmutators, hcollected⟩ := hf
  exact .onCollector hh ⟨Nat.le_of_eq hepoch, Nat.le_of_eq hcollections, Nat.le_of_eq hdeferred,
    Nat.le_of_eq hmutators⟩ hcollected

/-- Tuning the table. -/
theorem onTable (hh : Housed buckets limits others s) {α : Type} {f : Table → α × Table} (hf : Table.Tuning f) :
    s.Goes buckets limits 0 0 others (s.onTable fun t => (f t).2) := by
  obtain ⟨hh', hgrows⟩ := @Store.Housed.tuned _ _ _ _ (s.onTable fun t => (f t).2).store hh _ _ hf rfl rfl
  exact ⟨hh', .of_store hgrows⟩

/-- Work on the store. -/
theorem onStore {α : Type} {f : Store → Except Fault (α × Store)} {starved : Prop}
    (hf : Ends (f s.store) starved fun p => p.2.Housed buckets limits others ∧ s.store.Grows k others p.2) :
    Ends (s.onStore f) starved fun p => s.Goes buckets limits k 0 others p.2 := by
  obtain ⟨config, store, collector, mutators, monitor⟩ := s
  refine hf.bind ?_
  rintro ⟨a, store'⟩ ⟨hhoused, hgrows⟩
  exact .ok ⟨hhoused, .of_store hgrows⟩

end Goes

/-! ## Cycles -/

theorem tryBegin_goes (hh : Housed buckets limits others s) (hweigh : s.store.table.Weighable)
    (initiator : Option MutatorId) (onlyIfNeeded : Bool) :
    Ends (s.tryBegin thread initiator onlyIfNeeded) False fun p => s.Goes buckets limits 0 1 others p.2 := by
  have hends : Ends (s.tryBegin thread initiator onlyIfNeeded) False fun _ => True := by
    obtain ⟨due, hdue⟩ := hweigh.shouldCollect
    have hdue : (((s.onCollector Collector.lock).onTable ({ · with requested := false })).isDue onlyIfNeeded) =
        .ok (if onlyIfNeeded then due else true) := by
      unfold isDue
      split
      · exact hdue
      · rfl
    unfold tryBegin
    simp only [hdue, bind, Except.bind]
    repeat' split
    all_goals exact .ok trivial
  obtain ⟨⟨refusal, s'⟩, h, -⟩ := hends.exists_ok
  refine .inl ⟨_, h, ?_⟩
  have hlock : s.Goes buckets limits 0 0 others
      ((s.onCollector Collector.lock).onTable ({ · with requested := false })) := by
    have hlocked := Goes.calm hh Collector.lock rfl
    exact hlocked.trans (.onTable hlocked.housed .clearRequest)
  cases tryBegin_cases h with
  | off => exact (Goes.refl hh).mono (Nat.le_refl _) (Nat.zero_le _)
  | refused =>
    have hcount : s.Goes buckets limits 0 1 others (s.onCollector Collector.countDeferred) :=
      .onCollector hh ⟨Nat.le_succ _, Nat.le_succ _, Nat.le_refl _, Nat.le_succ _⟩ rfl
    exact hcount.trans (.onTable hcount.housed .requestCollection)
  | undue => exact (hlock.trans (.calm hlock.housed Collector.unlock rfl)).mono (Nat.le_refl _) (Nat.zero_le _)
  | begun =>
    have hentered := hlock.trans (.calm hlock.housed (·.enter .marking) rfl)
    have hmarking := hentered.trans (.onTable hentered.housed .beginMarking)
    have hepoch := hmarking.trans (.onCollector (n := 1) (f := Collector.nextEpoch) hmarking.housed
      ⟨Nat.le_refl _, Nat.le_succ _, Nat.le_succ _, Nat.le_succ _⟩ rfl)
    have hpublished := hepoch.trans (.calm hepoch.housed Collector.publish rfl)
    exact hpublished.trans (.calm hpublished.housed Collector.snapshot rfl)

theorem receive_goes (hh : Housed buckets limits others s) (r : Report) :
    s.Goes buckets limits 0 0 others (s.receive r) := by
  unfold receive
  split
  · have hmarked := Goes.onTable hh (.applyMarks r.atoms)
    exact hmarked.trans (.calm hmarked.housed (·.excuse r.mutator) rfl)
  · exact .refl hh

theorem awaitReports_goes (hh : Housed buckets limits others s) (reports : List Report) :
    s.Goes buckets limits 0 0 others (s.awaitReports reports) := by
  induction reports generalizing s with
  | nil => exact .calm hh ({ · with reports := [] }) rfl
  | cons r reports ih =>
    unfold awaitReports
    split
    · exact .calm hh ({ · with reports := r :: reports }) rfl
    · have hreceived := receive_goes hh r
      exact hreceived.trans (ih hreceived.housed)

/-- A sweep counts what it collects. -/
theorem sweep_goes (hh : Housed buckets limits others s) :
    Ends s.sweep False fun p => s.Goes buckets limits 0 1 others p.2 ∧ 0 < p.2.collector.collections := by
  have hretracted := Goes.calm hh Collector.retract rfl
  have hentered := hretracted.trans (.calm hretracted.housed (·.enter .sweeping) rfl)
  obtain ⟨⟨n, store⟩, hsweep, hhoused, hgrows, hcount⟩ := hentered.housed.sweep_ends.exists_ok
  refine .inl ⟨_, bind_eq_ok_iff.2 ⟨_, bind_eq_ok_iff.2 ⟨_, hsweep, rfl⟩, rfl⟩, ⟨hhoused, ?_⟩, Nat.succ_pos _⟩
  refine ⟨(hentered.works.grows.trans hgrows), ⟨Nat.le_succ _, Nat.le_refl _, Nat.le_succ _, Nat.le_succ _⟩, ?_, rfl⟩
  -- What the sweep destroyed is as much less as it is more collected.
  have hcount : store.table.count + n = s.store.table.count := hcount
  change s.collector.collectedTotal + n + store.table.count ≤ s.collector.collectedTotal + s.store.table.count
  omega

theorem complete_goes (hh : Housed buckets limits others s) (initiator : Option (MutatorId × List Atom)) :
    Ends (s.complete initiator) False fun p => s.Goes buckets limits 0 1 others p.2 ∧
      ((∃ n, p.1 = .collected n) → 0 < p.2.collector.collections) := by
  obtain ⟨s₁, hmarked, heq⟩ := s.complete_eq_conclude initiator
  have hown : s.Goes buckets limits 0 0 others s₁ := by
    rcases hmarked with rfl | ⟨id, atoms, rfl⟩
    · exact .refl hh
    · have hexcused := Goes.calm hh (·.excuse id) rfl
      exact hexcused.trans (.onTable hexcused.housed (.applyMarks atoms))
  rw [heq]
  have hawaited := hown.trans (awaitReports_goes hown.housed s₁.collector.reports)
  have hrest {s' : System} (hgoes : s.Goes buckets limits 0 1 others s') : s.Goes buckets limits 0 1 others s'.rest := by
    have hidle := hgoes.trans (.calm hgoes.housed (·.enter .idle) rfl)
    exact hidle.trans (.calm hidle.housed Collector.unlock rfl)
  unfold conclude
  split
  · refine (sweep_goes hawaited.housed).bind ?_
    rintro ⟨n, s₂⟩ ⟨hswept, hpos⟩
    exact .ok ⟨hrest (hawaited.trans hswept), fun _ => hpos⟩
  · refine .ok ⟨hrest ?_, nofun⟩
    have hretracted := hawaited.trans (.calm hawaited.housed Collector.retract rfl)
    have haborted := hretracted.trans (.onTable hretracted.housed .abortMarking)
    have hcounted := haborted.trans (.onCollector (n := 1) (f := Collector.countDeferred) haborted.housed
      ⟨Nat.le_succ _, Nat.le_succ _, Nat.le_refl _, Nat.le_succ _⟩ rfl)
    exact hcounted.trans (.onTable hcounted.housed .postpone)

/-! ## Acts -/

/-- Only what a system does not count is different. -/
structure Beside (s s' : System) : Prop where
  heap : s'.store.heap = s.store.heap
  table : s'.store.table = s.store.table
  counters : s'.collector.counters = s.collector.counters
  mutators : s'.mutators.map (·.pool) = s.mutators.map (·.pool)

/-- What the library does to a system, with what callers guarantee for it. -/
inductive Act : {α : Type} → (System → Prop) → (System → Except Fault (α × System)) → Prop
  | tune {α : Type} {f : Table → α × Table} : Table.Tuning f →
      Act (fun _ => True) fun s => .ok ((f s.store.table).1, s.onTable fun t => (f t).2)
  | internLocked (span : Span) (lasting : Bool) (blob : BlobId) :
      Act (fun _ => True) (onStore (·.internLocked span lasting blob))
  | internSpan (span : Span) (lasting : Bool) (blob : BlobId) :
      Act (fun _ => True) (onStore (·.internSpan span lasting blob))
  | lookup (span : Span) (blob : BlobId) : Act (fun _ => True) (onStore (·.lookup span blob))
  | shouldCollect : Act (fun _ => True) fun s => return (← s.store.table.shouldCollect, s)
  | tryBegin (thread : ThreadId) (initiator : Option MutatorId) (onlyIfNeeded : Bool) :
      Act (fun _ => True) (·.tryBegin thread initiator onlyIfNeeded)
  | complete (initiator : Option (MutatorId × List Atom)) : Act (fun _ => True) (·.complete initiator)
  /-- Root stacks, reports, the monitor, and whatever is only asked. -/
  | beside {α : Type} {contract : System → Prop} {f : System → Except Fault (α × System)} :
      (∀ s, contract s → ∃ a s', f s = .ok (a, s') ∧ s.Beside s') → Act contract f

/-- An act goes wrong for want of memory only, where the threshold for a cycle is a word. -/
theorem Act.ends {α : Type} {contract : System → Prop} {f : System → Except Fault (α × System)}
    (hf : Act contract f) (hh : Housed buckets limits others s) (hbuckets : buckets < 2 ^ 62)
    (hslots : s.store.table.slots.size + 1 < 2 ^ 62) (hweigh : s.store.table.Weighable) (hcontract : contract s) :
    Ends (f s) True fun p => s.Goes buckets limits 2 1 others p.2 := by
  have hmore {k m : Nat} {starved : Prop} {x : Except Fault (α × System)} (hk : k ≤ 2) (hm : m ≤ 1)
      (hx : Ends x starved fun p => s.Goes buckets limits k m others p.2) :
      Ends x True fun p => s.Goes buckets limits 2 1 others p.2 :=
    (hx.starve fun _ => trivial).mono fun p hp => hp.mono hk hm
  cases hf with
  | tune hf => exact .ok ((Goes.onTable hh hf).mono (Nat.zero_le _) (Nat.zero_le _))
  | internLocked span lasting blob =>
    have hintern := hh.internLocked_ends hbuckets (Nat.lt_of_succ_lt hslots) hweigh span lasting blob
    exact hmore (by decide) (Nat.zero_le _) (Goes.onStore (hintern.mono fun p hp => ⟨hp.1, hp.2.2⟩))
  | internSpan span lasting blob =>
    have hintern := hh.internSpan_ends hbuckets hslots hweigh span lasting blob
    exact hmore (Nat.le_refl _) (Nat.zero_le _) (Goes.onStore hintern)
  | lookup span blob => exact hmore (Nat.zero_le _) (Nat.zero_le _) (Goes.onStore (hh.lookup_ends span blob))
  | shouldCollect =>
    obtain ⟨due, hdue⟩ := hweigh.shouldCollect
    simp only [hdue, bind, Except.bind]
    exact .ok ((Goes.refl hh).mono (Nat.zero_le _) (Nat.zero_le _))
  | tryBegin thread initiator onlyIfNeeded =>
    exact hmore (Nat.zero_le _) (Nat.le_refl _) (tryBegin_goes hh hweigh initiator onlyIfNeeded)
  | complete initiator =>
    exact hmore (Nat.zero_le _) (Nat.le_refl _) ((complete_goes hh initiator).mono fun p hp => hp.1)
  | beside hf =>
    obtain ⟨a, s', h, hheap, htable, hcounters, hmutators⟩ := hf s hcontract
    rw [h]
    obtain ⟨config, ⟨heap, table, calls⟩, collector, mutators, monitor⟩ := s'
    cases hheap
    cases htable
    have hcalm := Goes.calm hh (fun _ => collector) hcounters
    refine .ok (Goes.mono ⟨⟨hh.table, hh.heap, hh.pool⟩, ?_, hcalm.works.later, hcalm.works.collected, hmutators⟩
      (Nat.zero_le _) (Nat.zero_le _))
    exact ⟨⟨0, .refl _ _, Nat.le_of_eq (Nat.zero_add _)⟩, .refl _, rfl, rfl, rfl, .inl rfl, Nat.le_refl _,
      Nat.le_refl _, Nat.le_refl _⟩

end System

end AtomHeap
