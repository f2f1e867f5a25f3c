import AtomHeap.Cycle.Timing
import AtomHeap.Proofs.Cycle.Pools
import Mathlib
/-!
# No arithmetic goes wrong

A site is a system with the blocks that the other users of its heap have. `Deed` lists everything that may be
done at a site, each with its contract, and `Site.Run` is any sequence of deeds in their contracts, from a
system that was made on a heap in use. Then all figures are words (`Figures`), and each deed goes wrong for want
of memory only, as long as the threshold for a cycle is a word whatever the number of live atoms
(`Site.figures_fit`). The largest margins that are accepted do not leave room for that
(`Site.overflow_of_margin`).
-/

namespace AtomHeap

/-- The mean stays between what it was and the length of the last cycle. -/
theorem Timing.note_eq (t : Timing) {elapsed cycles : Nat} (hcycles : 0 < cycles) (hmean : t.mean < wordCount)
    (helapsed : elapsed < wordCount) : ∃ mean, t.note elapsed cycles = .ok ⟨elapsed, mean⟩ ∧ mean < wordCount := by
  have hshare := Nat.div_le_self (max elapsed t.mean - min elapsed t.mean) cycles
  unfold Timing.note checkedDiv
  rw [if_neg (Nat.ne_of_gt hcycles)]
  generalize (max elapsed t.mean - min elapsed t.mean) / cycles = share at hshare
  dsimp only [bind, Except.bind]
  split
  · refine ⟨t.mean - share, ?_, by omega⟩
    rw [checkedSub_eq_ok_iff.2 ⟨by omega, rfl⟩]
    rfl
  · refine ⟨t.mean + share, ?_, by omega⟩
    rw [checkedAdd_eq_ok_iff.2 ⟨by omega, rfl⟩]
    rfl

open Heap (Solvent Request Requests SamePools HasPool Ask Life signedCount)

/-- A system, with the blocks that the other users of its heap have. -/
structure Site where
  system : System
  others : List Region

namespace Site

variable {α : Type} {config : Config} {grants : Nat → Nat → Bool} {n : Nat} {x x' : Site} {s : System}
  {id : MutatorId}

/-- Something is done to the system. -/
def act (f : System → Except Fault (α × System)) (x : Site) : Except Fault (α × Site) := do
  let (a, system) ← f x.system
  return (a, { x with system })

/-- Others ask something of the heap. Refusals on the way are logged. -/
def ask (f : Heap → Except Fault (α × Heap)) (after : α → List Region → List Region) (x : Site) :
    Except Fault (α × Site) := do
  let (a, system) ← x.system.onStore (·.onHeap f)
  return (a, ⟨system, after a x.others⟩)

/-- What may be done at a site, with what callers guarantee for it. -/
inductive Deed : {α : Type} → (Site → Prop) → (Site → Except Fault (α × Site)) → Prop
  | act {α : Type} {contract : System → Prop} {f : System → Except Fault (α × System)} :
      System.Act contract f → Deed (fun x => contract x.system) (act f)
  /-- Others keep their contracts with the heap, and do not close the pools of the system. -/
  | ask {α : Type} {contract : Heap → List Region → Prop} {f : Heap → Except Fault (α × Heap)}
      {after : α → List Region → List Region} :
      Ask contract f after →
      Deed (fun x => contract x.system.store.heap x.others ∧
        ∀ p, f x.system.store.heap = .ok p → ∀ id ∈ x.system.pools, p.2.HasPool (some id)) (ask f after)
  | attach (thread : ThreadId) : Deed (fun _ => True) (act fun s => .ok (s.attach thread))
  | detach (id : MutatorId) :
      Deed (fun x => ∃ m ∈ x.system.mutators, m.id = id) (act fun s => return ((), ← s.detach id))

/-- Slots can be numbered by 32 bits. -/
def Roomy (x : Site) : Prop := x.system.store.table.slots.size < UInt32.size

/-- What deeds lead to, with the number of requests and deeds on the way. The heap may have been in use before. -/
inductive Run (config : Config) (grants : Nat → Nat → Bool) : Nat → Site → Prop
  | start {n : Nat} {heap : Heap} {others : List Region} {s : System} :
      Life config.limits grants n heap others → System.create heap config = .ok s → Run config grants (n + 1) ⟨s, others⟩
  | deed {n : Nat} {x x' : Site} {α : Type} {contract : Site → Prop} {f : Site → Except Fault (α × Site)} {a : α} :
      Run config grants n x → Deed contract f → contract x → x.Roomy → f x = .ok (a, x') → Run config grants (n + 1) x'

/-- What all deeds keep. -/
structure Sound (config : Config) (n : Nat) (x : Site) : Prop where
  housed : x.system.Housed config.atomBuckets.toNat config.limits x.others
  enabled : x.system.store.table.agcEnabled = config.agcEnabled
  margin : x.system.store.table.margin = config.agcMargin.toNat
  nonGarbage : x.system.store.table.nonGarbage ≤ x.system.store.table.slots.size
  pools : x.system.pools.Nodup
  opened : ∀ id ∈ x.system.pools, x.system.store.heap.HasPool (some id)
  /-- A deed takes few requests, except that many blocks that were taken before can be given back at once. -/
  drift : ∀ c < SizeClass.count config.limits.allocFast,
    x.system.store.heap.drift c + x.system.store.table.regions.length ≤ 6 * n
  later : ({} : Collector).Later n x.system.collector
  collected : x.system.collector.collectedTotal + x.system.store.table.count ≤ 2 * n

/-! ## Deeds -/

theorem Sound.goes (hx : Sound config n x)
    (hs : x.system.Goes config.atomBuckets.toNat config.limits 2 1 x.others s) : Sound config (n + 1) ⟨s, x.others⟩ where
  housed := hs.housed
  enabled := hs.works.grows.enabled.trans hx.enabled
  margin := hs.works.grows.margin.trans hx.margin
  nonGarbage := by
    rcases hs.works.grows.nonGarbage with heq | hle
    · have := hx.nonGarbage
      have := hs.works.grows.slots
      simp only
      omega
    · exact hle
  pools := hs.works.pools ▸ hx.pools
  opened id hid := hs.works.grows.pools.hasPool (hx.opened id (hs.works.pools ▸ hid))
  drift c hc := by
    obtain ⟨m, hrequests, hle⟩ := hs.works.grows.requests
    have := hrequests.drift hx.housed.heap hc
    have := hx.drift c hc
    simp only
    omega
  later := hx.later.trans hs.works.later
  collected := by
    have := hx.collected
    have := hs.works.collected
    simp only
    omega

/-- A few requests of the heap leave the table alone. -/
theorem Sound.request (hx : Sound config n x) {others : List Region} {k : Nat} (hk : k ≤ 2)
    (htable : s.store.table = x.system.store.table)
    (hq : Requests k x.system.store.heap (x.system.store.table.regions ++ x.others) s.store.heap
      (x.system.store.table.regions ++ others))
    (hlater : x.system.collector.Later 1 s.collector)
    (hcollected : s.collector.collectedTotal = x.system.collector.collectedTotal) (hpools : s.pools.Nodup)
    (hopened : ∀ id ∈ s.pools, s.store.heap.HasPool (some id)) : Sound config (n + 1) ⟨s, others⟩ := by
  constructor
  case housed =>
    refine ⟨htable ▸ hx.housed.table, ?_, hopened _ List.mem_cons_self⟩
    dsimp only
    rw [htable]
    exact hq.solvent hx.housed.heap
  case drift =>
    intro c hc
    have := hq.drift hx.housed.heap hc
    have := hx.drift c hc
    dsimp only
    rw [htable]
    omega
  case later => exact hx.later.trans hlater
  case collected =>
    have := hx.collected
    dsimp only
    rw [htable, hcollected]
    omega
  case pools => exact hpools
  case opened => exact hopened
  all_goals
    dsimp only
    rw [htable]
  · exact hx.enabled
  · exact hx.margin
  · exact hx.nonGarbage

theorem ask_eq {f : Heap → Except Fault (α × Heap)} (after : α → List Region → List Region) {a : α} {heap : Heap}
    (h : f x.system.store.heap = .ok (a, heap)) :
    ∃ calls, ask f after x = .ok (a, ⟨{ x.system with
      store := { x.system.store with heap := { heap with refusals := [] }, calls } }, after a x.others⟩) := by
  have hheap := Store.logRefusals_heap ⟨heap, x.system.store.table, x.system.store.calls⟩
  have htable := Store.logRefusals_table ⟨heap, x.system.store.table, x.system.store.calls⟩
  cases hlogged : Store.logRefusals ⟨heap, x.system.store.table, x.system.store.calls⟩ with
  | mk heap' table' calls' =>
    rw [hlogged] at hheap htable
    cases hheap
    cases htable
    refine ⟨calls', ?_⟩
    unfold ask System.onStore Store.onHeap
    simp only [h, hlogged, bind, Except.bind]
    rfl

theorem Sound.ask_ends (hx : Sound config n x) {contract : Heap → List Region → Prop}
    {f : Heap → Except Fault (α × Heap)} {after : α → List Region → List Region} (hf : Ask contract f after)
    (hcontract : contract x.system.store.heap x.others)
    (hopened : ∀ p, f x.system.store.heap = .ok p → ∀ id ∈ x.system.pools, p.2.HasPool (some id)) :
    Ends (ask f after x) True fun p => Sound config (n + 1) p.2 := by
  rcases hf.ends hx.housed.heap.settled.owned hcontract with ⟨⟨a, heap⟩, h, hq⟩ | ⟨h, -⟩
  · obtain ⟨all, hall, hperm⟩ := hq.frame x.system.store.table.regions
    obtain ⟨calls, heq⟩ := ask_eq after h
    exact .inl ⟨_, heq, hx.request (Nat.le_refl 2) rfl ((Requests.cons hall (.one .collect)).permRight hperm)
      (.refl 1 _) rfl hx.pools (hopened _ h)⟩
  · refine .inr ⟨?_, trivial⟩
    unfold ask System.onStore Store.onHeap
    simp only [h, bind, Except.bind]

theorem Sound.open (hx : Sound config n x) : x.system.Opened := ⟨hx.pools, hx.opened⟩

theorem Sound.attach (hx : Sound config n x) (thread : ThreadId) :
    Sound config (n + 1) ⟨(x.system.attach thread).2, x.others⟩ := by
  have hopened := System.attach_opened hx.open hx.housed.heap.settled.owned thread
  exact hx.request (k := 1) (by decide) rfl (.one .openPool)
    ⟨Nat.le_succ _, Nat.le_succ _, Nat.le_succ _, Nat.le_refl _⟩ rfl hopened.nodup hopened.hasPool

theorem Sound.detach (hx : Sound config n x) (hid : ∃ m ∈ x.system.mutators, m.id = id) :
    ∃ s, x.system.detach id = .ok s ∧ Sound config (n + 1) ⟨s, x.others⟩ := by
  obtain ⟨m, hm⟩ := System.mutator_of_mem hid
  have hpool := hx.opened _ (System.mutator_pool hm)
  obtain ⟨heap, hclose, -⟩ := (hx.housed.heap.settled.owned.closePool_ends (hpool _ rfl)).exists_ok
  have hcounters := (System.sendLast_eq (x.system.onCollector (·.deregister m.id)) m).2
  simp only [Collector.counters, Prod.mk.injEq] at hcounters
  obtain ⟨hepoch, hcollections, hdeferred, hnext, hcollected⟩ := hcounters
  have hopened := System.leftBy_opened hx.open (System.mem_of_mutator hm) hclose
  refine ⟨x.system.leftBy m heap, by rw [System.detach_eq hm, hclose]; rfl,
    hx.request (k := 1) (by decide) rfl (.one (.closePool hpool hclose)) ?_ hcollected hopened.nodup hopened.hasPool⟩
  exact ⟨Nat.le_succ_of_le (Nat.le_of_eq hepoch), Nat.le_succ_of_le (Nat.le_of_eq hcollections),
    Nat.le_succ_of_le (Nat.le_of_eq hdeferred), Nat.le_succ_of_le (Nat.le_of_eq hnext)⟩

theorem Deed.ends {contract : Site → Prop} {f : Site → Except Fault (α × Site)} (hf : Deed contract f)
    (hx : Sound config n x) (hbuckets : config.atomBuckets.toNat < 2 ^ 62) (hroom : x.Roomy)
    (hweigh : x.system.store.table.Weighable) (hcontract : contract x) :
    Ends (f x) True fun p => Sound config (n + 1) p.2 := by
  cases hf with
  | act hact =>
    have hslots : x.system.store.table.slots.size + 1 < 2 ^ 62 :=
      Nat.lt_of_le_of_lt (show _ ≤ UInt32.size from hroom) (by decide)
    refine (hact.ends hx.housed hbuckets hslots hweigh hcontract).bind ?_
    rintro ⟨a, s⟩ hs
    exact .ok (hx.goes hs)
  | ask hask => exact hx.ask_ends hask hcontract.1 hcontract.2
  | attach thread => exact .ok (hx.attach thread)
  | detach id =>
    obtain ⟨s, hdetach, hs⟩ := hx.detach hcontract
    refine .inl ⟨((), ⟨s, x.others⟩), ?_, hs⟩
    unfold Site.act
    simp only [hdetach, bind, Except.bind]
    rfl

/-! ## Runs -/

theorem sound_start (hc : config.check = .ok ()) {heap : Heap} {others : List Region}
    (hl : Life config.limits grants n heap others) : Sound config (n + 1) ⟨.empty heap config, others⟩ := by
  have hchunk := Heap.chunkSize_aligned hc
  have hsolvent := hl.solvent hchunk
  have howned := hsolvent.settled.owned
  constructor
  case housed => exact Store.housed_empty hc hsolvent
  case drift =>
    intro c hcount
    have hopened : Request heap others (System.empty heap config).store.heap others := .openPool
    have hdrift := hopened.drift howned (howned.limits ▸ hcount)
    have := hl.drift hchunk hcount
    have hregions : (System.empty heap config).store.table.regions.length = 0 := rfl
    dsimp only
    omega
  case pools => exact List.nodup_singleton _
  case opened =>
    intro id hid
    cases List.mem_singleton.1 hid
    rintro _ ⟨⟩
    exact List.mem_cons_self
  case later => exact .refl _ _
  case collected => exact Nat.zero_le _
  case nonGarbage => exact Nat.zero_le _
  case enabled => rfl
  case margin => rfl

/-- Whatever was done, the threshold for a cycle is a word, if the margin leaves room for as many atoms as there
can be slots. -/
theorem Sound.weighable (hx : Sound config n x)
    (hmargin : config.agcEnabled = true → config.agcMargin.toNat + UInt32.size ≤ wordCount) (hroom : x.Roomy) :
    x.system.store.table.Weighable := by
  intro henabled
  rw [hx.enabled] at henabled
  rw [hx.margin]
  have := hmargin henabled
  have := hx.nonGarbage
  have : x.system.store.table.slots.size < UInt32.size := hroom
  omega

theorem Run.sound (hc : config.check = .ok ())
    (hmargin : config.agcEnabled = true → config.agcMargin.toNat + UInt32.size ≤ wordCount)
    (hr : Run config grants n x) : Sound config n x ∧ config.atomBuckets.toNat < 2 ^ 62 := by
  induction hr with
  | start hl hs =>
    obtain ⟨hchains, rfl⟩ := System.create_eq hs
    exact ⟨sound_start hc hl, Nat.lt_of_le_of_lt hchains (by decide)⟩
  | deed _ hf hcontract hroom h ih =>
    obtain ⟨hx, hbuckets⟩ := ih
    exact ⟨(hf.ends hx hbuckets hroom (hx.weighable hmargin hroom) hcontract).post_of_ok h, hbuckets⟩

/-! ## All figures are words -/

/-- All figures of a site are words, and so is what is computed from them next. -/
structure Figures (x : Site) : Prop where
  heap : Heap.Fits x.system.store.heap (x.system.store.table.regions ++ x.others)
  count : x.system.store.table.count ≤ x.system.store.table.slots.size
  bytes : x.system.store.table.bytes ≤ x.system.store.heap.bytesInUse
  threshold : x.system.store.table.Weighable
  load : x.system.store.table.count + 1 < wordCount ∧ 2 * x.system.store.table.chains.size < wordCount
  shift : x.system.store.table.chains.size.log2 < 64
  chain : ∀ hash, ∃ i, Hash.chain hash x.system.store.table.chains.size = .ok i ∧
    i < x.system.store.table.chains.size
  counters : x.system.collector.epoch < wordCount ∧ x.system.collector.collections < wordCount ∧
    x.system.collector.deferred < wordCount ∧ x.system.collector.nextMutator < wordCount ∧
    x.system.collector.collectedTotal < wordCount

theorem Sound.figures (hx : Sound config n x) (hbuckets : config.atomBuckets.toNat < 2 ^ 62) (hroom : x.Roomy)
    (hweigh : x.system.store.table.Weighable) (hn : 6 * n < signedCount) : x.Figures := by
  have hslots : x.system.store.table.slots.size < 2 ^ 62 := Nat.lt_trans hroom (by decide)
  have htable := hx.housed.table
  have hfits := htable.fits hbuckets hslots
  have hsigned : signedCount = 2 ^ 63 := rfl
  have hword : wordCount = 2 ^ 64 := rfl
  have hsize : x.system.store.table.chains.size ≠ 0 := by
    have := Table.number_lt htable.linked.power 0
    omega
  have hlater := hx.later
  constructor
  case heap =>
    refine hx.housed.heap.fits fun c hc => ?_
    have := hx.drift c hc
    omega
  case count => exact htable.accounted.count_le
  case bytes =>
    have htotal := hx.housed.heap.settled.inUse
    rw [Heap.total_append] at htotal
    have := hx.housed.bytes_le
    omega
  case threshold => exact hweigh
  case load => exact hfits
  case shift =>
    rw [Nat.log2_lt hsize]
    have := hfits.2
    omega
  case chain =>
    intro hash
    refine ⟨_, ?_, Table.number_lt htable.linked.power hash⟩
    unfold Hash.chain
    rw [if_pos htable.linked.power]
    rfl
  case counters =>
    have hepoch : x.system.collector.epoch ≤ 0 + n := hlater.epoch
    have hcollections : x.system.collector.collections ≤ 0 + n := hlater.collections
    have hdeferred : x.system.collector.deferred ≤ 0 + n := hlater.deferred
    have hmutators : x.system.collector.nextMutator ≤ 1 + n := hlater.mutators
    have hcollected := hx.collected
    refine ⟨by omega, by omega, by omega, Nat.lt_of_le_of_lt hmutators (by omega), by omega⟩

/-- Deeds go wrong for want of memory only, and all figures are words, if the margin leaves room for as many atoms
as there can be slots: those of a heap alone, those of a site, and those that are computed from a request's
size or from the length of a cycle. -/
theorem figures_fit {config : Config} (hc : config.check = .ok ())
    (hmargin : config.agcEnabled = true → config.agcMargin.toNat + UInt32.size ≤ wordCount)
    (grants : Nat → Nat → Bool) :
    (∀ n heap out, Life config.limits grants n heap out → n < signedCount → heap.Fits out ∧
      ∀ (α : Type) (contract : Heap → List Region → Prop) (f : Heap → Except Fault (α × Heap))
        (after : α → List Region → List Region), Ask contract f after → contract heap out →
        Ends (f heap) True fun p => Request heap out p.2 (after p.1 out)) ∧
    (∀ n x, Run config grants n x → x.Roomy → 6 * n < signedCount → x.Figures ∧
      (∀ (α : Type) (contract : Site → Prop) (f : Site → Except Fault (α × Site)), Deed contract f → contract x →
        Ends (f x) True fun _ => True) ∧
      (∀ initiator m s, x.system.complete initiator = .ok (.collected m, s) →
        ∀ (t : Timing) elapsed, t.mean < wordCount → elapsed < wordCount →
          ∃ mean, t.note elapsed s.collector.collections = .ok ⟨elapsed, mean⟩ ∧ mean < wordCount) ∧
      ∃ heap, x.system.store.close = .ok heap) ∧
    (∀ size length, roundUp size = .ok length → size + (alignment - 1) < signedCount ∧ length < signedCount) ∧
      ∀ size c, SizeClass.ofSize size config.limits.allocFast = .ok (.fast c) →
        c < SizeClass.count config.limits.allocFast := by
  have hchunk := Heap.chunkSize_aligned hc
  refine ⟨fun n heap out hl hn => ?_, fun n x hr hroom hn => ?_, fun size length hround => ?_, fun size c hfast => ?_⟩
  · have hsolvent := hl.solvent hchunk
    refine ⟨hsolvent.fits fun c hcount => Nat.lt_of_le_of_lt (hl.drift hchunk hcount) hn, ?_⟩
    have howned : Heap.Owned config.limits heap ([] ++ out) := hsolvent.settled.owned
    exact fun α contract f after hf hcontract => hf.ends howned hcontract
  · obtain ⟨hx, hbuckets⟩ := hr.sound hc hmargin
    have hweigh := hx.weighable hmargin hroom
    refine ⟨hx.figures hbuckets hroom hweigh hn, fun α contract f hf hcontract => ?_,
      fun initiator m s h t elapsed hmean helapsed => ?_, ?_⟩
    · exact (hf.ends hx hbuckets hroom hweigh hcontract).mono fun _ _ => trivial
    · have hcycles := ((System.complete_goes hx.housed initiator).post_of_ok h).2 ⟨m, rfl⟩
      exact t.note_eq hcycles hmean helapsed
    · obtain ⟨heap, _, hclose, -⟩ := Store.close_requests hx.housed.heap.settled hx.housed.pool
      exact ⟨heap, hclose⟩
  · obtain ⟨-, hle, rfl⟩ := roundUp_eq_ok_iff.1 hround
    have hmax : maxRequest = 2 ^ 63 - 16 := rfl
    have hsigned : signedCount = 2 ^ 63 := rfl
    simp only [alignment]
    omega
  · exact (SizeClass.ofSize_eq_fast hfast).2.2

/-- A thread attaches to a new system, makes an atom and gives it up, has it collected and leaves, while another user
of the heap allocates. All figures are words. -/
theorem figures_fit_left :
    ∃ x, Run { atomBuckets := 1, allocFast := 32, chunkSize := 64, localFreeMax := 2 } (fun _ _ => true) 8 x ∧
      x.Roomy ∧ 6 * 8 < signedCount ∧ x.system.collector.collectedTotal = 1 ∧ x.others.length = 1 ∧ x.Figures ∧
      ∃ heap, x.system.store.close = .ok heap := by
  have hfit := (@figures_fit { atomBuckets := 1, allocFast := 32, chunkSize := 64, localFreeMax := 2 } rfl
    (fun _ => by decide) fun _ _ => true).2.1
  have hempty : 0 < UInt32.size := by decide
  have hroom : 1 < UInt32.size := by decide
  have hnew := @Run.start { atomBuckets := 1, allocFast := 32, chunkSize := 64, localFreeMax := 2 }
    (fun _ _ => true) _ _ _ _ .start rfl
  have hattached := hnew.deed (.attach 7) trivial hempty rfl
  have hmade := hattached.deed (.act (.internSpan { bytes := [97] } false BlobId.text)) trivial hempty (by cbv)
  have hgiven := hmade.deed (.act (.tune (.unregister ⟨0, 0⟩))) trivial hroom rfl
  have hasked := hgiven.deed (.ask (.alloc none 40)) ⟨Heap.hasPool_none _, by
    rintro p h id hid _ ⟨⟩
    cases h
    exact hid⟩ hroom (by cbv)
  have hbegun := hasked.deed (.act (.tryBegin 7 (some 1) false)) trivial hroom (by cbv)
  have hcollected := hbegun.deed (.act (.complete (some (1, [])))) trivial hroom (by cbv)
  have hleft := hcollected.deed (.detach 1) ⟨_, List.mem_cons_self, rfl⟩ hroom rfl
  obtain ⟨hfigures, -, -, hclosed⟩ := hfit _ _ hleft hroom (by decide)
  exact ⟨_, hleft, hroom, by decide, rfl, rfl, hfigures, hclosed⟩

/-- With the largest margin, once an atom counts as left by the last cycle, whoever makes another ends the run. -/
theorem overflow_of_margin :
    Config.check { atomBuckets := 1, agcMargin := 0xffffffffffffffff } = .ok () ∧
      ∃ i s, (Store.empty (.empty ⟨512, 65536, 200⟩ fun _ _ => true)
          { atomBuckets := 1, agcMargin := 0xffffffffffffffff }).internLocked { bytes := [97] } false BlobId.text =
            .ok (.ok i, s) ∧
        Store.internLocked { s with table := s.table.lockAtoms } { bytes := [98] } false BlobId.text =
          .error .overflow := by
  refine ⟨rfl, _, _,
    Store.internLocked_of_insert rfl rfl rfl rfl (Table.insert_of_no_holes rfl rfl rfl rfl rfl) rfl, ?_⟩
  exact Store.internLocked_of_fault rfl rfl rfl rfl (Table.insert_of_no_holes rfl rfl rfl rfl rfl) rfl

end Site

end AtomHeap
