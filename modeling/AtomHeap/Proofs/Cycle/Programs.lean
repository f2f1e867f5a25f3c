import AtomHeap.Proofs.Cycle.Shown
import AtomHeap.System.Watch
import Mathlib
/-!
# Tuning is not seen

A program does any sequence of things to a system, each of which may depend on what came of those before
(`Program`). It goes on only while no allocation fails, and looks up only what unique types have. What a program
gives, and what the system shows after it, does not depend on how many chains the table starts with, on how the
heap cuts up memory, or on which memory it is granted (`tuning_unseen`).
-/

namespace AtomHeap

/-- Configurations that differ at most in the first number of chains and in how the heap cuts up memory. -/
def Config.Retuned (c c' : Config) : Prop :=
  c' = { c with
    atomBuckets := c'.atomBuckets
    allocFast := c'.allocFast
    chunkSize := c'.chunkSize
    localFreeMax := c'.localFreeMax }

namespace System

open Table (Tuning)

variable {α β : Type} {memory : StaticMemory} {s s' u : System} {a : α}

/-! ## Steps that need a condition -/

/-- Interns a span. If an allocation fails, nothing is done after that. -/
def internServed (span : Span) (lasting : Bool) (blob : BlobId) :
    StateT System (Except Fault) (Except AtomError Interned) := fun s => do
  let (r, s) ← s.onStore (·.internSpan span lasting blob)
  if Store.starved r s.store then .error .exhausted else .ok (r, s)

/-- Looks a span up as a type that has one atom for it at most. -/
def lookupUnique (span : Span) (blob : BlobId) : StateT System (Except Fault) (Option Atom) := fun s =>
  if (s.store.table.blobs.get? blob).all (·.flags.unique) then s.onStore (·.lookup span blob)
  else .error .brokenContract

theorem internServed_eq_ok {span : Span} {lasting : Bool} {blob : BlobId} {r : Except AtomError Interned}
    (h : internServed span lasting blob s = .ok (r, s')) :
    ∃ store, s.store.internSpan span lasting blob = .ok (r, store) ∧ ¬ Store.starved r store ∧
      s' = { s with store } := by
  obtain ⟨⟨r, s₁⟩, hstore, h⟩ := bind_eq_ok_iff.1 h
  obtain ⟨⟨r, store⟩, hintern, hstore⟩ := bind_eq_ok_iff.1 hstore
  cases hstore
  simp only at h
  split at h
  · cases h
  · rename_i hserved
    cases h
    exact ⟨store, hintern, hserved, rfl⟩

namespace Alike

variable (halike : s.Alike u)

include halike

theorem onStore {store store' : Store} (h : store.Alike store') : Alike { s with store } { u with store := store' } :=
  ⟨h, halike.collector, halike.mutators, halike.monitor⟩

theorem internServed (hs : s.Kept memory) (hu : u.Kept memory) {span : Span} {lasting : Bool} {blob : BlobId}
    (hspan : span.Lies memory) {r : Except AtomError Interned}
    (h : System.internServed span lasting blob s = .ok (r, s')) :
    Ends (System.internServed span lasting blob u) True fun p => p.1 = r ∧ s'.Alike p.2 := by
  obtain ⟨store, hintern, hserved, rfl⟩ := internServed_eq_ok h
  obtain ⟨_, _, hhoused⟩ := hs.housed
  obtain ⟨_, _, hhousedu⟩ := hu.housed
  have hends : Ends (u.onStore (·.internSpan span lasting blob)) True fun p =>
      Store.starved p.1 p.2.store ∨ (p.1 = r ∧ Alike { s with store } p.2) := by
    refine (halike.store.internSpan hhoused.table hhousedu hs.canonical hspan hintern hserved).bind fun p => ?_
    rintro (hnone | ⟨hanswer, hstore⟩)
    · exact .ok (.inl hnone)
    · exact .ok (.inr ⟨hanswer, halike.onStore hstore⟩)
  refine hends.bind ?_
  rintro ⟨r', u'⟩ hsame
  dsimp only
  split
  · exact .inr ⟨rfl, trivial⟩
  · rename_i hfed
    exact .ok (hsame.resolve_left hfed)

theorem lookupUnique (hs : s.Kept memory) (hu : u.Kept memory) {span : Span} {blob : BlobId} (hspan : span.Lies memory)
    {found : Option Atom} (h : System.lookupUnique span blob s = .ok (found, s')) :
    ∃ u', System.lookupUnique span blob u = .ok (found, u') ∧ s'.Alike u' := by
  obtain ⟨_, _, hhoused⟩ := hs.housed
  obtain ⟨_, _, hhousedu⟩ := hu.housed
  have hblobs : u.store.table.blobs = s.store.table.blobs := congrArg (·.blobs) halike.store.table.shown
  unfold System.lookupUnique at h ⊢
  rw [hblobs]
  split at h
  · rename_i hunique
    obtain ⟨⟨found, store⟩, hlookup, h⟩ := bind_eq_ok_iff.1 h
    cases h
    obtain ⟨store', hlookupu, hstore⟩ := halike.store.lookup hhoused.table hhousedu.table hs.canonical hspan
      (fun type htype => by rwa [htype] at hunique) hlookup
    rw [if_pos hunique]
    exact ⟨_, onStore_of_ok hlookupu, halike.onStore hstore⟩
  · cases h

theorem sweep (hs : s.Kept memory) (hu : u.Kept memory) {n : Nat} (h : s.onStore Store.sweep = .ok (n, s')) :
    ∃ u', u.onStore Store.sweep = .ok (n, u') ∧ s'.Alike u' := by
  obtain ⟨_, _, hhoused⟩ := hs.housed
  obtain ⟨_, _, hhousedu⟩ := hu.housed
  obtain ⟨⟨n, store⟩, hsweep, h⟩ := bind_eq_ok_iff.1 h
  cases h
  obtain ⟨store', hsweepu, hstore⟩ := halike.store.sweep hhoused.table hhousedu hsweep
  exact ⟨_, onStore_of_ok hsweepu, halike.onStore hstore⟩

theorem detach (hu : u.Kept memory) {id : MutatorId} (h : s.detach id = .ok s') :
    ∃ u', u.detach id = .ok u' ∧ s'.Alike u' := by
  obtain ⟨_, _, hhousedu⟩ := hu.housed
  obtain ⟨m, hm, -⟩ := bind_eq_ok_iff.1 h
  obtain ⟨m', hmu, hshown⟩ := mutator_of_shown halike.mutators hm
  have hpool := hu.opened.hasPool _ (mutator_pool hmu)
  obtain ⟨heap, hclose, -⟩ := (hhousedu.heap.settled.owned.closePool_ends (hpool _ rfl)).exists_ok
  rw [detach_eq hmu, hclose]
  rw [detach_eq hm] at h
  cases hcloses : s.store.heap.closePool m.pool with
  | error e =>
    rw [hcloses] at h
    cases h
  | ok heap' =>
    rw [hcloses] at h
    cases h
    exact ⟨_, rfl, halike.leftBy hshown⟩

end Alike

/-! ## Programs -/

/-- What is done with the atoms of a system and its cycles, one after the other. Spans that last are those of the
memory. -/
inductive Program (memory : StaticMemory) : {α : Type} → StateT System (Except Fault) α → Prop
  | pure {α : Type} (a : α) : Program memory (pure a)
  | bind {α β : Type} {f : StateT System (Except Fault) α} {g : α → StateT System (Except Fault) β} :
      Program memory f → (∀ a, Program memory (g a)) → Program memory (f >>= g)
  | intern {span : Span} (lasting : Bool) (blob : BlobId) :
      span.Lies memory → Program memory (internServed span lasting blob)
  | lookup {span : Span} (blob : BlobId) : span.Lies memory → Program memory (lookupUnique span blob)
  | tune {α : Type} {f : Table → α × Table} :
      Tuning f → Program memory fun s => .ok ((f s.store.table).1, s.onTable fun t => (f t).2)
  | sweep : Program memory fun s => s.onStore Store.sweep
  | collector (f : Collector → Collector) : Program memory fun s => .ok ((), s.onCollector f)
  | monitor (f : Monitor → Monitor) : Program memory fun s => .ok ((), { s with monitor := f s.monitor })
  | attach (thread : ThreadId) : Program memory fun s => .ok (s.attach thread)
  | detach (id : MutatorId) : Program memory fun s => return ((), ← s.detach id)
  | roots (id : MutatorId) (f : RootStack → RootStack) :
      Program memory fun s => .ok ((), s.updateMutator id fun m => { m with roots := f m.roots })
  | answered (id : MutatorId) (epoch : Nat) :
      Program memory fun s => .ok ((), s.updateMutator id ({ · with lastEpoch := epoch }))
  /-- Whatever the system shows may be asked. -/
  | ask {α : Type} {q : System → Except Fault α} :
      (∀ s u, u.shown = s.shown → q u = q s) → Program memory fun s => return (← q s, s)

theorem Program.forM {f : α → StateT System (Except Fault) PUnit} {l : List α} (hf : ∀ a, Program memory (f a)) :
    Program memory (l.forM f) := by
  induction l with
  | nil => exact .pure _
  | cons a _ ih => exact .bind (hf a) fun _ => ih

theorem Program.kept {p : StateT System (Except Fault) α} (hp : Program memory p) (hs : s.Kept memory)
    (h : p s = .ok (a, s')) : s'.Kept memory := by
  induction hp generalizing s s' with
  | pure =>
    cases h
    exact hs
  | bind _ _ ihf ihg =>
    obtain ⟨b, s₁, hf, hg⟩ := state_bind_eq_ok_iff.1 h
    exact ihg b (ihf hs hf) hg
  | intern lasting blob hspan =>
    obtain ⟨store, hintern, -, rfl⟩ := internServed_eq_ok h
    exact hs.internSpan hspan hintern
  | lookup blob hspan =>
    unfold lookupUnique at h
    split at h
    · obtain ⟨⟨found, store⟩, hlookup, h⟩ := bind_eq_ok_iff.1 h
      cases h
      exact hs.lookup hlookup
    · cases h
  | tune hf =>
    cases h
    exact hs.onTable hf
  | sweep =>
    obtain ⟨⟨n, store⟩, hsweep, h⟩ := bind_eq_ok_iff.1 h
    cases h
    exact hs.sweep hsweep
  | collector f =>
    cases h
    exact hs.congr rfl rfl
  | monitor f =>
    cases h
    exact hs.congr rfl rfl
  | attach thread =>
    cases h
    exact hs.attach thread
  | detach id =>
    obtain ⟨s₁, hdetach, h⟩ := bind_eq_ok_iff.1 h
    cases h
    exact hs.detach hdetach
  | roots id f =>
    cases h
    exact hs.congr rfl (map_pool_updateMutator s id fun _ => rfl)
  | answered id epoch =>
    cases h
    exact hs.congr rfl (map_pool_updateMutator s id fun _ => rfl)
  | ask hq =>
    obtain ⟨b, -, h⟩ := bind_eq_ok_iff.1 h
    cases h
    exact hs

/-- Two systems that show the same do so after each program, and it gives the same in both, unless it ends for want
of memory. -/
theorem Program.alike {p : StateT System (Except Fault) α} (hp : Program memory p) (hs : s.Kept memory)
    (hu : u.Kept memory) (halike : s.Alike u) (h : p s = .ok (a, s')) :
    Ends (p u) True fun r => r.1 = a ∧ s'.Alike r.2 := by
  induction hp generalizing s u s' with
  | pure =>
    cases h
    exact .ok ⟨rfl, halike⟩
  | bind hf hg ihf ihg =>
    obtain ⟨b, s₁, hfs, hgs⟩ := state_bind_eq_ok_iff.1 h
    refine (ihf hs hu halike hfs).and_eq.bind ?_
    rintro ⟨b', u₁⟩ ⟨hfu, rfl, halike₁⟩
    exact ihg b' (hf.kept hs hfs) (hf.kept hu hfu) halike₁ hgs
  | intern lasting blob hspan => exact halike.internServed hs hu hspan h
  | lookup blob hspan =>
    obtain ⟨u', hlookup, halike'⟩ := halike.lookupUnique hs hu hspan h
    exact .inl ⟨_, hlookup, rfl, halike'⟩
  | tune hf =>
    cases h
    obtain ⟨hanswer, halike'⟩ := halike.onTable hf
    exact .ok ⟨hanswer, halike'⟩
  | sweep =>
    obtain ⟨u', hsweep, halike'⟩ := halike.sweep hs hu h
    exact .inl ⟨_, hsweep, rfl, halike'⟩
  | collector f =>
    cases h
    exact .ok ⟨rfl, halike.onCollector f⟩
  | monitor f =>
    cases h
    exact .ok ⟨rfl, halike.store, halike.collector, halike.mutators, congrArg f halike.monitor⟩
  | attach thread =>
    cases h
    obtain ⟨hanswer, halike'⟩ := halike.attach thread
    exact .ok ⟨hanswer, halike'⟩
  | detach id =>
    obtain ⟨s₁, hdetach, h⟩ := bind_eq_ok_iff.1 h
    cases h
    obtain ⟨u', hdetachu, halike'⟩ := halike.detach hu hdetach
    exact .inl ⟨((), u'), bind_eq_ok_iff.2 ⟨u', hdetachu, rfl⟩, rfl, halike'⟩
  | roots id f =>
    cases h
    exact .ok ⟨rfl, halike.updateMutator id fun _ => rfl⟩
  | answered id epoch =>
    cases h
    exact .ok ⟨rfl, halike.updateMutator id fun _ => rfl⟩
  | ask hq =>
    obtain ⟨b, hb, h⟩ := bind_eq_ok_iff.1 h
    cases h
    have hbu := hq _ _ (halike.shown hs hu)
    rw [hb] at hbu
    dsimp only
    rw [hbu]
    exact .ok ⟨rfl, halike⟩

/-! ## What programs can do -/

theorem collector_of_shown (h : u.shown = s.shown) : u.collector = s.collector := congrArg (·.collector) h

theorem isRequested_of_shown (h : u.shown = s.shown) : u.isRequested = s.isRequested :=
  congrArg (·.table.requested) h

theorem info_of_shown (h : u.shown = s.shown) (a : Atom) : u.store.table.info a = s.store.table.info a := by
  rw [← Table.info_shown, show u.store.table.shown = s.store.table.shown from congrArg (·.table) h, Table.info_shown]

/-- The figures of a system apart from the number of chains and what its heap reserved. -/
def figures (s : System) : Metrics :=
  { s.metrics with
    chains := 0
    heap := { s.metrics.heap with reserved := 0, chunks := 0, allocFast := 0, localFreeMax := 0 } }

theorem figures_of_shown (h : u.shown = s.shown) : u.figures = s.figures := by
  have hcount : u.store.table.count = s.store.table.count := congrArg (·.table.count) h
  have hbuiltin : u.store.table.builtin = s.store.table.builtin := congrArg (·.table.builtin) h
  have hbytes : u.store.table.bytes = s.store.table.bytes := congrArg (·.table.bytes) h
  have hinUse : u.store.heap.bytesInUse = s.store.heap.bytesInUse := congrArg (·.bytesInUse) h
  have hruns : u.monitor.running = s.monitor.running := congrArg (·.monitor.running) h
  unfold figures metrics standing Heap.stat
  simp only [hcount, hbuiltin, hbytes, hinUse, hruns, collector_of_shown h, isRequested_of_shown h]

namespace Program

variable {f : StateT System (Except Fault) α} {g : System → System} {id : MutatorId}

/-- What is done next may depend on what is asked. -/
theorem askThen {q : System → Except Fault β} {f : β → StateT System (Except Fault) α}
    (hq : ∀ s u, u.shown = s.shown → q u = q s) (hf : ∀ b, Program memory (f b)) :
    Program memory fun s => q s >>= fun b => f b s := by
  have heq : (fun s => q s >>= fun b => f b s) = StateT.bind (fun s => return (← q s, s)) f := by
    funext s
    simp only [StateT.bind]
    cases q s <;> rfl
  rw [heq]
  exact .bind (.ask hq) hf

/-- What is done next may depend on what the system shows. -/
theorem choose {q : System → β} {f : β → StateT System (Except Fault) α}
    (hq : ∀ s u, u.shown = s.shown → q u = q s) (hf : ∀ b, Program memory (f b)) :
    Program memory fun s => f (q s) s :=
  .askThen (q := fun s => .ok (q s)) (fun s u h => congrArg Except.ok (hq s u h)) hf

/-- Something is done that gives nothing, and then something else. -/
theorem after (hg : Program memory fun s => .ok ((), g s)) (hf : Program memory f) :
    Program memory fun s => f (g s) :=
  .bind hg fun _ => hf

/-- Something is done that gives nothing, and the answer is given. -/
theorem give (hg : Program memory fun s => .ok ((), g s)) (a : α) : Program memory fun s => .ok (a, g s) :=
  hg.after (.pure a)

theorem onTable {f : Table → α × Table} (hf : Tuning f) :
    Program memory fun s => .ok ((), s.onTable fun t => (f t).2) :=
  .bind (.tune hf) fun _ => .pure ()

theorem mutator {f : Mutator → StateT System (Except Fault) α} (hf : ∀ m, f m.shown = f m)
    (hp : ∀ m, Program memory (f m)) : Program memory fun s => s.mutator id >>= fun m => f m s := by
  have heq : (fun s : System => s.mutator id >>= fun m => f m s) =
      fun s => (s.mutator id).map Mutator.shown >>= fun m => f m s := by
    funext s
    cases s.mutator id with
    | error e => rfl
    | ok m => exact (congrFun (hf m) s).symm
  rw [heq]
  exact .askThen (fun s u h => mutator_shown (congrArg (·.mutators) h) id) hp

theorem ite {q : System → Prop} [DecidablePred q] {f' : StateT System (Except Fault) α}
    (hq : ∀ s u, u.shown = s.shown → (q u ↔ q s)) (hf : Program memory f) (hf' : Program memory f') :
    Program memory fun s => if q s then f s else f' s := by
  have heq : (fun s => if q s then f s else f' s) = fun s => (bif decide (q s) then f else f') s := by
    funext s
    by_cases h : q s <;> simp [h]
  rw [heq]
  refine .choose (q := fun s => decide (q s)) (f := fun b => bif b then f else f')
    (fun s u h => decide_eq_decide.2 (hq s u h)) fun b => ?_
  cases b
  · exact hf'
  · exact hf

theorem either {q : System → Prop} [DecidablePred q] {g' : System → System}
    (hq : ∀ s u, u.shown = s.shown → (q u ↔ q s)) (hg : Program memory fun s => .ok ((), g s))
    (hg' : Program memory fun s => .ok ((), g' s)) : Program memory fun s => .ok ((), if q s then g s else g' s) := by
  have heq : (fun s => (.ok ((), if q s then g s else g' s) : Except Fault (Unit × System))) =
      fun s => if q s then .ok ((), g s) else .ok ((), g' s) := by
    funext s
    split <;> rfl
  rw [heq]
  exact .ite hq hg hg'

/-! ### Cycles -/

theorem tryBegin (thread : ThreadId) (initiator : Option MutatorId) (onlyIfNeeded : Bool) :
    Program memory (·.tryBegin thread initiator onlyIfNeeded) := by
  have hdefer : Program memory fun s => .ok (some Outcome.deferred, s.defer) :=
    ((collector Collector.countDeferred).after (onTable .requestCollection)).give _
  have hbegin : Program memory fun s => .ok ((none : Option Outcome), s.beginMarking.callForRoots) :=
    (((collector (·.enter .marking)).after (onTable .beginMarking)).after
      (collector fun c => (c.nextEpoch.publish).snapshot)).give _
  have hdecide : Program memory fun s => do
      if ← s.isDue onlyIfNeeded then return (none, s.beginMarking.callForRoots)
      else return (some Outcome.notNeeded, s.onCollector Collector.unlock) := by
    refine .askThen (f := fun (due : Bool) s => if due then return (none, s.beginMarking.callForRoots)
      else return (some Outcome.notNeeded, s.onCollector Collector.unlock)) (fun s u h => ?_) fun due => ?_
    · have htable : u.store.table.shown = s.store.table.shown := congrArg (·.table) h
      unfold isDue
      rw [← Table.shouldCollect_shown, htable, Table.shouldCollect_shown]
    · cases due
      · exact (collector Collector.unlock).give _
      · exact hbegin
  unfold System.tryBegin
  refine .ite (fun s u h => ?_) (.pure _) (.ite (fun s u h => ?_) hdefer (.ite (fun s u h => ?_) hdefer ?_))
  · have henabled : u.store.table.agcEnabled = s.store.table.agcEnabled := congrArg (·.table.agcEnabled) h
    rw [henabled]
  · rw [collector_of_shown h]
  · rw [collector_of_shown h]
  · exact ((collector Collector.lock).after (onTable .clearRequest)).after hdecide

theorem receive (r : Report) : Program memory fun s => .ok ((), s.receive r) := by
  unfold System.receive
  refine .either (fun s u h => ?_) ((onTable (.applyMarks r.atoms)).after (collector (·.excuse r.mutator))) (.pure ())
  rw [collector_of_shown h]

theorem awaitReports (reports : List Report) : Program memory fun s => .ok ((), s.awaitReports reports) := by
  induction reports with
  | nil => exact collector _
  | cons r reports ih =>
    simp only [System.awaitReports]
    refine .either (fun s u h => ?_) (collector ({ · with reports := r :: reports })) ((receive r).after ih)
    rw [collector_of_shown h]

theorem sweeping : Program memory System.sweep :=
  (collector fun c => c.retract.enter .sweeping).after (.bind .sweep fun n => (collector (·.countCollected n)).give n)

theorem giveUp : Program memory fun s => .ok ((), s.giveUp) :=
  (((collector Collector.retract).after (onTable .abortMarking)).after (collector Collector.countDeferred)).after
    (onTable .postpone)

theorem conclude : Program memory System.conclude := by
  have hrest : Program memory fun s => .ok ((), s.rest) := collector fun c => (c.enter .idle).unlock
  refine .ite (fun s u h => ?_) (.bind sweeping fun n => hrest.give _) ((giveUp.after hrest).give _)
  rw [collector_of_shown h]

theorem complete (initiator : Option (MutatorId × List Atom)) : Program memory (·.complete initiator) := by
  have hawait : Program memory fun s => .ok ((), s.awaitReports s.collector.reports) :=
    .choose (q := fun s => s.collector.reports) (fun s u h => congrArg (·.collector.reports) h) awaitReports
  cases initiator with
  | none => exact hawait.after conclude
  | some own =>
    exact ((collector (·.excuse own.1)).after (onTable (.applyMarks own.2))).after (hawait.after conclude)

/-- A cycle without a mutator is two computations, one after the other. -/
theorem collect_eq (thread : ThreadId) (onlyIfNeeded : Bool) : (fun s : System => s.collect thread onlyIfNeeded) =
    StateT.bind (fun s : System => s.tryBegin thread none onlyIfNeeded) fun
      | some outcome => Pure.pure outcome
      | none => (·.complete none) := by
  funext s
  simp only [System.collect, StateT.bind]
  cases s.tryBegin thread none onlyIfNeeded with
  | error e => rfl
  | ok p =>
    obtain ⟨_ | outcome, s₁⟩ := p
    all_goals rfl

theorem collect (thread : ThreadId) (onlyIfNeeded : Bool) : Program memory (·.collect thread onlyIfNeeded) := by
  rw [collect_eq]
  refine .bind (tryBegin thread none onlyIfNeeded) fun refusal => ?_
  cases refusal with
  | none => exact complete none
  | some outcome => exact .pure outcome

theorem maybeCollect (thread : ThreadId) : Program memory (·.maybeCollect thread) := by
  unfold System.maybeCollect
  refine .ite (fun s u h => ?_) (collect thread true) (.pure Outcome.notNeeded)
  rw [isRequested_of_shown h]

variable {readRoots : MutatorId → StateT System (Except Fault) (List Atom)}

theorem collectFrom (hroots : Program memory (readRoots id)) (onlyIfNeeded : Bool) :
    Program memory (System.collectFrom readRoots id onlyIfNeeded) := by
  refine .bind (.mutator (fun m => rfl) fun m => tryBegin m.thread (some id) onlyIfNeeded) fun refusal => ?_
  cases refusal with
  | none => exact .bind hroots fun atoms => complete (some (id, atoms))
  | some outcome => exact .pure outcome

/-- What a mutator does about an epoch that is due. -/
def acknowledge (id : MutatorId) (due : Option Nat) (s : System) : Except Fault (Option Nat × System) :=
  match due with
  | none => return (none, s)
  | some epoch => return (some epoch, s.updateMutator id ({ · with lastEpoch := epoch }))

theorem observe (id : MutatorId) : Program memory (·.observe id) := by
  refine .mutator (f := fun m s => acknowledge id (s.collector.dueEpoch? m.lastEpoch) s) (fun m => rfl) fun m => ?_
  refine .choose (q := fun s => s.collector.dueEpoch? m.lastEpoch) (fun s u h => by rw [collector_of_shown h]) ?_
  rintro (_ | epoch)
  · exact .pure _
  · exact (answered id epoch).give _

theorem answer (hroots : Program memory (readRoots id)) : Program memory (System.answer readRoots id) := by
  refine .bind (observe id) fun due => ?_
  cases due with
  | none => exact .pure ()
  | some epoch => exact .bind hroots fun atoms => collector (·.send ⟨id, epoch, atoms⟩)

theorem safePoint (hroots : Program memory (readRoots id)) : Program memory (System.safePoint readRoots id) := by
  refine .bind (answer hroots) fun _ =>
    .bind (.ask (q := fun s => .ok s.leavesCycleToMutators) fun s u h => ?_) fun leaves => ?_
  · unfold leavesCycleToMutators
    rw [isRequested_of_shown h, collector_of_shown h]
  · split
    · have hcollect : Program memory (System.collectFrom readRoots id true >>= fun _ => Pure.pure ()) :=
        .bind (collectFrom hroots true) fun _ => .pure ()
      exact hcollect
    · exact .pure ()

/-- The roots of a mutator are shown. -/
theorem readStack (id : MutatorId) : Program memory (System.readStack id) := by
  have heq : (System.readStack id : StateT System (Except Fault) (List Atom)) = fun s =>
      s.mutator id >>= fun m => .ok ((m.roots.report {}).atoms.toList, s) := by
    funext s
    simp only [System.readStack, onSystem, stackOf]
    cases s.mutator id <;> rfl
  rw [heq]
  exact .mutator (f := fun m s => .ok ((m.roots.report {}).atoms.toList, s)) (fun m => rfl) fun m => .pure _

theorem info (a : Atom) : Program memory fun s => .ok (s.store.table.info a, s) :=
  .ask (q := fun s => .ok (s.store.table.info a)) fun _ _ h => congrArg Except.ok (info_of_shown h a)

theorem stringOf (a : Atom) : Program memory fun s => .ok (s.store.stringOf a, s) :=
  .ask (q := fun s => .ok (s.store.stringOf a)) fun _ _ h =>
    congrArg Except.ok (Store.stringOf_of_shown (congrArg (·.table) h) a)

theorem figures : Program memory fun s => .ok (s.figures, s) :=
  .ask (q := fun s => .ok s.figures) fun _ _ h => congrArg Except.ok (figures_of_shown h)

theorem startMonitor : Program memory fun s => .ok ((), s.startMonitor) :=
  (collector ({ · with background := true })).after (monitor Monitor.start)

theorem stopMonitor : Program memory fun s => .ok ((), s.stopMonitor) :=
  (monitor fun m => m.lower.rouse false (4 * m.watchers.length)).after (collector ({ · with background := false }))

theorem watch (thread : ThreadId) : Program memory fun s => return ((), ← s.watch thread) := by
  have honMonitor (f : Bool → Monitor → Monitor) :
      Program memory fun s => .ok ((), { s with monitor := f s.isRequested s.monitor }) :=
    .choose (q := fun s => s.isRequested) (fun s u h => isRequested_of_shown h) fun requested => monitor (f requested)
  have hmonitor {s u : System} (h : u.shown = s.shown) : u.monitor = s.monitor := congrArg (·.monitor) h
  have hlook := (honMonitor fun requested m => m.rouse requested 4).after
    (.ite (q := fun s => s.monitor.watchers.head? = some .collecting) (fun s u h => by rw [hmonitor h])
      (.bind (maybeCollect thread) fun _ => honMonitor fun requested m => (m.step? 0 requested).getD m) (.pure ()))
  refine cast (congrArg (Program memory) (funext fun s => ?_)) hlook
  unfold System.watch
  dsimp only
  split
  · simp only [Bind.bind, StateT.bind]
    cases System.maybeCollect _ thread <;> rfl
  · rfl

end Program

/-! ## Tuning is not seen -/

theorem kept_empty (memory : StaticMemory) {c : Config} (hc : c.check = .ok ()) (grants : Nat → Nat → Bool) :
    (empty (.empty c.limits grants) c).Kept memory where
  housed := ⟨_, _, Store.housed_empty hc (Heap.solvent_empty grants (Heap.chunkSize_aligned hc))⟩
  canonical := Table.canonical_empty memory c _
  opened := ⟨List.nodup_singleton _, fun id hid => by
    cases List.mem_singleton.1 hid
    rintro _ ⟨⟩
    exact List.mem_cons_self⟩

theorem alike_empty {c c' : Config} (h : c.Retuned c') (hroom : c'.atomBuckets.toNat ≤ Table.maxChains)
    (grants grants' : Nat → Nat → Bool) :
    (empty (.empty c.limits grants) c).Alike (empty (.empty c'.limits grants') c') := by
  have henabled : c'.agcEnabled = c.agcEnabled := congrArg (·.agcEnabled) h
  have hmargin : c'.agcMargin = c.agcMargin := congrArg (·.agcMargin) h
  have hshown (c : Config) (pool : PoolId) : (Table.empty c pool).shown =
      { chains := #[], agcEnabled := c.agcEnabled, margin := c.agcMargin.toNat, pool := 0 } := by
    simp [Table.shown, Table.empty]
  refine ⟨⟨⟨?_, fun _ => ?_⟩, rfl⟩, rfl, rfl, rfl⟩
  · change (Table.empty c' _).shown = (Table.empty c _).shown
    rw [hshown, hshown, henabled, hmargin]
  · change 2 * (Array.replicate c'.atomBuckets.toNat none).size < wordCount
    rw [Array.size_replicate]
    exact Nat.lt_of_le_of_lt (Nat.mul_le_mul_left 2 hroom) (by decide)

/-- Of two new systems whose configurations differ in tuning only, what a program gives in the one it gives in the
other too, and both show the same afterwards; unless an allocation fails. They have as many slots, so 32 bits tell
those of the one apart if they do so in the other. -/
theorem tuning_unseen {c c' : Config} (hc : c.check = .ok ()) (hc' : c'.check = .ok ()) (hretuned : c.Retuned c')
    {grants grants' : Nat → Nat → Bool} {s s' t : System} (hs : create (.empty c.limits grants) c = .ok s)
    (ht : create (.empty c'.limits grants') c' = .ok t) {α : Type} {p : StateT System (Except Fault) α} {a : α}
    (hp : Program memory p) (h : p s = .ok (a, s')) :
    Ends (p t) True fun r => r.1 = a ∧ r.2.shown = s'.shown ∧ r.2.figures = s'.figures ∧
      r.2.store.table.slots.size = s'.store.table.slots.size ∧
      ∀ b, r.2.store.table.info b = s'.store.table.info b ∧ r.2.store.stringOf b = s'.store.stringOf b := by
  obtain ⟨-, rfl⟩ := create_eq hs
  obtain ⟨hroom, rfl⟩ := create_eq ht
  have hkept := kept_empty memory hc grants
  have hkept' := kept_empty memory hc' grants'
  refine (hp.alike hkept hkept' (alike_empty hretuned hroom grants grants') h).and_eq.mono ?_
  rintro ⟨a, t'⟩ ⟨hrun, rfl, halike⟩
  have hshown := halike.shown (hp.kept hkept h) (hp.kept hkept' hrun)
  have hsize := Table.size_of_shown (congrArg (·.table) hshown)
  exact ⟨rfl, hshown, figures_of_shown hshown, hsize, fun b =>
    ⟨info_of_shown hshown b, Store.stringOf_of_shown (congrArg (·.table) hshown) b⟩⟩

/-- Interns five names, gives the last atom up, and sweeps. -/
def nameAndSweep : StateT System (Except Fault) Nat := do
  [97, 98, 99, 100, 101].forM fun byte => do
    let _ ← internServed { bytes := [byte] } false BlobId.text
    return
  let _ ← fun s => .ok ((s.store.table.unregister ⟨4, 0⟩).1, s.onTable fun t => (t.unregister ⟨4, 0⟩).2)
  fun s => s.onStore Store.sweep

theorem program_nameAndSweep : Program memory nameAndSweep :=
  .bind (.forM fun byte => .bind (.intern false BlobId.text (Span.lies_of_bytes memory [byte])) fun _ => .pure ())
    fun _ => .bind (.tune (.unregister ⟨4, 0⟩)) fun _ => .sweep

/-- Two systems with different chains, size classes, chunks and free lists do the same, though only one of them has to
double its chains on the way. -/
theorem tuning_unseen_made :
    ∃ (c c' : Config) (s t s' t' : System),
      c.atomBuckets ≠ c'.atomBuckets ∧ c.allocFast ≠ c'.allocFast ∧ c.chunkSize ≠ c'.chunkSize ∧
      c.localFreeMax ≠ c'.localFreeMax ∧ create (.empty c.limits fun _ _ => true) c = .ok s ∧
      create (.empty c'.limits fun _ _ => true) c' = .ok t ∧ nameAndSweep s = .ok (1, s') ∧
      nameAndSweep t = .ok (1, t') ∧ s.store.table.chains.size < s'.store.table.chains.size ∧
      t'.store.table.chains.size = t.store.table.chains.size ∧ t'.shown = s'.shown ∧ t'.figures = s'.figures := by
  have hnew (c : Config) (hroom : c.atomBuckets.toNat ≤ Table.maxChains) :
      create (.empty c.limits fun _ _ => true) c = .ok (empty (.empty c.limits fun _ _ => true) c) := if_pos hroom
  have hs := hnew { atomBuckets := 1, allocFast := 32, chunkSize := 64, localFreeMax := 2 } (by decide)
  have ht := hnew { atomBuckets := 8, allocFast := 16, chunkSize := 128, localFreeMax := 3 } (by decide)
  obtain ⟨s', hrun, hgrown⟩ : ∃ s', nameAndSweep (empty (.empty ⟨32, 64, 2⟩ fun _ _ => true)
      { atomBuckets := 1, allocFast := 32, chunkSize := 64, localFreeMax := 2 }) = .ok (1, s') ∧
        s'.store.table.chains.size = 4 := ⟨_, by cbv, rfl⟩
  obtain ⟨t', hrun', hkept⟩ : ∃ t', nameAndSweep (empty (.empty ⟨16, 128, 3⟩ fun _ _ => true)
      { atomBuckets := 8, allocFast := 16, chunkSize := 128, localFreeMax := 3 }) = .ok (1, t') ∧
        t'.store.table.chains.size = 8 := ⟨_, by cbv, rfl⟩
  have hunseen := tuning_unseen (by rfl) (by rfl) (by rfl) hs ht (@program_nameAndSweep fun _ => []) hrun
  obtain ⟨-, hshown, hfigures, -⟩ := hunseen.post_of_ok hrun'
  exact ⟨_, _, _, _, s', t', by decide, by decide, by decide, by decide, hs, ht, hrun, hrun', hgrown ▸ by decide, hkept,
    hshown, hfigures⟩

end System

end AtomHeap
