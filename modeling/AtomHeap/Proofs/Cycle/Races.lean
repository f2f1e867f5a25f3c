import AtomHeap.Proofs.Cycle.Operations
import AtomHeap.Proofs.Store.Gathers
import AtomHeap.System.Race
/-!
# Racing interns

Threads intern names as text, each those of a list of its own, and keep the references. A `Race.Step` is a
thread's next intern under the table's lock, or what mutators and cycles do in between: attaching, answering a
cycle, leaving, and any stage of a cycle, be it completed or given up. However the steps of the threads are mixed,
the race comes to the same (`Race.confluent`): which thread made an atom and in which slot is up to the schedule,
and all else is what it is if the threads run one after another.
-/

namespace AtomHeap

open Store (Meanwhile Gathers Few)

/-! ## What mutators and cycles do to a store -/

namespace World

variable {spans : Span → Prop} {w w' : World} {events : List Event}

theorem receive_meanwhile (s : System) (r : Report) : Meanwhile s.store (s.receive r).store := by
  unfold System.receive
  split
  · exact .moved (.applyMarks r.atoms)
  · exact .idle

/-- A step is a call of a caller, or leaves the store to interning names. -/
theorem Step.meanwhile (h : Step spans w events w') :
    (∃ events store, Store.Call spans w.system.store events store ∧
      w' = { w with system := { w.system with store } }) ∨ Meanwhile w.system.store w'.system.store := by
  cases h with
  | call hcall => exact .inl ⟨_, _, hcall, rfl⟩
  | attach thread => exact .inr .opened
  | close hclose =>
    obtain ⟨heap, hheap, hclose⟩ := bind_eq_ok_iff.1 hclose
    cases hclose
    exact .inr (.closed hheap)
  | clearRequest => exact .inr (.moved .clearRequest)
  | begin => exact .inr (.moved .beginMarking)
  | markOwn => exact .inr (.moved (.applyMarks _))
  | @receive r collector => exact .inr (receive_meanwhile { w.system with collector } r)
  | abort => exact .inr (.moved .abortMarking)
  | postpone => exact .inr (.moved .postpone)
  | sweep _ htable hstore => exact .inr (.moved (.sweep htable hstore))
  | _ => exact .inr .idle

end World

/-- Threads that each have names to intern, in a world. -/
structure Race where
  world : World
  /-- The names that each thread has still to intern, in order. -/
  left : List (List String)
  /-- The names that were interned, by whichever thread. -/
  done : Names := []

namespace Race

open World (Event)

/-- Steps of a race. -/
inductive Step (x : Race) : List Event → Race → Prop
  /-- A thread interns its next name. -/
  | intern {k : Nat} {name : String} {rest : List String} {i : Interned} {store : Store} :
      x.left[k]? = some (name :: rest) →
      x.world.system.store.internLocked { bytes := Text.utf8Bytes name } false BlobId.text = .ok (.ok i, store) →
      Step x [.store (if i.isNew then .made i.atom else .found i.atom)]
        ⟨{ x.world with system := { x.world.system with store } }, x.left.set k rest, (name, i) :: x.done⟩
  /-- Mutators and cycles go on. -/
  | meanwhile {w : World} {events : List Event} : World.Step (fun _ => False) x.world events w →
      Meanwhile x.world.system.store w.system.store → Step x events { x with world := w }

/-- Sequences of steps, with what happened on the way, the latest step first. -/
inductive Run (x₀ : Race) : List Event → Race → Prop
  | start : Run x₀ [] x₀
  | step {x x' : Race} {trace events : List Event} :
      Run x₀ trace x → Step x events x' → Run x₀ (events ++ trace) x'

variable {x x' x₀ : Race} {trace events : List Event} {heap : Heap} {config : Config} {jobs : List (List String)}
  {grants : Nat → Nat → Bool} {others : List Region}

theorem Run.intern (h : Run x₀ trace x) (k : Nat) {name : String} {rest : List String} {bytes : List UInt8}
    {i : Interned} {store : Store} (hnext : x.left[k]? = some (name :: rest)) (hbytes : Text.utf8Bytes name = bytes)
    (hi : x.world.system.store.internLocked { bytes } false BlobId.text = .ok (.ok i, store)) :
    Run x₀ (.store (if i.isNew then .made i.atom else .found i.atom) :: trace)
      ⟨{ x.world with system := { x.world.system with store } }, x.left.set k rest, (name, i) :: x.done⟩ := by
  subst hbytes
  exact h.step (.intern hnext hi)

/-- The names that a race is about. -/
def names (x : Race) : List String := x.done.map (·.1) ++ x.left.flatten

theorem flatten_set {left : List (List String)} {k : Nat} {name : String} {rest : List String}
    (h : left[k]? = some (name :: rest)) : left.flatten.Perm (name :: (left.set k rest).flatten) := by
  obtain ⟨hlt, hk⟩ := List.getElem?_eq_some_iff.1 h
  have hsplit : left = left.take k ++ (name :: rest) :: left.drop (k + 1) := by
    rw [← hk, List.getElem_cons_drop, List.take_append_drop]
  rw [List.set_eq_take_append_cons_drop, if_pos hlt]
  conv_lhs => rw [hsplit]
  simp only [List.flatten_append, List.flatten_cons, List.cons_append]
  exact List.perm_middle

theorem Step.names (h : Step x events x') : x'.names.Perm x.names := by
  cases h with
  | meanwhile => exact .refl _
  | @intern k name rest i store hnext _ =>
    have hleft := (flatten_set hnext).append_left (x.done.map (·.1))
    exact (hleft.trans List.perm_middle).symm

theorem Run.names (h : Run x₀ trace x) : x.names.Perm x₀.names := by
  induction h with
  | start => exact .refl _
  | step _ hstep ih => exact hstep.names.trans ih

theorem Run.gathers (h : Run ⟨.empty heap config, jobs, []⟩ trace x) :
    Gathers (.empty heap config) x.done x.world.system.store := by
  induction h with
  | start => exact .start
  | step _ hstep ih =>
    cases hstep with
    | intern _ hi => exact ih.intern hi
    | meanwhile _ hm => exact ih.meanwhile hm

theorem Run.few (hfew : Few jobs.flatten) (h : Run ⟨.empty heap config, jobs, []⟩ trace x) :
    Few (x.done.map (·.1)) :=
  hfew.mono fun _ hname => h.names.subset (List.mem_append_left _ hname)

theorem Run.holds (hc : config.check = .ok ()) (hr : Heap.Run config.limits grants heap others)
    (hfew : Few jobs.flatten) (h : Run ⟨.empty heap config, jobs, []⟩ trace x) :
    x.world.system.store.Holds config.atomBuckets.toNat config.limits others x.done :=
  h.gathers.holds (Store.holds_empty hc hr) (h.few hfew)

/-! ## No atom is collected -/

theorem swept_of_step {spans : Span → Prop} {w w' : World} {epoch : Nat} {destroyed : List Atom}
    (h : World.Step spans w events w') (hswept : .swept epoch destroyed ∈ events) :
    ∃ swept table, w.table.sweep = .ok (swept, table) ∧ destroyed = swept.destroyed.toList := by
  cases h with
  | call =>
    obtain ⟨_, -, heq⟩ := List.mem_map.1 hswept
    cases heq
  | sweep _ htable _ =>
    cases List.mem_singleton.1 hswept
    exact ⟨_, _, htable, rfl⟩
  | receive =>
    split at hswept
    all_goals cases List.mem_singleton.1 hswept
  | begin | snapshot | markOwn => cases List.mem_singleton.1 hswept
  | _ => cases hswept

theorem Run.swept (hc : config.check = .ok ()) (hr : Heap.Run config.limits grants heap others)
    (hfew : Few jobs.flatten) (h : Run ⟨.empty heap config, jobs, []⟩ trace x) {epoch : Nat} {destroyed : List Atom}
    (hswept : .swept epoch destroyed ∈ trace) : destroyed = [] := by
  induction h with
  | start => cases hswept
  | step hrun hstep ih =>
    rcases List.mem_append.1 hswept with hnow | hbefore
    · cases hstep with
      | intern => cases List.mem_singleton.1 hnow
      | meanwhile hstep _ =>
        obtain ⟨swept, table, htable, rfl⟩ := swept_of_step hstep hnow
        obtain ⟨rfl, -⟩ := Table.sweep_intact (hrun.holds hc hr hfew).table.referenced htable
        rfl
    · exact ih hbefore

/-! ## One thread after another -/

/-- Each thread attaches, interns its names, and leaves, before the next one does. -/
def inTurn (jobs : List (List String)) : StateT System (Except Fault) (List (Array Interned)) :=
  jobs.zipIdx.mapM fun (names, thread) => System.raceThread thread names

variable {s s' s₁ : System} {s₀ : Store} {done : Names}

theorem tryBegin_gathers (hg : Gathers s₀ done s.store) {thread : ThreadId} {initiator : Option MutatorId}
    {onlyIfNeeded : Bool} {refusal : Option Outcome}
    (h : s.tryBegin thread initiator onlyIfNeeded = .ok (refusal, s')) : Gathers s₀ done s'.store := by
  cases System.tryBegin_cases h with
  | off => exact hg
  | refused => exact hg.meanwhile .requested
  | undue => exact hg.meanwhile (.moved .clearRequest)
  | begun => exact (hg.meanwhile (.moved .clearRequest)).meanwhile (.moved .beginMarking)

theorem awaitReports_gathers (hg : Gathers s₀ done s.store) (reports : List Report) :
    Gathers s₀ done (s.awaitReports reports).store := by
  induction reports generalizing s with
  | nil => exact hg
  | cons r reports ih =>
    unfold System.awaitReports
    split
    · exact hg
    · exact ih (hg.meanwhile (World.receive_meanwhile s r))

theorem complete_gathers (hg : Gathers s₀ done s.store) {own : Option (MutatorId × List Atom)} {outcome : Outcome}
    (h : s.complete own = .ok (outcome, s')) : Gathers s₀ done s'.store := by
  obtain ⟨s₁, hmarked, heq⟩ := s.complete_eq_conclude own
  have hown : Gathers s₀ done s₁.store := by
    rcases hmarked with rfl | ⟨id, atoms, rfl⟩
    · exact hg
    · exact hg.meanwhile (.moved (.applyMarks atoms))
  have hawaited := awaitReports_gathers hown s₁.collector.reports
  rw [heq] at h
  rcases System.conclude_cases h with ⟨-, n, s₂, hsweep, -, rfl⟩ | ⟨-, -, rfl⟩
  · obtain ⟨swept, store, htable, hstore, rfl⟩ := System.sweep_inv hsweep
    exact hawaited.meanwhile (.moved (.sweep htable hstore))
  · exact (hawaited.meanwhile (.moved .abortMarking)).meanwhile (.moved .postpone)

section

variable {readRoots : MutatorId → StateT System (Except Fault) (List Atom)}

/-- Reading roots leaves the system alone. -/
def OnlyReads (readRoots : MutatorId → StateT System (Except Fault) (List Atom)) : Prop :=
  ∀ id s atoms s', readRoots id s = .ok (atoms, s') → s' = s

theorem readStack_onlyReads : OnlyReads System.readStack := by
  intro id s atoms s' h
  obtain ⟨roots, -, h⟩ := bind_eq_ok_iff.1 h
  cases h
  rfl

theorem collectFrom_gathers (hroots : OnlyReads readRoots) (hg : Gathers s₀ done s.store) {id : MutatorId}
    {onlyIfNeeded : Bool} {outcome : Outcome}
    (h : System.collectFrom readRoots id onlyIfNeeded s = .ok (outcome, s')) : Gathers s₀ done s'.store := by
  obtain ⟨m, -, htry | ⟨s₁, atoms, s₂, htry, hread, h⟩⟩ := System.collectFrom_cases h
  · exact tryBegin_gathers hg htry
  · cases hroots _ _ _ _ hread
    exact complete_gathers (tryBegin_gathers hg htry) h

theorem answer_gathers (hroots : OnlyReads readRoots) (hg : Gathers s₀ done s.store) {id : MutatorId}
    (h : System.answer readRoots id s = .ok ((), s')) : Gathers s₀ done s'.store := by
  rcases System.answer_cases h with hobserve | ⟨epoch, s₁, atoms, s₂, hobserve, hread, rfl⟩
  · cases System.observe_none hobserve
    exact hg
  · obtain ⟨m, -, -, rfl⟩ := System.observe_some hobserve
    cases hroots _ _ _ _ hread
    exact hg

theorem safePoint_gathers (hroots : OnlyReads readRoots) (hg : Gathers s₀ done s.store) {id : MutatorId}
    (h : System.safePoint readRoots id s = .ok ((), s')) : Gathers s₀ done s'.store := by
  obtain ⟨s₁, hanswer, rfl | ⟨outcome, hcollect⟩⟩ := System.safePoint_cases h
  · exact answer_gathers hroots hg hanswer
  · exact collectFrom_gathers hroots (answer_gathers hroots hg hanswer) hcollect

end

theorem detach_gathers (hg : Gathers s₀ done s.store) {id : MutatorId} (h : s.detach id = .ok s') :
    Gathers s₀ done s'.store := by
  obtain ⟨m, -, h⟩ := bind_eq_ok_iff.1 h
  obtain ⟨heap, hclose, h⟩ := bind_eq_ok_iff.1 h
  cases h
  have hstore : ((s.onCollector (·.deregister id)).sendLast m).store = s.store := by
    unfold System.sendLast
    split <;> rfl
  rw [hstore] at hclose ⊢
  exact hg.meanwhile (.closed hclose)

/-- What a thread does for a name. -/
def internNext (id : MutatorId) (name : String) : StateT System (Except Fault) Interned := do
  match ← System.internFrom System.readStack id { bytes := Text.utf8Bytes name } BlobId.text with
  | .ok interned => return interned
  | .error _ => throw Fault.brokenContract

section

variable {buckets : Nat} {limits : Limits} {list : List String} (h₀ : s₀.Holds buckets limits others [])

include h₀

theorem internNext_gathers (hg : Gathers s₀ done s.store) {id : MutatorId} {name : String} {i : Interned}
    (hfew : Few (name :: done.map (·.1))) (h : internNext id name s = .ok (i, s')) :
    Gathers s₀ ((name, i) :: done) s'.store := by
  obtain ⟨r, s₁, hintern, h⟩ := state_bind_eq_ok_iff.1 h
  obtain ⟨⟨⟩, s₂, hsafe, hintern⟩ := state_bind_eq_ok_iff.1 hintern
  obtain ⟨⟨r, store⟩, hspan, hintern⟩ := bind_eq_ok_iff.1 hintern
  cases hintern
  cases r with
  | error e => cases h
  | ok i =>
    cases h
    exact (safePoint_gathers readStack_onlyReads hg hsafe).internSpan h₀ hfew hspan

theorem internEach_gathers (hg : Gathers s₀ done s.store) {id : MutatorId} {names : List String}
    {results : List Interned} (hfew : Few (names ++ done.map (·.1)))
    (h : names.mapM (internNext id) s = .ok (results, s')) :
    ∃ done', Gathers s₀ done' s'.store ∧ (done'.map (·.1)).Perm (names ++ done.map (·.1)) := by
  induction names generalizing done s results with
  | nil =>
    cases h
    exact ⟨done, hg, .refl _⟩
  | cons name names ih =>
    rw [List.mapM_cons] at h
    obtain ⟨i, s₁, hnext, h⟩ := state_bind_eq_ok_iff.1 h
    obtain ⟨rest, s₂, hrest, h⟩ := state_bind_eq_ok_iff.1 h
    cases h
    have hperm : (names ++ ((name, i) :: done).map (·.1)).Perm (name :: names ++ done.map (·.1)) := List.perm_middle
    have hfirst : Few (name :: done.map (·.1)) :=
      hfew.mono (List.cons_subset_cons _ (List.subset_append_right _ _))
    obtain ⟨done', hg', hdone⟩ := ih (internNext_gathers h₀ hg hfirst hnext) (hfew.mono hperm.subset) hrest
    exact ⟨done', hg', hdone.trans hperm⟩

theorem raceThread_gathers (hg : Gathers s₀ done s.store) {thread : ThreadId} {names : List String}
    {results : Array Interned} (hfew : Few (names ++ done.map (·.1)))
    (h : System.raceThread thread names s = .ok (results, s')) :
    ∃ done', Gathers s₀ done' s'.store ∧ (done'.map (·.1)).Perm (names ++ done.map (·.1)) := by
  obtain ⟨id, s₁, hattach, h⟩ := state_bind_eq_ok_iff.1 h
  cases hattach
  have hattached : Gathers s₀ done (s.attach thread).2.store := hg.meanwhile .opened
  obtain ⟨interned, s₂, hnames, h⟩ := state_bind_eq_ok_iff.1 h
  obtain ⟨⟨⟩, s₃, hdetach, h⟩ := state_bind_eq_ok_iff.1 h
  cases h
  obtain ⟨s₄, hdetach, hrest⟩ := bind_eq_ok_iff.1 hdetach
  cases hrest
  rw [List.mapM_toArray] at hnames
  obtain ⟨⟨list, s₅⟩, heach, hrest⟩ := bind_eq_ok_iff.1 hnames
  cases hrest
  obtain ⟨done', hg', hperm⟩ := internEach_gathers h₀ hattached hfew heach
  exact ⟨done', detach_gathers hg' hdetach, hperm⟩

theorem threads_gathers {threads : List (List String × ThreadId)} (hg : Gathers s₀ done s.store)
    {results : List (Array Interned)} (hfew : Few ((threads.map (·.1)).flatten ++ done.map (·.1)))
    (h : (threads.mapM fun (names, thread) => System.raceThread thread names) s = .ok (results, s')) :
    ∃ done', Gathers s₀ done' s'.store ∧
      (done'.map (·.1)).Perm ((threads.map (·.1)).flatten ++ done.map (·.1)) := by
  induction threads generalizing done s results with
  | nil =>
    cases h
    exact ⟨done, hg, .refl _⟩
  | cons pair threads ih =>
    rw [List.mapM_cons] at h
    obtain ⟨first, s₁, hthread, h⟩ := state_bind_eq_ok_iff.1 h
    obtain ⟨rest, s₂, hrest, h⟩ := state_bind_eq_ok_iff.1 h
    cases h
    rw [List.map_cons, List.flatten_cons, List.append_assoc] at hfew ⊢
    have hfirst : Few (pair.1 ++ done.map (·.1)) :=
      hfew.mono (List.append_subset.2 ⟨List.subset_append_left _ _,
        List.subset_append_of_subset_right _ (List.subset_append_right _ _)⟩)
    obtain ⟨done₁, hg₁, hperm₁⟩ := raceThread_gathers h₀ hg hfirst hthread
    have hperm := (hperm₁.append_left (threads.map (·.1)).flatten).trans (List.perm_append_comm_assoc _ _ _)
    obtain ⟨done₂, hg₂, hperm₂⟩ := ih hg₁ (hfew.mono hperm.subset) hrest
    exact ⟨done₂, hg₂, hperm₂.trans hperm⟩

theorem inTurn_gathers {results : List (Array Interned)} (hfew : Few jobs.flatten)
    (hg : Gathers s₀ [] s.store) (h : inTurn jobs s = .ok (results, s')) :
    ∃ done, Gathers s₀ done s'.store ∧ (done.map (·.1)).Perm jobs.flatten := by
  have hjobs : jobs.zipIdx.map (·.1) = jobs := List.zipIdx_map_fst 0 jobs
  obtain ⟨done, hg', hperm⟩ := threads_gathers h₀ hg (by rwa [hjobs, List.map_nil, List.append_nil]) h
  rw [hjobs, List.map_nil, List.append_nil] at hperm
  exact ⟨done, hg', hperm⟩

end

/-! ## What a race comes to -/

/-- What a race over some lists of names comes to. -/
structure Comes (jobs : List (List String)) (x : Race) : Prop where
  /-- All names were interned, as often as they are listed. -/
  done : (x.done.map (·.1)).Perm jobs.flatten
  /-- One intern of each name made an atom. -/
  winner : ∀ name ∈ jobs.flatten, x.done.countP (fun p => p.1 == name && p.2.isNew) = 1
  /-- All interns of a name gave the same atom, which has a reference for each, as far as these are counted, and
  reads as the name. -/
  atom : ∀ name ∈ jobs.flatten, ∃ a, (∀ p ∈ x.done, p.1 = name → p.2.atom = a) ∧
    x.world.table.refsOf a = .ok (min (jobs.flatten.count name) maxRefs) ∧
    x.world.table.bytesOf a = .ok (Text.utf8Bytes name) ∧ x.world.system.store.stringOf a = .ok name

theorem comes_of_holds {buckets : Nat} {limits : Limits}
    (h : x.world.system.store.Holds buckets limits others x.done) (hdone : (x.done.map (·.1)).Perm jobs.flatten) :
    x.Comes jobs where
  done := hdone
  winner name hname := by
    have hmade : name ∈ x.done.made := by
      obtain ⟨p, hp, rfl⟩ := List.mem_map.1 (hdone.symm.subset hname)
      exact h.table.all p hp
    have hcount := List.count_eq_one_of_mem h.table.once hmade
    rwa [Names.made, List.count, List.countP_map, List.countP_filter] at hcount
  atom name hname := by
    obtain ⟨p, hp, rfl⟩ := List.mem_map.1 (hdone.symm.subset hname)
    obtain ⟨e, he, hblob, hbytes, hrefs⟩ := h.table.atoms p hp
    have hinterns : x.done.interns p.1 = jobs.flatten.count p.1 := by
      rw [← hdone.count_eq, List.count, List.countP_map]
      rfl
    refine ⟨p.2.atom, fun q hq hname => h.table.agree hq hp hname, ?_, ?_, ?_⟩
    · unfold Table.refsOf
      rw [show x.world.table.entry p.2.atom = .ok e from he, ← hinterns, ← hrefs]
      rfl
    · unfold Table.bytesOf
      rw [show x.world.table.entry p.2.atom = .ok e from he, ← hbytes]
      rfl
    · unfold Store.stringOf
      rw [he]
      have htext : e.blob ≠ BlobId.wide := by
        rw [hblob]
        decide
      simp only [bind, Except.bind, if_neg htext, hbytes, Text.ofUtf8_utf8Bytes]
      rfl

/-- In whatever order the steps of threads that intern names come, and whatever cycles run meanwhile, each name has
one atom in the end, no atom was collected, and the figures are the same, also as when the threads run one after
another. -/
theorem confluent (hc : config.check = .ok ()) (hr : Heap.Run config.limits grants heap others)
    (hfew : jobs.flatten.dedup.length ≤ UInt32.size) (h : Run ⟨.empty heap config, jobs, []⟩ trace x)
    (hleft : x.left.flatten = []) :
    x.Comes jobs ∧ (∀ epoch destroyed, .swept epoch destroyed ∈ trace → destroyed = []) ∧
      (∀ trace' y, Run ⟨.empty heap config, jobs, []⟩ trace' y → y.left.flatten = [] →
        y.world.system.store.figures = x.world.system.store.figures) ∧
      ∀ results s, inTurn jobs (.empty heap config) = .ok (results, s) →
        s.store.figures = x.world.system.store.figures := by
  have hholds := h.holds hc hr hfew
  have hdone {trace : List Event} {x : Race} (h : Run ⟨.empty heap config, jobs, []⟩ trace x)
      (hleft : x.left.flatten = []) : (x.done.map (·.1)).Perm jobs.flatten := by
    have hnames := h.names
    unfold Race.names at hnames
    rwa [hleft, List.append_nil] at hnames
  refine ⟨comes_of_holds hholds (hdone h hleft), fun _ _ hswept => h.swept hc hr hfew hswept, ?_, ?_⟩
  · intro trace' y hy hleft'
    exact hholds.figures_eq (hy.holds hc hr hfew) ((hdone hy hleft').trans (hdone h hleft).symm)
  · intro results s hturn
    have h₀ := Store.holds_empty hc hr
    obtain ⟨done, hg, hperm⟩ := inTurn_gathers h₀ hfew .start hturn
    have hturned := hg.holds h₀ (Few.mono hfew hperm.subset)
    exact hholds.figures_eq hturned (hperm.trans (hdone h hleft).symm)

/-- A thread makes an atom, a cycle that waits for the thread in vain is given up, and another thread comes upon the
atom. -/
theorem confluent_given_up :
    ∃ trace x, Run ⟨.empty (.empty ⟨32, 64, 2⟩ fun _ _ => true)
        { allocFast := 32, chunkSize := 64, localFreeMax := 2, atomBuckets := 1 }, [["a"], ["a"]], []⟩ trace x ∧
      x.left.flatten = [] ∧ x.done.map (·.2.isNew) = [false, true] ∧ .asked 1 none [1] ∈ trace ∧
      x.Comes [["a"], ["a"]] := by
  have none := @Run.start ⟨.empty (.empty ⟨32, 64, 2⟩ fun _ _ => true)
    { allocFast := 32, chunkSize := 64, localFreeMax := 2, atomBuckets := 1 }, [["a"], ["a"]], []⟩
  have attached := none.step (.meanwhile (.attach 0) .opened)
  have made := attached.intern 0 rfl rfl
    (Store.internLocked_of_insert rfl rfl rfl rfl (Table.insert_of_no_holes rfl rfl rfl rfl rfl) rfl)
  have locked := made.step (.meanwhile (.lock Option.none rfl rfl rfl) .idle)
  have begun := locked.step (.meanwhile (.begin rfl) (.moved .beginMarking))
  have published := (begun.step (.meanwhile (.number rfl) .idle)).step (.meanwhile (.publish rfl) .idle)
  have asked := published.step (.meanwhile (.snapshot rfl) .idle)
  have waiting := asked.step (.meanwhile (.markNone rfl rfl) .idle)
  have abandoned := waiting.step (.meanwhile (.timeOut rfl (by decide)) .idle)
  have found := abandoned.intern 1 rfl rfl rfl
  have aborted := found.step (.meanwhile (.abort rfl) (.moved .abortMarking))
  have ended := aborted.step (.meanwhile (.postpone rfl) (.moved .postpone))
  exact ⟨_, _, ended, rfl, rfl, .tail _ (.head _), (confluent rfl .start (by decide) ended rfl).1⟩

end Race

end AtomHeap
