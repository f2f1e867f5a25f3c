import AtomHeap.Proofs.Cycle.Stacks
/-!
# Operations are runs

What the library does to a system is made of the steps of `World.Step`, in the order in which they
stand there: safe points, detaching, and cycles with or without a mutator that runs them. So what holds
of every run holds however operations are cut into their steps and mixed. Where reading the roots of a
mutator gives what is on its stack, the runs are stack runs.
-/

namespace AtomHeap

/-! ## Whether a cycle begins -/

namespace System

variable {s s' : System} {thread : ThreadId} {initiator : Option MutatorId} {onlyIfNeeded : Bool}
  {refusal : Option Outcome}

theorem onStore_of_ok {α : Type} {f : Store → Except Fault (α × Store)} {a : α} {store : Store}
    (h : f s.store = .ok (a, store)) : s.onStore f = .ok (a, { s with store }) := by
  unfold onStore
  simp only [h, bind, Except.bind]
  rfl

/-- Cycles are kept out, or the thread has a mutator on behalf of which it does not call. -/
def Refuses (s : System) (thread : ThreadId) (initiator : Option MutatorId) : Prop :=
  s.collector.locked = true ∨ initiator = none ∧ s.collector.isAttached thread = true

/-- A cycle may begin, if one is due. -/
structure Admits (s : System) (thread : ThreadId) (initiator : Option MutatorId) : Prop where
  enabled : s.store.table.agcEnabled = true
  free : ¬ s.Refuses thread initiator

theorem Admits.unlocked (h : s.Admits thread initiator) : s.collector.locked = false :=
  Bool.eq_false_iff.2 fun hlocked => h.free (.inl hlocked)

/-- What a call comes to before marking. -/
inductive Tried (s : System) (thread : ThreadId) (initiator : Option MutatorId) (onlyIfNeeded : Bool) :
    Option Outcome → System → Prop
  | off : s.store.table.agcEnabled = false → Tried s thread initiator onlyIfNeeded (some .notNeeded) s
  | refused : s.store.table.agcEnabled = true → s.Refuses thread initiator →
      Tried s thread initiator onlyIfNeeded (some .deferred) s.defer
  | undue : s.Admits thread initiator → onlyIfNeeded = true → s.store.table.shouldCollect = .ok false →
      Tried s thread initiator onlyIfNeeded (some .notNeeded)
        (((s.onCollector Collector.lock).onTable ({ · with requested := false })).onCollector Collector.unlock)
  | begun : s.Admits thread initiator → (onlyIfNeeded = true → s.store.table.shouldCollect = .ok true) →
      Tried s thread initiator onlyIfNeeded none
        ((s.onCollector Collector.lock).onTable ({ · with requested := false })).beginMarking.callForRoots

theorem tryBegin_cases (h : s.tryBegin thread initiator onlyIfNeeded = .ok (refusal, s')) :
    s.Tried thread initiator onlyIfNeeded refusal s' := by
  unfold tryBegin at h
  split at h
  · rename_i hagc
    cases h
    exact .off (by simpa using hagc)
  · rename_i hagc
    have hagc : s.store.table.agcEnabled = true := by simpa using hagc
    split at h
    · rename_i hattached
      cases h
      exact .refused hagc (.inr (by simpa using hattached))
    · rename_i hattached
      split at h
      · rename_i hlocked
        cases h
        exact .refused hagc (.inl hlocked)
      · rename_i hlocked
        have hadmits : s.Admits thread initiator := by
          refine ⟨hagc, ?_⟩
          rintro (h | h)
          · exact hlocked h
          · exact hattached (by simpa using h)
        obtain ⟨due, hdue, h⟩ := bind_eq_ok_iff.1 h
        unfold isDue at hdue
        cases due with
        | true =>
          cases h
          exact .begun hadmits fun honly => by rwa [if_pos honly] at hdue
        | false =>
          cases h
          split at hdue
          · exact .undue hadmits ‹_› hdue
          · cases hdue

/-! ## How a cycle ends -/

/-- What is left of a cycle once reports were awaited. -/
def conclude (s : System) : Except Fault (Outcome × System) := do
  if s.collector.pending.isEmpty then
    let (n, s) ← s.sweep
    return (.collected n, s.rest)
  else return (.deferred, s.giveUp.rest)

theorem complete_eq_conclude (s : System) (own : Option (MutatorId × List Atom)) :
    ∃ s₁, (s₁ = s ∨ ∃ id atoms, s₁ = s.markInitiator id atoms) ∧
      s.complete own = (s₁.awaitReports s₁.collector.reports).conclude := by
  cases own with
  | none => exact ⟨s, .inl rfl, rfl⟩
  | some own => exact ⟨_, .inr ⟨own.1, own.2, rfl⟩, rfl⟩

/-- A sweep is one of the table, and the collector shows that it goes on and what it came to. -/
theorem sweep_inv {n : Nat} (h : s.sweep = .ok (n, s')) :
    ∃ swept store, s.store.table.sweep = .ok (swept, store.table) ∧ s.store.sweep = .ok (n, store) ∧
      s' = { s with store, collector := (s.collector.retract.enter .sweeping).countCollected n } := by
  obtain ⟨⟨n', s₁⟩, hs₁, h⟩ := bind_eq_ok_iff.1 h
  cases h
  obtain ⟨⟨n', store⟩, hstore, h⟩ := bind_eq_ok_iff.1 hs₁
  cases h
  obtain ⟨swept, htable, -⟩ := Store.sweep_table hstore
  exact ⟨swept, store, htable, hstore, rfl⟩

/-- A cycle sweeps if nobody is waited for any more, and is given up if somebody is. -/
theorem conclude_cases {outcome : Outcome} (h : s.conclude = .ok (outcome, s')) :
    (s.collector.pending = [] ∧ ∃ n s₁, s.sweep = .ok (n, s₁) ∧ outcome = .collected n ∧ s' = s₁.rest) ∨
      (s.collector.pending ≠ [] ∧ outcome = .deferred ∧ s' = s.giveUp.rest) := by
  unfold conclude at h
  split at h
  · rename_i hpending
    obtain ⟨⟨n, s₁⟩, hsweep, h⟩ := bind_eq_ok_iff.1 h
    cases h
    exact .inl ⟨List.isEmpty_iff.1 hpending, n, s₁, hsweep, rfl, rfl⟩
  · rename_i hpending
    cases h
    exact .inr ⟨mt List.isEmpty_iff.2 hpending, rfl, rfl⟩

/-! ## Who calls for a cycle, and who answers -/

section

variable {readRoots : MutatorId → StateT System (Except Fault) (List Atom)} {id : MutatorId} {outcome : Outcome}
  {epoch : Nat}

theorem mem_of_mutator {m : Mutator} (h : s.mutator id = .ok m) : m ∈ s.mutators := by
  unfold System.mutator at h
  split at h
  · rename_i hfind
    cases h
    exact List.mem_of_find?_eq_some hfind
  · cases h

theorem id_of_mutator {m : Mutator} (h : s.mutator id = .ok m) : m.id = id := by
  unfold System.mutator at h
  split at h
  · rename_i hfind
    cases h
    simpa using List.find?_some hfind
  · cases h

theorem collect_cases (h : s.collect thread onlyIfNeeded = .ok (outcome, s')) :
    s.tryBegin thread none onlyIfNeeded = .ok (some outcome, s') ∨
      ∃ s₁, s.tryBegin thread none onlyIfNeeded = .ok (none, s₁) ∧ s₁.complete none = .ok (outcome, s') := by
  obtain ⟨⟨_ | refusal, s₁⟩, htry, h⟩ := bind_eq_ok_iff.1 h
  · exact .inr ⟨s₁, htry, h⟩
  · cases h
    exact .inl htry

/-- The roots of a mutator that calls for a cycle are read only if one begins. -/
theorem collectFrom_cases (h : System.collectFrom readRoots id onlyIfNeeded s = .ok (outcome, s')) :
    ∃ m, s.mutator id = .ok m ∧
      (s.tryBegin m.thread (some id) onlyIfNeeded = .ok (some outcome, s') ∨
        ∃ s₁ atoms s₂, s.tryBegin m.thread (some id) onlyIfNeeded = .ok (none, s₁) ∧
          readRoots id s₁ = .ok (atoms, s₂) ∧ s₂.complete (some (id, atoms)) = .ok (outcome, s')) := by
  obtain ⟨refusal, s₁, htry, h⟩ := state_bind_eq_ok_iff.1 h
  obtain ⟨m, hm, htry⟩ := bind_eq_ok_iff.1 htry
  refine ⟨m, hm, ?_⟩
  cases refusal with
  | some refusal =>
    cases h
    exact .inl htry
  | none =>
    obtain ⟨atoms, s₂, hread, h⟩ := state_bind_eq_ok_iff.1 h
    exact .inr ⟨s₁, atoms, s₂, htry, hread, h⟩

theorem observe_none (h : s.observe id = .ok (none, s')) : s' = s := by
  obtain ⟨m, -, h⟩ := bind_eq_ok_iff.1 h
  split at h
  · cases h
    rfl
  · cases h

/-- A mutator that is asked for its roots notes the epoch. -/
theorem observe_some (h : s.observe id = .ok (some epoch, s')) :
    ∃ m, s.mutator id = .ok m ∧ s.collector.dueEpoch? m.lastEpoch = some epoch ∧
      s' = s.updateMutator id ({ · with lastEpoch := epoch }) := by
  obtain ⟨m, hm, h⟩ := bind_eq_ok_iff.1 h
  split at h
  · cases h
  · rename_i hdue
    cases h
    exact ⟨m, hm, hdue, rfl⟩

/-- The roots of a mutator are read for an answer only if it is asked for them. -/
theorem answer_cases (h : System.answer readRoots id s = .ok ((), s')) :
    s.observe id = .ok (none, s') ∨
      ∃ epoch s₁ atoms s₂, s.observe id = .ok (some epoch, s₁) ∧ readRoots id s₁ = .ok (atoms, s₂) ∧
        s' = s₂.send ⟨id, epoch, atoms⟩ := by
  obtain ⟨due, s₁, hobserve, h⟩ := state_bind_eq_ok_iff.1 h
  cases due with
  | none =>
    cases h
    exact .inl hobserve
  | some epoch =>
    obtain ⟨atoms, s₂, hread, h⟩ := state_bind_eq_ok_iff.1 h
    cases h
    exact .inr ⟨epoch, s₁, atoms, s₂, hobserve, hread, rfl⟩

/-- A safe point is an answer, and perhaps a call for a cycle. -/
theorem safePoint_cases (h : System.safePoint readRoots id s = .ok ((), s')) :
    ∃ s₁, System.answer readRoots id s = .ok ((), s₁) ∧
      (s' = s₁ ∨ ∃ outcome, System.collectFrom readRoots id true s₁ = .ok (outcome, s')) := by
  obtain ⟨_, s₁, hanswer, h⟩ := state_bind_eq_ok_iff.1 h
  refine ⟨s₁, hanswer, ?_⟩
  obtain ⟨leaves, s₂, hleaves, h⟩ := state_bind_eq_ok_iff.1 h
  cases hleaves
  split at h
  · obtain ⟨⟨outcome, s₃⟩, hcollect, h⟩ := bind_eq_ok_iff.1 h
    cases h
    exact .inr ⟨outcome, hcollect⟩
  · cases h
    exact .inl rfl

end

end System

namespace World

variable {spans : Span → Prop} {w w' w'' : World} {id : MutatorId} {s s' : System} {atoms : List Atom}

/-- Some run leads from the one world to the other. -/
def Leads (spans : Span → Prop) (w w' : World) : Prop := ∃ trace, Run spans w trace w'

theorem Leads.refl (spans : Span → Prop) (w : World) : Leads spans w w := ⟨[], .start⟩

theorem Leads.step {events : List Event} (h : Leads spans w w') (hstep : Step spans w' events w'') :
    Leads spans w w'' := by
  obtain ⟨trace, h⟩ := h
  exact ⟨_, h.step hstep⟩

theorem Leads.trans (h : Leads spans w w') (h' : Leads spans w' w'') : Leads spans w w'' := by
  obtain ⟨trace, h⟩ := h
  obtain ⟨trace', h'⟩ := h'
  exact ⟨_, h.trans h'⟩

theorem LeadsQuietly.leads (h : LeadsQuietly spans w w') : Leads spans w w' := by
  obtain ⟨trace, h⟩ := h
  exact ⟨_, (h w [] [] .start).run⟩

theorem LeadsQuietly.of_steps {steps : World → World → Prop} (hsteps : ∀ w w', steps w w' → LeadsQuietly spans w w')
    (h : Relation.ReflTransGen steps w w') : LeadsQuietly spans w w' := by
  induction h with
  | refl => exact .refl spans w
  | tail _ hstep ih => exact ih.trans (hsteps _ _ hstep)

/-! ## The lock -/

/-- The lock is free just if no cycle is on its way and nobody keeps cycles out. -/
def Latched (w : World) : Prop := w.system.collector.locked = false ↔ w.stage = .idle

theorem Latched.forth (h : Latched w) (hlocked : w'.system.collector.locked = w.system.collector.locked)
    (hstage : w.stage ≠ .idle) (hstage' : w'.stage ≠ .idle) : Latched w' := by
  unfold Latched at h ⊢
  rw [hlocked, h]
  exact iff_of_false hstage hstage'

theorem Step.latched {events : List Event} (h : Latched w) (hstep : Step spans w events w') : Latched w' := by
  cases hstep with
  | close hclose =>
    unfold Latched
    dsimp only
    rw [(closeMutator_eq hclose).2]
    exact h
  | @display collector _ hcore =>
    have hlocked : collector.locked = w.system.collector.locked := congrArg (·.locked) hcore
    unfold Latched
    dsimp only
    rw [hlocked]
    exact h
  | hold _ _ | lock _ _ _ _ => exact iff_of_false nofun nofun
  | release _ | decline _ | rest _ => exact iff_of_true rfl rfl
  | @receive r collector _ _ htake =>
    obtain ⟨-, pending, hreceived⟩ := receive_frame { w.system with collector } r
    have hlocked := (congrArg (·.locked) hreceived).trans (congrArg (·.locked) (takeReport?_eq htake).2)
    unfold Latched
    dsimp only at hlocked ⊢
    rw [hlocked]
    exact h
  | begin hstage | number hstage | publish hstage | snapshot hstage | readOwn _ hstage _ | markOwn hstage _
  | markNone hstage _ | finish hstage _ | timeOut hstage _ | abort hstage | postpone hstage | sweep hstage _ _ =>
    refine h.forth ?_ (by rw [hstage]; exact nofun) ?_
    · rfl
    · exact nofun
  | _ => exact h

theorem Leads.latched (h : Latched w) (hleads : Leads spans w w') : Latched w' := by
  obtain ⟨trace, hrun⟩ := hleads
  induction hrun with
  | start => exact h
  | step _ hstep ih => exact hstep.latched ih

theorem latched_empty (heap : Heap) (config : Config) : Latched (.empty heap config) := iff_of_true rfl rfl

/-! ## Mutators -/

theorem observe_leads {epoch : Nat} (h : w.system.observe id = .ok (some epoch, s)) :
    LeadsQuietly spans w { w with system := s, visits := .reading ⟨id, epoch, []⟩ :: w.visits } := by
  obtain ⟨m, hm, hdue, rfl⟩ := System.observe_some h
  have := ((LeadsQuietly.refl spans w).aside (.look hm hdue) rfl).aside (.note List.mem_cons_self) rfl
  rwa [List.erase_cons_head] at this

theorem read_leads {epoch : Nat} {visits : List Visit} (before : List Atom) (atoms : List Atom)
    (hv : w.visits = .reading ⟨id, epoch, before⟩ :: visits) :
    LeadsQuietly spans w { w with visits := .reading ⟨id, epoch, before ++ atoms⟩ :: visits } := by
  induction atoms generalizing w before with
  | nil =>
    rw [List.append_nil, ← hv]
    exact .refl spans w
  | cons a atoms ih =>
    have hstep := (LeadsQuietly.refl spans w).aside (.read a (hv ▸ List.mem_cons_self)) rfl
    rw [hv, List.erase_cons_head] at hstep
    have := ih (before ++ [a]) (w := { w with visits := .reading ⟨id, epoch, before ++ [a]⟩ :: visits }) rfl
    rw [List.append_assoc] at this
    exact hstep.trans this

theorem send_leads {r : Report} {visits : List Visit} (hv : w.visits = .reading r :: visits) :
    Leads spans w { w with system := w.system.send r, visits } := by
  have hstep := (Leads.refl spans w).step (.send (hv ▸ List.mem_cons_self))
  rwa [hv, List.erase_cons_head] at hstep

theorem detach_leads (h : w.system.detach id = .ok s) : LeadsQuietly spans w { w with system := s } := by
  obtain ⟨m, hm, h⟩ := bind_eq_ok_iff.1 h
  obtain rfl := System.id_of_mutator hm
  have hleft := (LeadsQuietly.refl spans w).aside (.leave hm) rfl
  have hsent : LeadsQuietly spans w
      { w with system := (w.system.onCollector (·.deregister m.id)).sendLast m } := by
    unfold System.sendLast
    split
    · rename_i hdue
      have := (hleft.aside (.part List.mem_cons_self hdue) rfl).sendLast List.mem_cons_self
      rwa [List.erase_cons_head, List.erase_cons_head] at this
    · rename_i hdue
      have := hleft.aside (.partUnasked List.mem_cons_self hdue) rfl
      rwa [List.erase_cons_head] at this
  exact hsent.aside (.close h) (congrArg (·.reports) (closeMutator_eq h).2)

/-! ## Cycles -/

theorem defer_leads (w : World) : LeadsQuietly spans w { w with system := w.system.defer } :=
  ((LeadsQuietly.refl spans w).display Collector.countDeferred fun _ => rfl).aside (.call .requestCollection) rfl

/-- A call for a cycle: none begins, or one goes on up to the roots of whoever runs it. -/
theorem tryBegin_leads (hl : w.Latched) {thread : ThreadId} {initiator : Option MutatorId}
    {onlyIfNeeded : Bool}
    {refusal : Option Outcome} (h : w.system.tryBegin thread initiator onlyIfNeeded = .ok (refusal, s)) :
    match refusal with
    | some _ => ∃ initiator, LeadsQuietly spans w { w with system := s, initiator }
    | none => w.stage = .idle ∧ s.mutators = w.system.mutators ∧
        LeadsQuietly spans w { w with system := s, stage := .asked [], initiator } := by
  cases System.tryBegin_cases h with
  | off => exact ⟨w.initiator, .refl spans w⟩
  | refused => exact ⟨w.initiator, defer_leads w⟩
  | undue hadmits _ _ =>
    have hlocked := hadmits.unlocked
    have hidle := hl.1 hlocked
    have hcleared := ((LeadsQuietly.refl spans w).aside (.lock initiator hidle hlocked hadmits.enabled) rfl).aside
      (.clearRequest rfl) rfl
    have := hcleared.aside (.decline rfl) rfl
    rw [← hidle] at this
    exact ⟨initiator, this⟩
  | begun hadmits _ =>
    have hlocked := hadmits.unlocked
    have hidle := hl.1 hlocked
    have hcleared := ((LeadsQuietly.refl spans w).aside (.lock initiator hidle hlocked hadmits.enabled) rfl).aside
      (.clearRequest rfl) rfl
    have hbegun := (hcleared.display (·.enter .marking) fun _ => rfl).forth (.begin rfl) (Nat.le_refl _)
      (by simp)
    have hpublished := (hbegun.aside (.number rfl) rfl).aside (.publish rfl) rfl
    exact ⟨hidle, rfl, hpublished.forth (.snapshot rfl) (Nat.le_refl _) (by simp)⟩

theorem receive_onCollector (s : System) (r : Report) (reports : List Report) :
    (s.onCollector ({ · with reports })).receive r = (s.receive r).onCollector ({ · with reports }) := by
  by_cases h : r.epoch = s.collector.epoch
  · rw [receive_of_eq h, receive_of_eq]
    · rfl
    · exact h
  · rw [receive_of_ne h, receive_of_ne]
    exact h

/-- Taking reports leaves a queue that does not depend on the one there was. -/
theorem awaitReports_onCollector (s : System) (reports queue : List Report) :
    (s.onCollector ({ · with reports := queue })).awaitReports reports = s.awaitReports reports := by
  induction reports generalizing s with
  | nil => rfl
  | cons r rest ih =>
    unfold System.awaitReports
    rw [receive_onCollector, ih]
    rfl

/-- Taking a report while somebody is waited for. -/
def Receives (w w' : World) : Prop :=
  w.stage = .awaiting ∧ w.pending ≠ [] ∧ ∃ r collector, w.system.collector.takeReport? = some (r, collector) ∧
    w' = { w with system := { w.system with collector }.receive r }

/-- Taking reports until nobody is waited for or none is left. -/
theorem awaitReports_receives (hstage : w.stage = .awaiting) {reports : List Report}
    (hreports : w.system.collector.reports = reports) :
    Relation.ReflTransGen Receives w { w with system := w.system.awaitReports reports } := by
  induction reports generalizing w with
  | nil =>
    unfold System.awaitReports
    rw [← hreports]
    exact .refl
  | cons r rest ih =>
    unfold System.awaitReports
    split
    · rw [← hreports]
      exact .refl
    · rename_i hpending
      have htake : w.system.collector.takeReport? = some (r, { w.system.collector with reports := rest }) := by
        unfold Collector.takeReport?
        rw [hreports]
      -- The step takes the report off the queue, and the operation leaves it there till the end.
      have hqueue : { w.system with collector := { w.system.collector with reports := rest } }.receive r =
          (w.system.receive r).onCollector ({ · with reports := rest }) := receive_onCollector w.system r rest
      have := ih (w := { w with system := (w.system.receive r).onCollector ({ · with reports := rest }) })
        hstage rfl
      rw [awaitReports_onCollector] at this
      exact .head ⟨hstage, mt List.isEmpty_iff.2 hpending, r, _, htake, by rw [hqueue]⟩ this

theorem awaitReports_leads (hstage : w.stage = .awaiting) :
    LeadsQuietly spans w { w with system := w.system.awaitReports w.system.collector.reports } := by
  refine .of_steps ?_ (awaitReports_receives hstage rfl)
  rintro w₁ _ ⟨hstage, hpending, r, collector, htake, rfl⟩
  exact (LeadsQuietly.refl spans w₁).receive hstage hpending htake

/-- Reading a root of the mutator that runs the cycle. -/
def ReadsOwn (w w' : World) : Prop :=
  ∃ atoms id a, w.stage = .asked atoms ∧ w.initiator = some id ∧ w' = { w with stage := .asked (atoms ++ [a]) }

/-- Reading the roots of the mutator that runs the cycle, one by one. -/
theorem asked_readsOwn {before : List Atom} (atoms : List Atom) (hstage : w.stage = .asked before)
    (hinitiator : w.initiator = some id) :
    Relation.ReflTransGen ReadsOwn w { w with stage := .asked (before ++ atoms) } := by
  induction atoms generalizing w before with
  | nil =>
    rw [List.append_nil, ← hstage]
  | cons a atoms ih =>
    have := ih (w := { w with stage := .asked (before ++ [a]) }) rfl hinitiator
    rw [List.append_assoc] at this
    exact .head ⟨before, id, a, hstage, hinitiator, rfl⟩ this

theorem readOwn_leads {before : List Atom} (atoms : List Atom) (hstage : w.stage = .asked before)
    (hinitiator : w.initiator = some id) : LeadsQuietly spans w { w with stage := .asked (before ++ atoms) } := by
  refine .of_steps ?_ (asked_readsOwn atoms hstage hinitiator)
  rintro w₁ _ ⟨before, id, a, hstage, hinitiator, rfl⟩
  exact (LeadsQuietly.refl spans w₁).aside (.readOwn a hstage hinitiator) rfl

theorem sweep_leads {n : Nat} (hstage : w.stage = .awaiting) (hpending : w.pending = [])
    (h : w.system.sweep = .ok (n, s)) :
    LeadsQuietly spans w { w with system := s.rest, stage := .idle } := by
  obtain ⟨swept, store, htable, hstore, rfl⟩ := System.sweep_inv h
  have hfinished := (LeadsQuietly.refl spans w).aside (.finish hstage hpending) rfl
  have hentered := hfinished.display (·.enter .sweeping) fun _ => rfl
  have hswept := hentered.forth (.sweep rfl htable hstore) (Nat.le_refl _) (by simp)
  have hshown := (hswept.display (·.countCollected n) fun _ => rfl).display (·.enter .idle) fun _ => rfl
  exact hshown.aside (.rest rfl) rfl

theorem giveUp_leads (hstage : w.stage = .awaiting) (hpending : w.pending ≠ []) :
    LeadsQuietly spans w { w with system := w.system.giveUp.rest, stage := .idle } := by
  have haborted := ((LeadsQuietly.refl spans w).aside (.timeOut hstage hpending) rfl).aside (.abort rfl) rfl
  have hended := (haborted.display Collector.countDeferred fun _ => rfl).aside (.postpone rfl) rfl
  exact (hended.display (·.enter .idle) fun _ => rfl).aside (.rest rfl) rfl

theorem conclude_leads {outcome : Outcome} (hstage : w.stage = .awaiting)
    (h : w.system.complete none = .ok (outcome, s)) :
    LeadsQuietly spans w { w with system := s, stage := .idle } := by
  have hawaited : LeadsQuietly spans w _ := awaitReports_leads hstage
  rcases System.conclude_cases h with ⟨hpending, n, s₁, hsweep, -, rfl⟩ | ⟨hpending, -, rfl⟩
  · exact hawaited.trans (sweep_leads hstage hpending hsweep)
  · exact hawaited.trans (giveUp_leads hstage hpending)

theorem collect_leads (hl : w.Latched) {thread : ThreadId} {onlyIfNeeded : Bool} {outcome : Outcome}
    (h : w.system.collect thread onlyIfNeeded = .ok (outcome, s)) :
    ∃ initiator, LeadsQuietly spans w { w with system := s, initiator } := by
  rcases System.collect_cases h with htry | ⟨s₁, htry, h⟩
  · exact tryBegin_leads hl htry
  · obtain ⟨hidle, -, hbegun⟩ := @tryBegin_leads spans _ _ hl _ _ _ _ htry
    have hmarked := hbegun.aside (.markNone rfl rfl) rfl
    have hdone := hmarked.trans (conclude_leads rfl h)
    rw [← hidle] at hdone
    exact ⟨none, hdone⟩

/-! ## Safe points -/

section

variable {readRoots : MutatorId → StateT System (Except Fault) (List Atom)}

/-- Reading the roots of a mutator does to a system what steps do. -/
def ReadBySteps (spans : Span → Prop) (readRoots : MutatorId → StateT System (Except Fault) (List Atom))
    (id : MutatorId) : Prop :=
  ∀ w atoms s, readRoots id w.system = .ok (atoms, s) → Leads spans w { w with system := s }

theorem answer_leads (hroots : ReadBySteps spans readRoots id)
    (h : System.answer readRoots id w.system = .ok ((), s)) : Leads spans w { w with system := s } := by
  rcases System.answer_cases h with hobserve | ⟨epoch, s₁, atoms, s₂, hobserve, hatoms, rfl⟩
  · rw [System.observe_none hobserve]
    exact .refl spans w
  · have hread := (observe_leads hobserve).leads.trans (hroots _ atoms s₂ hatoms)
    exact (hread.trans (read_leads [] atoms rfl).leads).trans (send_leads rfl)

theorem collectFrom_leads (hroots : ReadBySteps spans readRoots id)
    (hl : w.Latched) {onlyIfNeeded : Bool} {outcome : Outcome}
    (h : System.collectFrom readRoots id onlyIfNeeded w.system = .ok (outcome, s)) :
    ∃ initiator, Leads spans w { w with system := s, initiator } := by
  obtain ⟨m, -, htry | ⟨s₁, atoms, s₂, htry, hatoms, h⟩⟩ := System.collectFrom_cases h
  · obtain ⟨initiator, hrefused⟩ := @tryBegin_leads spans _ _ hl _ _ _ _ htry
    exact ⟨initiator, hrefused.leads⟩
  · obtain ⟨hidle, -, hbegun⟩ := @tryBegin_leads spans _ _ hl _ _ _ _ htry
    have hread := hbegun.leads.trans (hroots _ atoms s₂ hatoms)
    have hmarked := (hread.trans (readOwn_leads atoms rfl rfl).leads).step (.markOwn rfl rfl)
    have hdone := hmarked.trans (conclude_leads rfl h).leads
    rw [← hidle] at hdone
    exact ⟨some id, hdone⟩

/-- A safe point: an answer, and perhaps a cycle. -/
theorem safePoint_leads (hroots : ReadBySteps spans readRoots id)
    (hl : w.Latched) (h : System.safePoint readRoots id w.system = .ok ((), s)) :
    ∃ initiator, Leads spans w { w with system := s, initiator } := by
  obtain ⟨s₁, hanswer, h⟩ := System.safePoint_cases h
  have hanswered := answer_leads hroots hanswer
  rcases h with rfl | ⟨outcome, hcollect⟩
  · exact ⟨w.initiator, hanswered⟩
  · obtain ⟨initiator, hcollected⟩ := collectFrom_leads hroots (hanswered.latched hl) hcollect
    exact ⟨initiator, hanswered.trans hcollected⟩

/-! ## Root stacks -/

/-- A stack run goes on to a world. -/
def Reaches (spans : Span → Prop) (w₀ : World) (copies : List Report) (trace : List Event) (w : World) : Prop :=
  ∃ copies' trace', StackRun spans w₀ (copies' ++ copies) (trace' ++ trace) w

variable {w₀ : World} {copies : List Report} {trace : List Event} {m : Mutator}

theorem StackRun.quietly (h : StackRun spans w₀ copies trace w) (hquiet : LeadsQuietly spans w w') :
    ∃ trace', StackRun spans w₀ copies (trace' ++ trace) w' := by
  obtain ⟨trace', hquiet⟩ := hquiet
  exact ⟨trace', hquiet _ _ _ h⟩

theorem Reaches.quietly (h : Reaches spans w₀ copies trace w) (hquiet : LeadsQuietly spans w w') :
    Reaches spans w₀ copies trace w' := by
  obtain ⟨copies', trace', h⟩ := h
  obtain ⟨trace'', h⟩ := h.quietly hquiet
  refine ⟨copies', trace'' ++ trace', ?_⟩
  rw [List.append_assoc]
  exact h

theorem Reaches.of_append (copies₁ : List Report) (trace₁ : List Event)
    (h : Reaches spans w₀ (copies₁ ++ copies) (trace₁ ++ trace) w) : Reaches spans w₀ copies trace w := by
  obtain ⟨copies', trace', h⟩ := h
  refine ⟨copies' ++ copies₁, trace' ++ trace₁, ?_⟩
  rwa [List.append_assoc, List.append_assoc]

/-- Reading the roots of a mutator gives at least what was on its stack when the reading began. It does what
stack runs do, and while cycles are kept out it begins none. -/
def ReadsStack (spans : Span → Prop) (w₀ : World)
    (readRoots : MutatorId → StateT System (Except Fault) (List Atom)) (id : MutatorId) : Prop :=
  ∀ w copies trace m atoms s, StackRun spans w₀ copies trace w → w.system.mutator id = .ok m →
    readRoots id w.system = .ok (atoms, s) →
    m.roots.atoms ⊆ atoms ∧ (w.system.collector.locked = true → s.collector.epoch = w.epoch) ∧
      Reaches spans w₀ copies trace { w with system := s }

theorem readStack_readsStack : ReadsStack spans w₀ System.readStack id := by
  intro w copies trace m atoms s h hm hread
  obtain ⟨stack, hstack, hread⟩ := bind_eq_ok_iff.1 hread
  obtain ⟨m', hm', hstack⟩ := bind_eq_ok_iff.1 hstack
  rw [hm, Except.ok.injEq] at hm'
  subst hm'
  cases hstack
  cases hread
  refine ⟨fun a ha => ?_, fun _ => rfl, [], [], h⟩
  rw [RootStack.toList_report]
  exact List.mem_append_right _ (List.mem_reverse.2 ha)

theorem mutator_updateMutator {f : Mutator → Mutator} (hf : ∀ m, (f m).id = m.id) (hm : s.mutator id = .ok m) :
    (s.updateMutator id f).mutator id = .ok (f m) := by
  have hid : ∀ m : Mutator, (if m.id = id then f m else m).id = m.id := by
    intro m
    split
    · exact hf m
    · rfl
  have hsame : ((fun m : Mutator => m.id == id) ∘ fun m => if m.id = id then f m else m) = fun m => m.id == id :=
    funext fun m => congrArg (· == id) (hid m)
  have hmid := System.id_of_mutator hm
  unfold System.mutator at hm ⊢
  unfold System.updateMutator
  split at hm
  · rename_i hfind
    cases hm
    rw [List.find?_map, hsame, hfind]
    dsimp only [Option.map_some]
    rw [if_pos hmid]
  · cases hm

theorem mutator_of_observe {epoch : Nat} (h : s.observe id = .ok (some epoch, s')) :
    ∃ m, s'.mutator id = .ok m := by
  obtain ⟨m, hm, -, rfl⟩ := System.observe_some h
  exact ⟨_, mutator_updateMutator (fun _ => rfl) hm⟩

namespace StackRun

/-- At a safe point a mutator that is asked for its roots sends at least a copy of its stack. -/
theorem answer (hroots : ReadsStack spans w₀ readRoots id) (h : StackRun spans w₀ copies trace w)
    (hanswer : System.answer readRoots id w.system = .ok ((), s)) :
    Reaches spans w₀ copies trace { w with system := s } := by
  rcases System.answer_cases hanswer with hobserve | ⟨epoch, s₁, atoms, s₂, hobserve, hatoms, rfl⟩
  · rw [System.observe_none hobserve]
    exact ⟨[], [], h⟩
  · obtain ⟨trace₁, hobserved⟩ := h.quietly (observe_leads hobserve)
    obtain ⟨m, hm⟩ := mutator_of_observe hobserve
    have hcopied := hobserved.copy List.mem_cons_self hm
    obtain ⟨hstack, -, copies', trace', hread⟩ := hroots _ _ _ _ _ _ hcopied hm hatoms
    obtain ⟨trace₂, hreported⟩ := hread.quietly (read_leads [] atoms rfl)
    have hsource : Copied (copies' ++ ⟨id, epoch, m.roots.atoms⟩ :: copies) ⟨id, epoch, atoms⟩ :=
      ⟨_, List.mem_append_right _ List.mem_cons_self, rfl, rfl, hstack⟩
    have hsent := hreported.send List.mem_cons_self hsource
    rw [List.erase_cons_head, ← List.append_assoc] at hsent
    exact Reaches.of_append [⟨id, epoch, m.roots.atoms⟩] trace₁ ⟨copies', _, hsent⟩

/-- A mutator that runs a cycle marks at least a copy of its stack. -/
theorem collectFrom (hroots : ReadsStack spans w₀ readRoots id) (hl : w₀.Latched)
    (h : StackRun spans w₀ copies trace w) {onlyIfNeeded : Bool} {outcome : Outcome}
    (hcollect : System.collectFrom readRoots id onlyIfNeeded w.system = .ok (outcome, s)) :
    ∃ initiator, Reaches spans w₀ copies trace { w with system := s, initiator } := by
  have hlw : w.Latched := Leads.latched hl ⟨_, h.run⟩
  obtain ⟨m, hm, htry | ⟨s₁, atoms, s₂, htry, hatoms, hcollect⟩⟩ := System.collectFrom_cases hcollect
  · obtain ⟨initiator, hrefused⟩ := @tryBegin_leads spans _ _ hlw _ _ _ _ htry
    exact ⟨initiator, Reaches.quietly ⟨[], [], h⟩ hrefused⟩
  · obtain ⟨hidle, hmutators, hbegun⟩ := @tryBegin_leads spans _ _ hlw _ _ _ _ htry
    have hlocked : s₁.collector.locked = true :=
      eq_true_of_ne_false (mt (Leads.latched hlw hbegun.leads).1 nofun)
    obtain ⟨trace₁, hbegun⟩ := h.quietly hbegun
    have hm₁ : s₁.mutator id = .ok m := by
      unfold System.mutator at hm ⊢
      rwa [hmutators]
    have hcopied := hbegun.copyOwn rfl rfl hm₁
    obtain ⟨hstack, hepoch, copies', trace', hread⟩ := hroots _ _ _ _ _ _ hcopied hm₁ hatoms
    obtain ⟨trace₂, hreported⟩ := hread.quietly (readOwn_leads atoms rfl rfl)
    have hsource : Copied (copies' ++ ⟨id, s₁.collector.epoch, m.roots.atoms⟩ :: copies)
        ⟨id, s₂.collector.epoch, atoms⟩ :=
      ⟨_, List.mem_append_right _ List.mem_cons_self, rfl, (hepoch hlocked).symm, hstack⟩
    have hmarked := hreported.markOwn rfl rfl hsource
    rw [← List.append_assoc] at hmarked
    have hreached : Reaches spans w₀ copies trace _ :=
      Reaches.of_append [⟨id, s₁.collector.epoch, m.roots.atoms⟩] trace₁
        ⟨copies', .initiated _ :: (trace₂ ++ trace'), hmarked⟩
    have hdone := hreached.quietly (conclude_leads rfl hcollect)
    rw [← hidle] at hdone
    exact ⟨some id, hdone⟩

theorem safePoint (hroots : ReadsStack spans w₀ readRoots id) (hl : w₀.Latched)
    (h : StackRun spans w₀ copies trace w) (hsafe : System.safePoint readRoots id w.system = .ok ((), s)) :
    ∃ initiator, Reaches spans w₀ copies trace { w with system := s, initiator } := by
  obtain ⟨s₁, hanswer, hsafe⟩ := System.safePoint_cases hsafe
  obtain ⟨copies', trace', hanswered⟩ := h.answer hroots hanswer
  rcases hsafe with rfl | ⟨outcome, hcollect⟩
  · exact ⟨w.initiator, copies', trace', hanswered⟩
  · obtain ⟨initiator, hcollected⟩ := hanswered.collectFrom hroots hl hcollect
    exact ⟨initiator, hcollected.of_append copies' trace'⟩

end StackRun

end

end World

end AtomHeap
