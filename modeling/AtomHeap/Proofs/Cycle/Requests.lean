import AtomHeap.Proofs.Cycle.Operations
import AtomHeap.Proofs.Cycle.Pressure
/-!
# Requests for cycles

What the library does to a system is made of the steps of `Pressure.Step`: interning with its acquire hook,
and cycles up to each of their ends, nested ones included. So the pressure that is not lost in any
interleaving of steps is not lost by operations (`pressure_kept`). No acquire hook collects, so while one
operation follows the other nobody owes a request when the live atoms are taken as those that are left.
-/

namespace AtomHeap.Pressure

variable {may : List Atom → Prop} {p p' p'' : Pressure} {notes new : List Note} {s : System} {store : Store}
  {span : Span} {lasting : Bool} {blob : BlobId} {i : Interned} {a : Atom} {heap : Heap} {config : Config}

def withStore (p : Pressure) (store : Store) : Pressure := { p with system := { p.system with store } }

/-- Some run leads from the one to the other, on which the live atoms are taken as those left only while
certain makers owe a request. -/
def Leads (may : List Atom → Prop) (p p' : Pressure) : Prop :=
  ∃ notes, Run p notes p' ∧ ∀ owing, .settled owing ∈ notes → may owing

namespace Leads

theorem refl (may : List Atom → Prop) (p : Pressure) : Leads may p p := ⟨[], .start, nofun⟩

theorem step (h : Leads may p p') (hstep : Step p' new p'')
    (hmay : ∀ owing, .settled owing ∈ new → may owing) : Leads may p p'' := by
  obtain ⟨notes, hrun, hnotes⟩ := h
  refine ⟨_, hrun.step hstep, fun owing hmem => ?_⟩
  rcases List.mem_append.1 hmem with hmem | hmem
  · exact hmay owing hmem
  · exact hnotes owing hmem

theorem other (h : Leads may p p') (htable : p'.table.Steady s.store.table)
    (hlocked : s.collector.locked = p'.system.collector.locked) : Leads may p { p' with system := s } :=
  h.step (.other htable hlocked) nofun

theorem onCollector (h : Leads may p p') (f : Collector → Collector)
    (hlocked : (f p'.system.collector).locked = p'.system.collector.locked) :
    Leads may p { p' with system := p'.system.onCollector f } := h.other (.refl _) hlocked

theorem trans (h : Leads may p p') (h' : Leads may p' p'') : Leads may p p'' := by
  obtain ⟨notes, hrun, hnotes⟩ := h
  obtain ⟨notes', hrun', hnotes'⟩ := h'
  refine ⟨_, hrun.trans hrun', fun owing hmem => ?_⟩
  rcases List.mem_append.1 hmem with hmem | hmem
  · exact hnotes' owing hmem
  · exact hnotes owing hmem

end Leads

/-! ## The lock -/

/-- The lock is free just if no cycle is on its way and nobody keeps cycles out. -/
def Latched (p : Pressure) : Prop := p.system.collector.locked = false ↔ p.turn = .free

theorem Step.latched (h : Latched p) (hstep : Step p new p') : Latched p' := by
  cases hstep with
  | hold | lock => exact iff_of_false nofun nofun
  | release | decline | rest => exact iff_of_true rfl rfl
  | clear hturn | look hturn | begin hturn | postpone hturn | sweep hturn =>
    unfold Latched at h
    rw [hturn] at h
    exact iff_of_false (mt h.1 nofun) nofun
  | other _ hlocked =>
    unfold Latched
    dsimp only
    rw [hlocked]
    exact h
  | _ => exact h

theorem Leads.latched (h : Latched p) (hleads : Leads may p p') : Latched p' := by
  obtain ⟨notes, hrun, -⟩ := hleads
  induction hrun with
  | start => exact h
  | step _ hstep ih => exact hstep.latched ih

/-! ## Interning -/

theorem internLocked_leads {r : Except AtomError Interned}
    (h : p.system.store.internLocked span lasting blob = .ok (r, store)) :
    Leads may p
      { p.withStore store with
        owing := match r with
          | .ok i => if i.wantsCycle then i.atom :: p.owing else p.owing
          | .error _ => p.owing } := by
  have hsteady (hs : p.table.Steady store.table) : Leads may p (p.withStore store) := (Leads.refl may p).other hs rfl
  cases Store.internLocked_interning h with
  | unknown => exact hsteady (.refl _)
  | refused hpayload =>
    have htable : store.table = p.table := Store.payloadFor_table hpayload
    exact hsteady (htable ▸ .refl _)
  | found _ _ hreuse => exact hsteady (Table.reuse_steady hreuse)
  | made => exact (Leads.refl may p).step (.make h rfl) nofun

/-- Whoever made an atom that was one too many asks for a cycle, and owes no request then. -/
theorem heed_leads (p : Pressure) (i : Interned) :
    Leads may { p with owing := if i.wantsCycle then i.atom :: p.owing else p.owing }
      (p.withStore (p.system.store.heed i)) := by
  unfold Store.heed
  split
  · have := (Leads.refl may { p with owing := i.atom :: p.owing }).step (.heed List.mem_cons_self) nofun
    rwa [List.erase_cons_head] at this
  · exact .refl may p

theorem runAcquire_leads {hook : AcquireHook} {answer : AcquireAnswer}
    (h : p.system.store.runAcquire hook a = .ok (answer, store)) : Leads may p (p.withStore store) := by
  cases Store.runAcquire_cases h with
  | observe => exact .refl may p
  | register => exact (Leads.refl may p).other (Table.register_steady _ a) rfl
  | unregister => exact (Leads.refl may p).other (Table.unregister_steady _ a) rfl
  | refused hintern => exact internLocked_leads hintern
  | @interned store₁ _ i hintern => exact (internLocked_leads hintern).trans (heed_leads (p.withStore store₁) i)

/-- The log does not matter, so what the hook does is all. -/
theorem acquire_leads (h : p.system.store.acquire blob a = .ok store) : Leads may p (p.withStore store) := by
  cases Store.acquire_cases h with
  | passed => exact .refl may p
  | called _ _ hrun => exact (runAcquire_leads hrun).other (.refl _) rfl

theorem internSpan_leads {r : Except AtomError Interned}
    (h : p.system.store.internSpan span lasting blob = .ok (r, store)) : Leads may p (p.withStore store) := by
  cases Store.internSpan_cases h with
  | refused hintern => exact internLocked_leads hintern
  | @found store₁ i hintern => exact (internLocked_leads hintern).trans (heed_leads (p.withStore store₁) i)
  | @made _ store₂ i hintern _ hacquire =>
    exact (internLocked_leads hintern).trans (Leads.trans (acquire_leads hacquire) (heed_leads (p.withStore store₂) i))

theorem internAll_leads {names : List String} {r : Except AtomError (List Atom)}
    (h : p.system.store.internAll names = .ok (r, store)) : Leads may p (p.withStore store) := by
  induction names generalizing p r with
  | nil =>
    cases h
    exact .refl may p
  | cons name names ih =>
    obtain ⟨⟨e | i, store₁⟩, hintern, h⟩ := bind_eq_ok_iff.1 h
    · cases h
      exact internSpan_leads hintern
    · obtain ⟨⟨e | atoms, store₂⟩, hrest, h⟩ := bind_eq_ok_iff.1 h
      all_goals
        cases h
        exact (internSpan_leads hintern).trans (ih hrest)

theorem initBuiltins_leads {names : List String} {r : Except AtomError (List Atom)}
    (h : p.system.store.initBuiltins names = .ok (r, store)) : Leads (· = p.owing) p (p.withStore store) := by
  obtain ⟨⟨e | atoms, store₁⟩, hatoms, h⟩ := bind_eq_ok_iff.1 h
  · cases h
    exact internAll_leads hatoms
  · cases h
    refine (internAll_leads hatoms).step .lockAtoms fun owing hmem => ?_
    cases List.mem_singleton.1 hmem
    rfl

/-! ## Cycles -/

theorem tryBegin_leads (hl : Latched p) {thread : ThreadId} {initiator : Option MutatorId} {onlyIfNeeded : Bool}
    {refusal : Option Outcome} (h : p.system.tryBegin thread initiator onlyIfNeeded = .ok (refusal, s)) :
    match refusal with
    | some _ => Leads may p { p with system := s }
    | none => p.turn = .free ∧ Leads may p { p with system := s, turn := .begun } := by
  have hcleared (hadmits : p.system.Admits thread initiator) : p.turn = .free ∧ Leads may p
      { p with
        system := (p.system.onCollector .lock).onTable ({ · with requested := false })
        turn := .cleared } := by
    have hfree := hl.1 hadmits.unlocked
    exact ⟨hfree, ((Leads.refl may p).step (.lock hfree hadmits.unlocked hadmits.enabled) nofun).step (.clear rfl)
      (by simp)⟩
  cases System.tryBegin_cases h with
  | off => exact .refl may p
  | refused =>
    exact ((Leads.refl may p).onCollector .countDeferred rfl).step .request nofun
  | undue hadmits _ hundue =>
    obtain ⟨hfree, hcleared⟩ := hcleared hadmits
    have hdeclined := (hcleared.step (.look rfl hundue) nofun).step (.decline rfl) nofun
    rw [← hfree] at hdeclined
    exact hdeclined
  | begun hadmits _ =>
    obtain ⟨hfree, hcleared⟩ := hcleared hadmits
    have hbegun := (hcleared.onCollector (·.enter .marking) rfl).step (.begin rfl) nofun
    exact ⟨hfree, ((hbegun.onCollector .nextEpoch rfl).onCollector .publish rfl).onCollector .snapshot rfl⟩

theorem awaitReports_steady (s : System) (reports : List Report) :
    s.store.table.Steady (s.awaitReports reports).store.table ∧
      (s.awaitReports reports).collector.locked = s.collector.locked := by
  induction reports generalizing s with
  | nil => exact ⟨.refl _, rfl⟩
  | cons r reports ih =>
    unfold System.awaitReports
    split
    · exact ⟨.refl _, rfl⟩
    · obtain ⟨hsteady, hlocked⟩ := ih (s.receive r)
      unfold System.receive at hsteady hlocked ⊢
      split at hsteady
      · rename_i hepoch
        rw [if_pos hepoch] at hlocked ⊢
        exact ⟨(Table.applyMarks_steady _ _).trans hsteady, hlocked⟩
      · rename_i hepoch
        rw [if_neg hepoch] at hlocked ⊢
        exact ⟨hsteady, hlocked⟩

theorem complete_leads (hturn : p.turn = .begun) {initiator : Option (MutatorId × List Atom)} {outcome : Outcome}
    (h : p.system.complete initiator = .ok (outcome, s)) :
    Leads (· = p.owing) p { p with system := s, turn := .free } := by
  have hsettled (owing : List Atom) (hmem : Note.settled owing ∈ [Note.settled p.owing]) : owing = p.owing := by
    cases List.mem_singleton.1 hmem
    rfl
  obtain ⟨s₀, hmarked, heq⟩ := p.system.complete_eq_conclude initiator
  obtain ⟨hsteady, hlocked⟩ := awaitReports_steady s₀ s₀.collector.reports
  -- However the reports turn out, they do to the table what steps do on the side.
  have hawaited : Leads (· = p.owing) p { p with system := s₀.awaitReports s₀.collector.reports } := by
    rcases hmarked with rfl | ⟨id, atoms, rfl⟩
    · exact (Leads.refl _ p).other hsteady hlocked
    · exact (Leads.refl _ p).other ((Table.applyMarks_steady _ atoms).trans hsteady) hlocked
  rw [heq] at h
  generalize s₀.awaitReports s₀.collector.reports = s₁ at hawaited h
  rcases System.conclude_cases h with ⟨-, n, s₂, hsweep, -, rfl⟩ | ⟨-, -, rfl⟩
  · obtain ⟨-, store, -, hstore, rfl⟩ := System.sweep_inv hsweep
    have hentered := (hawaited.onCollector .retract rfl).onCollector (·.enter .sweeping) rfl
    have hswept := hentered.step (.sweep hturn hstore) hsettled
    exact ((hswept.onCollector (·.countCollected n) rfl).onCollector (·.enter .idle) rfl).step (.rest rfl) nofun
  · have haborted := hawaited.other (s := (s₁.onCollector .retract).onTable .abortMarking) ⟨rfl, rfl⟩ rfl
    have hpostponed := (haborted.onCollector .countDeferred rfl).step (.postpone hturn) hsettled
    exact (hpostponed.onCollector (·.enter .idle) rfl).step (.rest rfl) nofun

theorem collect_leads (hl : Latched p) {thread : ThreadId} {onlyIfNeeded : Bool} {outcome : Outcome}
    (h : p.system.collect thread onlyIfNeeded = .ok (outcome, s)) :
    Leads (· = p.owing) p { p with system := s } := by
  rcases System.collect_cases h with htry | ⟨s₁, htry, h⟩
  · exact tryBegin_leads hl htry
  · obtain ⟨hfree, hbegun⟩ := @tryBegin_leads (· = p.owing) _ _ hl _ _ _ _ htry
    have hdone := hbegun.trans (complete_leads rfl h)
    rw [← hfree] at hdone
    exact hdone

/-! ## Operations -/

/-- What the library does to a system, one after the other and within each other: reading the roots of the
mutator that runs a cycle may be any operation. -/
inductive Operation : {α : Type} → StateT System (Except Fault) α → Prop
  | bind {α β : Type} {f : StateT System (Except Fault) α} {g : α → StateT System (Except Fault) β} :
      Operation f → (∀ a, Operation (g a)) → Operation (f >>= g)
  /-- Whatever leaves the table steady and the lock alone. -/
  | calm {α : Type} {f : StateT System (Except Fault) α} :
      (∀ s a s', f s = .ok (a, s') →
        s.store.table.Steady s'.store.table ∧ s'.collector.locked = s.collector.locked) → Operation f
  | intern (span : Span) (lasting : Bool) (blob : BlobId) :
      Operation (onSystem (System.onStore (·.internSpan span lasting blob)))
  | initBuiltins (names : List String) : Operation (onSystem (System.onStore (·.initBuiltins names)))
  | lockAtoms : Operation (onSystem fun s => .ok ((), s.onTable .lockAtoms))
  | request : Operation (onSystem fun s => .ok (s.store.table.requestCollection.1, s.onTable (·.requestCollection.2)))
  | collect (thread : ThreadId) (onlyIfNeeded : Bool) : Operation (onSystem (·.collect thread onlyIfNeeded))
  | maybeCollect (thread : ThreadId) : Operation (onSystem (·.maybeCollect thread))
  | collectFrom {readRoots : MutatorId → StateT System (Except Fault) (List Atom)} (id : MutatorId)
      (onlyIfNeeded : Bool) : Operation (readRoots id) → Operation (System.collectFrom readRoots id onlyIfNeeded)

theorem Operation.leads {α : Type} {f : StateT System (Except Fault) α} (hf : Operation f) {a : α}
    (hl : Latched p) (h : f p.system = .ok (a, s)) : Leads (· = p.owing) p { p with system := s } := by
  induction hf generalizing p s with
  | bind _ _ ih ih' =>
    obtain ⟨b, s₁, hf, hg⟩ := state_bind_eq_ok_iff.1 h
    have hled := ih hl hf
    exact hled.trans (ih' b (hled.latched hl) hg)
  | calm hcalm =>
    obtain ⟨hsteady, hlocked⟩ := hcalm _ _ _ h
    exact (Leads.refl _ p).other hsteady hlocked
  | intern span lasting blob =>
    obtain ⟨⟨r, store⟩, hintern, h⟩ := bind_eq_ok_iff.1 h
    cases h
    exact internSpan_leads hintern
  | initBuiltins names =>
    obtain ⟨⟨r, store⟩, hinit, h⟩ := bind_eq_ok_iff.1 h
    cases h
    exact initBuiltins_leads hinit
  | lockAtoms =>
    cases h
    refine (Leads.refl _ p).step .lockAtoms fun owing hmem => ?_
    cases List.mem_singleton.1 hmem
    rfl
  | request =>
    cases h
    exact (Leads.refl _ p).step .request nofun
  | collect thread onlyIfNeeded => exact collect_leads hl h
  | maybeCollect thread =>
    have h : p.system.maybeCollect thread = .ok (_, s) := h
    unfold System.maybeCollect at h
    split at h
    · exact collect_leads hl h
    · cases h
      exact .refl _ p
  | collectFrom id onlyIfNeeded _ ih =>
    obtain ⟨m, -, htry | ⟨s₁, atoms, s₂, htry, hroots, h⟩⟩ := System.collectFrom_cases h
    · exact tryBegin_leads hl htry
    · obtain ⟨hfree, hbegun⟩ := @tryBegin_leads (· = p.owing) _ _ hl _ _ _ _ htry
      have hread := hbegun.trans (@ih { p with system := s₁, turn := .begun } _ _ (hbegun.latched hl) hroots)
      have hdone := hread.trans (complete_leads rfl h)
      rw [← hfree] at hdone
      exact hdone

namespace Operation

variable {readRoots : MutatorId → StateT System (Except Fault) (List Atom)} {id : MutatorId}

theorem pure {α : Type} (a : α) : Operation (pure a) := by
  refine .calm fun s _ s' h => ?_
  cases h
  exact ⟨.refl _, rfl⟩

theorem answer (hroots : Operation (readRoots id)) : Operation (System.answer readRoots id) := by
  refine .bind (.calm fun s due s' h => ?_) fun due => ?_
  · obtain ⟨m, -, h⟩ := bind_eq_ok_iff.1 h
    split at h <;> cases h <;> exact ⟨.refl _, rfl⟩
  · cases due with
    | none => exact .pure ()
    | some epoch =>
      refine .bind hroots fun atoms => .calm fun s _ s' h => ?_
      cases h
      exact ⟨.refl _, rfl⟩

/-- A safe point is an operation if reading roots is one. -/
theorem safePoint (hroots : Operation (readRoots id)) : Operation (System.safePoint readRoots id) := by
  refine .bind (.answer hroots) fun _ => .bind (.calm fun s leaves s' h => ?_) fun leaves => ?_
  · cases h
    exact ⟨.refl _, rfl⟩
  · split
    · have hcollect : Operation (System.collectFrom readRoots id true >>= fun _ => Pure.pure ()) :=
        .bind (.collectFrom id true hroots) fun _ => .pure ()
      exact hcollect
    · exact .pure ()

theorem internFrom (hroots : Operation (readRoots id)) (span : Span) (blob : BlobId) :
    Operation (System.internFrom readRoots id span blob) := .bind (.safePoint hroots) fun _ => .intern span false blob

end Operation

/-! ## The pressure is kept -/

/-- With collection switched on: in every interleaving, at rest a cycle that is due is requested; whoever asks
for a cycle is told that none was requested just if nobody asked since the request was last cleared; and the
maker of an atom asks only for one that took the live atoms over those left by more than the margin, so that
more atoms than the margin were made since cycles or locking last settled who is left, unless they did while
some maker was about to ask. And operations are such runs, on which they never do that. -/
theorem pressure_kept (heap : Heap) {config : Config} (hagc : config.agcEnabled = true) :
    (∀ notes p, Run (empty heap config) notes p →
      (p.Resting → p.table.shouldCollect = .ok true → p.system.isRequested = true) ∧
      (∀ since maker answer before, notes = since ++ .asked maker answer :: before →
        (answer = true ↔ askedSince before = false) ∧
          ∀ a, maker = some a → MadeOver (empty heap config) config.agcMargin.toNat a before ∧
            (Undisturbed before → config.agcMargin.toNat < madeSince before))) ∧
      ∀ (α : Type) (f : StateT System (Except Fault) α) (a : α) (s : System), Operation f →
        f (.empty heap config) = .ok (a, s) →
          ∃ notes, Run (empty heap config) notes { system := s } ∧ Undisturbed notes := by
  refine ⟨fun notes p hrun => ⟨fun hrest hdue => ?_, fun since maker answer before heq => ?_⟩, ?_⟩
  · have hkept := hrun.kept hagc
    have hover := (Table.shouldCollect_of_enabled hkept.enabled hdue).1 rfl
    rw [hkept.limit] at hover
    rcases hkept.alert hover with hasked | howes | hcleared | hbegun
    · exact hasked
    · exact absurd hrest.owing howes
    · rcases hrest.turn with hturn | hturn <;> rw [hturn] at hcleared <;> cases hcleared
    · rcases hrest.turn with hturn | hturn <;> rw [hturn] at hbegun <;> cases hbegun
  · obtain ⟨q, q', hbefore, hstep⟩ := hrun.at_note heq
    have hkept := hbefore.kept hagc
    have hanswer : q.table.requestCollection.1 = true ↔ askedSince before = false := by
      rw [Table.requestCollection_of_enabled hkept.enabled, hkept.requested]
      cases askedSince before <;> simp
    cases hstep with
    | @heed a ha =>
      refine ⟨hanswer, ?_⟩
      rintro _ ⟨⟩
      exact ⟨hbefore.owing hagc ha, fun hquiet => hkept.early hquiet (List.ne_nil_of_mem ha)⟩
    | request => exact ⟨hanswer, nofun⟩
  · intro α f a s hf h
    have hlatched : Latched (empty heap config) := iff_of_true rfl rfl
    obtain ⟨notes, hrun, hsettled⟩ := hf.leads hlatched h
    exact ⟨notes, hrun, hsettled⟩

/-- One atom is too many with no margin: its maker asks first, then somebody else in vain. -/
theorem pressure_kept_one_over :
    ∃ p, Run (empty (.empty ⟨32, 64, 2⟩ fun _ _ => true) { atomBuckets := 1, agcMargin := 0 })
        [.asked none false, .asked (some ⟨0, 0⟩) true, .made ⟨0, 0⟩] p ∧
      p.Resting ∧ p.table.shouldCollect = .ok true ∧ p.system.isRequested = true ∧
      askedSince [.made ⟨0, 0⟩] = false ∧ askedSince [.asked (some ⟨0, 0⟩) true, .made ⟨0, 0⟩] = true ∧
      Undisturbed [.made ⟨0, 0⟩] ∧ 0 < madeSince [.made ⟨0, 0⟩] := by
  have hkept := @pressure_kept (.empty ⟨32, 64, 2⟩ fun _ _ => true) { atomBuckets := 1, agcMargin := 0 } rfl
  have none := @Run.start (empty (.empty ⟨32, 64, 2⟩ fun _ _ => true) { atomBuckets := 1, agcMargin := 0 })
  have made := none.make { bytes := [97] } false BlobId.text
    (Store.internLocked_of_insert rfl rfl rfl rfl (Table.insert_of_no_holes rfl rfl rfl rfl rfl) rfl) rfl
  have asked := (made.step (.heed (.head _))).step .request
  obtain ⟨hdue, hasked⟩ := hkept.1 _ _ asked
  have hquiet : Undisturbed [.made ⟨0, 0⟩] := by simp [Undisturbed]
  refine ⟨_, asked, ⟨.inl rfl, rfl⟩, rfl, hdue ⟨.inl rfl, rfl⟩ rfl, ?_, ?_, hquiet, ?_⟩
  · exact (hasked [_] _ _ _ rfl).1.1 rfl
  · exact eq_true_of_ne_false fun hnone => nomatch (hasked [] _ _ _ rfl).1.2 hnone
  · exact ((hasked [_] _ _ _ rfl).2 _ rfl).2 hquiet

end AtomHeap.Pressure
