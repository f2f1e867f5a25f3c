import AtomHeap.Proofs.Cycle.Outcomes
import Mathlib
/-!
# Figures agree with what happened

What the library does to a system is made of the steps of `Tally.Step`, in the order in which they stand there, with
what each call for a cycle was told (`Performs.leads`). So the figures of a system agree with what calls were told,
with the atoms that were made and with those that became stale, in every interleaving of steps and after any
operations, nested ones included (`figures_agree`).
-/

namespace AtomHeap.Tally

open World (Event madeIn destroyedIn sinceBegan Spares)

variable {t t' t'' : Tally} {trace events : List Event} {outcomes came told : List Outcome} {outcome : Outcome}
  {heap : Heap} {config : Config} {w w' w'' : World} {s s' s₁ s₂ : System} {thread : ThreadId}
  {initiator : Option MutatorId} {onlyIfNeeded : Bool} {id : MutatorId} {atoms : List Atom}

/-! ## Steps one after the other -/

/-- Any number of steps that count nothing, sweep nothing and end no cycle. -/
abbrev Neutrally : World → World → Prop := Relation.ReflTransGen fun w w' => ∃ events, Neutral w events w'

theorem Neutrally.noting (h : Neutrally w w') (hstep : World.Step (fun _ => True) w' events w'')
    (hfigures : w''.system.collector.figures = w'.system.collector.figures) (hspares : Spares events)
    (hbusy : w'.stage.isBusy = true → w''.stage.isBusy = true) : Neutrally w w'' :=
  h.tail ⟨events, hstep, hfigures, hspares, hbusy⟩

theorem Neutrally.quiet (h : Neutrally w w') (hstep : World.Step (fun _ => True) w' [] w'')
    (hfigures : w''.system.collector.figures = w'.system.collector.figures)
    (hbusy : w'.stage.isBusy = true → w''.stage.isBusy = true) : Neutrally w w'' :=
  h.noting hstep hfigures nofun hbusy

/-- The collector shows something else, but for its figures. -/
theorem Neutrally.enter (h : Neutrally w w') (phase : Phase) :
    Neutrally w { w' with system := w'.system.onCollector (·.enter phase) } :=
  h.quiet (.display w'.system.monitor rfl) rfl id

/-- Some run leads from the one to the other, on which calls for cycles were told these outcomes. -/
def Leads (t : Tally) (told : List Outcome) (t' : Tally) : Prop := ∃ trace, Run t trace told t'

namespace Leads

theorem refl (t : Tally) : Leads t [] t := ⟨[], .start⟩

theorem step (h : Leads t told t') (hstep : Step t' events came t'') : Leads t (came ++ told) t'' := by
  obtain ⟨trace, h⟩ := h
  exact ⟨_, h.step hstep⟩

theorem trans (h : Leads t told t') (h' : Leads t' came t'') : Leads t (came ++ told) t'' := by
  obtain ⟨trace, h⟩ := h
  obtain ⟨trace', h'⟩ := h'
  exact ⟨_, h.trans h'⟩

theorem neutrally (h : Leads t told t') (hw : Neutrally t'.world w) : Leads t told { t' with world := w } := by
  induction hw with
  | refl => exact h
  | tail _ hneutral ih =>
    obtain ⟨events, hneutral⟩ := hneutral
    exact ih.step (.other hneutral)

theorem of_neutrally (hw : Neutrally t.world w) (h : Leads { t with world := w } told t') : Leads t told t' := by
  have hled := ((refl t).neutrally hw).trans h
  rwa [List.append_nil] at hled

theorem latched (h : Leads t told t') (hl : t.world.Latched) : t'.world.Latched := by
  obtain ⟨trace, h⟩ := h
  exact World.Leads.latched hl ⟨_, h.world⟩

end Leads

/-! ## Calls for cycles -/

/-- A call that begins no cycle. What it is told is counted if it was put off. -/
theorem refused_leads (hl : t.world.Latched)
    (h : t.world.system.tryBegin thread initiator onlyIfNeeded = .ok (some outcome, s)) :
    ∃ who, (t.world.stage ≠ .idle → who = t.world.initiator) ∧
      Leads t [outcome] { t with world := { t.world with system := s, initiator := who } } := by
  cases System.tryBegin_cases h with
  | off _ => exact ⟨t.world.initiator, fun _ => rfl, (Leads.refl t).step .unneeded⟩
  | refused _ _ =>
    refine ⟨t.world.initiator, fun _ => rfl, ?_⟩
    have hcounted := (Leads.refl t).step .putOff
    have hasked := hcounted.neutrally (Neutrally.noting .refl (.call .requestCollection) rfl nofun id)
    exact hasked.step (.comeBack rfl)
  | undue hadmits _ _ =>
    have hidle := hl.1 hadmits.unlocked
    refine ⟨initiator, fun hbusy => absurd hidle hbusy, ?_⟩
    have hlocked := Neutrally.quiet .refl (.lock initiator hidle hadmits.unlocked hadmits.enabled) rfl fun _ => rfl
    have hcleared := hlocked.quiet (.clearRequest rfl) rfl fun _ => rfl
    have hdeclined := ((Leads.refl t).neutrally hcleared).step (.decline rfl)
    rw [← hidle] at hdeclined
    exact hdeclined

/-- A call that begins a cycle. -/
theorem begun_neutrally (hl : w.Latched) (h : w.system.tryBegin thread initiator onlyIfNeeded = .ok (none, s)) :
    w.stage = .idle ∧ Neutrally w { w with system := s, stage := .asked [], initiator } := by
  cases System.tryBegin_cases h with
  | begun hadmits _ =>
    have hidle := hl.1 hadmits.unlocked
    have hlocked := Neutrally.quiet .refl (.lock initiator hidle hadmits.unlocked hadmits.enabled) rfl fun _ => rfl
    have hentered := (hlocked.quiet (.clearRequest rfl) rfl fun _ => rfl).enter .marking
    have hbegun := hentered.noting (.begin rfl) rfl (by simp [Spares]) fun _ => rfl
    have hpublished := (hbegun.quiet (.number rfl) rfl fun _ => rfl).quiet (.publish rfl) rfl fun _ => rfl
    exact ⟨hidle, hpublished.noting (.snapshot rfl) rfl (by simp [Spares]) fun _ => rfl⟩

theorem receives_neutral (h : World.Receives w w') : ∃ events, Neutral w events w' := by
  obtain ⟨hstage, hpending, r, collector, htake, rfl⟩ := h
  refine ⟨_, .receive hstage hpending htake, ?_, ?_, id⟩
  · obtain ⟨-, pending, hreceived⟩ := World.receive_frame { w.system with collector } r
    dsimp only
    rw [hreceived, (World.takeReport?_eq htake).2]
    rfl
  · intro epoch atoms hmem
    split at hmem <;> cases List.mem_singleton.1 hmem

theorem readsOwn_neutral (h : World.ReadsOwn w w') : ∃ events, Neutral w events w' := by
  obtain ⟨atoms, id, a, hstage, hinitiator, rfl⟩ := h
  exact ⟨_, .readOwn a hstage hinitiator, rfl, nofun, fun _ => rfl⟩

/-- The roots of whoever runs the cycle are marked, and all reports are taken. -/
theorem awaited_neutrally (hstage : w.stage = .asked []) (own : Option (MutatorId × List Atom))
    (hown : own.map (·.1) = w.initiator) :
    ∃ s₁, w.system.complete own = s₁.conclude ∧ Neutrally w { w with system := s₁, stage := .awaiting } := by
  have hreceived (s : System) : Neutrally { w with system := s, stage := .awaiting }
      { w with system := s.awaitReports s.collector.reports, stage := .awaiting } :=
    Relation.ReflTransGen.mono (fun _ _ => receives_neutral) _ _
      (World.awaitReports_receives (w := { w with system := s, stage := .awaiting }) rfl rfl)
  cases own with
  | none =>
    have hmarked := Neutrally.quiet .refl (.markNone hstage hown.symm) rfl fun _ => rfl
    exact ⟨_, rfl, hmarked.trans (hreceived w.system)⟩
  | some own =>
    obtain ⟨id, atoms⟩ := own
    have hread : Neutrally w { w with stage := .asked ([] ++ atoms) } :=
      Relation.ReflTransGen.mono (fun _ _ => readsOwn_neutral) _ _ (World.asked_readsOwn atoms hstage hown.symm)
    have hmarked := hread.noting (.markOwn rfl hown.symm) rfl (by simp [Spares]) fun _ => rfl
    exact ⟨_, rfl, hmarked.trans (hreceived _)⟩

theorem swept_leads {n : Nat} (hstage : t.world.stage = .awaiting) (hpending : t.world.pending = [])
    (hundecided : t.verdict = .undecided) (h : t.world.system.sweep = .ok (n, s)) :
    Leads t [.collected n] { t with world := { t.world with system := s.rest, stage := .idle } } := by
  obtain ⟨swept, store, htable, hstore, rfl⟩ := System.sweep_inv h
  have hfinished := (Neutrally.quiet .refl (.finish hstage hpending) rfl fun _ => rfl).enter .sweeping
  have hcounted := (((Leads.refl t).neutrally hfinished).step (.sweep rfl htable hstore)).step (.count rfl)
  have hrested := (hcounted.neutrally (Neutrally.enter .refl .idle)).step (.rest rfl rfl)
  rw [← hundecided] at hrested
  exact hrested

theorem givenUp_leads (hstage : t.world.stage = .awaiting) (hpending : t.world.pending ≠ [])
    (hundecided : t.verdict = .undecided) :
    Leads t [.deferred] { t with world := { t.world with system := t.world.system.giveUp.rest, stage := .idle } } := by
  have hleft := Neutrally.quiet .refl (.timeOut hstage hpending) rfl fun _ => rfl
  have haborted := hleft.quiet (.abort rfl) rfl fun _ => rfl
  have hcounted := ((Leads.refl t).neutrally haborted).step (.giveUp rfl hundecided)
  have hpostponed := hcounted.neutrally (Neutrally.quiet .refl (.postpone rfl) rfl fun _ => rfl)
  have hrested := (hpostponed.neutrally (Neutrally.enter .refl .idle)).step (.rest rfl rfl)
  rw [← hundecided] at hrested
  exact hrested

/-- A cycle that began goes on to one of its ends. -/
theorem complete_leads (hstage : t.world.stage = .asked []) (hundecided : t.verdict = .undecided)
    {own : Option (MutatorId × List Atom)} (hown : own.map (·.1) = t.world.initiator)
    (h : t.world.system.complete own = .ok (outcome, s)) :
    Leads t [outcome] { t with world := { t.world with system := s, stage := .idle } } := by
  obtain ⟨s₁, heq, hawaited⟩ := awaited_neutrally hstage own hown
  rw [heq] at h
  have hawaited := (Leads.refl t).neutrally hawaited
  rcases System.conclude_cases h with ⟨hpending, n, s₂, hsweep, rfl, rfl⟩ | ⟨hpending, rfl, rfl⟩
  · exact hawaited.trans (swept_leads rfl hpending hundecided hsweep)
  · exact hawaited.trans (givenUp_leads rfl hpending hundecided)

/-! ## Operations -/

/-- Running an operation from a system gives an answer and another system, and calls for cycles were told these
outcomes on the way, the latest first. Reading the roots of a mutator may be any operation. -/
inductive Performs : {α : Type} → StateT System (Except Fault) α → System → List Outcome → α → System → Prop
  | bind {α β : Type} {f : StateT System (Except Fault) α} {g : α → StateT System (Except Fault) β}
      {s s₁ s' : System} {told came : List Outcome} {a : α} {b : β} :
      Performs f s told a s₁ → Performs (g a) s₁ came b s' → Performs (f >>= g) s (came ++ told) b s'
  /-- Whatever is made of steps that are none of a cycle. -/
  | neutral {α : Type} {f : StateT System (Except Fault) α} {s s' : System} {a : α} : f s = .ok (a, s') →
      (∀ w : World, w.system = s → Neutrally w { w with system := s' }) → Performs f s [] a s'
  /-- A mutator answers a cycle. -/
  | answer {readRoots : MutatorId → StateT System (Except Fault) (List Atom)} {id : MutatorId}
      {s s₁ s₂ : System} {epoch : Nat} {told : List Outcome} {atoms : List Atom} :
      s.observe id = .ok (some epoch, s₁) → Performs (readRoots id) s₁ told atoms s₂ →
      Performs (System.answer readRoots id) s told () (s₂.send ⟨id, epoch, atoms⟩)
  | collect {thread : ThreadId} {onlyIfNeeded : Bool} {s s' : System} {outcome : Outcome} :
      s.collect thread onlyIfNeeded = .ok (outcome, s') →
      Performs (onSystem (·.collect thread onlyIfNeeded)) s [outcome] outcome s'
  | maybeCollect {thread : ThreadId} {s s' : System} {outcome : Outcome} :
      s.maybeCollect thread = .ok (outcome, s') →
      Performs (onSystem (·.maybeCollect thread)) s [outcome] outcome s'
  | refused {readRoots : MutatorId → StateT System (Except Fault) (List Atom)} {id : MutatorId} {onlyIfNeeded : Bool}
      {s s' : System} {m : Mutator} {outcome : Outcome} : s.mutator id = .ok m →
      s.tryBegin m.thread (some id) onlyIfNeeded = .ok (some outcome, s') →
      Performs (System.collectFrom readRoots id onlyIfNeeded) s [outcome] outcome s'
  | begun {readRoots : MutatorId → StateT System (Except Fault) (List Atom)} {id : MutatorId} {onlyIfNeeded : Bool}
      {s s₁ s₂ s' : System} {m : Mutator} {told : List Outcome} {atoms : List Atom} {outcome : Outcome} :
      s.mutator id = .ok m → s.tryBegin m.thread (some id) onlyIfNeeded = .ok (none, s₁) →
      Performs (readRoots id) s₁ told atoms s₂ → s₂.complete (some (id, atoms)) = .ok (outcome, s') →
      Performs (System.collectFrom readRoots id onlyIfNeeded) s (outcome :: told) outcome s'

theorem calls_neutrally {store : Store} (h : Store.Calls (fun _ => True) w.system.store store) :
    Neutrally w { w with system := { w.system with store } } := by
  induction h with
  | refl => exact .refl
  | tail _ hcall ih =>
    obtain ⟨events, hcall⟩ := hcall
    exact ih.noting (.call hcall) rfl (World.spares_store events) id

namespace Performs

variable {α β : Type} {f : StateT System (Except Fault) α} {g : StateT System (Except Fault) β} {a : α} {b : β}
  {store : Store}

theorem next (h : Performs f s told a s₁) (h' : Performs g s₁ came b s') :
    Performs (f >>= fun _ => g) s (came ++ told) b s' := h.bind h'

theorem pure (a : α) (s : System) : Performs (pure a : StateT System (Except Fault) α) s [] a s := by
  refine .neutral rfl fun w hw => ?_
  subst hw
  exact .refl

theorem attach (s : System) (thread : ThreadId) :
    Performs (onSystem fun s => .ok (s.attach thread)) s [] (s.attach thread).1 (s.attach thread).2 := by
  refine .neutral rfl fun w hw => ?_
  subst hw
  exact .quiet .refl (.attach thread) rfl id

/-- What callers do is performed, and no call for a cycle is made. -/
theorem onStore {f : Store → Except Fault (α × Store)} (h : f s.store = .ok (a, store))
    (hcalls : Store.Calls (fun _ => True) s.store store) :
    Performs (onSystem (System.onStore f)) s [] a { s with store } := by
  refine .neutral (System.onStore_of_ok h) fun w hw => ?_
  subst hw
  exact calls_neutrally hcalls

theorem intern {span : Span} {lasting : Bool} {blob : BlobId} {r : Except AtomError Interned}
    (h : s.store.internSpan span lasting blob = .ok (r, store)) :
    Performs (onSystem (System.onStore (·.internSpan span lasting blob))) s [] r { s with store } :=
  .onStore h (Store.internSpan_calls (fun _ => trivial) trivial h)

/-- Performing an operation is running it. -/
theorem run (h : Performs f s told a s') : f s = .ok (a, s') := by
  induction h with
  | bind _ _ ih ih' => exact state_bind_eq_ok_iff.2 ⟨_, _, ih, ih'⟩
  | neutral hrun _ => exact hrun
  | answer hobserve _ ih => exact state_bind_eq_ok_iff.2 ⟨_, _, hobserve, state_bind_eq_ok_iff.2 ⟨_, _, ih, rfl⟩⟩
  | collect h | maybeCollect h => exact h
  | refused hm htry => exact state_bind_eq_ok_iff.2 ⟨_, _, bind_eq_ok_iff.2 ⟨_, hm, htry⟩, rfl⟩
  | begun hm htry _ hcomplete ih =>
    exact state_bind_eq_ok_iff.2 ⟨_, _, bind_eq_ok_iff.2 ⟨_, hm, htry⟩, state_bind_eq_ok_iff.2 ⟨_, _, ih, hcomplete⟩⟩

end Performs

/-! ## Operations are runs -/

theorem observe_neutrally {epoch : Nat} (h : w.system.observe id = .ok (some epoch, s)) :
    Neutrally w { w with system := s, visits := .reading ⟨id, epoch, []⟩ :: w.visits } := by
  obtain ⟨m, hm, hdue, rfl⟩ := System.observe_some h
  have hlooked := Neutrally.quiet .refl (.look hm hdue) rfl fun hbusy => hbusy
  have hnoted := hlooked.quiet (.note List.mem_cons_self) rfl fun hbusy => hbusy
  rwa [List.erase_cons_head] at hnoted

theorem report_neutrally {r : Report} {visits : List World.Visit} (atoms : List Atom)
    (hvisits : w.visits = .reading r :: visits) :
    Neutrally w { w with system := w.system.send { r with atoms := r.atoms ++ atoms }, visits } := by
  induction atoms generalizing w r with
  | nil =>
    have hsent := Neutrally.quiet .refl (.send (hvisits ▸ List.mem_cons_self)) rfl id
    rw [hvisits, List.erase_cons_head] at hsent
    rwa [List.append_nil]
  | cons a atoms ih =>
    have hread := Neutrally.quiet .refl (.read a (hvisits ▸ List.mem_cons_self)) rfl id
    rw [hvisits, List.erase_cons_head] at hread
    have hsent := hread.trans (ih rfl)
    rw [List.append_assoc] at hsent
    exact hsent

/-- Whoever leaves calls for no cycle. -/
theorem detach_neutrally (h : w.system.detach id = .ok s) : Neutrally w { w with system := s } := by
  obtain ⟨m, hm, h⟩ := bind_eq_ok_iff.1 h
  obtain rfl := System.id_of_mutator hm
  have hgone := Neutrally.quiet .refl (.leave hm) rfl fun hbusy => hbusy
  have hsent : Neutrally w { w with system := (w.system.onCollector (·.deregister m.id)).sendLast m } := by
    unfold System.sendLast
    split
    · rename_i hdue
      have hparting := hgone.quiet (.part List.mem_cons_self hdue) rfl fun hbusy => hbusy
      have hreported := hparting.quiet (.sendLast List.mem_cons_self) rfl fun hbusy => hbusy
      rwa [List.erase_cons_head, List.erase_cons_head] at hreported
    · rename_i hdue
      have hunasked := hgone.quiet (.partUnasked List.mem_cons_self hdue) rfl fun hbusy => hbusy
      rwa [List.erase_cons_head] at hunasked
  exact hsent.quiet (.close h) (congrArg (·.figures) (World.closeMutator_eq h).2) fun hbusy => hbusy

theorem collect_leads (hl : t.world.Latched) (hundecided : t.world.stage = .idle → t.verdict = .undecided)
    (h : t.world.system.collect thread onlyIfNeeded = .ok (outcome, s)) :
    ∃ who, (t.world.stage ≠ .idle → who = t.world.initiator) ∧
      Leads t [outcome] { t with world := { t.world with system := s, initiator := who } } := by
  rcases System.collect_cases h with htry | ⟨s₁, htry, h⟩
  · exact refused_leads hl htry
  · obtain ⟨hidle, hbegun⟩ := begun_neutrally hl htry
    refine ⟨none, fun hbusy => absurd hidle hbusy, ?_⟩
    have hdone := Leads.of_neutrally hbegun (complete_leads rfl (hundecided hidle) rfl h)
    rw [← hidle] at hdone
    exact hdone

/-- Operations are runs, on which calls for cycles are told just what they came to. -/
theorem Performs.leads {α : Type} {f : StateT System (Except Fault) α} {a : α} (h : Performs f s told a s')
    (hsystem : t.world.system = s) (hl : t.world.Latched)
    (hundecided : t.world.stage = .idle → t.verdict = .undecided) :
    ∃ who, (t.world.stage ≠ .idle → who = t.world.initiator) ∧
      Leads t told { t with world := { t.world with system := s', initiator := who } } := by
  induction h generalizing t with
  | bind _ _ ih ih' =>
    obtain ⟨who, hwho, hfirst⟩ := ih hsystem hl hundecided
    obtain ⟨who', hwho', hsecond⟩ := ih' rfl (hfirst.latched hl) hundecided
    exact ⟨who', fun hbusy => (hwho' hbusy).trans (hwho hbusy), hfirst.trans hsecond⟩
  | neutral _ hneutrally => exact ⟨t.world.initiator, fun _ => rfl, (Leads.refl t).neutrally (hneutrally _ hsystem)⟩
  | @answer _ id s s₁ s₂ epoch told atoms hobserve _ ih =>
    subst hsystem
    have hobserved := observe_neutrally hobserve
    obtain ⟨who, hwho, hread⟩ := ih rfl (((Leads.refl t).neutrally hobserved).latched hl) hundecided
    have hreported := (Leads.of_neutrally hobserved hread).neutrally (report_neutrally atoms rfl)
    exact ⟨who, hwho, hreported⟩
  | collect h =>
    subst hsystem
    exact collect_leads hl hundecided h
  | @maybeCollect thread s s' outcome h =>
    subst hsystem
    unfold System.maybeCollect at h
    split at h
    · exact collect_leads hl hundecided h
    · cases h
      exact ⟨t.world.initiator, fun _ => rfl, (Leads.refl t).step .unneeded⟩
  | refused _ htry =>
    subst hsystem
    exact refused_leads hl htry
  | @begun _ id _ s s₁ s₂ s' _ told atoms outcome _ htry _ hcomplete ih =>
    subst hsystem
    obtain ⟨hidle, hbegun⟩ := begun_neutrally hl htry
    obtain ⟨who, hwho, hread⟩ := ih rfl (((Leads.refl t).neutrally hbegun).latched hl) nofun
    obtain rfl : who = some id := hwho nofun
    refine ⟨some id, fun hbusy => absurd hidle hbusy, ?_⟩
    have hdone := (Leads.of_neutrally hbegun hread).trans (complete_leads rfl (hundecided hidle) rfl hcomplete)
    rw [← hidle] at hdone
    exact hdone

/-! ## Operations that can be performed -/

/-- Wherever it can be run, an operation can be performed. -/
def Performable {α : Type} (f : StateT System (Except Fault) α) : Prop :=
  ∀ s a s', f s = .ok (a, s') → ∃ told, Performs f s told a s'

namespace Performable

variable {α β : Type} {f : StateT System (Except Fault) α} {g : α → StateT System (Except Fault) β}
  {readRoots : MutatorId → StateT System (Except Fault) (List Atom)}

theorem bind (hf : Performable f) (hg : ∀ a, Performable (g a)) : Performable (f >>= g) := by
  intro s b s' h
  obtain ⟨a, s₁, h, h'⟩ := state_bind_eq_ok_iff.1 h
  obtain ⟨told, hf⟩ := hf _ _ _ h
  obtain ⟨came, hg⟩ := hg a _ _ _ h'
  exact ⟨_, .bind hf hg⟩

theorem neutral (h : ∀ (w : World) a s', f w.system = .ok (a, s') → Neutrally w { w with system := s' }) :
    Performable f := fun _ a s' hrun => ⟨[], .neutral hrun fun w hw => h w a s' (hw ▸ hrun)⟩

theorem pure (a : α) : Performable (pure a) := by
  rintro s _ _ ⟨⟩
  exact ⟨[], .pure a s⟩

theorem attach (thread : ThreadId) : Performable (onSystem fun s => .ok (s.attach thread)) := by
  rintro s _ _ ⟨⟩
  exact ⟨[], .attach s thread⟩

theorem detach (id : MutatorId) : Performable (onSystem fun s => do return ((), ← s.detach id)) := by
  refine .neutral fun w _ s' h => ?_
  obtain ⟨s₁, hdetach, h⟩ := bind_eq_ok_iff.1 h
  cases h
  exact detach_neutrally hdetach

theorem onStore {f : Store → Except Fault (α × Store)}
    (h : ∀ s a s', f s = .ok (a, s') → Store.Calls (fun _ => True) s s') :
    Performable (onSystem (System.onStore f)) := by
  intro s a s' hrun
  obtain ⟨⟨answer, store⟩, hstore, hrun⟩ := bind_eq_ok_iff.1 hrun
  cases hrun
  exact ⟨[], .onStore hstore (h _ _ _ hstore)⟩

theorem intern (span : Span) (lasting : Bool) (blob : BlobId) :
    Performable (onSystem (System.onStore (·.internSpan span lasting blob))) :=
  .onStore fun _ _ _ h => Store.internSpan_calls (fun _ => trivial) trivial h

theorem initBuiltins (names : List String) : Performable (onSystem (System.onStore (·.initBuiltins names))) :=
  .onStore fun _ _ _ h => Store.initBuiltins_calls (fun _ => trivial) h

theorem lookup (span : Span) (blob : BlobId) : Performable (onSystem (System.onStore (·.lookup span blob))) :=
  .onStore fun _ _ _ h => Store.Call.calls (.lookup trivial h)

theorem collect (thread : ThreadId) (onlyIfNeeded : Bool) :
    Performable (onSystem (·.collect thread onlyIfNeeded)) := fun _ outcome _ h => ⟨[outcome], .collect h⟩

theorem maybeCollect (thread : ThreadId) : Performable (onSystem (·.maybeCollect thread)) :=
  fun _ outcome _ h => ⟨[outcome], .maybeCollect h⟩

theorem collectFrom (hroots : Performable (readRoots id)) (onlyIfNeeded : Bool) :
    Performable (System.collectFrom readRoots id onlyIfNeeded) := by
  intro s outcome s' h
  obtain ⟨m, hm, htry | ⟨s₁, atoms, s₂, htry, hatoms, h⟩⟩ := System.collectFrom_cases h
  · exact ⟨_, .refused hm htry⟩
  · obtain ⟨told, hroots⟩ := hroots _ _ _ hatoms
    exact ⟨_, .begun hm htry hroots h⟩

theorem answer (hroots : Performable (readRoots id)) : Performable (System.answer readRoots id) := by
  intro s _ s' h
  rcases System.answer_cases h with hobserve | ⟨epoch, s₁, atoms, s₂, hobserve, hatoms, rfl⟩
  · refine ⟨[], .neutral h fun w hw => ?_⟩
    subst hw
    cases System.observe_none hobserve
    exact .refl
  · obtain ⟨told, hroots⟩ := hroots _ _ _ hatoms
    exact ⟨told, .answer hobserve hroots⟩

/-- A safe point can be performed if reading roots can, and so are the calls that it makes. -/
theorem safePoint (hroots : Performable (readRoots id)) : Performable (System.safePoint readRoots id) := by
  refine .bind (.answer hroots) fun _ => .bind (.neutral fun _ leaves _ h => ?_) fun leaves => ?_
  · cases h
    exact .refl
  · split
    · have hcollect : Performable (System.collectFrom readRoots id true >>= fun _ => Pure.pure ()) :=
        .bind (.collectFrom hroots true) fun _ => .pure ()
      exact hcollect
    · exact .pure ()

theorem internFrom (hroots : Performable (readRoots id)) (span : Span) (blob : BlobId) :
    Performable (System.internFrom readRoots id span blob) := .bind (.safePoint hroots) fun _ => .intern span false blob

theorem lookupFrom (hroots : Performable (readRoots id)) (span : Span) (blob : BlobId) :
    Performable (System.lookupFrom readRoots id span blob) := .bind (.safePoint hroots) fun _ => .lookup span blob

end Performable

/-! ## The figures agree -/

/-- What is shown of a system agrees with what happened, and with what calls for cycles were told. -/
structure Agrees (trace : List Event) (told : List Outcome) (m : Metrics) : Prop where
  collections : m.collections = (results told).length
  collected : m.collected = (results told).sum
  /-- The result of the latest, or 0 if there is none. -/
  collectedLast : m.collectedLast = (results told).headD 0
  deferred : m.deferred = told.count .deferred
  atoms : m.atoms + m.collected = madeIn trace

/-- A step, and who is told of a cycle that ends with it, are true to the atoms that it destroys. -/
structure Faithful (trace : List Event) (t : Tally) (events : List Event) (came : List Outcome) (t' : Tally) :
    Prop where
  /-- The atoms that are gone after a step are those that it is noted to have destroyed, each once. -/
  gone : t.table.gone t'.table = destroyedIn events
  /-- Where handles tell slots apart they are the ones that became stale. -/
  stale : t.table.slots.size ≤ UInt32.size → (destroyedIn events).Nodup ∧
    ∀ a, a ∈ destroyedIn events ↔ (∃ e, t.table.entry a = .ok e) ∧ t'.table.entry a = .error .stale
  /-- Whoever is told that a cycle collected is told how many were destroyed since it began. -/
  told : ∀ n, .collected n ∈ came → n = (destroyedIn (sinceBegan trace)).length

theorem Run.agrees (hc : config.check = .ok ()) (h : Run (.empty heap config) trace told t) (hresting : t.Resting) :
    Agrees trace told t.world.system.metrics := by
  have hkept := h.kept hc
  have hundecided : t.verdict = .undecided := hkept.undecided (by
    rcases hresting.stage with hstage | hstage <;> rw [hstage] <;> rfl)
  have hfigures : t.figures = .after told := by
    have hfigures := hkept.figures
    rw [due_append, hundecided, hresting.leaving] at hfigures
    exact hfigures
  have hlive := hkept.live
  rw [hundecided] at hlive
  exact ⟨congrArg (·.collections) hfigures, congrArg (·.collectedTotal) hfigures,
    congrArg (·.collectedLast) hfigures, congrArg (·.deferred) hfigures, hlive⟩

theorem Step.faithful (hc : config.check = .ok ()) (h : Run (.empty heap config) trace told t)
    (hstep : Step t events came t') : Faithful trace t events came t' := by
  have hs := h.sound hc
  have hgone : t.table.gone t'.table = destroyedIn events := by
    rcases hstep.world with hstep | ⟨rfl, heq⟩
    · exact hstep.destroys hs
    · unfold table
      rw [heq]
      exact (Table.Aged.of_eq rfl).gone
  have hsize : t.table.slots.size ≤ t'.table.slots.size := by
    rcases hstep.world with hstep | ⟨-, heq⟩
    · exact hs.size_changes (hstep.changes hs)
    · unfold table
      rw [heq]
  refine ⟨hgone, fun hfew => ?_, fun n hn => ?_⟩
  · rw [← hgone]
    exact ⟨Table.nodup_gone hfew, fun a => Table.mem_gone_iff_stale hfew hsize⟩
  · cases hstep with
    | rest _ hverdict =>
      obtain rfl := List.mem_singleton.1 hn
      exact (h.kept hc).result n (.inr hverdict)
    | comeBack _ | unneeded | decline _ => cases List.mem_singleton.1 hn
    | _ => cases hn

/-- In every interleaving of callers, mutators and cycles, with no call for a cycle on its way the figures agree
with what calls for cycles were told and with the atoms that were made. There are no more slots than those, so 32
bits tell slots apart as long as no more than `2 ^ 32` atoms were made. What calls were told is true to the atoms
that became stale in the cycle. And operations are such runs, those included that make calls on their own and while
roots are read, as safe points do. -/
theorem figures_agree (heap : Heap) {config : Config} (hc : config.check = .ok ()) :
    (∀ trace told t, Run (.empty heap config) trace told t →
      (t.Resting → Agrees trace told t.world.system.metrics) ∧ t.table.slots.size ≤ madeIn trace ∧
        ∀ events came t', Step t events came t' → Faithful trace t events came t') ∧
      (∀ (α : Type) (f : StateT System (Except Fault) α) (told : List Outcome) (a : α) (s : System),
        Performs f (.empty heap config) told a s →
          ∃ trace t, Run (.empty heap config) trace told t ∧ t.Resting ∧ t.world.system = s) ∧
      ∀ readRoots id, Performable (readRoots id) → Performable (System.safePoint readRoots id) := by
  refine ⟨fun trace told t hrun => ⟨hrun.agrees hc, World.Run.slots_le hc hrun.world, fun events came t' =>
    Step.faithful hc hrun⟩, ?_, fun _ _ => Performable.safePoint⟩
  intro α f told a s h
  have hlatched := World.latched_empty heap config
  obtain ⟨who, -, trace, hrun⟩ := Performs.leads (t := .empty heap config) h rfl hlatched fun _ => rfl
  exact ⟨trace, _, hrun, ⟨.inl rfl, rfl⟩, rfl⟩

/-- Two mutators are attached. While the roots of the first are read its thread calls for another cycle, and the
cycle is given up because the second does not report. It reports in the next cycle, which destroys the only atom. -/
theorem figures_agree_nested :
    ∃ trace t, Run (.empty (.empty ⟨32, 64, 2⟩ fun _ _ => true) { atomBuckets := 1 }) trace
        [.collected 1, .deferred, .deferred] t ∧ t.Resting ∧
      Agrees trace [.collected 1, .deferred, .deferred] t.world.system.metrics ∧ madeIn trace = 1 := by
  obtain ⟨hruns, hoperations, -⟩ := @figures_agree (.empty ⟨32, 64, 2⟩ fun _ _ => true) { atomBuckets := 1 } rfl
  have attached := (Performs.attach (.empty (.empty ⟨32, 64, 2⟩ fun _ _ => true) { atomBuckets := 1 }) 0).next
    (Performs.attach _ 1)
  have made := attached.next (@Performs.intern _ _ { bytes := [97] } false BlobId.text _ (by cbv))
  have dropped := made.next
    (.onStore (f := fun s => .ok (s.unregister ⟨0, 0⟩)) rfl (Store.Call.unregister ⟨0, 0⟩).calls)
  have givenUp := dropped.next (@Performs.begun (fun _ => onSystem (·.collect 0 false) >>= fun _ => pure []) 1 false
    _ _ _ _ _ _ _ _ rfl (by cbv) ((Performs.collect (by cbv)).next (.pure [] _)) (by cbv))
  have collected := givenUp.next (@Performs.begun (fun _ => System.answer (fun _ => pure []) 2 >>= fun _ => pure []) 1
    false _ _ _ _ _ _ _ _ rfl (by cbv) ((Performs.answer (by cbv) (.pure [] _)).next (.pure [] _)) (by cbv))
  obtain ⟨trace, t, hrun, hresting, hsystem⟩ := hoperations _ _ _ _ _ collected
  have hagrees := (hruns _ _ _ hrun).1 hresting
  refine ⟨trace, t, hrun, hresting, hagrees, ?_⟩
  rw [← hagrees.atoms, hsystem]
  rfl

end AtomHeap.Tally
