import AtomHeap.Proofs.Cycle.Operations
import AtomHeap.Proofs.Cycle.Soundness
/-!
# Root stacks and the sweep

What is on root stacks should outlive a cycle. But a cycle reads the stack of each mutator just once, at a
moment of its own, and nothing tells it when an atom then goes from a stack that is still to be read to one
that was read already, or when a mutator attaches after it was settled whom to ask. Such an atom can be lost:
the sweep destroys it while a mutator holds it (`handed_over_destroyed`). `stacked_destroyed` says which atoms on
stacks are safe: a sweep destroys only one that nothing else kept and that the cycle could not see there.
-/

namespace AtomHeap.World

variable {spans : Span → Prop} {w w' w₀ : World} {copies : List Report} {trace events : List Event}
  {config : Config} {heap : Heap} {r : Report} {id : MutatorId} {m : Mutator} {a : Atom}

/-! ## Who is attached -/

/-- A mutator is on the list of those attached. -/
def Attached (w : World) (id : MutatorId) : Prop := id ∈ w.system.collector.registered.map (·.1)

/-- A mutator was attached once and is no longer. -/
def Gone (w : World) (id : MutatorId) : Prop := id < w.system.collector.nextMutator ∧ ¬ w.Attached id

def Visit.leaver? : Visit → Option MutatorId
  | .leaving id _ | .parting id _ => some id
  | .saw _ _ | .reading _ => none

/-- Who is attached after a step was so before it, or is new. -/
theorem Step.attached (h : Step spans w events w') :
    w.system.collector.nextMutator ≤ w'.system.collector.nextMutator ∧
      ∀ id, w'.Attached id → w.Attached id ∨ id = w.system.collector.nextMutator := by
  -- Most steps leave the list as it is.
  have hsame : ∀ {w'' : World}, w''.system.collector.nextMutator = w.system.collector.nextMutator →
      w''.system.collector.registered = w.system.collector.registered →
      w.system.collector.nextMutator ≤ w''.system.collector.nextMutator ∧
        ∀ id, w''.Attached id → w.Attached id ∨ id = w.system.collector.nextMutator := by
    intro w'' hnext hregistered
    refine ⟨Nat.le_of_eq hnext.symm, fun id hid => .inl ?_⟩
    unfold Attached at hid ⊢
    rwa [hregistered] at hid
  cases h with
  | attach thread =>
    refine ⟨Nat.le_succ _, fun id hid => ?_⟩
    rcases List.mem_cons.1 hid with rfl | hid
    · exact .inr rfl
    · exact .inl hid
  | leave _ =>
    refine ⟨Nat.le_refl _, fun id hid => .inl ?_⟩
    obtain ⟨entry, hentry, rfl⟩ := List.mem_map.1 hid
    exact List.mem_map_of_mem (List.mem_of_mem_filter hentry)
  | close hclose =>
    obtain ⟨-, hcollector⟩ := closeMutator_eq hclose
    exact hsame (congrArg (·.nextMutator) hcollector) (congrArg (·.registered) hcollector)
  | @display collector _ hcore =>
    exact hsame (congrArg (·.nextMutator) hcore : collector.nextMutator = _)
      (congrArg (·.registered) hcore : collector.registered = _)
  | @receive r collector _ _ htake =>
    obtain ⟨-, pending, hreceived⟩ := receive_frame { w.system with collector } r
    obtain ⟨-, hcollector⟩ := takeReport?_eq htake
    exact hsame ((congrArg (·.nextMutator) hreceived).trans (congrArg (·.nextMutator) hcollector))
      ((congrArg (·.registered) hreceived).trans (congrArg (·.registered) hcollector))
  | _ => exact hsame rfl rfl

theorem Step.gone (h : Step spans w events w') (hgone : w.Gone id) : w'.Gone id := by
  obtain ⟨hnext, hattached⟩ := h.attached
  refine ⟨Nat.lt_of_lt_of_le hgone.1 hnext, fun hid => ?_⟩
  rcases hattached id hid with hid | rfl
  · exact hgone.2 hid
  · exact Nat.lt_irrefl _ hgone.1

/-! ## Where reports come from -/

/-- Whoever is still attached reported what a copy of its stack has. -/
structure Sourced (copies : List Report) (trace : List Event) (w : World) : Prop where
  mutators : ∀ m ∈ w.system.mutators, m.id < w.system.collector.nextMutator
  visits : ∀ v ∈ w.visits, ∀ id ∈ v.leaver?, w.Gone id
  reports : ∀ r ∈ w.system.collector.reports, Copied copies r ∨ w.Gone r.mutator
  rooted : ∀ r, Rooted trace r → Copied copies r ∨ w.Gone r.mutator

namespace Sourced

/-- A step adds no mutator, visit or report that a stack or a mutator that is gone does not account for. -/
theorem keep (h : Sourced copies trace w) (hstep : Step spans w events w')
    (hmutators : ∀ m' ∈ w'.system.mutators, (∃ m ∈ w.system.mutators, m'.id = m.id) ∨
      m'.id < w'.system.collector.nextMutator)
    (hvisits : ∀ v ∈ w'.visits, v ∈ w.visits ∨ ∀ id ∈ v.leaver?, w'.Gone id)
    (hreports : ∀ r ∈ w'.system.collector.reports,
      r ∈ w.system.collector.reports ∨ Copied copies r ∨ w'.Gone r.mutator)
    (hrooted : ∀ r, Rooted events r → r ∈ w.system.collector.reports ∨ Copied copies r) :
    Sourced copies (events ++ trace) w' where
  mutators m' hm' := by
    rcases hmutators m' hm' with ⟨m, hm, hid⟩ | hlt
    · exact hid ▸ Nat.lt_of_lt_of_le (h.mutators m hm) hstep.attached.1
    · exact hlt
  visits v hv id hid := by
    rcases hvisits v hv with hv | hgone
    · exact hstep.gone (h.visits v hv id hid)
    · exact hgone id hid
  reports r hr := by
    rcases hreports r hr with hr | hsource
    · exact (h.reports r hr).imp_right hstep.gone
    · exact hsource
  rooted r hr := by
    rcases hr.of_append with hr | hr
    · rcases hrooted r hr with hr | hr
      · exact (h.reports r hr).imp_right hstep.gone
      · exact .inl hr
    · exact (h.rooted r hr).imp_right hstep.gone

theorem copied (h : Sourced copies trace w) (c : Report) : Sourced (c :: copies) trace w where
  mutators := h.mutators
  visits := h.visits
  reports r hr := (h.reports r hr).imp_left (·.cons c)
  rooted r hr := (h.rooted r hr).imp_left (·.cons c)

theorem visited {v₀ : Visit} {rest : List Visit} (hrest : ∀ v ∈ rest, v ∈ w.visits)
    (hgone : ∀ id ∈ v₀.leaver?, w'.Gone id) :
    ∀ v ∈ v₀ :: rest, v ∈ w.visits ∨ ∀ id ∈ v.leaver?, w'.Gone id := by
  intro v hv
  rcases List.mem_cons.1 hv with rfl | hv
  · exact .inr hgone
  · exact .inl (hrest v hv)

/-- Whoever is on the list of mutators leaves it for good. -/
theorem left (h : Sourced copies trace w) (hm : w.system.mutator id = .ok m) :
    Gone { w with system := w.system.onCollector (·.deregister id) } id := by
  refine ⟨System.id_of_mutator hm ▸ h.mutators m (System.mem_of_mutator hm), fun hid => ?_⟩
  obtain ⟨entry, hentry, heq⟩ := List.mem_map.1 hid
  exact absurd heq (by simpa using (List.mem_filter.1 hentry).2)

theorem step (h : Sourced copies trace w) (hstep : Step spans w events w')
    (hcopied : ∀ r, Sends w r w' ∨ .initiated r ∈ events → Copied copies r) :
    Sourced copies (events ++ trace) w' := by
  have hkeep := h.keep hstep
  have hnone : ∀ r, Rooted [] r → r ∈ w.system.collector.reports ∨ Copied copies r := by
    rintro r (hr | hr) <;> cases hr
  have hsame : ∀ m' ∈ w.system.mutators, (∃ m ∈ w.system.mutators, m'.id = m.id) ∨
      m'.id < w'.system.collector.nextMutator := fun m' hm' => .inl ⟨m', hm', rfl⟩
  cases hstep with
  | call _ =>
    refine hkeep hsame (fun _ => .inl) (fun _ => .inl) ?_
    rintro r (hr | hr)
    all_goals
      obtain ⟨_, -, heq⟩ := List.mem_map.1 hr
      cases heq
  | attach thread =>
    refine hkeep (fun m' hm' => ?_) (fun _ => .inl) (fun _ => .inl) hnone
    rcases List.mem_append.1 hm' with hm' | hm'
    · exact .inl ⟨m', hm', rfl⟩
    · rw [List.mem_singleton.1 hm']
      exact .inr (Nat.lt_succ_self _)
  | setRoots id roots =>
    refine hkeep (fun m' hm' => ?_) (fun _ => .inl) (fun _ => .inl) hnone
    obtain ⟨m, hm, rfl⟩ := List.mem_map.1 hm'
    refine .inl ⟨m, hm, ?_⟩
    split <;> rfl
  | look _ _ =>
    exact hkeep hsame (visited (fun _ hv => hv) nofun) (fun _ => .inl) hnone
  | note _ =>
    refine hkeep (fun m' hm' => ?_) (visited (fun _ => List.mem_of_mem_erase) nofun) (fun _ => .inl) hnone
    obtain ⟨m, hm, rfl⟩ := List.mem_map.1 hm'
    refine .inl ⟨m, hm, ?_⟩
    split <;> rfl
  | read a _ => exact hkeep hsame (visited (fun _ => List.mem_of_mem_erase) nofun) (fun _ => .inl) hnone
  | @send r hv =>
    refine hkeep hsame (fun _ hv' => .inl (List.mem_of_mem_erase hv')) (fun r' hr' => ?_) hnone
    refine (List.mem_append.1 hr').imp_right fun hr' => .inl ?_
    rw [List.mem_singleton.1 hr']
    exact hcopied r (.inl ⟨hv, rfl⟩)
  | @leave id m hm =>
    refine hkeep hsame (visited (fun _ hv => hv) fun id' hid' => ?_) (fun _ => .inl) hnone
    cases hid'
    exact h.left hm
  | @part id lastEpoch epoch hv _ =>
    refine hkeep hsame (visited (fun _ => List.mem_of_mem_erase) fun id' hid' => ?_) (fun _ => .inl) hnone
    cases hid'
    exact h.visits _ hv id rfl
  | partUnasked _ _ => exact hkeep hsame (fun _ hv' => .inl (List.mem_of_mem_erase hv')) (fun _ => .inl) hnone
  | @sendLast id epoch hv =>
    refine hkeep hsame (fun _ hv' => .inl (List.mem_of_mem_erase hv')) (fun r' hr' => ?_) hnone
    refine (List.mem_append.1 hr').imp_right fun hr' => .inr ?_
    rw [List.mem_singleton.1 hr']
    exact h.visits _ hv id rfl
  | @close m system hclose =>
    have hcollector : system.collector = w.system.collector := (closeMutator_eq hclose).2
    refine hkeep (fun m' hm' => ?_) (fun _ => .inl) (fun r hr => .inl ?_) hnone
    · obtain ⟨heap, -, hclose⟩ := bind_eq_ok_iff.1 hclose
      cases hclose
      exact .inl ⟨m', List.mem_of_mem_filter hm', rfl⟩
    · dsimp only at hr
      rwa [hcollector] at hr
  | @display collector _ hcore =>
    have hreports : collector.reports = w.system.collector.reports := congrArg (·.reports) hcore
    exact hkeep hsame (fun _ => .inl) (fun r hr => .inl (hreports ▸ hr)) hnone
  | begin _ | snapshot _ | sweep _ _ _ =>
    refine hkeep hsame (fun _ => .inl) (fun _ => .inl) ?_
    rintro r (hr | hr) <;> cases List.mem_singleton.1 hr
  | markOwn _ _ =>
    refine hkeep hsame (fun _ => .inl) (fun _ => .inl) ?_
    rintro r (hr | hr)
    · exact .inr (hcopied r (.inr hr))
    · cases List.mem_singleton.1 hr
  | @receive r collector _ _ htake =>
    obtain ⟨hreports, hcollector⟩ := takeReport?_eq htake
    obtain ⟨hmutators, pending, hreceived⟩ := receive_frame { w.system with collector } r
    have hqueue : ({ w.system with collector }.receive r).collector.reports = collector.reports :=
      congrArg (·.reports) hreceived
    refine hkeep (fun m' hm' => hsame m' (hmutators ▸ hm')) (fun _ => .inl) (fun r' hr' => .inl ?_) ?_
    · dsimp only at hr'
      rw [hqueue] at hr'
      exact hreports ▸ List.mem_cons_of_mem _ hr'
    · intro r' hr'
      have heq : r' = r := by
        split at hr' <;> rcases hr' with hr' | hr' <;> cases List.mem_singleton.1 hr'
        rfl
      rw [heq, hreports]
      exact .inl List.mem_cons_self
  | _ => exact hkeep hsame (fun _ => .inl) (fun _ => .inl) hnone

end Sourced

theorem StackRun.sourced (h : StackRun spans (.empty heap config) copies trace w) : Sourced copies trace w := by
  induction h with
  | start => exact ⟨nofun, nofun, nofun, fun r hr => by rcases hr with hr | hr <;> cases hr⟩
  | step _ hstep hcopied ih => exact ih.step hstep hcopied
  | copy _ _ _ ih | copyOwn _ _ _ _ ih => exact ih.copied _

/-! ## The mutator that runs the cycle -/

/-- The roots of the mutator that runs the cycle were marked before reports are taken. -/
def OwnMarked (trace : List Event) (w : World) : Prop :=
  w.stage = .awaiting ∨ w.stage = .complete → ∀ id, w.initiator = some id →
    ∃ r, .initiated r ∈ trace ∧ r.mutator = id ∧ r.epoch = w.epoch

theorem OwnMarked.keep (h : OwnMarked trace w)
    (hstage : w'.stage = .awaiting ∨ w'.stage = .complete → w.stage = .awaiting ∨ w.stage = .complete)
    (hinitiator : w'.initiator = w.initiator) (hepoch : w'.epoch = w.epoch) : OwnMarked (events ++ trace) w' := by
  intro hs id hid
  obtain ⟨r, hr, hrid, hrepoch⟩ := h (hstage hs) id (hinitiator ▸ hid)
  exact ⟨r, List.mem_append_right _ hr, hrid, hrepoch.trans hepoch.symm⟩

theorem OwnMarked.step (h : OwnMarked trace w) (hstep : Step spans w events w') :
    OwnMarked (events ++ trace) w' := by
  cases hstep with
  | close hclose => exact h.keep id rfl (congrArg (·.epoch) (closeMutator_eq hclose).2)
  | @display collector _ hcore => exact h.keep id rfl (congrArg (·.epoch) hcore : collector.epoch = _)
  | hold _ _ | release _ | lock _ _ _ _ | decline _ | rest _ | begin _ | number _ | publish _ | snapshot _
  | readOwn _ _ _ | timeOut _ _ | abort _ | postpone _ | sweep _ _ _ =>
    rintro (hs | hs) <;> cases hs
  | @markOwn id atoms hstage hinitiator =>
    intro _ id' hid'
    rw [hinitiator] at hid'
    cases hid'
    exact ⟨_, List.mem_cons_self, rfl, rfl⟩
  | markNone _ hinitiator =>
    intro _ id hid
    rw [hinitiator] at hid
    cases hid
  | @receive r collector _ _ htake =>
    obtain ⟨-, pending, hreceived⟩ := receive_frame { w.system with collector } r
    obtain ⟨-, hcollector⟩ := takeReport?_eq htake
    exact h.keep id rfl ((congrArg (·.epoch) hreceived).trans (congrArg (·.epoch) hcollector))
  | finish hstage _ => exact h.keep (fun _ => .inl hstage) rfl rfl
  | _ => exact h.keep id rfl rfl

theorem Run.ownMarked (h : Run spans (.empty heap config) trace w) : OwnMarked trace w := by
  induction h with
  | start => rintro (hs | hs) <;> cases hs
  | step _ hstep ih => exact ih.step hstep

/-! ## What a sweep may destroy on a stack -/

/-- The mutator was not attached when the cycle with an epoch settled whom to ask, and does not run it. -/
def Unasked (trace : List Event) (epoch : Nat) (id : MutatorId) : Prop :=
  ∃ initiator ids, .asked epoch initiator ids ∈ sinceBegan trace ∧ id ∉ ids ∧ initiator ≠ some id

/-- A cycle marked all of a copy of a mutator's stack. -/
def Scanned (copies : List Report) (trace : List Event) (epoch : Nat) (id : MutatorId) : Prop :=
  ∃ r, Rooted trace r ∧ r.epoch = epoch ∧ ∃ c ∈ copies, c.mutator = id ∧ c.epoch = epoch ∧ c.atoms ⊆ r.atoms

/-- When the cycle is complete, the stack of everybody attached was marked as it was at some moment of the
cycle, but for those who attached too late. -/
theorem StackRun.scanned (h : StackRun spans (.empty heap config) copies trace w)
    (hstage : w.stage = .complete) (hid : w.Attached id) :
    Unasked trace w.epoch id ∨ Scanned copies trace w.epoch id := by
  have hanswered := h.run.answered
  obtain ⟨initiator, ids, hasked⟩ := hanswered.snapshot (by rw [hstage]; rfl)
  have hscanned : ∀ r, Rooted trace r → r.mutator = id → r.epoch = w.epoch → Scanned copies trace w.epoch id := by
    rintro r hr rfl hepoch
    rcases h.sourced.rooted r hr with ⟨c, hc, hmutator, hcepoch, hatoms⟩ | hgone
    · exact ⟨r, hr, hepoch, c, hc, hmutator, hcepoch.trans hepoch, hatoms⟩
    · exact absurd hid hgone.2
  have htrace : .asked w.epoch initiator ids ∈ trace := (List.takeWhile_sublist _).subset hasked
  obtain ⟨-, hinitiator, -⟩ := hanswered.asked (by rw [hstage]; rfl) initiator ids htrace
  by_cases hown : w.initiator = some id
  · obtain ⟨r, hr, hrid, hepoch⟩ := h.run.ownMarked (.inr hstage) id hown
    exact .inr (hscanned r (.inl hr) hrid hepoch)
  · have hne : initiator ≠ some id := hinitiator ▸ hown
    by_cases hmem : id ∈ ids
    · obtain ⟨r, hr, hrid, hepoch⟩ := (hanswered.justified hstage).answered initiator ids htrace id hmem hne.symm
      exact .inr (hscanned r (.inr hr) hrid hepoch)
    · exact .inl ⟨initiator, ids, hasked, hmem, hne⟩

/-- Nothing kept an atom on the stack of a mutator from the sweep. -/
structure Unseen (copies : List Report) (trace : List Event) (w : World) (id : MutatorId) (a : Atom) :
    Prop where
  /-- It is alive, no builtin, without references and white. -/
  garbage : ∃ index, w.table.Garbage index a
  /-- It is not among the roots that the cycle marked, whosever they were. -/
  unrooted : ∀ r, Rooted trace r → r.epoch = w.epoch → a ∉ r.atoms
  /-- It was not made, come upon or left without references since the cycle began. -/
  untouched : ∀ event, .store event ∈ sinceBegan trace → event.atom ≠ a
  /-- The mutator attached too late to be asked, or the atom was not on its stack when that was read. -/
  late : Unasked trace w.epoch id ∨ ∃ c ∈ copies, c.mutator = id ∧ c.epoch = w.epoch ∧ a ∉ c.atoms

theorem Spared.unseen {destroyed : List Atom} (h : Spared trace w.epoch destroyed)
    (hgarbage : ∃ index, w.table.Garbage index a)
    (hread : Unasked trace w.epoch id ∨ Scanned copies trace w.epoch id) (ha : a ∈ destroyed) :
    Unseen copies trace w id a where
  garbage := hgarbage
  unrooted r hr hepoch har := h.rooted r hr hepoch a har ha
  untouched event hevent heq := h.touched event hevent (heq ▸ ha)
  late := by
    refine hread.imp_right ?_
    rintro ⟨r, hr, hepoch, c, hc, hmutator, hcepoch, hatoms⟩
    exact ⟨c, hc, hmutator, hcepoch, fun hac => h.rooted r hr hepoch a (hatoms hac) ha⟩

/-- A sweep destroys an atom on the stack of an attached mutator only if nothing else kept it, and it came
there after the cycle read the stack or the mutator attached after the cycle asked. So whoever was asked
keeps all of its stack if nothing came onto it since it was read. -/
theorem stacked_destroyed (hc : config.check = .ok ()) (h : StackRun spans (.empty heap config) copies trace w)
    {epoch : Nat} {destroyed : List Atom} (hstep : Step spans w [.swept epoch destroyed] w')
    (hsize : w.table.slots.size ≤ UInt32.size) :
    ∀ m ∈ w.system.mutators, w.Attached m.id →
      (∀ a ∈ m.roots.atoms, a ∈ destroyed → Unseen copies trace w m.id a) ∧
        (¬ Unasked trace w.epoch m.id →
          (∀ c ∈ copies, c.mutator = m.id → c.epoch = w.epoch → m.roots.atoms ⊆ c.atoms) →
          ∀ a ∈ m.roots.atoms, a ∉ destroyed) := by
  obtain ⟨hstage, -, swept, table, hsweep, rfl⟩ := hstep.of_swept List.mem_cons_self
  have hs := h.run.sound hc
  have hspared := (h.run.marked hc hsize).spared hs hsize hstage hsweep
  intro m _ hid
  have hunseen : ∀ a ∈ swept.destroyed.toList, Unseen copies trace w m.id a := fun a ha =>
    hspared.unseen (hs.garbage_of_sweep hsweep a ha) (h.scanned hstage hid) ha
  refine ⟨fun a _ ha => hunseen a ha, fun hasked hread a hstack ha => ?_⟩
  rcases (hunseen a ha).late with hlate | ⟨c, hcopy, hmutator, hepoch, hnot⟩
  · exact hasked hlate
  · exact hnot (hread c hcopy hmutator hepoch hstack)

/-- Three atoms have no references when a cycle begins, and the first mutator, which runs it, has nothing on
its stack. Then the second one hands an atom over to it and keeps another, and a third mutator attaches
with the last atom on its stack. -/
theorem handed_over_run :
    ∃ copies trace w w',
      StackRun (fun _ => True) (.empty (.empty ⟨32, 64, 2⟩ fun _ _ => true) { atomBuckets := 1 }) copies trace w ∧
      Step (fun _ => True) w [.swept 1 [⟨0, 0⟩, ⟨1, 0⟩]] w' ∧ w.table.slots.size ≤ UInt32.size ∧
      w.system.mutators = [⟨1, 0, 1, ⟨[⟨0, 0⟩]⟩, 0⟩, ⟨2, 1, 2, ⟨[⟨2, 0⟩]⟩, 1⟩, ⟨3, 2, 3, ⟨[⟨1, 0⟩]⟩, 0⟩] ∧
      w.system.collector.registered = [(3, 2), (2, 1), (1, 0)] ∧
      sinceBegan trace = [.applied ⟨2, 1, [⟨2, 0⟩]⟩, .initiated ⟨1, 1, []⟩, .asked 1 (some 1) [2, 1]] ∧
      copies = [⟨2, 1, [⟨2, 0⟩]⟩, ⟨1, 1, []⟩] := by
  have none := @StackRun.start (fun _ => True)
    (.empty (.empty ⟨32, 64, 2⟩ fun _ _ => true) { atomBuckets := 1 })
  have attached := (none.forth (.attach 0) (Nat.le_refl _) nofun).forth (.attach 1) (Nat.le_refl _) nofun
  have first := attached.intern { bytes := [97] } trivial BlobId.text
    (Store.internLocked_of_insert rfl rfl rfl rfl (Table.insert_of_no_holes rfl rfl rfl rfl rfl) rfl)
  have second := first.intern { bytes := [98] } trivial BlobId.text
    (Store.internLocked_of_insert rfl rfl rfl rfl (Table.insert_of_no_holes rfl rfl rfl rfl rfl) rfl)
  have third := second.intern { bytes := [99] } trivial BlobId.text
    (Store.internLocked_of_insert rfl rfl rfl rfl (Table.insert_of_no_holes rfl rfl rfl rfl rfl) rfl)
  have dropped := ((third.call (.unregister ⟨0, 0⟩)).call (.unregister ⟨1, 0⟩)).call (.unregister ⟨2, 0⟩)
  have filled := dropped.forth (.setRoots 2 ⟨[⟨0, 0⟩, ⟨2, 0⟩]⟩) (Nat.le_refl _) nofun
  have locked := filled.forth (.lock (some 1) rfl rfl rfl) (Nat.le_refl _) nofun
  have begun := locked.forth (.begin rfl) (Nat.le_refl _) (by simp)
  have published := (begun.forth (.number rfl) (Nat.le_refl _) nofun).forth (.publish rfl) (Nat.le_refl _) nofun
  have asked := published.forth (.snapshot rfl) (Nat.le_refl _) (by simp)
  have marked := (asked.copyOwn rfl rfl rfl).markOwn rfl rfl ⟨_, .head _, rfl, rfl, List.Subset.refl _⟩
  have handed := (marked.forth (.setRoots 1 ⟨[⟨0, 0⟩]⟩) (Nat.le_refl _) nofun).forth (.setRoots 2 ⟨[⟨2, 0⟩]⟩)
    (Nat.le_refl _) nofun
  have late := (handed.forth (.attach 2) (Nat.le_refl _) nofun).forth (.setRoots 3 ⟨[⟨1, 0⟩]⟩) (Nat.le_refl _) nofun
  have looked := late.forth (@Step.look _ _ 2 _ _ rfl rfl) (Nat.le_refl _) nofun
  have noted := looked.forth (.note (.head _)) (Nat.le_refl _) nofun
  have copied := noted.copy (.head _) rfl
  have read := copied.forth (.read ⟨2, 0⟩ (.head _)) (Nat.le_refl _) nofun
  have sent := read.send (.head _) ⟨_, .head _, rfl, rfl, List.Subset.refl _⟩
  have received := sent.forth (.receive rfl (by decide) rfl) (Nat.zero_le _) fun _ h => by
    cases List.mem_singleton.1 h
  have complete := received.forth (.finish rfl rfl) (Nat.le_refl _) nofun
  obtain ⟨w', last⟩ := complete.run.exists_sweep rfl rfl rfl
  refine ⟨_, _, _, w', complete, last, ?_, ?_, ?_, ?_, ?_⟩
  · decide
  · decide
  · decide
  · decide
  · decide

/-- The sweep destroys the atom that was handed over and the one that came with the third mutator, though both
are on stacks of attached mutators. -/
theorem handed_over_destroyed :
    ∃ copies trace w w',
      StackRun (fun _ => True) (.empty (.empty ⟨32, 64, 2⟩ fun _ _ => true) { atomBuckets := 1 }) copies trace w ∧
      Step (fun _ => True) w [.swept 1 [⟨0, 0⟩, ⟨1, 0⟩]] w' ∧
      (∃ m ∈ w.system.mutators, m.id = 1 ∧ w.Attached m.id ∧ m.roots.atoms = [⟨0, 0⟩]) ∧
      ∃ m ∈ w.system.mutators, m.id = 3 ∧ w.Attached m.id ∧ m.roots.atoms = [⟨1, 0⟩] := by
  obtain ⟨copies, trace, w, w', hrun, hstep, -, hmutators, hregistered, -⟩ := handed_over_run
  refine ⟨copies, trace, w, w', hrun, hstep, ?_, ?_⟩
  all_goals
    unfold Attached
    rw [hmutators, hregistered]
    decide

/-- Neither atom was seen on the stack on which it is, and the one that the second mutator kept is spared. -/
theorem stacked_destroyed_handed_over :
    ∃ copies trace w w',
      StackRun (fun _ => True) (.empty (.empty ⟨32, 64, 2⟩ fun _ _ => true) { atomBuckets := 1 }) copies trace w ∧
      Step (fun _ => True) w [.swept 1 [⟨0, 0⟩, ⟨1, 0⟩]] w' ∧ Unseen copies trace w 1 ⟨0, 0⟩ ∧
      Unseen copies trace w 3 ⟨1, 0⟩ ∧ (⟨2, 0⟩ : Atom) ∉ ([⟨0, 0⟩, ⟨1, 0⟩] : List Atom) := by
  obtain ⟨copies, trace, w, w', hrun, hstep, hsize, hmutators, hregistered, htrace, hcopies⟩ := handed_over_run
  have hattached : ∀ id ∈ [1, 2, 3], w.Attached id := by
    unfold Attached
    rw [hregistered]
    decide
  have hsafe := stacked_destroyed rfl hrun hstep hsize
  rw [hmutators] at hsafe
  refine ⟨copies, trace, w, w', hrun, hstep, ?_, ?_, ?_⟩
  · exact (hsafe _ (.head _) (hattached 1 (by decide))).1 _ (.head _) (.head _)
  · exact (hsafe _ (.tail _ (.tail _ (.head _))) (hattached 3 (by decide))).1 _ (.head _) (.tail _ (.head _))
  · refine (hsafe _ (.tail _ (.head _)) (hattached 2 (by decide))).2 ?_ ?_ _ (.head _)
    · rintro ⟨initiator, ids, hasked, hnot, -⟩
      rw [htrace] at hasked
      obtain ⟨-, -, rfl⟩ : w.epoch = 1 ∧ initiator = some 1 ∧ ids = [2, 1] := by simpa using hasked
      exact hnot (.head _)
    · rw [hcopies]
      intro c hc hmutator _
      rcases List.mem_cons.1 hc with rfl | hc
      · exact List.Subset.refl _
      · cases List.mem_singleton.1 hc
        cases hmutator

end AtomHeap.World
