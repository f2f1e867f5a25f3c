import AtomHeap.Proofs.Cycle.Handover
/-!
# Mutators that leave while a cycle waits

A mutator leaves in two steps: it takes itself off the list of those attached, and then looks for an epoch
that it has not answered and sends an empty report if there is one. A cycle shows its epoch before it
settles whom to wait for. So whoever left before that is not waited for, and whoever leaves later sees the
epoch: a cycle never waits for a mutator that is gone for good (`awaited_answers`).
-/

namespace AtomHeap.World

variable {spans : Span → Prop} {w w' w₀ : World} {trace events : List Event} {config : Config} {heap : Heap}
  {id : MutatorId} {m : Mutator}

instance (w : World) (id : MutatorId) : Decidable (w.Attached id) :=
  inferInstanceAs (Decidable (id ∈ w.system.collector.registered.map (·.1)))

/-! ## Runs in which mutators belong to threads -/

/-- A mutator does not leave while its roots are being read: its thread is busy with that. -/
def Orderly (w w' : World) : Prop :=
  ∀ id lastEpoch, w'.visits = .leaving id lastEpoch :: w.visits → ∀ r, .reading r ∈ w.visits → r.mutator ≠ id

/-- Runs in which no mutator leaves while its roots are being read. -/
inductive OrderlyRun (spans : Span → Prop) (w₀ : World) : List Event → World → Prop
  | start : OrderlyRun spans w₀ [] w₀
  | step {w w' : World} {trace events : List Event} :
      OrderlyRun spans w₀ trace w → Step spans w events w' → Orderly w w' →
      OrderlyRun spans w₀ (events ++ trace) w'

theorem OrderlyRun.run (h : OrderlyRun spans w₀ trace w) : Run spans w₀ trace w := by
  induction h with
  | start => exact .start
  | step _ hstep _ ih => exact ih.step hstep

/-- A step that is not that of leaving is orderly. -/
theorem OrderlyRun.forth (h : OrderlyRun spans w₀ trace w) (hstep : Step spans w events w')
    (hvisits : ∀ id lastEpoch, w'.visits ≠ .leaving id lastEpoch :: w.visits) :
    OrderlyRun spans w₀ (events ++ trace) w' :=
  h.step hstep fun id lastEpoch heq => absurd heq (hvisits id lastEpoch)

/-! ## Stages -/

/-- Mutators see the epoch of the cycle. -/
def Stage.isPublished : Stage → Bool
  | .published | .asked _ | .awaiting => true
  | _ => false

/-- The cycle marks, and waits for the reports of those whom it asked. -/
def Stage.isWaiting : Stage → Bool
  | .asked _ | .awaiting => true
  | _ => false

theorem Stage.isPublished_of_isWaiting {stage : Stage} (h : stage.isWaiting = true) :
    stage.isPublished = true := by
  cases stage with
  | asked | awaiting => rfl
  | _ => cases h

theorem Stage.isNumbered_of_isPublished {stage : Stage} (h : stage.isPublished = true) :
    stage.isNumbered = true := by
  cases stage with
  | published | asked | awaiting => rfl
  | _ => cases h

theorem Stage.isAsked_of_isWaiting {stage : Stage} (h : stage.isWaiting = true) : stage.isAsked = true := by
  cases stage with
  | asked | awaiting => rfl
  | _ => cases h

/-! ## Nobody is listed twice -/

/-- Nobody is attached twice or waited for twice. -/
structure Enrolled (w : World) : Prop where
  registered : (w.system.collector.registered.map (·.1)).Nodup
  known : ∀ id, w.Attached id → id < w.system.collector.nextMutator
  pending : w.pending.Nodup

/-- Taking a report strikes its mutator off if it has the epoch of the cycle. -/
theorem receive_pending (s : System) (r : Report) :
    (s.receive r).collector.pending =
      if r.epoch = s.collector.epoch then s.collector.pending.erase r.mutator else s.collector.pending := by
  split
  · rename_i heq
    rw [receive_of_eq heq]
    rfl
  · rename_i hne
    rw [receive_of_ne hne]

/-- A step that takes a report leaves the epoch, the list of those attached and what else mutators see. -/
theorem receive_core {r : Report} {collector : Collector}
    (h : w.system.collector.takeReport? = some (r, collector)) :
    ∃ rest pending, w.system.collector.reports = r :: rest ∧
      ({ w.system with collector }.receive r).collector = { w.system.collector with reports := rest, pending } ∧
      pending = if r.epoch = w.epoch then w.pending.erase r.mutator else w.pending := by
  obtain ⟨hreports, hcollector⟩ := takeReport?_eq h
  obtain ⟨-, pending, hreceived⟩ := receive_frame { w.system with collector } r
  have hpending := receive_pending { w.system with collector } r
  have hepoch : collector.epoch = w.epoch := by
    rw [hcollector]
    rfl
  have hsame : collector.pending = w.pending := by
    rw [hcollector]
    rfl
  dsimp only at hreceived hpending
  rw [hreceived, hepoch, hsame] at hpending
  refine ⟨collector.reports, pending, hreports, ?_, hpending⟩
  rw [hreceived, hcollector]

theorem mem_pending_of_receive {r : Report} {collector : Collector}
    (h : w.system.collector.takeReport? = some (r, collector))
    (hid : id ∈ World.pending { w with system := { w.system with collector }.receive r }) : id ∈ w.pending := by
  obtain ⟨rest, pending, -, hcollector, hpending⟩ := receive_core h
  unfold World.pending at hid
  dsimp only at hid
  rw [hcollector] at hid
  dsimp only at hid
  rw [hpending] at hid
  split at hid
  · exact List.mem_of_mem_erase hid
  · exact hid

namespace Enrolled

theorem congr (h : Enrolled w) (hregistered : w'.system.collector.registered = w.system.collector.registered)
    (hnext : w'.system.collector.nextMutator = w.system.collector.nextMutator)
    (hpending : w'.pending.Nodup) : Enrolled w' where
  registered := by
    rw [hregistered]
    exact h.registered
  known id hid := by
    unfold Attached at hid
    rw [hregistered] at hid
    rw [hnext]
    exact h.known id hid
  pending := hpending

theorem step (h : Enrolled w) (hstep : Step spans w events w') : Enrolled w' := by
  cases hstep with
  | attach thread =>
    refine ⟨List.nodup_cons.2 ⟨fun hid => ?_, h.registered⟩, fun id hid => ?_, h.pending⟩
    · exact Nat.lt_irrefl _ (h.known _ hid)
    · rcases List.mem_cons.1 hid with rfl | hid
      · exact Nat.lt_succ_self _
      · exact Nat.lt_succ_of_lt (h.known id hid)
  | leave _ =>
    refine ⟨h.registered.sublist (List.filter_sublist.map _), fun id hid => h.known id ?_, h.pending⟩
    exact (List.filter_sublist.map _).subset hid
  | close hclose =>
    obtain ⟨-, hcollector⟩ := closeMutator_eq hclose
    refine h.congr (congrArg (·.registered) hcollector) (congrArg (·.nextMutator) hcollector) ?_
    unfold World.pending
    dsimp only
    rw [hcollector]
    exact h.pending
  | @display collector _ hcore =>
    have hpending : collector.pending = w.pending := congrArg (·.pending) hcore
    refine h.congr (congrArg (·.registered) hcore : collector.registered = _)
      (congrArg (·.nextMutator) hcore : collector.nextMutator = _) ?_
    unfold World.pending
    dsimp only
    rw [hpending]
    exact h.pending
  | snapshot _ => exact ⟨h.registered, h.known, h.registered⟩
  | markOwn _ _ => exact ⟨h.registered, h.known, h.pending.erase _⟩
  | receive _ _ htake =>
    obtain ⟨rest, pending, -, hcollector, hpending⟩ := receive_core htake
    refine h.congr (congrArg (·.registered) hcollector) (congrArg (·.nextMutator) hcollector) ?_
    unfold World.pending
    dsimp only
    rw [hcollector]
    dsimp only
    rw [hpending]
    split
    · exact h.pending.erase _
    · exact h.pending
  | _ => exact ⟨h.registered, h.known, h.pending⟩

end Enrolled

/-! ## What mutators see -/

/-- Mutators see the epoch of the cycle from when it is published until reports are no longer taken. -/
structure Shown (w : World) : Prop where
  active : w.system.collector.activeEpoch = if w.stage.isPublished then w.epoch else 0
  numbered : w.stage.isNumbered = true → w.epoch ≠ 0

namespace Shown

/-- The epoch is shown while the cycle waits, and to whoever has not answered it. -/
theorem due (h : Shown w) (hstage : w.stage.isPublished = true) {lastEpoch : Nat} (hne : lastEpoch ≠ w.epoch) :
    w.system.collector.dueEpoch? lastEpoch = some w.epoch := by
  have hactive := h.active
  rw [if_pos hstage] at hactive
  unfold Collector.dueEpoch?
  rw [hactive, if_pos ⟨h.numbered (Stage.isNumbered_of_isPublished hstage), hne.symm⟩]

theorem eq_of_due (h : Shown w) (hstage : w.stage.isPublished = true) {lastEpoch epoch : Nat}
    (hdue : w.system.collector.dueEpoch? lastEpoch = some epoch) : epoch = w.epoch := by
  rw [dueEpoch?_eq hdue, h.active, if_pos hstage]

/-- The cycle goes on, and shows as much as it did. -/
theorem forth (h : Shown w) (hactive : w'.system.collector.activeEpoch = w.system.collector.activeEpoch)
    (hepoch : w'.epoch = w.epoch) (hpublished : w'.stage.isPublished = w.stage.isPublished)
    (hnumbered : w'.stage.isNumbered = true → w.stage.isNumbered = true) : Shown w' where
  active := by
    rw [hactive, hpublished, hepoch]
    exact h.active
  numbered hn := by
    rw [hepoch]
    exact h.numbered (hnumbered hn)

theorem step (h : Shown w) (hstep : Step spans w events w') : Shown w' := by
  cases hstep with
  | close hclose =>
    obtain ⟨-, hcollector⟩ := closeMutator_eq hclose
    exact h.forth (congrArg (·.activeEpoch) hcollector) (congrArg (·.epoch) hcollector) rfl id
  | @display collector _ hcore =>
    exact h.forth (congrArg (·.activeEpoch) hcore : collector.activeEpoch = _)
      (congrArg (·.epoch) hcore : collector.epoch = _) rfl id
  | receive _ _ htake =>
    obtain ⟨rest, pending, -, hcollector, -⟩ := receive_core htake
    exact h.forth (congrArg (·.activeEpoch) hcollector) (congrArg (·.epoch) hcollector) rfl id
  | hold hstage _ | release hstage | lock _ hstage _ _ | decline hstage | rest hstage | begin hstage
  | abort hstage | postpone hstage | sweep hstage _ _ =>
    refine h.forth ?_ ?_ ?_ nofun
    · rfl
    · rfl
    · rw [hstage]
      rfl
  | snapshot hstage | readOwn _ hstage _ | markOwn hstage _ | markNone hstage _ =>
    refine h.forth ?_ ?_ ?_ ?_
    · rfl
    · rfl
    · rw [hstage]
      rfl
    · rw [hstage]
      exact fun _ => rfl
  | number hstage =>
    have hactive := h.active
    rw [hstage] at hactive
    exact ⟨hactive, fun _ => Nat.succ_ne_zero _⟩
  | publish hstage => exact ⟨rfl, fun _ => h.numbered (by rw [hstage]; rfl)⟩
  | finish hstage _ => exact ⟨rfl, fun _ => h.numbered (by rw [hstage]; rfl)⟩
  | timeOut _ _ => exact ⟨rfl, nofun⟩
  | _ => exact ⟨h.active, h.numbered⟩

end Shown

/-! ## Who noted the epoch -/

/-- A mutator sent a report with the epoch of the cycle, and nobody took it yet. -/
def Sent (w : World) (id : MutatorId) : Prop :=
  ∃ r ∈ w.system.collector.reports, r.mutator = id ∧ r.epoch = w.epoch

/-- The roots of a mutator are being read for the epoch of the cycle. -/
def Answering (w : World) (id : MutatorId) : Prop := ∃ r, .reading r ∈ w.visits ∧ r.mutator = id ∧ r.epoch = w.epoch

/-- Whoever noted the epoch as answered reads its roots, has sent its report, or is not waited for. -/
structure Noted (w : World) : Prop where
  bounded : ∀ m ∈ w.system.mutators, m.lastEpoch ≤ w.epoch
  noted : w.stage.isNumbered = true → ∀ m ∈ w.system.mutators, m.lastEpoch = w.epoch →
    w.Answering m.id ∨ w.Sent m.id ∨ w.stage.isAsked = true ∧ m.id ∉ w.pending

theorem Sent.append {reports : List Report} (h : w.Sent id) (hepoch : w'.epoch = w.epoch)
    (hreports : w'.system.collector.reports = w.system.collector.reports ++ reports) : w'.Sent id := by
  obtain ⟨r, hr, hid, hr'⟩ := h
  exact ⟨r, hreports ▸ List.mem_append_left _ hr, hid, hr'.trans hepoch.symm⟩

/-- A report that is taken has another epoch, or its mutator is not waited for any longer. -/
theorem Sent.receive {r : Report} {collector : Collector} (h : w.Sent id) (he : Enrolled w)
    (htake : w.system.collector.takeReport? = some (r, collector)) :
    Sent { w with system := { w.system with collector }.receive r } id ∨
      id ∉ World.pending { w with system := { w.system with collector }.receive r } := by
  obtain ⟨rest, pending, hreports, hcollector, hpending⟩ := receive_core htake
  obtain ⟨r', hr', hid, hepoch⟩ := h
  unfold Sent World.epoch World.pending
  dsimp only
  rw [hcollector]
  rw [hreports] at hr'
  rcases List.mem_cons.1 hr' with rfl | hr'
  · right
    dsimp only
    rw [hpending, if_pos hepoch, ← hid]
    exact he.pending.not_mem_erase
  · exact .inl ⟨r', hr', hid, hepoch⟩

theorem Answering.mono (h : w.Answering id) (hepoch : w'.epoch = w.epoch)
    (hvisits : ∀ r, .reading r ∈ w.visits → .reading r ∈ w'.visits) : w'.Answering id := by
  obtain ⟨r, hr, hid, hr'⟩ := h
  exact ⟨r, hvisits r hr, hid, hr'.trans hepoch.symm⟩

theorem mem_erase_of_reading {r : Report} {v : Visit} (hr : .reading r ∈ w.visits) (hv : ∀ r, v ≠ .reading r) :
    .reading r ∈ w.visits.erase v := (List.mem_erase_of_ne (hv r).symm).2 hr

namespace Noted

/-- Nobody notes the epoch but to read its roots. -/
theorem keep (h : Noted w) (hnumbered : w'.stage.isNumbered = true → w.stage.isNumbered = true)
    (hepoch : w'.epoch = w.epoch)
    (hmutators : ∀ m' ∈ w'.system.mutators, (∃ m ∈ w.system.mutators, m'.id = m.id ∧ m'.lastEpoch = m.lastEpoch) ∨
      m'.lastEpoch ≤ w.epoch ∧ (w.stage.isNumbered = true → m'.lastEpoch = w.epoch → w'.Answering m'.id))
    (hanswering : ∀ id, w.Answering id → w'.Answering id ∨ w'.Sent id)
    (hsent : ∀ id, w.Sent id → w'.Sent id ∨ w'.stage.isAsked = true ∧ id ∉ w'.pending)
    (hexcused : w.stage.isAsked = true → w'.stage.isNumbered = true → w'.stage.isAsked = true ∧
      ∀ id, id ∉ w.pending → id ∉ w'.pending) : Noted w' where
  bounded m' hm' := by
    rw [hepoch]
    rcases hmutators m' hm' with ⟨m, hm, -, hlast⟩ | ⟨hle, -⟩
    · exact hlast ▸ h.bounded m hm
    · exact hle
  noted hn m' hm' hlast := by
    rw [hepoch] at hlast
    rcases hmutators m' hm' with ⟨m, hm, hid, hsame⟩ | ⟨-, hnew⟩
    · rw [hid]
      rcases h.noted (hnumbered hn) m hm (hsame.symm.trans hlast) with hanswers | hs | ⟨hasked, hid⟩
      · exact (hanswering _ hanswers).imp_right .inl
      · exact .inr (hsent _ hs)
      · obtain ⟨hasked, hall⟩ := hexcused hasked hn
        exact .inr (.inr ⟨hasked, hall _ hid⟩)
    · exact .inl (hnew (hnumbered hn) hlast)

/-- Before the cycle has its epoch nobody can have noted it. -/
theorem quiet (h : Noted w) (hstage : w'.stage.isNumbered = false) (hepoch : w'.epoch = w.epoch)
    (hmutators : w'.system.mutators = w.system.mutators) : Noted w' where
  bounded := by
    rw [hepoch, hmutators]
    exact h.bounded
  noted hn := by
    rw [hstage] at hn
    cases hn

/-- Mutators stay as they are, and so do their visits and their reports. -/
theorem forth (h : Noted w) (hnumbered : w'.stage.isNumbered = true → w.stage.isNumbered = true)
    (hepoch : w'.epoch = w.epoch) (hmutators : w'.system.mutators = w.system.mutators)
    (hvisits : ∀ r, .reading r ∈ w.visits → .reading r ∈ w'.visits)
    (hreports : ∃ reports, w'.system.collector.reports = w.system.collector.reports ++ reports)
    (hexcused : w.stage.isAsked = true → w'.stage.isNumbered = true → w'.stage.isAsked = true ∧
      ∀ id, id ∉ w.pending → id ∉ w'.pending) : Noted w' := by
  obtain ⟨reports, hreports⟩ := hreports
  refine h.keep hnumbered hepoch (fun m hm => .inl ⟨m, hmutators ▸ hm, rfl, rfl⟩) ?_ ?_ hexcused
  · exact fun id hid => .inl (hid.mono hepoch hvisits)
  · exact fun id hid => .inl (hid.append hepoch hreports)

theorem step (h : Noted w) (hst : Stamped trace w) (he : Enrolled w) (hsh : Shown w)
    (hstep : Step spans w events w') : Noted w' := by
  have hsame : ∀ m' ∈ w.system.mutators, (∃ m ∈ w.system.mutators, m'.id = m.id ∧ m'.lastEpoch = m.lastEpoch) ∨
      m'.lastEpoch ≤ w.epoch ∧ (w.stage.isNumbered = true → m'.lastEpoch = w.epoch → w'.Answering m'.id) :=
    fun m' hm' => .inl ⟨m', hm', rfl, rfl⟩
  cases hstep with
  | attach thread =>
    refine h.keep id rfl (fun m' hm' => ?_) (fun _ => .inl) (fun _ => .inl) fun ha _ => ⟨ha, fun _ => id⟩
    rcases List.mem_append.1 hm' with hm' | hm'
    · exact .inl ⟨m', hm', rfl, rfl⟩
    · -- A new mutator has answered no epoch, and that of a cycle is not 0.
      rw [List.mem_singleton.1 hm']
      exact .inr ⟨Nat.zero_le _, fun hn hzero => absurd hzero.symm (hsh.numbered hn)⟩
  | setRoots id' roots =>
    refine h.keep id rfl (fun m' hm' => ?_) (fun _ => .inl) (fun _ => .inl) fun ha _ => ⟨ha, fun _ => id⟩
    obtain ⟨m, hm, rfl⟩ := List.mem_map.1 hm'
    refine .inl ⟨m, hm, ?_⟩
    split <;> exact ⟨rfl, rfl⟩
  | @note id' epoch hv =>
    refine h.keep id rfl (fun m' hm' => ?_) (fun id hid => .inl ?_) (fun _ => .inl) fun ha _ => ⟨ha, fun _ => id⟩
    · obtain ⟨m, hm, rfl⟩ := List.mem_map.1 hm'
      split
      · rename_i hid
        refine .inr ⟨hst.visits _ hv _ rfl, fun _ hepoch => ?_⟩
        exact ⟨_, List.mem_cons_self, hid.symm, hepoch⟩
      · exact .inl ⟨m, hm, rfl, rfl⟩
    · exact hid.mono rfl fun r hr => List.mem_cons_of_mem _ (mem_erase_of_reading hr nofun)
  | @read r a hv =>
    refine h.keep id rfl hsame (fun id hid => .inl ?_) (fun _ => .inl) fun ha _ => ⟨ha, fun _ => id⟩
    obtain ⟨r', hr', hid, hepoch⟩ := hid
    by_cases heq : r' = r
    · subst heq
      exact ⟨_, List.mem_cons_self, hid, hepoch⟩
    · exact ⟨r', List.mem_cons_of_mem _ ((List.mem_erase_of_ne fun h => heq (Visit.reading.inj h)).2 hr'), hid, hepoch⟩
  | @send r hv =>
    refine h.keep id rfl hsame (fun id hid => ?_) (fun id hid => .inl (hid.append rfl rfl))
      fun ha _ => ⟨ha, fun _ => id⟩
    obtain ⟨r', hr', hid, hepoch⟩ := hid
    by_cases heq : r' = r
    · subst heq
      exact .inr ⟨r', List.mem_append_right _ List.mem_cons_self, hid, hepoch⟩
    · exact .inl ⟨r', (List.mem_erase_of_ne fun h => heq (Visit.reading.inj h)).2 hr', hid, hepoch⟩
  | look _ _ | leave _ =>
    exact h.forth id rfl rfl (fun _ => List.mem_cons_of_mem _) ⟨[], (List.append_nil _).symm⟩
      fun ha _ => ⟨ha, fun _ => id⟩
  | part _ _ =>
    exact h.forth id rfl rfl (fun _ hr => List.mem_cons_of_mem _ (mem_erase_of_reading hr nofun))
      ⟨[], (List.append_nil _).symm⟩ fun ha _ => ⟨ha, fun _ => id⟩
  | partUnasked _ _ =>
    exact h.forth id rfl rfl (fun _ hr => mem_erase_of_reading hr nofun) ⟨[], (List.append_nil _).symm⟩
      fun ha _ => ⟨ha, fun _ => id⟩
  | sendLast _ =>
    exact h.forth id rfl rfl (fun _ hr => mem_erase_of_reading hr nofun) ⟨_, rfl⟩ fun ha _ => ⟨ha, fun _ => id⟩
  | close hclose =>
    obtain ⟨heap, -, hclose⟩ := bind_eq_ok_iff.1 hclose
    cases hclose
    exact h.keep id rfl (fun m' hm' => .inl ⟨m', List.mem_of_mem_filter hm', rfl, rfl⟩) (fun _ => .inl)
      (fun _ => .inl) fun ha _ => ⟨ha, fun _ => id⟩
  | @display collector _ hcore =>
    have hreports : collector.reports = w.system.collector.reports := congrArg (·.reports) hcore
    have hpending : collector.pending = w.pending := congrArg (·.pending) hcore
    exact h.forth id (congrArg (·.epoch) hcore : collector.epoch = _) rfl (fun _ => id)
      ⟨[], hreports.trans (List.append_nil _).symm⟩ fun ha _ =>
        ⟨ha, fun id hid (hmem : id ∈ collector.pending) => hid (hpending ▸ hmem)⟩
  | number hstage =>
    refine ⟨fun m hm => Nat.le_succ_of_le (h.bounded m hm), fun _ m hm hlast => ?_⟩
    exact absurd (hlast ▸ h.bounded m hm) (Nat.not_succ_le_self _)
  | publish hstage | snapshot hstage =>
    refine h.forth (fun _ => by rw [hstage]; rfl) rfl rfl (fun _ => id) ⟨[], (List.append_nil _).symm⟩ ?_
    rw [hstage]
    exact nofun
  | readOwn _ hstage _ | markNone hstage _ | finish hstage _ =>
    exact h.forth (fun _ => by rw [hstage]; rfl) rfl rfl (fun _ => id) ⟨[], (List.append_nil _).symm⟩
      fun _ _ => ⟨rfl, fun _ => id⟩
  | markOwn hstage _ =>
    exact h.forth (fun _ => by rw [hstage]; rfl) rfl rfl (fun _ => id) ⟨[], (List.append_nil _).symm⟩
      fun _ _ => ⟨rfl, fun _ hid hmem => hid (List.mem_of_mem_erase hmem)⟩
  | @receive r collector hstage _ htake =>
    obtain ⟨rest, pending, -, hcollector, -⟩ := receive_core htake
    have hmutators : ({ w.system with collector }.receive r).mutators = w.system.mutators :=
      (receive_frame { w.system with collector } r).1
    have hasked : w.stage.isAsked = true := by
      rw [hstage]
      rfl
    refine h.keep id (congrArg (·.epoch) hcollector) ?_ (fun _ => .inl ∘ (·.mono ?_ fun _ => id)) ?_ ?_
    · rw [hmutators]
      exact hsame
    · exact congrArg (·.epoch) hcollector
    · exact fun id hid => (hid.receive he htake).imp_right fun hgone => ⟨hasked, hgone⟩
    · exact fun _ _ => ⟨hasked, fun id hid hmem => hid (mem_pending_of_receive htake hmem)⟩
  | hold _ _ | release _ | lock _ _ _ _ | decline _ | rest _ | begin _ | timeOut _ _ | abort _ | postpone _
  | sweep _ _ _ => exact h.quiet rfl rfl rfl
  | call _ | clearRequest _ => exact ⟨h.bounded, h.noted⟩

end Noted

/-! ## Whom the cycle waits for -/

/-- A mutator left the list, and has yet to send a report with the epoch of the cycle. -/
def Departing (w : World) (id : MutatorId) : Prop :=
  (∃ lastEpoch, lastEpoch ≠ w.epoch ∧ .leaving id lastEpoch ∈ w.visits) ∨ .parting id w.epoch ∈ w.visits

/-- A mutator is attached, or its report is there or to come. -/
def Accounted (w : World) (id : MutatorId) : Prop := w.Attached id ∨ w.Sent id ∨ w.Departing id

/-- While the cycle waits, everybody it waits for is accounted for. -/
def Awaited (w : World) : Prop := w.stage.isWaiting = true → ∀ id ∈ w.pending, w.Accounted id

/-- What accounts for a mutator stays while the list, the queue and the visits of those who leave grow. -/
theorem Accounted.mono (h : w.Accounted id) (hepoch : w'.epoch = w.epoch) (hattached : w.Attached id → w'.Attached id)
    (hreports : ∃ reports, w'.system.collector.reports = w.system.collector.reports ++ reports)
    (hvisits : ∀ v ∈ w.visits, v.leaver? = some id → v ∈ w'.visits) : w'.Accounted id := by
  obtain ⟨reports, hreports⟩ := hreports
  rcases h with hid | hid | hid
  · exact .inl (hattached hid)
  · exact .inr (.inl (hid.append hepoch hreports))
  · refine .inr (.inr ?_)
    unfold Departing
    rw [hepoch]
    rcases hid with ⟨lastEpoch, hne, hv⟩ | hv
    · exact .inl ⟨lastEpoch, hne, hvisits _ hv rfl⟩
    · exact .inr (hvisits _ hv rfl)

namespace Awaited

theorem quiet (h : w.stage.isWaiting = false) : Awaited w := fun hw => by
  rw [h] at hw
  cases hw

/-- Nobody new is waited for, and whoever is accounted for stays so. -/
theorem forth (h : Awaited w) (hwaiting : w'.stage.isWaiting = true → w.stage.isWaiting = true)
    (hpending : ∀ id ∈ w'.pending, id ∈ w.pending) (hepoch : w'.epoch = w.epoch)
    (hattached : ∀ id, w.Attached id → w'.Attached id)
    (hreports : ∃ reports, w'.system.collector.reports = w.system.collector.reports ++ reports)
    (hvisits : ∀ v ∈ w.visits, v.leaver? ≠ none → v ∈ w'.visits) : Awaited w' := by
  intro hw id hid
  refine (h (hwaiting hw) id (hpending id hid)).mono hepoch (hattached id) hreports fun v hv hleaver => ?_
  exact hvisits v hv (by rw [hleaver]; exact nofun)

theorem step (h : Awaited w) (he : Enrolled w) (hsh : Shown w) (hnoted : Noted w)
    (hstep : Step spans w events w') (horderly : Orderly w w') : Awaited w' := by
  have hsame : ∃ reports, w.system.collector.reports = w.system.collector.reports ++ reports :=
    ⟨[], (List.append_nil _).symm⟩
  -- Visits of those who leave are kept where another visit ends.
  have herase : ∀ {v₀ : Visit}, v₀.leaver? = none → ∀ v ∈ w.visits, v.leaver? ≠ none → v ∈ w.visits.erase v₀ := by
    intro v₀ hnone v hv hleaver
    refine (List.mem_erase_of_ne ?_).2 hv
    rintro rfl
    exact hleaver hnone
  cases hstep with
  | call _ | setRoots _ _ | clearRequest _ => exact h
  | attach thread => exact h.forth id (fun _ => id) rfl (fun _ => List.mem_cons_of_mem _) hsame fun _ hv _ => hv
  | look _ _ => exact h.forth id (fun _ => id) rfl (fun _ => id) hsame fun _ hv _ => List.mem_cons_of_mem _ hv
  | note _ | read _ _ =>
    exact h.forth id (fun _ => id) rfl (fun _ => id) hsame fun v hv hleaver =>
      List.mem_cons_of_mem _ (herase rfl v hv hleaver)
  | send _ => exact h.forth id (fun _ => id) rfl (fun _ => id) ⟨_, rfl⟩ (herase rfl)
  | @leave id m hm =>
    intro hw id' hid'
    by_cases hsame : id' = id
    · subst hsame
      by_cases hlast : m.lastEpoch = w.epoch
      · -- It answered the epoch, with its roots being read, which its thread would have to finish.
        obtain ⟨r, hr, hid, -⟩ | hsent | ⟨-, hnot⟩ :=
          hnoted.noted (Stage.isNumbered_of_isAsked (Stage.isAsked_of_isWaiting hw)) m (System.mem_of_mutator hm) hlast
        · exact absurd (hid.trans (System.id_of_mutator hm)) (horderly _ _ rfl r hr)
        · exact .inr (.inl (System.id_of_mutator hm ▸ hsent))
        · exact absurd hid' (System.id_of_mutator hm ▸ hnot)
      · exact .inr (.inr (.inl ⟨_, hlast, List.mem_cons_self⟩))
    · refine (h hw id' hid').mono rfl (fun hattached => ?_) ⟨[], (List.append_nil _).symm⟩ fun v hv _ =>
        List.mem_cons_of_mem _ hv
      obtain ⟨p, hp, rfl⟩ := List.mem_map.1 hattached
      exact List.mem_map_of_mem (List.mem_filter.2 ⟨hp, by simpa using hsame⟩)
  | @part id lastEpoch epoch hv hdue =>
    intro hw id' hid'
    obtain rfl := hsh.eq_of_due (Stage.isPublished_of_isWaiting hw) hdue
    rcases h hw id' hid' with hattached | hsent | ⟨last, hne, hv'⟩ | hv'
    · exact .inl hattached
    · exact .inr (.inl hsent)
    · -- Whoever was about to look for an epoch has seen that of the cycle.
      by_cases heq : Visit.leaving id' last = .leaving id lastEpoch
      · cases heq
        exact .inr (.inr (.inr List.mem_cons_self))
      · exact .inr (.inr (.inl ⟨last, hne, List.mem_cons_of_mem _ ((List.mem_erase_of_ne heq).2 hv')⟩))
    · exact .inr (.inr (.inr (List.mem_cons_of_mem _ ((List.mem_erase_of_ne (by simp)).2 hv'))))
  | @partUnasked id lastEpoch hv hdue =>
    intro hw id' hid'
    rcases h hw id' hid' with hattached | hsent | ⟨last, hne, hv'⟩ | hv'
    · exact .inl hattached
    · exact .inr (.inl hsent)
    · -- Whoever finds nothing to answer has answered the epoch of the cycle.
      have hlast : last ≠ lastEpoch := by
        rintro rfl
        rw [hsh.due (Stage.isPublished_of_isWaiting hw) hne] at hdue
        cases hdue
      refine .inr (.inr (.inl ⟨last, hne, (List.mem_erase_of_ne fun heq => hlast ?_).2 hv'⟩))
      cases heq
      rfl
    · exact .inr (.inr (.inr ((List.mem_erase_of_ne (by simp)).2 hv')))
  | @sendLast id epoch hv =>
    intro hw id' hid'
    rcases h hw id' hid' with hattached | hsent | ⟨last, hne, hv'⟩ | hv'
    · exact .inl hattached
    · exact .inr (.inl (hsent.append rfl rfl))
    · exact .inr (.inr (.inl ⟨last, hne, (List.mem_erase_of_ne (by simp)).2 hv'⟩))
    · by_cases heq : Visit.parting id' w.epoch = .parting id epoch
      · cases heq
        exact .inr (.inl ⟨_, List.mem_append_right _ List.mem_cons_self, rfl, rfl⟩)
      · exact .inr (.inr (.inr ((List.mem_erase_of_ne heq).2 hv')))
  | close hclose =>
    obtain ⟨heap, -, hclose⟩ := bind_eq_ok_iff.1 hclose
    cases hclose
    exact h
  | @display collector _ hcore =>
    have hpending : collector.pending = w.pending := congrArg (·.pending) hcore
    have hregistered : collector.registered = w.system.collector.registered := congrArg (·.registered) hcore
    have hreports : collector.reports = w.system.collector.reports := congrArg (·.reports) hcore
    refine h.forth id (fun id (hid : id ∈ collector.pending) => hpending ▸ hid)
      (congrArg (·.epoch) hcore : collector.epoch = _) (fun id hid => ?_) ⟨[], hreports.trans (List.append_nil _).symm⟩
      fun _ hv _ => hv
    unfold Attached
    dsimp only
    rwa [hregistered]
  | snapshot _ => exact fun _ id hid => .inl hid
  | readOwn _ hstage _ | markNone hstage _ =>
    exact h.forth (fun _ => by rw [hstage]; rfl) (fun _ => id) rfl (fun _ => id) hsame fun _ hv _ => hv
  | markOwn hstage _ =>
    exact h.forth (fun _ => by rw [hstage]; rfl) (fun _ => List.mem_of_mem_erase) rfl (fun _ => id) hsame
      fun _ hv _ => hv
  | @receive r collector _ _ htake =>
    intro hw id' hid'
    obtain ⟨rest, pending, -, hcollector, -⟩ := receive_core htake
    rcases h hw id' (mem_pending_of_receive htake hid') with hattached | hsent | hdeparting
    · refine .inl ?_
      unfold Attached
      dsimp only
      rwa [hcollector]
    · exact .inr ((hsent.receive he htake).imp id fun hnot => absurd hid' hnot)
    · refine .inr (.inr ?_)
      unfold Departing World.epoch
      dsimp only
      rwa [hcollector]
  | _ => exact quiet rfl

end Awaited

/-- The invariants of all runs, each of which needs those before it. -/
theorem Run.noted (h : Run spans (.empty heap config) trace w) : Enrolled w ∧ Shown w ∧ Noted w := by
  induction h with
  | start => exact ⟨⟨.nil, nofun, .nil⟩, ⟨rfl, nofun⟩, ⟨nofun, nofun⟩⟩
  | step hrun hstep ih =>
    obtain ⟨henrolled, hshown, hnoted⟩ := ih
    exact ⟨henrolled.step hstep, hshown.step hstep, hnoted.step hrun.stamped henrolled hshown hstep⟩

theorem OrderlyRun.awaited (h : OrderlyRun spans (.empty heap config) trace w) :
    Enrolled w ∧ Shown w ∧ Noted w ∧ Awaited w := by
  have hawaited : Awaited w := by
    induction h with
    | start => exact .quiet rfl
    | step hrun hstep horderly ih =>
      obtain ⟨henrolled, hshown, hnoted⟩ := hrun.run.noted
      exact ih.step henrolled hshown hnoted hstep horderly
  obtain ⟨henrolled, hshown, hnoted⟩ := h.run.noted
  exact ⟨henrolled, hshown, hnoted, hawaited⟩

/-! ## A cycle waits for nobody who is gone for good -/

/-- Where a mutator is for which a cycle waits. -/
inductive Whereabouts (w : World) (id : MutatorId) : Prop
  | attached : w.Attached id → Whereabouts w id
  /-- Its report with the epoch of the cycle is in the queue. -/
  | sent {atoms : List Atom} : ⟨id, w.epoch, atoms⟩ ∈ w.system.collector.reports → Whereabouts w id
  /-- It left the list and is about to look for an epoch to answer, when it sends a report with that of the
  cycle. -/
  | leaving {lastEpoch : Nat} : ¬ w.Attached id → .leaving id lastEpoch ∈ w.visits →
      (∀ m : Mutator, m.id = id → m.lastEpoch = lastEpoch →
        w.system.sendLast m = w.system.send ⟨id, w.epoch, []⟩) → Whereabouts w id
  /-- It left the list and saw the epoch of the cycle, with which it is about to send a report. -/
  | parting : ¬ w.Attached id → .parting id w.epoch ∈ w.visits → Whereabouts w id

theorem Shown.whereabouts (h : Shown w) (hstage : w.stage.isWaiting = true) (hid : w.Accounted id) :
    w.Whereabouts id := by
  by_cases hattached : w.Attached id
  · exact .attached hattached
  · rcases hid with hid | ⟨r, hr, hid, hepoch⟩ | ⟨lastEpoch, hne, hv⟩ | hv
    · exact absurd hid hattached
    · obtain ⟨mutator, epoch, atoms⟩ := r
      cases hid
      cases hepoch
      exact .sent hr
    · refine .leaving hattached hv ?_
      rintro m rfl rfl
      unfold System.sendLast
      rw [h.due (Stage.isPublished_of_isWaiting hstage) hne]
    · exact .parting hattached hv

/-- While a cycle waits for reports, in whatever order mutators attach, report and leave: everybody it waits
for is attached, or has sent a report with its epoch, or has left the list and will send one in the step
that is left to it. -/
theorem awaited_answers (h : OrderlyRun spans (.empty heap config) trace w) (hstage : w.stage.isWaiting = true) :
    ∀ id ∈ w.pending, w.Whereabouts id := by
  obtain ⟨-, hshown, -, hawaited⟩ := h.awaited
  exact fun id hid => hshown.whereabouts hstage (hawaited hstage id hid)

/-- Two mutators are attached when the first runs a cycle, and the second leaves without having answered:
its last report, which is still to come, is the one that the cycle waits for. -/
theorem awaited_answers_leaving :
    ∃ trace w m, OrderlyRun (fun _ => True) (.empty (.empty ⟨32, 64, 2⟩ fun _ _ => true) {}) trace w ∧
      w.stage = .awaiting ∧ w.pending = [2] ∧ ¬ w.Attached 2 ∧ w.system.collector.reports = [] ∧
      w.system.mutator 2 = .ok m ∧ w.system.sendLast m = w.system.send ⟨2, 1, []⟩ := by
  have none := @OrderlyRun.start (fun _ => True) (.empty (.empty ⟨32, 64, 2⟩ fun _ _ => true) {})
  have attached := (none.forth (.attach 0) nofun).forth (.attach 1) nofun
  have begun := (attached.forth (.lock (some 1) rfl rfl rfl) nofun).forth (.begin rfl) nofun
  have asked := ((begun.forth (.number rfl) nofun).forth (.publish rfl) nofun).forth (.snapshot rfl) nofun
  have marked := asked.forth (.markOwn rfl rfl) nofun
  have left := marked.step (@Step.leave _ _ 2 _ rfl) fun _ _ _ _ => nofun
  refine ⟨_, _, _, left, rfl, rfl, by decide, rfl, rfl, ?_⟩
  cases awaited_answers left rfl 2 (.head _) with
  | attached hattached => exact absurd hattached (by decide)
  | sent hsent => cases hsent
  | @leaving lastEpoch _ hv hsend =>
    cases List.mem_singleton.1 hv
    exact hsend _ rfl rfl
  | parting _ hv => cases List.mem_singleton.1 hv

end AtomHeap.World
