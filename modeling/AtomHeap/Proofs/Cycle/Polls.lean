import AtomHeap.Proofs.Cycle.Departures
import Mathlib.Data.List.Nodup
/-!
# How often roots are asked for

The roots of a mutator are read for two reasons: it noted at a safe point that it answers the epoch of a cycle, or
it runs the cycle itself, which then asks it first of all. Of what it answered a mutator keeps the last epoch, so it
answers none twice. But a mutator that runs a cycle does not note the epoch of that as answered. If its roots are
being read and this takes it to a safe point, it sees the epoch and is asked again (`polled_twice`); in no other way
are roots read twice for one epoch (`polled_once`).
-/

namespace AtomHeap.World

variable {spans : Span → Prop} {w w' w₀ : World} {trace events : List Event} {config : Config} {heap : Heap}
  {id : MutatorId} {m : Mutator} {epoch : Nat} {passed answered own : List (MutatorId × Nat)}

/-! ## Runs with the calls for roots -/

/-- A mutator that saw an epoch, which it has yet to note. -/
def Visit.saw? : Visit → Option (MutatorId × Nat)
  | .saw id epoch => some (id, epoch)
  | _ => none

/-- The mutators that saw an epoch and did not note it yet. -/
def saws (w : World) : List (MutatorId × Nat) := w.visits.filterMap Visit.saw?

/-- Runs in which a mutator that saw an epoch notes it before it looks for another one, as its thread does one thing
after the other. They have three records, of mutators with epochs, the latest first: who looked for an epoch, and saw
one, while a cycle that it ran itself asked for roots; whose roots were read to answer an epoch; and whose roots were
read because it ran the cycle of that epoch. -/
inductive PolledRun (spans : Span → Prop) (w₀ : World) :
    List (MutatorId × Nat) → List (MutatorId × Nat) → List (MutatorId × Nat) → World → Prop
  | start : PolledRun spans w₀ [] [] [] w₀
  | look {passed answered own : List (MutatorId × Nat)} {w : World} {id : MutatorId} {m : Mutator} {epoch : Nat} :
      PolledRun spans w₀ passed answered own w → id ∉ w.saws.map (·.1) → w.system.mutator id = .ok m →
      w.system.collector.dueEpoch? m.lastEpoch = some epoch →
      PolledRun spans w₀ (if w.initiator = some id then (id, epoch) :: passed else passed) answered own
        { w with visits := .saw id epoch :: w.visits }
  | note {passed answered own : List (MutatorId × Nat)} {w : World} {id : MutatorId} {epoch : Nat} :
      PolledRun spans w₀ passed answered own w → .saw id epoch ∈ w.visits →
      PolledRun spans w₀ passed ((id, epoch) :: answered) own
        { w with
          system := w.system.updateMutator id ({ · with lastEpoch := epoch })
          visits := .reading ⟨id, epoch, []⟩ :: w.visits.erase (.saw id epoch) }
  | snapshot {passed answered own : List (MutatorId × Nat)} {w : World} :
      PolledRun spans w₀ passed answered own w → w.stage = .published →
      PolledRun spans w₀ passed answered (w.initiator.toList.map (·, w.epoch) ++ own)
        { w with system := w.system.onCollector .snapshot, stage := .asked [] }
  | other {passed answered own : List (MutatorId × Nat)} {w w' : World} {events : List Event} :
      PolledRun spans w₀ passed answered own w → Step spans w events w' → w'.saws = w.saws →
      (w.stage = .published → w'.stage = .published) → PolledRun spans w₀ passed answered own w'

theorem PolledRun.run (h : PolledRun spans w₀ passed answered own w) : ∃ trace, Run spans w₀ trace w := by
  induction h with
  | start => exact ⟨_, .start⟩
  | look _ _ hm hdue ih =>
    obtain ⟨_, ih⟩ := ih
    exact ⟨_, ih.step (.look hm hdue)⟩
  | note _ hv ih =>
    obtain ⟨_, ih⟩ := ih
    exact ⟨_, ih.step (.note hv)⟩
  | snapshot _ hstage ih =>
    obtain ⟨_, ih⟩ := ih
    exact ⟨_, ih.step (.snapshot hstage)⟩
  | other _ hstep _ _ ih =>
    obtain ⟨_, ih⟩ := ih
    exact ⟨_, ih.step hstep⟩

theorem saws_cons (v : Visit) (visits : List Visit) (w : World) :
    saws { w with visits := v :: visits } = v.saw?.toList ++ saws { w with visits } := by
  unfold saws
  cases hv : v.saw? <;> simp [hv]

theorem saws_erase {v : Visit} {visits : List Visit} (hv : v ∈ visits) (w : World) :
    (saws { w with visits }).Perm (v.saw?.toList ++ saws { w with visits := visits.erase v }) := by
  rw [← saws_cons]
  exact (List.perm_cons_erase hv).filterMap _

/-- Visits in which no epoch is seen end without a trace. -/
theorem saws_erase_of_none {v : Visit} (hv : v.saw? = none) (visits : List Visit) (w : World) :
    saws { w with visits := visits.erase v } = saws { w with visits } := by
  unfold saws
  dsimp only
  induction visits with
  | nil => rfl
  | cons v' visits ih =>
    by_cases heq : v' = v
    · rw [heq, List.erase_cons_head, List.filterMap_cons_none hv]
    · rw [List.erase_cons_tail (by simpa using heq), List.filterMap_cons, List.filterMap_cons, ih]

/-- Every step of a system is one of such a run, if the mutator that looks for an epoch has none to note. -/
theorem PolledRun.forth (h : PolledRun spans w₀ passed answered own w) (hstep : Step spans w events w')
    (hfree : ∀ id epoch, w'.visits = .saw id epoch :: w.visits → id ∉ w.saws.map (·.1)) :
    ∃ passed' answered' own', PolledRun spans w₀ (passed' ++ passed) (answered' ++ answered) (own' ++ own) w' := by
  have hother (hsaws : w'.saws = w.saws) (hstage : w.stage = .published → w'.stage = .published) :
      ∃ passed' answered' own', PolledRun spans w₀ (passed' ++ passed) (answered' ++ answered) (own' ++ own) w' :=
    ⟨[], [], [], h.other hstep hsaws hstage⟩
  cases hstep with
  | @look id m epoch hm hdue =>
    have hlook := h.look (hfree id epoch rfl) hm hdue
    split at hlook
    · exact ⟨[(id, epoch)], [], [], hlook⟩
    · exact ⟨[], [], [], hlook⟩
  | @note id epoch hv => exact ⟨[], [(id, epoch)], [], h.note hv⟩
  | snapshot hstage => exact ⟨[], [], _, h.snapshot hstage⟩
  | read _ hv | send hv | part hv _ | partUnasked hv _ | sendLast hv =>
    exact hother (saws_erase_of_none rfl _ _) id
  | hold hstage _ | release hstage | lock _ hstage _ _ | decline hstage | rest hstage | begin hstage | number hstage
  | readOwn _ hstage _ | markOwn hstage _ | markNone hstage _ | finish hstage _ | timeOut hstage _ | abort hstage
  | postpone hstage | sweep hstage _ _ =>
    exact hother rfl fun hpublished => nomatch hstage.symm.trans hpublished
  | publish _ => exact hother rfl fun _ => rfl
  | _ => exact hother rfl id

/-! ## Whose roots are read to answer -/

/-- A step that is not that of noting an epoch leaves mutators as they are, but for one that attaches or leaves. -/
theorem Step.mutators_kept (h : Step spans w events w') (hsaws : w'.saws = w.saws) :
    w.system.collector.nextMutator ≤ w'.system.collector.nextMutator ∧
      ∀ m' ∈ w'.system.mutators, (∃ m ∈ w.system.mutators, m.id = m'.id ∧ m.lastEpoch = m'.lastEpoch) ∨
        m'.id = w.system.collector.nextMutator ∧ m'.id < w'.system.collector.nextMutator := by
  have hsame : ∀ m' ∈ w.system.mutators, (∃ m ∈ w.system.mutators, m.id = m'.id ∧ m.lastEpoch = m'.lastEpoch) ∨
      m'.id = w.system.collector.nextMutator ∧ m'.id < w'.system.collector.nextMutator :=
    fun m' hm' => .inl ⟨m', hm', rfl, rfl⟩
  cases h with
  | attach thread =>
    refine ⟨Nat.le_succ _, fun m' hm' => ?_⟩
    rcases List.mem_append.1 hm' with hm' | hm'
    · exact hsame m' hm'
    · rw [List.mem_singleton.1 hm']
      exact .inr ⟨rfl, Nat.lt_succ_self _⟩
  | setRoots id roots =>
    refine ⟨Nat.le_refl _, fun m' hm' => ?_⟩
    obtain ⟨m, hm, rfl⟩ := List.mem_map.1 hm'
    refine .inl ⟨m, hm, ?_⟩
    split <;> exact ⟨rfl, rfl⟩
  | @note id epoch hv =>
    -- One mutator fewer has an epoch to note.
    have hlength : w.saws.length = _ := (saws_erase hv w).length_eq
    have hsame : (saws { w with visits := w.visits.erase (.saw id epoch) }).length = w.saws.length :=
      congrArg List.length hsaws
    rw [List.length_append, hsame] at hlength
    exact absurd hlength (Nat.ne_of_lt (Nat.lt_add_of_pos_left Nat.one_pos))
  | close hclose =>
    obtain ⟨heap, -, hclose⟩ := bind_eq_ok_iff.1 hclose
    cases hclose
    exact ⟨Nat.le_refl _, fun m' hm' => hsame m' (List.mem_of_mem_filter hm')⟩
  | @display collector _ hcore =>
    have hnext : collector.nextMutator = w.system.collector.nextMutator := congrArg (·.nextMutator) hcore
    exact ⟨Nat.le_of_eq hnext.symm, hsame⟩
  | @receive r collector _ _ htake =>
    obtain ⟨rest, pending, -, hcollector, -⟩ := receive_core htake
    have hmutators : ({ w.system with collector }.receive r).mutators = w.system.mutators :=
      (receive_frame { w.system with collector } r).1
    have hnext := congrArg (·.nextMutator) hcollector
    refine ⟨Nat.le_of_eq hnext.symm, ?_⟩
    dsimp only
    rw [hmutators]
    exact hsame
  | _ => exact ⟨Nat.le_refl _, hsame⟩

/-- Whoever has an epoch to answer sees that of the cycle, which is not the last one it answered. -/
theorem Shown.of_due {lastEpoch : Nat} (h : Shown w) (hdue : w.system.collector.dueEpoch? lastEpoch = some epoch) :
    w.stage.isPublished = true ∧ epoch = w.epoch ∧ lastEpoch ≠ w.epoch := by
  have hactive := h.active
  unfold Collector.dueEpoch? at hdue
  split at hdue
  · rename_i hasks
    cases hdue
    split at hactive
    · rename_i hstage
      exact ⟨hstage, hactive, fun heq => hasks.2 (hactive.trans heq.symm)⟩
    · exact absurd hactive hasks.1
  · cases hdue

/-- Whoever noted an epoch as answered has that noted still, or a later one. -/
structure Heeded (answered : List (MutatorId × Nat)) (w : World) : Prop where
  known : ∀ m ∈ w.system.mutators, m.id < w.system.collector.nextMutator
  kept : ∀ x ∈ answered, x.1 < w.system.collector.nextMutator ∧
    ∀ m ∈ w.system.mutators, m.id = x.1 → x.2 ≤ m.lastEpoch
  /-- An epoch that a mutator saw is later than those it answered. -/
  later : ∀ x ∈ w.saws, x.1 < w.system.collector.nextMutator ∧ ∀ y ∈ answered, y.1 = x.1 → y.2 < x.2
  busy : (w.saws.map (·.1)).Nodup
  once : answered.Nodup

namespace Heeded

theorem look (h : Heeded answered w) (hshown : Shown w) (hnoted : Noted w) (hfree : id ∉ w.saws.map (·.1))
    (hm : w.system.mutator id = .ok m) (hdue : w.system.collector.dueEpoch? m.lastEpoch = some epoch) :
    Heeded answered { w with visits := .saw id epoch :: w.visits } := by
  have hmem := System.mem_of_mutator hm
  have hid := System.id_of_mutator hm
  refine ⟨h.known, h.kept, ?_, List.nodup_cons.2 ⟨hfree, h.busy⟩, h.once⟩
  intro x hx
  rcases List.mem_cons.1 hx with rfl | hx
  · refine ⟨hid ▸ h.known m hmem, fun y hy hyid => ?_⟩
    have hle := (h.kept y hy).2 m hmem (hid.trans hyid.symm)
    obtain ⟨-, rfl, hne⟩ := hshown.of_due hdue
    exact Nat.lt_of_le_of_lt hle (Nat.lt_of_le_of_ne (hnoted.bounded m hmem) hne)
  · exact h.later x hx

theorem note (h : Heeded answered w) (hv : .saw id epoch ∈ w.visits) :
    Heeded ((id, epoch) :: answered)
      { w with
        system := w.system.updateMutator id ({ · with lastEpoch := epoch })
        visits := .reading ⟨id, epoch, []⟩ :: w.visits.erase (.saw id epoch) } := by
  have hperm : w.saws.Perm ((id, epoch) :: saws { w with visits := w.visits.erase (.saw id epoch) }) := saws_erase hv w
  have hbusy := List.nodup_cons.1 ((hperm.map (·.1)).nodup_iff.1 h.busy)
  obtain ⟨hknown, hlater⟩ := h.later (id, epoch) (hperm.symm.subset List.mem_cons_self)
  refine ⟨?_, ?_, ?_, hbusy.2, List.nodup_cons.2 ⟨fun hmem => Nat.lt_irrefl _ (hlater _ hmem rfl), h.once⟩⟩
  · intro m' hm'
    obtain ⟨m, hm, rfl⟩ := List.mem_map.1 hm'
    split <;> exact h.known m hm
  · intro x hx
    refine ⟨?_, fun m' hm' hid => ?_⟩
    · rcases List.mem_cons.1 hx with rfl | hx
      · exact hknown
      · exact (h.kept x hx).1
    · obtain ⟨m, hm, rfl⟩ := List.mem_map.1 hm'
      by_cases hmid : m.id = id
      · rw [if_pos hmid] at hid ⊢
        rcases List.mem_cons.1 hx with rfl | hx
        · exact Nat.le_refl _
        · exact Nat.le_of_lt (hlater x hx (hid.symm.trans hmid))
      · rw [if_neg hmid] at hid ⊢
        rcases List.mem_cons.1 hx with rfl | hx
        · exact absurd hid hmid
        · exact (h.kept x hx).2 m hm hid
  · intro x hx
    obtain ⟨hxknown, hxlater⟩ := h.later x (hperm.symm.subset (List.mem_cons_of_mem _ hx))
    refine ⟨hxknown, fun y hy hyid => ?_⟩
    rcases List.mem_cons.1 hy with rfl | hy
    · -- It is not in the middle of a second visit.
      exact absurd (List.mem_map.2 ⟨x, hx, hyid.symm⟩) hbusy.1
    · exact hxlater y hy hyid

theorem other (h : Heeded answered w) (hstep : Step spans w events w') (hsaws : w'.saws = w.saws) :
    Heeded answered w' := by
  obtain ⟨hnext, hmutators⟩ := hstep.mutators_kept hsaws
  refine ⟨fun m' hm' => ?_, fun x hx => ⟨Nat.lt_of_lt_of_le (h.kept x hx).1 hnext, fun m' hm' hid => ?_⟩, ?_, ?_, h.once⟩
  · rcases hmutators m' hm' with ⟨m, hm, hid, -⟩ | ⟨-, hlt⟩
    · exact hid ▸ Nat.lt_of_lt_of_le (h.known m hm) hnext
    · exact hlt
  · rcases hmutators m' hm' with ⟨m, hm, hsame, hlast⟩ | ⟨hnew, -⟩
    · exact hlast ▸ (h.kept x hx).2 m hm (hsame.trans hid)
    · -- A new mutator has a number of its own.
      exact absurd (h.kept x hx).1 (hid.symm.trans hnew ▸ Nat.lt_irrefl _)
  · rw [hsaws]
    exact fun x hx => ⟨Nat.lt_of_lt_of_le (h.later x hx).1 hnext, (h.later x hx).2⟩
  · rw [hsaws]
    exact h.busy

end Heeded

/-! ## Whose roots are read for a cycle of its own -/

/-- The cycle goes on, or gets an epoch that no cycle had. -/
theorem Step.cycle_kept (h : Step spans w events w') (hstage : w.stage = .published → w'.stage = .published) :
    w'.epoch = w.epoch ∧ (w'.stage.isNumbered = true →
        w.stage.isNumbered = true ∧ w'.initiator = w.initiator ∧ (w.stage.isAsked = true → w'.stage.isAsked = true)) ∨
      w'.epoch = w.epoch + 1 ∧ w'.stage = .numbered := by
  have hsame : w.stage.isNumbered = true → w.stage.isNumbered = true ∧ w.initiator = w.initiator ∧
      (w.stage.isAsked = true → w.stage.isAsked = true) := fun hn => ⟨hn, rfl, id⟩
  cases h with
  | number _ => exact .inr ⟨rfl, rfl⟩
  | close hclose =>
    obtain ⟨-, hcollector⟩ := closeMutator_eq hclose
    exact .inl ⟨congrArg (·.epoch) hcollector, hsame⟩
  | @display collector _ hcore => exact .inl ⟨(congrArg (·.epoch) hcore : collector.epoch = _), hsame⟩
  | receive _ _ htake =>
    obtain ⟨rest, pending, -, hcollector, -⟩ := receive_core htake
    exact .inl ⟨congrArg (·.epoch) hcollector, hsame⟩
  | snapshot hpublished => exact nomatch hstage hpublished
  | publish hnumbered => exact .inl ⟨rfl, fun _ => by rw [hnumbered]; exact ⟨rfl, rfl, nofun⟩⟩
  | readOwn _ hasked _ | markOwn hasked _ | markNone hasked _ | finish hasked _ =>
    exact .inl ⟨rfl, fun _ => by rw [hasked]; exact ⟨rfl, rfl, fun _ => rfl⟩⟩
  | hold _ _ | release _ | lock _ _ _ _ | decline _ | rest _ | begin _ | timeOut _ _ | abort _ | postpone _
  | sweep _ _ _ => exact .inl ⟨rfl, nofun⟩
  | _ => exact .inl ⟨rfl, hsame⟩

/-- A mutator whose roots are read twice for one epoch looked for it while it ran the cycle. -/
structure ReadOnce (passed answered own : List (MutatorId × Nat)) (w : World) : Prop where
  bounded : ∀ x, x ∈ w.saws ∨ x ∈ answered → x.2 ≤ w.epoch
  /-- The roots of the mutator that runs the cycle are read when it is settled who is waited for. -/
  ran : ∀ x ∈ own, x.2 ≤ w.epoch ∧
    (w.stage.isNumbered = true → x.2 = w.epoch → w.stage.isAsked = true ∧ w.initiator = some x.1)
  single : ∀ x, x ∈ w.saws ∨ x ∈ answered → x ∉ passed →
    x ∉ own ∧ (w.stage.isNumbered = true → x.2 = w.epoch → w.initiator ≠ some x.1)
  once : own.Nodup

namespace ReadOnce

theorem look (h : ReadOnce passed answered own w) (hshown : Shown w)
    (hdue : w.system.collector.dueEpoch? m.lastEpoch = some epoch) :
    ReadOnce (if w.initiator = some id then (id, epoch) :: passed else passed) answered own
      { w with visits := .saw id epoch :: w.visits } := by
  obtain ⟨hpublished, rfl, -⟩ := hshown.of_due hdue
  have hnumbered := Stage.isNumbered_of_isPublished hpublished
  refine ⟨?_, h.ran, ?_, h.once⟩
  · rintro x (hx | hx)
    · rcases List.mem_cons.1 hx with rfl | hx
      · exact Nat.le_refl _
      · exact h.bounded x (.inl hx)
    · exact h.bounded x (.inr hx)
  · intro x hx hnot
    have hnot' : x ∉ passed := fun hmem => hnot (by split <;> simp [hmem])
    by_cases hnew : x = (id, w.epoch)
    · subst hnew
      -- It does not run the cycle, so its roots were not read for that.
      have hne : w.initiator ≠ some id := fun hinitiator => hnot (by rw [if_pos hinitiator]; exact List.mem_cons_self)
      exact ⟨fun hmem => hne ((h.ran _ hmem).2 hnumbered rfl).2, fun _ _ => hne⟩
    · refine h.single x (hx.imp_left fun hx => ?_) hnot'
      exact (List.mem_cons.1 hx).resolve_left hnew

theorem note (h : ReadOnce passed answered own w) (hv : .saw id epoch ∈ w.visits) :
    ReadOnce passed ((id, epoch) :: answered) own
      { w with
        system := w.system.updateMutator id ({ · with lastEpoch := epoch })
        visits := .reading ⟨id, epoch, []⟩ :: w.visits.erase (.saw id epoch) } := by
  have hperm : w.saws.Perm ((id, epoch) :: saws { w with visits := w.visits.erase (.saw id epoch) }) := saws_erase hv w
  have hbefore : ∀ x, x ∈ saws { w with visits := w.visits.erase (.saw id epoch) } ∨ x ∈ (id, epoch) :: answered →
      x ∈ w.saws ∨ x ∈ answered := by
    rintro x (hx | hx)
    · exact .inl (hperm.symm.subset (List.mem_cons_of_mem _ hx))
    · rcases List.mem_cons.1 hx with rfl | hx
      · exact .inl (hperm.symm.subset List.mem_cons_self)
      · exact .inr hx
  exact ⟨fun x hx => h.bounded x (hbefore x hx), h.ran, fun x hx => h.single x (hbefore x hx), h.once⟩

theorem snapshot (h : ReadOnce passed answered own w) (hstage : w.stage = .published) :
    ReadOnce passed answered (w.initiator.toList.map (·, w.epoch) ++ own)
      { w with system := w.system.onCollector .snapshot, stage := .asked [] } := by
  have hnumbered : w.stage.isNumbered = true := by rw [hstage]; rfl
  -- No roots were read for this epoch before it was settled who is waited for.
  have hlt : ∀ x ∈ own, x.2 < w.epoch := fun x hx => by
    obtain ⟨hle, hran⟩ := h.ran x hx
    refine Nat.lt_of_le_of_ne hle fun heq => ?_
    have hasked := (hran hnumbered heq).1
    rw [hstage] at hasked
    cases hasked
  refine ⟨h.bounded, fun x hx => ?_, fun x hx hnot => ?_, ?_⟩
  · rcases List.mem_append.1 hx with hx | hx
    · obtain ⟨id, hid, rfl⟩ := List.mem_map.1 hx
      exact ⟨Nat.le_refl _, fun _ _ => ⟨rfl, Option.mem_toList.1 hid⟩⟩
    · exact ⟨Nat.le_of_lt (hlt x hx), fun _ heq => absurd heq (Nat.ne_of_lt (hlt x hx))⟩
  · obtain ⟨hnotOwn, hother⟩ := h.single x hx hnot
    refine ⟨fun hmem => ?_, fun _ => hother hnumbered⟩
    rcases List.mem_append.1 hmem with hmem | hmem
    · obtain ⟨id, hid, rfl⟩ := List.mem_map.1 hmem
      exact hother hnumbered rfl (Option.mem_toList.1 hid)
    · exact hnotOwn hmem
  · cases w.initiator with
    | none => exact h.once
    | some id => exact List.nodup_cons.2 ⟨fun hmem => Nat.lt_irrefl _ (hlt _ hmem), h.once⟩

theorem other (h : ReadOnce passed answered own w) (hstep : Step spans w events w') (hsaws : w'.saws = w.saws)
    (hstage : w.stage = .published → w'.stage = .published) : ReadOnce passed answered own w' := by
  rcases hstep.cycle_kept hstage with ⟨hepoch, hcycle⟩ | ⟨hepoch, -⟩
  · refine ⟨?_, fun x hx => ?_, ?_, h.once⟩
    · rw [hepoch, hsaws]
      exact h.bounded
    · obtain ⟨hle, hran⟩ := h.ran x hx
      rw [hepoch]
      refine ⟨hle, fun hnumbered heq => ?_⟩
      obtain ⟨hbefore, hinitiator, hasked⟩ := hcycle hnumbered
      obtain ⟨hwas, hsame⟩ := hran hbefore heq
      exact ⟨hasked hwas, hinitiator.trans hsame⟩
    · rw [hepoch, hsaws]
      intro x hx hnot
      obtain ⟨hnotOwn, hother⟩ := h.single x hx hnot
      refine ⟨hnotOwn, fun hnumbered heq => ?_⟩
      obtain ⟨hbefore, hinitiator, -⟩ := hcycle hnumbered
      exact hinitiator ▸ hother hbefore heq
  · -- Nobody has seen the new epoch.
    have hnew : ∀ {e}, e ≤ w.epoch → e ≤ w'.epoch ∧ e ≠ w'.epoch := fun hle => by omega
    refine ⟨?_, fun x hx => ?_, ?_, h.once⟩
    · rw [hsaws]
      exact fun x hx => (hnew (h.bounded x hx)).1
    · obtain ⟨hle, hne⟩ := hnew (h.ran x hx).1
      exact ⟨hle, fun _ heq => absurd heq hne⟩
    · rw [hsaws]
      exact fun x hx hnot => ⟨(h.single x hx hnot).1, fun _ heq => absurd heq (hnew (h.bounded x hx)).2⟩

end ReadOnce

/-! ## How often roots are read -/

theorem PolledRun.heeded (h : PolledRun spans (.empty heap config) passed answered own w) : Heeded answered w := by
  induction h with
  | start => exact ⟨nofun, nofun, nofun, .nil, .nil⟩
  | look hrun hfree hm hdue ih =>
    obtain ⟨trace, hrun⟩ := hrun.run
    obtain ⟨-, hshown, hnoted⟩ := hrun.noted
    exact ih.look hshown hnoted hfree hm hdue
  | note _ hv ih => exact ih.note hv
  | snapshot _ _ ih => exact ⟨ih.known, ih.kept, ih.later, ih.busy, ih.once⟩
  | other _ hstep hsaws _ ih => exact ih.other hstep hsaws

theorem PolledRun.readOnce (h : PolledRun spans (.empty heap config) passed answered own w) :
    ReadOnce passed answered own w := by
  induction h with
  | start => exact ⟨nofun, nofun, nofun, .nil⟩
  | look hrun _ _ hdue ih =>
    obtain ⟨trace, hrun⟩ := hrun.run
    exact ih.look hrun.noted.2.1 hdue
  | note _ hv ih => exact ih.note hv
  | snapshot _ hstage ih => exact ih.snapshot hstage
  | other _ hstep hsaws hstage ih => exact ih.other hstep hsaws hstage

/-- In whatever order mutators and cycles work, cycles that are given up among them: the roots of a mutator are read
at most once to answer an epoch, and at most once because it runs the cycle of that epoch. They are read for both
reasons only if it passed a safe point and saw the epoch while its own cycle asked for roots. -/
theorem polled_once (h : PolledRun spans (.empty heap config) passed answered own w) :
    answered.Nodup ∧ own.Nodup ∧ ∀ x, x ∉ passed → answered.count x + own.count x ≤ 1 := by
  have hanswered := h.heeded.once
  have hown := h.readOnce.once
  refine ⟨hanswered, hown, fun x hx => ?_⟩
  by_cases hmem : x ∈ answered
  · have hnot := (h.readOnce.single x (.inr hmem) hx).1
    rw [List.count_eq_zero_of_not_mem hnot]
    exact List.nodup_iff_count_le_one.1 hanswered x
  · rw [List.count_eq_zero_of_not_mem hmem, Nat.zero_add]
    exact List.nodup_iff_count_le_one.1 hown x

/-- A mutator runs a cycle, which another one answers and which is given up, and then the other runs one. -/
theorem polled_once_two_cycles :
    ∃ passed answered own w,
      PolledRun (fun _ => True) (.empty (.empty ⟨32, 64, 2⟩ fun _ _ => true) {}) passed answered own w ∧
      passed = [] ∧ answered = [(1, 2), (2, 1)] ∧ own = [(2, 2), (1, 1)] ∧
      answered.count (1, 1) + own.count (1, 1) ≤ 1 ∧ answered.count (1, 2) + own.count (1, 2) ≤ 1 := by
  have none := @PolledRun.start (fun _ => True) (.empty (.empty ⟨32, 64, 2⟩ fun _ _ => true) {})
  have attached := (none.other (.attach 0) rfl nofun).other (.attach 1) rfl nofun
  have begun := (attached.other (.lock (some 1) rfl rfl rfl) rfl nofun).other (.begin rfl) rfl nofun
  have shown := (begun.other (.number rfl) rfl nofun).other (.publish rfl) rfl fun _ => rfl
  have asked := shown.snapshot rfl
  have looked := asked.look (by decide) (rfl : System.mutator _ 2 = _) rfl
  have noted := looked.note (.head _)
  have late := (noted.other (.markOwn rfl rfl) rfl nofun).other (.timeOut rfl (by decide)) rfl nofun
  have ended := (late.other (.abort rfl) rfl nofun).other (.postpone rfl) rfl nofun
  have rested := (ended.other (.rest rfl) rfl nofun).other (.lock (some 2) rfl rfl rfl) rfl nofun
  have again := (rested.other (.begin rfl) rfl nofun).other (.number rfl) rfl nofun
  have asked' := (again.other (.publish rfl) rfl fun _ => rfl).snapshot rfl
  have noted' := (asked'.look (by decide) (rfl : System.mutator _ 1 = _) rfl).note (.head _)
  obtain ⟨-, -, honce⟩ := polled_once noted'
  exact ⟨_, _, _, _, noted', rfl, rfl, rfl, honce _ (by decide), honce _ (by decide)⟩

/-- The roots of the mutator that runs a cycle are read, which takes it to a safe point, and so they are read once
more for the same epoch. -/
theorem polled_twice :
    ∃ passed answered own w,
      PolledRun (fun _ => True) (.empty (.empty ⟨32, 64, 2⟩ fun _ _ => true) {}) passed answered own w ∧
      answered.count (1, 1) + own.count (1, 1) = 2 := by
  have none := @PolledRun.start (fun _ => True) (.empty (.empty ⟨32, 64, 2⟩ fun _ _ => true) {})
  have locked := (none.other (.attach 0) rfl nofun).other (.lock (some 1) rfl rfl rfl) rfl nofun
  have begun := (locked.other (.begin rfl) rfl nofun).other (.number rfl) rfl nofun
  have asked := (begun.other (.publish rfl) rfl fun _ => rfl).snapshot rfl
  have looked := asked.look (by decide) (rfl : System.mutator _ 1 = _) rfl
  have noted := looked.note (.head _)
  exact ⟨_, _, _, _, noted, by decide⟩

end AtomHeap.World
