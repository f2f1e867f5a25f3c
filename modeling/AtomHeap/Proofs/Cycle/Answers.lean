import AtomHeap.Proofs.Cycle.Epochs
/-!
# Whom a cycle waits for

The invariant `Answered`: whoever a cycle asked for roots is still waited for, runs the cycle, or has a
report of the cycle that was applied.
-/

namespace AtomHeap.World

variable {spans : Span → Prop} {w w' : World} {trace events : List Event}

/-- A report of a mutator with an epoch was applied. -/
def Reported (trace : List Event) (id : MutatorId) (epoch : Nat) : Prop :=
  ∃ r, .applied r ∈ trace ∧ r.mutator = id ∧ r.epoch = epoch

/-- Nobody whom the cycle asked is forgotten. -/
structure Answered (trace : List Event) (w : World) : Prop where
  asked : w.stage.isNumbered = true → ∀ initiator ids, .asked w.epoch initiator ids ∈ trace →
    w.stage.isAsked = true ∧ initiator = w.initiator ∧
      ∀ id ∈ ids, id ∈ w.pending ∨ some id = initiator ∨ Reported trace id w.epoch
  snapshot : w.stage.isAsked = true → ∃ initiator ids, .asked w.epoch initiator ids ∈ sinceBegan trace
  complete : w.stage = .complete → w.pending = []

theorem Reported.append {id : MutatorId} {epoch : Nat} (h : Reported trace id epoch) (events : List Event) :
    Reported (events ++ trace) id epoch := by
  obtain ⟨r, hr, hid, hepoch⟩ := h
  exact ⟨r, List.mem_append_right _ hr, hid, hepoch⟩

/-- There is nobody to wait for before the cycle has its epoch. -/
theorem answered_of_not (h : w.stage.isNumbered = false) (trace : List Event) : Answered trace w where
  asked hn := by
    rw [h] at hn
    cases hn
  snapshot ha := by
    rw [Stage.isNumbered_of_isAsked ha] at h
    cases h
  complete hc := by
    rw [hc] at h
    cases h

namespace Answered

/-- Nobody new is asked, and whoever is waited for no longer runs the cycle or has a report that is
applied. -/
theorem keep (h : Answered trace w) (hnumbered : w'.stage.isNumbered = true → w.stage.isNumbered = true)
    (hasked : w'.stage.isNumbered = true → w'.stage.isAsked = w.stage.isAsked)
    (hinitiator : w'.initiator = w.initiator)
    (hepoch : w'.epoch = w.epoch) (hbegan : .began ∉ events) (hnobody : ∀ e i ids, .asked e i ids ∉ events)
    (hpending : ∀ id ∈ w.pending, id ∈ w'.pending ∨ some id = w.initiator ∨ Reported events id w.epoch)
    (hcomplete : w'.stage = .complete → w'.pending = []) : Answered (events ++ trace) w' where
  asked hn initiator ids hids := by
    rw [hepoch] at hids ⊢
    rcases List.mem_append.1 hids with hids | hids
    · exact absurd hids (hnobody _ _ _)
    · obtain ⟨ha, hi, hall⟩ := h.asked (hnumbered hn) initiator ids hids
      refine ⟨(hasked hn).trans ha, hi.trans hinitiator.symm, fun id hid => ?_⟩
      rcases hall id hid with hid | hid | hid
      · rcases hpending id hid with hid | hid | ⟨r, hr, hrid, hrepoch⟩
        · exact .inl hid
        · exact .inr (.inl (hid.trans hi.symm))
        · exact .inr (.inr ⟨r, List.mem_append_left _ hr, hrid, hrepoch⟩)
      · exact .inr (.inl hid)
      · exact .inr (.inr (hid.append events))
  snapshot ha := by
    have hn := Stage.isNumbered_of_isAsked ha
    obtain ⟨initiator, ids, hids⟩ := h.snapshot ((hasked hn).symm.trans ha)
    refine ⟨initiator, ids, ?_⟩
    rw [hepoch, sinceBegan_append hbegan]
    exact List.mem_append_right _ hids
  complete := hcomplete

theorem aside (h : Answered trace w) (hstage : w'.stage = w.stage) (hinitiator : w'.initiator = w.initiator)
    (hepoch : w'.epoch = w.epoch) (hpending : w'.pending = w.pending) : Answered ([] ++ trace) w' := by
  refine h.keep ?_ ?_ hinitiator hepoch nofun nofun (fun _ hid => .inl (hpending ▸ hid)) ?_
  · rw [hstage]
    exact id
  · intro _
    rw [hstage]
  · intro hc
    rw [hpending]
    exact h.complete (hstage.symm.trans hc)

/-- The cycle goes on, with everybody it waited for. -/
theorem forth (h : Answered trace w) (hnumbered : w.stage.isNumbered = true)
    (hasked : w'.stage.isAsked = w.stage.isAsked)
    (hinitiator : w'.initiator = w.initiator) (hepoch : w'.epoch = w.epoch)
    (hpending : w'.pending = w.pending)
    (hcomplete : w'.stage = .complete → w'.pending = []) : Answered ([] ++ trace) w' :=
  h.keep (fun _ => hnumbered) (fun _ => hasked) hinitiator hepoch nofun nofun
    (fun _ hid => .inl (hpending ▸ hid)) hcomplete

theorem step (h : Answered trace w) (hst : Stamped trace w) (hstep : Step spans w events w') :
    Answered (events ++ trace) w' := by
  cases hstep with
  | call _ =>
    refine h.keep ?_ ?_ ?_ ?_ (by simp) (by simp) (fun _ => .inl) ?_
    · exact id
    · exact fun _ => rfl
    · rfl
    · rfl
    · exact h.complete
  | @close _ system hclose =>
    have hcollector : system.collector = w.system.collector := (closeMutator_eq hclose).2
    exact h.aside rfl rfl (congrArg (·.epoch) hcollector) (congrArg (·.pending) hcollector)
  | @display collector _ hcore =>
    exact h.aside rfl rfl (congrArg (·.epoch) hcore : collector.epoch = _)
      (congrArg (·.pending) hcore : collector.pending = _)
  | hold _ _ => exact answered_of_not rfl trace
  | release _ => exact answered_of_not rfl trace
  | lock _ _ _ _ => exact answered_of_not rfl trace
  | decline _ => exact answered_of_not rfl trace
  | rest _ => exact answered_of_not rfl trace
  | timeOut _ _ => exact answered_of_not rfl trace
  | abort _ => exact answered_of_not rfl trace
  | postpone _ => exact answered_of_not rfl trace
  | sweep _ _ _ => exact answered_of_not rfl _
  | begin _ => exact answered_of_not rfl _
  | number hstage =>
    -- Nobody was asked for roots with the new epoch yet.
    refine ⟨fun _ initiator ids hids => ?_, nofun, nofun⟩
    exact absurd (hst.trace _ hids _ rfl) (Nat.not_succ_le_self _)
  | publish hstage => exact h.forth (by rw [hstage]; rfl) (by rw [hstage]; rfl) rfl rfl rfl nofun
  | snapshot hstage =>
    refine ⟨fun _ initiator ids hids => ⟨rfl, ?_⟩, fun _ => ⟨_, _, List.mem_cons_self⟩, nofun⟩
    rcases List.mem_cons.1 hids with heq | hids
    · cases heq
      exact ⟨rfl, fun id hid => .inl hid⟩
    · -- Before the snapshot nobody was asked with the epoch.
      obtain ⟨ha, -⟩ := h.asked (by rw [hstage]; rfl) initiator ids hids
      rw [hstage] at ha
      cases ha
  | readOwn a hstage _ => exact h.forth (by rw [hstage]; rfl) (by rw [hstage]; rfl) rfl rfl rfl nofun
  | @markOwn id atoms hstage hinitiator =>
    refine h.keep ?_ ?_ ?_ ?_ ?_ ?_ ?_ nofun
    · intro _
      rw [hstage]
      rfl
    · intro _
      rw [hstage]
      rfl
    · rfl
    · rfl
    · simp
    · simp
    · intro id' hid'
      -- Whoever runs the cycle is no longer waited for.
      by_cases heq : id' = id
      · exact .inr (.inl (by rw [heq, hinitiator]))
      · exact .inl ((List.mem_erase_of_ne heq).2 hid')
  | markNone hstage _ => exact h.forth (by rw [hstage]; rfl) (by rw [hstage]; rfl) rfl rfl rfl nofun
  | @receive r collector hstage _ htake =>
    obtain ⟨-, hcollector⟩ := takeReport?_eq htake
    have hepoch : collector.epoch = w.epoch := by rw [hcollector]; rfl
    have hpending : collector.pending = w.pending := by rw [hcollector]; rfl
    by_cases hcurrent : r.epoch = w.epoch
    · rw [if_pos hcurrent, receive_of_eq (hcurrent.trans hepoch.symm)]
      refine h.keep ?_ ?_ ?_ ?_ ?_ ?_ ?_ ?_
      · exact id
      · exact fun _ => rfl
      · rfl
      · exact hepoch
      · simp
      · simp
      · intro id hid
        -- Whoever sent the report is no longer waited for.
        by_cases heq : id = r.mutator
        · exact .inr (.inr ⟨r, List.mem_cons_self, heq.symm, hcurrent⟩)
        · exact .inl ((List.mem_erase_of_ne heq).2 (hpending ▸ hid))
      · rw [hstage]
        exact nofun
    · rw [if_neg hcurrent, receive_of_ne fun heq => hcurrent (heq.trans hepoch)]
      have hstay : ∀ id ∈ w.pending, id ∈ collector.pending := by
        rw [hpending]
        exact fun _ => id
      refine h.keep ?_ ?_ ?_ ?_ ?_ ?_ (fun id hid => .inl (hstay id hid)) ?_
      · exact id
      · exact fun _ => rfl
      · rfl
      · exact hepoch
      · simp
      · simp
      · rw [hstage]
        exact nofun
  | finish hstage hpending => exact h.forth (by rw [hstage]; rfl) (by rw [hstage]; rfl) rfl rfl rfl fun _ => hpending
  | _ => exact h.aside rfl rfl rfl rfl

end Answered

end AtomHeap.World
