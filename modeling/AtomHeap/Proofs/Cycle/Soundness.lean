import AtomHeap.Proofs.Cycle.Answers
import AtomHeap.Proofs.Cycle.Marks
import AtomHeap.Proofs.Store.Represented
/-!
# The mark protocol is sound

In whatever order mutators, cycles and other callers make their steps, a cycle sweeps only after everybody
it asked for roots reported, and its sweep leaves what those roots named and what was touched since
the cycle began (`mark_protocol_sound`). Reports of earlier cycles have no effect.
-/

namespace AtomHeap.World

variable {spans : Span → Prop} {w w' : World} {trace events : List Event} {config : Config} {heap : Heap}
  {r : Report}

/-! ## Invariants of runs -/

theorem Run.sound (hc : config.check = .ok ()) (h : Run spans (.empty heap config) trace w) :
    w.table.Sound config.atomBuckets.toNat 0 := by
  induction h with
  | start => exact Table.sound_empty (Table.atomBuckets_power hc) _
  | step _ hstep ih => exact ih.changes (hstep.changes ih)

theorem Run.stamped (h : Run spans (.empty heap config) trace w) : Stamped trace w := by
  induction h with
  | start => exact ⟨Nat.le_refl _, nofun, nofun, nofun⟩
  | step _ hstep ih => exact ih.step hstep

theorem Run.answered (h : Run spans (.empty heap config) trace w) : Answered trace w := by
  induction h with
  | start => exact answered_of_not rfl []
  | step hrun hstep ih => exact ih.step hrun.stamped hstep

/-- With at most `2 ^ 32` slots, handles tell atoms apart. -/
theorem Run.marked (hc : config.check = .ok ()) (h : Run spans (.empty heap config) trace w)
    (hsize : w.table.slots.size ≤ UInt32.size) : Marked trace w := by
  induction h with
  | start => exact marked_of_not rfl []
  | step hrun hstep ih =>
    have hs := hrun.sound hc
    exact (ih (Nat.le_trans (hs.size_changes (hstep.changes hs)) hsize)).step hrun.stamped hs hsize hstep

/-! ## Steps by what happened in them -/

theorem Step.of_swept {epoch : Nat} {destroyed : List Atom} (h : Step spans w events w')
    (hevent : .swept epoch destroyed ∈ events) : w.stage = .complete ∧ epoch = w.epoch ∧
      ∃ swept table, w.table.sweep = .ok (swept, table) ∧ destroyed = swept.destroyed.toList := by
  cases h with
  | call =>
    obtain ⟨_, -, heq⟩ := List.mem_map.1 hevent
    cases heq
  | receive =>
    split at hevent <;> cases List.mem_singleton.1 hevent
  | sweep hstage htable =>
    cases List.mem_singleton.1 hevent
    exact ⟨hstage, rfl, _, _, htable, rfl⟩
  | begin | snapshot | markOwn => cases List.mem_singleton.1 hevent
  | _ => cases hevent

theorem Step.of_taken (h : Step spans w events w') (hevent : .applied r ∈ events ∨ .ignored r ∈ events) :
    ∃ collector, w.system.collector.takeReport? = some (r, collector) ∧
      w'.system = { w.system with collector }.receive r := by
  cases h with
  | call =>
    rcases hevent with hevent | hevent
    all_goals
      obtain ⟨_, -, heq⟩ := List.mem_map.1 hevent
      cases heq
  | @receive r' collector _ _ htake =>
    have hr : r = r' := by
      split at hevent
      all_goals
        rcases hevent with hevent | hevent
        all_goals cases List.mem_singleton.1 hevent
      all_goals rfl
    rw [hr]
    exact ⟨collector, htake, rfl⟩
  | begin | snapshot | markOwn | sweep => rcases hevent with hevent | hevent <;> cases List.mem_singleton.1 hevent
  | _ => rcases hevent with hevent | hevent <;> cases hevent

/-! ## Soundness -/

/-- What happened before the sweep of a cycle. -/
structure Justified (trace : List Event) (epoch : Nat) : Prop where
  /-- It was settled whom to wait for, in this very cycle. -/
  asked : ∃ initiator ids, .asked epoch initiator ids ∈ sinceBegan trace
  /-- Of everybody asked, but whoever runs the cycle, a report with the epoch was applied. -/
  answered : ∀ initiator ids, .asked epoch initiator ids ∈ trace → ∀ id ∈ ids, some id ≠ initiator →
    Reported trace id epoch

/-- What the sweep of a cycle left. -/
structure Spared (trace : List Event) (epoch : Nat) (destroyed : List Atom) : Prop where
  /-- No atom is destroyed that is among the roots of the initiator or of a report with the epoch, whether
  it was alive when they were read or came to life later. -/
  rooted : ∀ r, Rooted trace r → r.epoch = epoch → ∀ a ∈ r.atoms, a ∉ destroyed
  /-- No atom is destroyed that was made, come upon or left without references since the cycle began. -/
  touched : ∀ event, .store event ∈ sinceBegan trace → event.atom ∉ destroyed

theorem Answered.justified (h : Answered trace w) (hstage : w.stage = .complete) :
    Justified trace w.epoch := by
  refine ⟨h.snapshot (by rw [hstage]; rfl), ?_⟩
  intro initiator ids hids id hid hne
  obtain ⟨-, -, hall⟩ := h.asked (by rw [hstage]; rfl) initiator ids hids
  rcases hall id hid with hpending | hinitiator | hreported
  · rw [h.complete hstage] at hpending
    cases hpending
  · exact absurd hinitiator hne
  · exact hreported

theorem Marked.spared {buckets : Nat} (h : Marked trace w) (hs : w.table.Sound buckets 0)
    (hsize : w.table.slots.size ≤ UInt32.size) (hstage : w.stage = .complete) {swept : Table.Swept}
    {table : Table}
    (hsweep : w.table.sweep = .ok (swept, table)) : Spared trace w.epoch swept.destroyed.toList := by
  have hwhite : ∀ a ∈ swept.destroyed.toList, (∃ e, w.table.entry a = .ok e) ∧ ¬ w.table.Black a := by
    intro a hda
    obtain ⟨index, hindex⟩ := hs.garbage_of_sweep hsweep a hda
    exact hindex.white hsize
  constructor
  · intro r hr hepoch a har hda
    obtain ⟨⟨e, he⟩, hnot⟩ := hwhite a hda
    exact hnot (h.rooted (by rw [hstage]; rfl) r hr hepoch a har e he)
  · intro event hevent hda
    obtain ⟨-, hnot⟩ := hwhite _ hda
    exact hnot (h.touched (by rw [hstage]; rfl) event hevent)

/-- A report of an earlier cycle changes nothing but the queue. -/
theorem stale_of_taken (hst : Stamped trace w) (h : Step spans w events w')
    (hevent : .applied r ∈ events ∨ .ignored r ∈ events) :
    r.epoch ≤ w.epoch ∧ (r.epoch < w.epoch → w'.table = w.table ∧ w'.pending = w.pending) := by
  obtain ⟨collector, htake, hsystem⟩ := h.of_taken hevent
  obtain ⟨hreports, hcollector⟩ := takeReport?_eq htake
  refine ⟨hst.reports r (hreports ▸ List.mem_cons_self), fun hlt => ?_⟩
  have hepoch : collector.epoch = w.epoch := by
    rw [hcollector]
    rfl
  rw [receive_of_ne fun heq => Nat.ne_of_lt hlt (heq.trans hepoch)] at hsystem
  unfold table pending
  rw [hsystem]
  refine ⟨rfl, ?_⟩
  dsimp only
  rw [hcollector]

/-- In every world that a run leads to, a sweep is justified and, where handles tell the slots apart, spares
what it should. A report of an earlier cycle has no effect. -/
theorem mark_protocol_sound (hc : config.check = .ok ()) (h : Run spans (.empty heap config) trace w) :
    (∀ epoch destroyed w', Step spans w [.swept epoch destroyed] w' → epoch = w.epoch ∧ Justified trace epoch ∧
        (w.table.slots.size ≤ UInt32.size → Spared trace epoch destroyed)) ∧
      ∀ r events w', Step spans w events w' → .applied r ∈ events ∨ .ignored r ∈ events →
        r.epoch ≤ w.epoch ∧ (r.epoch < w.epoch → w'.table = w.table ∧ w'.pending = w.pending) := by
  constructor
  · intro epoch destroyed w' hstep
    obtain ⟨hstage, rfl, swept, table, hsweep, rfl⟩ := hstep.of_swept (List.mem_singleton.2 rfl)
    refine ⟨rfl, h.answered.justified hstage, ?_⟩
    intro hsize
    exact (h.marked hc hsize).spared (h.sound hc) hsize hstage hsweep
  · intro r events w' hstep hevent
    exact stale_of_taken h.stamped hstep hevent

/-- A cycle that is complete can sweep if the store can. -/
theorem Run.exists_sweep (_ : Run spans (.empty heap config) trace w) {swept : Table.Swept} {table : Table}
    {n : Nat}
    {store : Store} (hstage : w.stage = .complete) (htable : w.table.sweep = .ok (swept, table))
    (hstore : w.system.store.sweep = .ok (n, store)) :
    ∃ w', Step spans w [.swept w.epoch swept.destroyed.toList] w' :=
  ⟨_, .sweep hstage htable hstore⟩

/-- Two atoms have no references when a cycle begins, and one more is made and given back while it marks. The
second mutator reports one of them, and the sweep destroys the one that nobody named or touched. -/
theorem mark_protocol_sound_two_mutators :
    ∃ trace w w', Run (fun _ => True) (.empty (.empty ⟨32, 64, 2⟩ fun _ _ => true) { atomBuckets := 1 }) trace w ∧
      Step (fun _ => True) w [.swept 1 [⟨0, 0⟩]] w' ∧ .asked 1 (some 1) [2, 1] ∈ trace ∧
      .applied ⟨2, 1, [⟨1, 0⟩]⟩ ∈ trace ∧ .store (.made ⟨2, 0⟩) ∈ sinceBegan trace ∧ Justified trace 1 ∧
      Spared trace 1 [⟨0, 0⟩] := by
  have none := @Run.start (fun _ => True) (.empty (.empty ⟨32, 64, 2⟩ fun _ _ => true) { atomBuckets := 1 })
  have attached := (none.step (.attach 0)).step (.attach 1)
  have first := attached.intern { bytes := [97] } trivial BlobId.text
    (Store.internLocked_of_insert rfl rfl rfl rfl (Table.insert_of_no_holes rfl rfl rfl rfl rfl) rfl)
  have second := first.intern { bytes := [98] } trivial BlobId.text
    (Store.internLocked_of_insert rfl rfl rfl rfl (Table.insert_of_no_holes rfl rfl rfl rfl rfl) rfl)
  have dropped := (second.step (.call (.unregister ⟨0, 0⟩))).step (.call (.unregister ⟨1, 0⟩))
  have begun := (dropped.step (.lock (some 1) rfl rfl rfl)).step (.begin rfl)
  have asked := ((begun.step (.number rfl)).step (.publish rfl)).step (.snapshot rfl)
  have third := asked.intern { bytes := [99] } trivial BlobId.text
    (Store.internLocked_of_insert rfl rfl rfl rfl (Table.insert_of_no_holes rfl rfl rfl rfl rfl) rfl)
  have lost := third.step (.call (.unregister ⟨2, 0⟩))
  have marked := lost.step (.markOwn rfl rfl)
  have noted := (marked.step (@Step.look _ _ 2 _ _ rfl rfl)).step (.note (.head _))
  have sent := (noted.step (.read ⟨1, 0⟩ (.head _))).step (.send (.head _))
  have complete := (sent.step (.receive rfl (by decide) rfl)).step (.finish rfl rfl)
  obtain ⟨w', last⟩ := complete.exists_sweep rfl rfl rfl
  obtain ⟨-, justified, spared⟩ := (mark_protocol_sound rfl complete).1 _ _ _ last
  refine ⟨_, _, w', complete, last, ?_, ?_, ?_, justified, spared (by decide)⟩
  · decide
  · decide
  · decide

end AtomHeap.World
