import AtomHeap.Proofs.Table.Visits
/-!
# Sweeps

A sweep of a sound table always ends, leaves a sound table, and destroys garbage only: atoms above the
boundary that had no references and no mark when the sweep began.
-/

namespace AtomHeap.Table

variable {spans : Span → Prop} {t t' : Table} {buckets index : Nat} {e : Entry} {s : Slot} {a : Atom}

/-- An atom above the boundary that is neither referenced nor marked. -/
def Garbage (t : Table) (index : Nat) (a : Atom) : Prop :=
  t.builtin ≤ index ∧ ∃ s e, t.slots[index]? = some s ∧ s.entry = some e ∧ a = s.atom index ∧ e.refs = 0 ∧
    e.marked = false

/-- What sweeping a slot changes, where `gone` is the atom destroyed. -/
structure SlotSwept (spans : Span → Prop) (t : Table) (index : Nat) (gone : Option Atom)
    (t' : Table) : Prop where
  changes : Changes spans t t'
  builtin : t'.builtin = t.builtin
  size : t'.slots.size = t.slots.size
  others : ∀ i ≠ index, t'.slots[i]?.map Slot.bare = t.slots[i]?.map Slot.bare
  garbage : ∀ a ∈ gone, t.Garbage index a

theorem SlotSwept.of_amended (ha : Amended t t') (hothers : ∀ i ≠ index, t'.slots[i]? = t.slots[i]?) :
    SlotSwept spans t index none t' :=
  ⟨ha.changes, ha.builtin, ha.size, fun i hi => by rw [hothers i hi], nofun⟩

/-- Asking the hook leaves the slot as it is, to be emptied. -/
theorem Sound.destroyed_noted (h : t.Sound buckets 0) {d : Decider} {block : Option (Address × Nat)}
    (hquestion : t.question? index = some (a, d)) (he : t.entryAt? index = some e)
    (hd : (t.noted d.asked).destroy index = .ok (block, t')) :
    (t.noted d.asked).entryAt? index = some e ∧ (t.noted d.asked).builtin ≤ index ∧
      Destroyed (t.noted d.asked) index e t' := by
  obtain ⟨_, _, -, -, hle, -⟩ := question?_eq_some_iff.1 hquestion
  have hnoted := noted_amended t d.asked
  have he' : (t.noted d.asked).entryAt? index = some e := by
    unfold entryAt?
    rw [slots_noted]
    exact he
  have hle' : (t.noted d.asked).builtin ≤ index := hnoted.builtin ▸ hle
  obtain ⟨t₁, hd', hdestroyed, -⟩ := (h.amended hnoted).destroy he' hle'
  rw [hd'] at hd
  cases hd
  exact ⟨he', hle', hdestroyed⟩

/-- A visit destroys the atom in the slot, which is garbage, or nothing. -/
theorem Visited.swept (h : t.Sound buckets 0) (spans : Span → Prop) {swept swept' : Swept}
    (hv : Visited t index swept swept' t') :
    ∃ gone, SlotSwept spans t index gone t' ∧
      swept'.destroyed.toList = swept.destroyed.toList ++ gone.toList := by
  cases hv with
  | passed _ hp => exact ⟨none, .of_amended hp.amended hp.others, by simp⟩
  | @spared a d _ _ =>
    refine ⟨none, .of_amended (noted_amended t d.asked) fun i _ => ?_, by simp [Swept.ask]⟩
    rw [slots_noted]
  | @destroyed a d e _ hquestion _ he hd =>
    obtain ⟨s, e', hs, hse, hle, hrefs, hmarked, -, hatom⟩ := question?_eq_some_iff.1 hquestion
    have hnoted := noted_amended t d.asked
    obtain ⟨he', hle', hdestroyed⟩ := h.destroyed_noted hquestion he hd
    refine ⟨some a, ⟨.tail hnoted.changes (.destroyed he' hle' hd), ?_, ?_, ?_, ?_⟩, ?_⟩
    · rw [hdestroyed.rest]
      exact hnoted.builtin
    · rw [hdestroyed.size, slots_noted]
    · intro i hi
      rw [hdestroyed.others i hi, slots_noted]
    · rintro _ ⟨⟩
      exact ⟨hle, s, e', hs, hse, hatom, hrefs, hmarked⟩
    · simp [Swept.destroy, Swept.ask]

theorem Sound.sweepSlot (h : t.Sound buckets 0) (spans : Span → Prop) (hle : t.builtin ≤ index)
    (hlt : index < t.slots.size)
    (swept : Swept) :
    ∃ swept' t' gone, t.sweepSlot swept index = .ok (swept', t') ∧ SlotSwept spans t index gone t' ∧
      swept'.destroyed.toList = swept.destroyed.toList ++ gone.toList := by
  obtain ⟨swept', t', hslot, hv⟩ := h.visit hle hlt swept
  obtain ⟨gone, hswept, hgone⟩ := hv.swept h spans
  exact ⟨swept', t', gone, hslot, hswept, hgone⟩

theorem Sound.sweepSlots (h : t.Sound buckets 0) (spans : Span → Prop) {indices : List Nat}
    (hn : indices.Nodup)
    (hi : ∀ i ∈ indices, t.builtin ≤ i ∧ i < t.slots.size) (swept : Swept) :
    ∃ swept' t' gone, t.sweepSlots swept indices = .ok (swept', t') ∧ Changes spans t t' ∧
      swept'.destroyed.toList = swept.destroyed.toList ++ gone ∧ ∀ a ∈ gone, ∃ i ∈ indices, t.Garbage i a := by
  induction indices generalizing t swept with
  | nil => exact ⟨swept, t, [], rfl, .refl, by simp, nofun⟩
  | cons index rest ih =>
    obtain ⟨hnot, hn⟩ := List.nodup_cons.1 hn
    obtain ⟨hle, hlt⟩ := hi index (.head _)
    obtain ⟨swept₁, t₁, gone, hslot, hone, hdestroyed⟩ := h.sweepSlot spans hle hlt swept
    obtain ⟨swept₂, t₂, gone', hslots, hchanges, hdestroyed', hgarbage⟩ :=
      ih (h.changes hone.changes) hn (fun i hi' => by
        rw [hone.builtin, hone.size]
        exact hi i (.tail _ hi')) swept₁
    refine ⟨swept₂, t₂, gone.toList ++ gone', ?_, hone.changes.trans hchanges, ?_, ?_⟩
    · unfold Table.sweepSlots
      rw [hslot]
      exact hslots
    · rw [hdestroyed', hdestroyed, List.append_assoc]
    · intro a ha
      rcases List.mem_append.1 ha with ha | ha
      · exact ⟨index, .head _, hone.garbage a (Option.mem_toList.1 ha)⟩
      · -- The slots still to be swept are as they were, so what is garbage now was so at first.
        obtain ⟨i, hir, hle', s, e, hs, hse, hatom, hrefs, hmarked⟩ := hgarbage a ha
        have hne : i ≠ index := fun h => hnot (h ▸ hir)
        have hbare := hone.others i hne
        rw [hs, Option.map_some, eq_comm, Option.map_eq_some_iff] at hbare
        obtain ⟨s₀, hs₀, hbare⟩ := hbare
        have hentry := congrArg (·.entry) hbare
        have hgen := congrArg (·.generation) hbare
        simp only [Slot.bare, hse, Option.map_some, Option.map_eq_some_iff] at hentry hgen
        obtain ⟨e₀, he₀, hbare₀⟩ := hentry
        refine ⟨i, .tail _ hir, hone.builtin ▸ hle', s₀, e₀, hs₀, he₀, ?_, ?_, ?_⟩
        · rw [hatom]
          unfold Slot.atom
          rw [hgen]
        · exact (congrArg (·.refs) hbare₀).trans hrefs
        · exact (congrArg (·.marked) hbare₀).trans hmarked

/-- A sweep ends and destroys garbage only. -/
theorem Sound.sweep (h : t.Sound buckets 0) (spans : Span → Prop) :
    ∃ swept t', t.sweep = .ok (swept, t') ∧ Changes spans t t' ∧
      ∀ a ∈ swept.destroyed.toList, ∃ i, t.Garbage i a := by
  have hrange : ∀ i ∈ List.range' t.builtin (t.slots.size - t.builtin), t.builtin ≤ i ∧ i < t.slots.size := by
    intro i hi
    have hb := h.accounted.boundary
    rw [List.mem_range'_1] at hi
    omega
  obtain ⟨swept, t', gone, hslots, hchanges, hdestroyed, hgarbage⟩ :=
    h.sweepSlots spans List.nodup_range' hrange {}
  refine ⟨swept, { t' with marking := false, nonGarbage := t'.count }, ?_,
    hchanges.tail (.amended ⟨rfl, rfl, rfl, rfl, rfl, rfl, fun _ _ h => h⟩), ?_⟩
  · unfold Table.sweep
    rw [hslots]
    rfl
  · intro a ha
    rw [hdestroyed] at ha
    obtain ⟨i, -, hi⟩ := hgarbage a (by simpa using ha)
    exact ⟨i, hi⟩

theorem Sound.garbage_of_sweep (h : t.Sound buckets 0) {swept : Swept} (hsweep : t.sweep = .ok (swept, t')) :
    ∀ a ∈ swept.destroyed.toList, ∃ i, t.Garbage i a := by
  obtain ⟨swept', t'', hsweep', -, hgarbage⟩ := h.sweep fun _ => True
  rw [hsweep, Except.ok.injEq, Prod.mk.injEq] at hsweep'
  obtain ⟨rfl, -⟩ := hsweep'
  exact hgarbage

end AtomHeap.Table
