import AtomHeap.Proofs.Table.Marks
import AtomHeap.Proofs.Table.Verdicts
/-!
# What the builtin boundary protects

`Table.Immune t t'`: the slots below the boundary of `t` are in `t'` what they were, with the data and
the references of the atoms in them, and the boundary did not come down. All that is done to a table,
sweeps included, is of this kind.
-/

namespace AtomHeap

/-- What stays of a slot below the boundary: its generation, and the data and references of its atom. -/
def Slot.frozen (s : Slot) : BitVec 24 × Option (Payload × Nat) :=
  (s.generation, s.entry.map fun e => (e.payload, e.refs))

theorem Slot.frozen_bare (s : Slot) : s.bare.frozen = s.frozen := by
  obtain ⟨g, e⟩ := s
  cases e <;> rfl

namespace Table

/-- Slots below the boundary stay as they are, and the boundary does not come down. -/
structure Immune (t t' : Table) : Prop where
  boundary : t.builtin ≤ t'.builtin
  slots : ∀ i < t.builtin, t'.slots[i]?.map Slot.frozen = t.slots[i]?.map Slot.frozen

variable {t t' t'' : Table} {buckets index : Nat} {e e' : Entry} {s : Slot} {a : Atom} {id blob : BlobId}
  {span : Span} {swept : Swept}

namespace Immune

theorem of_slots (hslots : t'.slots = t.slots) (hbuiltin : t.builtin ≤ t'.builtin) : Immune t t' :=
  ⟨hbuiltin, fun i _ => by rw [hslots]⟩

theorem refl (t : Table) : Immune t t := .of_slots rfl (Nat.le_refl _)

theorem trans (h : Immune t t') (h' : Immune t' t'') : Immune t t'' where
  boundary := Nat.le_trans h.boundary h'.boundary
  slots i hi := (h'.slots i (Nat.lt_of_lt_of_le hi h.boundary)).trans (h.slots i hi)

/-- Links are nothing that has to stay. -/
theorem of_bare (hbuiltin : t.builtin ≤ t'.builtin)
    (h : ∀ i < t.builtin, t'.slots[i]?.map Slot.bare = t.slots[i]?.map Slot.bare) : Immune t t' := by
  refine ⟨hbuiltin, fun i hi => ?_⟩
  have hfrozen : Slot.frozen ∘ Slot.bare = Slot.frozen := funext Slot.frozen_bare
  have := congrArg (Option.map Slot.frozen) (h i hi)
  rwa [Option.map_map, Option.map_map, hfrozen] at this

theorem of_map (f : Slot → Slot) (hslots : t'.slots = t.slots.map f) (hbuiltin : t'.builtin = t.builtin)
    (hf : ∀ s, (f s).frozen = s.frozen) : Immune t t' := by
  refine ⟨Nat.le_of_eq hbuiltin.symm, fun i _ => ?_⟩
  rw [hslots, Array.getElem?_map, Option.map_map]
  exact congrArg (Option.map · _) (funext hf)

/-- An entry can be replaced where it is above the boundary, or by one with its data and references. -/
theorem setEntry (he : t.entryAt? index = some e)
    (h : index < t.builtin → e'.payload = e.payload ∧ e'.refs = e.refs) :
    Immune t (t.setEntry index (some e')) := by
  refine ⟨Nat.le_refl _, fun i hi => ?_⟩
  rw [slots_setEntry]
  split
  · rename_i heq
    subst heq
    obtain ⟨s, hs, hse⟩ := entryAt?_eq_some_iff.1 he
    obtain ⟨hpayload, hrefs⟩ := h hi
    rw [hs]
    simp [Slot.frozen, hse, hpayload, hrefs]
  · rfl

/-- A live atom below the boundary stays, under its handle. -/
theorem entry (h : Immune t t') (ha : a.index.toNat < t.builtin) (he : t.entry a = .ok e) :
    ∃ e', t'.entry a = .ok e' ∧ e'.payload = e.payload ∧ e'.refs = e.refs := by
  obtain ⟨hentry, hgeneration⟩ := entry_eq_ok_iff.1 he
  obtain ⟨s, hs, hse⟩ := entryAt?_eq_some_iff.1 hentry
  have hslot := h.slots _ ha
  rw [hs, Option.map_some, Option.map_eq_some_iff] at hslot
  obtain ⟨s', hs', hfrozen⟩ := hslot
  have hgeneration' : s'.generation = s.generation := congrArg (·.1) hfrozen
  have hentry' := congrArg (·.2) hfrozen
  simp only [Slot.frozen, hse, Option.map_some, Option.map_eq_some_iff, Prod.mk.injEq] at hentry'
  obtain ⟨e', he', hpayload, hrefs⟩ := hentry'
  refine ⟨e', entry_eq_ok_iff.2 ⟨entryAt?_eq_some_iff.2 ⟨s', hs', he'⟩, ?_⟩, hpayload, hrefs⟩
  rw [← hgeneration, hs', hs, Option.map_some, Option.map_some, hgeneration']

end Immune

/-! ## References -/

theorem register_of_lt (he : t.entry a = .ok e) (ha : a.index.toNat < t.builtin) :
    t.register a = (.ok (), t) := by
  unfold register
  simp only [he, if_pos ha]

theorem unregister_of_lt (he : t.entry a = .ok e) (ha : a.index.toNat < t.builtin) :
    t.unregister a = (.ok (), t) := by
  unfold unregister
  simp only [he, if_pos ha]

theorem Touched.immune {counts marks : Prop} (h : Touched counts marks t t') : Immune t t' := by
  cases h with
  | not => exact .refl t
  | set he hrefs =>
    refine .setEntry he fun hlt => ⟨rfl, hrefs.resolve_right ?_⟩
    rintro ⟨-, hle⟩
    exact Nat.not_lt.2 hle hlt

theorem register_immune (t : Table) (a : Atom) : Immune t (t.register a).2 := (register_touched t a).immune

theorem unregister_immune (t : Table) (a : Atom) : Immune t (t.unregister a).2 := (unregister_touched t a).immune

theorem reuse_immune (h : t.reuse index = .ok (a, t')) : Immune t t' := (reuse_touched h).immune

theorem lookup_immune {found : Option Atom} (h : t.lookup span blob = .ok (found, t')) : Immune t t' :=
  (lookup_touched h).immune

/-! ## New atoms and types -/

/-- A new atom is put above the boundary. -/
theorem Inserted.immune {g : BitVec 24} (h : Inserted t e index g t') : Immune t t' := by
  refine .of_bare (Nat.le_of_eq (by rw [h.rest])) fun i hi => h.others i ?_
  exact Nat.ne_of_lt (Nat.lt_of_lt_of_le hi h.boundary)

theorem registerBlob_immune {type : BlobType} (h : t.registerBlob type = .ok (id, t')) : Immune t t' := by
  obtain ⟨blobs, rfl⟩ := registerBlob_eq h
  exact .of_slots rfl (Nat.le_refl _)

theorem unregisterBlob_immune (h : t.unregisterBlob id = .ok t') : Immune t t' := by
  obtain ⟨blobs, -, rfl⟩ := unregisterBlob_eq h
  refine .of_map _ rfl rfl fun s => ?_
  obtain ⟨g, e⟩ := s
  cases e with
  | none => rfl
  | some e =>
    simp only [Slot.frozen, Option.map_some, Entry.withdraw]
    split <;> rfl

theorem requestCollection_immune (t : Table) : Immune t t.requestCollection.2 := by
  unfold requestCollection
  split
  · exact .of_slots rfl (Nat.le_refl _)
  · exact .refl t

/-- Locking takes the boundary to the end of the slots. -/
theorem lockAtoms_immune (h : t.Sound buckets 0) : Immune t t.lockAtoms := .of_slots rfl h.accounted.boundary

/-! ## Cycles -/

theorem applyMarks_immune (t : Table) (atoms : List Atom) : Immune t (t.applyMarks atoms) := by
  induction atoms generalizing t with
  | nil => exact .refl t
  | cons a atoms ih => exact (mark_touched t a).immune.trans (ih _)

theorem abortMarking_immune (t : Table) : Immune t t.abortMarking := by
  refine .of_map _ rfl rfl fun s => ?_
  obtain ⟨g, e⟩ := s
  cases e <;> rfl

/-- A sweep begins at the boundary. -/
theorem SweptBelow.immune (h : SweptBelow t t.slots.size swept t') : Immune t t' := by
  refine .of_bare (Nat.le_of_eq (by rw [h.rest])) fun i hi => ?_
  have hvisit : t.visit t.slots.size i = Slot.bare := by
    funext s
    unfold visit
    rw [if_pos (.inr hi)]
  rw [h.slots, hvisit]

/-- So it asks nothing about the atoms below. -/
theorem SweptBelow.asked_above (h : SweptBelow t t.slots.size swept t') {c : ReleaseCall}
    (hc : c ∈ swept.calls.toList) :
    ∃ i s, t.builtin ≤ i ∧ t.slots[i]? = some s ∧ c.atom = s.atom i := by
  rw [h.calls, questions_eq, List.mem_filterMap] at hc
  obtain ⟨i, -, hverdict⟩ := hc
  obtain ⟨⟨a, d⟩, hquestion, rfl⟩ := Option.map_eq_some_iff.1 hverdict
  obtain ⟨s, e, hs, -, hle, -, -, -, rfl⟩ := question?_eq_some_iff.1 hquestion
  exact ⟨i, s, hle, hs, rfl⟩

end Table

end AtomHeap
