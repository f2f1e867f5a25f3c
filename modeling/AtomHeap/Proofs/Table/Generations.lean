import AtomHeap.Proofs.Table.Verdicts
/-!
# Generations

`Table.Aged n t t'`: the atom in slot `i` was destroyed `n i` times on the way from `t` to `t'`. The
generation of the slot went up by that, modulo `2 ^ 24`, and if it was not destroyed at all then the atom
is still there with its data.
-/

namespace AtomHeap.Table

variable {spans : Span → Prop} {t t' t'' : Table} {buckets i k index : Nat} {e e' : Entry} {s s' : Slot} {a : Atom}
  {n m : Nat → Nat} {g : BitVec 24} {swept : Swept}

/-- The slots of a table when the atom in slot `i` was destroyed `n i` times since. -/
def Aged (n : Nat → Nat) (t t' : Table) : Prop :=
  ∀ i s, t.slots[i]? = some s → ∃ s', t'.slots[i]? = some s' ∧
    s'.generation = s.generation + BitVec.ofNat 24 (n i) ∧
    (n i = 0 → ∀ e ∈ s.entry, ∃ e', s'.entry = some e' ∧ e'.payload = e.payload)

namespace Aged

theorem size (h : Aged n t t') : t.slots.size ≤ t'.slots.size := by
  apply Nat.le_of_not_lt
  intro hlt
  obtain ⟨s', hs', -⟩ := h t'.slots.size _ (Array.getElem?_eq_getElem hlt)
  exact Nat.lt_irrefl _ (Array.getElem?_eq_some_iff.1 hs').1

theorem trans (h : Aged n t t') (h' : Aged m t' t'') : Aged (fun i => n i + m i) t t'' := by
  intro i s hs
  obtain ⟨s', hs', hgeneration, hkept⟩ := h i s hs
  obtain ⟨s'', hs'', hgeneration', hkept'⟩ := h' i s' hs'
  refine ⟨s'', hs'', ?_, ?_⟩
  · rw [hgeneration', hgeneration, BitVec.add_assoc, ← BitVec.ofNat_add]
  · intro hzero e he
    obtain ⟨hn, hm⟩ := Nat.add_eq_zero_iff.1 hzero
    obtain ⟨e', he', hpayload⟩ := hkept hn e he
    obtain ⟨e'', he'', hpayload'⟩ := hkept' hm e' he'
    exact ⟨e'', he'', hpayload'.trans hpayload⟩

/-- Nothing is destroyed where slots stay as they are but for what goes with an atom. -/
theorem of_slots (h : ∀ (i : Nat) (s : Slot), t.slots[i]? = some s →
    ∃ s' : Slot, t'.slots[i]? = some s' ∧ s'.generation = s.generation ∧
    ∀ e ∈ s.entry, ∃ e', s'.entry = some e' ∧ e'.payload = e.payload) : Aged (fun _ => 0) t t' := by
  intro i s hs
  obtain ⟨s', hs', hgeneration, hkept⟩ := h i s hs
  exact ⟨s', hs', by simpa using hgeneration, fun _ => hkept⟩

theorem of_eq (h : t'.slots = t.slots) : Aged (fun _ => 0) t t' :=
  .of_slots fun _ s hs => ⟨s, h ▸ hs, rfl, fun e he => ⟨e, he, rfl⟩⟩

/-- An atom whose slot nothing was destroyed in is still there, with its data. -/
theorem kept (h : Aged (fun _ => 0) t t') (he : t.entry a = .ok e) :
    ∃ e', t'.entry a = .ok e' ∧ e'.payload = e.payload := by
  obtain ⟨hentry, hcurrent⟩ := entry_eq_ok_iff.1 he
  obtain ⟨s, hs, hse⟩ := entryAt?_eq_some_iff.1 hentry
  obtain ⟨s', hs', hgeneration, hkept⟩ := h _ s hs
  obtain ⟨e', he', hpayload⟩ := hkept rfl e hse
  refine ⟨e', entry_eq_ok_iff.2 ⟨entryAt?_eq_some_iff.2 ⟨s', hs', he'⟩, ?_⟩, hpayload⟩
  rw [← hcurrent, hs, hs', Option.map_some, Option.map_some, hgeneration]
  simp

end Aged

/-- A slot that differs in the link of its entry only. -/
theorem payload_of_bare (h : s'.bare = s.bare) :
    s'.generation = s.generation ∧ ∀ e ∈ s.entry, ∃ e', s'.entry = some e' ∧ e'.payload = e.payload := by
  refine ⟨congrArg (·.generation) h, fun e he => ?_⟩
  have hentry := congrArg (·.entry) h
  simp only [Slot.bare, Option.mem_def.1 he, Option.map_some, Option.map_eq_some_iff] at hentry
  obtain ⟨e', he', hbare⟩ := hentry
  exact ⟨e', he', congrArg (·.payload) hbare⟩

theorem Amended.aged (h : Amended t t') : Aged (fun _ => 0) t t' := by
  apply Aged.of_slots
  intro i s hs
  have hslot := h.slot i
  rw [hs, Option.map_some, Option.map_eq_some_iff] at hslot
  obtain ⟨s', hs', hfixed⟩ := hslot
  refine ⟨s', hs', congrArg (·.1) hfixed, fun e he => ?_⟩
  have hentry := congrArg (·.2) hfixed
  simp only [Slot.fixed, Option.mem_def.1 he, Option.map_some, Option.map_eq_some_iff] at hentry
  obtain ⟨e', he', hfixed'⟩ := hentry
  exact ⟨e', he', congrArg (·.1) hfixed'⟩

/-- A new atom takes a slot that is empty, with the generation that the slot has. -/
theorem Inserted.aged (h : Inserted t e index g t') : Aged (fun _ => 0) t t' := by
  apply Aged.of_slots
  intro i s hs
  by_cases hi : i = index
  · subst hi
    obtain ⟨s', _, hs', hgeneration, -, -⟩ := h.exists_slot
    refine ⟨s', hs', ?_, fun e he => ?_⟩
    · rw [hgeneration, h.generation, hs]
      rfl
    · have hvacant := h.vacant
      rw [entryAt?_eq_some_iff.2 ⟨s, hs, he⟩] at hvacant
      cases hvacant
  · have hothers := h.others i hi
    rw [hs, Option.map_some, Option.map_eq_some_iff] at hothers
    obtain ⟨s', hs', hbare⟩ := hothers
    exact ⟨s', hs', payload_of_bare hbare⟩

theorem unregisterBlob_aged {id : BlobId} (h : t.unregisterBlob id = .ok t') : Aged (fun _ => 0) t t' := by
  obtain ⟨blobs, -, rfl⟩ := unregisterBlob_eq h
  apply Aged.of_slots
  intro i s hs
  refine ⟨{ s with entry := s.entry.map (·.withdraw id) }, ?_, rfl, fun e he => ?_⟩
  · rw [Array.getElem?_map, hs]
    rfl
  · exact ⟨e.withdraw id, by rw [Option.mem_def.1 he]; rfl, e.withdraw_payload id⟩

/-! ## Sweeps -/

/-- The atoms that a sweep destroys, by slots. -/
theorem destroyed_eq (t : Table) (k : Nat) : ((t.questions k).filter (·.answer)).map (·.atom) =
    (List.range k).filterMap fun i => ((t.verdict? i).filter (·.answer)).map (·.atom) := by
  rw [questions_eq, List.filter_filterMap, List.map_filterMap]

/-- A question about a slot names the atom in it. -/
theorem verdict?_index {c : ReleaseCall} (hi : i < UInt32.size) (h : t.verdict? i = some c) :
    c.atom.index.toNat = i := by
  obtain ⟨⟨a, d⟩, hquestion, rfl⟩ := Option.map_eq_some_iff.1 h
  obtain ⟨s, e, -, -, -, -, -, -, rfl⟩ := question?_eq_some_iff.1 hquestion
  exact toNat_index_atom hi s

/-- A sweep destroys the atom in a slot once, if it is to go. -/
theorem countP_destroyed (hk : k ≤ UInt32.size) (hi : i < k) :
    (((t.questions k).filter (·.answer)).map (·.atom)).countP (·.index.toNat = i) = (t.condemned i).toNat := by
  rw [destroyed_eq, List.countP_filterMap]
  have hcongr : ∀ j ∈ List.range k,
      ((((t.verdict? j).filter (·.answer)).map (·.atom)).map fun a => decide (a.index.toNat = i)).getD false =
        (t.condemned i && (j == i)) := by
    intro j hj
    have hj := Nat.lt_of_lt_of_le (List.mem_range.1 hj) hk
    by_cases hji : j = i
    · subst hji
      unfold condemned
      cases hv : t.verdict? j with
      | none => simp
      | some c => cases hanswer : c.answer <;> simp [Option.filter, hanswer, verdict?_index hj hv]
    · cases hv : t.verdict? j with
      | none => simp [hji]
      | some c => cases hanswer : c.answer <;> simp [Option.filter, hanswer, verdict?_index hj hv, hji]
  rw [List.countP_congr fun j hj => by rw [hcongr j hj]]
  cases t.condemned i with
  | false => simp
  | true =>
    have hcount : (List.range k).count i = 1 := by
      rw [List.nodup_range.count, if_pos (List.mem_range.2 hi)]
    simpa [List.count] using hcount

/-- A sweep ages each slot by the atoms it destroys there. -/
theorem SweptBelow.aged (h : SweptBelow t t.slots.size swept t') (hsize : t.slots.size ≤ UInt32.size) :
    Aged (fun i => swept.destroyed.toList.countP (·.index.toNat = i)) t t' := by
  intro i s hs
  have hlt := (Array.getElem?_eq_some_iff.1 hs).1
  obtain ⟨s', hs', hfate⟩ := h.slot_cases hs
  refine ⟨s', hs', ?_⟩
  simp only [h.destroyed, countP_destroyed hsize hlt]
  rcases hfate with ⟨hcondemned, hbare⟩ | ⟨hcondemned, hbare | hbare⟩
  · rw [hcondemned]
    have hgeneration : s'.generation = s.generation + 1 := congrArg (·.generation) hbare
    exact ⟨hgeneration, nofun⟩
  · rw [hcondemned]
    obtain ⟨hgeneration, hkept⟩ := payload_of_bare hbare
    exact ⟨by simpa using hgeneration, fun _ => hkept⟩
  · rw [hcondemned]
    have hgeneration : s'.generation = s.generation := congrArg (·.generation) hbare
    refine ⟨by simpa using hgeneration, fun _ e he => ?_⟩
    have hentry := congrArg (·.entry) hbare
    simp only [Slot.bare, Slot.spared, Option.mem_def.1 he, Option.map_some, Option.map_eq_some_iff] at hentry
    obtain ⟨e', he', hbare'⟩ := hentry
    exact ⟨e', he', congrArg (·.payload) hbare'⟩

end AtomHeap.Table
