import AtomHeap.Proofs.Table.Generations
/-!
# Atoms that are gone

`Table.gone t t'` are the atoms that slots of `t` hold and the same slots of `t'` do not, by slots. Between a
table and what a sweep makes of it these are the atoms that the sweep lists as destroyed. Where handles tell
slots apart they are the atoms that were live and are stale.
-/

namespace AtomHeap.Table

variable {t t' : Table} {i : Nat} {a : Atom} {swept : Swept}

/-- The atom in a slot, if the slot is in use. -/
def atomAt? (t : Table) (i : Nat) : Option Atom := t.slots[i]?.bind fun s => s.entry.map fun _ => s.atom i

/-- The atoms that slots of the one table hold and those of the other do not, by slots. -/
def gone (t t' : Table) : List Atom :=
  (List.range t.slots.size).filterMap fun i => (t.atomAt? i).filter (t'.atomAt? i ≠ some ·)

theorem atomAt?_eq_some_iff :
    t.atomAt? i = some a ↔ ∃ s e, t.slots[i]? = some s ∧ s.entry = some e ∧ s.atom i = a := by
  unfold atomAt?
  simp only [Option.bind_eq_some_iff, Option.map_eq_some_iff]
  exact exists_congr fun s => ⟨fun ⟨hs, e, he, ha⟩ => ⟨e, hs, he, ha⟩, fun ⟨e, hs, he, ha⟩ => ⟨hs, e, he, ha⟩⟩

theorem mem_gone_iff : a ∈ t.gone t' ↔ ∃ i, t.atomAt? i = some a ∧ t'.atomAt? i ≠ some a := by
  unfold gone
  simp only [List.mem_filterMap, List.mem_range, Option.filter_eq_some_iff, decide_eq_true_eq]
  refine exists_congr fun i => and_iff_right_of_imp fun h => ?_
  obtain ⟨s, -, hs, -⟩ := atomAt?_eq_some_iff.1 h.1
  exact (Array.getElem?_eq_some_iff.1 hs).1

/-- Nothing is gone where nothing was destroyed. -/
theorem Aged.gone (h : Aged (fun _ => 0) t t') : t.gone t' = [] := by
  refine List.eq_nil_iff_forall_not_mem.2 fun a ha => ?_
  obtain ⟨i, hi, hnot⟩ := mem_gone_iff.1 ha
  obtain ⟨s, e, hs, he, rfl⟩ := atomAt?_eq_some_iff.1 hi
  obtain ⟨s', hs', hgeneration, hkept⟩ := h i s hs
  obtain ⟨e', he', -⟩ := hkept rfl e he
  refine hnot (atomAt?_eq_some_iff.2 ⟨s', e', hs', he', ?_⟩)
  unfold Slot.atom
  rw [hgeneration]
  simp

/-! ## Sweeps -/

/-- A slot holds the same atom as long as it differs only in what goes with one. -/
theorem atomAt?_of_bare {s s' : Slot} (hs : t.slots[i]? = some s) (hs' : t'.slots[i]? = some s')
    (h : s'.bare = s.bare ∨ s'.bare = s.spared) : t'.atomAt? i = t.atomAt? i := by
  obtain ⟨g, e⟩ := s
  obtain ⟨g', e'⟩ := s'
  unfold atomAt?
  rw [hs, hs']
  rcases h with h | h <;> cases e <;> cases e' <;> simp_all [Slot.bare, Slot.spared, Slot.atom]

/-- The atom in a slot that a sweep is to empty is gone after it, and no other. -/
theorem SweptBelow.gone (h : SweptBelow t t.slots.size swept t') : swept.destroyed.toList = t.gone t' := by
  rw [h.destroyed, destroyed_eq]
  unfold Table.gone
  refine List.filterMap_congr fun i hi => ?_
  have hlt := List.mem_range.1 hi
  obtain ⟨s, hs⟩ : ∃ s, t.slots[i]? = some s := ⟨_, Array.getElem?_eq_getElem hlt⟩
  obtain ⟨s', hs', ⟨hcondemned, hbare⟩ | ⟨hcondemned, hbare⟩⟩ := h.slot_cases hs
  · obtain ⟨c, hverdict, hanswer⟩ := (Option.any_eq_true _ _).1 hcondemned
    obtain ⟨⟨a, d⟩, hquestion, rfl⟩ := Option.map_eq_some_iff.1 hverdict
    obtain ⟨s₁, e, hs₁, he, hle, -, -, -, rfl⟩ := question?_eq_some_iff.1 hquestion
    rw [hs, Option.some.injEq] at hs₁
    subst hs₁
    have hatom : t.atomAt? i = some (s.atom i) := atomAt?_eq_some_iff.2 ⟨s, e, hs, he, rfl⟩
    have hempty : t'.atomAt? i = none := by
      have hentry := congrArg (·.entry) hbare
      simp only [Slot.bare, Slot.emptied, Option.map_eq_none_iff] at hentry
      unfold atomAt?
      rw [hs', Option.bind_some, hentry, Option.map_none]
    rw [hverdict, hatom, hempty, Option.filter_some_pos hanswer, Option.filter_some_pos (by simp)]
    rfl
  · have hsame : t'.atomAt? i = t.atomAt? i := atomAt?_of_bare hs hs' hbare
    have hspared : (t.verdict? i).filter (·.answer) = none :=
      Option.filter_eq_none_iff.2 fun c hc => by simpa [condemned, hc] using hcondemned
    rw [hspared, hsame, Option.map_none]
    symm
    exact Option.filter_eq_none_iff.2 fun a ha => by simp [ha]

/-! ## Handles -/

theorem atomAt?_index : t.atomAt? a.index.toNat = some a ↔ ∃ e, t.entry a = .ok e := by
  rw [atomAt?_eq_some_iff]
  constructor
  · rintro ⟨s, e, hs, he, ha⟩
    have hlive := entry_atom a.index.toNat_lt hs he
    rw [ha] at hlive
    exact ⟨e, hlive⟩
  · rintro ⟨e, he⟩
    obtain ⟨s, hs, hse, ha⟩ := slot_of_entry he
    exact ⟨s, e, hs, hse, ha⟩

theorem index_of_atomAt? (hi : i < UInt32.size) (h : t.atomAt? i = some a) : a.index.toNat = i := by
  obtain ⟨s, -, -, -, rfl⟩ := atomAt?_eq_some_iff.1 h
  exact toNat_index_atom hi s

/-- What is not live is stale, if there is such a slot. -/
theorem entry_eq_stale_iff (h : a.index.toNat < t.slots.size) :
    t.entry a = .error .stale ↔ ¬ ∃ e, t.entry a = .ok e := by
  unfold entry
  rw [Array.getElem?_eq_getElem h]
  dsimp only
  split
  · split <;> simp
  · simp

theorem mem_gone_iff_stale (hsize : t.slots.size ≤ UInt32.size) (hle : t.slots.size ≤ t'.slots.size) :
    a ∈ t.gone t' ↔ (∃ e, t.entry a = .ok e) ∧ t'.entry a = .error .stale := by
  rw [mem_gone_iff]
  constructor
  · rintro ⟨i, hi, hnot⟩
    obtain ⟨s, e, hs, -, -⟩ := atomAt?_eq_some_iff.1 hi
    have hlt := (Array.getElem?_eq_some_iff.1 hs).1
    obtain rfl := index_of_atomAt? (Nat.lt_of_lt_of_le hlt hsize) hi
    exact ⟨atomAt?_index.1 hi, (entry_eq_stale_iff (Nat.lt_of_lt_of_le hlt hle)).2 (mt atomAt?_index.2 hnot)⟩
  · rintro ⟨hlive, hstale⟩
    refine ⟨a.index.toNat, atomAt?_index.2 hlive, fun hsame => ?_⟩
    obtain ⟨e, he⟩ := atomAt?_index.1 hsame
    rw [hstale] at he
    cases he

theorem nodup_gone (hsize : t.slots.size ≤ UInt32.size) : (t.gone t').Nodup := by
  unfold gone List.Nodup
  rw [List.pairwise_filterMap]
  refine List.nodup_range.imp_of_mem fun {i j} hi hj hne a ha a' ha' heq => hne ?_
  have hindex {k : Nat} {b : Atom} (hk : k ∈ List.range t.slots.size)
      (hb : (t.atomAt? k).filter (t'.atomAt? k ≠ some ·) = some b) : b.index.toNat = k :=
    index_of_atomAt? (Nat.lt_of_lt_of_le (List.mem_range.1 hk) hsize) (Option.filter_eq_some_iff.1 hb).1
  rw [← hindex hi ha, ← hindex hj ha', heq]

end AtomHeap.Table
