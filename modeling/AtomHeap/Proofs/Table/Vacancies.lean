import AtomHeap.Proofs.Table.Blocks
import AtomHeap.Proofs.Table.Gauge
import Mathlib.Order.Bounds.Defs
/-!
# Vacant indices

A new atom takes the lowest hole, or the index after the last slot. The holes are just the empty slots from the
boundary on, so that is the lowest index from there on at which no atom is live (`Compact.isLeast`). With collection
switched off holes are not used; then it is so only because there are none, which tables keep to (`Compact`). It
follows that a new slot is there only for want of an empty one (`Fills`).
-/

namespace AtomHeap.Table

variable {t t' : Table} {buckets spare i : Nat} {span : Span} {payload : Payload} {blob : BlobId} {type : BlobType}
  {a : Atom}

/-- The indices from the boundary on at which no atom is live, whether there is a slot yet or not. -/
def vacancies (t : Table) : Set Nat := {i | t.builtin ≤ i ∧ t.entryAt? i = none}

/-- All slots from the boundary on are in use. -/
def Full (t : Table) : Prop := ∀ i ∈ t.vacancies, t.slots.size ≤ i

/-- There are empty slots from the boundary on only where collection is switched on. -/
def Compact (t : Table) : Prop := t.agcEnabled = false → t.Full

/-- The slots below the boundary, together with those in use from it on. -/
def occupied (t : Table) : Nat := t.builtin + (t.slots.toList.drop t.builtin).countP (·.entry.isSome)

/-- An atom was made at the lowest index from the boundary on at which none was live. Its handle has that index as
long as 32 bits hold the indices of all slots. -/
def TakesLowest (t : Table) (a : Atom) (t' : Table) : Prop :=
  ∃ n s, IsLeast t.vacancies n ∧ t'.slots[n]? = some s ∧ s.entry.isSome ∧ a = s.atom n ∧
    (t'.slots.size ≤ UInt32.size → a.index.toNat = n)

/-! ## The slot for a new atom -/

theorem isEmpty_iff : t.IsEmpty i ↔ i < t.slots.size ∧ t.entryAt? i = none := by
  constructor
  · intro h
    obtain ⟨s, hs, -⟩ := id h
    exact ⟨(Array.getElem?_eq_some_iff.1 hs).1, h.entryAt?⟩
  · rintro ⟨hlt, he⟩
    obtain ⟨s, hs, hs'⟩ := slot_of_lt hlt
    exact ⟨s, hs', (entryAt?_of_slot hs).symm.trans he⟩

theorem Accounted.mem_vacancies_iff (h : t.Accounted spare) :
    i ∈ t.vacancies ↔ i ∈ t.holes ∨ t.slots.size ≤ i := by
  rw [h.holes, isEmpty_iff]
  constructor
  · rintro ⟨hle, he⟩
    by_cases hlt : i < t.slots.size
    · exact .inl ⟨hle, hlt, he⟩
    · exact .inr (Nat.le_of_not_lt hlt)
  · rintro (⟨hle, -, he⟩ | hle)
    · exact ⟨hle, he⟩
    · refine ⟨Nat.le_trans h.boundary hle, ?_⟩
      unfold entryAt?
      rw [Array.getElem?_eq_none hle, Option.bind_none]

theorem Full.isLeast (hf : t.Full) (h : t.Accounted spare) : IsLeast t.vacancies t.slots.size :=
  ⟨h.mem_vacancies_iff.2 (.inr (Nat.le_refl _)), hf⟩

/-- The index for a new atom is the lowest that is vacant. -/
theorem Compact.isLeast (hp : t.Compact) (h : t.Accounted spare) : IsLeast t.vacancies t.takeSlot.1 := by
  rw [takeSlot_fst]
  cases hagc : t.agcEnabled with
  | false => exact (hp hagc).isLeast h
  | true =>
    rw [if_pos rfl]
    cases hmin : t.holes.min? with
    | none =>
      refine Full.isLeast (fun i hi => ?_) h
      refine (h.mem_vacancies_iff.1 hi).resolve_left fun hmem => ?_
      rw [Std.TreeSet.min?_eq_none_iff, Std.TreeSet.isEmpty_iff_forall_not_mem] at hmin
      exact hmin i hmem
    | some index =>
      obtain ⟨hmem, hmin⟩ := Std.TreeSet.min?_eq_some_iff_mem_and_forall.1 hmin
      refine ⟨h.mem_vacancies_iff.2 (.inl hmem), fun i hi => ?_⟩
      rcases h.mem_vacancies_iff.1 hi with hi | hi
      · exact Nat.isLE_compare.1 (hmin i hi)
      · obtain ⟨s, hs, -⟩ := ((h.holes index).1 hmem).2
        exact Nat.le_of_lt (Nat.lt_of_lt_of_le (Array.getElem?_eq_some_iff.1 hs).1 hi)

/-! ## Slots that are occupied -/

theorem occupied_le (h : t.builtin ≤ t.slots.size) : t.occupied ≤ t.slots.size := by
  have hle := List.countP_le_length (p := fun s : Slot => s.entry.isSome) (l := t.slots.toList.drop t.builtin)
  rw [List.length_drop, Array.length_toList] at hle
  unfold occupied
  omega

theorem Full.occupied_eq (hf : t.Full) (h : t.builtin ≤ t.slots.size) : t.occupied = t.slots.size := by
  have hall : (t.slots.toList.drop t.builtin).countP (·.entry.isSome) = (t.slots.toList.drop t.builtin).length := by
    refine List.countP_eq_length.2 fun s hs => ?_
    obtain ⟨k, hk⟩ := List.mem_iff_getElem?.1 hs
    rw [List.getElem?_drop, Array.getElem?_toList] at hk
    refine Option.isSome_iff_ne_none.2 fun hnone => ?_
    have hlt := (Array.getElem?_eq_some_iff.1 hk).1
    exact Nat.not_le.2 hlt (hf _ ⟨Nat.le_add_right _ _, IsEmpty.entryAt? ⟨s, hk, hnone⟩⟩)
  unfold occupied
  rw [hall, List.length_drop, Array.length_toList]
  omega

/-! ## Changes -/

/-- One change of a table, which has a new slot only if all were in use, and then again all are. -/
structure Fills (t t' : Table) : Prop where
  enabled : t'.agcEnabled = t.agcEnabled
  compact : t.Compact → t'.Compact
  size : t'.slots.size = t.slots.size ∨ t.Full ∧ t'.Full ∧ t'.slots.size = t.slots.size + 1

namespace Fills

theorem of_full (henabled : t'.agcEnabled = t.agcEnabled) (hfull : t.Full → t'.Full)
    (hsize : t'.slots.size = t.slots.size ∨ t.Full ∧ t'.slots.size = t.slots.size + 1) : Fills t t' where
  enabled := henabled
  compact hp hagc := hfull (hp (henabled ▸ hagc))
  size := hsize.imp_right fun ⟨hf, hsize⟩ => ⟨hf, hfull hf, hsize⟩

/-- No slot is emptied, and none is new. -/
theorem of_samePayloads (hp : SamePayloads t t') (henabled : t'.agcEnabled = t.agcEnabled)
    (hbuiltin : t.builtin ≤ t'.builtin) : Fills t t' := by
  refine of_full henabled (fun hf i hi => ?_) (.inl hp.size)
  have hnone := hp.payload i
  rw [hi.2, Option.map_none, eq_comm, Option.map_eq_none_iff] at hnone
  rw [hp.size]
  exact hf i ⟨Nat.le_trans hbuiltin hi.1, hnone⟩

theorem of_amended (ha : Amended t t') (henabled : t'.agcEnabled = t.agcEnabled) : Fills t t' :=
  of_samePayloads ha.samePayloads henabled (Nat.le_of_eq ha.builtin.symm)

theorem of_steady (ha : Amended t t') (hs : Steady t t') : Fills t t' :=
  of_amended ha (gauge_eq_iff.1 hs.gauge).1

theorem refl (t : Table) : Fills t t := of_amended (.refl t) rfl

theorem lockAtoms (h : t.builtin ≤ t.slots.size) : Fills t t.lockAtoms := of_samePayloads (.of_slots rfl) rfl h

theorem unregisterBlob (h : t.unregisterBlob blob = .ok t') : Fills t t' := by
  refine of_samePayloads (unregisterBlob_samePayloads h) (gauge_eq_iff.1 (unregisterBlob_steady h).gauge).1 ?_
  obtain ⟨_, -, rfl⟩ := unregisterBlob_eq h
  exact Nat.le_refl _

/-- A sweep empties slots, but where collection is switched on. -/
theorem sweep {swept : Swept} (hs : t.Sound buckets 0) (hagc : t.agcEnabled = true) (h : t.sweep = .ok (swept, t')) :
    Fills t t' := by
  have henabled : t'.agcEnabled = t.agcEnabled := (gauge_eq_iff.1 (sweep_gauge h)).1
  refine ⟨henabled, fun _ hoff => ?_, .inl ?_⟩
  · rw [henabled, hagc] at hoff
    cases hoff
  · obtain ⟨_, t₁, hsweep, hbelow⟩ := hs.sweep_below
    rw [h] at hsweep
    cases hsweep
    exact hbelow.size

end Fills

/-! ## A new atom -/

section

variable {e : Entry} {index : Nat} {g : BitVec 24}

/-- A slot that got an entry is no longer vacant, and no other one is that was not. -/
theorem Inserted.of_mem_vacancies (h : Inserted t e index g t') (hi : i ∈ t'.vacancies) :
    i ∈ t.vacancies ∧ i ≠ index := by
  obtain ⟨hle, hnone⟩ := hi
  have hne : i ≠ index := by
    rintro rfl
    have hsome := map_bare_entryAt? t' i
    rw [hnone, h.slot] at hsome
    cases hsome
  refine ⟨⟨?_, Option.eq_none_iff_forall_ne_some.2 fun e he => ?_⟩, hne⟩
  · rwa [h.rest] at hle
  · obtain ⟨e', he', -⟩ := of_bare_slot (h.others i hne).symm he
    rw [hnone] at he'
    cases he'

/-- If the lowest vacant index is that after the last slot, then its slot is the only one more, and is in use. -/
theorem Inserted.fills (h : Inserted t e index g t') (hleast : IsLeast t.vacancies index)
    (henabled : t'.agcEnabled = t.agcEnabled) : Fills t t' := by
  have hsize := h.size
  have hle := h.le
  refine .of_full henabled (fun hf i hi => ?_) ?_
  · obtain ⟨hi, hne⟩ := h.of_mem_vacancies hi
    have hlast := hf index hleast.1
    have hfirst := hf i hi
    omega
  · by_cases hlt : index < t.slots.size
    · exact .inl (by omega)
    · obtain rfl : index = t.slots.size := Nat.le_antisymm hle (Nat.le_of_not_lt hlt)
      exact .inr ⟨hleast.2, by omega⟩

end

/-- A new atom takes the lowest index that is vacant. -/
theorem Compact.made (hp : t.Compact) (h : t.Sound buckets 0) (hw : Wanted t span blob payload type)
    (hi : { t with bytes := t.bytes + payload.copied }.insert payload blob (Hash.ofBytes span.bytes) = .ok (a, t')) :
    TakesLowest t a t' ∧ Fills t t' := by
  have hleast := hp.isLeast h.accounted
  obtain ⟨g, ha, hinserted, -⟩ := h.made_taken hw hi
  obtain ⟨s, e, hs, rfl, he, -⟩ := hinserted.exists_slot
  constructor
  · have hlt := (Array.getElem?_eq_some_iff.1 hs).1
    refine ⟨_, s, hleast, hs, Option.isSome_of_eq_some he, ha, fun hsize => ?_⟩
    rw [ha]
    exact toNat_index_atom (Nat.lt_of_lt_of_le hlt hsize) s
  · have hfills := hinserted.fills hleast (gauge_eq_iff.1 (insert_gauge hi).1).1
    exact ⟨hfills.enabled, hfills.compact, hfills.size⟩

end AtomHeap.Table
