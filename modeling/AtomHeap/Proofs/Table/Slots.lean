import AtomHeap.Table.Chain
import Mathlib.Algebra.Ring.Int.Defs
import Mathlib.Algebra.Ring.Nat
import Mathlib.Tactic.Common
/-!
# Slots and what is in them

`Table.entryAt?` reads a table as a partial function from indices to entries. `Relinked` says that
two tables differ in links only: in where chains start and in how entries go on.
-/

namespace AtomHeap

/-- An entry apart from its place on a chain. -/
def Entry.bare (e : Entry) : Entry := { e with next := none }

/-- A slot apart from the place of its entry on a chain. -/
def Slot.bare (s : Slot) : Slot := { s with entry := s.entry.map Entry.bare }

/-- How many bytes of copies a slot accounts for. -/
def Slot.copied (s : Slot) : Nat := (s.entry.map (·.payload.copied)).getD 0

namespace Table

/-- The entry of the slot of an index, if that slot is in use. -/
def entryAt? (t : Table) (i : Nat) : Option Entry := t.slots[i]?.bind (·.entry)

variable {t t' t'' : Table} {i j : Nat} {e : Entry} {s : Slot}

theorem entryAt?_eq_some_iff : t.entryAt? i = some e ↔ ∃ s, t.slots[i]? = some s ∧ s.entry = some e := by
  unfold entryAt?
  rw [Option.bind_eq_some_iff]

theorem lt_of_entryAt? (h : t.entryAt? i = some e) : i < t.slots.size := by
  obtain ⟨s, hs, -⟩ := entryAt?_eq_some_iff.1 h
  exact (Array.getElem?_eq_some_iff.1 hs).1

theorem slot_eq_ok_iff : t.slot i = .ok s ↔ t.slots[i]? = some s := by
  unfold slot
  cases t.slots[i]? <;> simp

theorem slot_of_lt (h : i < t.slots.size) : ∃ s, t.slot i = .ok s ∧ t.slots[i]? = some s :=
  ⟨_, slot_eq_ok_iff.2 (Array.getElem?_eq_getElem h), Array.getElem?_eq_getElem h⟩

theorem slot_of_entryAt? (h : t.entryAt? i = some e) : ∃ s, t.slot i = .ok s ∧ s.entry = some e := by
  obtain ⟨s, hs, he⟩ := entryAt?_eq_some_iff.1 h
  exact ⟨s, slot_eq_ok_iff.2 hs, he⟩

theorem entryAt?_of_slot (h : t.slot i = .ok s) : t.entryAt? i = s.entry := by
  unfold entryAt?
  rw [slot_eq_ok_iff.1 h, Option.bind_some]

theorem map_bare_entryAt? (t : Table) (i : Nat) :
    (t.entryAt? i).map Entry.bare = (t.slots[i]?.map Slot.bare).bind (·.entry) := by
  unfold entryAt?
  cases t.slots[i]? <;> rfl

/-- An entry, apart from its link, of two tables that have the same slot apart from its link. -/
theorem of_bare_slot (hs : t'.slots[i]?.map Slot.bare = t.slots[i]?.map Slot.bare)
    (he : t'.entryAt? i = some e) :
    ∃ e₀, t.entryAt? i = some e₀ ∧ e₀.bare = e.bare := by
  have hi := map_bare_entryAt? t' i
  rw [hs, ← map_bare_entryAt?, he, Option.map_some, eq_comm, Option.map_eq_some_iff] at hi
  exact hi

/-! ## Changes to one slot -/

@[simp] theorem size_setEntry (t : Table) (i : Nat) (o : Option Entry) :
    (t.setEntry i o).slots.size = t.slots.size := by simp [setEntry]

@[simp] theorem chains_setEntry (t : Table) (i : Nat) (o : Option Entry) :
    (t.setEntry i o).chains = t.chains := rfl

theorem slots_setEntry (t : Table) (i j : Nat) (o : Option Entry) :
    (t.setEntry i o).slots[j]? = if i = j then t.slots[j]?.map ({ · with entry := o }) else t.slots[j]? := by
  unfold setEntry
  rw [Array.getElem?_modify]

theorem entryAt?_setEntry_self (h : i < t.slots.size) (o : Option Entry) :
    (t.setEntry i o).entryAt? i = o := by
  unfold entryAt?
  rw [slots_setEntry, if_pos rfl, Array.getElem?_eq_getElem h]
  rfl

theorem entryAt?_setEntry_ne (h : j ≠ i) (o : Option Entry) : (t.setEntry i o).entryAt? j = t.entryAt? j := by
  unfold entryAt?
  rw [slots_setEntry, if_neg h.symm]

@[simp] theorem slots_setFirst (t : Table) (n : Nat) (o : Option Nat) :
    (t.setFirst n o).slots = t.slots := rfl

@[simp] theorem size_setFirst (t : Table) (n : Nat) (o : Option Nat) :
    (t.setFirst n o).chains.size = t.chains.size := by simp [setFirst]

theorem chains_setFirst (t : Table) (m n : Nat) (o : Option Nat) :
    (t.setFirst n o).chains[m]? = if n = m then t.chains[m]?.map (fun _ => o) else t.chains[m]? := by
  unfold setFirst
  rw [Array.getElem?_modify]

@[simp] theorem entryAt?_setFirst (t : Table) (n : Nat) (o : Option Nat) :
    (t.setFirst n o).entryAt? = t.entryAt? := rfl

/-! ## Tables that differ in links only -/

/-- The one table is the other but for where chains start and how entries go on. -/
structure Relinked (t t' : Table) : Prop where
  bare : t'.slots.toList.map Slot.bare = t.slots.toList.map Slot.bare
  rest : t' = { t with slots := t'.slots, chains := t'.chains }

namespace Relinked

theorem refl (t : Table) : Relinked t t := ⟨rfl, rfl⟩

theorem trans (h : Relinked t t') (h' : Relinked t' t'') : Relinked t t'' := by
  refine ⟨h'.bare.trans h.bare, ?_⟩
  rw [h'.rest, h.rest]

theorem size (h : Relinked t t') : t'.slots.size = t.slots.size := by
  simpa using congrArg List.length h.bare

theorem slots (h : Relinked t t') (i : Nat) : t'.slots[i]?.map Slot.bare = t.slots[i]?.map Slot.bare := by
  simpa using congrArg (·[i]?) h.bare

theorem of_some (h : Relinked t t') (he : t'.entryAt? i = some e) :
    ∃ e₀, t.entryAt? i = some e₀ ∧ e₀.bare = e.bare := of_bare_slot (h.slots i) he

/-- A slot in use has its data and its generation in both tables. -/
theorem of_slot (h : Relinked t t') (hs : t.slots[i]? = some s) (he : s.entry = some e) :
    ∃ s' e', t'.slots[i]? = some s' ∧ s'.generation = s.generation ∧ s'.entry = some e' ∧
      e'.payload = e.payload := by
  have hslot := h.slots i
  rw [hs, Option.map_some, Option.map_eq_some_iff] at hslot
  obtain ⟨s', hs', hbare⟩ := hslot
  have hentry := congrArg (·.entry.map (·.payload)) hbare
  simp only [Slot.bare, he, Option.map_map, Option.map_some] at hentry
  obtain ⟨e', he', hpayload⟩ := Option.map_eq_some_iff.1 hentry
  have hgeneration : s'.generation = s.generation := congrArg (·.generation) hbare
  exact ⟨s', e', hs', hgeneration, he', hpayload⟩

theorem setNext (h : t.entryAt? i = some e) (next : Option Nat) :
    Relinked t (t.setEntry i (some { e with next })) := by
  refine ⟨List.ext_getElem? fun j => ?_, rfl⟩
  obtain ⟨s, hs, he⟩ := entryAt?_eq_some_iff.1 h
  rw [List.getElem?_map, List.getElem?_map, Array.getElem?_toList, Array.getElem?_toList, slots_setEntry]
  by_cases hj : i = j
  · subst hj
    rw [if_pos rfl, hs]
    simp [Slot.bare, Entry.bare, he]
  · rw [if_neg hj]

theorem setFirst (t : Table) (n : Nat) (o : Option Nat) : Relinked t (t.setFirst n o) := ⟨rfl, rfl⟩

end Relinked

end Table

end AtomHeap
