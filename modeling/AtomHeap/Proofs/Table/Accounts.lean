import AtomHeap.Proofs.Table.Slots
import AtomHeap.Table.Insert
import AtomHeap.Table.Sweep
/-!
# Accounts of the slots

`Table.Accounted t spare`: the figures that a table keeps about its slots are right, and its holes are
just the empty slots above the boundary. Of the bytes of copies, `spare` are those of a payload for
which there is no entry yet. Putting an entry into an empty slot and emptying one keep the accounts,
if the figures follow.
-/

namespace AtomHeap

/-- What the accounts depend on in a slot. -/
def Slot.data (s : Slot) : Option (Payload × UInt64) := s.entry.map fun e => (e.payload, e.hash)

namespace Table

/-- How many slots are in use. -/
def inUse (t : Table) : Nat := t.slots.toList.countP (·.entry.isSome)

/-- The bytes of all copies together. -/
def copied (t : Table) : Nat := (t.slots.toList.map Slot.copied).sum

/-- Whether the slot of an index is there and empty. -/
def IsEmpty (t : Table) (i : Nat) : Prop := ∃ s, t.slots[i]? = some s ∧ s.entry = none

/-- The figures that the table keeps about its slots are right. -/
structure Accounted (t : Table) (spare : Nat) : Prop where
  /-- Hashes are stored with the bytes that they are of. -/
  hash : ∀ i e, t.entryAt? i = some e → e.hash = Hash.ofBytes e.payload.bytes
  count : t.count = t.inUse
  holes : ∀ i, i ∈ t.holes ↔ t.builtin ≤ i ∧ t.IsEmpty i
  boundary : t.builtin ≤ t.slots.size
  bytes : t.bytes = t.copied + spare

variable {t t' : Table} {i index spare : Nat} {e : Entry} {s s' : Slot}

/-! ## Sums over slots -/

theorem toList_modify_split {slots : Array Slot} (h : slots[i]? = some s) (f : Slot → Slot) :
    ∃ l₁ l₂, slots.toList = l₁ ++ s :: l₂ ∧ (slots.modify i f).toList = l₁ ++ f s :: l₂ := by
  obtain ⟨hlt, rfl⟩ := Array.getElem?_eq_some_iff.1 h
  refine ⟨slots.toList.take i, slots.toList.drop (i + 1), ?_, ?_⟩
  · rw [← Array.getElem_toList, List.getElem_cons_drop, List.take_append_drop]
  · rw [Array.toList_modify, List.modify_eq_take_cons_drop (by simpa using hlt), Array.getElem_toList]

/-- Changing one slot changes the number of those in use by what it does there. -/
theorem inUse_modify (h : t.slots[i]? = some s) (f : Slot → Slot) (hs : t'.slots = t.slots.modify i f) :
    t'.inUse + s.entry.isSome.toNat = t.inUse + (f s).entry.isSome.toNat := by
  obtain ⟨l₁, l₂, h₁, h₂⟩ := toList_modify_split h f
  unfold inUse
  rw [hs, h₁, h₂, List.countP_append, List.countP_append, List.countP_cons, List.countP_cons]
  cases s.entry.isSome <;> cases (f s).entry.isSome <;> simp <;> omega

theorem copied_modify (h : t.slots[i]? = some s) (f : Slot → Slot) (hs : t'.slots = t.slots.modify i f) :
    t'.copied + s.copied = t.copied + (f s).copied := by
  obtain ⟨l₁, l₂, h₁, h₂⟩ := toList_modify_split h f
  unfold copied
  rw [hs, h₁, h₂]
  simp only [List.map_append, List.map_cons, List.sum_append, List.sum_cons]
  omega

theorem Accounted.count_le (h : t.Accounted spare) : t.count ≤ t.slots.size := by
  rw [h.count, ← Array.length_toList]
  exact List.countP_le_length

/-! ## Tables with the same data -/

/-- The slots have the same payloads and hashes. -/
def SameData (t t' : Table) : Prop := t'.slots.toList.map Slot.data = t.slots.toList.map Slot.data

namespace SameData

theorem slots (h : SameData t t') (i : Nat) : t'.slots[i]?.map Slot.data = t.slots[i]?.map Slot.data := by
  simpa using congrArg (·[i]?) h

theorem size (h : SameData t t') : t'.slots.size = t.slots.size := by
  simpa using congrArg List.length h

theorem entryAt? (h : SameData t t') (i : Nat) :
    (t'.entryAt? i).map (fun e => (e.payload, e.hash)) = (t.entryAt? i).map fun e => (e.payload, e.hash) := by
  have hjoin : ∀ t : Table,
      (t.entryAt? i).map (fun e => (e.payload, e.hash)) = (t.slots[i]?.map Slot.data).join := by
    intro t
    unfold Table.entryAt?
    cases t.slots[i]? <;> rfl
  rw [hjoin, hjoin, h.slots]

theorem isEmpty (h : SameData t t') (i : Nat) : t'.IsEmpty i ↔ t.IsEmpty i := by
  have hiff : ∀ t : Table, t.IsEmpty i ↔ t.slots[i]?.map Slot.data = some none := by
    intro t
    unfold IsEmpty Slot.data
    rw [Option.map_eq_some_iff]
    simp only [Option.map_eq_none_iff]
  rw [hiff, hiff, h.slots]

theorem inUse (h : SameData t t') : t'.inUse = t.inUse := by
  have := congrArg (List.countP Option.isSome) h
  unfold Slot.data at this
  simpa [List.countP_map, Function.comp_def, Table.inUse] using this

theorem copied (h : SameData t t') : t'.copied = t.copied := by
  have := congrArg (fun l => (l.map fun d : Option (Payload × UInt64) => (d.map (·.1.copied)).getD 0).sum) h
  have hcopied : Slot.copied = fun s => (s.data.map (·.1.copied)).getD 0 := by
    funext s
    unfold Slot.copied Slot.data
    rw [Option.map_map]
    rfl
  unfold Table.copied
  rw [hcopied]
  simpa [Function.comp_def] using this

end SameData

theorem Relinked.sameData (h : Relinked t t') : SameData t t' := by
  have := congrArg (List.map Slot.data) h.bare
  rw [List.map_map, List.map_map] at this
  have hdata : Slot.data ∘ Slot.bare = Slot.data := by
    funext s
    obtain ⟨g, e⟩ := s
    cases e <;> rfl
  rwa [hdata] at this

/-- The accounts depend on nothing but the data, the holes, the boundary and the figures. -/
theorem Accounted.congr (h : t.Accounted spare) (hs : SameData t t') (hholes : t'.holes = t.holes)
    (hbuiltin : t'.builtin = t.builtin) (hcount : t'.count = t.count) (hbytes : t'.bytes = t.bytes) :
    t'.Accounted spare where
  hash i e he := by
    have := hs.entryAt? i
    rw [he, Option.map_some, eq_comm, Option.map_eq_some_iff] at this
    obtain ⟨e₀, he₀, heq⟩ := this
    rw [Prod.mk.injEq] at heq
    rw [← heq.1, ← heq.2]
    exact h.hash i e₀ he₀
  count := by rw [hcount, hs.inUse, h.count]
  holes i := by rw [hholes, hbuiltin, hs.isEmpty, h.holes]
  boundary := by rw [hbuiltin, hs.size]; exact h.boundary
  bytes := by rw [hbytes, hs.copied, h.bytes]

/-! ## A slot for a new atom -/

/-- The one table is the other with an empty slot set aside, which no hole is for. -/
structure SetAside (t t' : Table) (index : Nat) (s : Slot) : Prop where
  slot : t'.slots[index]? = some s
  empty : s.entry = none
  others : ∀ i ≠ index, t'.slots[i]? = t.slots[i]?
  size : t'.slots.size = max t.slots.size (index + 1)
  le : index ≤ t.slots.size
  /-- A slot that is new was never emptied. -/
  generation : s.generation = (t.slots[index]?.map (·.generation)).getD 0
  vacant : t.entryAt? index = none
  holes : ∀ i, i ∈ t'.holes ↔ i ∈ t.holes ∧ i ≠ index
  boundary : t.builtin ≤ index
  inUse : t'.inUse = t.inUse
  copied : t'.copied = t.copied
  rest : t' = { t with slots := t'.slots, holes := t'.holes }

theorem IsEmpty.entryAt? (h : t.IsEmpty i) : t.entryAt? i = none := by
  obtain ⟨s, hs, he⟩ := h
  unfold Table.entryAt?
  rw [hs, Option.bind_some, he]

theorem takeSlot_setAside (hholes : ∀ i ∈ t.holes, t.builtin ≤ i ∧ t.IsEmpty i)
    (hb : t.builtin ≤ t.slots.size) :
    ∃ index t' s, t.takeSlot = (index, t') ∧ SetAside t t' index s := by
  unfold takeSlot
  split
  · rename_i index hmin
    have hmem : index ∈ t.holes := by
      split at hmin
      · exact (Std.TreeSet.min?_eq_some_iff_mem_and_forall.1 hmin).1
      · cases hmin
    obtain ⟨hle, s, hs, he⟩ := hholes index hmem
    have hlt := (Array.getElem?_eq_some_iff.1 hs).1
    refine ⟨index, _, s, rfl, hs, he, fun _ _ => rfl, ?_, Nat.le_of_lt hlt, ?_, IsEmpty.entryAt? ⟨s, hs, he⟩,
      ?_, hle, rfl, rfl, rfl⟩
    · exact (Nat.max_eq_left hlt).symm
    · rw [hs]
      rfl
    · intro i
      rw [Std.TreeSet.mem_erase, ne_eq, Std.LawfulEqCmp.compare_eq_iff_eq, and_comm, eq_comm]
  · have hnone : t.slots[t.slots.size]? = none := Array.getElem?_size
    refine ⟨t.slots.size, _, {}, rfl, Array.getElem?_push_size, rfl, fun i hi => ?_, ?_, Nat.le_refl _, ?_, ?_,
      fun i => ?_, hb, ?_, ?_, rfl⟩
    · rw [Array.getElem?_push, if_neg hi]
    · simp
    · rw [hnone]
      rfl
    · unfold entryAt?
      rw [hnone]
      rfl
    · -- A hole is for a slot that there is, so none is for the new one.
      refine (and_iff_left_of_imp fun hi heq => ?_).symm
      obtain ⟨-, s, hs, -⟩ := hholes i hi
      rw [heq, hnone] at hs
      cases hs
    · simp [inUse]
    · simp [copied, Slot.copied]

/-- Putting an entry into a slot that was set aside keeps the accounts, if the figures follow. -/
theorem Accounted.fill {t₁ : Table} (h : t.Accounted e.payload.copied) (hv : SetAside t t₁ index s)
    (hhash : e.hash = Hash.ofBytes e.payload.bytes)
    (hslots : t'.slots = t₁.slots.modify index ({ · with entry := some e }))
    (hholes : t'.holes = t₁.holes) (hbuiltin : t'.builtin = t.builtin) (hcount : t'.count = t.count + 1)
    (hbytes : t'.bytes = t.bytes) : t'.Accounted 0 := by
  have hlt : index < t₁.slots.size := (Array.getElem?_eq_some_iff.1 hv.slot).1
  have hslot : ∀ i, t'.slots[i]? = if index = i then some { s with entry := some e } else t.slots[i]? := by
    intro i
    rw [hslots, Array.getElem?_modify]
    split
    · rename_i hi
      rw [← hi, hv.slot]
      rfl
    · rename_i hi
      exact hv.others i (Ne.symm hi)
  refine ⟨?_, ?_, ?_, ?_, ?_⟩
  · intro i e' he'
    unfold entryAt? at he'
    rw [hslot] at he'
    split at he'
    · cases he'
      exact hhash
    · exact h.hash i e' he'
  · -- The slot was empty, so there is one more in use.
    have := inUse_modify hv.slot _ hslots
    rw [hv.empty, hv.inUse, ← h.count] at this
    rw [hcount]
    simpa using this.symm
  · intro i
    rw [hholes, hv.holes, h.holes, hbuiltin]
    unfold IsEmpty
    rw [hslot]
    split
    · rename_i hi
      simp [hi]
    · rename_i hi
      simp [Ne.symm hi]
  · rw [hbuiltin, hslots, Array.size_modify, hv.size]
    exact Nat.le_trans h.boundary (Nat.le_max_left _ _)
  · have := copied_modify hv.slot _ hslots
    -- The bytes were counted before the slot had them.
    have h₀ : s.copied = 0 := by
      unfold Slot.copied
      rw [hv.empty]
      rfl
    rw [h₀, hv.copied] at this
    rw [hbytes, h.bytes]
    exact this.symm

/-- A slot in use is counted, and the bytes of its copy are. -/
theorem Accounted.figures (h : t.Accounted spare) (he : t.entryAt? index = some e) :
    1 ≤ t.count ∧ e.payload.copied ≤ t.bytes := by
  obtain ⟨s, hs, hse⟩ := entryAt?_eq_some_iff.1 he
  obtain ⟨l₁, l₂, hsplit, -⟩ := toList_modify_split hs id
  have hcount := h.count
  have hbytes := h.bytes
  unfold inUse at hcount
  unfold copied Slot.copied at hbytes
  rw [hsplit, List.countP_append, List.countP_cons, hse] at hcount
  rw [hsplit, List.map_append, List.map_cons, List.sum_append, List.sum_cons, hse] at hbytes
  simp only [Option.isSome_some, if_pos, Option.map_some, Option.getD_some] at hcount hbytes
  omega

/-- Emptying a slot above the boundary keeps the accounts, if the figures follow. -/
theorem Accounted.vacate (h : t.Accounted spare) (hslot : t.slots[index]? = some s) (he : s.entry = some e)
    (hle : t.builtin ≤ index) {f : Slot → Slot} (hf : (f s).entry = none)
    (hslots : t'.slots = t.slots.modify index f)
    (hholes : t'.holes = t.holes.insert index) (hbuiltin : t'.builtin = t.builtin)
    (hcount : t'.count + 1 = t.count)
    (hbytes : t'.bytes + e.payload.copied = t.bytes) : t'.Accounted spare := by
  have hget : ∀ i, t'.slots[i]? = if index = i then some (f s) else t.slots[i]? := by
    intro i
    rw [hslots, Array.getElem?_modify]
    split
    · rename_i hi
      rw [← hi, hslot]
      rfl
    · rfl
  refine ⟨?_, ?_, ?_, ?_, ?_⟩
  · intro i e' he'
    unfold entryAt? at he'
    rw [hget] at he'
    split at he'
    · rw [Option.bind_some, hf] at he'
      cases he'
    · exact h.hash i e' he'
  · have := inUse_modify hslot f hslots
    rw [he, hf, ← h.count, ← hcount] at this
    simpa using this.symm
  · intro i
    rw [hholes, Std.TreeSet.mem_insert, Std.LawfulEqCmp.compare_eq_iff_eq, h.holes, hbuiltin]
    unfold IsEmpty
    rw [hget]
    split
    · rename_i hi
      simp [← hi, hle, hf]
    · rename_i hi
      simp [hi]
  · rw [hbuiltin, hslots, Array.size_modify]
    exact h.boundary
  · have := copied_modify hslot f hslots
    unfold Slot.copied at this
    have hb := h.bytes
    rw [he, hf] at this
    simp only [Option.map_some, Option.getD_some, Option.map_none, Option.getD_none] at this
    omega

end Table

end AtomHeap
