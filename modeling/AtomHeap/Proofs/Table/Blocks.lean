import AtomHeap.Proofs.Memory.Coverage
import AtomHeap.Proofs.Memory.Size
import AtomHeap.Proofs.Table.Verdicts
import Mathlib.Data.List.Perm.Basic
/-!
# The blocks that payloads fill

`Table.blocks t` are the blocks of all copies in `t`. Nothing but making and destroying an atom changes
them: a new atom brings the block of its payload, and a sweep hands back those of the atoms it destroys.
-/

namespace AtomHeap

/-- All of a block of which this many bytes were asked for. -/
def Region.ofBlock : Address × Nat → Region
  | (b, size) => ⟨b, (roundUp size).toOption.getD 0⟩

theorem Region.ofBlock_length {b : Address} {size : Nat} (h : 0 < (ofBlock (b, size)).length) :
    roundUp size = .ok (ofBlock (b, size)).length := by
  cases hr : roundUp size with
  | error e => simp [ofBlock, hr, Except.toOption] at h
  | ok length => simp [ofBlock, hr, Except.toOption]

/-- The bytes asked for are in the block. -/
theorem Region.covers_ofBlock {b : Address} {size : Nat} {a : Address} (h : 0 < (ofBlock (b, size)).length)
    (ha : (⟨b, size⟩ : Region).covers a) : (ofBlock (b, size)).covers a := by
  obtain ⟨-, -, hlength⟩ := roundUp_eq_ok_iff.1 (ofBlock_length h)
  obtain ⟨hchunk, hle, hlt⟩ := covers_iff.1 ha
  refine covers_iff.2 ⟨hchunk, hle, ?_⟩
  simp only [alignment] at hlength
  change a.offset < b.offset + (ofBlock (b, size)).length
  simp only at hlt
  omega

theorem Region.Apart.symm {r q : Region} (h : r.Apart q) : q.Apart r := fun a ha => h a ha.symm

/-! ## Lists read off at indices -/

section Lists

variable {α β : Type} {f g : Nat → Option β} {i n : Nat}

theorem filterMap_range_getElem? (l : List α) (n : Nat) : (List.range n).filterMap (l[·]?) = l.take n := by
  induction n with
  | zero => rfl
  | succ n ih =>
    rw [List.range_succ, List.filterMap_append, ih, List.take_add_one]
    cases h : l[n]? <;> simp [h]

/-- Another value at one index brings that value. -/
theorem filterMap_range_update (hi : i < n) (hf : f i = none) (hsame : ∀ j ≠ i, g j = f j) :
    ((List.range n).filterMap g).Perm ((g i).toList ++ (List.range n).filterMap f) := by
  have hsplit := List.perm_cons_erase (List.mem_range.2 hi)
  have hrest : ((List.range n).erase i).filterMap g = ((List.range n).erase i).filterMap f := by
    apply List.filterMap_congr
    intro j hj
    exact hsame j (List.nodup_range.mem_erase_iff.1 hj).1
  have hf' := hsplit.filterMap f
  have hg' := hsplit.filterMap g
  rw [List.filterMap_cons, hf] at hf'
  rw [List.filterMap_cons, hrest] at hg'
  refine hg'.trans ?_
  cases g i with
  | none => exact hf'.symm
  | some b => exact hf'.symm.cons b

theorem filterMap_split (f : α → Option β) (p : α → Bool) (l : List α) :
    (l.filterMap f).Perm
      ((l.filterMap fun a => if p a then f a else none) ++ l.filterMap fun a => if p a then none else f a) := by
  have h := ((List.filter_append_perm p l).filterMap f).symm
  rw [List.filterMap_append, List.filterMap_filter, List.filterMap_filter] at h
  have hnot : (fun a => if (!p a) = true then f a else none) = fun a => if p a then none else f a := by
    funext a
    cases p a <;> rfl
  rwa [hnot] at h

end Lists

namespace Table

variable {t t' : Table} {buckets i j index : Nat} {e : Entry} {g : BitVec 24} {swept : Swept}

/-- The block of the atom in a slot. -/
def blockAt? (t : Table) (i : Nat) : Option (Address × Nat) := (t.entryAt? i).bind (·.payload.block?)

/-- The blocks of all copies. -/
def blocks (t : Table) : List (Address × Nat) :=
  t.slots.toList.filterMap fun slot => slot.entry.bind (·.payload.block?)

def regions (t : Table) : List Region := t.blocks.map Region.ofBlock

theorem blocks_eq {n : Nat} (h : t.slots.size ≤ n) : t.blocks = (List.range n).filterMap t.blockAt? := by
  have hat : t.blockAt? = fun i => (t.slots.toList[i]?).bind fun slot => slot.entry.bind (·.payload.block?) := by
    funext i
    unfold blockAt? entryAt?
    rw [Option.bind_assoc, Array.getElem?_toList]
  rw [hat, ← List.filterMap_filterMap, filterMap_range_getElem?, List.take_of_length_le (by simpa using h)]
  rfl

theorem blockAt?_of_pooled {b : Address} {bytes : List UInt8} (he : t.entryAt? i = some e)
    (hp : e.payload = .pooled b bytes) : t.blockAt? i = some (b, bytes.length) := by
  unfold blockAt?
  rw [he, Option.bind_some, hp]
  rfl

theorem mem_regions {b : Address} {bytes : List UInt8} (he : t.entryAt? i = some e)
    (hp : e.payload = .pooled b bytes) : Region.ofBlock (b, bytes.length) ∈ t.regions := by
  refine List.mem_map.2 ⟨_, ?_, rfl⟩
  rw [blocks_eq (Nat.le_refl _), List.mem_filterMap]
  exact ⟨i, List.mem_range.2 (lt_of_entryAt? he), blockAt?_of_pooled he hp⟩

/-- The blocks of two slots are apart if all blocks are. -/
theorem apart_of_ne {p q : Address × Nat} (h : t.regions.Pairwise Region.Apart) (hi : t.blockAt? i = some p)
    (hj : t.blockAt? j = some q) (hne : i ≠ j) : (Region.ofBlock p).Apart (Region.ofBlock q) := by
  have hlt : ∀ {k p}, t.blockAt? k = some p → k < t.slots.size := by
    intro k p hk
    obtain ⟨e, he, -⟩ := Option.bind_eq_some_iff.1 hk
    exact lt_of_entryAt? he
  unfold regions at h
  rw [blocks_eq (Nat.le_refl _), List.pairwise_map, List.pairwise_filterMap, List.pairwise_iff_getElem] at h
  rcases Nat.lt_or_gt_of_ne hne with hij | hji
  · exact h i j (by simpa using hlt hi) (by simpa using hlt hj) hij p (by simpa using hi) q (by simpa using hj)
  · exact (h j i (by simpa using hlt hj) (by simpa using hlt hi) hji q (by simpa using hj) p (by simpa using hi)).symm

/-- The same atoms with the same data. -/
structure SamePayloads (t t' : Table) : Prop where
  size : t'.slots.size = t.slots.size
  payload : ∀ i, (t'.entryAt? i).map (·.payload) = (t.entryAt? i).map (·.payload)

theorem SamePayloads.of_slots (h : t'.slots = t.slots) : SamePayloads t t' := by
  refine ⟨congrArg Array.size h, fun i => ?_⟩
  unfold entryAt?
  rw [h]

theorem Amended.samePayloads (h : Amended t t') : SamePayloads t t' := by
  refine ⟨h.size, fun i => ?_⟩
  have := congrArg (Option.map (·.1)) (h.entryAt? i)
  rwa [Option.map_map, Option.map_map] at this

theorem unregisterBlob_samePayloads {id : BlobId} (h : t.unregisterBlob id = .ok t') : SamePayloads t t' := by
  refine ⟨?_, fun i => ?_⟩
  · obtain ⟨blobs, -, rfl⟩ := unregisterBlob_eq h
    exact Array.size_map
  · rw [entryAt?_unregisterBlob h, Option.map_map]
    congr 1
    funext e
    exact e.withdraw_payload id

theorem blockAt?_eq_map (t : Table) (i : Nat) :
    t.blockAt? i = ((t.entryAt? i).map (·.payload)).bind Payload.block? := by
  unfold blockAt?
  cases t.entryAt? i <;> rfl

theorem SamePayloads.blocks (h : SamePayloads t t') : t'.blocks = t.blocks := by
  have hat : t'.blockAt? = t.blockAt? := by
    funext i
    rw [blockAt?_eq_map, blockAt?_eq_map, h.payload]
  rw [blocks_eq (Nat.le_refl _), blocks_eq (Nat.le_refl t.slots.size), h.size, hat]

/-- The block of a slot depends on its data only. -/
theorem blockAt?_of_bare (h : t'.slots[i]?.map Slot.bare = t.slots[i]?.map Slot.bare) :
    t'.blockAt? i = t.blockAt? i := by
  have hbare : (t'.entryAt? i).map Entry.bare = (t.entryAt? i).map Entry.bare := by
    rw [map_bare_entryAt?, map_bare_entryAt?, h]
  have := congrArg (Option.map (·.payload)) hbare
  rw [Option.map_map, Option.map_map] at this
  rw [blockAt?_eq_map, blockAt?_eq_map]
  exact congrArg (·.bind Payload.block?) this

/-- A new atom brings the block of its payload. -/
theorem Inserted.blocks (h : Inserted t e index g t') : t'.blocks.Perm (e.payload.block?.toList ++ t.blocks) := by
  have hvacant : t.blockAt? index = none := by
    unfold blockAt?
    rw [h.vacant]
    rfl
  have hnew : t'.blockAt? index = e.payload.block? := by
    have := map_bare_entryAt? t' index
    rw [h.slot] at this
    have := congrArg (Option.map (·.payload)) this
    rw [Option.map_map] at this
    rw [blockAt?_eq_map]
    exact congrArg (·.bind Payload.block?) this
  have hlt : index < t'.slots.size := by
    rw [h.size]
    exact Nat.lt_of_lt_of_le (Nat.lt_succ_self _) (Nat.le_max_right _ _)
  have hle : t.slots.size ≤ t'.slots.size := by
    rw [h.size]
    exact Nat.le_max_left _ _
  rw [blocks_eq (Nat.le_refl _), blocks_eq hle, ← hnew]
  exact filterMap_range_update hlt hvacant fun j hj => blockAt?_of_bare (h.others j hj)

/-- The atoms that a sweep leaves keep their payloads. -/
theorem SweptBelow.entryAt? (h : SweptBelow t t.slots.size swept t') (i : Nat) :
    (t'.entryAt? i).map (·.payload) = if t.condemned i then none else (t.entryAt? i).map (·.payload) := by
  have hpayload : ∀ t : Table, (t.entryAt? i).map (·.payload) =
      (t.slots[i]?.map Slot.bare).bind fun s => s.entry.map (·.payload) := by
    intro t
    unfold Table.entryAt?
    cases hs : t.slots[i]? with
    | none => rfl
    | some s => cases he : s.entry <;> simp [Slot.bare, Entry.bare, he]
  rw [hpayload, hpayload]
  cases hs : t.slots[i]? with
  | none => simp [h.slots, hs]
  | some s =>
    obtain ⟨s', hs', hfate⟩ := h.slot_cases hs
    rw [hs', Option.map_some, Option.map_some, Option.bind_some, Option.bind_some]
    rcases hfate with ⟨hcondemned, hbare⟩ | ⟨hcondemned, hbare | hbare⟩
    · rw [hcondemned, hbare]
      rfl
    · rw [hcondemned, hbare]
      rfl
    · rw [hcondemned, hbare]
      cases he : s.entry <;> simp [Slot.bare, Slot.spared, Entry.bare, he]

/-- A sweep hands back the blocks of the atoms it destroys, and the others stay. -/
theorem SweptBelow.blocks (h : SweptBelow t t.slots.size swept t') :
    t.blocks.Perm (swept.freed.toList ++ t'.blocks) := by
  have hat : t'.blockAt? = fun i => if t.condemned i then none else t.blockAt? i := by
    funext i
    rw [blockAt?_eq_map, h.entryAt?]
    split
    · rfl
    · exact (blockAt?_eq_map t i).symm
  rw [blocks_eq (Nat.le_refl _), blocks_eq (Nat.le_refl t'.slots.size), h.size, h.freed, hat]
  exact filterMap_split t.blockAt? t.condemned _

end Table

end AtomHeap
