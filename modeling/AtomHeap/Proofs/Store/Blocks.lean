import AtomHeap.Proofs.Store.Handles
import AtomHeap.Proofs.Store.Tenancy
/-!
# Copies and their blocks

Whatever the store and the other users of its heap do, copies and the blocks that the table was given
correspond one to one (`Tenancy.copies_lodged`): each copy has a block of its own, which holds its bytes
and overlaps neither that of another copy nor what anybody else has nor free memory. So an atom reads as
the bytes that were interned, and closing the store gives back just what it had.
-/

namespace AtomHeap

open Heap (total Settled)

/-! ## Memory -/

section Memory

variable {memory : Memory} {p : Payload} {b : Address} {bytes : List UInt8} {t t' : Table} {e : Entry} {index : Nat}
  {g : BitVec 24}

/-- The bytes from an address on. -/
def Memory.read (memory : Memory) (b : Address) (n : Nat) : List UInt8 :=
  (List.range n).map fun k => memory (b.advance k)

/-- Memory with some bytes written from an address on. -/
def Memory.write (memory : Memory) (b : Address) (bytes : List UInt8) : Memory := fun a =>
  if (⟨b, bytes.length⟩ : Region).covers a then bytes.getD (a.offset - b.offset) 0 else memory a

theorem Payload.Reads.read (h : p.Reads memory) (hp : p = .pooled b bytes) :
    memory.read b bytes.length = bytes := by
  apply List.ext_getElem?
  intro k
  unfold Memory.read
  rw [List.getElem?_map]
  cases hk : bytes[k]? with
  | none =>
    rw [List.getElem?_eq_none (by simpa using hk)]
    rfl
  | some byte =>
    rw [List.getElem?_range (List.getElem?_eq_some_iff.1 hk).1]
    exact congrArg some (h b bytes hp k byte hk)

theorem Payload.reads_write (memory : Memory) (b : Address) (bytes : List UInt8) :
    (Payload.pooled b bytes).Reads (memory.write b bytes) := by
  rintro _ _ ⟨⟩ k byte hk
  have hcovers : (⟨b, bytes.length⟩ : Region).covers (b.advance k) := by
    refine Region.covers_iff.2 ⟨rfl, Nat.le_add_right _ _, ?_⟩
    have := (List.getElem?_eq_some_iff.1 hk).1
    simp only [Address.advance]
    omega
  unfold Memory.write
  rw [if_pos hcovers]
  simp [Address.advance, hk]

/-- Where no atom comes there is nothing to write. -/
theorem Table.SamePayloads.copied (h : SamePayloads t t') (memory : Memory) : Copied t t' memory memory where
  written i e hnone he := by
    have hpayload := h.payload i
    rw [hnone, he] at hpayload
    cases hpayload
  kept _ hne := absurd rfl hne

/-- A new copy can be written to its block. -/
theorem Table.Inserted.copied (h : Inserted t e index g t') (memory : Memory) :
    ∃ memory', Copied t t' memory memory' := by
  have hnew : ∀ i e', t.entryAt? i = none → t'.entryAt? i = some e' → i = index ∧ e'.payload = e.payload := by
    intro i e' hnone he'
    rcases h.of_some he' with ⟨hi, hbare⟩ | ⟨-, e₀, he₀, -⟩
    · exact ⟨hi, congrArg (·.payload) hbare.symm⟩
    · rw [hnone] at he₀
      cases he₀
  obtain ⟨e', he', hbare⟩ : ∃ e', t'.entryAt? index = some e' ∧ e'.bare = e.bare := by
    have := map_bare_entryAt? t' index
    rw [h.slot] at this
    exact Option.map_eq_some_iff.1 this
  have hpayload : e'.payload = e.payload := congrArg (·.payload) hbare
  by_cases hp : ∃ b bytes, e.payload = .pooled b bytes
  · obtain ⟨b, bytes, hp⟩ := hp
    refine ⟨memory.write b bytes, fun i e' hnone he' => ?_, fun a hne => ?_⟩
    · rw [(hnew i e' hnone he').2, hp]
      exact Payload.reads_write memory b bytes
    · refine ⟨index, e', b, bytes, h.vacant, he', hpayload.trans hp, ?_⟩
      by_contra hcovers
      unfold Memory.write at hne
      rw [if_neg hcovers] at hne
      exact hne rfl
  · refine ⟨memory, fun i e' hnone he' b bytes hp' => ?_, fun _ hne => absurd rfl hne⟩
    exact absurd ⟨b, bytes, (hnew i e' hnone he').2.symm.trans hp'⟩ hp

end Memory

/-! ## Blocks of atoms -/

/-- How many bytes the block of a slot has. -/
def Slot.rounded (s : Slot) : Nat :=
  (s.entry.bind (·.payload.block?)).elim 0 fun block => (Region.ofBlock block).length

theorem Region.ofBlock_of_roundUp {r : Region} {size : Nat} (h : roundUp size = .ok r.length) :
    ofBlock (r.start, size) = r := by
  simp [ofBlock, h, Except.toOption]

namespace Table

variable {t : Table} {i : Nat} {e : Entry} {r : Region}

/-- The bytes of the atom in a slot are a copy, and this is the block for it. -/
def Lodges (t : Table) (i : Nat) (r : Region) : Prop :=
  ∃ e bytes, t.entryAt? i = some e ∧ e.payload = .pooled r.start bytes ∧ roundUp bytes.length = .ok r.length

theorem Lodges.block (h : t.Lodges i r) : ∃ block, t.blockAt? i = some block ∧ Region.ofBlock block = r := by
  obtain ⟨e, bytes, he, hp, hround⟩ := h
  exact ⟨_, blockAt?_of_pooled he hp, Region.ofBlock_of_roundUp hround⟩

theorem Lodges.mem (h : t.Lodges i r) : r ∈ t.regions := by
  obtain ⟨e, bytes, he, hp, hround⟩ := h
  have := mem_regions he hp
  rwa [Region.ofBlock_of_roundUp hround] at this

theorem Lodges.unique {q : Region} (h : t.Lodges i r) (h' : t.Lodges i q) : q = r := by
  obtain ⟨block, hblock, rfl⟩ := h.block
  obtain ⟨block', hblock', rfl⟩ := h'.block
  rw [hblock, Option.some.injEq] at hblock'
  rw [hblock']

/-- Every block of a table is that of an atom. -/
theorem exists_lodges (hpos : 0 < r.length) (h : r ∈ t.regions) : ∃ i, t.Lodges i r := by
  obtain ⟨⟨b, size⟩, hblock, rfl⟩ := List.mem_map.1 h
  rw [blocks_eq (Nat.le_refl _), List.mem_filterMap] at hblock
  obtain ⟨i, -, hblock⟩ := hblock
  obtain ⟨e, he, hblock⟩ := Option.bind_eq_some_iff.1 hblock
  have hround := Region.ofBlock_length hpos
  obtain ⟨bytes, hp, rfl⟩ : ∃ bytes, e.payload = .pooled b bytes ∧ size = bytes.length := by
    unfold Payload.block? at hblock
    split at hblock
    · rename_i hp
      cases hblock
      exact ⟨_, hp, rfl⟩
    · cases hblock
  exact ⟨i, e, bytes, he, hp, hround⟩

theorem total_regions (t : Table) : total t.regions = (t.slots.toList.map Slot.rounded).sum := by
  unfold regions blocks
  generalize t.slots.toList = slots
  induction slots with
  | nil => rfl
  | cons s slots ih =>
    rw [List.map_cons, List.sum_cons, ← ih]
    unfold Slot.rounded
    cases hs : s.entry.bind (·.payload.block?) with
    | none =>
      simp only [List.filterMap_cons, hs]
      exact (Nat.zero_add _).symm
    | some block =>
      simp only [List.filterMap_cons, hs, List.map_cons, Heap.total_cons]
      rfl

end Table

namespace Tenancy

open Store

variable {spans : Span → Prop} {static : StaticMemory} {config : Config} {grants : Nat → Nat → Bool} {heap : Heap}
  {x x' : Tenancy} {s s' : Store} {others : List Region} {memory memory' : Memory} {events later : List Event}
  {buckets i : Nat} {limits : Limits} {span : Span} {lasting : Bool} {blob : BlobId} {e : Entry} {r : Region}

/-- What interning copies can be written. -/
theorem exists_copied (hs : s.table.Sound buckets 0) {r : Except AtomError Interned}
    (h : s.internLocked span lasting blob = .ok (r, s')) (memory : Memory) :
    ∃ memory', Table.Copied s.table s'.table memory memory' := by
  cases internLocked_outcome hs h with
  | refused e htable => exact ⟨memory, (Table.SamePayloads.of_slots (congrArg (·.slots) htable)).copied memory⟩
  | found _ _ _ hreuse => exact ⟨memory, (Table.reuse_amended hreuse).samePayloads.copied memory⟩
  | made hwanted hinsert =>
    obtain ⟨_, _, -, hinserted, -⟩ := hs.made hwanted hinsert
    obtain ⟨memory', hcopied⟩ := hinserted.copied memory
    exact ⟨memory', hcopied.written, hcopied.kept⟩

/-! ## What atoms read as -/

/-- The bytes that the data of an atom points to: those in its block, or at their place. -/
def read (static : StaticMemory) (x : Tenancy) (a : Atom) : Except AtomError (List UInt8) := do
  return match (← x.store.table.entry a).payload with
  | .empty => []
  | .pooled b bytes => x.memory.read b bytes.length
  | .kept place bytes => static.at place bytes.length

/-- They are the ones that the table has for it. -/
theorem Sound.read_eq (hx : Sound buckets limits x) (hc : x.store.table.Canonical static) (a : Atom) :
    x.read static a = x.store.table.bytesOf a := by
  unfold read Table.bytesOf
  cases ha : x.store.table.entry a with
  | error error => rfl
  | ok e =>
    have he := (Table.entry_eq_ok_iff.1 ha).1
    simp only [bind, Except.bind, pure, Except.pure, Except.ok.injEq]
    cases hp : e.payload with
    | empty => rfl
    | pooled b bytes => exact (hx.reads _ e he).read hp
    | kept place bytes => exact (hc.lies _ e he place bytes hp).symm

/-! ## Copies and blocks -/

theorem Sound.pos (hx : Sound buckets limits x) (h : r ∈ x.handed) : 0 < r.length :=
  (hx.heap.owned.handed r h).pos

/-- A copy is lodged in its block. -/
theorem Sound.lodges (hx : Sound buckets limits x) (he : x.store.table.entryAt? i = some e) {b : Address}
    {bytes : List UInt8} (hp : e.payload = .pooled b bytes) :
    x.store.table.Lodges i (Region.ofBlock (b, bytes.length)) := by
  have hmem := List.mem_append_left x.others (Table.mem_regions he hp)
  exact ⟨e, bytes, he, hp, Region.ofBlock_length (hx.pos hmem)⟩

/-- When the store is closed, others have what they had, and nobody has anything else. -/
theorem Sound.close (hx : Sound buckets limits x) :
    ∃ heap, x.store.close = .ok heap ∧ Settled limits heap x.others := by
  obtain ⟨heap, _, hclose, hrequests⟩ := close_requests hx.heap hx.pool
  exact ⟨heap, hclose, hrequests.settled hx.heap⟩

/-- Copies and the blocks of a table correspond one to one. -/
structure Lodged (static : StaticMemory) (x : Tenancy) : Prop where
  /-- An atom with bytes that were copied has one block. -/
  one_block : ∀ i e, x.store.table.entryAt? i = some e → e.payload.bytes ≠ [] →
    (∀ place bytes, e.payload ≠ .kept place bytes) → ∃! r, x.store.table.Lodges i r
  /-- An atom without bytes has none, nor has one with bytes that are kept where they were. -/
  no_block : ∀ i e, x.store.table.entryAt? i = some e →
    e.payload.bytes = [] ∨ (∃ place bytes, e.payload = .kept place bytes) ∨
      (∃ type, x.store.table.blobs.get? e.blob = some type ∧ type.flags.nocopy) → ∀ r, ¬ x.store.table.Lodges i r
  /-- The blocks handed out are those of atoms and those that others have, each once. -/
  handed : ∀ r, r ∈ x.handed ↔ (∃ i, x.store.table.Lodges i r) ∨ r ∈ x.others
  once : x.handed.Nodup
  /-- Atoms do not share blocks, with each other or with others. -/
  apart : ∀ i j r q, x.store.table.Lodges i r → x.store.table.Lodges j q → i ≠ j → r.Apart q
  apart_others : ∀ i r, x.store.table.Lodges i r → ∀ q ∈ x.others, r.Apart q
  /-- The bytes of the heap are shared out between the blocks handed out and free memory. -/
  partitioned : x.store.heap.Partitioned x.handed
  /-- An atom reads as what the table has for it. -/
  reads : ∀ a, x.read static a = x.store.table.bytesOf a
  bytes : x.store.table.bytes = (x.store.table.slots.toList.map Slot.copied).sum
  inUse : x.store.heap.bytesInUse = (x.store.table.slots.toList.map Slot.rounded).sum + total x.others
  /-- A store that is closed leaves the heap to the others. -/
  closed : ∃ heap, x.store.close = .ok heap ∧ heap.bytesInUse = total x.others ∧ heap.Partitioned x.others

theorem Sound.lodged (hx : Sound buckets limits x) (hc : x.store.table.Canonical static) : Lodged static x where
  one_block i e he hbytes hkept := by
    cases hp : e.payload with
    | empty => exact absurd (congrArg Payload.bytes hp) hbytes
    | pooled b bytes => exact ⟨_, hx.lodges he hp, fun q hq => (hx.lodges he hp).unique hq⟩
    | kept place bytes => exact absurd hp (hkept place bytes)
  no_block i e he hnone r := by
    rintro ⟨e', bytes, he', hp, hround⟩
    rw [he, Option.some.injEq] at he'
    subst he'
    have hnot : ∀ place bytes, e.payload ≠ .kept place bytes := fun place bytes hkept => by
      rw [hp] at hkept
      cases hkept
    rcases hnone with hempty | ⟨place, bytes, hkept⟩ | ⟨type, htype, hnocopy⟩
    · rw [hp] at hempty
      obtain rfl : bytes = [] := hempty
      exact absurd (roundUp_eq_ok_iff.1 hround).1 (by decide)
    · exact hnot place bytes hkept
    · obtain ⟨type', htype', hkept⟩ := hc.typed i e he
      rw [htype, Option.some.injEq] at htype'
      obtain ⟨place, bytes, hkept⟩ := hkept (htype' ▸ hnocopy)
      exact hnot place bytes hkept
  handed r := by
    unfold Tenancy.handed
    rw [List.mem_append]
    refine ⟨Or.imp_left fun h => ?_, Or.imp_left fun ⟨i, h⟩ => h.mem⟩
    exact Table.exists_lodges (hx.pos (List.mem_append_left _ h)) h
  once := by
    refine (hx.heap.owned.apart.imp_of_mem ?_ : x.handed.Pairwise (· ≠ ·))
    rintro r q hr - hapart rfl
    exact hapart r.start ⟨Region.covers_start (hx.pos hr), Region.covers_start (hx.pos hr)⟩
  apart i j r q hr hq hne := by
    obtain ⟨block, hblock, rfl⟩ := hr.block
    obtain ⟨block', hblock', rfl⟩ := hq.block
    have hapart := hx.heap.owned.apart.sublist (List.sublist_append_left _ _)
    exact Table.apart_of_ne hapart hblock hblock' hne
  apart_others i r hr q hq := (List.pairwise_append.1 hx.heap.owned.apart).2.2 r hr.mem q hq
  partitioned := hx.heap.owned.partitioned
  reads := hx.read_eq hc
  bytes := hx.table.accounted.bytes
  inUse := by
    rw [hx.heap.inUse, ← Table.total_regions]
    exact Heap.total_append _ _
  closed := by
    obtain ⟨heap, hclose, hheap⟩ := hx.close
    exact ⟨heap, hclose, hheap.inUse, hheap.owned.partitioned⟩

/-! ## What runs keep -/

theorem Run.canonical (h : Run (Span.Lies static) x events x') (hs : x.store.table.Sound buckets 0)
    (hc : x.store.table.Canonical static) : x'.store.table.Canonical static :=
  hc.changes hs (h.run.changes hs)

/-- Interning a span takes the one state to the other, and its copy is written. -/
structure Interns (x : Tenancy) (span : Span) (lasting : Bool) (blob : BlobId) (i : Interned) (x' : Tenancy) :
    Prop where
  answer : x.store.internLocked span lasting blob = .ok (.ok i, x'.store)
  others : x'.others = x.others
  copied : Table.Copied x.store.table x'.store.table x.memory x'.memory

theorem Interns.step {i : Interned} (h : Interns x span lasting blob i x') (hspan : spans span) :
    Step spans x [if i.isNew then .made i.atom else .found i.atom] x' := by
  obtain ⟨s, others, memory⟩ := x
  obtain ⟨s', others', memory'⟩ := x'
  obtain ⟨hanswer, rfl, hcopied⟩ := h
  exact .interned hspan hanswer hcopied

/-- Interning is possible among others: what it copies can be written. -/
theorem Sound.interns {x₀ : Tenancy} (hx : Sound buckets limits ⟨s, others, memory⟩)
    (h : Run spans x₀ events ⟨s, others, memory⟩) (span : Span) (hspan : spans span) (blob : BlobId) {i : Interned}
    (hintern : s.internLocked span false blob = .ok (.ok i, s')) :
    ∃ memory', Interns ⟨s, others, memory⟩ span false blob i ⟨s', others, memory'⟩ ∧
      Run spans x₀ ((if i.isNew then .made i.atom else .found i.atom) :: events) ⟨s', others, memory'⟩ := by
  obtain ⟨memory', hcopied⟩ := exists_copied hx.table hintern memory
  have hinterns : Interns ⟨s, others, memory⟩ span false blob i ⟨s', others, memory'⟩ := ⟨hintern, rfl, hcopied⟩
  exact ⟨memory', hinterns, h.step (hinterns.step hspan)⟩

/-- What was interned is read by its handle, if that resolves and its slot was not emptied `2 ^ 24` times. -/
theorem Sound.read_interned {x₁ : Tenancy} {i : Interned} (hx : Sound buckets limits x)
    (hc : x.store.table.Canonical static) (hspan : span.Lies static) (hinterns : Interns x span lasting blob i x₁)
    (hlater : Run (Span.Lies static) x₁ later x') (hsize : x'.store.table.slots.size ≤ UInt32.size)
    (hless : destructions later i.atom.index.toNat < 2 ^ 24) (hlive : x'.store.table.isLive i.atom = true) :
    x'.read static i.atom = .ok span.bytes := by
  have hstep := hinterns.step hspan
  have hx₁ := hstep.sound hx
  have hc₁ : x₁.store.table.Canonical static := hc.changes hx.table (hstep.run.changes hx.table)
  obtain ⟨index, slot, e, type, hslot, he, hatom, hfor⟩ :=
    (internLocked_outcome hx.table hinterns.answer).issued hx.table
  have hlt := (Array.getElem?_eq_some_iff.1 hslot).1
  have hle := (hlater.run.aged hx₁.table hsize).size
  have hindex := Table.toNat_index_atom (Nat.lt_of_lt_of_le hlt (Nat.le_trans hle hsize)) slot
  have hentry := Table.entryAt?_eq_some_iff.2 ⟨slot, hslot, he⟩
  have hfate := hlater.run.fate hx₁.table hsize hslot he
  rw [hatom, hindex] at hless
  rw [hatom] at hlive ⊢
  -- The slot was not emptied at all, or the handle would be stale.
  have hzero : destructions later index = 0 := by
    apply Nat.eq_zero_of_not_pos
    intro hpos
    rw [(hfate.collected hpos hless).live] at hlive
    cases hlive
  obtain ⟨e₁, e', he₁, he', hpayload⟩ := hfate.kept hzero
  have he₁ := (Table.entry_eq_ok_iff.1 he₁).1
  rw [hindex, hentry, Option.some.injEq] at he₁
  subst he₁
  have hbytes := hc₁.bytes_of_isFor hspan hentry hfor
  rw [(hlater.sound hx₁).read_eq (hlater.canonical hx₁.table hc₁)]
  unfold Table.bytesOf
  rw [he', ← hbytes, ← hpayload]
  rfl

/-- After any run from a store without atoms, with other users of its heap in between, copies and blocks
correspond one to one. An atom that is interned then reads as the bytes that were interned for as long as
its handle resolves, or until that comes to name another atom after `2 ^ 24` collections. -/
theorem copies_lodged (hcheck : config.check = .ok ()) (hr : Heap.Run config.limits grants heap others)
    (h : Run (Span.Lies static) ⟨.empty heap config, others, memory⟩ events x) :
    Lodged static x ∧
      ∀ span lasting blob i x₁ later x', span.Lies static → Interns x span lasting blob i x₁ →
        Run (Span.Lies static) x₁ later x' → x'.store.table.slots.size ≤ UInt32.size →
        destructions later i.atom.index.toNat < 2 ^ 24 → x'.store.table.isLive i.atom = true →
        x'.read static i.atom = .ok span.bytes := by
  have hempty := sound_empty hcheck hr memory
  have hx := h.sound hempty
  have hc := h.canonical hempty.table (Table.canonical_empty static config _)
  exact ⟨hx.lodged hc, fun _ _ _ _ _ _ _ hspan hinterns hlater hsize hless hlive =>
    hx.read_interned hc hspan hinterns hlater hsize hless hlive⟩

/-- An atom among the blocks of somebody else; that block and the atom are given back, and another atom,
made before, is read. -/
theorem copies_lodged_given_back :
    ∃ heap others x₁ x₂ x,
      Run (Span.Lies fun _ => [])
        ⟨.empty heap { allocFast := 32, chunkSize := 64, localFreeMax := 2, atomBuckets := 1, agcEnabled := false },
          others, fun _ => 0⟩ [.made ⟨0, 0⟩] x₁ ∧
      Run (Span.Lies fun _ => []) x₁ [.made ⟨1, 0⟩] x₂ ∧
      Run (Span.Lies fun _ => []) x₂ [.destroyed ⟨0, 0⟩, .dropped ⟨0, 0⟩] x ∧
      Lodged (fun _ => []) x₁ ∧ x₁.others.length = 1 ∧ (∃ r, x₁.store.table.Lodges 0 r) ∧
      x.others = [] ∧ x.read (fun _ => []) ⟨1, 0⟩ = .ok [98] := by
  have hcheck : Config.check
      { allocFast := 32, chunkSize := 64, localFreeMax := 2, atomBuckets := 1, agcEnabled := false } = .ok () := rfl
  have hlies := Span.lies_of_bytes fun _ => []
  have hr := (@Heap.Run.start ⟨32, 64, 2⟩ fun _ _ => true).served
    (Heap.hasPool_none _) (rfl : Heap.alloc _ none 20 = _) rfl
  have hempty := sound_empty hcheck hr fun _ => 0
  obtain ⟨memory₁, -, h₁⟩ := hempty.interns .start { bytes := [97] } (hlies _) BlobId.text rfl
  have hlodged := copies_lodged hcheck hr h₁
  obtain ⟨memory₂, hinterns, h₂⟩ := (h₁.sound hempty).interns .start { bytes := [98] } (hlies _) BlobId.text rfl
  have later {x₀ x : Tenancy} {events : List Event} (_ : Run (Span.Lies fun _ => []) x₀ events x) :
      Run (Span.Lies fun _ => []) x [] x := .start
  have hdropped := (later h₂).step (.called (.unregister ⟨0, 0⟩) rfl fun b => made_notMem_dropEvents _ b _ _)
  have hswept := hdropped.step (.moved (.sweep rfl rfl))
  have hfreed : Run _ _ [.destroyed ⟨0, 0⟩, .dropped ⟨0, 0⟩] _ := hswept.step (.requested #[]
    (.freed (Heap.hasPool_none _) (.head _) (rfl : roundUp 20 = _) rfl) (by rintro _ ⟨⟩; exact .head _))
  exact ⟨_, _, _, _, _, h₁, h₂, hfreed, hlodged.1, rfl, (hlodged.1.one_block 0 _ rfl nofun nofun).exists, rfl,
    hlodged.2 _ _ _ _ _ _ _ (hlies _) hinterns hfreed (by decide : 2 ≤ UInt32.size) (by decide) rfl⟩

end Tenancy

end AtomHeap
