import AtomHeap.Proofs.Memory.Requests
import AtomHeap.Proofs.Store.Intact
import AtomHeap.Proofs.Table.Blocks
import AtomHeap.Proofs.Table.Growth
import AtomHeap.Proofs.Text.Utf8
import Mathlib.Data.List.Dedup
/-!
# Names that are only interned

Callers intern names as text and give no reference back. `Table.Named` says what a table is then, in terms of the
names and of which interns made an atom: each name has one atom with a reference for each of its interns, and the
figures are sums over the different names. As each atom has references, a sweep leaves all of this as it is
(`Table.sweep_intact`).
-/

namespace AtomHeap

/-- Some names, each with what interning it gave, the latest first. -/
abbrev Names := List (String × Interned)

namespace Names

/-- The names whose interning made an atom. -/
def made (names : Names) : List String := (names.filter (·.2.isNew)).map (·.1)

/-- How often a name was interned. -/
def interns (names : Names) (name : String) : Nat := names.countP (·.1 == name)

theorem made_cons (name : String) (i : Interned) (names : Names) :
    made ((name, i) :: names) = if i.isNew then name :: made names else made names := by
  unfold made
  cases h : i.isNew <;> simp [h]

theorem interns_cons (name name' : String) (i : Interned) (names : Names) :
    interns ((name, i) :: names) name' = if name = name' then interns names name' + 1 else interns names name' := by
  unfold interns
  rw [List.countP_cons]
  split <;> simp_all

end Names

/-- The length of the block for a copy of some bytes; there is none for no bytes. -/
def blockLength (bytes : List UInt8) : Nat := (roundUp bytes.length).toOption.getD 0

namespace Table

open Names

variable {memory : StaticMemory} {t t' : Table} {buckets index : Nat} {names : Names} {name : String} {i : Interned}
  {e : Entry} {a : Atom} {payload : Payload} {swept swept' : Swept}

/-! ## A sweep without garbage -/

theorem Intact.entryAt? (h : Intact t t') (i : Nat) :
    (t'.entryAt? i).map Entry.unmarked = (t.entryAt? i).map Entry.unmarked := by
  have hslot : ∀ t : Table, (t.entryAt? i).map Entry.unmarked = ((t.slots.map Slot.unmarked)[i]?).bind (·.entry) := by
    intro t
    unfold Table.entryAt?
    rw [Array.getElem?_map]
    cases t.slots[i]? <;> rfl
  rw [hslot, hslot, h.slots]

theorem Intact.amended (h : Intact t t') : Amended t t' := by
  have hfixed : ∀ s : Slot, s.unmarked.fixed = s.fixed := by
    rintro ⟨g, _ | e⟩ <;> rfl
  have hslots := congrArg (fun slots : Array Slot => slots.toList.map Slot.fixed) h.slots
  simp only [Array.toList_map, List.map_map, Function.comp_def, hfixed] at hslots
  have hrest := h.rest
  exact ⟨hslots, congrArg (·.chains) hrest, congrArg (·.holes) hrest, congrArg (·.builtin) hrest,
    congrArg (·.count) hrest, congrArg (·.bytes) hrest, fun id type hget => by
      rwa [← congrArg (·.blobs) hrest] at hget⟩

/-- Every atom has references. -/
def Referenced (t : Table) : Prop := ∀ i e, t.entryAt? i = some e → e.refs ≠ 0

theorem Intact.referenced (h : Intact t t') (ht : t.Referenced) : t'.Referenced := by
  intro i e' he'
  have hentry := h.entryAt? i
  rw [he', Option.map_some, eq_comm, Option.map_eq_some_iff] at hentry
  obtain ⟨e, he, hmark⟩ := hentry
  have hrefs : e.refs = e'.refs := congrArg (·.refs) hmark
  exact hrefs ▸ ht i e he

theorem sweepSlot_intact (ht : t.Referenced) (h : t.sweepSlot swept index = .ok (swept', t')) :
    swept' = swept ∧ Intact t t' := by
  obtain ⟨s, hs, h⟩ := bind_eq_ok_iff.1 h
  cases hse : s.entry with
  | none =>
    simp only [hse] at h
    cases h
    exact ⟨rfl, .refl t⟩
  | some e =>
    have he := (entryAt?_of_slot hs).trans hse
    simp only [hse, ht index e he, false_and, if_false] at h
    cases h
    exact ⟨rfl, .setEntry he rfl⟩

/-- A walk over atoms that all have references destroys none and asks no hook. -/
theorem sweepSlots_intact {indices : List Nat} (ht : t.Referenced)
    (h : t.sweepSlots swept indices = .ok (swept', t')) : swept' = swept ∧ Intact t t' := by
  induction indices generalizing t swept with
  | nil =>
    cases h
    exact ⟨rfl, .refl _⟩
  | cons index rest ih =>
    obtain ⟨⟨swept₁, t₁⟩, hslot, hrest⟩ := bind_eq_ok_iff.1 h
    obtain ⟨hswept, hintact⟩ := sweepSlot_intact ht hslot
    obtain ⟨hswept', hintact'⟩ := ih (hintact.referenced ht) hrest
    exact ⟨hswept'.trans hswept, hintact.trans hintact'⟩

theorem sweep_intact (ht : t.Referenced) (h : t.sweep = .ok (swept, t')) : swept = {} ∧ Intact t t' := by
  obtain ⟨⟨swept₁, t₁⟩, hslots, h⟩ := bind_eq_ok_iff.1 h
  cases h
  obtain ⟨rfl, hintact⟩ := sweepSlots_intact ht hslots
  exact ⟨rfl, hintact.trans ⟨rfl, rfl⟩⟩

/-! ## What interning names comes to -/

/-- What a table is after some names were interned as text and no reference was given back. -/
structure Named (memory : StaticMemory) (buckets : Nat) (names : Names) (t : Table) : Prop where
  sound : t.Sound buckets 0
  canonical : t.Canonical memory
  snug : t.Snug buckets
  text : t.blobs.isRegistered BlobId.text = true ∧ ∃ type, t.blobs.get? BlobId.text = some type ∧
    type.flags.unique = true ∧ type.flags.nocopy = false ∧ type.acquire = none
  builtin : t.builtin = 0
  size : t.slots.size ≤ names.made.length
  atoms : ∀ p ∈ names, ∃ e, t.entry p.2.atom = .ok e ∧ e.blob = BlobId.text ∧
    e.payload.bytes = Text.utf8Bytes p.1 ∧ e.refs = min (names.interns p.1) maxRefs
  slots : ∀ i e, t.entryAt? i = some e → ∃ p ∈ names, p.2.atom.index.toNat = i
  /-- No name made two atoms. -/
  once : names.made.Nodup
  all : ∀ p ∈ names, p.1 ∈ names.made
  count : t.count = names.made.length
  bytes : t.bytes = (names.made.map fun name => (Text.utf8Bytes name).length).sum
  blocks : Heap.total t.regions = (names.made.map fun name => blockLength (Text.utf8Bytes name)).sum

theorem Named.referenced (h : t.Named memory buckets names) : t.Referenced := by
  intro i e he
  obtain ⟨p, hp, rfl⟩ := h.slots i e he
  obtain ⟨e', he', -, -, hrefs⟩ := h.atoms p hp
  have hi := (entry_eq_ok_iff.1 he').1
  rw [he, Option.some.injEq] at hi
  have hpos : 0 < names.interns p.1 := List.countP_pos_iff.2 ⟨p, hp, beq_self_eq_true _⟩
  have hmax : maxRefs = 4294967295 := rfl
  rw [hi, hrefs]
  omega

/-- Where no atom was made or destroyed, only references have to be looked at. -/
theorem Named.amended (h : t.Named memory buckets names) (ha : Amended t t') (hblobs : t'.blobs = t.blobs)
    {names' : Names} (hmade : names'.made = names.made) (hmem : ∀ p ∈ names, p ∈ names')
    (hall : ∀ p ∈ names', p.1 ∈ names.made)
    (hatoms : ∀ p ∈ names', ∃ e, t'.entry p.2.atom = .ok e ∧ e.blob = BlobId.text ∧
      e.payload.bytes = Text.utf8Bytes p.1 ∧ e.refs = min (names'.interns p.1) maxRefs) :
    t'.Named memory buckets names' := by
  constructor
  case sound => exact h.sound.amended ha
  case canonical => exact h.canonical.amended ha
  case snug =>
    unfold Snug
    rw [ha.chains, ha.count]
    exact h.snug
  case text => exact hblobs ▸ h.text
  case builtin => exact ha.builtin.trans h.builtin
  case size => exact ha.size ▸ hmade ▸ h.size
  case atoms => exact hatoms
  case slots =>
    intro i e' he'
    have hentry := ha.entryAt? i
    rw [he', Option.map_some, eq_comm, Option.map_eq_some_iff] at hentry
    obtain ⟨e, he, -⟩ := hentry
    obtain ⟨p, hp, hindex⟩ := h.slots i e he
    exact ⟨p, hmem p hp, hindex⟩
  case once => exact hmade ▸ h.once
  case all => exact fun p hp => hmade ▸ hall p hp
  case count => exact hmade ▸ ha.count.trans h.count
  case bytes => exact hmade ▸ ha.bytes.trans h.bytes
  case blocks =>
    have hregions : t'.regions = t.regions := congrArg (List.map Region.ofBlock) ha.samePayloads.blocks
    exact hmade ▸ hregions ▸ h.blocks

theorem Named.intact (h : t.Named memory buckets names) (hi : Intact t t') : t'.Named memory buckets names := by
  refine h.amended hi.amended (congrArg (·.blobs) hi.rest) rfl (fun _ hp => hp) h.all fun p hp => ?_
  obtain ⟨e, he, hblob, hbytes, hrefs⟩ := h.atoms p hp
  obtain ⟨e', he', hmark⟩ := hi.of_ok he
  have hpayload : e'.payload = e.payload := congrArg (·.payload) hmark
  exact ⟨e', he', (congrArg (·.blob) hmark).trans hblob, hpayload ▸ hbytes, (congrArg (·.refs) hmark).trans hrefs⟩

theorem Named.text_copied (h : t.Named memory buckets names) {type : BlobType}
    (htype : t.blobs.get? BlobId.text = some type) : type.flags.nocopy = false := by
  obtain ⟨-, type', htype', -, hcopy, -⟩ := h.text
  rw [htype, Option.some.injEq] at htype'
  exact htype' ▸ hcopy

/-- The entry of a name is told apart from others by the bytes of the name. -/
theorem Named.isFor (h : t.Named memory buckets names) {type : BlobType} (htype : t.blobs.get? BlobId.text = some type)
    (he : t.entryAt? index = some e) :
    isFor e (Hash.ofBytes (Text.utf8Bytes name)) { bytes := Text.utf8Bytes name } BlobId.text type.flags.nocopy ↔
      e.blob = BlobId.text ∧ e.payload.bytes = Text.utf8Bytes name := by
  rw [isFor_iff (h.sound.accounted.hash index e he) (h.canonical.lies index e he) (Span.lies_of_bytes memory _)]
  unfold Payload.IsFor
  rw [h.text_copied htype]
  rfl

/-- Names have their atoms to themselves. -/
theorem Named.index_eq_iff (h : t.Named memory buckets names) {p q : String × Interned} (hp : p ∈ names)
    (hq : q ∈ names) : p.2.atom.index.toNat = q.2.atom.index.toNat ↔ p.1 = q.1 := by
  obtain ⟨e, he, hblob, hbytes, -⟩ := h.atoms p hp
  obtain ⟨e', he', hblob', hbytes', -⟩ := h.atoms q hq
  have hi := (entry_eq_ok_iff.1 he).1
  have hi' := (entry_eq_ok_iff.1 he').1
  constructor
  · intro hindex
    rw [hindex, hi', Option.some.injEq] at hi
    exact Text.utf8Bytes_injective (hbytes.symm.trans (hi ▸ hbytes'))
  · intro hname
    obtain ⟨-, type, htype, hunique, hcopy, -⟩ := h.text
    refine h.canonical.unique _ _ e e' type hi hi' (hblob.trans hblob'.symm) (hblob ▸ htype) hunique ?_
    unfold Payload.Same
    rw [hcopy, if_neg (by decide), hbytes, hbytes', hname]

/-- Each intern of a name gives the same atom. -/
theorem Named.agree (h : t.Named memory buckets names) {p q : String × Interned} (hp : p ∈ names) (hq : q ∈ names)
    (hname : p.1 = q.1) : p.2.atom = q.2.atom := by
  obtain ⟨e, he, -⟩ := h.atoms p hp
  obtain ⟨e', he', -⟩ := h.atoms q hq
  exact eq_of_index_eq he he' ((h.index_eq_iff hp hq).2 hname)

/-- The search for a name comes upon the atom of that name. -/
theorem Named.owner (h : t.Named memory buckets names) {type : BlobType}
    (htype : t.blobs.get? BlobId.text = some type)
    (hfind : t.find (Hash.ofBytes (Text.utf8Bytes name)) { bytes := Text.utf8Bytes name } BlobId.text
      type.flags.nocopy = .ok (some index)) : ∃ p ∈ names, p.1 = name ∧ p.2.atom.index.toNat = index := by
  obtain ⟨e, he, hfor⟩ := h.sound.linked.found hfind
  obtain ⟨-, hbytes⟩ := (h.isFor htype he).1 hfor
  obtain ⟨p, hp, hindex⟩ := h.slots index e he
  obtain ⟨e', he', -, hbytes', -⟩ := h.atoms p hp
  have hsame := (entry_eq_ok_iff.1 he').1
  rw [hindex, he, Option.some.injEq] at hsame
  subst hsame
  exact ⟨p, hp, Text.utf8Bytes_injective (hbytes'.symm.trans hbytes), hindex⟩

/-- Interning a name again gives its atom one more reference. -/
theorem Named.reused (h : t.Named memory buckets names) {p : String × Interned} {due : Bool} (hp : p ∈ names)
    (hreuse : t.reuse p.2.atom.index.toNat = .ok (a, t')) :
    t'.Named memory buckets ((p.1, ⟨a, false, due⟩) :: names) := by
  obtain ⟨e, he', hblob, hbytes, hrefs⟩ := h.atoms p hp
  have he := (entry_eq_ok_iff.1 he').1
  -- The handle is that of the slot, so it is the one that the name had before.
  obtain ⟨s, hslot, hreuse⟩ := bind_eq_ok_iff.1 hreuse
  have hentry := (entryAt?_of_slot hslot).symm.trans he
  have hlt : p.2.atom.index.toNat < UInt32.size := p.2.atom.index.toNat_lt
  have hatom : s.atom p.2.atom.index.toNat = p.2.atom :=
    eq_of_index_eq (entry_atom hlt (slot_eq_ok_iff.1 hslot) hentry) he' (toNat_index_atom hlt s)
  simp only [hentry, h.builtin, Nat.not_lt_zero, if_false] at hreuse
  cases hreuse
  rw [hatom]
  have ha : Amended t (t.setEntry p.2.atom.index.toNat (some { e with
      refs := min (e.refs + 1) maxRefs, marked := t.marking || e.marked })) := .setEntry he rfl
  have hrest : ∀ q ∈ names, ∃ e₁, (t.setEntry p.2.atom.index.toNat (some { e with
      refs := min (e.refs + 1) maxRefs, marked := t.marking || e.marked })).entry q.2.atom = .ok e₁ ∧
      e₁.blob = BlobId.text ∧ e₁.payload.bytes = Text.utf8Bytes q.1 ∧
      e₁.refs = min (interns ((p.1, ⟨p.2.atom, false, due⟩) :: names) q.1) maxRefs := by
    intro q hq
    obtain ⟨e₁, he₁, hblob₁, hbytes₁, hrefs₁⟩ := h.atoms q hq
    have hiff := h.index_eq_iff hp hq
    rw [entry_setEntry he, he₁, interns_cons]
    by_cases hq' : q.2.atom.index.toNat = p.2.atom.index.toNat
    · have hname := hiff.1 hq'.symm
      simp only [Except.map, if_pos hq', if_pos hname]
      refine ⟨_, rfl, hblob, hname ▸ hbytes, ?_⟩
      change min (e.refs + 1) maxRefs = _
      rw [← hname, hrefs]
      omega
    · simp only [Except.map, if_neg hq', if_neg fun hname => hq' (hiff.2 hname).symm]
      exact ⟨_, rfl, hblob₁, hbytes₁, hrefs₁⟩
  refine h.amended ha rfl (by rw [made_cons]; rfl) (fun _ hq => List.mem_cons_of_mem _ hq) ?_ ?_
  · rintro q (_ | ⟨_, hq⟩)
    · exact h.all p hp
    · exact h.all q hq
  · rintro q (_ | ⟨_, hq⟩)
    · exact hrest p hp
    · exact hrest q hq

/-- A type that copies fills a block with the bytes of a span. -/
theorem Wanted.copy {span : Span} {blob : BlobId} {type : BlobType} (h : Wanted t span blob payload type)
    (hcopy : type.flags.nocopy = false) : payload.copied = span.bytes.length ∧
      Heap.total (payload.block?.toList.map Region.ofBlock) = blockLength span.bytes := by
  have hbytes := h.bytes
  cases payload with
  | empty =>
    rw [← hbytes]
    exact ⟨rfl, rfl⟩
  | pooled b bytes =>
    rw [← hbytes]
    exact ⟨rfl, Nat.add_zero _⟩
  | kept place bytes => exact absurd rfl (h.copied (by rw [hcopy]; decide) place bytes)

/-- The names that made atoms are the different names. -/
theorem Named.made_perm (h : t.Named memory buckets names) : names.made.Perm (names.map (·.1)).dedup := by
  refine (List.perm_ext_iff_of_nodup h.once (List.nodup_dedup _)).2 fun name => ?_
  rw [List.mem_dedup, List.mem_map]
  constructor
  · intro hname
    obtain ⟨p, hp, rfl⟩ := List.mem_map.1 hname
    exact ⟨p, (List.mem_filter.1 hp).1, rfl⟩
  · rintro ⟨p, hp, rfl⟩
    exact h.all p hp

/-- A name whose atom is to be made was not interned before. -/
theorem Named.fresh (h : t.Named memory buckets names) {type : BlobType}
    (hw : Wanted t { bytes := Text.utf8Bytes name } BlobId.text payload type) : name ∉ names.map (·.1) := by
  intro hname
  obtain ⟨p, hp, rfl⟩ := List.mem_map.1 hname
  obtain ⟨e, he, hblob, hbytes, -⟩ := h.atoms p hp
  have hi := (entry_eq_ok_iff.1 he).1
  obtain ⟨-, type', htype', hunique, -⟩ := h.text
  rw [hw.registered, Option.some.injEq] at htype'
  exact hw.fresh (htype' ▸ hunique) _ e hi ((h.isFor hw.registered hi).2 ⟨hblob, hbytes⟩)

/-- A new name gets an atom with one reference. -/
theorem Named.new (h : t.Named memory buckets names) {type : BlobType} {due : Bool}
    (hfew : (name :: names.map (·.1)).dedup.length ≤ UInt32.size)
    (hw : Wanted t { bytes := Text.utf8Bytes name } BlobId.text payload type)
    (hinsert : { t with bytes := t.bytes + payload.copied }.insert payload BlobId.text
      (Hash.ofBytes (Text.utf8Bytes name)) = .ok (a, t')) :
    t'.Named memory buckets ((name, ⟨a, true, due⟩) :: names) := by
  obtain ⟨index, g, rfl, hinserted, hsound⟩ := h.sound.made hw hinsert
  have hfresh := h.fresh hw
  have hnew : index ≤ names.made.length := Nat.le_trans hinserted.le h.size
  have hlt : index < UInt32.size := by
    rw [List.dedup_cons_of_notMem hfresh, List.length_cons, ← h.made_perm.length_eq] at hfew
    omega
  obtain ⟨hcopied, hlength⟩ := hw.copy (h.text_copied hw.registered)
  have hrest := hinserted.rest
  have hbuiltin : t'.builtin = 0 := (congrArg (·.builtin) hrest).trans h.builtin
  have hblobs : t'.blobs = t.blobs := congrArg (·.blobs) hrest
  constructor
  case sound => exact hsound
  case canonical => exact h.canonical.made h.sound (Span.lies_of_bytes memory _) hw hinserted
  case snug => exact h.snug.made h.sound hw hinsert
  case text => exact hblobs ▸ h.text
  case builtin => exact hbuiltin
  case size =>
    rw [made_cons, if_pos rfl, List.length_cons, hinserted.size]
    exact Nat.max_le.2 ⟨Nat.le_succ_of_le h.size, Nat.succ_le_succ hnew⟩
  case atoms =>
    rintro p (_ | ⟨_, hp⟩)
    · obtain ⟨e, he, hbare⟩ := hinserted.entry hlt
      have hpayload : e.payload = payload := congrArg (·.payload) hbare
      have hrefs : e.refs = 1 := congrArg (·.refs) hbare
      refine ⟨e, he, congrArg (·.blob) hbare, hpayload ▸ hw.bytes, ?_⟩
      have hnone : names.interns name = 0 := List.countP_eq_zero.2 fun p hp hname =>
        hfresh (List.mem_map.2 ⟨p, hp, beq_iff_eq.1 hname⟩)
      rw [hrefs, interns_cons, if_pos rfl, hnone]
      rfl
    · obtain ⟨e, he, hblob, hbytes, hrefs⟩ := h.atoms p hp
      obtain ⟨e', he', hbare⟩ := hinserted.survives he
      have hpayload : e'.payload = e.payload := congrArg (·.payload) hbare
      have hrefs' : e'.refs = e.refs := congrArg (·.refs) hbare
      refine ⟨e', he', (congrArg (·.blob) hbare).trans hblob, hpayload ▸ hbytes, ?_⟩
      have hne : name ≠ p.1 := fun hname => hfresh (List.mem_map.2 ⟨p, hp, hname.symm⟩)
      rw [hrefs', hrefs, interns_cons, if_neg hne]
  case slots =>
    intro i e he
    rcases hinserted.of_some he with ⟨rfl, -⟩ | ⟨-, e₀, he₀, -⟩
    · exact ⟨_, List.mem_cons_self, UInt32.toNat_ofNat_of_lt hlt⟩
    · obtain ⟨p, hp, hindex⟩ := h.slots i e₀ he₀
      exact ⟨p, List.mem_cons_of_mem _ hp, hindex⟩
  case once =>
    rw [made_cons, if_pos rfl, List.nodup_cons]
    exact ⟨mt h.made_perm.mem_iff.1 (mt List.mem_dedup.1 hfresh), h.once⟩
  case all =>
    rw [made_cons, if_pos rfl]
    rintro p (_ | ⟨_, hp⟩)
    · exact List.mem_cons_self
    · exact List.mem_cons_of_mem _ (h.all p hp)
  case count =>
    rw [made_cons, if_pos rfl, List.length_cons, ← h.count]
    exact congrArg (·.count) hrest
  case bytes =>
    rw [made_cons, if_pos rfl, List.map_cons, List.sum_cons, ← h.bytes, ← hcopied, Nat.add_comm]
    exact congrArg (·.bytes) hrest
  case blocks =>
    have hperm := hinserted.blocks.map Region.ofBlock
    rw [List.map_append] at hperm
    rw [made_cons, if_pos rfl, List.map_cons, List.sum_cons, ← h.blocks, ← hlength, ← Heap.total_append]
    exact Heap.total_perm hperm

theorem named_empty (memory : StaticMemory) {config : Config} (hc : config.check = .ok ()) (pool : PoolId) :
    (empty config pool).Named memory config.atomBuckets.toNat [] where
  sound := sound_empty (atomBuckets_power hc) pool
  canonical := canonical_empty memory config pool
  snug := .inl Array.size_replicate
  text := ⟨rfl, _, rfl, rfl, rfl, rfl⟩
  builtin := rfl
  size := Nat.le_refl _
  atoms := nofun
  slots i e he := by simp [entryAt?, empty] at he
  once := .nil
  all := nofun
  count := rfl
  bytes := rfl
  blocks := rfl

end Table

end AtomHeap
