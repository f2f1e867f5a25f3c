import AtomHeap.Proofs.Ends
import AtomHeap.Proofs.Table.Sound
import Mathlib.Logic.Relation
/-!
# What can happen to a table

Whatever is done to a table comes down to a sequence of five kinds of change (`Table.Change`): an
atom is made or destroyed, the atoms of a withdrawn type are relabelled, all atoms become builtin,
or nothing changes but references, marks and settings (`Table.Amended`). What all five preserve holds
of every table that comes from an empty one. References and marks change in one entry at a time
(`Table.Touched`), whether a caller has an atom or a cycle reaches it.
-/

namespace AtomHeap

/-- What nothing but making, destroying and relabelling an atom changes in its entry, its place on a
chain included. -/
def Entry.fixed (e : Entry) : Payload × BlobId × UInt64 × Option Nat := (e.payload, e.blob, e.hash, e.next)

@[simp] theorem Entry.withdraw_payload (e : Entry) (id : BlobId) : (e.withdraw id).payload = e.payload := by
  unfold withdraw
  split <;> rfl

@[simp] theorem Entry.withdraw_hash (e : Entry) (id : BlobId) : (e.withdraw id).hash = e.hash := by
  unfold withdraw
  split <;> rfl

@[simp] theorem Entry.withdraw_next (e : Entry) (id : BlobId) : (e.withdraw id).next = e.next := by
  unfold withdraw
  split <;> rfl

/-- What is fixed in a slot. -/
def Slot.fixed (s : Slot) : BitVec 24 × Option (Payload × BlobId × UInt64 × Option Nat) :=
  (s.generation, s.entry.map Entry.fixed)

/-- All types of the one registry are in the other, under the same numbers. -/
def BlobRegistry.Extends (r r' : BlobRegistry) : Prop := ∀ id type, r.get? id = some type → r'.get? id = some type

namespace Table

variable {spans : Span → Prop} {t t' t'' : Table} {buckets spare index : Nat} {e e' : Entry}
  {id blob : BlobId} {span : Span} {payload : Payload}
  {a : Atom}

/-- Two tables differ at most in references, marks and settings, and in types that are new. -/
structure Amended (t t' : Table) : Prop where
  slots : t'.slots.toList.map Slot.fixed = t.slots.toList.map Slot.fixed
  chains : t'.chains = t.chains
  holes : t'.holes = t.holes
  builtin : t'.builtin = t.builtin
  count : t'.count = t.count
  bytes : t'.bytes = t.bytes
  blobs : t.blobs.Extends t'.blobs

/-- An atom of a type is to be made for a span, from a payload. -/
structure Wanted (t : Table) (span : Span) (blob : BlobId) (payload : Payload) (type : BlobType) : Prop where
  registered : t.blobs.get? blob = some type
  /-- A unique type has no atom for the span yet. -/
  fresh : type.flags.unique → ∀ i e, t.entryAt? i = some e →
    ¬ isFor e (Hash.ofBytes span.bytes) span blob type.flags.nocopy
  bytes : payload.bytes = span.bytes
  /-- A type that does not copy keeps the bytes where they are, and no other does. -/
  kept : type.flags.nocopy → ∃ place, span.place = some place ∧ payload = .kept place span.bytes
  copied : ¬ type.flags.nocopy → ∀ place bytes, payload ≠ .kept place bytes

/-- One change to a table, where `spans` says which spans callers hand over. -/
inductive Change (spans : Span → Prop) (t : Table) : Table → Prop
  | amended {t' : Table} : Amended t t' → Change spans t t'
  | made {t' : Table} {span : Span} {blob : BlobId} {payload : Payload} {type : BlobType} {a : Atom} :
      spans span → Wanted t span blob payload type →
      { t with bytes := t.bytes + payload.copied }.insert payload blob (Hash.ofBytes span.bytes) = .ok (a, t') →
      Change spans t t'
  | destroyed {t' : Table} {i : Nat} {e : Entry} {block : Option (Address × Nat)} :
      t.entryAt? i = some e → t.builtin ≤ i → t.destroy i = .ok (block, t') → Change spans t t'
  | relabelled {t' : Table} {id : BlobId} : t.unregisterBlob id = .ok t' → Change spans t t'
  | locked : Change spans t t.lockAtoms

/-- A sequence of changes. -/
abbrev Changes (spans : Span → Prop) : Table → Table → Prop := Relation.ReflTransGen (Change spans)

/-! ## Handles -/

theorem entry_eq_ok_iff : t.entry a = .ok e ↔
    t.entryAt? a.index.toNat = some e ∧ t.slots[a.index.toNat]?.map (·.generation) = some a.generation := by
  unfold entry entryAt?
  cases t.slots[a.index.toNat]? with
  | none => simp
  | some s =>
    obtain ⟨g, e'⟩ := s
    by_cases hg : g = a.generation <;> cases e' <;> simp [hg]

theorem isLive_iff : t.isLive a = true ↔ ∃ e, t.entry a = .ok e := by
  unfold isLive
  cases t.entry a <;> simp [Except.isOk, Except.toBool]

theorem toNat_index_atom (hi : index < UInt32.size) (s : Slot) : (s.atom index).index.toNat = index :=
  UInt32.toNat_ofNat_of_lt hi

/-- The handle of a slot in use is that of a live atom. -/
theorem entry_atom (hi : index < UInt32.size) (hs : t.slots[index]? = some s) (he : s.entry = some e) :
    t.entry (s.atom index) = .ok e := by
  rw [entry_eq_ok_iff, toNat_index_atom hi]
  refine ⟨entryAt?_eq_some_iff.2 ⟨s, hs, he⟩, ?_⟩
  rw [hs]
  rfl

/-- A live atom is that of its slot. -/
theorem slot_of_entry (h : t.entry a = .ok e) :
    ∃ s, t.slots[a.index.toNat]? = some s ∧ s.entry = some e ∧ s.atom a.index.toNat = a := by
  obtain ⟨he, hgeneration⟩ := entry_eq_ok_iff.1 h
  obtain ⟨s, hs, hse⟩ := entryAt?_eq_some_iff.1 he
  rw [hs, Option.map_some, Option.some.injEq] at hgeneration
  refine ⟨s, hs, hse, ?_⟩
  unfold Slot.atom
  rw [hgeneration, UInt32.ofNat_toNat]

theorem eq_of_index_eq {e' : Entry} (ha : t.entry a = .ok e) (ha' : t.entry a' = .ok e')
    (h : a.index.toNat = a'.index.toNat) : a = a' := by
  obtain ⟨-, hg⟩ := entry_eq_ok_iff.1 ha
  obtain ⟨-, hg'⟩ := entry_eq_ok_iff.1 ha'
  rw [h, hg', Option.some.injEq] at hg
  obtain ⟨index, generation⟩ := a
  obtain ⟨index', generation'⟩ := a'
  rw [Atom.mk.injEq]
  exact ⟨UInt32.toNat_inj.1 h, hg.symm⟩

theorem entry_setEntry (he : t.entryAt? index = some e) (e' : Entry) (a : Atom) :
    (t.setEntry index (some e')).entry a = (t.entry a).map fun e => if a.index.toNat = index then e' else e := by
  obtain ⟨s, hs, hse⟩ := entryAt?_eq_some_iff.1 he
  unfold entry
  rw [slots_setEntry]
  by_cases hi : index = a.index.toNat
  · rw [if_pos hi, ← hi, hs]
    simp only [Option.map_some, hse, if_pos]
    split <;> rfl
  · rw [if_neg hi]
    simp only [if_neg (Ne.symm hi)]
    split
    · rfl
    · split
      · split <;> rfl
      · rfl

theorem exists_of_map_eq {α : Type} {f : Entry → α} {x y : Except AtomError Entry} (h : y.map f = x.map f)
    (hx : x = .ok e) : ∃ e', y = .ok e' ∧ f e' = f e := by
  subst hx
  cases y with
  | error error => cases h
  | ok e' => exact ⟨e', rfl, Except.ok.inj h⟩

/-- What an atom is, in some respect, is what its slot says of it. -/
theorem entry_congr {α : Type} (f : Entry → α)
    (h : t'.slots[a.index.toNat]?.map (fun s => (s.generation, s.entry.map f)) =
      t.slots[a.index.toNat]?.map fun s => (s.generation, s.entry.map f)) :
    (t'.entry a).map f = (t.entry a).map f := by
  have hentry : ∀ t : Table, (t.entry a).map f =
      match t.slots[a.index.toNat]?.map (fun s => (s.generation, s.entry.map f)) with
      | none => .error .unknownAtom
      | some (g, e) =>
        if g = a.generation then
          match e with
          | some e => .ok e
          | none => .error .stale
        else .error .stale := by
    intro t
    unfold entry
    cases t.slots[a.index.toNat]? with
    | none => rfl
    | some s =>
      obtain ⟨g, e⟩ := s
      by_cases hg : g = a.generation <;> cases e <;> simp [hg, Except.map]
  rw [hentry, hentry, h]

/-! ## One atom touched -/

/-- At most one entry is another, in its references or its mark. Only if the operation `counts` can the references
of an atom above the boundary change, only if it `marks` can an atom get a mark, and none loses one. -/
inductive Touched (counts marks : Prop) (t : Table) : Table → Prop
  | not : Touched counts marks t t
  | set {index : Nat} {e : Entry} {refs : Nat} {marked : Bool} : t.entryAt? index = some e →
      (refs = e.refs ∨ counts ∧ t.builtin ≤ index) → (e.marked = true → marked = true) →
      (marked = true → e.marked = true ∨ marks) →
      Touched counts marks t (t.setEntry index (some { e with refs, marked }))

theorem reuse_touched (h : t.reuse index = .ok (a, t')) : Touched True (t.marking = true) t t' := by
  obtain ⟨s, hs, h⟩ := bind_eq_ok_iff.1 h
  cases hse : s.entry with
  | none =>
    simp only [hse] at h
    cases h
    exact .not
  | some e =>
    simp only [hse] at h
    cases h
    refine .set ((entryAt?_of_slot hs).trans hse) ?_ (fun hm => by simp [hm]) fun hm => ?_
    · split
      · exact .inl rfl
      · rename_i hle
        exact .inr ⟨trivial, Nat.le_of_not_lt hle⟩
    · exact (Bool.or_eq_true_iff.1 hm).symm

/-- A lookup finds nothing and changes nothing, or it notices the slot that it finds. -/
theorem lookup_cases {found : Option Atom} (h : t.lookup span blob = .ok (found, t')) :
    (found = none ∧ t' = t) ∨
      ∃ nocopy index s, t.find (Hash.ofBytes span.bytes) span blob nocopy = .ok (some index) ∧
        t.slots[index]? = some s ∧ found = some (s.atom index) ∧ t' = t.notice index s := by
  unfold lookup at h
  split at h
  · cases h
    exact .inl ⟨rfl, rfl⟩
  · rename_i type htype
    obtain ⟨_ | index, hfind, h⟩ := bind_eq_ok_iff.1 h
    · cases h
      exact .inl ⟨rfl, rfl⟩
    · obtain ⟨s, hs, h⟩ := bind_eq_ok_iff.1 h
      cases h
      exact .inr ⟨_, index, s, hfind, slot_eq_ok_iff.1 hs, rfl, rfl⟩

/-- A lookup that finds an atom notices its slot, which is in use. -/
theorem Sound.lookup_found (h : t.Sound buckets spare) (hl : t.lookup span blob = .ok (some a, t')) :
    ∃ index s e, t.slots[index]? = some s ∧ s.entry = some e ∧ a = s.atom index ∧ t' = t.notice index s := by
  rcases lookup_cases hl with ⟨⟨⟩, -⟩ | ⟨nocopy, index, s, hfind, hs, heq, rfl⟩
  obtain ⟨e, he, -⟩ := h.linked.found hfind
  refine ⟨index, s, e, hs, ?_, Option.some.inj heq, rfl⟩
  rw [← entryAt?_of_slot (slot_eq_ok_iff.2 hs), he]

theorem notice_touched {s : Slot} (hs : t.slots[index]? = some s) :
    Touched False (t.marking = true) t (t.notice index s) := by
  unfold notice
  split
  · exact .not
  · rename_i e he
    split
    · rename_i hm
      exact .set (entryAt?_eq_some_iff.2 ⟨s, hs, he⟩) (.inl rfl) (fun _ => rfl) fun _ => .inr hm
    · exact .not

theorem lookup_touched {found : Option Atom} (h : t.lookup span blob = .ok (found, t')) :
    Touched False (t.marking = true) t t' := by
  rcases lookup_cases h with ⟨-, rfl⟩ | ⟨nocopy, index, s, -, hs, -, rfl⟩
  · exact .not
  · exact notice_touched hs

theorem register_touched (t : Table) (a : Atom) : Touched True False t (t.register a).2 := by
  unfold register
  split
  · exact .not
  · rename_i e he
    split
    · exact .not
    · rename_i hle
      exact .set (entry_eq_ok_iff.1 he).1 (.inr ⟨trivial, Nat.le_of_not_lt hle⟩) id .inl

theorem unregister_touched (t : Table) (a : Atom) : Touched True (t.marking = true) t (t.unregister a).2 := by
  unfold unregister
  split
  · exact .not
  · rename_i e he
    split
    · exact .not
    · rename_i hle
      split
      · exact .not
      · refine .set (entry_eq_ok_iff.1 he).1 (.inr ⟨trivial, Nat.le_of_not_lt hle⟩) (fun hm => by simp [hm]) fun hm => ?_
        exact (Bool.or_eq_true_iff.1 hm).imp_right fun hm => (Bool.and_eq_true_iff.1 hm).1

theorem mark_touched (t : Table) (a : Atom) : Touched False True t (t.mark a) := by
  unfold mark
  split
  · exact .not
  · split
    · rename_i e he
      exact .set (entry_eq_ok_iff.1 he).1 (.inl rfl) (fun _ => rfl) fun _ => .inr trivial
    · exact .not

/-! ## Amendments -/

namespace Amended

theorem refl (t : Table) : Amended t t := ⟨rfl, rfl, rfl, rfl, rfl, rfl, fun _ _ h => h⟩

theorem trans (h : Amended t t') (h' : Amended t' t'') : Amended t t'' where
  slots := h'.slots.trans h.slots
  chains := h'.chains.trans h.chains
  holes := h'.holes.trans h.holes
  builtin := h'.builtin.trans h.builtin
  count := h'.count.trans h.count
  bytes := h'.bytes.trans h.bytes
  blobs id type hid := h'.blobs id type (h.blobs id type hid)

theorem changes (h : Amended t t') : Changes spans t t' := .single (.amended h)

theorem setEntry (he : t.entryAt? index = some e) (hfixed : e'.fixed = e.fixed) :
    Amended t (t.setEntry index (some e')) := by
  refine ⟨List.ext_getElem? fun i => ?_, rfl, rfl, rfl, rfl, rfl, fun _ _ h => h⟩
  obtain ⟨s, hs, hse⟩ := entryAt?_eq_some_iff.1 he
  rw [List.getElem?_map, List.getElem?_map, Array.getElem?_toList, Array.getElem?_toList, slots_setEntry]
  split
  · rename_i hi
    rw [← hi, hs]
    simp [Slot.fixed, hse, hfixed]
  · rfl

theorem slot (h : Amended t t') (i : Nat) : t'.slots[i]?.map Slot.fixed = t.slots[i]?.map Slot.fixed := by
  simpa using congrArg (·[i]?) h.slots

theorem size (h : Amended t t') : t'.slots.size = t.slots.size := by
  simpa using congrArg List.length h.slots

theorem entryAt? (h : Amended t t') (i : Nat) :
    (t'.entryAt? i).map Entry.fixed = (t.entryAt? i).map Entry.fixed := by
  have hbind : ∀ t : Table, (t.entryAt? i).map Entry.fixed = (t.slots[i]?.map Slot.fixed).bind (·.2) := by
    intro t
    unfold Table.entryAt?
    cases t.slots[i]? <;> rfl
  rw [hbind, hbind, h.slot]

theorem sameData (h : Amended t t') : SameData t t' := by
  have := congrArg (List.map fun s => s.2.map fun e => (e.1, e.2.2.1)) h.slots
  rw [List.map_map, List.map_map] at this
  have hdata : (fun s => s.2.map fun e => (e.1, e.2.2.1)) ∘ Slot.fixed = Slot.data := by
    funext s
    obtain ⟨g, e⟩ := s
    cases e <;> rfl
  rwa [hdata] at this

end Amended

theorem Touched.amended {counts marks : Prop} (h : Touched counts marks t t') : Amended t t' := by
  cases h with
  | not => exact .refl t
  | set he => exact .setEntry he rfl

theorem reuse_amended (h : t.reuse index = .ok (a, t')) : Amended t t' := (reuse_touched h).amended

theorem lookup_amended {found : Option Atom} (h : t.lookup span blob = .ok (found, t')) : Amended t t' :=
  (lookup_touched h).amended

theorem register_amended (t : Table) (a : Atom) : Amended t (t.register a).2 := (register_touched t a).amended

theorem unregister_amended (t : Table) (a : Atom) : Amended t (t.unregister a).2 := (unregister_touched t a).amended

theorem requestCollection_amended (t : Table) : Amended t t.requestCollection.2 := by
  unfold requestCollection
  split
  · exact ⟨rfl, rfl, rfl, rfl, rfl, rfl, fun _ _ h => h⟩
  · exact .refl t

theorem applyMarks_amended (t : Table) (atoms : List Atom) : Amended t (t.applyMarks atoms) := by
  induction atoms generalizing t with
  | nil => exact .refl t
  | cons a atoms ih => exact (mark_touched t a).amended.trans (ih _)

theorem abortMarking_amended (t : Table) : Amended t t.abortMarking := by
  refine ⟨?_, rfl, rfl, rfl, rfl, rfl, fun _ _ h => h⟩
  simp only [abortMarking, Array.toList_map, List.map_map]
  apply List.map_congr_left
  intro s _
  obtain ⟨g, e⟩ := s
  cases e <;> rfl

theorem registerBlob_eq {type : BlobType} (h : t.registerBlob type = .ok (id, t')) :
    ∃ blobs, t' = { t with blobs } := by
  unfold registerBlob BlobRegistry.register at h
  split at h
  · cases h
  · simp only [bind, Except.bind] at h
    cases h
    exact ⟨_, rfl⟩

theorem registerBlob_amended {type : BlobType} (h : t.registerBlob type = .ok (id, t')) : Amended t t' := by
  unfold registerBlob BlobRegistry.register at h
  split at h
  · cases h
  · simp only [bind, Except.bind] at h
    cases h
    refine ⟨rfl, rfl, rfl, rfl, rfl, rfl, fun i type hi => ?_⟩
    unfold BlobRegistry.get? at hi ⊢
    obtain ⟨r, hr, hrt⟩ := Option.map_eq_some_iff.1 hi
    have hlt := (Array.getElem?_eq_some_iff.1 hr).1
    rw [Array.getElem?_push_lt hlt]
    rw [Array.getElem?_eq_getElem hlt] at hi
    exact hi

/-- A type can be put into use if no type in use has its name. -/
theorem registerBlob_of_none {type : BlobType} (h : t.blobs.find? type.name = none) :
    t.registerBlob type = .ok (.ofNat t.blobs.types.size, { t with blobs := ⟨t.blobs.types.push { type }⟩ }) := by
  unfold registerBlob BlobRegistry.register
  rw [h]
  rfl

/-! ## Changes keep tables sound -/

/-- A table stays sound when links, data and figures stay. -/
theorem Sound.congr (h : t.Sound buckets spare) (hdata : SameData t t')
    (hnext : ∀ i, (t'.entryAt? i).map (·.next) = (t.entryAt? i).map (·.next)) (hchains : t'.chains = t.chains)
    (hholes : t'.holes = t.holes) (hbuiltin : t'.builtin = t.builtin) (hcount : t'.count = t.count)
    (hbytes : t'.bytes = t.bytes) : t'.Sound buckets spare := by
  refine ⟨h.linked.congr hchains (fun i _ => hnext i) ?_,
    h.accounted.congr hdata hholes hbuiltin hcount hbytes, ?_, ?_, ?_⟩
  · intro i _
    have := congrArg (Option.map (·.2)) (hdata.entryAt? i)
    rwa [Option.map_map, Option.map_map] at this
  · rw [hchains]
    exact h.chains
  · rw [hchains, hdata.size]
    exact h.room
  · rw [hchains, hcount]
    exact h.load

theorem Sound.amended (h : t.Sound buckets spare) (ha : Amended t t') : t'.Sound buckets spare := by
  refine h.congr ha.sameData (fun i => ?_) ha.chains ha.holes ha.builtin ha.count ha.bytes
  have := congrArg (Option.map (·.2.2.2)) (ha.entryAt? i)
  rwa [Option.map_map, Option.map_map] at this

theorem unregisterBlob_eq (h : t.unregisterBlob id = .ok t') :
    ∃ blobs, t.blobs.unregister id = .ok blobs ∧
      t' = { t with blobs, slots := t.slots.map fun s => { s with entry := s.entry.map (·.withdraw id) } } := by
  unfold unregisterBlob at h
  cases hu : t.blobs.unregister id with
  | error e =>
    rw [hu] at h
    cases h
  | ok blobs =>
    rw [hu] at h
    cases h
    exact ⟨blobs, rfl, rfl⟩

theorem entryAt?_unregisterBlob (h : t.unregisterBlob id = .ok t') (i : Nat) :
    t'.entryAt? i = (t.entryAt? i).map (·.withdraw id) := by
  obtain ⟨blobs, -, rfl⟩ := unregisterBlob_eq h
  unfold entryAt?
  rw [Array.getElem?_map]
  cases t.slots[i]? <;> rfl

theorem entry_unregisterBlob (h : t.unregisterBlob id = .ok t') (a : Atom) :
    t'.entry a = (t.entry a).map (·.withdraw id) := by
  obtain ⟨blobs, -, rfl⟩ := unregisterBlob_eq h
  unfold entry
  rw [Array.getElem?_map]
  cases t.slots[a.index.toNat]? with
  | none => rfl
  | some s =>
    obtain ⟨g, e⟩ := s
    by_cases hg : g = a.generation <;> cases e <;> simp [hg, Except.map]

theorem Sound.unregisterBlob (h : t.Sound buckets spare) (hu : t.unregisterBlob id = .ok t') :
    t'.Sound buckets spare := by
  have hentry := entryAt?_unregisterBlob hu
  obtain ⟨blobs, -, rfl⟩ := unregisterBlob_eq hu
  refine h.congr ?_ ?_ rfl rfl rfl rfl rfl
  · unfold SameData
    rw [Array.toList_map, List.map_map]
    apply List.map_congr_left
    intro s _
    obtain ⟨g, e⟩ := s
    cases e <;> simp [Slot.data]
  · intro i
    rw [hentry, Option.map_map]
    congr 1
    funext e
    exact e.withdraw_next id

theorem Sound.lockAtoms (h : t.Sound buckets spare) : t.lockAtoms.Sound buckets spare where
  linked := h.linked.congr rfl (fun _ _ => rfl) fun _ _ => rfl
  accounted :=
    { hash := h.accounted.hash
      count := h.accounted.count
      holes := fun i => by
        -- There are no empty slots from the new boundary on, and no holes are left.
        have hlt : t.IsEmpty i → i < t.slots.size := fun ⟨s, hs, _⟩ => (Array.getElem?_eq_some_iff.1 hs).1
        have hholes := h.accounted.holes i
        constructor
        · intro hi
          obtain ⟨hi, hle⟩ := Std.TreeSet.mem_filter.1 hi
          rw [Std.TreeSet.get_eq, decide_eq_true_iff] at hle
          exact absurd (hlt (hholes.1 hi).2) (Nat.not_lt.2 hle)
        · rintro ⟨hle, he⟩
          exact absurd (hlt he) (Nat.not_lt.2 hle)
      boundary := Nat.le_refl _
      bytes := h.accounted.bytes }
  chains := h.chains
  room := h.room
  load := h.load

/-- Copied bytes are accounted for before there is an entry for them. -/
theorem Sound.withSpare (h : t.Sound buckets 0) (n : Nat) : { t with bytes := t.bytes + n }.Sound buckets n where
  linked := h.linked.congr rfl (fun _ _ => rfl) fun _ _ => rfl
  accounted := ⟨h.accounted.hash, h.accounted.count, h.accounted.holes, h.accounted.boundary,
    congrArg (· + n) h.accounted.bytes⟩
  chains := h.chains
  room := h.room
  load := h.load

theorem Sound.made_taken (h : t.Sound buckets 0) {type : BlobType} (hw : Wanted t span blob payload type)
    (hi : { t with bytes := t.bytes + payload.copied }.insert payload blob (Hash.ofBytes span.bytes) =
      .ok (a, t')) :
    ∃ g, a = ⟨.ofNat t.takeSlot.1, g⟩ ∧
      Inserted { t with bytes := t.bytes + payload.copied }
        { payload, blob, hash := Hash.ofBytes span.bytes, marked := t.marking } t.takeSlot.1 g t' ∧
      t'.Sound buckets 0 := by
  have htake : { t with bytes := t.bytes + payload.copied }.takeSlot.1 = t.takeSlot.1 := by
    rw [takeSlot_fst, takeSlot_fst]
  rcases (h.withSpare payload.copied).insert_taken (congrArg Hash.ofBytes hw.bytes.symm) blob with
    ⟨-, hi'⟩ | ⟨-, g, t₁, hi', hinserted, hsound⟩
  · rw [hi'] at hi
    cases hi
  · rw [hi'] at hi
    cases hi
    rw [htake] at hinserted ⊢
    exact ⟨g, rfl, hinserted, hsound⟩

theorem Sound.made (h : t.Sound buckets 0) {type : BlobType} (hw : Wanted t span blob payload type)
    (hi : { t with bytes := t.bytes + payload.copied }.insert payload blob (Hash.ofBytes span.bytes) =
      .ok (a, t')) :
    ∃ index g, a = ⟨.ofNat index, g⟩ ∧
      Inserted { t with bytes := t.bytes + payload.copied }
        { payload, blob, hash := Hash.ofBytes span.bytes, marked := t.marking } index g t' ∧ t'.Sound buckets 0 :=
  ⟨_, h.made_taken hw hi⟩

/-- A new atom is alive, with what it was made of. -/
theorem Inserted.entry {g : BitVec 24} (h : Inserted t e index g t') (hi : index < UInt32.size) :
    ∃ e', t'.entry ⟨.ofNat index, g⟩ = .ok e' ∧ e'.bare = e.bare := by
  obtain ⟨s, e', hs, rfl, he', hbare⟩ := h.exists_slot
  exact ⟨e', entry_atom hi hs he', hbare⟩

theorem Sound.change (h : t.Sound buckets 0) (hc : Change spans t t') : t'.Sound buckets 0 := by
  cases hc with
  | amended ha => exact h.amended ha
  | made _ hw hi =>
    obtain ⟨-, -, -, -, hsound⟩ := h.made hw hi
    exact hsound
  | destroyed he hle hd =>
    obtain ⟨t₁, hd', -, hsound⟩ := h.destroy he hle
    rw [hd'] at hd
    cases hd
    exact hsound
  | relabelled hu => exact h.unregisterBlob hu
  | locked => exact h.lockAtoms

theorem Sound.changes (h : t.Sound buckets 0) (hc : Changes spans t t') : t'.Sound buckets 0 := by
  induction hc with
  | refl => exact h
  | tail _ hc ih => exact ih.change hc

theorem Sound.size_change (h : t.Sound buckets 0) (hc : Change spans t t') :
    t.slots.size ≤ t'.slots.size := by
  cases hc with
  | amended ha => exact Nat.le_of_eq ha.size.symm
  | made _ hw hi =>
    obtain ⟨_, _, _, hinserted, _⟩ := h.made hw hi
    rw [hinserted.size]
    exact Nat.le_max_left _ _
  | destroyed he hle hd =>
    obtain ⟨t₁, hd', hdestroyed, -⟩ := h.destroy he hle
    rw [hd'] at hd
    cases hd
    exact Nat.le_of_eq hdestroyed.size.symm
  | relabelled hu =>
    obtain ⟨blobs, -, rfl⟩ := unregisterBlob_eq hu
    simp
  | locked => exact Nat.le_refl _

theorem Sound.size_changes (h : t.Sound buckets 0) (hc : Changes spans t t') :
    t.slots.size ≤ t'.slots.size := by
  induction hc with
  | refl => exact Nat.le_refl _
  | tail hcs hc ih => exact Nat.le_trans ih ((h.changes hcs).size_change hc)

end Table

end AtomHeap
