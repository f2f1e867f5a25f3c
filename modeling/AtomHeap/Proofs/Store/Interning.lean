import AtomHeap.Proofs.Store.Represented
import AtomHeap.Proofs.Table.Canonical
/-!
# Interning is exact

In every state that a run leads to, a unique type has at most one atom for a span; interning the span
gives that atom if there is one and a new atom if there is none, and looking it up finds an atom just
if there is one (`interning_exact`). Whether hashes collide does not matter.

The handles of a table with fewer than `2 ^ 32` slots tell its atoms apart.
-/

namespace AtomHeap

/-- An entry apart from its mark. -/
def Entry.unmarked (e : Entry) : Entry := { e with marked := false }

namespace Table

variable {memory : StaticMemory} {t t' : Table} {buckets i : Nat} {e : Entry} {s : Slot} {a a' : Atom}
  {span : Span}
  {blob : BlobId} {type : BlobType}

/-- An atom is alive, of a type, and for a span. -/
def Stands (t : Table) (a : Atom) (blob : BlobId) (span : Span) : Prop :=
  ∃ e type, t.entry a = .ok e ∧ e.blob = blob ∧ t.blobs.get? blob = some type ∧
    e.payload.IsFor span type.flags.nocopy

/-- At most one atom of a unique type stands for a span. -/
theorem Canonical.only (h : t.Canonical memory) (hspan : span.Lies memory)
    (htype : t.blobs.get? blob = some type)
    (hunique : type.flags.unique) (ha : t.Stands a blob span) (ha' : t.Stands a' blob span) : a = a' := by
  obtain ⟨e, type₁, he, hb, ht₁, hfor⟩ := ha
  obtain ⟨e', type₂, he', hb', ht₂, hfor'⟩ := ha'
  rw [htype, Option.some.injEq] at ht₁ ht₂
  subst ht₁ ht₂
  have hi := (entry_eq_ok_iff.1 he).1
  have hi' := (entry_eq_ok_iff.1 he').1
  refine eq_of_index_eq he he' (h.unique _ _ e e' type hi hi' (hb.trans hb'.symm) ?_ hunique ?_)
  · rw [hb, htype]
  · exact same_of_isFor hfor hfor' (h.lies _ _ hi) (h.lies _ _ hi') hspan

theorem Stands.amended (h : t.Stands a blob span) (ha : Amended t t') : t'.Stands a blob span := by
  obtain ⟨e, type, he, hblob, htype, hfor⟩ := h
  obtain ⟨e', he', hfixed⟩ := exists_of_map_eq (entry_congr Entry.fixed (ha.slot a.index.toNat)) he
  have hp : e'.payload = e.payload := congrArg (·.1) hfixed
  have hb : e'.blob = e.blob := congrArg (·.2.1) hfixed
  exact ⟨e', type, he', hb.trans hblob, ha.blobs _ _ htype, hp ▸ hfor⟩

/-- An atom that stands for a span has its bytes. -/
theorem Canonical.bytes (h : t.Canonical memory) (hspan : span.Lies memory) (ha : t.Stands a blob span) :
    ∃ e, t.entry a = .ok e ∧ e.blob = blob ∧ e.payload.bytes = span.bytes := by
  obtain ⟨e, type, he, hblob, -, hfor⟩ := ha
  exact ⟨e, he, hblob, h.bytes_of_isFor hspan (entry_eq_ok_iff.1 he).1 hfor⟩

/-- Some slot holds an atom of a type for a span. -/
def Holds (t : Table) (span : Span) (blob : BlobId) (nocopy : Bool) : Prop :=
  ∃ i e, t.entryAt? i = some e ∧ e.blob = blob ∧ e.payload.IsFor span nocopy

/-- A search finds the slot of an atom for the span just if there is one. -/
theorem Canonical.search (h : t.Canonical memory) (hs : t.Sound buckets 0) (hspan : span.Lies memory) (blob : BlobId)
    (nocopy : Bool) :
    ∃ found, t.find (Hash.ofBytes span.bytes) span blob nocopy = .ok found ∧
      (∀ i ∈ found, ∃ e, t.entryAt? i = some e ∧ e.blob = blob ∧ e.payload.IsFor span nocopy) ∧
      (found = none ↔ ¬ t.Holds span blob nocopy) := by
  have hiff : ∀ i e, t.entryAt? i = some e →
      (isFor e (Hash.ofBytes span.bytes) span blob nocopy = true ↔ e.blob = blob ∧ e.payload.IsFor span nocopy) :=
    fun i e he => isFor_iff (hs.accounted.hash i e he) (h.lies i e he) hspan
  obtain ⟨found, hfound, hsome, hnone⟩ := hs.linked.find (Hash.ofBytes span.bytes) span blob nocopy
  have hslot : ∀ i ∈ found, ∃ e, t.entryAt? i = some e ∧ e.blob = blob ∧ e.payload.IsFor span nocopy := fun i hi =>
    (hsome i hi).imp fun e ⟨he, hfor⟩ => ⟨he, (hiff i e he).1 hfor⟩
  refine ⟨found, hfound, hslot, ?_, fun hnot => ?_⟩
  · rintro hn ⟨i, e, he, hfor⟩
    exact hnone hn i e he ((hiff i e he).2 hfor)
  · cases found with
    | none => rfl
    | some i => exact absurd ⟨i, hslot i rfl⟩ hnot

/-- A search finds an atom that stands for the span just if there is one. -/
theorem Canonical.find (h : t.Canonical memory) (hs : t.Sound buckets 0) (hsize : t.slots.size < UInt32.size)
    (hspan : span.Lies memory) (htype : t.blobs.get? blob = some type) :
    ∃ found, t.find (Hash.ofBytes span.bytes) span blob type.flags.nocopy = .ok found ∧
      (∀ i ∈ found, ∃ s, t.slots[i]? = some s ∧ t.Stands (s.atom i) blob span) ∧
      (found = none → ∀ a, ¬ t.Stands a blob span) := by
  obtain ⟨found, hfound, hsome, hnone⟩ := h.search hs hspan blob type.flags.nocopy
  refine ⟨found, hfound, fun i hi => ?_, fun hn a ha => ?_⟩
  · obtain ⟨e, he, hb, hfor⟩ := hsome i hi
    obtain ⟨s, hslot, hse⟩ := entryAt?_eq_some_iff.1 he
    have hlt := lt_of_entryAt? he
    exact ⟨s, hslot, e, type, entry_atom (Nat.lt_trans hlt hsize) hslot hse, hb, htype, hfor⟩
  · obtain ⟨e, type', he, hb, htype', hfor⟩ := ha
    cases htype.symm.trans htype'
    exact hnone.1 hn ⟨_, e, (entry_eq_ok_iff.1 he).1, hb, hfor⟩

/-- What a search comes upon is the slot of an atom that stands for the span. -/
theorem Canonical.found (h : t.Canonical memory) (hs : t.Sound buckets 0) (hsize : t.slots.size < UInt32.size)
    (hspan : span.Lies memory) (htype : t.blobs.get? blob = some type)
    (hfind : t.find (Hash.ofBytes span.bytes) span blob type.flags.nocopy = .ok (some i)) :
    ∃ s, t.slots[i]? = some s ∧ t.Stands (s.atom i) blob span := by
  obtain ⟨found, hfound, hsome, -⟩ := h.find hs hsize hspan htype
  rw [hfind, Except.ok.injEq] at hfound
  exact hsome i hfound.symm

/-- A lookup changes marks only. -/
theorem lookup_unmarked {found : Option Atom} (h : t.lookup span blob = .ok (found, t')) (a : Atom) :
    (t'.entry a).map Entry.unmarked = (t.entry a).map Entry.unmarked := by
  cases lookup_touched h with
  | not => rfl
  | @set index e refs marked he hrefs =>
    have hsame : refs = e.refs := hrefs.resolve_right (·.1)
    rw [entry_setEntry he]
    cases ha : t.entry a with
    | error error => rfl
    | ok e₁ =>
      apply congrArg Except.ok
      split
      · rename_i hi
        have := (entry_eq_ok_iff.1 ha).1
        rw [hi, he] at this
        cases this
        simp only [Entry.unmarked, hsame]
      · rfl

/-- A lookup always answers, with an atom that stands for the span if there is one. -/
theorem Canonical.lookup (h : t.Canonical memory) (hs : t.Sound buckets 0)
    (hsize : t.slots.size < UInt32.size)
    (hspan : span.Lies memory) (blob : BlobId) :
    ∃ found t', t.lookup span blob = .ok (found, t') ∧ (∀ a ∈ found, t.Stands a blob span) ∧
      (found = none → ∀ a, ¬ t.Stands a blob span) := by
  unfold Table.lookup
  cases htype : t.blobs.get? blob with
  | none =>
    refine ⟨none, t, rfl, nofun, ?_⟩
    rintro - a ⟨e, type, -, -, htype', -⟩
    rw [htype] at htype'
    cases htype'
  | some type =>
    obtain ⟨_ | index, hfound, hsome, hnone⟩ := h.find hs hsize hspan htype
    · refine ⟨none, t, ?_, nofun, fun _ => hnone rfl⟩
      simp only [hfound]
      rfl
    · obtain ⟨s, hslot, hstands⟩ := hsome index rfl
      refine ⟨some (s.atom index), t.notice index s, ?_, ?_, nofun⟩
      · simp only [hfound, bind, Except.bind, slot_eq_ok_iff.2 hslot]
        rfl
      · rintro _ ⟨⟩
        exact hstands

theorem reuse_of_slot (hs : t.slot i = .ok s) : ∃ t', t.reuse i = .ok (s.atom i, t') := by
  unfold reuse
  rw [hs]
  exact ⟨_, rfl⟩

/-- The slot of a new atom is not that of a live one. -/
theorem Inserted.fresh {g : BitVec 24} (h : Inserted t e i g t') (hi : i < UInt32.size) (ha : t.isLive a) :
    a ≠ ⟨.ofNat i, g⟩ := by
  rintro rfl
  obtain ⟨e, he⟩ := isLive_iff.1 ha
  have hindex : ({ index := .ofNat i, generation := g } : Atom).index.toNat = i := UInt32.toNat_ofNat_of_lt hi
  have hentry := (entry_eq_ok_iff.1 he).1
  rw [hindex, h.vacant] at hentry
  cases hentry

end Table

namespace Store

variable {memory : StaticMemory} {s s' : Store} {events : List Event} {config : Config} {heap : Heap}
  {span : Span}
  {lasting : Bool} {blob : BlobId} {type : BlobType} {buckets : Nat}

/-- The answer to interning is settled under the table's lock. -/
theorem internSpan_answer {i : Interned} (h : s.internSpan span lasting blob = .ok (.ok i, s')) :
    ∃ s₁, s.internLocked span lasting blob = .ok (.ok i, s₁) := by
  cases internSpan_cases h with
  | found hintern => exact ⟨_, hintern⟩
  | made hintern => exact ⟨_, hintern⟩

/-- Interning and looking up a span are exact. -/
structure Exact (s : Store) (span : Span) : Prop where
  /-- A unique type has at most one atom for the span. -/
  only : ∀ blob type, s.table.blobs.get? blob = some type → type.flags.unique → ∀ a a',
    s.table.Stands a blob span → s.table.Stands a' blob span → a = a'
  /-- If it has one, interning gives that. -/
  found : ∀ blob type, s.table.blobs.isRegistered blob → s.table.blobs.get? blob = some type → type.flags.unique →
    ∀ a, s.table.Stands a blob span → ∀ lasting,
      ∃ s', s.internSpan span lasting blob = .ok (.ok ⟨a, false, false⟩, s')
  /-- If it has none, or the type is not unique, interning gives no atom but a new one. -/
  made : ∀ blob type, s.table.blobs.isRegistered blob → s.table.blobs.get? blob = some type →
    (type.flags.unique → ∀ a, ¬ s.table.Stands a blob span) →
    ∀ lasting i s', s.internSpan span lasting blob = .ok (.ok i, s') →
      i.isNew = true ∧ (∀ a, s.table.isLive a → a ≠ i.atom) ∧
      ∃ s₁, s.internLocked span lasting blob = .ok (.ok i, s₁) ∧ s₁.table.Stands i.atom blob span
  /-- It does so if there is a payload for it and the figures fit their words. -/
  makes : ∀ blob type, s.table.blobs.isRegistered blob → s.table.blobs.get? blob = some type →
    (type.flags.unique → ∀ a, ¬ s.table.Stands a blob span) →
    ∀ lasting payload s₁, s.payloadFor type span lasting = .ok (.ok payload, s₁) → s.table.Fits →
      s.table.nonGarbage + s.table.margin < wordCount →
      ∃ i s', s.internLocked span lasting blob = .ok (.ok i, s') ∧ i.isNew = true
  /-- A lookup gives an atom for the span just if there is one, whatever the type, and leaves all
  atoms as they are but for marks. -/
  lookup : ∀ blob, ∃ found s', s.lookup span blob = .ok (found, s') ∧
    (∀ a ∈ found, s.table.Stands a blob span) ∧ (found = none → ∀ a, ¬ s.table.Stands a blob span) ∧
    (∀ a, (s'.table.entry a).map Entry.unmarked = (s.table.entry a).map Entry.unmarked) ∧
    s'.table.slots.size = s.table.slots.size

/-- The atom that interning gives stands for the span from then on. -/
theorem Outcome.stands {r : Interned} (hc : s.table.Canonical memory)
    (hs : s.table.Sound buckets 0) (hsize : s.table.slots.size < UInt32.size) (hspan : span.Lies memory)
    (h : Outcome s span blob (.ok r) s') : s'.table.Stands r.atom blob span := by
  cases h with
  | found htype _ hfound hreuse =>
    obtain ⟨slot, hslot, hstands⟩ := hc.found hs hsize hspan htype hfound
    obtain ⟨slot', hslot', hatom⟩ := bind_eq_ok_iff.1 hreuse
    rw [Table.slot_eq_ok_iff, hslot, Option.some.injEq] at hslot'
    obtain rfl := (Prod.mk.inj (Except.ok.inj hatom)).1
    subst hslot'
    exact hstands.amended (Table.reuse_amended hreuse)
  | made hwanted hinsert =>
    obtain ⟨index, g, rfl, hinserted, -⟩ := hs.made hwanted hinsert
    obtain ⟨e, he, hbare⟩ := hinserted.entry (Nat.lt_of_le_of_lt hinserted.le hsize)
    have hp : e.payload = _ := congrArg (·.payload) hbare
    have hblobs : s'.table.blobs = s.table.blobs := by rw [hinserted.rest]
    exact ⟨e, _, he, congrArg (·.blob) hbare, hblobs ▸ hwanted.registered, hp ▸ hwanted.isFor⟩

/-- Interning without an atom to come upon gives no atom but a new one. -/
theorem made_of_canonical (hc : s.table.Canonical memory) (hs : s.table.Sound buckets 0)
    (hsize : s.table.slots.size < UInt32.size) (hspan : span.Lies memory)
    (htype : s.table.blobs.get? blob = some type)
    (hnone : type.flags.unique → ∀ a, ¬ s.table.Stands a blob span) {i : Interned}
    (h : s.internSpan span lasting blob = .ok (.ok i, s')) :
    i.isNew = true ∧ (∀ a, s.table.isLive a → a ≠ i.atom) ∧
      ∃ s₁, s.internLocked span lasting blob = .ok (.ok i, s₁) ∧ s₁.table.Stands i.atom blob span := by
  obtain ⟨s₁, hintern⟩ := internSpan_answer h
  have houtcome := internLocked_outcome hs hintern
  have hstands := houtcome.stands hc hs hsize hspan
  cases houtcome with
  | found htype' hunique hfound _ =>
    -- What is found stands for the span, and nothing does.
    obtain ⟨slot, -, hstands⟩ := hc.found hs hsize hspan htype' hfound
    rw [htype, Option.some.injEq] at htype'
    exact absurd hstands (hnone (htype' ▸ hunique) _)
  | made hwanted hinsert =>
    obtain ⟨index, g, rfl, hinserted, -⟩ := hs.made hwanted hinsert
    have hlt : index < UInt32.size := Nat.lt_of_le_of_lt hinserted.le hsize
    exact ⟨rfl, fun a ha => hinserted.fresh hlt ha, s₁, hintern, hstands⟩

/-- Interning makes an atom if there is none, there is a payload for it, and the figures fit their words. -/
theorem makes_of_none (hs : s.table.Sound buckets 0) (hreg : s.table.blobs.isRegistered blob)
    (htype : s.table.blobs.get? blob = some type)
    (hnone : s.existing? type blob (Hash.ofBytes span.bytes) span = .ok none)
    {payload : Payload} {s₁ : Store} (hpayload : s.payloadFor type span lasting = .ok (.ok payload, s₁))
    (hfits : s.table.Fits) (hdue : s.table.nonGarbage + s.table.margin < wordCount) :
    ∃ i s', s.internLocked span lasting blob = .ok (.ok i, s') ∧ i.isNew = true := by
  obtain ⟨hbytes, -, -, htable⟩ := payloadFor_table hpayload
  rcases (hs.withSpare payload.copied).insert (congrArg Hash.ofBytes hbytes.symm) blob with
    ⟨hnot, -⟩ | ⟨-, index, g, t', hinsert, hinserted, -⟩
  · exact absurd hfits hnot
  rw [← htable] at hinsert
  -- The figures fit, so it can be said whether a cycle is due.
  obtain ⟨due, hdue⟩ : ∃ due, t'.shouldCollect = .ok due := by
    have hadd : checkedAdd t'.nonGarbage t'.margin = .ok (s.table.nonGarbage + s.table.margin) := by
      rw [hinserted.rest, checkedAdd_eq_ok_iff]
      exact ⟨hdue, rfl⟩
    unfold Table.shouldCollect
    split
    · rw [hadd]
      exact ⟨_, rfl⟩
    · exact ⟨_, rfl⟩
  exact ⟨⟨⟨.ofNat index, g⟩, true, due⟩, { s₁ with table := t' },
    internLocked_of_insert hreg htype hnone hpayload hinsert hdue, rfl⟩

theorem makes_of_canonical (hc : s.table.Canonical memory) (hs : s.table.Sound buckets 0)
    (hsize : s.table.slots.size < UInt32.size) (hspan : span.Lies memory)
    (hreg : s.table.blobs.isRegistered blob)
    (htype : s.table.blobs.get? blob = some type)
    (hnone : type.flags.unique → ∀ a, ¬ s.table.Stands a blob span)
    {payload : Payload} {s₁ : Store} (hpayload : s.payloadFor type span lasting = .ok (.ok payload, s₁))
    (hfits : s.table.Fits) (hdue : s.table.nonGarbage + s.table.margin < wordCount) :
    ∃ i s', s.internLocked span lasting blob = .ok (.ok i, s') ∧ i.isNew = true := by
  -- Nothing stands for the span, so a search comes upon nothing.
  have hexisting : s.existing? type blob (Hash.ofBytes span.bytes) span = .ok none := by
    unfold existing?
    split
    · rename_i hunique
      obtain ⟨found, hfound, hsome, -⟩ := hc.find hs hsize hspan htype
      cases found with
      | none => exact hfound
      | some index =>
        obtain ⟨slot, -, hstands⟩ := hsome index rfl
        exact absurd hstands (hnone hunique _)
    · rfl
  exact makes_of_none hs hreg htype hexisting hpayload hfits hdue

theorem exact_of_canonical (hc : s.table.Canonical memory) (hs : s.table.Sound buckets 0)
    (hsize : s.table.slots.size < UInt32.size) (hspan : span.Lies memory) : s.Exact span where
  only blob type htype hunique a a' ha ha' := hc.only hspan htype hunique ha ha'
  found blob type hreg htype hunique a ha lasting := by
    obtain ⟨found, hfound, hsome, hnone⟩ := hc.find hs hsize hspan htype
    cases found with
    | none => exact absurd ha (hnone rfl a)
    | some index =>
      obtain ⟨slot, hslot, hstands⟩ := hsome index rfl
      have hatom := hc.only hspan htype hunique hstands ha
      obtain ⟨t', hreuse⟩ := Table.reuse_of_slot (Table.slot_eq_ok_iff.2 hslot)
      rw [hatom] at hreuse
      refine ⟨{ s with table := t' }, ?_⟩
      unfold internSpan internLocked existing? Store.reuse
      simp only [hreg, htype, hunique, if_pos, hfound, bind, Except.bind, hreuse]
      rfl
  made _ _ _ htype hnone _ _ _ h := made_of_canonical hc hs hsize hspan htype hnone h
  makes _ _ hreg htype hnone _ _ _ hpayload hfits hdue :=
    makes_of_canonical hc hs hsize hspan hreg htype hnone hpayload hfits hdue
  lookup blob := by
    obtain ⟨found, t', hlookup, hsome, hnone⟩ := hc.lookup hs hsize hspan blob
    refine ⟨found, { s with table := t' }, ?_, hsome, hnone, Table.lookup_unmarked hlookup,
      (Table.lookup_amended hlookup).size⟩
    unfold Store.lookup
    simp only [hlookup]
    rfl

theorem Run.canonical_of_empty (hcheck : config.check = .ok ())
    (h : Run (Span.Lies memory) (.empty heap config) events s) : s.table.Canonical memory := by
  have hempty := Table.sound_empty (Table.atomBuckets_power hcheck) (heap.openPool).1
  exact (Table.canonical_empty memory config _).changes hempty (h.changes hempty)

/-- In every state that a run from a store without atoms leads to, with fewer than `2 ^ 32` slots,
interning and looking up are exact. -/
theorem interning_exact (hcheck : config.check = .ok ())
    (h : Run (Span.Lies memory) (.empty heap config) events s)
    (hsize : s.table.slots.size < UInt32.size) (hspan : span.Lies memory) : s.Exact span := by
  have hempty := Table.sound_empty (Table.atomBuckets_power hcheck) (heap.openPool).1
  have hchanges := h.changes hempty
  have hcanonical := (Table.canonical_empty memory config _).changes hempty hchanges
  exact exact_of_canonical hcanonical (hempty.changes hchanges) hsize hspan

/-- One byte as text and, where it lies, as a type that does not copy. -/
theorem interning_exact_kept :
    ∃ s, Run (Span.Lies fun _ => [97])
        (.empty (.empty ⟨32, 64, 2⟩ fun _ _ => true) { atomBuckets := 1, agcEnabled := false })
        [.made ⟨1, 0⟩, .made ⟨0, 0⟩] s ∧
      s.table.Stands ⟨0, 0⟩ BlobId.text { bytes := [97], place := some ⟨"a", 0⟩ } ∧
      s.table.Stands ⟨1, 0⟩ 3 { bytes := [97], place := some ⟨"a", 0⟩ } ∧
      s.Exact { bytes := [97], place := some ⟨"a", 0⟩ } := by
  have hlies : Span.Lies (fun _ => [97]) { bytes := [97], place := some ⟨"a", 0⟩ } := by
    rintro _ ⟨⟩
    rfl
  have hname : BlobRegistry.initial.find? "kept" = none := by simp [BlobRegistry.find?, BlobRegistry.initial]
  have none := @Run.start (Span.Lies fun _ => [97])
    (.empty (.empty ⟨32, 64, 2⟩ fun _ _ => true) { atomBuckets := 1, agcEnabled := false })
  have registered := none.call (.registerBlob
    (@Table.registerBlob_of_none _ { name := "kept", flags := { unique := true, nocopy := true } } hname))
  have text := registered.intern { bytes := [97] } (Span.lies_of_bytes _ _) BlobId.text rfl
  have kept := text.call (.intern hlies (rfl : internLocked _ _ true 3 = .ok (.ok _, _)))
  have hexact := interning_exact rfl kept (by decide) hlies
  exact ⟨_, kept, ⟨_, _, rfl, rfl, rfl, rfl⟩, ⟨_, _, rfl, rfl, rfl, rfl⟩, hexact⟩

end Store

end AtomHeap
