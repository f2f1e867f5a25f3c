import AtomHeap.Proofs.Store.Interning
import AtomHeap.Proofs.Store.Shortage
/-!
# When interning is refused

Interning gives three kinds of errors, each at another depth. `Store.Rejects` says which: a type that is not in use
is refused first; then an atom that there is already is given out, and only where there is none may a type that does
not copy refuse bytes that do not last, or the heap refuse a copy. `refusals_exact` says that this is so in every state
that a run leads to, and that a refusal leaves the table as it was.
-/

namespace AtomHeap

namespace Store

variable {memory : StaticMemory} {s s' : Store} {events : List Event} {config : Config} {heap : Heap} {span : Span}
  {lasting : Bool} {blob : BlobId} {type : BlobType} {buckets : Nat} {e : AtomError}

/-- A unique type has an atom for a span already. -/
def Hits (s : Store) (span : Span) (blob : BlobId) (type : BlobType) : Prop :=
  type.flags.unique = true ∧ s.table.Holds span blob type.flags.nocopy

/-- What interning a span as a type is refused for. -/
inductive Rejects (s : Store) (span : Span) (lasting : Bool) (blob : BlobId) : AtomError → Prop
  /-- The type is not in use. -/
  | unknown : s.table.blobs.isRegistered blob = false → Rejects s span lasting blob .unknownBlob
  /-- The type does not copy, and the bytes were not handed over as bytes that last. -/
  | staticNeeded {type : BlobType} :
      s.table.blobs.isRegistered blob = true → s.table.blobs.get? blob = some type → ¬ s.Hits span blob type →
      type.flags.nocopy = true → ¬ (lasting = true ∧ span.place.isSome = true) →
      Rejects s span lasting blob (.staticNeeded type.name)
  /-- The heap has no block for the bytes. -/
  | noMemory {type : BlobType} {cause : AllocError} {heap : Heap} :
      s.table.blobs.isRegistered blob = true → s.table.blobs.get? blob = some type → ¬ s.Hits span blob type →
      type.flags.nocopy = false → span.bytes ≠ [] →
      s.heap.alloc (some s.table.pool) span.bytes.length = .ok (.error cause, heap) →
      Rejects s span lasting blob (.alloc cause)

/-! ## What a refusal leaves -/

/-- The table is the same, and nobody was told of anything but refusals of the system. -/
structure Untouched (s s' : Store) : Prop where
  table : s'.table = s.table
  told : ∃ refusals : List Refusal, s'.calls.toList = s.calls.toList ++ refusals.map .refused

theorem Untouched.refl (s : Store) : Untouched s s := ⟨rfl, [], (List.append_nil _).symm⟩

theorem logRefusals_untouched (heap : Heap) (s : Store) :
    Untouched s (logRefusals ⟨heap, s.table, s.calls⟩) := by
  refine ⟨logRefusals_table _, heap.refusals, ?_⟩
  rw [logRefusals_eq]
  simp

/-- Interning that is refused leaves the table as it was, in whatever state. -/
theorem internLocked_untouched (h : s.internLocked span lasting blob = .ok (.error e, s')) : Untouched s s' := by
  cases internLocked_interning h with
  | unknown => exact .refl s
  | refused hpayload =>
    cases payloadFor_eq_ok_iff.1 hpayload with
    | fleeting => exact .refl s
    | @refused _ heap => exact logRefusals_untouched heap s

/-! ## What a refusal is for -/

theorem get?_of_isRegistered {r : BlobRegistry} (h : r.isRegistered blob = true) :
    ∃ type, r.get? blob = some type := by
  unfold BlobRegistry.isRegistered at h
  unfold BlobRegistry.get?
  split at h
  · rename_i t ht
    exact ⟨t.type, by rw [ht]; rfl⟩
  · cases h

theorem internLocked_of_unregistered (h : s.table.blobs.isRegistered blob = false) :
    s.internLocked span lasting blob = .ok (.error .unknownBlob, s) := by
  unfold internLocked
  rw [h]

/-- Where there is no atom to be given out, interning makes one. -/
theorem internLocked_eq_create (hreg : s.table.blobs.isRegistered blob = true) (htype : s.table.blobs.get? blob = some type)
    (hnone : s.existing? type blob (Hash.ofBytes span.bytes) span = .ok none) :
    s.internLocked span lasting blob = s.create type blob (Hash.ofBytes span.bytes) span lasting := by
  unfold internLocked
  simp only [hreg, htype, hnone, bind, Except.bind]

/-- The search under the table's lock finds an atom just if there is one. -/
theorem existing?_exact (hc : s.table.Canonical memory) (hs : s.table.Sound buckets 0) (hspan : span.Lies memory)
    (blob : BlobId) (type : BlobType) :
    (s.existing? type blob (Hash.ofBytes span.bytes) span = .ok none ∧ ¬ s.Hits span blob type) ∨
      ∃ index slot, s.existing? type blob (Hash.ofBytes span.bytes) span = .ok (some index) ∧
        s.table.slot index = .ok slot ∧ s.Hits span blob type := by
  unfold existing? Hits
  cases hunique : type.flags.unique with
  | false => exact .inl ⟨rfl, fun h => Bool.false_ne_true h.1⟩
  | true =>
    obtain ⟨_ | index, hfound, hsome, hnone⟩ := hc.search hs hspan blob type.flags.nocopy
    · exact .inl ⟨hfound, fun h => hnone.1 rfl h.2⟩
    · obtain ⟨entry, hentry, hfor⟩ := hsome index rfl
      obtain ⟨slot, hslot, -⟩ := Table.entryAt?_eq_some_iff.1 hentry
      exact .inr ⟨index, slot, hfound, Table.slot_eq_ok_iff.2 hslot, rfl, index, entry, hentry, hfor⟩

/-- An atom that there is already is given out, whatever heap there is. -/
theorem internLocked_of_hits (hc : s.table.Canonical memory) (hs : s.table.Sound buckets 0) (hspan : span.Lies memory)
    (hreg : s.table.blobs.isRegistered blob = true) (htype : s.table.blobs.get? blob = some type)
    (hhit : s.Hits span blob type) :
    ∃ a t, ∀ heap lasting,
      internLocked { s with heap } span lasting blob = .ok (.ok ⟨a, false, false⟩, { s with heap, table := t }) := by
  rcases existing?_exact hc hs hspan blob type with ⟨-, hnot⟩ | ⟨index, slot, hfound, hslot, -⟩
  · exact absurd hhit hnot
  · obtain ⟨t, hreuse⟩ := Table.reuse_of_slot hslot
    refine ⟨slot.atom index, t, fun heap lasting => ?_⟩
    have hfound' : existing? { s with heap } type blob (Hash.ofBytes span.bytes) span = .ok (some index) := hfound
    unfold internLocked Store.reuse
    simp only [hreg, htype, hfound', hreuse, bind, Except.bind]
    rfl

theorem rejects_of_internLocked (hc : s.table.Canonical memory) (hs : s.table.Sound buckets 0)
    (hspan : span.Lies memory) (h : s.internLocked span lasting blob = .ok (.error e, s')) :
    Rejects s span lasting blob e := by
  cases hreg : s.table.blobs.isRegistered blob with
  | false =>
    rw [internLocked_of_unregistered hreg] at h
    cases h
    exact .unknown hreg
  | true =>
    obtain ⟨type, htype⟩ := get?_of_isRegistered hreg
    rcases existing?_exact hc hs hspan blob type with ⟨hnone, hnot⟩ | ⟨_, _, -, -, hhit⟩
    · rw [internLocked_eq_create hreg htype hnone] at h
      obtain ⟨⟨_ | payload, s₁⟩, hpayload, h⟩ := bind_eq_ok_iff.1 h
      · cases h
        cases payloadFor_eq_ok_iff.1 hpayload with
        | fleeting hnocopy hlasting => exact .staticNeeded hreg htype hnot hnocopy hlasting
        | refused hcopy hne halloc => exact .noMemory hreg htype hnot hcopy hne halloc
      · obtain ⟨_, -, h⟩ := bind_eq_ok_iff.1 h
        obtain ⟨_, -, h⟩ := bind_eq_ok_iff.1 h
        cases h
    · obtain ⟨a, t, hfound⟩ := internLocked_of_hits hc hs hspan hreg htype hhit
      cases h.symm.trans (hfound s.heap lasting)

theorem internLocked_of_rejects (hc : s.table.Canonical memory) (hs : s.table.Sound buckets 0)
    (hspan : span.Lies memory) (h : Rejects s span lasting blob e) :
    ∃ s', s.internLocked span lasting blob = .ok (.error e, s') := by
  have hnone {type : BlobType} (hnot : ¬ s.Hits span blob type) :
      s.existing? type blob (Hash.ofBytes span.bytes) span = .ok none := by
    rcases existing?_exact hc hs hspan blob type with ⟨hnone, -⟩ | ⟨_, _, -, -, hhit⟩
    · exact hnone
    · exact absurd hhit hnot
  cases h with
  | unknown hreg => exact ⟨s, internLocked_of_unregistered hreg⟩
  | @staticNeeded type hreg htype hnot hnocopy hlasting =>
    refine ⟨s, ?_⟩
    rw [internLocked_eq_create hreg htype (hnone hnot)]
    unfold create
    rw [payloadFor_eq_ok_iff.2 (.fleeting hnocopy hlasting)]
    rfl
  | noMemory hreg htype hnot hcopy hne halloc =>
    exact internLocked_of_refused ⟨hne, hreg, _, htype, hcopy, hnone hnot⟩ halloc

/-- How interning a span as a type is refused, and when it is not. -/
structure Declines (s : Store) (span : Span) (lasting : Bool) (blob : BlobId) : Prop where
  reason : ∀ e, (∃ s', s.internSpan span lasting blob = .ok (.error e, s')) ↔ Rejects s span lasting blob e
  untouched : ∀ e s', s.internSpan span lasting blob = .ok (.error e, s') → Untouched s s'
  /-- Neither memory nor bytes that last are needed for an atom that there is already. -/
  hit : ∀ type, s.table.blobs.isRegistered blob = true → s.table.blobs.get? blob = some type →
    s.Hits span blob type → ∃ a t, ∀ heap,
      internSpan { s with heap } span lasting blob = .ok (.ok ⟨a, false, false⟩, { s with heap, table := t })

theorem declines_of_canonical (hc : s.table.Canonical memory) (hs : s.table.Sound buckets 0)
    (hspan : span.Lies memory) (lasting : Bool) (blob : BlobId) : s.Declines span lasting blob where
  reason e := by
    constructor
    · rintro ⟨s', h⟩
      exact rejects_of_internLocked hc hs hspan (internSpan_eq_error_iff.1 h)
    · intro h
      obtain ⟨s', hrefused⟩ := internLocked_of_rejects hc hs hspan h
      exact ⟨s', internSpan_eq_error_iff.2 hrefused⟩
  untouched e s' h := internLocked_untouched (internSpan_eq_error_iff.1 h)
  hit type hreg htype hhit := by
    obtain ⟨a, t, hfound⟩ := internLocked_of_hits hc hs hspan hreg htype hhit
    refine ⟨a, t, fun heap => ?_⟩
    unfold internSpan
    rw [hfound]
    rfl

/-- In every state that a run from a store without atoms leads to, interning is refused for a type that is not in
use, or else, where no atom can be given out, for want of lasting bytes or of memory, and never for anything else; and
a refusal leaves the table as it was and runs no acquire hook. -/
theorem refusals_exact (hcheck : config.check = .ok ())
    (h : Run (Span.Lies memory) (.empty heap config) events s) (hspan : span.Lies memory) (lasting : Bool)
    (blob : BlobId) : s.Declines span lasting blob := by
  have hempty := Table.sound_empty (Table.atomBuckets_power hcheck) (heap.openPool).1
  have hchanges := h.changes hempty
  have hcanonical := (Table.canonical_empty memory config _).changes hempty hchanges
  exact declines_of_canonical hcanonical (hempty.changes hchanges) hspan lasting blob

/-- Where the system gives nothing, an atom that keeps its bytes is made and given out again, other bytes have to last,
and text can be empty only. -/
theorem refusals_exact_no_memory :
    ∃ s, Run (Span.Lies fun _ => [97])
        (.empty { Heap.empty ⟨32, 64, 2⟩ (fun _ _ => false) with hook := some "hook" }
          { atomBuckets := 1, agcEnabled := false }) [.made ⟨0, 0⟩] s ∧
      (∀ lasting, s.Declines { bytes := [97], place := some ⟨"a", 0⟩ } lasting 3) ∧
      (∃ type, s.table.blobs.get? 3 = some type ∧ s.Hits { bytes := [97], place := some ⟨"a", 0⟩ } 3 type) ∧
      Rejects s { bytes := [98] } true 3 (.staticNeeded "kept") ∧
      Rejects s { bytes := [97] } false BlobId.text (.alloc .outOfMemory) ∧
      (∃ i s', s.internSpan { bytes := [] } false BlobId.text = .ok (.ok i, s')) ∧
      Rejects s { bytes := [97] } false 4 .unknownBlob := by
  have hlies : Span.Lies (fun _ => [97]) { bytes := [97], place := some ⟨"a", 0⟩ } := by
    rintro _ ⟨⟩
    rfl
  have hname : BlobRegistry.initial.find? "kept" = none := by simp [BlobRegistry.find?, BlobRegistry.initial]
  have none := @Run.start (Span.Lies fun _ => [97])
    (.empty { Heap.empty ⟨32, 64, 2⟩ (fun _ _ => false) with hook := some "hook" }
      { atomBuckets := 1, agcEnabled := false })
  have registered := none.call (.registerBlob
    (@Table.registerBlob_of_none _ { name := "kept", flags := { unique := true, nocopy := true } } hname))
  have kept := registered.call (.intern hlies (rfl : internLocked _ _ true 3 = .ok (.ok _, _)))
  have hbytes (bytes : List UInt8) := refusals_exact rfl kept (Span.lies_of_bytes _ bytes)
  refine ⟨_, kept, fun lasting => refusals_exact rfl kept hlies lasting 3, ⟨_, rfl, rfl, 0, _, rfl, rfl, rfl⟩,
    ((hbytes [98] true 3).reason _).1 ⟨_, rfl⟩, ((hbytes [97] false BlobId.text).reason _).1 ⟨_, rfl⟩, ⟨_, _, rfl⟩,
    .unknown rfl⟩

end Store

end AtomHeap
