import AtomHeap.Proofs.Store.Housed
import AtomHeap.Proofs.Store.Types
/-!
# Types that are withdrawn

When a type is withdrawn its atoms, and no others, get the discarded type, and nothing else about them changes
(`Table.Withdraws`). They stay on their chains among the atoms of other types, and the type that they have now is still
in use, so lookups under the discarded type come upon them (`lookup_discarded_differs`); lookups under all other types
answer as before. The number of the withdrawn type stays out of use, and no type registered later gives out one of its
atoms (`Store.Parted`).
-/

namespace AtomHeap

namespace Table

variable {memory : StaticMemory} {t t' : Table} {buckets : Nat} {e : Entry} {a : Atom} {id blob : BlobId}
  {span : Span} {nocopy : Bool} {hash : UInt64}

/-! ## Lookups after a withdrawal -/

/-- A search goes the same way if its condition tells no relabelled entry from the one it was. -/
theorem search_unregisterBlob (h : t.unregisterBlob id = .ok t') {pass : Entry → Bool}
    (hpass : ∀ e, pass (e.withdraw id) = pass e) (steps : Nat) (first : Option Nat) :
    t'.search pass steps first = t.search pass steps first := by
  obtain ⟨blobs, -, rfl⟩ := unregisterBlob_eq h
  induction steps generalizing first with
  | zero => cases first <;> rfl
  | succ steps ih =>
    cases first with
    | none => rfl
    | some i =>
      unfold search slot
      rw [Array.getElem?_map]
      cases t.slots[i]? with
      | none => rfl
      | some s =>
        obtain ⟨g, e⟩ := s
        cases e with
        | none => rfl
        | some e => simp [bind, Except.bind, hpass, ih]

theorem isFor_withdraw (hid : blob ≠ id) (hdiscarded : blob ≠ BlobId.discarded) (e : Entry) :
    isFor (e.withdraw id) hash span blob nocopy = isFor e hash span blob nocopy := by
  unfold isFor
  rw [e.withdraw_hash, e.withdraw_payload, e.withdraw_blob]
  by_cases heq : e.blob = id
  · rw [if_pos heq, heq, beq_eq_false_iff_ne.2 hid.symm, beq_eq_false_iff_ne.2 hdiscarded.symm]
  · rw [if_neg heq]

theorem find_unregisterBlob (h : t.unregisterBlob id = .ok t') (hid : blob ≠ id)
    (hdiscarded : blob ≠ BlobId.discarded) : t'.find hash span blob nocopy = t.find hash span blob nocopy := by
  have hsearch := @search_unregisterBlob _ _ _ h (isFor · hash span blob nocopy) (isFor_withdraw hid hdiscarded)
  obtain ⟨blobs, -, rfl⟩ := unregisterBlob_eq h
  unfold find chainOf
  simp only [hsearch, Array.size_map]

/-- The types that other lookups go by are what they were. -/
theorem get?_unregisterBlob (h : t.unregisterBlob id = .ok t') (blob : BlobId) :
    t'.blobs.get? blob = t.blobs.get? blob := by
  obtain ⟨blobs, hblobs, rfl⟩ := unregisterBlob_eq h
  rw [BlobRegistry.get?_eq, BlobRegistry.get?_eq, BlobRegistry.standing_unregister hblobs]
  split
  · rw [Option.map_map]
    rfl
  · rfl

theorem slot_unregisterBlob (h : t.unregisterBlob id = .ok t') (i : Nat) :
    t'.slot i = (t.slot i).map fun s => { s with entry := s.entry.map (·.withdraw id) } := by
  obtain ⟨blobs, -, rfl⟩ := unregisterBlob_eq h
  unfold slot
  rw [Array.getElem?_map]
  cases t.slots[i]? <;> rfl

theorem lookup_unregisterBlob (h : t.unregisterBlob id = .ok t') (span : Span) (hid : blob ≠ id)
    (hdiscarded : blob ≠ BlobId.discarded) : (t'.lookup span blob).map Prod.fst = (t.lookup span blob).map Prod.fst := by
  unfold lookup
  rw [get?_unregisterBlob h]
  cases t.blobs.get? blob with
  | none => rfl
  | some type =>
    simp only [find_unregisterBlob h hid hdiscarded]
    cases t.find (Hash.ofBytes span.bytes) span blob type.flags.nocopy with
    | error fault => rfl
    | ok found =>
      cases found with
      | none => rfl
      | some i =>
        simp only [bind, Except.bind, slot_unregisterBlob h]
        cases t.slot i <;> rfl

/-- A lookup under a type that is not in use finds nothing. -/
theorem lookup_of_unregistered (hs : t.Sound buckets 0) (ht : t.Typed) (hreg : t.blobs.isRegistered blob = false)
    (span : Span) : t.lookup span blob = .ok (none, t) := by
  unfold lookup
  split
  · rfl
  · rename_i type htype
    obtain ⟨_ | i, hfound, hsome, -⟩ := hs.linked.find (Hash.ofBytes span.bytes) span blob type.flags.nocopy
    · rw [hfound]
      rfl
    · obtain ⟨e, he, hfor⟩ := hsome i rfl
      have hreg' := ht i e he
      rw [(key_of_isFor hfor).2, hreg] at hreg'
      cases hreg'

/-- How a table is left, with its slots as a list. -/
theorem unregisterBlob_of_registered {blobs : BlobRegistry} (h : t.blobs.unregister id = .ok blobs) :
    t.unregisterBlob id = .ok { t with
      blobs, slots := (t.slots.toList.map fun s => { s with entry := s.entry.map (·.withdraw id) }).toArray } := by
  unfold unregisterBlob
  rw [h, ← Array.toList_map, Array.toArray_toList]
  rfl

theorem unregisterBlob_eq_error_iff {error : AtomError} :
    t.unregisterBlob id = .error error ↔ t.blobs.unregister id = .error error := by
  unfold unregisterBlob
  cases t.blobs.unregister id with
  | error error' => exact ⟨fun h => Except.error.inj h ▸ rfl, fun h => Except.error.inj h ▸ rfl⟩
  | ok blobs => exact ⟨nofun, nofun⟩

/-- What the withdrawal of a type does to a table. -/
structure Withdraws (memory : StaticMemory) (id : BlobId) (t t' : Table) : Prop where
  /-- The atoms of the type have the discarded type instead, and each atom is otherwise what it was: its data, its
  references, its mark, and its place on a chain. -/
  entry : ∀ a, t'.entry a =
    (t.entry a).map fun e => { e with blob := if e.blob = id then BlobId.discarded else e.blob }
  rest : { t' with slots := t.slots, blobs := t.blobs } = t
  registered : ∀ blob, t'.blobs.isRegistered blob = (decide (blob ≠ id) && t.blobs.isRegistered blob)
  lookup : ∀ span blob, blob ≠ id → blob ≠ BlobId.discarded →
    (t'.lookup span blob).map Prod.fst = (t.lookup span blob).map Prod.fst
  withdrawn : ∀ span, t'.lookup span id = .ok (none, t')
  /-- A lookup under the discarded type comes upon any atom of that or of the withdrawn type with the bytes. -/
  discarded : ∀ span, span.Lies memory → ∃ found u, t'.lookup span BlobId.discarded = .ok (found, u) ∧
    (∀ a ∈ found, ∃ e, t.entry a = .ok e ∧ (e.blob = id ∨ e.blob = BlobId.discarded) ∧
      e.payload.bytes = span.bytes) ∧
    (found = none → ∀ a e, t.entry a = .ok e → e.blob = id ∨ e.blob = BlobId.discarded →
      e.payload.bytes ≠ span.bytes)

theorem withdraw_discarded_iff (e : Entry) (id : BlobId) :
    (e.withdraw id).blob = BlobId.discarded ↔ e.blob = id ∨ e.blob = BlobId.discarded := by
  rw [e.withdraw_blob]
  split
  · rename_i hid
    exact ⟨fun _ => .inl hid, fun _ => rfl⟩
  · rename_i hid
    exact ⟨.inr, fun h => h.resolve_left hid⟩

theorem withdraw_eq (e : Entry) (id : BlobId) :
    e.withdraw id = { e with blob := if e.blob = id then BlobId.discarded else e.blob } := by
  unfold Entry.withdraw
  split <;> rfl

theorem Canonical.lookup_discarded (hc : t.Canonical memory) (hs : t.Sound buckets 0)
    (hsize : t.slots.size < UInt32.size) (hspan : span.Lies memory) :
    ∃ found t', t.lookup span BlobId.discarded = .ok (found, t') ∧
      (∀ a ∈ found, ∃ e, t.entry a = .ok e ∧ e.blob = BlobId.discarded ∧ e.payload.bytes = span.bytes) ∧
      (found = none → ∀ a e, t.entry a = .ok e → e.blob = BlobId.discarded → e.payload.bytes ≠ span.bytes) := by
  obtain ⟨type, htype, -, hcopied⟩ := hc.discarded
  have hfor (p : Payload) : p.IsFor span type.flags.nocopy ↔ p.bytes = span.bytes := by
    unfold Payload.IsFor
    rw [if_neg hcopied]
  obtain ⟨found, t', hlookup, hsome, hnone⟩ := hc.lookup hs hsize hspan BlobId.discarded
  refine ⟨found, t', hlookup, fun a ha => ?_, fun hn a e he hblob hbytes => ?_⟩
  · obtain ⟨e, type', he, hblob, htype', hp⟩ := hsome a ha
    cases htype.symm.trans htype'
    exact ⟨e, he, hblob, (hfor _).1 hp⟩
  · exact hnone hn a ⟨e, type, he, hblob, htype, (hfor _).2 hbytes⟩

theorem Canonical.withdraws (hc : t.Canonical memory) (hs : t.Sound buckets 0) (ht : t.Typed)
    (hdiscarded : t.blobs.isRegistered BlobId.discarded = true) (hsize : t.slots.size < UInt32.size)
    (h : t.unregisterBlob id = .ok t') : Withdraws memory id t t' := by
  have hentry (a : Atom) : t'.entry a =
      (t.entry a).map fun e => { e with blob := if e.blob = id then BlobId.discarded else e.blob } := by
    rw [entry_unregisterBlob h, funext fun e : Entry => withdraw_eq e id]
  have hs' : t'.Sound buckets 0 := hs.unregisterBlob h
  obtain ⟨blobs, hblobs, ht'⟩ := unregisterBlob_eq h
  have hregistered (blob : BlobId) : t'.blobs.isRegistered blob =
      (decide (blob ≠ id) && t.blobs.isRegistered blob) := by
    rw [ht']
    exact BlobRegistry.isRegistered_unregister hblobs blob
  refine ⟨hentry, ?_, hregistered, fun span blob hid hd => lookup_unregisterBlob h span hid hd,
    fun span => ?_, fun span hspan => ?_⟩
  · rw [ht']
  · have hstays : t'.blobs.isRegistered BlobId.discarded = true := by
      rw [hregistered, hdiscarded, Bool.and_true, decide_eq_true_iff]
      exact (BlobRegistry.unregister_eq_ok_iff.1 hblobs).1.symm
    have hgone : t'.blobs.isRegistered id = false := by simp [hregistered]
    exact lookup_of_unregistered hs' ((Retypes.unregisterBlob ht h).typed hstays) hgone span
  · have hsize' : t'.slots.size < UInt32.size := by
      rw [ht', Array.size_map]
      exact hsize
    obtain ⟨found, u, hlookup, hsome, hnone⟩ := (hc.unregisterBlob h).lookup_discarded hs' hsize' hspan
    refine ⟨found, u, hlookup, fun a ha => ?_, fun hn a e he hblob => ?_⟩
    · obtain ⟨e', he', hblob, hbytes⟩ := hsome a ha
      rw [entry_unregisterBlob h] at he'
      cases he : t.entry a with
      | error error =>
        rw [he] at he'
        cases he'
      | ok e =>
        rw [he] at he'
        cases he'
        rw [e.withdraw_payload] at hbytes
        exact ⟨e, rfl, (withdraw_discarded_iff e id).1 hblob, hbytes⟩
    · have he' : t'.entry a = .ok (e.withdraw id) := by
        rw [entry_unregisterBlob h, he]
        rfl
      have hbytes := hnone hn a _ he' ((withdraw_discarded_iff e id).2 hblob)
      rwa [e.withdraw_payload] at hbytes

end Table

namespace Store

open Table (Withdraws)

variable {memory : StaticMemory} {s s' : Store} {events later : List Event} {config : Config} {heap : Heap}
  {buckets k : Nat} {span : Span} {lasting : Bool} {blob id : BlobId} {a : Atom} {e : Entry}

/-- What an atom comes to whose type is out of use, when its slot was emptied `k` times since it was seen alive. -/
structure Parted (memory : StaticMemory) (s : Store) (a : Atom) (k : Nat) (s' : Store) : Prop where
  /-- It has the discarded type, if it was not destroyed. -/
  kept : k = 0 → ∃ e e', s.table.entry a = .ok e ∧ s'.table.entry a = .ok e' ∧ e'.payload = e.payload ∧
    e'.blob = BlobId.discarded
  /-- A lookup under a type other than that gives its handle only if it is gone and the handle came round. -/
  lookup : ∀ span blob s'', span.Lies memory → blob ≠ BlobId.discarded →
    s'.lookup span blob = .ok (some a, s'') → 0 < k ∧ 2 ^ 24 ∣ k
  /-- So does interning, under whatever type. -/
  intern : ∀ span lasting blob i s'', span.Lies memory → s'.internSpan span lasting blob = .ok (.ok i, s'') →
    i.atom = a → 0 < k ∧ 2 ^ 24 ∣ k

/-- An atom whose type was withdrawn since. -/
theorem Run.parted (hcheck : config.check = .ok ()) (h : Run (Span.Lies memory) (.empty heap config) events s)
    (hlater : Run (Span.Lies memory) s later s') (hsize : s'.table.slots.size < UInt32.size)
    (he : s.table.entry a = .ok e) (hgone : s'.table.blobs.isRegistered e.blob = false) :
    Parted memory s a (destructions later a.index.toNat) s' := by
  have hs := h.sound_of_empty hcheck
  have hrun := h.trans hlater
  have hs' := hrun.sound_of_empty hcheck
  have hcanonical := hrun.canonical_of_empty hcheck
  have hle := Nat.le_of_lt hsize
  have hfate := hlater.fate_of_entry hs hle he
  have hkept (hzero : destructions later a.index.toNat = 0) : ∃ e', s'.table.entry a = .ok e' ∧
      e'.payload = e.payload ∧ e'.blob = BlobId.discarded := by
    obtain ⟨e', he', hpayload, hblob⟩ := h.entry_retyped hcheck hlater hle he hzero
    rw [BlobRegistry.current, if_neg (by simp [hgone])] at hblob
    exact ⟨e', he', hpayload, hblob⟩
  refine ⟨fun hzero => ?_, fun span blob s'' hspan hblob hlookup => ?_, fun span lasting blob i s'' hspan hi ha => ?_⟩
  · obtain ⟨e', he', hpayload, hblob⟩ := hkept hzero
    exact ⟨e, e', he, he', hpayload, hblob⟩
  · have hexact := exact_of_canonical hcanonical hs' hsize hspan
    obtain ⟨found, s₁, hlookup', hsome, -⟩ := hexact.lookup blob
    rw [hlookup] at hlookup'
    cases hlookup'
    obtain ⟨e', _, he', hblob', -⟩ := hsome a rfl
    refine ⟨Nat.pos_of_ne_zero fun hzero => ?_, hfate.dvd he'⟩
    obtain ⟨e₁, he₁, -, hdiscarded⟩ := hkept hzero
    rw [he', Except.ok.injEq] at he₁
    exact hblob (hblob'.symm.trans (he₁ ▸ hdiscarded))
  · have hexact := exact_of_canonical hcanonical hs' hsize hspan
    obtain ⟨type, htype, hnot, -⟩ := hcanonical.discarded
    subst ha
    rcases hexact.interned hi with ⟨⟨e', type', he', hblob, htype', -⟩, hunique⟩ | ⟨hdead, s₁, e₁, hlocked, he₁⟩
    · refine ⟨Nat.pos_of_ne_zero fun hzero => ?_, hfate.dvd he'⟩
      obtain ⟨e₁, he₁, -, hdiscarded⟩ := hkept hzero
      rw [he', Except.ok.injEq] at he₁
      -- Discarded is not a unique type.
      rw [← hblob, he₁, hdiscarded] at hunique
      exact hnot (hunique type htype)
    · -- The atom is new, so the slot was emptied, and the handle is one that came round.
      refine ⟨Nat.pos_of_ne_zero fun hzero => ?_, ?_⟩
      · obtain ⟨e', he', -⟩ := hkept hzero
        exact hdead e' he'
      · have hcall : Call (Span.Lies memory) s' _ s₁ := .intern hspan hlocked
        have hone := (internLocked_outcome hs' hlocked).one hs'
        have hfate' := (hlater.call hcall).fate_of_entry hs (by omega) he
        rw [destructions_append, hcall.destructions] at hfate'
        exact hfate'.dvd he₁

/-- In every state that a run from a store without atoms leads to, each atom has a type that is in use, and a lookup
under a type that is not finds nothing. Withdrawing a type gives its atoms the discarded type and does nothing else;
the type stays out of use, and no other gives out one of its atoms or, while there are fewer types than numbers,
gets its number. -/
theorem withdrawal_exact (hcheck : config.check = .ok ())
    (h : Run (Span.Lies memory) (.empty heap config) events s) (hsize : s.table.slots.size < UInt32.size) :
    (∀ a e, s.table.entry a = .ok e → s.table.blobs.isRegistered e.blob = true) ∧
    (∀ span id, s.table.blobs.isRegistered id = false → s.table.lookup span id = .ok (none, s.table)) ∧
    (∀ id e, s.table.unregisterBlob id = .error e ↔
      e = .unknownBlob ∧ (id = BlobId.discarded ∨ s.table.blobs.isRegistered id = false)) ∧
    (∀ id e, s.table.unregisterBlob id = .error e →
      Table.attempt (fun t => return ((), ← t.unregisterBlob id)) s.table = (.error e, s.table)) ∧
    (∀ id t, s.table.unregisterBlob id = .ok t → Withdraws memory id s.table t ∧
      ∀ later s', Run (Span.Lies memory) { s with table := t } later s' →
        s'.table.blobs.isRegistered id = false ∧
        ∀ type id' t', s'.table.registerBlob type = .ok (id', t') → t'.blobs.Few →
          id' ≠ id ∧ id' ≠ BlobId.discarded) ∧
    ∀ a e later s', s.table.entry a = .ok e → Run (Span.Lies memory) s later s' →
      s'.table.slots.size < UInt32.size → s'.table.blobs.isRegistered e.blob = false →
      Parted memory s a (destructions later a.index.toNat) s' := by
  have hs := h.sound_of_empty hcheck
  have hcanonical := h.canonical_of_empty hcheck
  obtain ⟨⟨log, hlog⟩, htyped⟩ := h.types hcheck
  have hdiscarded := BlobRegistry.isRegistered_discarded hlog
  refine ⟨fun a e he => htyped _ e (Table.entry_eq_ok_iff.1 he).1,
    fun span id hreg => Table.lookup_of_unregistered hs htyped hreg span,
    fun id e => Table.unregisterBlob_eq_error_iff.trans BlobRegistry.unregister_eq_error_iff,
    fun id e hu => Table.unregisterBlob_attempt_of_error hu, fun id t hu => ⟨?_, fun later s' hlater => ?_⟩,
    fun a e later s' he hlater hsize' hgone => h.parted hcheck hlater hsize' he hgone⟩
  · exact hcanonical.withdraws hs htyped hdiscarded hsize hu
  · obtain ⟨blobs, hblobs, rfl⟩ := Table.unregisterBlob_eq hu
    have hrun := h.call (.unregisterBlob hu)
    obtain ⟨log', hlog'⟩ := hrun.history hcheck hlater
    obtain ⟨⟨_, hlog''⟩, -⟩ := (hrun.trans hlater).types hcheck
    have hreg : s.table.blobs.isRegistered id = true := (BlobRegistry.unregister_eq_ok_iff.1 hblobs).2.1
    have hlt : id.toNat < blobs.types.size :=
      (BlobRegistry.History.unregister hblobs).lt_size (BlobRegistry.lt_of_isRegistered hreg)
    refine ⟨?_, fun type id' t' hr hfew => ?_⟩
    · by_contra hback
      have hback := hlog'.isRegistered hlt (Bool.not_eq_false _ ▸ hback)
      rw [BlobRegistry.isRegistered_unregister hblobs] at hback
      simp at hback
    · obtain ⟨hr, -⟩ := Table.registerBlob_register hr
      have hstays := BlobRegistry.lt_of_isRegistered (BlobRegistry.isRegistered_discarded hlog'')
      have hnew : id'.toNat = s'.table.blobs.types.size := hfew.toNat_register hr
      refine ⟨fun heq => ?_, fun heq => ?_⟩
      · rw [← heq, hnew] at hlt
        exact Nat.lt_irrefl _ (hlog'.lt_size hlt)
      · rw [← heq, hnew] at hstays
        exact Nat.lt_irrefl _ hstays

/-- Text is withdrawn and registered again, and a string that was text is interned once more: as another atom. -/
theorem withdrawal_exact_renewed :
    ∃ s t s', Run (Span.Lies fun _ => [])
        (.empty (.empty ⟨32, 64, 2⟩ fun _ _ => true) { atomBuckets := 1, agcEnabled := false }) [.made ⟨0, 0⟩] s ∧
      s.table.unregisterBlob BlobId.text = .ok t ∧ Withdraws (fun _ => []) BlobId.text s.table t ∧
      Run (Span.Lies fun _ => []) s [.made ⟨1, 0⟩] s' ∧ Parted (fun _ => []) s ⟨0, 0⟩ 0 s' ∧
      s'.table.blobOf ⟨0, 0⟩ = .ok BlobId.discarded ∧ s'.table.blobOf ⟨1, 0⟩ = .ok 3 := by
  have bare := @Run.start (Span.Lies fun _ => [])
    (.empty (.empty ⟨32, 64, 2⟩ fun _ _ => true) { atomBuckets := 1, agcEnabled := false })
  have text := bare.intern { bytes := [120] } (Span.lies_of_bytes _ _) BlobId.text rfl
  have later {s₀ s : Store} {events : List Event} (_ : Run (Span.Lies fun _ => []) s₀ events s) :
      Run (Span.Lies fun _ => []) s [] s := .start
  have withdrawn := (later text).call (.unregisterBlob
    (Table.unregisterBlob_of_registered (rfl : BlobRegistry.unregister _ BlobId.text = .ok _)))
  have hname : (⟨BlobRegistry.initial.types.modify 0 fun t => { t with registered := false }⟩ :
      BlobRegistry).find? "text" = none := by cbv
  have renewed := withdrawn.call (.registerBlob
    (@Table.registerBlob_of_none _ { name := "text", flags := { unique := true } } hname))
  have again := renewed.intern { bytes := [120] } (Span.lies_of_bytes _ _) 3 rfl
  have hexact := withdrawal_exact rfl text (by decide)
  have hwithdraws := (hexact.2.2.2.2.1 BlobId.text _ (Table.unregisterBlob_of_registered rfl)).1
  have hparted := hexact.2.2.2.2.2 ⟨0, 0⟩ _ _ _ rfl again (by decide) rfl
  exact ⟨_, _, _, text, Table.unregisterBlob_of_registered rfl, hwithdraws, again, hparted, rfl, rfl⟩

/-- A lookup under the discarded type finds nothing before text is withdrawn, and then an atom that was text. -/
theorem lookup_discarded_differs :
    ∃ s t, Run (Span.Lies fun _ => [])
        (.empty (.empty ⟨32, 64, 2⟩ fun _ _ => true) { atomBuckets := 1, agcEnabled := false }) [.made ⟨0, 0⟩] s ∧
      s.table.unregisterBlob BlobId.text = .ok t ∧ BlobId.discarded ≠ BlobId.text ∧
      (s.table.lookup { bytes := [120] } BlobId.discarded).map Prod.fst = .ok none ∧
      (t.lookup { bytes := [120] } BlobId.discarded).map Prod.fst = .ok (some ⟨0, 0⟩) := by
  have bare := @Run.start (Span.Lies fun _ => [])
    (.empty (.empty ⟨32, 64, 2⟩ fun _ _ => true) { atomBuckets := 1, agcEnabled := false })
  have text := bare.intern { bytes := [120] } (Span.lies_of_bytes _ _) BlobId.text rfl
  exact ⟨_, _, text, Table.unregisterBlob_of_registered rfl, by decide, rfl, rfl⟩

end Store

end AtomHeap
