import AtomHeap.Proofs.Store.Custody
import AtomHeap.Proofs.Store.Types
import AtomHeap.Proofs.Text.Utf8
import AtomHeap.Proofs.Text.Wide
/-!
# Strings

A string is interned as text, by its UTF-8 bytes, or as wide text, by the numbers of its characters. Either way the
atom reads as the string for as long as its handle resolves and its type is in use, and is the atom of no other string
and of no other type (`strings_exact`): no two strings have the same bytes, and interning is exact. Bytes that are
interned as wide text read as one character for each group of four.
-/

namespace AtomHeap

/-- A type that strings can be interned as: it has one atom for a string, with a copy of its bytes, and no hook runs
when that is made. -/
def Table.Textual (t : Table) (blob : BlobId) : Prop :=
  ∃ type, t.blobs.get? blob = some type ∧ type.flags.unique = true ∧ type.flags.nocopy = false ∧ type.acquire = none

namespace Store

variable {memory : StaticMemory} {spans : Span → Prop} {s s₁ s' : Store} {events later : List Event} {config : Config}
  {heap : Heap} {span : Span} {lasting : Bool} {blob : BlobId} {type : BlobType} {a : Atom} {e : Entry}
  {text : String} {i : Interned} {encode : String → List UInt8}

/-! ## Interning without a hook -/

theorem Run.textual (hcheck : config.check = .ok ()) (h : Run spans (.empty heap config) events s)
    (hblob : (Store.empty heap config).table.Textual blob) : s.table.Textual blob := by
  obtain ⟨type, htype, hflags⟩ := hblob
  have hempty := Table.sound_empty (Table.atomBuckets_power hcheck) (heap.openPool).1
  exact ⟨type, hempty.types_changes (h.changes hempty) blob type htype, hflags⟩

theorem acquire_of_none (htype : s.table.blobs.get? blob = some type) (hnone : type.acquire = none) (a : Atom) :
    s.acquire blob a = .ok s := by
  unfold acquire
  simp only [htype, hnone]

/-- What comes after the answer is that a cycle is asked for. -/
theorem internSpan_heed (hcheck : config.check = .ok ()) (h : Run (Span.Lies memory) (.empty heap config) events s)
    (hblob : (Store.empty heap config).table.Textual blob) (hspan : span.Lies memory)
    (hi : s.internSpan span lasting blob = .ok (.ok i, s')) :
    ∃ s₁, s.internLocked span lasting blob = .ok (.ok i, s₁) ∧ Run (Span.Lies memory) s₁ [] s' := by
  cases internSpan_cases hi with
  | found hlocked => exact ⟨_, hlocked, Run.start.heed _⟩
  | made hlocked _ hacquire =>
    obtain ⟨type, htype, -, -, hnone⟩ := (h.call (.intern hspan hlocked)).textual hcheck hblob
    cases (acquire_of_none htype hnone _).symm.trans hacquire
    exact ⟨_, hlocked, Run.start.heed _⟩

/-! ## Atoms that stay -/

/-- A later state in which the handle of an atom still resolves, and the type of the atom is still in use. -/
structure Stays (memory : StaticMemory) (s : Store) (a : Atom) (blob : BlobId) (later : List Event) (s' : Store) :
    Prop where
  run : Run (Span.Lies memory) s later s'
  size : s'.table.slots.size < UInt32.size
  live : s'.table.isLive a = true
  /-- The handle did not come round to another atom. -/
  same : ¬ (0 < destructions later a.index.toNat ∧ 2 ^ 24 ∣ destructions later a.index.toNat)
  registered : s'.table.blobs.isRegistered blob = true

theorem Stays.of_run (h : Stays memory s a blob later s') (hrun : Run (Span.Lies memory) s₁ [] s) :
    Stays memory s₁ a blob later s' := by
  have hall := hrun.trans h.run
  rw [List.append_nil] at hall
  exact ⟨hall, h.size, h.live, h.same, h.registered⟩

theorem Stays.entry (hcheck : config.check = .ok ()) (h : Run (Span.Lies memory) (.empty heap config) events s)
    (hspan : span.Lies memory) (hi : s.internLocked span lasting blob = .ok (.ok i, s₁))
    (hstays : Stays memory s₁ i.atom blob later s') :
    ∃ e, s'.table.entry i.atom = .ok e ∧ e.blob = blob ∧ e.payload.bytes = span.bytes := by
  have hs := h.sound_of_empty hcheck
  have hcall : Call (Span.Lies memory) s _ s₁ := .intern hspan hi
  have h₁ := h.call hcall
  have hs₁ := h₁.sound_of_empty hcheck
  have hle := Nat.le_of_lt hstays.size
  have hsize : s.table.slots.size < UInt32.size :=
    Nat.lt_of_le_of_lt (Nat.le_trans (hs.size_changes (hcall.changes hs)) (hstays.run.aged hs₁ hle).size) hstays.size
  have hcanonical := h.canonical_of_empty hcheck
  have hcanonical₁ := h₁.canonical_of_empty hcheck
  obtain ⟨e, he, hblob, hbytes⟩ :=
    hcanonical₁.bytes hspan ((internLocked_outcome hs hi).stands hcanonical hs hsize hspan)
  -- The handle resolves and did not come round, so the slot was not emptied.
  have hzero : destructions later i.atom.index.toNat = 0 := by
    obtain ⟨e', he'⟩ := Table.isLive_iff.1 hstays.live
    by_contra hpos
    exact hstays.same ⟨Nat.pos_of_ne_zero hpos, (hstays.run.fate_of_entry hs₁ hle he).dvd he'⟩
  obtain ⟨e', he', hpayload, hblob'⟩ := h₁.entry_retyped hcheck hstays.run hle he hzero
  refine ⟨e', he', ?_, hpayload ▸ hbytes⟩
  rw [hblob', hblob, BlobRegistry.current, if_pos hstays.registered]

/-! ## Atoms of strings -/

theorem stringOf_of_entry (he : s.table.entry a = .ok e) : s.stringOf a =
    .ok (if e.blob = BlobId.wide then Text.ofWide e.payload.bytes else Text.ofUtf8 e.payload.bytes) := by
  unfold stringOf
  rw [he]
  rfl

/-- An atom is that of a string, where strings are interned as a type. -/
structure Spells (memory : StaticMemory)
    (put : Store → String → Except Fault (Except AtomError Interned × Store)) (blob : BlobId) (text : String)
    (s : Store) (a : Atom) : Prop where
  string : s.stringOf a = .ok text
  /-- Interning the string gives it again, and interning another does not. -/
  again : ∃ s', put s text = .ok (.ok ⟨a, false, false⟩, s')
  only : ∀ text' i s', put s text' = .ok (.ok i, s') → (i.atom = a ↔ text' = text)
  /-- Interning whatever bytes as another type gives another atom. -/
  other : ∀ span lasting blob' i s', span.Lies memory → blob' ≠ blob →
    s.internSpan span lasting blob' = .ok (.ok i, s') → i.atom ≠ a

theorem spells_of_entry (hexact : ∀ span, span.Lies memory → s.Exact span) (htextual : s.table.Textual blob)
    (hreg : s.table.blobs.isRegistered blob = true) (hencode : Function.Injective encode)
    (he : s.table.entry a = .ok e) (hblob : e.blob = blob) (hbytes : e.payload.bytes = encode text)
    (hstring : s.stringOf a = .ok text) :
    Spells memory (fun s text => s.intern { bytes := encode text } blob) blob text s a := by
  obtain ⟨type, htype, hunique, hcopied, -⟩ := htextual
  have hexact' (text' : String) : s.Exact { bytes := encode text' } := hexact _ (Span.lies_of_bytes memory _)
  have hstands : s.table.Stands a blob { bytes := encode text } := by
    refine ⟨e, type, he, hblob, htype, ?_⟩
    unfold Payload.IsFor
    rw [hcopied]
    exact hbytes
  have hagain := (hexact' text).found blob type hreg htype hunique a hstands false
  refine ⟨hstring, hagain, fun text' i s' hi => ⟨?_, ?_⟩, ?_⟩
  · rintro rfl
    rcases (hexact' text').interned hi with ⟨⟨e', type', he', -, htype', hfor⟩, -⟩ | ⟨hdead, -⟩
    · cases he.symm.trans he'
      cases htype.symm.trans htype'
      unfold Payload.IsFor at hfor
      rw [hcopied] at hfor
      exact hencode (hfor.symm.trans hbytes)
    · exact absurd he (hdead e)
  · rintro rfl
    obtain ⟨s'', hagain⟩ := hagain
    cases hagain.symm.trans hi
    rfl
  · rintro span lasting blob' i s' hspan hne hi rfl
    rcases (hexact span hspan).interned hi with ⟨⟨e', type', he', hblob', -⟩, -⟩ | ⟨hdead, -⟩
    · cases he.symm.trans he'
      exact hne (hblob'.symm.trans hblob)
    · exact absurd he (hdead e)

/-- Strings that are interned as a type read back. -/
theorem Stays.spells (hcheck : config.check = .ok ()) (h : Run (Span.Lies memory) (.empty heap config) events s)
    (hblob : (Store.empty heap config).table.Textual blob) (hencode : Function.Injective encode)
    (hi : s.intern { bytes := encode text } blob = .ok (.ok i, s₁)) (hstays : Stays memory s₁ i.atom blob later s')
    (hstring : ∀ e : Entry, e.blob = blob → e.payload.bytes = encode text →
      (if e.blob = BlobId.wide then Text.ofWide e.payload.bytes else Text.ofUtf8 e.payload.bytes) = text) :
    Spells memory (fun s text => s.intern { bytes := encode text } blob) blob text s' i.atom := by
  have hspan := Span.lies_of_bytes memory (encode text)
  obtain ⟨s₂, hlocked, hquiet⟩ := internSpan_heed hcheck h hblob hspan hi
  have hrun := (h.call (.intern hspan hlocked)).trans hquiet |>.trans hstays.run
  obtain ⟨e, he, hb, hbytes⟩ := (hstays.of_run hquiet).entry hcheck h hspan hlocked
  refine spells_of_entry (fun span hlies => interning_exact hcheck hrun hstays.size hlies) (hrun.textual hcheck hblob)
    hstays.registered hencode he hb hbytes ?_
  rw [stringOf_of_entry he, hstring e hb hbytes]

/-- In every run from a store without atoms, a string that is interned, as text or as wide text, reads back for as
long as the handle resolves and the type is in use. It has one atom of that type, which no other string has, and the
atoms of the two types are not the same. Bytes interned as wide text read as what their groups of four say. -/
theorem strings_exact (hcheck : config.check = .ok ())
    (h : Run (Span.Lies memory) (.empty heap config) events s) :
    (∀ text i s₁ later s', s.internStr text = .ok (.ok i, s₁) → Stays memory s₁ i.atom BlobId.text later s' →
      Spells memory internStr BlobId.text text s' i.atom) ∧
    (∀ text i s₁ later s', s.internWide text = .ok (.ok i, s₁) → Stays memory s₁ i.atom BlobId.wide later s' →
      Spells memory internWide BlobId.wide text s' i.atom) ∧
    ∀ span lasting i s₁ later s', span.Lies memory → s.internSpan span lasting BlobId.wide = .ok (.ok i, s₁) →
      Stays memory s₁ i.atom BlobId.wide later s' →
      ∃ text, s'.stringOf i.atom = .ok text ∧ Text.ReadsWide span.bytes text := by
  refine ⟨fun text i s₁ later s' hi hstays => ?_, fun text i s₁ later s' hi hstays => ?_,
    fun span lasting i s₁ later s' hspan hi hstays => ?_⟩
  · refine hstays.spells hcheck h ⟨_, rfl, rfl, rfl, rfl⟩ Text.utf8Bytes_injective hi fun e hb hbytes => ?_
    rw [hb, if_neg (by decide), hbytes, Text.ofUtf8_utf8Bytes]
  · refine hstays.spells hcheck h ⟨_, rfl, rfl, rfl, rfl⟩ Text.wideBytes_injective hi fun e hb hbytes => ?_
    rw [hb, if_pos rfl, hbytes, Text.ofWide_wideBytes]
  · obtain ⟨s₂, hlocked, hquiet⟩ := internSpan_heed hcheck h ⟨_, rfl, rfl, rfl, rfl⟩ hspan hi
    obtain ⟨e, he, hb, hbytes⟩ := (hstays.of_run hquiet).entry hcheck h hspan hlocked
    refine ⟨_, stringOf_of_entry he, ?_⟩
    rw [if_pos hb, hbytes]
    exact Text.ofWide_reads span.bytes

/-- A wide string, and a string whose UTF-8 bytes are the same. -/
theorem strings_exact_same_bytes :
    ∃ s, Run (Span.Lies fun _ => [])
        (.empty (.empty ⟨32, 64, 2⟩ fun _ _ => true) { atomBuckets := 1, agcEnabled := false })
        [.made ⟨1, 0⟩, .made ⟨0, 0⟩] s ∧
      Spells (fun _ => []) internWide BlobId.wide "a" s ⟨0, 0⟩ ∧
      Spells (fun _ => []) internStr BlobId.text "a\x00\x00\x00" s ⟨1, 0⟩ ∧
      s.table.bytesOf ⟨0, 0⟩ = s.table.bytesOf ⟨1, 0⟩ := by
  have bare := @Run.start (Span.Lies fun _ => [])
    (.empty (.empty ⟨32, 64, 2⟩ fun _ _ => true) { atomBuckets := 1, agcEnabled := false })
  have wide := bare.intern { bytes := Text.wideBytes "a" } (Span.lies_of_bytes _ _) BlobId.wide rfl
  have later {s₀ s : Store} {events : List Event} (_ : Run (Span.Lies fun _ => []) s₀ events s) :
      Run (Span.Lies fun _ => []) s [] s := .start
  have narrow := (later wide).intern { bytes := Text.utf8Bytes "a\x00\x00\x00" } (Span.lies_of_bytes _ _)
    BlobId.text rfl
  have hwide := (strings_exact rfl bare).2.1 "a" _ _ _ _ rfl ⟨narrow, by decide, rfl, by decide, rfl⟩
  have hnarrow := (strings_exact rfl wide).1 "a\x00\x00\x00" _ _ _ _ rfl ⟨later narrow, by decide, rfl, by decide, rfl⟩
  exact ⟨_, wide.trans narrow, hwide, hnarrow, rfl⟩

end Store

end AtomHeap
