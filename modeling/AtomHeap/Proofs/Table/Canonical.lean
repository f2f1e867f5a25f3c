import AtomHeap.Proofs.Table.Change
/-!
# Canonical tables

`Table.Canonical t`: no two slots of `t` hold the same data of a unique type. For a type that does not
copy, the data are the bytes at one place; that bytes at one place are the same at all times is what
`Span.Lies` demands of the spans that callers hand over.
-/

namespace AtomHeap

/-- Lasting memory: the bytes under each label. -/
abbrev StaticMemory := String → List UInt8

/-- The bytes at a place. -/
def StaticMemory.at (memory : StaticMemory) (place : StaticPlace) (length : Nat) : List UInt8 :=
  ((memory place.label).drop place.offset).take length

/-- The bytes of a span that has a place are the ones that lie there. -/
def Span.Lies (memory : StaticMemory) (span : Span) : Prop :=
  ∀ place ∈ span.place, span.bytes = memory.at place span.bytes.length

theorem Span.lies_of_bytes (memory : StaticMemory) (bytes : List UInt8) : Span.Lies memory { bytes } := nofun

/-- A payload is for a span: it has the same bytes or, where nothing is copied, is those very bytes. -/
def Payload.IsFor (p : Payload) (span : Span) (nocopy : Bool) : Prop :=
  if nocopy then p.isAt span = true else p.bytes = span.bytes

/-- Two payloads are the same data. -/
def Payload.Same (p q : Payload) (nocopy : Bool) : Prop := if nocopy then p = q else p.bytes = q.bytes

theorem Payload.Same.symm {p q : Payload} {nocopy : Bool} (h : p.Same q nocopy) : q.Same p nocopy := by
  unfold Same at h ⊢
  cases nocopy with
  | false => exact Eq.symm h
  | true => exact Eq.symm h

namespace Table

variable {memory : StaticMemory} {spans : Span → Prop} {t t' : Table} {buckets index i j : Nat} {e e' : Entry}
  {span : Span}
  {blob id : BlobId} {type : BlobType} {p q : Payload} {nocopy : Bool}

/-- No two slots hold the same data of a unique type. -/
structure Canonical (memory : StaticMemory) (t : Table) : Prop where
  /-- Payloads are kept where the type says so. -/
  typed : ∀ i e, t.entryAt? i = some e → ∃ type, t.blobs.get? e.blob = some type ∧
    (type.flags.nocopy → ∃ place bytes, e.payload = .kept place bytes)
  /-- Bytes that are kept are those that lie there. -/
  lies : ∀ i e, t.entryAt? i = some e → ∀ place bytes, e.payload = .kept place bytes →
    bytes = memory.at place bytes.length
  /-- The type of atoms whose own type was withdrawn is not unique. -/
  discarded : ∃ type, t.blobs.get? BlobId.discarded = some type ∧ ¬ type.flags.unique ∧ ¬ type.flags.nocopy
  unique : ∀ i j e e' type, t.entryAt? i = some e → t.entryAt? j = some e' → e.blob = e'.blob →
    t.blobs.get? e.blob = some type → type.flags.unique → e.payload.Same e'.payload type.flags.nocopy → i = j

/-- The type of an entry is the same in the registry that a change left. -/
theorem Canonical.get_of_extends (h : t.Canonical memory) (he : t.entryAt? i = some e)
    (hext : t.blobs.Extends t'.blobs) (hget : t'.blobs.get? e.blob = some type) :
    t.blobs.get? e.blob = some type := by
  obtain ⟨type', htype, -⟩ := h.typed i e he
  rw [hext _ _ htype] at hget
  rw [htype, hget]

/-- Whatever keeps payloads and types, or loses entries, keeps a table canonical. -/
theorem Canonical.mono (h : t.Canonical memory) (hext : t.blobs.Extends t'.blobs)
    (hold : ∀ i e', t'.entryAt? i = some e' →
      ∃ e, t.entryAt? i = some e ∧ e.payload = e'.payload ∧ e.blob = e'.blob) :
    t'.Canonical memory where
  typed i e' he' := by
    obtain ⟨e, he, hpayload, hblob⟩ := hold i e' he'
    obtain ⟨type, htype, hkept⟩ := h.typed i e he
    refine ⟨type, hext _ _ (hblob ▸ htype), fun hn => ?_⟩
    rw [← hpayload]
    exact hkept hn
  lies i e' he' := by
    obtain ⟨e, he, hpayload, -⟩ := hold i e' he'
    rw [← hpayload]
    exact h.lies i e he
  discarded := by
    obtain ⟨type, htype, hflags⟩ := h.discarded
    exact ⟨type, hext _ _ htype, hflags⟩
  unique i j e₁' e₂' type h₁ h₂ hblob htype hunique hsame := by
    obtain ⟨e₁, he₁, hp₁, hb₁⟩ := hold i e₁' h₁
    obtain ⟨e₂, he₂, hp₂, hb₂⟩ := hold j e₂' h₂
    rw [← hb₁] at htype
    refine h.unique i j e₁ e₂ type he₁ he₂ ?_ (h.get_of_extends he₁ hext htype) hunique ?_
    · rw [hb₁, hb₂, hblob]
    · rwa [hp₁, hp₂]

theorem Canonical.amended (h : t.Canonical memory) (ha : Amended t t') : t'.Canonical memory := by
  apply h.mono ha.blobs
  intro i e' he'
  have := ha.entryAt? i
  rw [he', Option.map_some, eq_comm, Option.map_eq_some_iff] at this
  obtain ⟨e, he, hfixed⟩ := this
  exact ⟨e, he, congrArg (·.1) hfixed, congrArg (·.2.1) hfixed⟩

theorem Canonical.destroyed (h : t.Canonical memory) (hd : Destroyed t index e t') : t'.Canonical memory := by
  apply h.mono (by rw [hd.rest]; exact fun _ _ h => h)
  intro i e' he'
  obtain ⟨-, e₀, he₀, hbare⟩ := hd.of_some he'
  exact ⟨e₀, he₀, congrArg (·.payload) hbare, congrArg (·.blob) hbare⟩

theorem unregister_extends {r r' : BlobRegistry} (h : r.unregister id = .ok r') : r.Extends r' := by
  unfold BlobRegistry.unregister at h
  split at h
  · cases h
    intro i type hi
    unfold BlobRegistry.get? at hi ⊢
    rw [Array.getElem?_modify]
    split
    · rwa [Option.map_map]
    · exact hi
  · cases h

theorem unregisterBlob_extends (hu : t.unregisterBlob id = .ok t') : t.blobs.Extends t'.blobs := by
  obtain ⟨blobs, hblobs, rfl⟩ := unregisterBlob_eq hu
  exact unregister_extends hblobs

/-- Relabelled atoms get a type that is not unique, so it does not matter which of them are the same. -/
theorem Canonical.unregisterBlob (h : t.Canonical memory) (hu : t.unregisterBlob id = .ok t') :
    t'.Canonical memory := by
  have hext := unregisterBlob_extends hu
  obtain ⟨discarded, hdiscarded, hnotUnique, hcopied⟩ := h.discarded
  have hold : ∀ i e', t'.entryAt? i = some e' → ∃ e, t.entryAt? i = some e ∧ e.withdraw id = e' := by
    intro i e' he'
    rwa [entryAt?_unregisterBlob hu, Option.map_eq_some_iff] at he'
  refine ⟨?_, ?_, ⟨discarded, hext _ _ hdiscarded, hnotUnique, hcopied⟩, ?_⟩
  · intro i e' he'
    obtain ⟨e, he, rfl⟩ := hold i e' he'
    by_cases hid : e.blob = id
    · refine ⟨discarded, ?_, fun hn => absurd hn hcopied⟩
      unfold Entry.withdraw
      rw [if_pos hid]
      exact hext _ _ hdiscarded
    · obtain ⟨type, htype, hkept⟩ := h.typed i e he
      unfold Entry.withdraw
      rw [if_neg hid]
      exact ⟨type, hext _ _ htype, hkept⟩
  · intro i e' he'
    obtain ⟨e, he, rfl⟩ := hold i e' he'
    rw [Entry.withdraw_payload]
    exact h.lies i e he
  · intro i j e₁' e₂' type h₁ h₂ hblob htype hunique hsame
    obtain ⟨e₁, he₁, rfl⟩ := hold i e₁' h₁
    obtain ⟨e₂, he₂, rfl⟩ := hold j e₂' h₂
    have hkeep : ∀ e : Entry, (e.withdraw id).blob ≠ BlobId.discarded → (e.withdraw id).blob = e.blob := by
      intro e hne
      unfold Entry.withdraw at hne ⊢
      split
      · rename_i hid
        rw [if_pos hid] at hne
        exact absurd rfl hne
      · rfl
    have hne : (e₁.withdraw id).blob ≠ BlobId.discarded := by
      intro heq
      rw [heq, hext _ _ hdiscarded, Option.some.injEq] at htype
      exact hnotUnique (htype ▸ hunique)
    have hb₁ := hkeep e₁ hne
    have hb₂ := hkeep e₂ (hblob ▸ hne)
    rw [Entry.withdraw_payload, Entry.withdraw_payload] at hsame
    rw [hb₁, hb₂] at hblob
    rw [hb₁] at htype
    exact h.unique i j e₁ e₂ type he₁ he₂ hblob (h.get_of_extends he₁ hext htype) hunique hsame

/-! ## Entries for a span -/

theorem isAt_iff : p.isAt span = true ↔
    ∃ place bytes, p = .kept place bytes ∧ span.place = some place ∧ bytes.length = span.bytes.length := by
  unfold Payload.isAt
  constructor
  · intro h
    split at h
    · rename_i place bytes place' hplace
      rw [Bool.and_eq_true, beq_iff_eq, beq_iff_eq] at h
      exact ⟨place, bytes, rfl, h.1 ▸ hplace, h.2⟩
    · cases h
  · rintro ⟨place, bytes, rfl, hplace, hlength⟩
    simp [hplace, hlength]

theorem bytes_of_isAt (hp : ∀ place bytes, p = .kept place bytes → bytes = memory.at place bytes.length)
    (hspan : span.Lies memory) (h : p.isAt span = true) : p.bytes = span.bytes := by
  obtain ⟨place, bytes, rfl, hplace, hlength⟩ := isAt_iff.1 h
  rw [Payload.bytes, hp place bytes rfl, hspan place hplace, hlength]

theorem isFor_iff (hhash : e.hash = Hash.ofBytes e.payload.bytes)
    (hp : ∀ place bytes, e.payload = .kept place bytes → bytes = memory.at place bytes.length)
    (hspan : span.Lies memory) :
    isFor e (Hash.ofBytes span.bytes) span blob nocopy = true ↔ e.blob = blob ∧ e.payload.IsFor span nocopy := by
  unfold isFor Payload.IsFor
  cases nocopy with
  | false =>
    simp only [Bool.and_eq_true, beq_iff_eq, Bool.false_eq_true, if_false]
    constructor
    · rintro ⟨⟨-, hblob⟩, hbytes⟩
      exact ⟨hblob, hbytes⟩
    · rintro ⟨hblob, hbytes⟩
      exact ⟨⟨by rw [hhash, hbytes], hblob⟩, hbytes⟩
  | true =>
    simp only [Bool.and_eq_true, beq_iff_eq, if_true]
    constructor
    · rintro ⟨⟨-, hblob⟩, hat⟩
      exact ⟨hblob, hat⟩
    · rintro ⟨hblob, hat⟩
      exact ⟨⟨by rw [hhash, bytes_of_isAt hp hspan hat], hblob⟩, hat⟩

/-- What a search passes is for the span, whatever lies in lasting memory. -/
theorem payload_isFor {hash : UInt64} (h : isFor e hash span blob nocopy = true) : e.payload.IsFor span nocopy := by
  unfold isFor at h
  unfold Payload.IsFor
  cases nocopy with
  | false => exact beq_iff_eq.1 ((Bool.and_eq_true _ _).mp h).2
  | true => exact ((Bool.and_eq_true _ _).mp h).2

theorem Canonical.bytes_of_isFor (h : t.Canonical memory) (hspan : span.Lies memory)
    (he : t.entryAt? i = some e) (hfor : e.payload.IsFor span nocopy) : e.payload.bytes = span.bytes := by
  unfold Payload.IsFor at hfor
  split at hfor
  · exact bytes_of_isAt (h.lies i e he) hspan hfor
  · exact hfor

theorem same_of_isFor (hp : p.IsFor span nocopy) (hq : q.IsFor span nocopy)
    (hlp : ∀ place bytes, p = .kept place bytes → bytes = memory.at place bytes.length)
    (hlq : ∀ place bytes, q = .kept place bytes → bytes = memory.at place bytes.length)
    (hspan : span.Lies memory) :
    p.Same q nocopy := by
  unfold Payload.IsFor at hp hq
  unfold Payload.Same
  cases nocopy with
  | false => exact hp.trans hq.symm
  | true =>
    have hbytes := (bytes_of_isAt hlp hspan hp).trans (bytes_of_isAt hlq hspan hq).symm
    obtain ⟨place, bytes, rfl, hplace, -⟩ := isAt_iff.1 hp
    obtain ⟨place', bytes', rfl, hplace', -⟩ := isAt_iff.1 hq
    rw [hplace, Option.some.injEq] at hplace'
    rw [if_pos rfl, hplace', show bytes = bytes' from hbytes]

theorem isFor_of_same (h : p.Same q nocopy) (hq : q.IsFor span nocopy) : p.IsFor span nocopy := by
  unfold Payload.Same at h
  unfold Payload.IsFor at hq ⊢
  cases nocopy with
  | false => exact Eq.trans h hq
  | true =>
    rw [if_pos rfl] at h
    rwa [h]

/-- The payload of a wanted atom is for its span. -/
theorem Wanted.isFor (h : Wanted t span blob p type) : p.IsFor span type.flags.nocopy := by
  unfold Payload.IsFor
  split
  · rename_i hn
    obtain ⟨place, hplace, hp⟩ := h.kept hn
    exact isAt_iff.2 ⟨place, span.bytes, hp, hplace, rfl⟩
  · exact h.bytes

/-! ## Changes keep tables canonical -/

/-- A payload that keeps bytes keeps those that lie at their place. -/
theorem Wanted.lies (hw : Wanted t span blob p type) (hspan : span.Lies memory) :
    ∀ place bytes, p = .kept place bytes → bytes = memory.at place bytes.length := by
  rintro place bytes rfl
  by_cases hn : type.flags.nocopy
  · obtain ⟨place', hplace, heq⟩ := hw.kept hn
    cases heq
    exact hspan place hplace
  · exact absurd rfl (hw.copied hn place bytes)

/-- No atom of a unique type has the data of one that is to be made. -/
theorem Canonical.fresh (h : t.Canonical memory) (hs : t.Sound buckets 0) (hspan : span.Lies memory)
    (hw : Wanted t span blob p type) {i : Nat} {e : Entry} {type' : BlobType} (he : t.entryAt? i = some e)
    (hblob : e.blob = blob) (htype : t.blobs.get? blob = some type') (hunique : type'.flags.unique) :
    ¬ e.payload.Same p type'.flags.nocopy := by
  intro hsame
  rw [hw.registered, Option.some.injEq] at htype
  subst htype
  refine hw.fresh hunique i e he ((isFor_iff (hs.accounted.hash i e he) (h.lies i e he) hspan).2 ⟨hblob, ?_⟩)
  exact isFor_of_same hsame hw.isFor

/-- A new atom is the only one for its span if its type is unique. -/
theorem Canonical.made (h : t.Canonical memory) (hs : t.Sound buckets 0) (hspan : span.Lies memory)
    (hw : Wanted t span blob p type) {g : BitVec 24} {marked : Bool}
    (hi : Inserted { t with bytes := t.bytes + p.copied }
      { payload := p, blob, hash := Hash.ofBytes span.bytes, marked } index g t') : t'.Canonical memory := by
  have hblobs : t'.blobs = t.blobs := by rw [hi.rest]
  -- What is in a slot now is the new entry or was there before, apart from its link.
  have hcases : ∀ i e', t'.entryAt? i = some e' → (i = index ∧ e'.payload = p ∧ e'.blob = blob) ∨
      (i ≠ index ∧ ∃ e, t.entryAt? i = some e ∧ e.payload = e'.payload ∧ e.blob = e'.blob) := by
    intro i e' he'
    rcases hi.of_some he' with ⟨hi, hbare⟩ | ⟨hi, e, he, hbare⟩
    · exact .inl ⟨hi, (congrArg (·.payload) hbare).symm, (congrArg (·.blob) hbare).symm⟩
    · exact .inr ⟨hi, e, he, congrArg (·.payload) hbare, congrArg (·.blob) hbare⟩
  refine ⟨?_, ?_, ?_, ?_⟩
  · intro i e' he'
    rw [hblobs]
    rcases hcases i e' he' with ⟨-, hp, hb⟩ | ⟨-, e, he, hp, hb⟩
    · rw [hp, hb]
      exact ⟨type, hw.registered, fun hn => by
        obtain ⟨place, -, hp⟩ := hw.kept hn
        exact ⟨place, _, hp⟩⟩
    · rw [← hp, ← hb]
      exact h.typed i e he
  · intro i e' he'
    rcases hcases i e' he' with ⟨-, hp, -⟩ | ⟨-, e, he, hp, -⟩
    · rw [hp]
      exact hw.lies hspan
    · rw [← hp]
      exact h.lies i e he
  · rw [hblobs]
    exact h.discarded
  · intro i j e₁' e₂' type' h₁ h₂ hblob htype hunique hsame
    rw [hblobs] at htype
    rcases hcases i e₁' h₁ with ⟨hi₁, hp₁, hb₁⟩ | ⟨-, e₁, he₁, hp₁, hb₁⟩ <;>
      rcases hcases j e₂' h₂ with ⟨hi₂, hp₂, hb₂⟩ | ⟨-, e₂, he₂, hp₂, hb₂⟩
    · rw [hi₁, hi₂]
    · rw [hp₁, ← hp₂] at hsame
      rw [hb₁] at htype hblob
      exact absurd hsame.symm (h.fresh hs hspan hw he₂ (hb₂.trans hblob.symm) htype hunique)
    · rw [hp₂, ← hp₁] at hsame
      rw [hblob, hb₂] at htype
      exact absurd hsame (h.fresh hs hspan hw he₁ (hb₁.trans (hblob.trans hb₂)) htype hunique)
    · rw [← hp₁, ← hp₂] at hsame
      rw [← hb₁] at htype hblob
      rw [← hb₂] at hblob
      exact h.unique i j e₁ e₂ type' he₁ he₂ hblob htype hunique hsame

theorem Canonical.change (h : t.Canonical memory) (hs : t.Sound buckets 0)
    (hc : Change (Span.Lies memory) t t') :
    t'.Canonical memory := by
  cases hc with
  | amended ha => exact h.amended ha
  | made hspan hw hi =>
    obtain ⟨index, g, -, hinserted, -⟩ := hs.made hw hi
    exact h.made hs hspan hw hinserted
  | destroyed he hle hd =>
    obtain ⟨t₁, hd', hdestroyed, -⟩ := hs.destroy he hle
    rw [hd'] at hd
    cases hd
    exact h.destroyed hdestroyed
  | relabelled hu => exact h.unregisterBlob hu
  | locked => exact h.mono (fun _ _ h => h) fun i e he => ⟨e, he, rfl, rfl⟩

theorem Canonical.changes (h : t.Canonical memory) (hs : t.Sound buckets 0)
    (hc : Changes (Span.Lies memory) t t') :
    t'.Canonical memory := by
  induction hc with
  | refl => exact h
  | tail hcs hc ih => exact ih.change (hs.changes hcs) hc

theorem canonical_empty (memory : StaticMemory) (config : Config) (pool : PoolId) :
    (empty config pool).Canonical memory where
  typed i e he := by simp [entryAt?, empty] at he
  lies i e he := by simp [entryAt?, empty] at he
  discarded := ⟨_, rfl, nofun, nofun⟩
  unique i j e e' type he := by simp [entryAt?, empty] at he

end Table

end AtomHeap
