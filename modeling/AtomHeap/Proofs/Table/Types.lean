import AtomHeap.Proofs.Blob.History
import AtomHeap.Proofs.Table.Canonical
import AtomHeap.Proofs.Table.Links
import AtomHeap.Proofs.Table.Verdicts
/-!
# The types of atoms

The registry of a table is one that calls lead to, and a sweep asks the release hooks of its types but makes no call
(`sweep_silent`). An atom keeps the type it was made with for as long as that is in use, and has the discarded type
from then on (`Retypes`). So the type of each atom is in use at all times (`Typed`).
-/

namespace AtomHeap

/-- What the atoms of a type have as their type. -/
def BlobRegistry.current (r : BlobRegistry) (id : BlobId) : BlobId :=
  if r.isRegistered id then id else BlobId.discarded

theorem Entry.withdraw_blob (e : Entry) (id : BlobId) :
    (e.withdraw id).blob = if e.blob = id then BlobId.discarded else e.blob := by
  unfold withdraw
  split <;> rfl

namespace Table

variable {t t' t'' : Table} {index : Nat} {e e' : Entry} {a : Atom} {id blob : BlobId} {type : BlobType}
  {swept : Swept}

/-- The type of each atom is in use. -/
def Typed (t : Table) : Prop := ∀ i e, t.entryAt? i = some e → t.blobs.isRegistered e.blob = true

/-- One change of a table, by what becomes of the types of its atoms. -/
structure Retypes (t t' : Table) : Prop where
  history : ∃ log, BlobRegistry.History t.blobs log t'.blobs
  /-- An atom is made with a type that is in use. -/
  made : ∀ i e', t.entryAt? i = none → t'.entryAt? i = some e' → t'.blobs.isRegistered e'.blob = true
  /-- An atom gets the discarded type when its own is withdrawn. -/
  kept : ∀ i e e', t.entryAt? i = some e → t'.entryAt? i = some e' → e'.blob = t'.blobs.current e.blob

theorem Retypes.typed (h : Retypes t t') (hdiscarded : t'.blobs.isRegistered BlobId.discarded = true) :
    t'.Typed := by
  intro i e' he'
  cases he : t.entryAt? i with
  | none => exact h.made i e' he he'
  | some e =>
    rw [h.kept i e e' he he', BlobRegistry.current]
    split
    · assumption
    · exact hdiscarded

/-- Where no type is withdrawn, atoms keep theirs. -/
theorem Retypes.of_kept (ht : t.Typed) (hhistory : ∃ log, BlobRegistry.History t.blobs log t'.blobs)
    (hreg : ∀ id, t.blobs.isRegistered id = true → t'.blobs.isRegistered id = true)
    (hentries : ∀ i e', t'.entryAt? i = some e' → ∃ e, t.entryAt? i = some e ∧ e'.blob = e.blob) : Retypes t t' where
  history := hhistory
  made i e' he he' := by
    obtain ⟨e, he₀, -⟩ := hentries i e' he'
    rw [he] at he₀
    cases he₀
  kept i e e' he he' := by
    obtain ⟨e₀, he₀, hblob⟩ := hentries i e' he'
    rw [he] at he₀
    cases he₀
    rw [hblob, BlobRegistry.current, if_pos (hreg _ (ht i e he))]

theorem Retypes.of_blobs (ht : t.Typed) (hblobs : t'.blobs = t.blobs)
    (hentries : ∀ i e', t'.entryAt? i = some e' → ∃ e, t.entryAt? i = some e ∧ e'.blob = e.blob) : Retypes t t' :=
  .of_kept ht (hblobs ▸ ⟨[], .start⟩) (fun _ h => hblobs ▸ h) hentries

theorem Amended.blob_of_some (h : Amended t t') (he' : t'.entryAt? index = some e') :
    ∃ e, t.entryAt? index = some e ∧ e'.blob = e.blob := by
  have hentry := h.entryAt? index
  rw [he', Option.map_some, eq_comm, Option.map_eq_some_iff] at hentry
  obtain ⟨e, he, hfixed⟩ := hentry
  exact ⟨e, he, (congrArg (·.2.1) hfixed).symm⟩

theorem Retypes.of_amended (ht : t.Typed) (ha : Amended t t') (hblobs : t'.blobs = t.blobs) : Retypes t t' :=
  .of_blobs ht hblobs fun _ _ => ha.blob_of_some

theorem OnLinks.blobs (h : OnLinks t t') : t'.blobs = t.blobs := h.congr (·.blobs) fun _ _ _ => rfl

/-! ## Types come and go -/

theorem registerBlob_register (h : t.registerBlob type = .ok (id, t')) :
    t.blobs.register type = .ok (id, t'.blobs) ∧ t' = { t with blobs := t'.blobs } := by
  unfold registerBlob at h
  cases hr : t.blobs.register type with
  | error e =>
    rw [hr] at h
    cases h
  | ok x =>
    rw [hr] at h
    cases h
    exact ⟨rfl, rfl⟩

theorem Retypes.registerBlob (ht : t.Typed) (h : t.registerBlob type = .ok (id, t')) : Retypes t t' := by
  obtain ⟨hr, -⟩ := registerBlob_register h
  refine .of_kept ht ⟨_, .register hr⟩ (fun blob hreg => ?_) fun _ _ => (registerBlob_amended h).blob_of_some
  have hne : blob.toNat ≠ t.blobs.types.size := by
    obtain ⟨_, hid⟩ := BlobRegistry.isRegistered_iff.1 hreg
    exact Nat.ne_of_lt (BlobRegistry.lt_of_standing hid)
  have hstanding := BlobRegistry.standing_register hr blob
  rw [if_neg hne] at hstanding
  rw [BlobRegistry.isRegistered_congr hstanding, hreg]

theorem Retypes.unregisterBlob (ht : t.Typed) (h : t.unregisterBlob id = .ok t') : Retypes t t' := by
  have hentry := entryAt?_unregisterBlob h
  obtain ⟨blobs, hblobs, rfl⟩ := unregisterBlob_eq h
  refine ⟨⟨_, .unregister hblobs⟩, fun i e' he he' => ?_, fun i e e' he he' => ?_⟩
  · rw [hentry, he] at he'
    cases he'
  · rw [hentry, he] at he'
    cases he'
    unfold BlobRegistry.current
    rw [e.withdraw_blob, BlobRegistry.isRegistered_unregister hblobs, ht i e he]
    by_cases hid : e.blob = id <;> simp [hid]

/-! ## Atoms come and go -/

theorem Retypes.of_made {payload : Payload} {span : Span} {buckets : Nat} (ht : t.Typed) (hs : t.Sound buckets 0)
    (hreg : t.blobs.isRegistered blob = true) (hw : Wanted t span blob payload type)
    (hi : { t with bytes := t.bytes + payload.copied }.insert payload blob (Hash.ofBytes span.bytes) = .ok (a, t')) :
    Retypes t t' := by
  obtain ⟨index, g, -, hinserted, -⟩ := hs.made hw hi
  have hblobs : t'.blobs = t.blobs := by rw [hinserted.rest]
  refine ⟨hblobs ▸ ⟨[], .start⟩, fun i e' he he' => ?_, fun i e e' he he' => ?_⟩
  · rcases hinserted.of_some he' with ⟨-, hbare⟩ | ⟨-, e₀, he₀, -⟩
    · have hblob : blob = e'.blob := congrArg (·.blob) hbare
      rwa [hblobs, ← hblob]
    · exact absurd (he.symm.trans he₀) (by simp)
  · rcases hinserted.of_some he' with ⟨rfl, -⟩ | ⟨-, e₀, he₀, hbare⟩
    · exact absurd (he.symm.trans hinserted.vacant) (by simp)
    · cases he.symm.trans he₀
      have hblob : e.blob = e'.blob := congrArg (·.blob) hbare
      rw [BlobRegistry.current, hblobs, if_pos (ht i e he), hblob]

/-- What a sweep leaves was there before, but for marks. -/
theorem SweptBelow.blob_of_some {n : Nat} (h : SweptBelow t n swept t') (he' : t'.entryAt? index = some e') :
    ∃ e, t.entryAt? index = some e ∧ e'.blob = e.blob := by
  have hbare := map_bare_entryAt? t' index
  rw [h.slots index, he', Option.map_some] at hbare
  obtain ⟨_, hvisited, hentry⟩ := Option.bind_eq_some_iff.1 hbare.symm
  obtain ⟨s, hs, rfl⟩ := Option.map_eq_some_iff.1 hvisited
  have hold : ∃ e, s.entry = some e ∧ e.blob = e'.blob := by
    unfold visit at hentry
    split at hentry
    · obtain ⟨e, he, hbare⟩ := Option.map_eq_some_iff.1 hentry
      exact ⟨e, he, congrArg (·.blob) hbare⟩
    · split at hentry
      · cases hentry
      · obtain ⟨e, he, hbare⟩ := Option.map_eq_some_iff.1 hentry
        exact ⟨e, he, congrArg (·.blob) hbare⟩
  obtain ⟨e, he, hblob⟩ := hold
  exact ⟨e, entryAt?_eq_some_iff.2 ⟨s, hs, he⟩, hblob.symm⟩

theorem destroy_blobs {block : Option (Address × Nat)} (h : t.destroy index = .ok (block, t')) :
    t'.blobs = t.blobs := by
  cases destroy_cases h with
  | vacant => rfl
  | unlinked _ hunlink => exact (unlink_onLinks hunlink).blobs

theorem askRelease_silent {call : ReleaseCall} (h : t.askRelease blob a = some (call, t')) :
    BlobRegistry.History t.blobs [] t'.blobs := by
  unfold askRelease at h
  split at h
  · rename_i hask
    cases h
    exact .asked .start hask
  · obtain ⟨⟨hook, asked⟩, -, heq⟩ := Option.map_eq_some_iff.1 h
    cases heq
    exact .start

/-- A sweep does no more to a registry than to ask its hooks. -/
theorem sweep_silent (h : t.sweep = .ok (swept, t')) : BlobRegistry.History t.blobs [] t'.blobs := by
  obtain ⟨⟨swept₁, t₁⟩, hslots, h⟩ := bind_eq_ok_iff.1 h
  cases h
  have hswept := sweepSlots_induction (fun t t' => BlobRegistry.History t.blobs [] t'.blobs) (fun _ => .start)
    (fun h h' => h.trans h') (fun h => h.blobs ▸ .start) askRelease_silent (fun h => destroy_blobs h ▸ .start) hslots
  exact hswept

theorem Retypes.sweep {buckets : Nat} (ht : t.Typed) (hs : t.Sound buckets 0) (h : t.sweep = .ok (swept, t')) :
    Retypes t t' := by
  have hsilent := sweep_silent h
  refine .of_kept ht ⟨_, hsilent⟩ (fun id hreg => ?_) fun i e' he' => ?_
  · rwa [BlobRegistry.isRegistered_congr (congrFun hsilent.silent id)]
  · obtain ⟨swept', t₁, h', hbelow⟩ := hs.sweep_below
    rw [h, Except.ok.injEq, Prod.mk.injEq] at h'
    obtain ⟨-, rfl⟩ := h'
    exact hbelow.blob_of_some he'

end Table

end AtomHeap
