import AtomHeap.Proofs.Store.Intact
import AtomHeap.Proofs.Store.Refusals
import AtomHeap.Proofs.Table.Types
/-!
# Types over a run

What a run does to the registry of its table is a history of calls (`Run.types`), and each atom has a type that is in
use (`Run.typed`). An atom whose slot was not emptied has the data it was made of, and its type is the one it was made
with or, if that was withdrawn since, the discarded one (`Run.retyped`).
-/

namespace AtomHeap

namespace BlobRegistry

variable {r r' : BlobRegistry} {id : BlobId} {log : Log}

/-- It does not matter whether a type was known to be withdrawn before. -/
theorem History.current (h : History r log r') (hlt : id.toNat < r.types.size) :
    r'.current (r.current id) = r'.current id := by
  unfold BlobRegistry.current
  cases hreg : r'.isRegistered id with
  | true => rw [if_pos (h.isRegistered hlt hreg), if_pos rfl, if_pos hreg]
  | false =>
    split
    · rw [if_neg (by simp [hreg]), if_neg Bool.false_ne_true]
    · rw [if_neg Bool.false_ne_true, ite_self]

theorem isRegistered_discarded (h : History initial log r) : r.isRegistered BlobId.discarded = true := by
  obtain ⟨type, hid, -⟩ := h.tracks.discarded_inUse
  exact isRegistered_iff.2 ⟨type, h.tracks.standing_iff.2 hid⟩

theorem lt_of_isRegistered (h : r.isRegistered id = true) : id.toNat < r.types.size := by
  obtain ⟨type, hid⟩ := isRegistered_iff.1 h
  exact lt_of_standing hid

end BlobRegistry

/-- An atom whose slot was not emptied is still there, with its data. -/
theorem Table.Aged.entryAt? {n : Nat → Nat} {t t' : Table} {i : Nat} {e : Entry} (h : Table.Aged n t t')
    (hn : n i = 0) (he : t.entryAt? i = some e) : ∃ e', t'.entryAt? i = some e' ∧ e'.payload = e.payload := by
  obtain ⟨slot, hslot, hse⟩ := Table.entryAt?_eq_some_iff.1 he
  obtain ⟨slot', hslot', -, hkept⟩ := h i slot hslot
  obtain ⟨e', he', hpayload⟩ := hkept hn e hse
  exact ⟨e', Table.entryAt?_eq_some_iff.2 ⟨slot', hslot', he'⟩, hpayload⟩

namespace Store

open Table (Retypes)

variable {spans : Span → Prop} {s s₀ s' : Store} {events later : List Event} {buckets i : Nat} {span : Span}
  {lasting : Bool} {blob : BlobId} {e : Entry} {a : Atom} {config : Config} {heap : Heap}

theorem internLocked_registered {r : Interned} (h : s.internLocked span lasting blob = .ok (.ok r, s')) :
    s.table.blobs.isRegistered blob = true := by
  cases hreg : s.table.blobs.isRegistered blob with
  | true => rfl
  | false =>
    rw [internLocked_of_unregistered hreg] at h
    cases h

theorem Call.retypes (hs : s.table.Sound buckets 0) (ht : s.table.Typed) (h : Call spans s events s') :
    Retypes s.table s'.table := by
  cases h with
  | @intern _ _ _ _ r _ h =>
    have houtcome := internLocked_outcome hs h
    cases houtcome with
    | found _ _ _ hreuse => exact .of_amended ht (Table.reuse_amended hreuse) (Table.reuse_onLinks hreuse).blobs
    | made hwanted hinsert => exact .of_made ht hs (internLocked_registered h) hwanted hinsert
  | internRefused _ h =>
    have htable := (internLocked_untouched h).table
    rw [htable]
    exact .of_amended ht (.refl _) rfl
  | lookup _ h =>
    have htable := lookup_table h
    exact .of_amended ht (Table.lookup_amended htable) (Table.lookup_onLinks htable).blobs
  | register a => exact .of_amended ht (Table.register_amended _ a) (Table.register_onLinks _ a).blobs
  | unregister a => exact .of_amended ht (Table.unregister_amended _ a) (Table.unregister_onLinks _ a).blobs
  | registerBlob h => exact .registerBlob ht h
  | unregisterBlob h => exact .unregisterBlob ht h
  | setFallback hook => exact .of_blobs ht rfl fun _ e he => ⟨e, he, rfl⟩
  | lockAtoms => exact .of_blobs ht rfl fun _ e he => ⟨e, he, rfl⟩
  | requestCollection =>
    refine .of_amended ht (Table.requestCollection_amended _) ?_
    exact congrArg (·.blobs) (Table.requestCollection_intact s.table).rest
  | other heap calls => exact .of_amended ht (.refl _) rfl

theorem Move.retypes (hs : s.table.Sound buckets 0) (ht : s.table.Typed) (h : Move s events s') :
    Retypes s.table s'.table := by
  cases h with
  | clearRequest => exact .of_blobs ht rfl fun _ e he => ⟨e, he, rfl⟩
  | beginMarking => exact .of_blobs ht rfl fun _ e he => ⟨e, he, rfl⟩
  | applyMarks atoms => exact .of_amended ht (Table.applyMarks_amended _ atoms) (Table.applyMarks_onLinks _ atoms).blobs
  | abortMarking => exact .of_amended ht (Table.abortMarking_amended _) rfl
  | postpone => exact .of_blobs ht rfl fun _ e he => ⟨e, he, rfl⟩
  | sweep hswept h =>
    obtain rfl := sweep_table_eq hswept h
    exact .sweep ht hs hswept

/-- A registry with a history goes on with it, and the types of all atoms stay in use. -/
theorem Run.types_of_sound {log : BlobRegistry.Log} (hs : s.table.Sound buckets 0)
    (hlog : BlobRegistry.History .initial log s.table.blobs) (ht : s.table.Typed) (h : Run spans s later s') :
    (∃ log, BlobRegistry.History s.table.blobs log s'.table.blobs) ∧ s'.table.Typed := by
  have next {s₁ s₂ : Store} (ih : (∃ log, BlobRegistry.History s.table.blobs log s₁.table.blobs) ∧ s₁.table.Typed)
      (hretypes : Retypes s₁.table s₂.table) :
      (∃ log, BlobRegistry.History s.table.blobs log s₂.table.blobs) ∧ s₂.table.Typed := by
    obtain ⟨⟨log₁, hlog₁⟩, -⟩ := ih
    obtain ⟨log₂, hlog₂⟩ := hretypes.history
    have hhistory := hlog₁.trans hlog₂
    exact ⟨⟨_, hhistory⟩, hretypes.typed (BlobRegistry.isRegistered_discarded (hlog.trans hhistory))⟩
  induction h with
  | start => exact ⟨⟨[], .start⟩, ht⟩
  | call h hcall ih => exact next ih (hcall.retypes (h.sound hs) ih.2)
  | move h hmove ih => exact next ih (hmove.retypes (h.sound hs) ih.2)

/-- In every run the registry has a history, and the types of all atoms are in use. -/
theorem Run.types (hc : config.check = .ok ()) (h : Run spans (.empty heap config) events s) :
    (∃ log, BlobRegistry.History .initial log s.table.blobs) ∧ s.table.Typed := by
  have hempty := Table.sound_empty (Table.atomBuckets_power hc) (heap.openPool).1
  have htyped : (Store.empty heap config).table.Typed := nofun
  exact h.types_of_sound hempty .start htyped

/-- So has it from any state of a run on. -/
theorem Run.history (hc : config.check = .ok ()) (h : Run spans (.empty heap config) events s)
    (hlater : Run spans s later s') : ∃ log, BlobRegistry.History s.table.blobs log s'.table.blobs := by
  obtain ⟨⟨log, hlog⟩, ht⟩ := h.types hc
  exact (hlater.types_of_sound (h.sound_of_empty hc) hlog ht).1

/-- An atom that was not destroyed has the data and, as long as that is in use, the type it was made with. -/
theorem Run.retyped (hc : config.check = .ok ()) (h : Run spans (.empty heap config) events s)
    (hlater : Run spans s later s') (hsize : s'.table.slots.size ≤ UInt32.size) (he : s.table.entryAt? i = some e)
    (hzero : destructions later i = 0) :
    ∃ e', s'.table.entryAt? i = some e' ∧ e'.payload = e.payload ∧ e'.blob = s'.table.blobs.current e.blob := by
  have hreg := (h.types hc).2 i e he
  -- A step keeps what there is of the atom, and its type as far as that is in use after it.
  have next {s₁ s₂ : Store} {before now : List Event} (hlater : Run spans s before s₁)
      (haged : Table.Aged (destructions now) s₁.table s₂.table) (hretypes : Retypes s₁.table s₂.table)
      (hzero : destructions now i = 0)
      (ih : ∃ e₁, s₁.table.entryAt? i = some e₁ ∧ e₁.payload = e.payload ∧
        e₁.blob = s₁.table.blobs.current e.blob) :
      ∃ e₂, s₂.table.entryAt? i = some e₂ ∧ e₂.payload = e.payload ∧ e₂.blob = s₂.table.blobs.current e.blob := by
    obtain ⟨e₁, he₁, hpayload₁, hblob₁⟩ := ih
    obtain ⟨e₂, he₂, hpayload₂⟩ := haged.entryAt? hzero he₁
    obtain ⟨log, hlog⟩ := Run.history hc h hlater
    obtain ⟨log', hlog'⟩ := hretypes.history
    have hlt := hlog.lt_size (BlobRegistry.lt_of_isRegistered hreg)
    refine ⟨e₂, he₂, hpayload₂.trans hpayload₁, ?_⟩
    rw [hretypes.kept i e₁ e₂ he₁ he₂, hblob₁, hlog'.current hlt]
  induction hlater with
  | start =>
    refine ⟨e, he, rfl, ?_⟩
    rw [BlobRegistry.current, if_pos hreg]
  | call hlater hcall ih =>
    have hrun := h.trans hlater
    have hs := hrun.sound_of_empty hc
    have hle := hs.size_changes (hcall.changes hs)
    rw [destructions_append] at hzero
    obtain ⟨hbefore, hnow⟩ := Nat.add_eq_zero_iff.1 hzero
    exact next hlater (hcall.aged hs) (hcall.retypes hs (hrun.types hc).2) hnow (ih (Nat.le_trans hle hsize) hbefore)
  | move hlater hmove ih =>
    have hrun := h.trans hlater
    have hs := hrun.sound_of_empty hc
    have hchanges : Table.Changes spans _ _ := hmove.changes hs
    have hle := hs.size_changes hchanges
    rw [destructions_append] at hzero
    obtain ⟨hbefore, hnow⟩ := Nat.add_eq_zero_iff.1 hzero
    exact next hlater (hmove.aged hs hsize) (hmove.retypes hs (hrun.types hc).2) hnow
      (ih (Nat.le_trans hle hsize) hbefore)

theorem Run.entry_retyped (hc : config.check = .ok ()) (h : Run spans (.empty heap config) events s)
    (hlater : Run spans s later s') (hsize : s'.table.slots.size ≤ UInt32.size) (he : s.table.entry a = .ok e)
    (hzero : destructions later a.index.toNat = 0) :
    ∃ e', s'.table.entry a = .ok e' ∧ e'.payload = e.payload ∧ e'.blob = s'.table.blobs.current e.blob := by
  have hs := h.sound_of_empty hc
  obtain ⟨-, e', -, he', -⟩ := (hlater.fate_of_entry hs hsize he).kept hzero
  obtain ⟨e₁, he₁, hpayload, hblob⟩ := h.retyped hc hlater hsize (Table.entry_eq_ok_iff.1 he).1 hzero
  rw [(Table.entry_eq_ok_iff.1 he').1, Option.some.injEq] at he₁
  exact ⟨e', he', he₁ ▸ hpayload, he₁ ▸ hblob⟩

/-! ## What interning gives -/

/-- The handle that interning gives is that of an atom that the type had for the span, or of no live atom before. -/
theorem Exact.interned (h : s.Exact span) {r : Interned} (hr : s.internSpan span lasting blob = .ok (.ok r, s')) :
    (s.table.Stands r.atom blob span ∧ ∀ type, s.table.blobs.get? blob = some type → type.flags.unique) ∨
      (∀ e, s.table.entry r.atom ≠ .ok e) ∧
        ∃ s₁ e, s.internLocked span lasting blob = .ok (.ok r, s₁) ∧ s₁.table.entry r.atom = .ok e := by
  obtain ⟨s₁, hlocked⟩ := internSpan_answer hr
  have hreg := internLocked_registered hlocked
  obtain ⟨type, htype⟩ := get?_of_isRegistered hreg
  by_cases hfound : type.flags.unique = true ∧ ∃ a, s.table.Stands a blob span
  · obtain ⟨hunique, a, hstands⟩ := hfound
    obtain ⟨s₂, hgives⟩ := h.found blob type hreg htype hunique a hstands lasting
    rw [hr] at hgives
    cases hgives
    refine .inl ⟨hstands, fun type' htype' => ?_⟩
    rw [htype, Option.some.injEq] at htype'
    exact htype' ▸ hunique
  · have hnone (hunique : type.flags.unique = true) (a : Atom) : ¬ s.table.Stands a blob span :=
      fun hstands => hfound ⟨hunique, a, hstands⟩
    obtain ⟨-, hfresh, s₂, hlocked', e, _, he, -⟩ := h.made blob type hreg htype hnone lasting r s' hr
    exact .inr ⟨fun e' he' => hfresh r.atom (Table.isLive_iff.2 ⟨e', he'⟩) rfl, s₂, e, hlocked', he⟩

end Store

end AtomHeap
