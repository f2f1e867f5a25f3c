import AtomHeap.Proofs.Memory.Lifetime
import AtomHeap.Proofs.Store.Tenancy
import AtomHeap.Proofs.Table.Gauge
/-!
# Tuning a table

Most of what callers and cycles do to a table makes and destroys no atom: references, marks, blob types and
requests are changed, and what counts as left by the last cycle. `Tuning` lists these calls, and
`Tuning.sound` is what they have in common.
-/

namespace AtomHeap

namespace Table

variable {t t' : Table} {buckets : Nat}

/-- The sum that a request for a cycle is decided by is a word. -/
def Weighable (t : Table) : Prop := t.agcEnabled = true → t.nonGarbage + t.margin < wordCount

theorem Weighable.congr (h : t.Weighable) (hgauge : t'.gauge = t.gauge) : t'.Weighable := by
  obtain ⟨henabled, hmargin, hnonGarbage, -⟩ := gauge_eq_iff.1 hgauge
  unfold Weighable
  rw [henabled, hmargin, hnonGarbage]
  exact h

theorem Weighable.shouldCollect (h : t.Weighable) : ∃ due, t.shouldCollect = .ok due := by
  unfold Table.shouldCollect
  split
  · rename_i henabled
    rw [checkedAdd_eq_ok_iff.2 ⟨h henabled, rfl⟩]
    exact ⟨_, rfl⟩
  · exact ⟨_, rfl⟩

/-- The bytes of copies are no more than those of their blocks. -/
theorem copied_le (hpos : ∀ r ∈ t.regions, 0 < r.length) : t.copied ≤ Heap.total t.regions := by
  unfold regions blocks at hpos
  unfold copied regions blocks
  generalize t.slots.toList = slots at hpos
  induction slots with
  | nil => exact Nat.le_refl _
  | cons s slots ih =>
    rw [List.map_cons, List.sum_cons]
    cases hb : s.entry.bind (·.payload.block?) with
    | none =>
      simp only [List.filterMap_cons, hb] at hpos ⊢
      have hzero : s.copied = 0 := by
        obtain ⟨g, _ | ⟨payload, _⟩⟩ := s
        · rfl
        · cases payload <;> first | rfl | cases hb
      rw [hzero, Nat.zero_add]
      exact ih hpos
    | some block =>
      simp only [List.filterMap_cons, hb, List.map_cons] at hpos ⊢
      obtain ⟨hfirst, hrest⟩ := List.forall_mem_cons.1 hpos
      rw [Heap.total_cons]
      refine Nat.add_le_add ?_ (ih hrest)
      obtain ⟨b, size⟩ := block
      have hsize : s.copied = size := by
        obtain ⟨g, _ | ⟨payload, _⟩⟩ := s
        · cases hb
        · cases payload <;> cases hb
          rfl
      rw [hsize]
      exact le_of_roundUp (Region.ofBlock_length hfirst)

/-- The payloads stay, and what counts as left after a cycle is what it was or the live atoms. -/
structure Resettled (t t' : Table) : Prop where
  payloads : SamePayloads t t'
  pool : t'.pool = t.pool
  enabled : t'.agcEnabled = t.agcEnabled
  margin : t'.margin = t.margin
  nonGarbage : t'.nonGarbage = t.nonGarbage ∨ t'.nonGarbage = t'.count
  count : t'.count = t.count

theorem Resettled.of_steady (hs : Steady t t') (hp : SamePayloads t t') (hpool : t'.pool = t.pool) :
    Resettled t t' := by
  obtain ⟨henabled, hmargin, hnonGarbage, -⟩ := gauge_eq_iff.1 hs.gauge
  exact ⟨hp, hpool, henabled, hmargin, .inl hnonGarbage, hs.count⟩

/-- A call that is refused changes nothing. -/
def attempt {α : Type} (f : Table → Except AtomError (α × Table)) (t : Table) : Except AtomError α × Table :=
  match f t with
  | .ok (a, t') => (.ok a, t')
  | .error e => (.error e, t)

section

variable {α : Type} {f : Table → Except AtomError (α × Table)} {a : α} {e : AtomError}

theorem attempt_of_ok (h : f t = .ok (a, t')) : attempt f t = (.ok a, t') := by
  unfold attempt
  rw [h]

theorem attempt_of_error (h : f t = .error e) : attempt f t = (.error e, t) := by
  unfold attempt
  rw [h]

theorem unregisterBlob_attempt {id : BlobId} (h : t.unregisterBlob id = .ok t') :
    attempt (fun t => return ((), ← t.unregisterBlob id)) t = (.ok (), t') := by
  refine attempt_of_ok ?_
  rw [h]
  rfl

theorem unregisterBlob_attempt_of_error {id : BlobId} (h : t.unregisterBlob id = .error e) :
    attempt (fun t => return ((), ← t.unregisterBlob id)) t = (.error e, t) := by
  refine attempt_of_error ?_
  rw [h]
  rfl

end

/-- What callers and cycles do to a table without making or destroying an atom. -/
inductive Tuning : {α : Type} → (Table → α × Table) → Prop
  | register (a : Atom) : Tuning (·.register a)
  | unregister (a : Atom) : Tuning (·.unregister a)
  | registerBlob (type : BlobType) : Tuning (attempt (·.registerBlob type))
  | unregisterBlob (id : BlobId) : Tuning (attempt fun t => return ((), ← t.unregisterBlob id))
  | setFallback (hook : ReleaseHook) : Tuning fun t => ((), t.setFallback hook)
  | lockAtoms : Tuning fun t => ((), t.lockAtoms)
  | requestCollection : Tuning (·.requestCollection)
  | clearRequest : Tuning fun t => ((), { t with requested := false })
  | postpone : Tuning fun t => ((), t.postpone)
  | beginMarking : Tuning fun t => ((), t.beginMarking)
  | applyMarks (atoms : List Atom) : Tuning fun t => ((), t.applyMarks atoms)
  | abortMarking : Tuning fun t => ((), t.abortMarking)

theorem Tuning.sound {α : Type} {f : Table → α × Table} (hf : Tuning f) (h : t.Sound buckets 0) :
    (f t).2.Sound buckets 0 ∧ Resettled t (f t).2 := by
  have hplain {t' : Table} (ha : Amended t t') (hp : t'.pool = t.pool) (he : t'.agcEnabled = t.agcEnabled)
      (hm : t'.margin = t.margin) (hn : t'.nonGarbage = t.nonGarbage ∨ t'.nonGarbage = t'.count) :
      t'.Sound buckets 0 ∧ Resettled t t' :=
    ⟨h.amended ha, ha.samePayloads, hp, he, hm, hn, ha.count⟩
  cases hf with
  | register a =>
    have ha := register_amended t a
    exact ⟨h.amended ha, .of_steady (register_steady t a) ha.samePayloads (Store.register_pool t a)⟩
  | unregister a =>
    have ha := unregister_amended t a
    exact ⟨h.amended ha, .of_steady (unregister_steady t a) ha.samePayloads (Store.unregister_pool t a)⟩
  | registerBlob type =>
    cases hr : t.registerBlob type with
    | error e =>
      rw [attempt_of_error hr]
      exact hplain (.refl t) rfl rfl rfl (.inl rfl)
    | ok p =>
      rw [attempt_of_ok hr]
      have ha := registerBlob_amended hr
      exact ⟨h.amended ha, .of_steady (registerBlob_steady hr) ha.samePayloads (Store.registerBlob_pool hr)⟩
  | unregisterBlob id =>
    cases hu : t.unregisterBlob id with
    | error e =>
      rw [unregisterBlob_attempt_of_error hu]
      exact hplain (.refl t) rfl rfl rfl (.inl rfl)
    | ok t' =>
      rw [unregisterBlob_attempt hu]
      have hpool : t'.pool = t.pool := by
        obtain ⟨_, -, rfl⟩ := unregisterBlob_eq hu
        rfl
      exact ⟨h.unregisterBlob hu, .of_steady (unregisterBlob_steady hu) (unregisterBlob_samePayloads hu) hpool⟩
  | setFallback hook => exact hplain ⟨rfl, rfl, rfl, rfl, rfl, rfl, fun _ _ h => h⟩ rfl rfl rfl (.inl rfl)
  | lockAtoms => exact ⟨h.lockAtoms, .of_slots rfl, rfl, rfl, rfl, .inr rfl, rfl⟩
  | requestCollection =>
    have ha := requestCollection_amended t
    have hrest : t.requestCollection.2.pool = t.pool ∧ t.requestCollection.2.agcEnabled = t.agcEnabled ∧
        t.requestCollection.2.margin = t.margin ∧ t.requestCollection.2.nonGarbage = t.nonGarbage := by
      unfold Table.requestCollection
      split <;> exact ⟨rfl, rfl, rfl, rfl⟩
    exact hplain ha hrest.1 hrest.2.1 hrest.2.2.1 (.inl hrest.2.2.2)
  | clearRequest => exact hplain ⟨rfl, rfl, rfl, rfl, rfl, rfl, fun _ _ h => h⟩ rfl rfl rfl (.inl rfl)
  | postpone => exact hplain ⟨rfl, rfl, rfl, rfl, rfl, rfl, fun _ _ h => h⟩ rfl rfl rfl (.inr rfl)
  | beginMarking => exact hplain ⟨rfl, rfl, rfl, rfl, rfl, rfl, fun _ _ h => h⟩ rfl rfl rfl (.inl rfl)
  | applyMarks atoms =>
    have ha := applyMarks_amended t atoms
    exact ⟨h.amended ha, .of_steady (applyMarks_steady t atoms) ha.samePayloads (Store.applyMarks_pool t atoms)⟩
  | abortMarking => exact hplain (abortMarking_amended t) rfl rfl rfl (.inl rfl)

theorem Sound.lookup_answers (h : t.Sound buckets 0) (span : Span) (blob : BlobId) :
    ∃ p, t.lookup span blob = .ok p := by
  unfold lookup
  split
  · exact ⟨_, rfl⟩
  · rename_i type _
    obtain ⟨found, hfound, hsome, -⟩ := h.linked.find (Hash.ofBytes span.bytes) span blob type.flags.nocopy
    simp only [hfound, bind, Except.bind]
    cases found with
    | none => exact ⟨_, rfl⟩
    | some index =>
      obtain ⟨e, he, -⟩ := hsome index rfl
      obtain ⟨slot, hslot, -⟩ := entryAt?_eq_some_iff.1 he
      simp only [slot_eq_ok_iff.2 hslot]
      exact ⟨_, rfl⟩

/-- So many slots leave room for the count of one more atom, and for as many chains again. -/
theorem Sound.fits (h : t.Sound buckets 0) (hbuckets : buckets < 2 ^ 62) (hslots : t.slots.size < 2 ^ 62) :
    t.Fits := by
  have hcount := h.accounted.count_le
  have hroom := h.room
  have hword : wordCount = 2 ^ 64 := rfl
  constructor <;> omega

end Table

end AtomHeap
