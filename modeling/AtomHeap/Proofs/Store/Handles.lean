import AtomHeap.Proofs.Store.Represented
import AtomHeap.Proofs.Table.Canonical
import AtomHeap.Proofs.Table.Generations
/-!
# Handles

A handle that interning gave out is good for as long as nothing was destroyed in its slot, and again
after every `2 ^ 24` times that (`handles_valid`). In between each operation refuses it as stale, and
leaves the table as it is.
-/

namespace AtomHeap

namespace Table

variable {t : Table} {a b : Atom} {error : AtomError}

/-- Marking an atom changes what the table says about others in their marks at most. -/
theorem entry_mark (t : Table) (a b : Atom) : ∃ f, (t.mark b).entry a = (t.entry a).map f := by
  have hsame : t.entry a = (t.entry a).map id := by cases t.entry a <;> rfl
  unfold mark
  split
  · exact ⟨id, hsame⟩
  · cases hb : t.entry b with
    | ok e => exact ⟨_, entry_setEntry (entry_eq_ok_iff.1 hb).1 _ a⟩
    | error error => exact ⟨id, hsame⟩

theorem entry_mark_of_error (h : t.entry a = .error error) (b : Atom) : (t.mark b).entry a = .error error := by
  obtain ⟨f, hf⟩ := t.entry_mark a b
  rw [hf, h]
  rfl

theorem mark_of_error (h : t.entry a = .error error) : t.mark a = t := by
  unfold mark
  split
  · rfl
  · rw [h]

/-- Roots that name no atom mark nothing. -/
theorem applyMarks_of_error (h : t.entry a = .error error) (before after : List Atom) :
    t.applyMarks (before ++ a :: after) = t.applyMarks (before ++ after) := by
  induction before generalizing t with
  | nil =>
    unfold applyMarks
    rw [List.nil_append, List.nil_append, List.foldl_cons, mark_of_error h]
  | cons b before ih => exact ih (entry_mark_of_error h b)

end Table

namespace Store

variable {spans : Span → Prop} {s s' s₀ s₁ : Store} {events later : List Event} {buckets : Nat} {span : Span}
  {lasting : Bool} {blob : BlobId} {a : Atom} {e : Entry} {i k : Nat} {config : Config} {heap : Heap}

/-- How often the atom in a slot was destroyed. -/
def destructions (events : List Event) (i : Nat) : Nat :=
  events.countP fun
    | .destroyed a => a.index.toNat = i
    | _ => false

theorem destructions_append (events later : List Event) :
    destructions (later ++ events) = fun i => destructions events i + destructions later i := by
  funext i
  unfold destructions
  rw [List.countP_append, Nat.add_comm]

/-! ## What steps do to slots -/

theorem destructions_dropEvents (a : Atom) (answer : Except AtomError Unit) (refs : Except AtomError Nat) :
    destructions (dropEvents a answer refs) = fun _ => 0 := by
  unfold dropEvents
  split <;> rfl

/-- Callers destroy nothing. -/
theorem Call.destructions (h : Call spans s events s') : destructions events = fun _ => 0 := by
  cases h with
  | @intern _ _ _ _ i =>
    cases i.isNew <;> rfl
  | @lookup _ _ _ found => cases found <;> rfl
  | unregister a => exact destructions_dropEvents _ _ _
  | _ => rfl

theorem Outcome.aged (hs : s.table.Sound buckets 0) {r : Except AtomError Interned} (h : Outcome s span blob r s') :
    Table.Aged (fun _ => 0) s.table s'.table := by
  cases h with
  | refused e htable => exact .of_eq (congrArg (·.slots) htable)
  | found _ _ _ hreuse => exact (Table.reuse_amended hreuse).aged
  | made hwanted hinsert =>
    obtain ⟨index, g, -, hinserted, -⟩ := hs.made hwanted hinsert
    exact hinserted.aged

theorem Call.aged (hs : s.table.Sound buckets 0) (h : Call spans s events s') :
    Table.Aged (Store.destructions events) s.table s'.table := by
  rw [h.destructions]
  cases h with
  | intern _ h => exact (internLocked_outcome hs h).aged hs
  | internRefused _ h => exact (internLocked_outcome hs h).aged hs
  | lookup _ h => exact (Table.lookup_amended (lookup_table h)).aged
  | register a => exact (Table.register_amended _ a).aged
  | unregister a => exact (Table.unregister_amended _ a).aged
  | registerBlob h => exact (Table.registerBlob_amended h).aged
  | unregisterBlob h => exact Table.unregisterBlob_aged h
  | setFallback hook => exact .of_eq rfl
  | lockAtoms => exact .of_eq rfl
  | requestCollection => exact (Table.requestCollection_amended s.table).aged
  | other heap calls => exact .of_eq rfl

theorem destructions_sweep (atoms : List Atom) :
    destructions (atoms.map .destroyed) = fun i => atoms.countP (·.index.toNat = i) := by
  funext i
  unfold destructions
  rw [List.countP_map]
  rfl

theorem Move.aged (hs : s.table.Sound buckets 0) (hsize : s'.table.slots.size ≤ UInt32.size)
    (h : Move s events s') : Table.Aged (destructions events) s.table s'.table := by
  cases h with
  | clearRequest => exact .of_eq rfl
  | beginMarking => exact .of_eq rfl
  | applyMarks atoms => exact (Table.applyMarks_amended _ atoms).aged
  | abortMarking => exact (Table.abortMarking_amended _).aged
  | postpone => exact .of_eq rfl
  | sweep hswept h =>
    obtain rfl := sweep_table_eq hswept h
    obtain ⟨swept, t, hsweep, hbelow⟩ := hs.sweep_below
    rw [hswept, Except.ok.injEq, Prod.mk.injEq] at hsweep
    obtain ⟨rfl, htable⟩ := hsweep
    rw [htable] at hsize ⊢
    rw [destructions_sweep]
    exact hbelow.aged (hbelow.size ▸ hsize)

/-- Each slot ages by the atoms destroyed there. -/
theorem Run.aged (hs : s₀.table.Sound buckets 0) (h : Run spans s₀ events s)
    (hsize : s.table.slots.size ≤ UInt32.size) : Table.Aged (destructions events) s₀.table s.table := by
  induction h with
  | start => exact .of_eq rfl
  | call h hcall ih =>
    have hle := (h.sound hs).size_changes (hcall.changes (h.sound hs))
    rw [destructions_append]
    exact (ih (Nat.le_trans hle hsize)).trans (hcall.aged (h.sound hs))
  | move h hmove ih =>
    have hchanges : Table.Changes spans _ _ := hmove.changes (h.sound hs)
    have hle := (h.sound hs).size_changes hchanges
    rw [destructions_append]
    exact (ih (Nat.le_trans hle hsize)).trans (hmove.aged (h.sound hs) hsize)

/-! ## What operations say to a handle -/

/-- Every operation accepts a handle, as that of an entry. -/
structure Honours (s : Store) (a : Atom) (e : Entry) : Prop where
  live : s.table.isLive a = true
  bytes : s.table.bytesOf a = .ok e.payload.bytes
  text : ∃ text, s.stringOf a = .ok text
  blob : s.table.blobOf a = .ok e.blob
  refs : s.table.refsOf a = .ok e.refs
  register : (s.register a).1 = .ok ()
  /-- A reference can be given back if there is one, and to a builtin atom always. -/
  unregister : (s.unregister a).1 =
    if e.refs = 0 ∧ s.table.builtin ≤ a.index.toNat then .error .underflow else .ok ()

/-- Every operation refuses a handle as stale, and changes nothing. -/
structure Refuses (s : Store) (a : Atom) : Prop where
  live : s.table.isLive a = false
  bytes : s.table.bytesOf a = .error .stale
  text : s.stringOf a = .error .stale
  blob : s.table.blobOf a = .error .stale
  refs : s.table.refsOf a = .error .stale
  register : s.register a = (.error .stale, s)
  unregister : s.unregister a = (.error .stale, s)
  /-- A report of roots that names it marks what it would mark without. -/
  marks : ∀ before after, s.table.applyMarks (before ++ a :: after) = s.table.applyMarks (before ++ after)

theorem honours_of_entry (h : s.table.entry a = .ok e) : s.Honours a e where
  live := by
    unfold Table.isLive
    rw [h]
    rfl
  bytes := by
    unfold Table.bytesOf
    rw [h]
    rfl
  text := by
    unfold stringOf
    rw [h]
    exact ⟨_, rfl⟩
  blob := by
    unfold Table.blobOf
    rw [h]
    rfl
  refs := by
    unfold Table.refsOf
    rw [h]
    rfl
  register := by
    unfold Store.register Table.register
    simp only [h]
    split <;> rfl
  unregister := by
    unfold Store.unregister Table.unregister
    simp only [h]
    split
    · rename_i hlt
      rw [if_neg (by omega)]
    · rename_i hle
      split
      · rename_i hzero
        rw [if_pos ⟨hzero, Nat.le_of_not_lt hle⟩]
      · rename_i hpos
        rw [if_neg (fun h => hpos h.1)]

theorem refuses_of_stale (h : s.table.entry a = .error .stale) : s.Refuses a where
  live := by
    unfold Table.isLive
    rw [h]
    rfl
  bytes := by
    unfold Table.bytesOf
    rw [h]
    rfl
  text := by
    unfold stringOf
    rw [h]
    rfl
  blob := by
    unfold Table.blobOf
    rw [h]
    rfl
  refs := by
    unfold Table.refsOf
    rw [h]
    rfl
  register := by
    unfold Store.register Table.register
    simp only [h]
  unregister := by
    unfold Store.unregister Table.unregister
    simp only [h]
  marks := Table.applyMarks_of_error h

/-! ## Handles that interning gave out -/

/-- The handle that interning gives is that of a slot in use, with data for the span. -/
theorem Outcome.issued (hs : s.table.Sound buckets 0) {r : Interned} (h : Outcome s span blob (.ok r) s') :
    ∃ (index : Nat) (slot : Slot) (e : Entry) (type : BlobType),
      s'.table.slots[index]? = some slot ∧ slot.entry = some e ∧ r.atom = slot.atom index ∧
        e.payload.IsFor span type.flags.nocopy := by
  cases h with
  | @found _ type index _ _ _ hfind hreuse =>
    obtain ⟨e, he, hfor⟩ := hs.linked.found hfind
    obtain ⟨slot, hslot, hatom⟩ := bind_eq_ok_iff.1 hreuse
    have hentry := (Table.entryAt?_of_slot hslot).symm.trans he
    obtain ⟨slot', hslot', hgeneration, hkept⟩ := (Table.reuse_amended hreuse).aged index slot
      (Table.slot_eq_ok_iff.1 hslot)
    obtain ⟨e', he', hpayload⟩ := hkept rfl e hentry
    refine ⟨index, slot', e', type, hslot', he', ?_, hpayload ▸ Table.payload_isFor hfor⟩
    have hgeneration : slot'.generation = slot.generation := by simpa using hgeneration
    obtain ⟨hatom, -⟩ := Prod.mk.inj (Except.ok.inj hatom)
    unfold Slot.atom at hatom ⊢
    rw [hgeneration, hatom]
  | @made _ type _ _ _ hwanted hinsert =>
    obtain ⟨index, g, rfl, hinserted, -⟩ := hs.made hwanted hinsert
    obtain ⟨slot, e, hslot, rfl, he, hbare⟩ := hinserted.exists_slot
    have hpayload : e.payload = _ := congrArg (·.payload) hbare
    exact ⟨index, slot, e, type, hslot, he, rfl, hpayload ▸ hwanted.isFor⟩

/-- A generation comes back just when its slot was emptied a multiple of `2 ^ 24` times. -/
theorem generation_add_eq_iff (g : BitVec 24) (k : Nat) : g + BitVec.ofNat 24 k = g ↔ 2 ^ 24 ∣ k := by
  have hlt := g.isLt
  rw [← BitVec.toNat_inj, BitVec.toNat_add, BitVec.toNat_ofNat]
  omega

/-- What a handle that was given out in one state comes to in a later one, when its slot was emptied
`k` times in between. -/
structure Fate (s : Store) (a : Atom) (k : Nat) (s' : Store) : Prop where
  /-- All operations accept it if its slot is in use and was emptied a multiple of `2 ^ 24` times. -/
  honoured : (∃ e, s'.table.entryAt? a.index.toNat = some e) ∧ 2 ^ 24 ∣ k → ∃ e, s'.Honours a e
  /-- If not, all refuse it, as stale. -/
  refused : ¬ ((∃ e, s'.table.entryAt? a.index.toNat = some e) ∧ 2 ^ 24 ∣ k) → s'.Refuses a
  /-- It has the data that it was given out for, if its slot was not emptied. -/
  kept : k = 0 → ∃ e e', s.table.entry a = .ok e ∧ s'.table.entry a = .ok e' ∧ e'.payload = e.payload
  /-- It is not taken for another atom before its slot was emptied `2 ^ 24` times. -/
  collected : 0 < k → k < 2 ^ 24 → s'.Refuses a

theorem Run.fate (hs : s.table.Sound buckets 0) (h : Run spans s later s')
    (hsize : s'.table.slots.size ≤ UInt32.size) {slot : Slot} (hslot : s.table.slots[i]? = some slot)
    (he : slot.entry = some e) : Fate s (slot.atom i) (destructions later i) s' := by
  have haged := h.aged hs hsize
  obtain ⟨slot', hslot', hgeneration, hkept⟩ := haged i slot hslot
  have hi : i < UInt32.size := Nat.lt_of_lt_of_le (Array.getElem?_eq_some_iff.1 hslot').1 hsize
  have hindex := Table.toNat_index_atom hi slot
  have hentryAt : s'.table.entryAt? i = slot'.entry := by
    unfold Table.entryAt?
    rw [hslot', Option.bind_some]
  -- The handle is the one that the slot has now if its generation came back.
  have hgood : 2 ^ 24 ∣ destructions later i → slot.atom i = slot'.atom i := by
    intro hdvd
    unfold Slot.atom
    rw [hgeneration, (generation_add_eq_iff _ _).2 hdvd]
  have hstale : ¬ ((∃ e, slot'.entry = some e) ∧ 2 ^ 24 ∣ destructions later i) →
      s'.table.entry (slot.atom i) = .error .stale := by
    intro hnot
    unfold Table.entry
    rw [hindex, hslot']
    simp only
    split
    · rename_i hsame
      cases he' : slot'.entry with
      | none => rfl
      | some e' =>
        refine absurd ⟨⟨e', he'⟩, ?_⟩ hnot
        exact (generation_add_eq_iff slot.generation _).1 (hgeneration ▸ hsame)
    · rfl
  refine ⟨?_, ?_, ?_, ?_⟩
  · rw [hindex, hentryAt]
    rintro ⟨⟨e', he'⟩, hdvd⟩
    rw [hgood hdvd]
    exact ⟨e', honours_of_entry (Table.entry_atom hi hslot' he')⟩
  · rw [hindex, hentryAt]
    intro hnot
    exact refuses_of_stale (hstale hnot)
  · intro hzero
    obtain ⟨e', he', hpayload⟩ := hkept hzero e he
    refine ⟨e, e', Table.entry_atom hi hslot he, ?_, hpayload⟩
    rw [hgood (hzero ▸ Nat.dvd_zero _)]
    exact Table.entry_atom hi hslot' he'
  · intro hpos hless
    refine refuses_of_stale (hstale ?_)
    rintro ⟨-, hdvd⟩
    exact absurd (Nat.le_of_dvd hpos hdvd) (Nat.not_le.2 hless)

theorem Refuses.not_entry (h : s.Refuses a) : s.table.entry a ≠ .ok e := by
  intro he
  have hlive := h.live
  rw [Table.isLive_iff.2 ⟨e, he⟩] at hlive
  cases hlive

/-- A handle that resolves was given out for the atom itself, or came round. -/
theorem Fate.dvd (h : Fate s a k s') (he : s'.table.entry a = .ok e) : 2 ^ 24 ∣ k := by
  by_contra hdvd
  exact (h.refused fun hgood => hdvd hgood.2).not_entry he

theorem Run.fate_of_entry (hs : s.table.Sound buckets 0) (hlater : Run spans s later s')
    (hsize : s'.table.slots.size ≤ UInt32.size) (he : s.table.entry a = .ok e) :
    Fate s a (destructions later a.index.toNat) s' := by
  obtain ⟨slot, hslot, hse, hatom⟩ := Table.slot_of_entry he
  have hfate := hlater.fate hs hsize hslot hse
  rwa [hatom] at hfate

/-- In every run, all operations agree on every handle that interning gave out: it is good if its slot
is in use and was emptied a multiple of `2 ^ 24` times since, and stale if not. Different atoms never
have the same handle. -/
theorem handles_valid (hc : config.check = .ok ()) (h : Run spans (.empty heap config) events s) {r : Interned}
    (hspan : spans span) (hintern : s.internLocked span lasting blob = .ok (.ok r, s₁))
    (hlater : Run spans s₁ later s') (hsize : s'.table.slots.size ≤ UInt32.size) :
    Fate s₁ r.atom (destructions later r.atom.index.toNat) s' ∧
      ∀ (i j : Nat) (slot slot' : Slot), s'.table.slots[i]? = some slot → s'.table.slots[j]? = some slot' →
        slot.atom i = slot'.atom j → i = j := by
  have hs := h.sound (Table.sound_empty (Table.atomBuckets_power hc) _)
  have hs₁ : s₁.table.Sound _ 0 := hs.changes ((internLocked_outcome hs hintern).changes hspan)
  refine ⟨?_, ?_⟩
  · obtain ⟨index, slot, e, -, hslot, he, hatom, -⟩ := (internLocked_outcome hs hintern).issued hs
    have hlt := (Array.getElem?_eq_some_iff.1 hslot).1
    have hle := (hlater.aged hs₁ hsize).size
    have hindex := Table.toNat_index_atom (Nat.lt_of_lt_of_le hlt (Nat.le_trans hle hsize)) slot
    rw [hatom, hindex]
    exact hlater.fate hs₁ hsize hslot he
  · intro i j slot slot' hi hj hatom
    have hbound : ∀ (k : Nat) (slot : Slot), s'.table.slots[k]? = some slot → k < UInt32.size := fun k slot hk =>
      Nat.lt_of_lt_of_le (Array.getElem?_eq_some_iff.1 hk).1 hsize
    have hindex := congrArg (·.index.toNat) hatom
    simpa only [Table.toNat_index_atom (hbound i slot hi), Table.toNat_index_atom (hbound j slot' hj)] using hindex

/-- The handles of an atom that was swept and of one that was made then. -/
theorem handles_valid_swept :
    ∃ s₁ s', Run (fun _ => True) s₁ [.made ⟨1, 0⟩, .destroyed ⟨0, 0⟩, .dropped ⟨0, 0⟩] s' ∧
      Fate s₁ ⟨0, 0⟩ 1 s' ∧ s'.Refuses ⟨0, 0⟩ ∧ s'.table.isLive ⟨1, 0⟩ = true := by
  have none := @Run.start (fun _ => True)
    (.empty (.empty ⟨32, 64, 2⟩ fun _ _ => true) { atomBuckets := 1, agcEnabled := false })
  have issued := none.intern { bytes := [97] } trivial BlobId.text rfl
  have later {s₀ s : Store} {events : List Event} (_ : Run (fun _ => True) s₀ events s) :
      Run (fun _ => True) s [] s := .start
  have dropped := (later issued).call (.unregister ⟨0, 0⟩)
  have swept := dropped.move (.sweep rfl rfl)
  have another := swept.intern { bytes := [98] } trivial BlobId.text rfl
  have hfate := handles_valid rfl none trivial
    (rfl : internLocked _ { bytes := [97] } false BlobId.text = .ok (.ok _, _))
    another (by decide)
  exact ⟨_, _, another, hfate.1, hfate.1.collected (by decide) (by decide), rfl⟩

end Store

end AtomHeap
