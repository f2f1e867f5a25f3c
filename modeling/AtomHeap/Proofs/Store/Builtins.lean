import AtomHeap.Proofs.Store.Handles
import AtomHeap.Proofs.Table.Immunity
import Mathlib
/-!
# Builtin atoms

Once the atoms of a store were made builtin they are there for good, whatever runs follow: with their
handles, their data and the references that they had then (`builtins_immune`). No sweep asks about
them, and no atom made later comes to be among them.
-/

namespace AtomHeap.Store

variable {spans : Span → Prop} {s s' s₀ s₁ : Store} {events later : List Event} {buckets : Nat} {span : Span}
  {blob : BlobId} {a : Atom} {e : Entry} {config : Config} {heap : Heap}

/-! ## Runs leave what is below the boundary -/

theorem Outcome.immune (hs : s.table.Sound buckets 0) {r : Except AtomError Interned} (h : Outcome s span blob r s') :
    Table.Immune s.table s'.table := by
  cases h with
  | refused e htable => exact .of_slots (congrArg (·.slots) htable) (Nat.le_of_eq (congrArg (·.builtin) htable.symm))
  | found _ _ _ hreuse => exact Table.reuse_immune hreuse
  | made hwanted hinsert =>
    obtain ⟨index, g, -, hinserted, -⟩ := hs.made hwanted hinsert
    exact ⟨hinserted.immune.boundary, hinserted.immune.slots⟩

theorem Call.immune (hs : s.table.Sound buckets 0) (h : Call spans s events s') :
    Table.Immune s.table s'.table := by
  cases h with
  | intern _ h => exact (internLocked_outcome hs h).immune hs
  | internRefused _ h => exact (internLocked_outcome hs h).immune hs
  | lookup _ h => exact Table.lookup_immune (lookup_table h)
  | register a => exact Table.register_immune _ a
  | unregister a => exact Table.unregister_immune _ a
  | registerBlob h => exact Table.registerBlob_immune h
  | unregisterBlob h => exact Table.unregisterBlob_immune h
  | setFallback hook => exact .of_slots rfl (Nat.le_refl _)
  | lockAtoms => exact Table.lockAtoms_immune hs
  | requestCollection => exact Table.requestCollection_immune s.table
  | other heap calls => exact .refl _

theorem Move.immune (hs : s.table.Sound buckets 0) (h : Move s events s') :
    Table.Immune s.table s'.table := by
  cases h with
  | clearRequest => exact .of_slots rfl (Nat.le_refl _)
  | beginMarking => exact .of_slots rfl (Nat.le_refl _)
  | applyMarks atoms => exact Table.applyMarks_immune _ atoms
  | abortMarking => exact Table.abortMarking_immune _
  | postpone => exact .of_slots rfl (Nat.le_refl _)
  | sweep _ h =>
    obtain ⟨swept, htable, -⟩ := sweep_table h
    obtain ⟨swept', t, hsweep, hbelow⟩ := hs.sweep_below
    rw [hsweep, Except.ok.injEq, Prod.mk.injEq] at htable
    rw [← htable.2]
    exact ⟨hbelow.immune.boundary, hbelow.immune.slots⟩

/-- Whatever happens, slots below the boundary stay as they are. -/
theorem Run.immune (hs : s₀.table.Sound buckets 0) (h : Run spans s₀ events s) :
    Table.Immune s₀.table s.table := by
  induction h with
  | start => exact .refl _
  | call h hcall ih => exact ih.trans (hcall.immune (h.sound hs))
  | move h hmove ih => exact ih.trans (hmove.immune (h.sound hs))

/-! ## New atoms come above the boundary -/

/-- An atom that was just made, in a slot that was empty and is not protected. -/
def MadeAbove (s : Store) (a : Atom) (s' : Store) : Prop :=
  ∃ index slot, s.table.builtin ≤ index ∧ s.table.entryAt? index = none ∧ s'.table.slots[index]? = some slot ∧
    slot.entry.isSome ∧ a = slot.atom index

theorem Outcome.madeAbove (hs : s.table.Sound buckets 0) {i : Interned} (h : Outcome s span blob (.ok i) s')
    (hnew : i.isNew = true) : MadeAbove s i.atom s' := by
  cases h with
  | found =>
    cases hnew
  | made hwanted hinsert =>
    obtain ⟨index, g, rfl, hinserted, -⟩ := hs.made hwanted hinsert
    obtain ⟨slot, e, hslot, rfl, he, -⟩ := hinserted.exists_slot
    exact ⟨index, slot, hinserted.boundary, hinserted.vacant, hslot, Option.isSome_of_eq_some he, rfl⟩

theorem MadeAbove.index (h : MadeAbove s a s') (hsize : s'.table.slots.size ≤ UInt32.size) :
    s.table.builtin ≤ a.index.toNat := by
  obtain ⟨index, slot, hle, -, hslot, -, rfl⟩ := h
  have hlt := (Array.getElem?_eq_some_iff.1 hslot).1
  rwa [Table.toNat_index_atom (Nat.lt_of_lt_of_le hlt hsize)]

/-- Its handle was that of no live atom before. -/
theorem MadeAbove.fresh (h : MadeAbove s a s') (hsize : s'.table.slots.size ≤ UInt32.size) : s.table.entry a ≠ .ok e := by
  obtain ⟨index, slot, -, hvacant, hslot, -, rfl⟩ := h
  intro he
  have hlt := (Array.getElem?_eq_some_iff.1 hslot).1
  have hentry := (Table.entry_eq_ok_iff.1 he).1
  rw [Table.toNat_index_atom (Nat.lt_of_lt_of_le hlt hsize), hvacant] at hentry
  cases hentry

/-! ## Builtin atoms are immune -/

/-- All atoms of a store become builtin, once names were interned or as they are. -/
inductive Locks (s : Store) : Store → Prop
  | lockAtoms : Locks s { s with table := s.table.lockAtoms }
  | initBuiltins {s' : Store} {names : List String} {atoms : List Atom} :
      s.initBuiltins names = .ok (.ok atoms, s') → Locks s s'

/-- The boundary is at the end of the slots then. -/
theorem Locks.builtin (h : Locks s s') : s'.table.builtin = s'.table.slots.size := by
  cases h with
  | lockAtoms => rfl
  | initBuiltins h =>
    obtain ⟨⟨e | atoms, s₁⟩, -, h⟩ := bind_eq_ok_iff.1 h
    · cases h
    · cases h
      rfl

theorem Locks.run (hplain : ∀ bytes, spans { bytes }) (h : Locks s s') : ∃ events, Run spans s events s' := by
  cases h with
  | lockAtoms => exact Call.lockAtoms.run
  | initBuiltins h => exact initBuiltins_run hplain h

/-- A builtin atom in a state, with the entry that it had when it became builtin. -/
structure Immortal (s : Store) (a : Atom) (e : Entry) : Prop where
  /-- All operations accept its handle, as that of an atom with the same data and references. -/
  honoured : ∃ e', s.Honours a e' ∧ e'.payload = e.payload ∧ e'.refs = e.refs
  /-- References can be taken and given back at will, and are not counted. -/
  register : s.register a = (.ok (), s)
  unregister : s.unregister a = (.ok (), s)
  /-- No sweep asks about it. -/
  unasked : s.table.slots.size ≤ UInt32.size → ∀ swept t, s.table.sweep = .ok (swept, t) →
    ∀ c ∈ swept.calls.toList, c.atom ≠ a

theorem immortal_of_lt (hs : s.table.Sound buckets 0) {e' : Entry} (he : s.table.entry a = .ok e')
    (ha : a.index.toNat < s.table.builtin) (hpayload : e'.payload = e.payload) (hrefs : e'.refs = e.refs) :
    s.Immortal a e where
  honoured := ⟨e', honours_of_entry he, hpayload, hrefs⟩
  register := by
    obtain ⟨heap, table, calls⟩ := s
    unfold Store.register
    simp only [Table.register_of_lt he ha]
  unregister := by
    obtain ⟨heap, table, calls⟩ := s
    unfold Store.unregister
    simp only [Table.unregister_of_lt he ha]
  unasked := by
    rintro hsize swept t hsweep c hc rfl
    obtain ⟨swept', t', hsweep', hbelow⟩ := hs.sweep_below
    rw [hsweep, Except.ok.injEq, Prod.mk.injEq] at hsweep'
    obtain ⟨i, slot, hle, hslot, hatom⟩ := hbelow.asked_above (hsweep'.1 ▸ hc)
    have hlt := (Array.getElem?_eq_some_iff.1 hslot).1
    rw [hatom, Table.toNat_index_atom (Nat.lt_of_lt_of_le hlt hsize)] at ha
    exact absurd ha (Nat.not_lt.2 hle)

/-- Whatever happens after the atoms of a store became builtin: those that were live then stay, and no
reference to them is counted any more. The boundary below which atoms are builtin never comes down, and
new atoms are put above it. As long as there are at most `2 ^ 32` slots, so that a handle tells its slot,
no sweep asks about an atom below it, and the handles of new atoms are above it too. -/
theorem builtins_immune (hc : config.check = .ok ()) (h : Run (fun _ => True) (.empty heap config) events s)
    (hlock : Locks s s₁) (hlater : Run (fun _ => True) s₁ later s') :
    (∀ a e, s₁.table.entry a = .ok e → s'.Immortal a e) ∧
      (∀ events s'', Run (fun _ => True) s' events s'' → s'.table.builtin ≤ s''.table.builtin) ∧
      ∀ span lasting blob i s'', s'.internLocked span lasting blob = .ok (.ok i, s'') → i.isNew = true →
        MadeAbove s' i.atom s'' ∧ (s''.table.slots.size ≤ UInt32.size → s'.table.builtin ≤ i.atom.index.toNat) := by
  have hs := h.sound (Table.sound_empty (Table.atomBuckets_power hc) _)
  obtain ⟨_, hrun⟩ : ∃ events, Run (fun _ => True) s events s₁ := hlock.run fun _ => trivial
  have hs₁ := hrun.sound hs
  have hs' := hlater.sound hs₁
  have himmune := hlater.immune hs₁
  refine ⟨fun a e he => ?_, fun _ _ hmore => (hmore.immune hs').boundary, ?_⟩
  · have ha : a.index.toNat < s₁.table.builtin := by
      rw [hlock.builtin]
      exact Table.lt_of_entryAt? (Table.entry_eq_ok_iff.1 he).1
    obtain ⟨e', he', hpayload, hrefs⟩ := himmune.entry ha he
    exact immortal_of_lt hs' he' (Nat.lt_of_lt_of_le ha himmune.boundary) hpayload hrefs
  · intro span lasting blob i s'' hintern hnew
    have hmade := (internLocked_outcome hs' hintern).madeAbove hs' hnew
    exact ⟨hmade, hmade.index⟩

/-- An atom that nobody refers to, with a hole beside it, becomes builtin while a cycle is marking. The sweep
leaves it, and the next atom does not take the hole. -/
theorem builtins_immune_marking :
    ∃ s₁ s' e, Run (fun _ => True) s₁ [.made ⟨2, 0⟩] s' ∧ s₁.table.marking = true ∧
      s₁.table.entryAt? 1 = none ∧ s₁.table.entry ⟨0, 0⟩ = .ok e ∧ e.refs = 0 ∧ s'.Immortal ⟨0, 0⟩ e := by
  have none := @Run.start (fun _ => True) (.empty (.empty ⟨32, 64, 2⟩ fun _ _ => true) { atomBuckets := 1 })
  have first := none.intern { bytes := [97] } trivial BlobId.text (by cbv)
  have both := first.intern { bytes := [98] } trivial BlobId.text (by cbv)
  have dropped := (both.call (.unregister ⟨0, 0⟩)).call (.unregister ⟨1, 0⟩)
  have marked := (dropped.move .beginMarking).move (.applyMarks [⟨0, 0⟩])
  have marking := (marked.move (.sweep (by cbv) (by cbv))).move .beginMarking
  have later {s₀ s : Store} {events : List Event} (_ : Run (fun _ => True) s₀ events s) :
      Run (fun _ => True) s [] s := .start
  have swept := (later (marking.call .lockAtoms)).move (.sweep (by cbv) (by cbv))
  have another := swept.intern { bytes := [99] } trivial BlobId.text (by cbv)
  have himmune := builtins_immune rfl marking .lockAtoms another
  exact ⟨_, _, _, another, rfl, rfl, rfl, rfl, himmune.1 ⟨0, 0⟩ _ rfl⟩

end AtomHeap.Store
