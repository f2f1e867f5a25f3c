import AtomHeap.Proofs.Store.Handles
import AtomHeap.Proofs.Store.Interning
import AtomHeap.Proofs.Store.Marks
/-!
# What a cycle leaves alone

A cycle that does not sweep works on marks and on when to collect, and on nothing else: `Table.Intact`.
While no cycle is marking callers set no mark (`Table.Fades`), so once all marks above the builtin boundary
are gone (`Table.Unmarked`) none comes back before the next cycle.
-/

namespace AtomHeap

/-- A slot apart from the mark of its entry. -/
def Slot.unmarked (s : Slot) : Slot := { s with entry := s.entry.map Entry.unmarked }

namespace Table

variable {spans : Span → Prop} {t t' t'' : Table} {buckets index : Nat} {e e' : Entry} {s : Slot} {a : Atom}
  {id blob : BlobId} {span : Span}

/-- The tables differ at most in marks and in when to collect. -/
structure Intact (t t' : Table) : Prop where
  slots : t'.slots.map Slot.unmarked = t.slots.map Slot.unmarked
  rest : { t' with
    slots := t.slots, marking := t.marking, requested := t.requested, nonGarbage := t.nonGarbage } = t

namespace Intact

theorem refl (t : Table) : Intact t t := ⟨rfl, rfl⟩

theorem trans (h : Intact t t') (h' : Intact t' t'') : Intact t t'' := by
  refine ⟨h'.slots.trans h.slots, ?_⟩
  have := congrArg (fun u : Table => { u with
    slots := t.slots, marking := t.marking, requested := t.requested, nonGarbage := t.nonGarbage }) h'.rest
  exact this.trans h.rest

theorem setEntry (he : t.entryAt? index = some e) (hmark : e'.unmarked = e.unmarked) :
    Intact t (t.setEntry index (some e')) := by
  refine ⟨Array.ext_getElem? fun i => ?_, rfl⟩
  obtain ⟨s, hs, hse⟩ := entryAt?_eq_some_iff.1 he
  rw [Array.getElem?_map, Array.getElem?_map, slots_setEntry]
  split
  · rename_i hi
    rw [← hi, hs]
    simp [Slot.unmarked, hse, hmark]
  · rfl

/-- Each atom is what it was, but for its mark. -/
theorem entry (h : Intact t t') (a : Atom) : (t'.entry a).map Entry.unmarked = (t.entry a).map Entry.unmarked := by
  apply entry_congr
  have := congrArg (fun slots : Array Slot => slots[a.index.toNat]?.map fun s => (s.generation, s.entry)) h.slots
  rwa [Array.getElem?_map, Array.getElem?_map, Option.map_map, Option.map_map] at this

theorem of_ok (h : Intact t t') (he : t.entry a = .ok e) : ∃ e', t'.entry a = .ok e' ∧ e'.unmarked = e.unmarked := by
  have hentry := h.entry a
  rw [he] at hentry
  cases he' : t'.entry a with
  | error error =>
    rw [he'] at hentry
    cases hentry
  | ok e' =>
    rw [he'] at hentry
    exact ⟨e', rfl, Except.ok.inj hentry⟩

end Intact

/-- What neither counts references nor makes atoms leaves all but marks. -/
theorem Touched.intact {marks : Prop} (h : Touched False marks t t') : Intact t t' := by
  cases h with
  | not => exact .refl t
  | @set _ e refs _ he hrefs =>
    have hsame : refs = e.refs := hrefs.resolve_right (·.1)
    exact .setEntry he (by rw [hsame]; rfl)

theorem applyMarks_intact (t : Table) (atoms : List Atom) : Intact t (t.applyMarks atoms) := by
  induction atoms generalizing t with
  | nil => exact .refl t
  | cons a atoms ih => exact (mark_touched t a).intact.trans (ih _)

theorem abortMarking_intact (t : Table) : Intact t t.abortMarking := by
  refine ⟨?_, rfl⟩
  unfold abortMarking
  rw [Array.map_map]
  congr 1
  funext s
  obtain ⟨g, e⟩ := s
  cases e <;> rfl

theorem requestCollection_intact (t : Table) : Intact t t.requestCollection.2 := by
  unfold requestCollection
  split
  · exact ⟨rfl, rfl⟩
  · exact .refl t

/-! ## No marks -/

/-- No atom at or above the builtin boundary is marked. -/
def Unmarked (t : Table) : Prop := ∀ i e, t.builtin ≤ i → t.entryAt? i = some e → e.marked = false

theorem abortMarking_unmarked (t : Table) {i : Nat} (he : t.abortMarking.entryAt? i = some e) :
    e.marked = false := by
  obtain ⟨s, hs, hse⟩ := entryAt?_eq_some_iff.1 he
  unfold abortMarking at hs
  rw [Array.getElem?_map, Option.map_eq_some_iff] at hs
  obtain ⟨s₀, -, rfl⟩ := hs
  obtain ⟨e₀, -, rfl⟩ := Option.map_eq_some_iff.1 hse
  rfl

/-- A sweep takes back the marks of what it leaves. -/
theorem SweptBelow.unmarked {swept : Swept} (h : SweptBelow t t.slots.size swept t') : t'.Unmarked := by
  intro i e hle he
  obtain ⟨s', hs', hse⟩ := entryAt?_eq_some_iff.1 he
  have hlt : i < t.slots.size := h.size ▸ (Array.getElem?_eq_some_iff.1 hs').1
  obtain ⟨s₁, hs₁, hbare⟩ := h.slot (Array.getElem?_eq_getElem hlt)
  cases hs'.symm.trans hs₁
  have hbuiltin : t'.builtin = t.builtin := by rw [h.rest]
  rw [if_neg (by omega)] at hbare
  split at hbare
  · have hempty := congrArg (·.entry) hbare
    simp [Slot.emptied, Slot.bare, hse] at hempty
  · have hspared := (congrArg (·.entry) hbare).symm
    simp only [Slot.spared, Slot.bare, hse, Option.map_some, Option.map_eq_some_iff] at hspared
    obtain ⟨e₀, -, he₀⟩ := hspared
    exact (congrArg (·.marked) he₀).symm

/-- Marks at most go, and the boundary does not come down. -/
structure Fades (t t' : Table) : Prop where
  marking : t'.marking = t.marking
  boundary : t.builtin ≤ t'.builtin
  entry : ∀ i e', t'.entryAt? i = some e' → e'.marked = true → ∃ e, t.entryAt? i = some e ∧ e.marked = true

theorem Fades.unmarked (h : Fades t t') (ht : t.Unmarked) : t'.Unmarked := by
  intro i e' hle he'
  cases hm : e'.marked with
  | false => rfl
  | true =>
    obtain ⟨e, he, hmarked⟩ := h.entry i e' he' hm
    rw [ht i e (Nat.le_trans h.boundary hle) he] at hmarked
    cases hmarked

namespace Fades

theorem of_entries (hentries : t'.entryAt? = t.entryAt?) (hmarking : t'.marking = t.marking)
    (hbuiltin : t.builtin ≤ t'.builtin) : Fades t t' :=
  ⟨hmarking, hbuiltin, fun _ e he hm => ⟨e, hentries ▸ he, hm⟩⟩

theorem refl (t : Table) : Fades t t := .of_entries rfl rfl (Nat.le_refl _)

theorem setEntry (he : t.entryAt? index = some e) (hmark : e'.marked = true → e.marked = true) :
    Fades t (t.setEntry index (some e')) := by
  refine ⟨rfl, Nat.le_refl _, fun i e₁ he₁ hm => ?_⟩
  by_cases hi : i = index
  · subst hi
    rw [entryAt?_setEntry_self (lt_of_entryAt? he)] at he₁
    cases he₁
    exact ⟨e, he, hmark hm⟩
  · rw [entryAt?_setEntry_ne hi] at he₁
    exact ⟨e₁, he₁, hm⟩

end Fades

/-! ## Callers set no mark while no cycle is marking -/

theorem Touched.fades {counts marks : Prop} (h : Touched counts marks t t') (hmarks : ¬ marks) : Fades t t' := by
  cases h with
  | not => exact .refl t
  | set he _ _ hmarked => exact .setEntry he fun hm => (hmarked hm).resolve_right hmarks

theorem reuse_fades (hm : t.marking = false) (h : t.reuse index = .ok (a, t')) : Fades t t' :=
  (reuse_touched h).fades (by simp [hm])

theorem lookup_fades (hm : t.marking = false) {found : Option Atom} (h : t.lookup span blob = .ok (found, t')) :
    Fades t t' :=
  (lookup_touched h).fades (by simp [hm])

theorem register_fades (t : Table) (a : Atom) : Fades t (t.register a).2 := (register_touched t a).fades id

theorem unregister_fades (hm : t.marking = false) (a : Atom) : Fades t (t.unregister a).2 :=
  (unregister_touched t a).fades (by simp [hm])

theorem Inserted.fades {g : BitVec 24} (h : Inserted t e index g t') (hm : e.marked = false) : Fades t t' := by
  refine ⟨by rw [h.rest], Nat.le_of_eq (by rw [h.rest]), fun i e' he' hmarked => ?_⟩
  rcases h.of_some he' with ⟨-, hbare⟩ | ⟨-, e₀, he₀, hbare⟩
  · have : e.marked = e'.marked := congrArg (·.marked) hbare
    rw [hmarked, hm] at this
    cases this
  · have : e₀.marked = e'.marked := congrArg (·.marked) hbare
    exact ⟨e₀, he₀, this.trans hmarked⟩

theorem unregisterBlob_fades (h : t.unregisterBlob id = .ok t') : Fades t t' := by
  have hentry := entryAt?_unregisterBlob h
  obtain ⟨blobs, -, rfl⟩ := unregisterBlob_eq h
  refine ⟨rfl, Nat.le_refl _, fun i e' he' hm => ?_⟩
  rw [hentry, Option.map_eq_some_iff] at he'
  obtain ⟨e, he, rfl⟩ := he'
  refine ⟨e, he, ?_⟩
  unfold Entry.withdraw at hm
  split at hm <;> exact hm

theorem requestCollection_fades (t : Table) : Fades t t.requestCollection.2 := by
  unfold requestCollection
  split
  · exact .of_entries rfl rfl (Nat.le_refl _)
  · exact .refl t

end Table

namespace Store

variable {spans : Span → Prop} {s s' : Store} {events : List Event} {buckets : Nat} {span : Span} {blob : BlobId}

theorem Outcome.fades (hs : s.table.Sound buckets 0) (hm : s.table.marking = false) {r : Except AtomError Interned}
    (h : Outcome s span blob r s') : Table.Fades s.table s'.table := by
  cases h with
  | refused e htable =>
    rw [htable]
    exact .refl _
  | found _ _ _ hreuse => exact Table.reuse_fades hm hreuse
  | made hwanted hinsert =>
    obtain ⟨index, g, -, hinserted, -⟩ := hs.made hwanted hinsert
    have hfades := hinserted.fades hm
    exact ⟨hfades.marking, hfades.boundary, hfades.entry⟩

/-- While no cycle is marking callers set no mark. -/
theorem Call.fades (hs : s.table.Sound buckets 0) (hm : s.table.marking = false) (h : Call spans s events s') :
    Table.Fades s.table s'.table := by
  cases h with
  | intern _ h => exact (internLocked_outcome hs h).fades hs hm
  | internRefused _ h => exact (internLocked_outcome hs h).fades hs hm
  | lookup _ h => exact Table.lookup_fades hm (lookup_table h)
  | register a => exact Table.register_fades _ a
  | unregister a => exact Table.unregister_fades hm a
  | registerBlob h =>
    obtain ⟨blobs, rfl⟩ := Table.registerBlob_eq h
    exact .of_entries rfl rfl (Nat.le_refl _)
  | unregisterBlob h => exact Table.unregisterBlob_fades h
  | setFallback hook => exact .of_entries rfl rfl (Nat.le_refl _)
  | lockAtoms => exact .of_entries rfl rfl hs.accounted.boundary
  | requestCollection => exact Table.requestCollection_fades s.table
  | other heap calls => exact .refl _

end Store

end AtomHeap
