import AtomHeap.Proofs.Store.Run
import AtomHeap.Proofs.Table.Marks
/-!
# What callers do while a cycle marks

Callers keep what is black, and make black what they touch while a cycle is marking.
-/

namespace AtomHeap.Store

variable {spans : Span → Prop} {s s' : Store} {events : List Event} {buckets : Nat} {span : Span}
  {blob : BlobId}

def Event.atom : Event → Atom
  | .made a | .found a | .dropped a | .destroyed a => a

theorem Outcome.keeps (hs : s.table.Sound buckets 0) {r : Except AtomError Interned}
    (h : Outcome s span blob r s') :
    Table.Keeps s.table s'.table := by
  cases h with
  | refused e htable =>
    rw [htable]
    exact .refl _
  | found _ _ _ hreuse => exact Table.reuse_keeps hreuse
  | made hwanted hinsert =>
    obtain ⟨index, g, -, hinserted, -⟩ := hs.made hwanted hinsert
    have hbytes : ∀ n, Table.Keeps s.table { s.table with bytes := n } := fun n =>
      .of_slots rfl rfl (Nat.le_refl _)
    exact (hbytes _).trans (hinserted.keeps rfl)

/-- The atom that interning gives while a cycle is marking is black. -/
theorem Outcome.black (hs : s.table.Sound buckets 0) (hsize : s'.table.slots.size ≤ UInt32.size)
    (hm : s.table.marking = true) {i : Interned} (h : Outcome s span blob (.ok i) s') :
    s'.table.Black i.atom := by
  cases h with
  | @found _ type index _ _ _ hfind hreuse =>
    obtain ⟨e, he, -⟩ := hs.linked.found hfind
    refine Table.reuse_black he (Nat.lt_of_lt_of_le (Table.lt_of_entryAt? he) ?_) hm hreuse
    rwa [← (Table.reuse_amended hreuse).size]
  | made hwanted hinsert =>
    obtain ⟨index, g, rfl, hinserted, -⟩ := hs.made hwanted hinsert
    have hlt : index < s'.table.slots.size := by
      rw [hinserted.size]
      exact Nat.le_max_right _ _
    exact hinserted.black (Nat.lt_of_lt_of_le hlt hsize) hm

theorem Call.keeps (hs : s.table.Sound buckets 0) (h : Call spans s events s') :
    Table.Keeps s.table s'.table := by
  cases h with
  | intern _ h => exact (internLocked_outcome hs h).keeps hs
  | internRefused _ h => exact (internLocked_outcome hs h).keeps hs
  | lookup _ h => exact Table.lookup_keeps (lookup_table h)
  | register a => exact Table.register_keeps _ a
  | unregister a => exact Table.unregister_keeps _ a
  | registerBlob h =>
    obtain ⟨blobs, rfl⟩ := Table.registerBlob_eq h
    exact .of_slots rfl rfl (Nat.le_refl _)
  | unregisterBlob h => exact Table.unregisterBlob_keeps h
  | setFallback hook => exact .of_slots rfl rfl (Nat.le_refl _)
  | lockAtoms => exact Table.lockAtoms_keeps hs
  | requestCollection => exact Table.requestCollection_keeps s.table
  | other heap calls => exact .refl _

theorem mem_dropEvents {a : Atom} {answer : Except AtomError Unit} {refs : Except AtomError Nat}
    {event : Event}
    (h : event ∈ dropEvents a answer refs) : event = .dropped a ∧ answer = .ok () ∧ refs = .ok 0 := by
  unfold dropEvents at h
  split at h
  · exact ⟨List.mem_singleton.1 h, rfl, rfl⟩
  · cases h

/-- What callers touch while a cycle is marking is black. -/
theorem Call.black (hs : s.table.Sound buckets 0) (hsize : s'.table.slots.size ≤ UInt32.size)
    (hm : s.table.marking = true) (h : Call spans s events s') :
    ∀ event ∈ events, s'.table.Black event.atom := by
  intro event hevent
  cases h with
  | @intern _ _ _ _ i _ h =>
    have hblack := (internLocked_outcome hs h).black hs hsize hm
    have hatom : event.atom = i.atom := by
      rw [List.mem_singleton.1 hevent]
      split <;> rfl
    rwa [hatom]
  | @lookup _ _ _ found _ h =>
    cases found with
    | none => cases hevent
    | some a =>
      rw [List.mem_singleton.1 hevent]
      refine hs.lookup_black ?_ hm (lookup_table h)
      rwa [← (Table.lookup_amended (lookup_table h)).size]
  | unregister a =>
    obtain ⟨rfl, hok, hrefs⟩ := mem_dropEvents hevent
    exact Table.unregister_black hm hok hrefs
  | _ => cases hevent

end AtomHeap.Store
