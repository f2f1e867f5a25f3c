import AtomHeap.Proofs.Table.Links
/-!
# What a request for a cycle goes by

Whether interning asks for a cycle depends on the number of live atoms and on four fields of the table, its
gauge. A request, its clearing, and what takes the live atoms as those that are left set the gauge, and
nothing else does. All but making and destroying atoms and these leave the table steady: the number of live
atoms stays too.
-/

namespace AtomHeap.Table

variable {t t' t'' : Table} {index : Nat} {e : Entry} {a : Atom} {span : Span} {blob : BlobId}

/-- What of a table a request for a cycle goes by, besides the number of live atoms. -/
def gauge (t : Table) : Bool × Nat × Nat × Bool := (t.agcEnabled, t.margin, t.nonGarbage, t.requested)

theorem gauge_eq_iff : t'.gauge = t.gauge ↔ t'.agcEnabled = t.agcEnabled ∧ t'.margin = t.margin ∧
    t'.nonGarbage = t.nonGarbage ∧ t'.requested = t.requested := by
  unfold gauge
  rw [Prod.mk.injEq, Prod.mk.injEq, Prod.mk.injEq]

/-- Neither the gauge nor the number of live atoms is different. -/
structure Steady (t t' : Table) : Prop where
  gauge : t'.gauge = t.gauge
  count : t'.count = t.count

namespace Steady

theorem refl (t : Table) : Steady t t := ⟨rfl, rfl⟩

theorem trans (h : Steady t t') (h' : Steady t' t'') : Steady t t'' :=
  ⟨h'.gauge.trans h.gauge, h'.count.trans h.count⟩

/-- What works on slots and chains only leaves the gauge. -/
theorem of_onLinks (h : OnLinks t t') : Steady t t' :=
  ⟨h.congr Table.gauge fun _ _ _ => rfl, h.congr (·.count) fun _ _ _ => rfl⟩

end Steady

/-! ## Atoms made and destroyed -/

/-- There is one more atom, and the gauge stays. -/
theorem insert_gauge {payload : Payload} {hash : UInt64} (h : t.insert payload blob hash = .ok (a, t')) :
    t'.gauge = t.gauge ∧ t'.count = t.count + 1 := by
  have htake : Steady t t.takeSlot.2 := by
    unfold takeSlot
    split <;> exact ⟨rfl, rfl⟩
  obtain ⟨s, t₁, -, hlink, -, hgrow⟩ := insert_inv h
  have hlinked := htake.trans (.of_onLinks (link_onLinks hlink))
  have hgrown := Steady.of_onLinks (growIfFull_onLinks hgrow)
  exact ⟨hgrown.gauge.trans hlinked.gauge, hgrown.count.trans (congrArg (· + 1) hlinked.count)⟩

theorem destroy_gauge {block : Option (Address × Nat)} (h : t.destroy index = .ok (block, t')) :
    t'.gauge = t.gauge := by
  cases destroy_cases h with
  | vacant => rfl
  | unlinked _ hunlink => exact (Steady.of_onLinks (unlink_onLinks hunlink)).gauge

theorem askRelease_gauge {call : ReleaseCall} (h : t.askRelease blob a = some (call, t')) : t'.gauge = t.gauge := by
  unfold askRelease at h
  split at h
  · cases h
    rfl
  · obtain ⟨⟨hook, asked⟩, -, heq⟩ := Option.map_eq_some_iff.1 h
    cases heq
    rfl

theorem sweepSlots_gauge {swept swept' : Swept} {indices : List Nat}
    (h : t.sweepSlots swept indices = .ok (swept', t')) : t'.gauge = t.gauge :=
  sweepSlots_induction (fun t t' => t'.gauge = t.gauge) (fun _ => rfl) (fun h h' => h'.trans h)
    (fun h => (Steady.of_onLinks h).gauge) askRelease_gauge destroy_gauge h

/-- A sweep takes the atoms that are left as such. -/
theorem sweep_gauge {swept : Swept} (h : t.sweep = .ok (swept, t')) :
    t'.gauge = { t with nonGarbage := t'.count }.gauge := by
  obtain ⟨⟨swept₁, t₁⟩, hslots, h⟩ := bind_eq_ok_iff.1 h
  cases h
  obtain ⟨henabled, hmargin, -, hrequested⟩ := gauge_eq_iff.1 (sweepSlots_gauge hslots)
  exact gauge_eq_iff.2 ⟨henabled, hmargin, rfl, hrequested⟩

theorem requestCollection_of_enabled (h : t.agcEnabled = true) :
    t.requestCollection = (!t.requested, { t with requested := true }) := by
  unfold requestCollection
  rw [if_pos h]

/-- A cycle is due if the live atoms outnumber those left by more than the margin. -/
theorem shouldCollect_of_enabled (h : t.agcEnabled = true) {due : Bool} (hdue : t.shouldCollect = .ok due) :
    due = true ↔ t.nonGarbage + t.margin < t.count := by
  unfold shouldCollect at hdue
  rw [if_pos h] at hdue
  obtain ⟨sum, hsum, hdue⟩ := bind_eq_ok_iff.1 hdue
  obtain ⟨-, rfl⟩ := checkedAdd_eq_ok_iff.1 hsum
  cases hdue
  exact decide_eq_true_iff

/-! ## What leaves a table steady -/

theorem reuse_steady (h : t.reuse index = .ok (a, t')) : Steady t t' := .of_onLinks (reuse_onLinks h)

theorem lookup_steady {found : Option Atom} (h : t.lookup span blob = .ok (found, t')) : Steady t t' :=
  .of_onLinks (lookup_onLinks h)

theorem register_steady (t : Table) (a : Atom) : Steady t (t.register a).2 := .of_onLinks (register_onLinks t a)

theorem unregister_steady (t : Table) (a : Atom) : Steady t (t.unregister a).2 :=
  .of_onLinks (unregister_onLinks t a)

theorem applyMarks_steady (t : Table) (atoms : List Atom) : Steady t (t.applyMarks atoms) :=
  .of_onLinks (applyMarks_onLinks t atoms)

theorem registerBlob_steady {type : BlobType} (h : t.registerBlob type = .ok (blob, t')) : Steady t t' := by
  obtain ⟨blobs, rfl⟩ := registerBlob_eq h
  exact ⟨rfl, rfl⟩

theorem unregisterBlob_steady (h : t.unregisterBlob blob = .ok t') : Steady t t' := by
  obtain ⟨blobs, -, rfl⟩ := unregisterBlob_eq h
  exact ⟨rfl, rfl⟩

end AtomHeap.Table
