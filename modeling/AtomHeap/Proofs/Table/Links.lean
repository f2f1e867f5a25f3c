import AtomHeap.Proofs.Table.Change
import AtomHeap.Table.Sweep
/-!
# What works on slots and chains only

Most of what is done to a table is done to its slots and hash chains (`Table.OnLinks`), and leaves all else: its
settings, its blob types, its figures. What a sweep leaves is what asking a release hook and destroying an atom
leave (`sweepSlots_induction`).
-/

namespace AtomHeap.Table

variable {t t' t'' : Table} {index : Nat} {e : Entry} {a : Atom} {span : Span} {blob : BlobId}

/-- The tables differ in their slots and hash chains only. -/
def OnLinks (t t' : Table) : Prop := t' = { t with slots := t'.slots, chains := t'.chains }

namespace OnLinks

theorem refl (t : Table) : OnLinks t t := rfl

theorem trans (h : OnLinks t t') (h' : OnLinks t' t'') : OnLinks t t'' :=
  Eq.trans h' (congrArg (fun u : Table => { u with slots := t''.slots, chains := t''.chains }) h)

theorem setEntry (t : Table) (index : Nat) (e : Option Entry) : OnLinks t (t.setEntry index e) := rfl

/-- What a table has beside them stays. -/
theorem congr {α : Type} (h : OnLinks t t') (f : Table → α)
    (hf : ∀ t slots chains, f { t with slots, chains } = f t) : f t' = f t := by
  rw [h]
  exact hf t _ _

end OnLinks

/-! ## Chains -/

theorem link_onLinks (h : t.link index e = .ok t') : OnLinks t t' := by
  obtain ⟨⟨number, first⟩, -, h⟩ := bind_eq_ok_iff.1 h
  cases h
  rfl

theorem linkAll_onLinks {indices : List Nat} (h : t.linkAll indices = .ok t') : OnLinks t t' := by
  induction indices generalizing t with
  | nil =>
    cases h
    exact .refl _
  | cons index rest ih =>
    obtain ⟨s, -, h⟩ := bind_eq_ok_iff.1 h
    split at h
    · exact ih h
    · obtain ⟨t₁, hlink, h⟩ := bind_eq_ok_iff.1 h
      exact (link_onLinks hlink).trans (ih h)

theorem growIfFull_onLinks (h : t.growIfFull = .ok t') : OnLinks t t' := by
  obtain ⟨double, -, h⟩ := bind_eq_ok_iff.1 h
  split at h
  · obtain ⟨size, -, h⟩ := bind_eq_ok_iff.1 h
    have hemptied : OnLinks t { t with chains := Array.replicate size none } := rfl
    exact hemptied.trans (linkAll_onLinks h)
  · cases h
    exact .refl t

theorem bypass_onLinks {next first : Option Nat} {steps : Nat} (h : t.bypass index next steps first = .ok t') :
    OnLinks t t' := by
  induction steps generalizing first with
  | zero => cases first <;> cases h
  | succ steps ih =>
    cases first with
    | none => cases h
    | some i =>
      obtain ⟨s, -, h⟩ := bind_eq_ok_iff.1 h
      split at h
      · cases h
      · split at h
        · cases h
          exact .setEntry t i _
        · exact ih h

theorem unlink_onLinks (h : t.unlink index e = .ok t') : OnLinks t t' := by
  obtain ⟨⟨number, first⟩, -, h⟩ := bind_eq_ok_iff.1 h
  dsimp only at h
  split at h
  · cases h
    rfl
  · exact bypass_onLinks h

/-! ## Atoms made and destroyed -/

/-- A new atom gets the slot that is taken for it and a place on the chain of its hash, and it counts. -/
theorem insert_inv {payload : Payload} {hash : UInt64} (h : t.insert payload blob hash = .ok (a, t')) :
    ∃ s t₁, t.takeSlot.2.slot t.takeSlot.1 = .ok s ∧
      t.takeSlot.2.link t.takeSlot.1 { payload, blob, hash, marked := t.takeSlot.2.marking } = .ok t₁ ∧
      a = s.atom t.takeSlot.1 ∧ { t₁ with count := t₁.count + 1 }.growIfFull = .ok t' := by
  obtain ⟨s, hs, h⟩ := bind_eq_ok_iff.1 h
  obtain ⟨t₁, hlink, h⟩ := bind_eq_ok_iff.1 h
  obtain ⟨count, hcount, h⟩ := bind_eq_ok_iff.1 h
  obtain ⟨t₂, hgrow, h⟩ := bind_eq_ok_iff.1 h
  cases h
  obtain ⟨-, rfl⟩ := checkedAdd_eq_ok_iff.1 hcount
  exact ⟨s, t₁, hs, hlink, rfl, hgrow⟩

/-- What destroying the atom of a slot does, if there is one. -/
inductive Destroys (t : Table) (index : Nat) : Option (Address × Nat) → Table → Prop
  | vacant : t.entryAt? index = none → Destroys t index none t
  | unlinked {e : Entry} {t₁ : Table} : t.entryAt? index = some e → t.unlink index e = .ok t₁ →
      Destroys t index e.payload.block? { t₁ with
        slots := t₁.slots.modify index fun s => { generation := s.generation + 1, entry := none }
        holes := t₁.holes.insert index
        count := t₁.count - 1
        bytes := t₁.bytes - e.payload.copied }

theorem destroy_cases {block : Option (Address × Nat)} (h : t.destroy index = .ok (block, t')) :
    Destroys t index block t' := by
  obtain ⟨s, hs, h⟩ := bind_eq_ok_iff.1 h
  have hentry := entryAt?_of_slot hs
  split at h
  · rename_i hnone
    cases h
    exact .vacant (hentry.trans hnone)
  · rename_i e he
    obtain ⟨t₁, hunlink, h⟩ := bind_eq_ok_iff.1 h
    obtain ⟨count, hcount, h⟩ := bind_eq_ok_iff.1 h
    obtain ⟨bytes, hbytes, h⟩ := bind_eq_ok_iff.1 h
    cases h
    obtain ⟨-, rfl⟩ := checkedSub_eq_ok_iff.1 hcount
    obtain ⟨-, rfl⟩ := checkedSub_eq_ok_iff.1 hbytes
    exact .unlinked (hentry.trans he) hunlink

/-! ## Calls and marks -/

theorem Touched.onLinks {counts marks : Prop} (h : Touched counts marks t t') : OnLinks t t' := by
  cases h with
  | not => exact .refl t
  | set => exact .setEntry t _ _

theorem reuse_onLinks (h : t.reuse index = .ok (a, t')) : OnLinks t t' := (reuse_touched h).onLinks

theorem lookup_onLinks {found : Option Atom} (h : t.lookup span blob = .ok (found, t')) : OnLinks t t' :=
  (lookup_touched h).onLinks

theorem register_onLinks (t : Table) (a : Atom) : OnLinks t (t.register a).2 := (register_touched t a).onLinks

theorem unregister_onLinks (t : Table) (a : Atom) : OnLinks t (t.unregister a).2 := (unregister_touched t a).onLinks

theorem applyMarks_onLinks (t : Table) (atoms : List Atom) : OnLinks t (t.applyMarks atoms) := by
  induction atoms generalizing t with
  | nil => exact .refl t
  | cons a atoms ih => exact (mark_touched t a).onLinks.trans (ih _)

/-! ## Sweeps -/

/-- What a visit to a slot keeps, whether it asks and destroys or not, a sweep keeps. -/
theorem sweepSlots_induction (R : Table → Table → Prop) (refl : ∀ t, R t t)
    (trans : ∀ {t t' t''}, R t t' → R t' t'' → R t t'') (links : ∀ {t t'}, OnLinks t t' → R t t')
    (asked : ∀ {t t' blob a call}, t.askRelease blob a = some (call, t') → R t t')
    (destroyed : ∀ {t t' index block}, t.destroy index = .ok (block, t') → R t t')
    {swept swept' : Swept} {indices : List Nat} (h : t.sweepSlots swept indices = .ok (swept', t')) : R t t' := by
  have visited {t t' : Table} {swept swept' : Swept} {index : Nat}
      (h : t.sweepSlot swept index = .ok (swept', t')) : R t t' := by
    obtain ⟨s, -, h⟩ := bind_eq_ok_iff.1 h
    dsimp only at h
    split at h
    · cases h
      exact refl t
    · split at h
      · split at h
        · cases h
          exact refl t
        · rename_i hask
          split at h
          · obtain ⟨⟨block, t₂⟩, hdestroy, h⟩ := bind_eq_ok_iff.1 h
            cases h
            exact trans (asked hask) (destroyed hdestroy)
          · cases h
            exact asked hask
      · cases h
        exact links (.setEntry t index _)
  induction indices generalizing t swept with
  | nil =>
    cases h
    exact refl _
  | cons index rest ih =>
    obtain ⟨⟨swept₁, t₁⟩, hswept, h⟩ := bind_eq_ok_iff.1 h
    exact trans (visited hswept) (ih h)

end AtomHeap.Table
