import AtomHeap.Proofs.Table.Sweep
/-!
# Marks

An atom is `Black` if the next sweep has to leave it: it is builtin, or marked. Whatever callers do,
and marking roots, `Keeps` what is black. While a cycle is marking, the atoms that come are black.
-/

namespace AtomHeap.Table

variable {spans : Span → Prop} {t t' t'' : Table} {buckets index : Nat} {e e' : Entry} {s : Slot} {a : Atom}
  {id blob : BlobId} {span : Span} {payload : Payload}

/-- A live atom that is builtin or marked. -/
def Black (t : Table) (a : Atom) : Prop :=
  ∃ e, t.entry a = .ok e ∧ (a.index.toNat < t.builtin ∨ e.marked = true)

/-- No atom goes and no mark is taken back, and an atom that comes while a cycle is marking is black. -/
structure Keeps (t t' : Table) : Prop where
  marking : t'.marking = t.marking
  builtin : t.builtin ≤ t'.builtin
  entry : ∀ a e, t.entry a = .ok e → ∃ e', t'.entry a = .ok e' ∧ (e.marked = true → e'.marked = true)
  born : t.marking = true → ∀ a e', t'.entry a = .ok e' → (∃ e, t.entry a = .ok e) ∨ t'.Black a

namespace Keeps

theorem black (h : Keeps t t') (ha : t.Black a) : t'.Black a := by
  obtain ⟨e, he, hblack⟩ := ha
  obtain ⟨e', he', hmarked⟩ := h.entry a e he
  exact ⟨e', he', hblack.imp (fun hb => Nat.lt_of_lt_of_le hb h.builtin) hmarked⟩

theorem trans (h : Keeps t t') (h' : Keeps t' t'') : Keeps t t'' where
  marking := h'.marking.trans h.marking
  builtin := Nat.le_trans h.builtin h'.builtin
  entry a e he := by
    obtain ⟨e', he', hmarked⟩ := h.entry a e he
    obtain ⟨e'', he'', hmarked'⟩ := h'.entry a e' he'
    exact ⟨e'', he'', hmarked' ∘ hmarked⟩
  born hm a e'' he'' := by
    rcases h'.born (h.marking.trans hm) a e'' he'' with ⟨e', he'⟩ | hblack
    · exact (h.born hm a e' he').imp id h'.black
    · exact .inr hblack

/-- The atoms are the same, with entries that have at least the marks. -/
theorem of_map (f : Atom → Entry → Entry) (hmarking : t'.marking = t.marking)
    (hbuiltin : t.builtin ≤ t'.builtin)
    (hentry : ∀ a, t'.entry a = (t.entry a).map (f a))
    (hf : ∀ a e, t.entry a = .ok e → e.marked = true → (f a e).marked = true) : Keeps t t' where
  marking := hmarking
  builtin := hbuiltin
  entry a e he := by
    refine ⟨f a e, ?_, hf a e he⟩
    rw [hentry, he]
    rfl
  born _ a e' he' := by
    rw [hentry] at he'
    cases he : t.entry a with
    | ok e => exact .inl ⟨e, rfl⟩
    | error error =>
      rw [he] at he'
      cases he'

theorem of_slots (hslots : t'.slots = t.slots) (hmarking : t'.marking = t.marking)
    (hbuiltin : t.builtin ≤ t'.builtin) :
    Keeps t t' := by
  refine .of_map (fun _ e => e) hmarking hbuiltin (fun a => ?_) fun _ _ _ h => h
  unfold Table.entry
  rw [hslots]
  cases t.slots[a.index.toNat]? with
  | none => rfl
  | some s =>
    dsimp only
    split
    · split <;> rfl
    · rfl

theorem refl (t : Table) : Keeps t t := .of_slots rfl rfl (Nat.le_refl _)

end Keeps

theorem Keeps.setEntry (he : t.entryAt? index = some e) (hmarked : e.marked = true → e'.marked = true) :
    Keeps t (t.setEntry index (some e')) := by
  refine .of_map _ rfl (Nat.le_refl _) (entry_setEntry he e') ?_
  intro a e₁ he₁ hm
  split
  · rename_i hi
    have := (entry_eq_ok_iff.1 he₁).1
    rw [hi, he] at this
    cases this
    exact hmarked hm
  · exact hm

theorem Touched.keeps {counts marks : Prop} (h : Touched counts marks t t') : Keeps t t' := by
  cases h with
  | not => exact .refl t
  | set he _ hmarked => exact .setEntry he hmarked

/-! ## What callers do -/

theorem reuse_keeps (h : t.reuse index = .ok (a, t')) : Keeps t t' := (reuse_touched h).keeps

theorem lookup_keeps {found : Option Atom} (h : t.lookup span blob = .ok (found, t')) : Keeps t t' :=
  (lookup_touched h).keeps

theorem register_keeps (t : Table) (a : Atom) : Keeps t (t.register a).2 := (register_touched t a).keeps

theorem unregister_keeps (t : Table) (a : Atom) : Keeps t (t.unregister a).2 := (unregister_touched t a).keeps

theorem unregisterBlob_keeps (h : t.unregisterBlob id = .ok t') : Keeps t t' := by
  have hentry := entry_unregisterBlob h
  obtain ⟨blobs, -, rfl⟩ := unregisterBlob_eq h
  refine .of_map (fun _ e => e.withdraw id) rfl (Nat.le_refl _) hentry ?_
  intro a e _ hm
  unfold Entry.withdraw
  split <;> exact hm

theorem requestCollection_keeps (t : Table) : Keeps t t.requestCollection.2 := by
  unfold requestCollection
  split
  · exact .of_slots rfl rfl (Nat.le_refl _)
  · exact .refl t

theorem lockAtoms_keeps (h : t.Sound buckets 0) : Keeps t t.lockAtoms := .of_slots rfl rfl h.accounted.boundary

/-- Slots that are the same but for links have the same atoms but for links. -/
theorem entry_bare (hs : t'.slots[a.index.toNat]?.map Slot.bare = t.slots[a.index.toNat]?.map Slot.bare) :
    (t'.entry a).map Entry.bare = (t.entry a).map Entry.bare := by
  apply entry_congr
  have := congrArg (Option.map fun s : Slot => (s.generation, s.entry)) hs
  rwa [Option.map_map, Option.map_map] at this

/-- Making an atom leaves the others as they are but for links. -/
theorem Inserted.survives {g : BitVec 24} {e₁ : Entry} (h : Inserted t e₁ index g t') (he : t.entry a = .ok e) :
    ∃ e', t'.entry a = .ok e' ∧ e'.bare = e.bare := by
  -- A live atom is not in the slot, because that was vacant.
  have hne : a.index.toNat ≠ index := by
    intro hindex
    have hi := (entry_eq_ok_iff.1 he).1
    rw [hindex, h.vacant] at hi
    cases hi
  have hbare := entry_bare (h.others _ hne)
  rw [he] at hbare
  cases he' : t'.entry a with
  | error error =>
    rw [he'] at hbare
    cases hbare
  | ok e' =>
    rw [he'] at hbare
    exact ⟨e', rfl, Except.ok.inj hbare⟩

/-- An atom that is live afterwards is in the slot, or was there before. -/
theorem Inserted.live {g : BitVec 24} {e₁ : Entry} (h : Inserted t e₁ index g t') (he' : t'.entry a = .ok e') :
    (a.index.toNat = index ∧ e'.bare = e₁.bare) ∨ ∃ e, t.entry a = .ok e ∧ e'.bare = e.bare := by
  rcases h.of_some (entry_eq_ok_iff.1 he').1 with ⟨hi, hbare⟩ | ⟨hne, -⟩
  · exact .inl ⟨hi, hbare.symm⟩
  · have hbare := entry_bare (h.others _ hne)
    rw [he'] at hbare
    cases he : t.entry a with
    | ok e =>
      rw [he] at hbare
      exact .inr ⟨e, rfl, Except.ok.inj hbare⟩
    | error error =>
      rw [he] at hbare
      cases hbare

/-- A new atom that is marked while a cycle is marking. -/
theorem Inserted.keeps {g : BitVec 24} (h : Inserted t e index g t') (hm : e.marked = t.marking) :
    Keeps t t' where
  marking := by rw [h.rest]
  builtin := Nat.le_of_eq (by rw [h.rest])
  entry a e₀ he₀ := by
    obtain ⟨e', he', hbare⟩ := h.survives he₀
    have hmarked : e'.marked = e₀.marked := congrArg (·.marked) hbare
    exact ⟨e', he', fun h => hmarked.trans h⟩
  born hmarking a e' he' := by
    rcases h.live he' with ⟨-, hbare⟩ | ⟨e₀, he₀, -⟩
    · have hmarked : e'.marked = e.marked := congrArg (·.marked) hbare
      exact .inr ⟨e', he', .inr (by rw [hmarked, hm, hmarking])⟩
    · exact .inl ⟨e₀, he₀⟩

theorem Inserted.black {g : BitVec 24} (h : Inserted t e index g t') (hi : index < UInt32.size)
    (hm : e.marked = true) :
    t'.Black ⟨.ofNat index, g⟩ := by
  obtain ⟨e', he', hbare⟩ := h.entry hi
  have hmarked : e'.marked = e.marked := congrArg (·.marked) hbare
  exact ⟨e', he', .inr (hmarked.trans hm)⟩

/-- Whoever puts a mark on the entry of a live atom makes the atom black. -/
theorem black_setEntry (he : t.entry a = .ok e) (hm : e'.marked = true) :
    (t.setEntry a.index.toNat (some e')).Black a := by
  refine ⟨e', ?_, .inr hm⟩
  rw [entry_setEntry (entry_eq_ok_iff.1 he).1, he]
  exact congrArg Except.ok (if_pos rfl)

theorem black_setEntry_atom (hi : index < UInt32.size) (hs : t.slots[index]? = some s) (he : s.entry = some e)
    (hm : e'.marked = true) : (t.setEntry index (some e')).Black (s.atom index) := by
  have := black_setEntry (entry_atom hi hs he) hm
  rwa [toNat_index_atom hi] at this

theorem reuse_black (he : t.entryAt? index = some e) (hi : index < UInt32.size) (hm : t.marking = true)
    (h : t.reuse index = .ok (a, t')) : t'.Black a := by
  obtain ⟨s, hs, h⟩ := bind_eq_ok_iff.1 h
  have hse := (entryAt?_of_slot hs).symm.trans he
  simp only [hse] at h
  cases h
  exact black_setEntry_atom hi (slot_eq_ok_iff.1 hs) hse (by simp [hm])

theorem notice_black (hi : index < UInt32.size) (hs : t.slots[index]? = some s) (he : s.entry = some e)
    (hm : t.marking = true) : (t.notice index s).Black (s.atom index) := by
  unfold notice
  simp only [he, hm, if_pos]
  exact black_setEntry_atom hi hs he rfl

/-- An atom that was looked up while a cycle is marking is black. -/
theorem Sound.lookup_black (h : t.Sound buckets 0) (hsize : t.slots.size ≤ UInt32.size)
    (hm : t.marking = true)
    (hl : t.lookup span blob = .ok (some a, t')) : t'.Black a := by
  obtain ⟨index, s, e, hs, hse, rfl, rfl⟩ := h.lookup_found hl
  exact notice_black (Nat.lt_of_lt_of_le (lt_of_entryAt? (entryAt?_eq_some_iff.2 ⟨s, hs, hse⟩)) hsize) hs hse hm

/-- An atom that lost its last reference while a cycle is marking is black. -/
theorem unregister_black (hm : t.marking = true) (hok : (t.unregister a).1 = .ok ())
    (hrefs : (t.unregister a).2.refsOf a = .ok 0) : (t.unregister a).2.Black a := by
  unfold unregister at hok hrefs ⊢
  cases he : t.entry a with
  | error error =>
    rw [he] at hok
    cases hok
  | ok e =>
    simp only [he] at hok hrefs ⊢
    split
    · rename_i hb
      exact ⟨e, he, .inl hb⟩
    · rename_i hb
      split
      · rename_i h0
        rw [if_neg hb, if_pos h0] at hok
        cases hok
      · rename_i h0
        rw [if_neg hb, if_neg h0] at hrefs
        unfold refsOf at hrefs
        rw [entry_setEntry (entry_eq_ok_iff.1 he).1, he] at hrefs
        have hzero : e.refs - 1 = 0 := by simpa [Except.map, bind, Except.bind, pure, Except.pure] using hrefs
        exact black_setEntry he (by simp [hm, hzero])

/-! ## Roots -/

theorem mark_black (he : t.entry a = .ok e) : (t.mark a).Black a := by
  unfold mark
  split
  · rename_i hb
    exact ⟨e, he, .inl hb⟩
  · simp only [he]
    exact black_setEntry he rfl

theorem applyMarks_keeps (t : Table) (atoms : List Atom) : Keeps t (t.applyMarks atoms) := by
  induction atoms generalizing t with
  | nil => exact .refl t
  | cons a atoms ih => exact (mark_touched t a).keeps.trans (ih _)

theorem applyMarks_black {atoms : List Atom} (ha : a ∈ atoms) (he : t.entry a = .ok e) :
    (t.applyMarks atoms).Black a := by
  induction atoms generalizing t e with
  | nil => cases ha
  | cons a' atoms ih =>
    rcases List.mem_cons.1 ha with rfl | ha
    · exact (applyMarks_keeps _ atoms).black (mark_black he)
    · obtain ⟨e', he', -⟩ := (mark_touched t a').keeps.entry a e he
      exact ih ha he'

/-! ## The sweep -/

theorem Garbage.white (h : t.Garbage index a) (hsize : t.slots.size ≤ UInt32.size) :
    (∃ e, t.entry a = .ok e) ∧ ¬ t.Black a := by
  obtain ⟨hle, s, e, hs, hse, rfl, -, hmarked⟩ := h
  have hi : index < UInt32.size := Nat.lt_of_lt_of_le (Array.getElem?_eq_some_iff.1 hs).1 hsize
  have he := entry_atom hi hs hse
  refine ⟨⟨e, he⟩, ?_⟩
  rintro ⟨e', he', hblack⟩
  rw [he, Except.ok.injEq] at he'
  subst he'
  rw [toNat_index_atom hi] at hblack
  rcases hblack with hb | hm
  · exact absurd hb (Nat.not_lt.2 hle)
  · rw [hmarked] at hm
    cases hm

end AtomHeap.Table
