import AtomHeap.Proofs.Table.Change
/-!
# What a sweep does with a slot

A sweep visits a slot in one of three ways (`Table.Visited`): it asks nothing about the slot and leaves
no mark there, or it asks the hook that decides about the atom in the slot, and destroys the atom or
leaves it as the hook answers. Everything about sweeps is proved from that.
-/

namespace AtomHeap

/-- A hook that decides about atoms. -/
structure Decider where
  /-- The type whose release hook it is, with its name; none for the fallback hook. -/
  asked : Option (BlobId × String)
  hook : ReleaseHook
  /-- How often it was asked. -/
  count : Nat

/-- The question about an atom, when the hook was asked `since` times since. -/
def Decider.call (d : Decider) (since : Nat) (a : Atom) : ReleaseCall := ⟨d.asked, a, d.hook (d.count + since) a⟩

/-- The hook after some questions were put, to it or to others. -/
def Decider.later (d : Decider) (calls : List ReleaseCall) : Decider :=
  { d with count := d.count + calls.countP (·.asked = d.asked) }

theorem Decider.later_append (d : Decider) (calls calls' : List ReleaseCall) :
    (d.later calls).later calls' = d.later (calls ++ calls') := by
  unfold later
  rw [List.countP_append, ← Nat.add_assoc]

/-- A slot after its atom was destroyed. -/
def Slot.emptied (s : Slot) : Slot := ⟨s.generation + 1, none⟩

/-- A slot without a mark, apart from the place of its entry on a chain. -/
def Slot.spared (s : Slot) : Slot := { s with entry := s.entry.map ({ ·.bare with marked := false }) }

namespace Table

/-- The hook that decides about atoms of a type: the release hook of the type, or else the fallback
hook. -/
def decider? (t : Table) (blob : BlobId) : Option Decider :=
  (t.blobs.types[blob.toNat]?.bind fun r => r.type.release.map (⟨some (blob, r.type.name), ·, r.asked⟩)).or
    (t.fallback.map fun (hook, count) => ⟨none, hook, count⟩)

/-- The table with a hook asked once more. -/
def noted (t : Table) : Option (BlobId × String) → Table
  | some (blob, _) =>
    { t with blobs := ⟨t.blobs.types.modify blob.toNat fun r => { r with asked := r.asked + 1 }⟩ }
  | none => { t with fallback := t.fallback.map fun (hook, count) => (hook, count + 1) }

/-- The atom in the slot of an index, if it is above the boundary and neither referenced nor marked, and
the hook that decides about it. -/
def question? (t : Table) (i : Nat) : Option (Atom × Decider) := do
  let s ← t.slots[i]?
  let e ← s.entry
  if t.builtin ≤ i ∧ e.refs = 0 ∧ e.marked = false then (t.decider? e.blob).map (s.atom i, ·) else none

/-- The sweep asks nothing about the atom in a slot, which has no mark then. -/
structure Passed (t : Table) (i : Nat) (t' : Table) : Prop where
  slot : t'.slots[i]?.map Slot.bare = t.slots[i]?.map Slot.spared
  others : ∀ j ≠ i, t'.slots[j]? = t.slots[j]?
  amended : Amended t t'
  rest : t' = { t with slots := t'.slots }

/-- What the sweep does with a slot. -/
inductive Visited (t : Table) (i : Nat) (swept : Swept) : Swept → Table → Prop
  | passed {t' : Table} : t.question? i = none → Passed t i t' → Visited t i swept swept t'
  | spared {a : Atom} {d : Decider} : t.question? i = some (a, d) → (d.call 0 a).answer = false →
      Visited t i swept (swept.ask (d.call 0 a)) (t.noted d.asked)
  | destroyed {a : Atom} {d : Decider} {e : Entry} {t' : Table} : t.question? i = some (a, d) →
      (d.call 0 a).answer = true → t.entryAt? i = some e →
      (t.noted d.asked).destroy i = .ok (e.payload.block?, t') →
      Visited t i swept ((swept.ask (d.call 0 a)).destroy a e.payload.block?) t'

variable {t t' : Table} {buckets i : Nat} {e : Entry} {s : Slot} {a : Atom} {d d' : Decider} {blob : BlobId}
  {swept swept' : Swept}

theorem question?_eq_some_iff : t.question? i = some (a, d) ↔ ∃ s e, t.slots[i]? = some s ∧ s.entry = some e ∧
    t.builtin ≤ i ∧ e.refs = 0 ∧ e.marked = false ∧ t.decider? e.blob = some d ∧ a = s.atom i := by
  unfold question?
  simp only [bind, Option.bind_eq_some_iff]
  constructor
  · rintro ⟨s, hs, e, he, h⟩
    split at h
    · rename_i hdead
      obtain ⟨d', hd, heq⟩ := Option.map_eq_some_iff.1 h
      cases heq
      exact ⟨s, e, hs, he, hdead.1, hdead.2.1, hdead.2.2, hd, rfl⟩
    · cases h
  · rintro ⟨s, e, hs, he, hle, hrefs, hmarked, hd, rfl⟩
    refine ⟨s, hs, e, he, ?_⟩
    rw [if_pos ⟨hle, hrefs, hmarked⟩, hd]
    rfl

/-! ## Asking hooks -/

theorem askRelease_eq (t : Table) (blob : BlobId) (a : Atom) :
    t.askRelease blob a = (t.decider? blob).map fun d => (d.call 0 a, t.noted d.asked) := by
  have hfallback : (t.fallback.map fun (hook, asked) =>
      ((⟨none, a, hook asked a⟩ : ReleaseCall), { t with fallback := some (hook, asked + 1) })) =
      (t.fallback.map fun (hook, count) => (⟨none, hook, count⟩ : Decider)).map
        fun d => (d.call 0 a, t.noted d.asked) := by
    cases h : t.fallback with
    | none => rfl
    | some f => simp [Decider.call, noted, h]
  unfold askRelease BlobRegistry.askRelease decider?
  cases htype : t.blobs.types[blob.toNat]? with
  | none => simpa using hfallback
  | some r =>
    cases hhook : r.type.release with
    | none => simpa [hhook] using hfallback
    | some hook => simp [hhook, Decider.call, noted, BlobRegistry.get?, htype]

theorem noted_amended (t : Table) (asked : Option (BlobId × String)) : Amended t (t.noted asked) := by
  refine ⟨?_, ?_, ?_, ?_, ?_, ?_, ?_⟩
  all_goals cases asked
  all_goals try rfl
  · exact fun _ _ h => h
  · intro id type hid
    unfold BlobRegistry.get? at hid ⊢
    unfold noted
    rw [Array.getElem?_modify]
    split
    · rwa [Option.map_map]
    · exact hid

theorem slots_noted (t : Table) (asked : Option (BlobId × String)) : (t.noted asked).slots = t.slots := by
  cases asked <;> rfl

/-- A hook that was asked counts that, and no other does. -/
theorem decider?_noted (h : t.decider? blob = some d) (a : Atom) (blob' : BlobId) :
    (t.noted d.asked).decider? blob' = (t.decider? blob').map (·.later [d.call 0 a]) := by
  unfold decider? at h
  rcases Option.or_eq_some_iff.1 h with h | ⟨-, h⟩
  · obtain ⟨r, hr, h⟩ := Option.bind_eq_some_iff.1 h
    obtain ⟨hook, hhook, rfl⟩ := Option.map_eq_some_iff.1 h
    unfold decider? noted
    simp only [Array.getElem?_modify, UInt32.toNat_inj]
    by_cases hb : blob = blob'
    · subst hb
      simp [hr, hhook, Decider.later, Decider.call]
    · rw [if_neg hb]
      cases t.blobs.types[blob'.toNat]? with
      | none => cases t.fallback <;> simp [Decider.later, Decider.call]
      | some r' =>
        cases hhook' : r'.type.release <;> cases t.fallback <;> simp [hhook', Decider.later, Decider.call, hb]
  · obtain ⟨⟨hook, count⟩, hf, rfl⟩ := Option.map_eq_some_iff.1 h
    unfold decider? noted
    cases t.blobs.types[blob'.toNat]? with
    | none => simp [hf, Decider.later, Decider.call]
    | some r' => cases hhook : r'.type.release <;> simp [hf, hhook, Decider.later, Decider.call]

/-! ## Visits -/

/-- A slot that needs no question has no mark after the visit. -/
theorem Passed.setEntry (he : t.entryAt? i = some e) :
    Passed t i (t.setEntry i (some { e with marked := false })) := by
  obtain ⟨s, hs, hse⟩ := entryAt?_eq_some_iff.1 he
  refine ⟨?_, fun j hj => ?_, .setEntry he rfl, rfl⟩
  · rw [slots_setEntry, if_pos rfl, hs]
    simp [Slot.bare, Slot.spared, hse, Entry.bare]
  · rw [slots_setEntry, if_neg (Ne.symm hj)]

/-- A slot that has no mark is passed when nothing is done. -/
theorem Passed.refl (hs : t.slots[i]? = some s) (hmarked : ∀ e ∈ s.entry, e.marked = false) : Passed t i t := by
  refine ⟨?_, fun _ _ => rfl, .refl t, rfl⟩
  rw [hs]
  cases he : s.entry with
  | none => simp [Slot.bare, Slot.spared, he]
  | some e => simp [Slot.bare, Slot.spared, he, Entry.bare, hmarked e he]

/-- The sweep of a slot is one of the visits. -/
theorem Sound.visit (h : t.Sound buckets 0) (hle : t.builtin ≤ i) (hlt : i < t.slots.size) (swept : Swept) :
    ∃ swept' t', t.sweepSlot swept i = .ok (swept', t') ∧ Visited t i swept swept' t' := by
  obtain ⟨s, hs, hslot⟩ := slot_of_lt hlt
  unfold Table.sweepSlot
  rw [hs]
  simp only [bind, Except.bind]
  cases hse : s.entry with
  | none =>
    refine ⟨swept, t, rfl, .passed ?_ (.refl hslot (by simp [hse]))⟩
    unfold question?
    simp [hslot, hse]
  | some e =>
    have he := entryAt?_eq_some_iff.2 ⟨s, hslot, hse⟩
    simp only
    split
    · rename_i hdead
      have hmarked : e.marked = false := by simpa using hdead.2
      have hquestion : t.question? i = (t.decider? e.blob).map (s.atom i, ·) := by
        unfold question?
        simp [hslot, hse, hle, hdead.1, hmarked]
      rw [askRelease_eq]
      cases hd : t.decider? e.blob with
      | none =>
        refine ⟨swept, t, rfl, .passed (by rw [hquestion, hd]; rfl) (.refl hslot ?_)⟩
        rw [hse]
        rintro _ ⟨⟩
        exact hmarked
      | some d =>
        rw [hd] at hquestion
        simp only [Option.map_some]
        split
        · rename_i hanswer
          have hnoted := noted_amended t d.asked
          have he' : (t.noted d.asked).entryAt? i = some e := by
            unfold entryAt?
            rw [slots_noted]
            exact he
          obtain ⟨t', hdestroy, -, -⟩ := (h.amended hnoted).destroy he' (hnoted.builtin ▸ hle)
          refine ⟨_, t', ?_, .destroyed hquestion hanswer he hdestroy⟩
          rw [hdestroy]
          rfl
        · rename_i hanswer
          exact ⟨_, _, rfl, .spared hquestion (by simpa using hanswer)⟩
    · rename_i hdead
      refine ⟨swept, _, rfl, .passed ?_ (.setEntry he)⟩
      unfold question?
      simp only [hslot, hse, bind, Option.bind_some]
      rw [if_neg]
      rintro ⟨-, hrefs, hmarked⟩
      exact hdead ⟨hrefs, by simp [hmarked]⟩

end Table

end AtomHeap
