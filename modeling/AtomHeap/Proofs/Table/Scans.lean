import AtomHeap.Proofs.Table.Change
import AtomHeap.Proofs.Words
/-!
# Scans of words

`Atom.ofWord?` reads just the words that `Atom.toWord` makes (`Atom.ofWord?_eq_some_iff`). So to mark what a marker
took from some words is to mark each live atom from the boundary on whose word is among them, and to do nothing else
(`Table.applyMarks_wordRoots`). It matters neither in which order the words come nor how often.
-/

namespace AtomHeap

/-! ## Words -/

/-- What a marker takes from some words. -/
def wordRoots (words : List UInt64) : List Atom := (({} : Marker).markWords words).atoms.toList

theorem wordRoots_eq (words : List UInt64) : wordRoots words = words.filterMap Atom.ofWord? := by
  unfold wordRoots
  rw [Marker.toList_markWords]
  rfl

/-- Garbage and words that name no slot are left out, and no two words are read as one atom. -/
theorem mem_wordRoots_iff {words : List UInt64} {a : Atom} : a ∈ wordRoots words ↔ a.toWord ∈ words := by
  rw [wordRoots_eq, List.mem_filterMap]
  constructor
  · rintro ⟨w, hw, h⟩
    rwa [← Atom.ofWord?_eq_some_iff.1 h]
  · intro h
    exact ⟨_, h, Atom.ofWord?_eq_some_iff.2 rfl⟩

theorem flatten_wordRoots (reports : List (List UInt64)) :
    (reports.map wordRoots).flatten = wordRoots reports.flatten := by
  rw [wordRoots_eq, List.filterMap_flatten, funext wordRoots_eq]

/-! ## Marks -/

/-- The atom in a slot, if there is one, is marked if the condition holds. -/
def Slot.markIf (s : Slot) (b : Bool) : Slot :=
  { s with entry := s.entry.map fun e => { e with marked := e.marked || b } }

@[simp] theorem Slot.markIf_false (s : Slot) : s.markIf false = s := by
  obtain ⟨g, e⟩ := s
  cases e <;> simp [markIf]

@[simp] theorem Slot.markIf_markIf (s : Slot) (b b' : Bool) : (s.markIf b).markIf b' = s.markIf (b || b') := by
  obtain ⟨g, e⟩ := s
  cases e <;> simp [markIf, Bool.or_assoc]

@[simp] theorem Slot.atom_markIf (s : Slot) (b : Bool) (i : Nat) : (s.markIf b).atom i = s.atom i := rfl

namespace Table

variable {t t' : Table} {a : Atom} {p q : Atom → Bool} {atoms : List Atom} {words : List UInt64} {i : Nat}

/-- Marks the live atoms from the boundary on that a predicate holds of, and changes nothing else. No handle leads
to slots behind the first `2 ^ 32`. -/
def markWhere (t : Table) (p : Atom → Bool) : Table :=
  { t with
    slots := t.slots.mapIdx fun i s =>
      s.markIf (decide (t.builtin ≤ i) && decide (i < UInt32.size) && p (s.atom i)) }

theorem slots_markWhere (t : Table) (p : Atom → Bool) (i : Nat) : (t.markWhere p).slots[i]? =
    t.slots[i]?.map fun s => s.markIf (decide (t.builtin ≤ i) && decide (i < UInt32.size) && p (s.atom i)) :=
  Array.getElem?_mapIdx

/-- Tables that differ at most in slots are equal if the slots are. -/
theorem ext_slots (hslots : ∀ i : Nat, t'.slots[i]? = t.slots[i]?) (hrest : t' = { t with slots := t'.slots }) :
    t' = t := by
  rw [hrest, Array.ext_getElem? hslots]

/-- A slot stays if the predicate does not hold of the atom in it, or that cannot be marked. -/
theorem slots_markWhere_of_not (h : ∀ s e, t.slots[i]? = some s → s.entry = some e → t.builtin ≤ i →
    i < UInt32.size → p (s.atom i) = false) : (t.markWhere p).slots[i]? = t.slots[i]? := by
  rw [slots_markWhere]
  cases hs : t.slots[i]? with
  | none => rfl
  | some s =>
    rw [Option.map_some]
    congr 1
    cases he : s.entry with
    | none =>
      obtain ⟨g, _⟩ := s
      cases he
      rfl
    | some e =>
      by_cases hi : t.builtin ≤ i ∧ i < UInt32.size
      · rw [h s e hs he hi.1 hi.2, Bool.and_false, Slot.markIf_false]
      · rw [← Bool.decide_and, decide_eq_false hi, Bool.false_and, Slot.markIf_false]

theorem markWhere_eq_self (h : ∀ i s e, t.slots[i]? = some s → s.entry = some e → t.builtin ≤ i → i < UInt32.size →
    p (s.atom i) = false) : t.markWhere p = t :=
  ext_slots (fun i => slots_markWhere_of_not (h i)) rfl

theorem markWhere_false (t : Table) : (t.markWhere fun _ => false) = t := markWhere_eq_self fun _ _ _ _ _ _ _ => rfl

theorem markWhere_markWhere (t : Table) (p q : Atom → Bool) :
    (t.markWhere p).markWhere q = t.markWhere fun a => p a || q a := by
  refine ext_slots (fun i => ?_) rfl
  have hbuiltin : (t.markWhere p).builtin = t.builtin := rfl
  rw [slots_markWhere, slots_markWhere, slots_markWhere, Option.map_map, hbuiltin]
  congr 1
  funext s
  simp [Bool.and_or_distrib_left]

/-- To mark an atom is to mark what equals it. -/
theorem mark_eq (t : Table) (a : Atom) : t.mark a = t.markWhere (· == a) := by
  unfold mark
  split
  · rename_i hbuiltin
    refine (markWhere_eq_self (p := (· == a)) fun i s e _ _ hle hi => beq_false_of_ne ?_).symm
    rintro rfl
    rw [toNat_index_atom hi] at hbuiltin
    exact Nat.not_le.2 hbuiltin hle
  · rename_i hbuiltin
    split
    · rename_i e he
      obtain ⟨s, hs, hse, hatom⟩ := slot_of_entry he
      refine (ext_slots (fun i => ?_) rfl).symm
      by_cases hi : i = a.index.toNat
      · rw [slots_markWhere, slots_setEntry, hi, if_pos rfl, hs, Option.map_some, Option.map_some, hatom]
        simp [Slot.markIf, hse, Nat.le_of_not_lt hbuiltin, a.index.toNat_lt]
      · rw [slots_setEntry, if_neg (Ne.symm hi)]
        refine slots_markWhere_of_not (p := (· == a)) fun s e _ _ _ hlt => beq_false_of_ne ?_
        rintro rfl
        exact hi (toNat_index_atom hlt s).symm
    · rename_i error he
      refine (markWhere_eq_self (p := (· == a)) fun i s e hs hse _ hi => beq_false_of_ne ?_).symm
      rintro rfl
      rw [entry_atom hi hs hse] at he
      cases he

theorem applyMarks_eq (t : Table) (atoms : List Atom) :
    t.applyMarks atoms = t.markWhere fun a => decide (a ∈ atoms) := by
  induction atoms generalizing t with
  | nil => exact t.markWhere_false.symm
  | cons a atoms ih =>
    have hstep : t.applyMarks (a :: atoms) = (t.mark a).applyMarks atoms := rfl
    rw [hstep, ih, mark_eq, markWhere_markWhere]
    simp only [List.mem_cons, Bool.decide_or, beq_eq_decide]

theorem applyMarks_append (t : Table) (atoms atoms' : List Atom) :
    t.applyMarks (atoms ++ atoms') = (t.applyMarks atoms).applyMarks atoms' := List.foldl_append

theorem entry_markWhere (t : Table) (p : Atom → Bool) (a : Atom) : (t.markWhere p).entry a =
    (t.entry a).map fun e => { e with marked := e.marked || (decide (t.builtin ≤ a.index.toNat) && p a) } := by
  unfold entry
  rw [slots_markWhere]
  cases hs : t.slots[a.index.toNat]? with
  | none => rfl
  | some s =>
    by_cases hg : s.generation = a.generation
    · have hatom : s.atom a.index.toNat = a := by
        unfold Slot.atom
        rw [hg, UInt32.ofNat_toNat]
      cases he : s.entry <;> simp [Slot.markIf, hg, he, hatom, a.index.toNat_lt, Except.map]
    · simp [Slot.markIf, hg, Except.map]

/-! ## Scans -/

/-- The table with marks on the live atoms from the boundary on whose words are in a list. -/
def scanned (t : Table) (words : List UInt64) : Table := t.markWhere fun a => decide (a.toWord ∈ words)

/-- To mark what a marker took from words is to scan them. -/
theorem applyMarks_wordRoots (t : Table) (words : List UInt64) : t.applyMarks (wordRoots words) = t.scanned words := by
  unfold scanned
  simp only [applyMarks_eq, mem_wordRoots_iff]

/-- It does not matter how words are split among reports. -/
theorem scanned_flatten (t : Table) (reports : List (List UInt64)) :
    reports.foldl (fun t words => t.applyMarks (wordRoots words)) t = t.scanned reports.flatten := by
  rw [← applyMarks_wordRoots, ← flatten_wordRoots]
  induction reports generalizing t with
  | nil => rfl
  | cons words reports ih => rw [List.foldl_cons, ih, List.map_cons, List.flatten_cons, applyMarks_append]

/-- It matters only which words there are. -/
theorem scanned_congr {words words' : List UInt64} (t : Table) (h : ∀ w, w ∈ words ↔ w ∈ words') :
    t.scanned words = t.scanned words' := by
  unfold scanned
  simp only [h]

@[simp] theorem size_scanned (t : Table) (words : List UInt64) : (t.scanned words).slots.size = t.slots.size :=
  Array.size_mapIdx

theorem entry_scanned (t : Table) (words : List UInt64) (a : Atom) :
    (t.scanned words).entry a = (t.entry a).map fun e =>
      { e with marked := e.marked || decide (t.builtin ≤ a.index.toNat ∧ a.toWord ∈ words) } := by
  unfold scanned
  simp only [entry_markWhere, Bool.decide_and]

end Table

end AtomHeap
