import AtomHeap.Cycle.Marker
import Mathlib.Data.Nat.Bitwise
/-!
# Atom words

An atom word is a word of three fields: the tag in the low 7 bits, the index in the 33 bits above them and the
generation in the high 24 bits (`Atom.toWord_eq_or`). `Atom.ofWord?` reads the fields of any word, and gives an atom
just where the tag is that of atoms and the index one that an atom can have. So it undoes `Atom.toWord` and refuses
all other words (`Atom.words_exact`).
-/

namespace AtomHeap

namespace Atom

/-! ## Fields -/

/-- The low 7 bits of a word. -/
def tagField (w : UInt64) : UInt64 := w &&& 0x7F

/-- The 33 bits above the tag. -/
def indexField (w : UInt64) : UInt64 := w >>> 7 &&& 0x1FFFFFFFF

/-- The high 24 bits of a word. -/
def generationField (w : UInt64) : UInt64 := w >>> 40

theorem toNat_tagField (w : UInt64) : (tagField w).toNat = w.toNat % tagSpan := by
  unfold tagField
  rw [UInt64.toNat_and]
  exact Nat.and_two_pow_sub_one_eq_mod w.toNat 7

theorem toNat_indexField (w : UInt64) : (indexField w).toNat = w.toNat / tagSpan % indexSpan := by
  unfold indexField
  rw [UInt64.toNat_and, UInt64.toNat_shiftRight, Nat.shiftRight_eq_div_pow]
  exact Nat.and_two_pow_sub_one_eq_mod _ 33

theorem toNat_generationField (w : UInt64) : (generationField w).toNat = w.toNat / tagSpan / indexSpan := by
  unfold generationField
  rw [UInt64.toNat_shiftRight, Nat.shiftRight_eq_div_pow, Nat.div_div_eq_div_mul]
  rfl

/-- The fields take up all bits of a word. -/
theorem toNat_eq_fields (w : UInt64) : w.toNat =
    ((generationField w).toNat * indexSpan + (indexField w).toNat) * tagSpan + (tagField w).toNat := by
  rw [toNat_tagField, toNat_indexField, toNat_generationField, Nat.div_add_mod', Nat.div_add_mod']

/-- The sum that an atom word is does not overflow. -/
theorem toNat_toWord (a : Atom) :
    a.toWord.toNat = (a.generation.toNat * indexSpan + a.index.toNat) * tagSpan + tag := by
  have hgeneration := a.generation.isLt
  have hindex := a.index.toNat_lt
  refine UInt64.toNat_ofNat_of_lt' ?_
  simp only [indexSpan, tagSpan, tag, UInt32.size, UInt64.size]
  omega

theorem eq_toWord_iff {w : UInt64} {a : Atom} : w = a.toWord ↔
    (tagField w).toNat = tag ∧ (indexField w).toNat = a.index.toNat ∧
      (generationField w).toNat = a.generation.toNat := by
  have hindex := a.index.toNat_lt
  rw [← UInt64.toNat_inj, toNat_toWord]
  constructor
  · intro h
    rw [toNat_tagField, toNat_indexField, toNat_generationField, h]
    simp only [indexSpan, tagSpan, tag, UInt32.size]
    omega
  · rintro ⟨htag, hindex, hgeneration⟩
    rw [toNat_eq_fields w, htag, hindex, hgeneration]

/-- The fields are put side by side: none reaches into another. -/
theorem toWord_eq_or (a : Atom) :
    a.toWord = UInt64.ofNat a.generation.toNat <<< 40 ||| a.index.toUInt64 <<< 7 ||| 5 := by
  have hgeneration := a.generation.isLt
  have hindex := a.index.toNat_lt
  have hhigh : (UInt64.ofNat a.generation.toNat <<< 40).toNat = a.generation.toNat <<< 40 := by
    rw [UInt64.toNat_shiftLeft, UInt64.toNat_ofNat_of_lt' (by simp only [UInt64.size]; omega)]
    refine Nat.mod_eq_of_lt ?_
    simp only [UInt64.reduceToNat, Nat.reduceMod, Nat.shiftLeft_eq]
    omega
  have hmiddle : (a.index.toUInt64 <<< 7).toNat = a.index.toNat <<< 7 := by
    rw [UInt64.toNat_shiftLeft, UInt32.toNat_toUInt64]
    refine Nat.mod_eq_of_lt ?_
    simp only [UInt64.reduceToNat, Nat.reduceMod, Nat.shiftLeft_eq]
    omega
  have hlow : a.index.toNat <<< 7 ||| 5 = a.index.toNat <<< 7 + 5 :=
    (Nat.shiftLeft_add_eq_or_of_lt (by decide : 5 < 2 ^ 7) a.index.toNat).symm
  have hbelow : a.index.toNat <<< 7 + 5 < 2 ^ 40 := by
    rw [Nat.shiftLeft_eq]
    omega
  rw [← UInt64.toNat_inj, toNat_toWord, UInt64.toNat_or, UInt64.toNat_or, hhigh, hmiddle, Nat.or_assoc]
  simp only [UInt64.reduceToNat]
  rw [hlow, ← Nat.shiftLeft_add_eq_or_of_lt hbelow]
  simp only [Nat.shiftLeft_eq, indexSpan, tagSpan, tag, UInt32.size]
  omega

/-! ## Reading words -/

theorem ofWord?_eq (w : UInt64) : ofWord? w =
    if (tagField w).toNat = tag ∧ (indexField w).toNat < UInt32.size then
      some ⟨.ofNat (indexField w).toNat, .ofNat 24 (generationField w).toNat⟩
    else none := by
  rw [toNat_tagField, toNat_indexField, toNat_generationField]
  rfl

theorem ofWord?_eq_some_iff {w : UInt64} {a : Atom} : ofWord? w = some a ↔ w = a.toWord := by
  have hgeneration : (generationField w).toNat < 2 ^ 24 := by
    have hw := w.toNat_lt
    rw [toNat_generationField]
    simp only [indexSpan, tagSpan, UInt32.size]
    omega
  rw [ofWord?_eq, eq_toWord_iff]
  constructor
  · intro h
    split at h
    · rename_i hword
      cases h
      refine ⟨hword.1, (UInt32.toNat_ofNat_of_lt' hword.2).symm, ?_⟩
      rw [BitVec.toNat_ofNat, Nat.mod_eq_of_lt hgeneration]
    · cases h
  · rintro ⟨htag, hindex, hfield⟩
    rw [if_pos ⟨htag, hindex ▸ a.index.toNat_lt⟩, hindex, hfield, UInt32.ofNat_toNat, BitVec.ofNat_toNat,
      BitVec.setWidth_eq]

@[simp] theorem ofWord?_toWord (a : Atom) : ofWord? a.toWord = some a := ofWord?_eq_some_iff.2 rfl

theorem toWord_inj {a a' : Atom} : a.toWord = a'.toWord ↔ a = a' := by
  constructor
  · intro h
    have hsome := ofWord?_toWord a
    rw [h, ofWord?_toWord] at hsome
    exact (Option.some.inj hsome).symm
  · rintro rfl
    rfl

theorem ofWord?_eq_none_iff {w : UInt64} :
    ofWord? w = none ↔ tagField w ≠ 5 ∨ UInt32.size ≤ (indexField w).toNat := by
  have htag : tagField w = 5 ↔ (tagField w).toNat = tag := by
    rw [← UInt64.toNat_inj]
    rfl
  rw [ofWord?_eq, ne_eq, htag]
  split
  · rename_i h
    simp only [reduceCtorEq, h.1, not_true_eq_false, false_or, false_iff, Nat.not_le, h.2]
  · rename_i h
    simp only [true_iff]
    rw [not_and_or, Nat.not_lt] at h
    exact h

/-- The tag is right, but no atom has an index this high. -/
example : ofWord? 0x8000000005 = none := by decide

/-- Reading undoes writing and refuses each word that is not written for an atom, and a marker takes just the atoms
that it can read. -/
theorem words_exact :
    (∀ a, ofWord? a.toWord = some a) ∧
    (∀ w a, ofWord? w = some a ↔ w = a.toWord) ∧
    (∀ a a' : Atom, a.toWord = a'.toWord ↔ a = a') ∧
    (∀ w, ofWord? w = none ↔ tagField w ≠ 5 ∨ UInt32.size ≤ (indexField w).toNat) ∧
    (∀ a : Atom, a.toWord = UInt64.ofNat a.generation.toNat <<< 40 ||| a.index.toUInt64 <<< 7 ||| 5) ∧
    (∀ (m : Marker) w a, m.markWord w = (true, m.mark a) ↔ w = a.toWord) ∧
    (∀ (m : Marker) w, m.markWord w = (false, m) ↔ ∀ a : Atom, w ≠ a.toWord) := by
  refine ⟨ofWord?_toWord, fun _ _ => ofWord?_eq_some_iff, fun _ _ => toWord_inj, fun _ => ofWord?_eq_none_iff,
    toWord_eq_or, fun m w a => ?_, fun m w => ?_⟩
  · rw [← ofWord?_eq_some_iff]
    unfold Marker.markWord
    cases h : ofWord? w with
    | none => simp
    | some a' =>
      simp only [Marker.mark, Prod.mk.injEq, Marker.mk.injEq, true_and, Option.some.injEq]
      constructor
      · exact fun hpush => (Array.push_eq_push.1 hpush).1
      · rintro rfl
        rfl
  · have hread (a : Atom) : w = a.toWord ↔ ofWord? w = some a := ofWord?_eq_some_iff.symm
    simp only [hread, ne_eq]
    unfold Marker.markWord
    cases h : ofWord? w <;> simp

end Atom

end AtomHeap
