import AtomHeap.Hash
import Mathlib.Data.Nat.Bitwise
import Mathlib.Order.Interval.Set.Nat
/-!
# How hashes spread

The finalizer of a hash is made of steps that each can be undone: combining the high half of a word into its low
half undoes itself, and an odd factor has an inverse. So `Hash.avalanche` is a permutation of the words, and two
byte strings have one hash only if they had one before it.

`Hash.fold` changes the low `k` bits of a hash by the `k` bits above them. Under high bits that stay the same this
can be undone too, so low bits and chains correspond, and of all the words each chain gets the same number
(`Hash.spread_evenly`).
-/

namespace AtomHeap.Hash

/-! ## The finalizer -/

/-- Shifted in twice, the high half is more than a word away. -/
theorem shiftIn_involutive : Function.Involutive shiftIn := by
  intro h
  have hgone : h >>> 33 >>> 33 = 0 := by
    rw [← UInt64.toNat_inj, UInt64.toNat_shiftRight, UInt64.toNat_shiftRight, ← Nat.shiftRight_add,
      Nat.shiftRight_eq_div_pow]
    exact Nat.div_eq_of_lt (Nat.lt_trans h.toNat_lt (by decide))
  unfold shiftIn
  rw [UInt64.shiftRight_xor, hgone, UInt64.xor_zero, UInt64.xor_assoc, UInt64.xor_self, UInt64.xor_zero]

/-- Undoes `avalanche`: its steps the other way round, with the inverses of its factors. -/
def settle (h : UInt64) : UInt64 :=
  shiftIn (shiftIn (shiftIn h * 0x9cb4b2f8129337db) * 0x4f74430c22a54005)

/-- A factor is undone by its inverse. -/
theorem mul_inverse {factor inverse : UInt64} (h : factor * inverse = 1) (w : UInt64) : w * factor * inverse = w := by
  rw [UInt64.mul_assoc, h, UInt64.mul_one]

theorem settle_avalanche (h : UInt64) : settle (avalanche h) = h := by
  unfold settle avalanche
  rw [shiftIn_involutive, mul_inverse (by decide), shiftIn_involutive, mul_inverse (by decide), shiftIn_involutive]

theorem avalanche_settle (h : UInt64) : avalanche (settle h) = h := by
  unfold settle avalanche
  rw [shiftIn_involutive, mul_inverse (by decide), shiftIn_involutive, mul_inverse (by decide), shiftIn_involutive]

theorem avalanche_bijective : Function.Bijective avalanche :=
  Function.bijective_iff_has_inverse.2 ⟨settle, settle_avalanche, avalanche_settle⟩

/-- As many words are led into a set as it has. -/
theorem ncard_avalanche (s : Set UInt64) : {w | avalanche w ∈ s}.ncard = s.ncard :=
  Set.ncard_preimage_of_injective_subset_range avalanche_bijective.injective
    fun h _ => avalanche_bijective.surjective h

/-- Hashes collide just where the words before the finalizer do. -/
theorem ofBytes_inj {bytes bytes' : List UInt8} : ofBytes bytes = ofBytes bytes' ↔ raw bytes = raw bytes' :=
  avalanche_bijective.injective.eq_iff

/-! ## Chains -/

variable {h : UInt64} {k high low n : Nat}

/-- The low bits of a hash, changed by the bits above them. -/
theorem fold_eq_xor (h : UInt64) (k : Nat) : fold h k = h.toNat % 2 ^ k ^^^ h.toNat / 2 ^ k % 2 ^ k := by
  unfold fold
  rw [Nat.one_shiftLeft, Nat.xor_mod_two_pow, Nat.shiftRight_eq_div_pow]

/-- Folding as words do it, by a shift and a mask. -/
theorem fold_eq_mask (h : UInt64) (hk : k < 64) : fold h k = ((h ^^^ h >>> .ofNat k) &&& (.ofNat (2 ^ k) - 1)).toNat := by
  have hpow : 2 ^ k < UInt64.size := Nat.pow_lt_pow_right (by decide) hk
  have hshift : (UInt64.ofNat k).toNat % 64 = k := by
    rw [UInt64.toNat_ofNat_of_lt' (Nat.lt_trans hk (by decide)), Nat.mod_eq_of_lt hk]
  have hmask : (UInt64.ofNat (2 ^ k) - 1).toNat = 2 ^ k - 1 := by
    have hle : 1 ≤ UInt64.ofNat (2 ^ k) := by
      rw [UInt64.le_iff_toNat_le, UInt64.toNat_ofNat_of_lt' hpow]
      exact Nat.two_pow_pos k
    rw [UInt64.toNat_sub_of_le _ _ hle, UInt64.toNat_ofNat_of_lt' hpow]
    rfl
  unfold fold
  rw [UInt64.toNat_and, hmask, Nat.and_two_pow_sub_one_eq_mod, UInt64.toNat_xor, UInt64.toNat_shiftRight, hshift,
    Nat.one_shiftLeft]

theorem chain_two_pow (h : UInt64) (k : Nat) : chain h (2 ^ k) = .ok (fold h k) := by
  unfold chain
  rw [if_pos (isPowerOfTwo_iff.2 ⟨k, (Nat.one_shiftLeft k).symm⟩), Nat.log2_two_pow]

/-- The chain of a hash gives away its low bits to those who know the bits above them. -/
theorem fold_eq_iff : fold h k = n ↔ h.toNat % 2 ^ k = n ^^^ h.toNat / 2 ^ k % 2 ^ k := by
  rw [fold_eq_xor]
  constructor
  · rintro rfl
    rw [Nat.xor_xor_cancel_right]
  · intro hlow
    rw [hlow, Nat.xor_xor_cancel_right]

/-- The word with these low `k` bits and these bits above them. -/
def ofParts (k high low : Nat) : UInt64 := .ofNat (high * 2 ^ k + low)

section Parts

variable (hk : k ≤ 64) (hhigh : high < 2 ^ (64 - k)) (hlow : low < 2 ^ k)
include hk hhigh hlow

theorem toNat_ofParts : (ofParts k high low).toNat = high * 2 ^ k + low := by
  refine UInt64.toNat_ofNat_of_lt' ?_
  calc high * 2 ^ k + low
    _ < high * 2 ^ k + 2 ^ k := Nat.add_lt_add_left hlow _
    _ = (high + 1) * 2 ^ k := (Nat.succ_mul high _).symm
    _ ≤ 2 ^ (64 - k) * 2 ^ k := Nat.mul_le_mul_right _ hhigh
    _ = UInt64.size := by rw [← Nat.pow_add, Nat.sub_add_cancel hk]

theorem ofParts_mod : (ofParts k high low).toNat % 2 ^ k = low := by
  rw [toNat_ofParts hk hhigh hlow, Nat.mul_add_mod', Nat.mod_eq_of_lt hlow]

theorem ofParts_div : (ofParts k high low).toNat / 2 ^ k = high := by
  rw [toNat_ofParts hk hhigh hlow, Nat.mul_comm, Nat.mul_add_div (Nat.two_pow_pos k), Nat.div_eq_of_lt hlow,
    Nat.add_zero]

theorem fold_ofParts : fold (ofParts k high low) k = low ^^^ high % 2 ^ k := by
  rw [fold_eq_xor, ofParts_mod hk hhigh hlow, ofParts_div hk hhigh hlow]

end Parts

/-- Under the same high bits, low bits and chains correspond. -/
theorem bijOn_low (hk : k ≤ 64) (hhigh : high < 2 ^ (64 - k)) :
    Set.BijOn (fun low => fold (ofParts k high low) k) (Set.Iio (2 ^ k)) (Set.Iio (2 ^ k)) := by
  -- What the high bits change, they change back.
  have hmaps : Set.MapsTo (· ^^^ high % 2 ^ k) (Set.Iio (2 ^ k)) (Set.Iio (2 ^ k)) :=
    fun low hlow => Nat.xor_lt_two_pow hlow (Nat.mod_lt _ (Nat.two_pow_pos k))
  have hinv : Set.InvOn (· ^^^ high % 2 ^ k) (· ^^^ high % 2 ^ k) (Set.Iio (2 ^ k)) (Set.Iio (2 ^ k)) :=
    ⟨fun low _ => Nat.xor_xor_cancel_right low _, fun low _ => Nat.xor_xor_cancel_right low _⟩
  exact (hinv.bijOn hmaps hmaps).congr fun low hlow => (fold_ofParts hk hhigh hlow).symm

/-- On each chain there is one word for any high bits. -/
theorem bijOn_high (hk : k ≤ 64) (hn : n < 2 ^ k) :
    Set.BijOn (fun h : UInt64 => h.toNat / 2 ^ k) {h | fold h k = n} (Set.Iio (2 ^ (64 - k))) := by
  refine ⟨fun h _ => ?_, fun h hh h' hh' he => ?_, fun high hhigh => ?_⟩
  · refine Nat.div_lt_of_lt_mul ?_
    rw [← Nat.pow_add, Nat.add_sub_cancel' hk]
    exact h.toNat_lt
  · have hlow : h.toNat % 2 ^ k = h'.toNat % 2 ^ k := by
      rw [fold_eq_iff.1 hh, fold_eq_iff.1 hh', show h.toNat / 2 ^ k = h'.toNat / 2 ^ k from he]
    rw [← UInt64.toNat_inj, ← Nat.div_add_mod h.toNat (2 ^ k), ← Nat.div_add_mod h'.toNat (2 ^ k), hlow,
      show h.toNat / 2 ^ k = h'.toNat / 2 ^ k from he]
  · have hlow : n ^^^ high % 2 ^ k < 2 ^ k := Nat.xor_lt_two_pow hn (Nat.mod_lt _ (Nat.two_pow_pos k))
    refine ⟨ofParts k high (n ^^^ high % 2 ^ k), ?_, ofParts_div hk hhigh hlow⟩
    exact (fold_ofParts hk hhigh hlow).trans (Nat.xor_xor_cancel_right n _)

theorem ncard_chain (hk : k ≤ 64) (hn : n < 2 ^ k) : {h | chain h (2 ^ k) = .ok n}.ncard = 2 ^ (64 - k) := by
  simp only [chain_two_pow, Except.ok.injEq]
  rw [(bijOn_high hk hn).ncard_eq, Set.ncard_Iio_nat]

/-- The finalizer loses nothing, and for any number of chains that a word can hold each of them gets as many words
as the others, whether counted after the finalizer or before it. -/
theorem spread_evenly :
    Function.Bijective avalanche ∧
    (∀ bytes bytes', ofBytes bytes = ofBytes bytes' ↔ raw bytes = raw bytes') ∧
    ∀ k < 64,
      (∀ h, chain h (2 ^ k) = .ok (fold h k) ∧ fold h k < 2 ^ k ∧
        fold h k = ((h ^^^ h >>> .ofNat k) &&& (.ofNat (2 ^ k) - 1)).toNat) ∧
      (∀ high < 2 ^ (64 - k),
        Set.BijOn (fun low => fold (ofParts k high low) k) (Set.Iio (2 ^ k)) (Set.Iio (2 ^ k))) ∧
      ∀ n < 2 ^ k, {h | chain h (2 ^ k) = .ok n}.ncard = 2 ^ (64 - k) ∧
        {w | chain (avalanche w) (2 ^ k) = .ok n}.ncard = 2 ^ (64 - k) := by
  refine ⟨avalanche_bijective, fun _ _ => ofBytes_inj, fun k hk => ⟨fun h => ?_, fun high hhigh => ?_, fun n hn => ?_⟩⟩
  · exact ⟨chain_two_pow h k, Nat.one_shiftLeft k ▸ fold_lt h k, fold_eq_mask h hk⟩
  · exact bijOn_low (Nat.le_of_lt hk) hhigh
  · have hcount := ncard_chain (Nat.le_of_lt hk) hn
    exact ⟨hcount, (ncard_avalanche _).trans hcount⟩

/-- With so many chains that the shift reaches past half of the word. -/
theorem spread_evenly_long_shift :
    40 < 64 ∧ 0xABCDEF < 2 ^ (64 - 40) ∧
      Set.BijOn (fun low => fold (ofParts 40 0xABCDEF low) 40) (Set.Iio (2 ^ 40)) (Set.Iio (2 ^ 40)) ∧
      fold (ofParts 40 0xABCDEF 0x1234567890) 40 = 0x1234FDB57F ∧
      0x1234FDB57F < 2 ^ 40 ∧ {h | chain h (2 ^ 40) = .ok 0x1234FDB57F}.ncard = 2 ^ 24 := by
  obtain ⟨-, hlow, hcount⟩ := spread_evenly.2.2 40 (by decide)
  exact ⟨by decide, by decide, hlow _ (by decide), by decide, by decide, (hcount _ (by decide)).1⟩

end AtomHeap.Hash
