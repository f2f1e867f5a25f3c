import AtomHeap.Memory.Size
/-!
# Rounding and size classes

A rounded request is a multiple of the alignment, and the class of a fast request has blocks of just
that length.
-/

namespace AtomHeap

variable {size rounded : Nat}

theorem roundUp_eq_ok_iff :
    roundUp size = .ok rounded ↔
      1 ≤ size ∧ size ≤ maxRequest ∧ rounded = (size + (alignment - 1)) / alignment * alignment := by
  unfold roundUp
  split
  · rename_i h
    constructor
    · rintro ⟨⟩
      exact ⟨h.1, h.2, rfl⟩
    · rintro ⟨-, -, rfl⟩
      rfl
  · rename_i h
    constructor
    · rintro ⟨⟩
    · rintro ⟨h₁, h₂, -⟩
      exact absurd ⟨h₁, h₂⟩ h

theorem roundUp_eq_error_iff {e : AllocError} :
    roundUp size = .error e ↔ e = .badRequest ∧ (size = 0 ∨ maxRequest < size) := by
  unfold roundUp
  split
  · rename_i hle
    simp only [reduceCtorEq, false_iff, not_and]
    omega
  · rename_i hlt
    simp only [Except.error.injEq, eq_comm (a := AllocError.badRequest), iff_self_and]
    omega

theorem aligned_of_roundUp (h : roundUp size = .ok rounded) : rounded % alignment = 0 := by
  obtain ⟨-, -, rfl⟩ := roundUp_eq_ok_iff.1 h
  exact Nat.mul_mod_left _ _

theorem pos_of_roundUp (h : roundUp size = .ok rounded) : 0 < rounded := by
  obtain ⟨h, -, rfl⟩ := roundUp_eq_ok_iff.1 h
  simp only [alignment] at *
  omega

theorem le_of_roundUp (h : roundUp size = .ok rounded) : size ≤ rounded := by
  obtain ⟨-, -, rfl⟩ := roundUp_eq_ok_iff.1 h
  simp only [alignment]
  omega

theorem rounded_le (h : roundUp size = .ok rounded) : rounded ≤ maxRequest := by
  obtain ⟨-, hle, rfl⟩ := roundUp_eq_ok_iff.1 h
  have hmax : maxRequest = 9223372036854775792 := rfl
  simp only [hmax, alignment] at *
  omega

/-- A multiple of the alignment is served by a block of just that length. -/
theorem eq_of_roundUp (h : roundUp size = .ok rounded) (ha : size % alignment = 0) : rounded = size := by
  obtain ⟨-, -, rfl⟩ := roundUp_eq_ok_iff.1 h
  simp only [alignment] at *
  omega

theorem roundUp_of_aligned (hpos : 0 < size) (hle : size ≤ maxRequest) (ha : size % alignment = 0) :
    roundUp size = .ok size := by
  refine roundUp_eq_ok_iff.2 ⟨hpos, hle, ?_⟩
  simp only [alignment] at *
  omega

namespace SizeClass

variable {allocFast c : Nat}

theorem aligned_blockSize (c : Nat) : blockSize c % alignment = 0 := Nat.mul_mod_left _ _

theorem ofSize_of_roundUp (h : roundUp size = .ok rounded) :
    ofSize size allocFast = .ok (if rounded ≤ allocFast then .fast (rounded / alignment) else .big) := by
  simp only [ofSize, h]

/-- The class of a fast request: blocks of the rounded length, on a shelf that every pool has. -/
theorem ofSize_eq_fast (h : ofSize size allocFast = .ok (.fast c)) :
    roundUp size = .ok (blockSize c) ∧ blockSize c ≤ allocFast ∧ c < count allocFast := by
  cases hr : roundUp size with
  | error e => simp [ofSize, hr] at h
  | ok rounded =>
    rw [ofSize_of_roundUp hr] at h
    split at h
    · rename_i hle
      simp only [Except.ok.injEq, fast.injEq] at h
      have ha := aligned_of_roundUp hr
      have hb : blockSize c = rounded := by
        simp only [blockSize, alignment] at *
        omega
      refine ⟨hb ▸ rfl, hb ▸ hle, ?_⟩
      simp only [count, alignment] at *
      omega
    · cases h

/-- A request is served from the class of its length, or is a big one. -/
theorem ofSize_cases (h : roundUp size = .ok rounded) (allocFast : Nat) :
    (∃ c, rounded = blockSize c ∧ ofSize size allocFast = .ok (.fast c)) ∨
      (allocFast < rounded ∧ ofSize size allocFast = .ok .big) := by
  have hclass := @ofSize_of_roundUp _ _ allocFast h
  split at hclass
  · obtain ⟨hblock, -, -⟩ := ofSize_eq_fast hclass
    exact .inl ⟨_, Except.ok.inj (h.symm.trans hblock), hclass⟩
  · exact .inr ⟨Nat.lt_of_not_le ‹_›, hclass⟩

/-- A stretch of memory that is short enough for a block is just as long as the blocks of some class. -/
theorem ofSize_of_aligned (hpos : 0 < size) (ha : size % alignment = 0) (hfast : size ≤ allocFast)
    (hle : size ≤ maxRequest) : ∃ c, size = blockSize c ∧ ofSize size allocFast = .ok (.fast c) :=
  (ofSize_cases (roundUp_of_aligned hpos hle ha) allocFast).resolve_right fun hbig =>
    Nat.not_lt.2 hfast hbig.1

theorem ofSize_eq_big (h : ofSize size allocFast = .ok .big) :
    ∃ rounded, roundUp size = .ok rounded ∧ allocFast < rounded := by
  cases hr : roundUp size with
  | error e => simp [ofSize, hr] at h
  | ok rounded =>
    rw [ofSize_of_roundUp hr] at h
    split at h
    · cases h
    · rename_i hle
      exact ⟨rounded, rfl, Nat.lt_of_not_le hle⟩

/-- The class that serves a request, where one does. -/
def fast? (size allocFast : Nat) : Option Nat :=
  match ofSize size allocFast with
  | .ok (.fast c) => some c
  | _ => none

theorem fast?_eq_some_iff : fast? size allocFast = some c ↔ ofSize size allocFast = .ok (.fast c) := by
  unfold fast?
  split
  · rename_i d hd
    simp only [hd, Option.some.injEq, Except.ok.injEq, fast.injEq]
  · rename_i hne
    exact ⟨nofun, fun h => absurd h (hne c)⟩

end SizeClass

end AtomHeap
