import AtomHeap.Memory.Size
import AtomHeap.Memory.FreeList
import Mathlib.Algebra.Ring.Int.Defs
import Mathlib.Algebra.Ring.Nat
import Mathlib.Tactic.Common
/-!
# Which regions a byte lies in

Who owns a byte is said by counting: `coverage rs a` is the number of regions of a list in which the
byte lies. Regions partition a chunk when each of its bytes has coverage 1. Counts only add up, so
moving a region from one list to another, cutting one in two and dropping an empty one are equations
between numbers.
-/

namespace AtomHeap

namespace Region

/-- Whether a byte lies in a region. -/
def covers (r : Region) (a : Address) : Bool :=
  r.start.chunk == a.chunk && decide (r.start.offset ≤ a.offset ∧ a.offset < r.start.offset + r.length)

/-- No byte lies in both regions. -/
def Apart (r q : Region) : Prop := ∀ a, ¬ (r.covers a ∧ q.covers a)

/-- A region starts at a multiple of the alignment and is a multiple of it long. -/
structure Aligned (r : Region) : Prop where
  start : r.start.offset % alignment = 0
  length : r.length % alignment = 0

theorem covers_iff {r : Region} {a : Address} :
    r.covers a = true ↔
      r.start.chunk = a.chunk ∧ r.start.offset ≤ a.offset ∧ a.offset < r.start.offset + r.length := by
  simp [covers]

theorem covers_of_length_zero {r : Region} (h : r.length = 0) (a : Address) : r.covers a = false := by
  simp only [covers, h, Nat.add_zero, Bool.and_eq_false_iff, decide_eq_false_iff_not]
  omega

/-- A region of positive length has a first byte. -/
theorem covers_start {r : Region} (h : 0 < r.length) : r.covers r.start = true :=
  covers_iff.2 ⟨rfl, Nat.le_refl _, by omega⟩

theorem covers_last {r : Region} (h : 0 < r.length) :
    r.covers (r.start.advance (r.length - 1)) = true := by
  rw [covers_iff]
  simp only [Address.advance, true_and]
  omega

end Region

/-- How many of some regions a byte lies in. -/
def coverage (rs : List Region) (a : Address) : Nat := rs.countP (·.covers a)

/-- The blocks of a class that start at some addresses. -/
def blocksAt (c : Nat) (bs : List Address) : List Region :=
  bs.map fun b => ⟨b, SizeClass.blockSize c⟩

section Coverage

variable {rs qs : List Region} {r q : Region} {a : Address}

@[simp] theorem coverage_nil : coverage [] a = 0 := rfl

theorem coverage_cons : coverage (r :: rs) a = coverage [r] a + coverage rs a := by
  rw [coverage, coverage, coverage, List.countP_cons, List.countP_singleton]
  exact Nat.add_comm _ _

theorem coverage_append : coverage (rs ++ qs) a = coverage rs a + coverage qs a :=
  List.countP_append

theorem coverage_perm (h : rs.Perm qs) : coverage rs a = coverage qs a := h.countP_eq _

theorem coverage_one : coverage [r] a = if r.covers a then 1 else 0 := List.countP_singleton

theorem coverage_empty (h : r.length = 0) : coverage [r] a = 0 := by
  simp [coverage_one, Region.covers_of_length_zero h]

theorem coverage_cut {s : Address} {k n : Nat} (h : k ≤ n) :
    coverage [⟨s, n⟩] a = coverage [⟨s, k⟩] a + coverage [⟨s.advance k, n - k⟩] a := by
  simp only [coverage_one, Region.covers_iff, Address.advance]
  by_cases hc : s.chunk = a.chunk
  · simp only [hc, true_and]
    split_ifs <;> omega
  · simp [hc]

theorem coverage_pos_of_mem (h : r ∈ rs) (hr : r.covers a) : 0 < coverage rs a :=
  List.countP_pos_iff.2 ⟨r, h, hr⟩

/-- Where no byte lies in two regions of a list, the regions are apart. -/
theorem pairwise_apart_of_coverage_le (h : ∀ a, coverage rs a ≤ 1) : rs.Pairwise Region.Apart := by
  induction rs with
  | nil => exact .nil
  | cons r rs ih =>
    have hsum : ∀ a, coverage [r] a + coverage rs a ≤ 1 := fun a => coverage_cons ▸ h a
    refine List.pairwise_cons.2 ⟨?_, ih ?_⟩
    · intro q hq a ha
      have h₁ := coverage_pos_of_mem (List.mem_singleton_self r) ha.1
      have h₂ := coverage_pos_of_mem hq ha.2
      have := hsum a
      omega
    · intro a
      have := hsum a
      omega

/-- Where no byte lies in regions of both lists, these are apart. -/
theorem apart_of_coverage_le (h : ∀ a, coverage rs a + coverage qs a ≤ 1) (hr : r ∈ rs) (hq : q ∈ qs) :
    r.Apart q := by
  intro a ha
  have h₁ := coverage_pos_of_mem hr ha.1
  have h₂ := coverage_pos_of_mem hq ha.2
  have := h a
  omega

end Coverage

end AtomHeap
