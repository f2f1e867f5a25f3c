import AtomHeap.Proofs.Memory.Accounts
import AtomHeap.Proofs.Memory.Demand
import AtomHeap.Proofs.Memory.History
import Mathlib.Data.Nat.Bitwise
import Mathlib.Order.Bounds.Basic
/-!
# Size classes at every size

A request is rounded up to the least multiple of the alignment that has room for it. Words do this without a
division, by clearing the low bits of a sum (`roundWord`), which never overflows for a size that is accepted, up to
the longest one. The class of a rounded request that is short enough has blocks of just that length, and so has the
class of a remainder that a pool gives up. All these classes have a list in every pool, so that no request ends a
run for want of a list (`SizeClass.sound_everywhere`).
-/

namespace AtomHeap

variable {size rounded allocFast length c : Nat}

/-! ## Rounding -/

/-- No block that is shorter has room for the request. -/
theorem isLeast_of_roundUp (h : roundUp size = .ok rounded) : IsLeast {n | alignment ∣ n ∧ size ≤ n} rounded := by
  refine ⟨⟨Nat.dvd_of_mod_eq_zero (aligned_of_roundUp h), le_of_roundUp h⟩, ?_⟩
  rintro n ⟨⟨m, rfl⟩, hroom⟩
  obtain ⟨-, -, rfl⟩ := roundUp_eq_ok_iff.1 h
  simp only [alignment] at *
  omega

theorem exists_roundUp (hpos : 0 < size) (hle : size ≤ maxRequest) : ∃ rounded, roundUp size = .ok rounded :=
  ⟨_, roundUp_eq_ok_iff.2 ⟨hpos, hle, rfl⟩⟩

theorem roundUp_mono {shorter r : Nat} (hle : shorter ≤ size) (hs : roundUp shorter = .ok r)
    (h : roundUp size = .ok rounded) : r ≤ rounded :=
  (isLeast_of_roundUp hs).2 ⟨Nat.dvd_of_mod_eq_zero (aligned_of_roundUp h), Nat.le_trans hle (le_of_roundUp h)⟩

theorem roundUp_idem (h : roundUp size = .ok rounded) : roundUp rounded = .ok rounded :=
  roundUp_of_aligned (pos_of_roundUp h) (rounded_le h) (aligned_of_roundUp h)

/-! ## Rounding on words -/

/-- Rounds a size up as words do: the bits below the alignment are cleared from a sum, which has to be a word. -/
def roundWord (size : UInt64) : Except Fault (Except AllocError UInt64) :=
  if 1 ≤ size ∧ size ≤ .ofNat maxRequest then do
    let sum ← checkedAdd size.toNat (alignment - 1)
    return .ok (.ofNat sum &&& ~~~ .ofNat (alignment - 1))
  else .ok (.error .badRequest)

/-- The class of a size, with the size and the ceiling as words. -/
def SizeClass.ofWord (size allocFast : UInt64) : Except Fault (Except AllocError SizeClass) := do
  match ← roundWord size with
  | .error e => return .error e
  | .ok rounded =>
    return .ok (if rounded ≤ allocFast then .fast (rounded / .ofNat alignment).toNat else .big)

/-- What a mask with a gap below keeps of a number lies above the gap. -/
theorem and_shiftLeft (v m s : Nat) : v &&& m <<< s = (v >>> s &&& m) <<< s := by
  refine Nat.eq_of_testBit_eq fun i => ?_
  simp only [Nat.testBit_and, Nat.testBit_shiftLeft, Nat.testBit_shiftRight]
  by_cases hi : s ≤ i
  · simp [hi, Nat.add_sub_cancel' hi]
  · simp [hi]

/-- Clearing the low bits of a word takes what is over a multiple of the alignment off it. -/
theorem toNat_clear (w : UInt64) : (w &&& ~~~ .ofNat (alignment - 1)).toNat = w.toNat / alignment * alignment := by
  have hmask : (~~~ UInt64.ofNat (alignment - 1)).toNat = (2 ^ 60 - 1) <<< 4 := by decide
  have hlt : w.toNat / alignment < 2 ^ 60 := Nat.div_lt_of_lt_mul w.toNat_lt
  calc (w &&& ~~~ .ofNat (alignment - 1)).toNat
    _ = w.toNat &&& (2 ^ 60 - 1) <<< 4 := by rw [UInt64.toNat_and, hmask]
    _ = (w.toNat >>> 4 &&& 2 ^ 60 - 1) <<< 4 := and_shiftLeft _ _ _
    _ = w.toNat / alignment % 2 ^ 60 * alignment := by
      rw [Nat.and_two_pow_sub_one_eq_mod, Nat.shiftLeft_eq, Nat.shiftRight_eq_div_pow]
      rfl
    _ = w.toNat / alignment * alignment := by rw [Nat.mod_eq_of_lt hlt]

/-- Words round as numbers do: even for the longest request the sum does not overflow. -/
theorem roundWord_eq (size : UInt64) : roundWord size = .ok ((roundUp size.toNat).map UInt64.ofNat) := by
  have hmax : (UInt64.ofNat maxRequest).toNat = maxRequest := by decide
  have hgood : (1 ≤ size ∧ size ≤ .ofNat maxRequest) ↔ 1 ≤ size.toNat ∧ size.toNat ≤ maxRequest := by
    rw [UInt64.le_iff_toNat_le, UInt64.le_iff_toNat_le, hmax]
    rfl
  unfold roundWord roundUp
  by_cases h : 1 ≤ size.toNat ∧ size.toNat ≤ maxRequest
  · have hsum : size.toNat + (alignment - 1) < wordCount :=
      Nat.lt_of_le_of_lt (Nat.add_le_add_right h.2 _) (by decide)
    have hchecked : checkedAdd size.toNat (alignment - 1) = .ok (size.toNat + (alignment - 1)) :=
      checkedAdd_eq_ok_iff.2 ⟨hsum, rfl⟩
    have hclear : UInt64.ofNat (size.toNat + (alignment - 1)) &&& ~~~ .ofNat (alignment - 1) =
        .ofNat ((size.toNat + (alignment - 1)) / alignment * alignment) := by
      rw [← UInt64.ofNat_toNat (x := _ &&& _), toNat_clear, UInt64.toNat_ofNat_of_lt' hsum]
    rw [if_pos (hgood.2 h), if_pos h, hchecked]
    exact congrArg (fun w => Except.ok (Except.ok w)) hclear
  · rw [if_neg (mt hgood.1 h), if_neg h]
    rfl

namespace SizeClass

theorem ofWord_eq (size allocFast : UInt64) :
    ofWord size allocFast = .ok (ofSize size.toNat allocFast.toNat) := by
  unfold ofWord
  rw [roundWord_eq]
  cases hround : roundUp size.toNat with
  | error e =>
    simp only [ofSize, hround]
    rfl
  | ok rounded =>
    have hword : rounded < UInt64.size := Nat.lt_of_le_of_lt (rounded_le hround) (by decide)
    have hle : UInt64.ofNat rounded ≤ allocFast ↔ rounded ≤ allocFast.toNat := by
      rw [UInt64.le_iff_toNat_le, UInt64.toNat_ofNat_of_lt' hword]
    have hclass : (UInt64.ofNat rounded / .ofNat alignment).toNat = rounded / alignment := by
      rw [UInt64.toNat_div, UInt64.toNat_ofNat_of_lt' hword]
      rfl
    rw [ofSize_of_roundUp hround]
    simp only [← hle, ← hclass]
    rfl

/-! ## Classes -/

theorem ofSize_eq_error_iff {e : AllocError} : ofSize size allocFast = .error e ↔ roundUp size = .error e := by
  cases hround : roundUp size with
  | error e' => simp only [ofSize, hround, Except.error.injEq]
  | ok rounded =>
    rw [ofSize_of_roundUp hround]
    simp only [reduceCtorEq]

theorem exists_fast_iff (h : roundUp size = .ok rounded) :
    (∃ c, ofSize size allocFast = .ok (.fast c)) ↔ rounded ≤ allocFast := by
  rw [ofSize_of_roundUp h]
  by_cases hle : rounded ≤ allocFast <;> simp [hle]

theorem pos_of_ofSize (h : ofSize size allocFast = .ok (.fast c)) : 1 ≤ c := by
  have hpos := pos_of_roundUp (ofSize_eq_fast h).1
  exact Nat.pos_of_mul_pos_right hpos

/-- What rounding makes of a request, and the classes make of that. -/
structure Rounded (size rounded : Nat) : Prop where
  /-- It is the least multiple of the alignment that has room for the request. -/
  least : IsLeast {n | alignment ∣ n ∧ size ≤ n} rounded
  /-- It could be asked for itself. -/
  le_max : rounded ≤ maxRequest
  again : roundUp rounded = .ok rounded
  /-- Shorter requests are not rounded to more. -/
  mono : ∀ shorter r, shorter ≤ size → roundUp shorter = .ok r → r ≤ rounded
  fast_iff : ∀ allocFast, (∃ c, ofSize size allocFast = .ok (.fast c)) ↔ rounded ≤ allocFast
  big_iff : ∀ allocFast, ofSize size allocFast = .ok .big ↔ allocFast < rounded
  /-- The class has blocks of just that length. -/
  exact : ∀ allocFast c, ofSize size allocFast = .ok (.fast c) →
    1 ≤ c ∧ c < count allocFast ∧ blockSize c = rounded

theorem rounded_of_roundUp (h : roundUp size = .ok rounded) : Rounded size rounded where
  least := isLeast_of_roundUp h
  le_max := rounded_le h
  again := roundUp_idem h
  mono _ _ hle hs := roundUp_mono hle hs h
  fast_iff _ := exists_fast_iff h
  big_iff allocFast := by
    rw [ofSize_of_roundUp h]
    by_cases hle : rounded ≤ allocFast
    · simp [hle, Nat.not_lt.2 hle]
    · simp [hle, Nat.lt_of_not_le hle]
  exact _ _ hclass := by
    obtain ⟨hround, -, hlt⟩ := ofSize_eq_fast hclass
    exact ⟨pos_of_ofSize hclass, hlt, Except.ok.inj (hround.symm.trans h)⟩

end SizeClass

/-! ## Lists in range -/

theorem Ends.in_range {α : Type} {x : Except Fault α} {starved : Prop} {P : α → Prop} (hx : Ends x starved P) :
    x ≠ .error .indexOutOfRange := by
  rintro rfl
  rcases hx with ⟨a, ⟨⟩, -⟩ | ⟨⟨⟩, -⟩

namespace Heap

variable {limits : Limits} {grants : Nat → Nat → Bool} {h : Heap} {out : List Region} {from? into? : Option PoolId}
  {b : Address}

theorem Shaped.alloc_in_range (hs : Shaped limits h) (hchunk : h.limits.allocFast ≤ h.limits.chunkSize)
    (hfrom : h.HasPool from?) (size : Nat) : h.alloc from? size ≠ .error .indexOutOfRange := by
  cases hround : roundUp size with
  | error e =>
    rw [alloc_of_no_size hround]
    nofun
  | ok length => exact (hs.alloc_supplied hchunk hfrom hround).in_range

theorem freeBig_in_range (h : Heap) (b : Address) (size : Nat) : h.freeBig b size ≠ .error .indexOutOfRange := by
  unfold freeBig
  split
  · split <;> nofun
  · nofun

/-- A fast block is taken back whatever the heap knows of it. -/
theorem Shaped.free_fast_ends (hs : Shaped limits h) (hinto : h.HasPool into?) (hb : b.offset % alignment = 0)
    (hclass : SizeClass.ofSize size h.limits.allocFast = .ok (.fast c)) :
    Ends (h.free into? b size) False fun _ => True := by
  obtain ⟨-, -, hc⟩ := SizeClass.ofSize_eq_fast hclass
  cases into? with
  | none =>
    simp only [Heap.free, freeGlobal, hclass, takeGlobal]
    exact (takeBack_ends (h := { h with global := { shelves := #[] } }) hs.global hc hb).bind fun _ _ => .ok trivial
  | some id =>
    obtain ⟨p, hlookup⟩ := lookup_isSome (hinto id rfl)
    have hp := hs.sound_of_lookup hlookup
    simp only [Heap.free, freeLocal, hclass, takeOut, Heap.pool, hlookup]
    refine (takeBack_ends (h := { h with locals := h.locals.eraseP (·.1 == id) }) hp hc hb).bind ?_
    rintro ⟨p₁, h₁⟩ ⟨hp₁, ⟨bytesInUse, rfl⟩, -⟩
    exact (spill_ends (h := { h with locals := h.locals.eraseP (·.1 == id), bytesInUse }) hp₁ hs.global hc).bind
      fun _ _ => .ok trivial

theorem Shaped.free_in_range (hs : Shaped limits h) (hinto : h.HasPool into?) (hb : b.offset % alignment = 0)
    (size : Nat) : h.free into? b size ≠ .error .indexOutOfRange := by
  cases hclass : SizeClass.ofSize size h.limits.allocFast with
  | error e => cases into? <;> simp [Heap.free, freeLocal, freeGlobal, hclass]
  | ok class? =>
    cases class? with
    | fast c => exact (hs.free_fast_ends hinto hb hclass).in_range
    | big =>
      rw [free_of_big hclass]
      exact freeBig_in_range h b size

/-- No pool of a heap is asked for a list that it does not have. -/
structure InRange (h : Heap) : Prop where
  /-- Every pool has a list for the class of every fast request. -/
  lists : ∀ p ∈ h.pools, ∀ size c, SizeClass.ofSize size h.limits.allocFast = .ok (.fast c) → ∃ s, p.shelf c = .ok s
  /-- When a pool is closed, each of its lists has its like in the shared pool. -/
  alike : ∀ p ∈ h.pools, p.shelves.size = h.global.shelves.size
  /-- What is left of a bump space is given up whole. -/
  spaces : ∀ p ∈ h.pools, ∀ r, p.space = some r → r.length % alignment = 0
  alloc : ∀ from?, h.HasPool from? → ∀ size, h.alloc from? size ≠ .error .indexOutOfRange
  free : ∀ into?, h.HasPool into? → ∀ b size, b.offset % alignment = 0 →
    h.free into? b size ≠ .error .indexOutOfRange

theorem Shaped.inRange (hs : Shaped limits h) (hchunk : h.limits.allocFast ≤ h.limits.chunkSize) : InRange h where
  lists p hp size c hclass := by
    obtain ⟨-, -, hc⟩ := SizeClass.ofSize_eq_fast hclass
    obtain ⟨s, -, hshelf, -⟩ := (hs.sound_of_mem_pools hp).shelf hc
    exact ⟨s, hshelf⟩
  alike p hp := (hs.sound_of_mem_pools hp).size.trans hs.global.size.symm
  spaces p hp r hr := ((hs.sound_of_mem_pools hp).space r hr).length
  alloc _ hfrom size := hs.alloc_in_range hchunk hfrom size
  free _ hinto _ size hb := hs.free_in_range hinto hb size

end Heap

/-- At every size and every ceiling, on numbers and on words: which requests are refused, what the others are
rounded to and which class that is; what becomes of a remainder; and for a heap of any accepted configuration,
after any history, that every class has its list. -/
theorem SizeClass.sound_everywhere :
    (∀ size, (roundUp size = .error .badRequest ↔ size = 0 ∨ maxRequest < size) ∧
      ∀ allocFast, ofSize size allocFast = .error .badRequest ↔ size = 0 ∨ maxRequest < size) ∧
    (∀ size, 0 < size → size ≤ maxRequest → ∃ rounded, roundUp size = .ok rounded ∧ Rounded size rounded) ∧
    (∀ size : UInt64, roundWord size = .ok ((roundUp size.toNat).map UInt64.ofNat)) ∧
    (∀ size allocFast : UInt64, ofWord size allocFast = .ok (ofSize size.toNat allocFast.toNat)) ∧
    (∀ length allocFast, 0 < length → length % alignment = 0 → length ≤ allocFast → length ≤ maxRequest →
      ∃ c, ofSize length allocFast = .ok (.fast c) ∧ blockSize c = length ∧
        ∀ (p : Pool) r, p.space = some r → r.length = length →
          p.retire allocFast = do return (none, ← { p with space := none }.push c r.start)) ∧
    ∀ config : Config, config.check = .ok () → ∀ grants h out, Heap.History config.limits grants h out →
      h.InRange := by
  refine ⟨fun size => ?_, fun size hpos hle => ?_, roundWord_eq, ofWord_eq, fun length allocFast hpos ha hfast hle => ?_,
    fun config hconfig grants h out hh => ?_⟩
  · simp only [ofSize_eq_error_iff, roundUp_eq_error_iff, true_and, implies_true, and_self]
  · obtain ⟨rounded, hround⟩ := exists_roundUp hpos hle
    exact ⟨rounded, hround, rounded_of_roundUp hround⟩
  · obtain ⟨c, hlength, hclass⟩ := ofSize_of_aligned hpos ha hfast hle
    refine ⟨c, hclass, hlength.symm, ?_⟩
    rintro p r hspace rfl
    exact Pool.retire_of_fast hspace hpos ha hclass
  · have hs := (hh.shaped (Heap.chunkSize_aligned hconfig)).1
    exact hs.inRange (hs.limits ▸ Heap.chunkSize_ge hconfig)

/-- A request for little less than the longest block, a remainder of 48 bytes, and a heap with a local pool. -/
theorem SizeClass.sound_everywhere_longest :
    0 < 9223372036854775781 ∧ 9223372036854775781 ≤ maxRequest ∧
      roundUp 9223372036854775781 = .ok maxRequest ∧ Rounded 9223372036854775781 maxRequest ∧
      48 % alignment = 0 ∧ 48 ≤ 512 ∧ 48 ≤ maxRequest ∧ ofSize 48 512 = .ok (.fast 3) ∧ blockSize 3 = 48 ∧
      Config.check {} = .ok () ∧ ∃ h, Heap.History (Config.limits {}) (fun _ _ => true) h [] ∧
        h.HasPool (some 0) ∧ h.InRange := by
  obtain ⟨-, hround, -, -, hremainder, hheap⟩ := sound_everywhere
  obtain ⟨rounded, hrounded, hsize⟩ := hround 9223372036854775781 (by decide) (by decide)
  obtain ⟨c, hclass, hblock, -⟩ := hremainder 48 512 (by decide) (by decide) (by decide) (by decide)
  cases hrounded
  cases hclass
  have opened := (@Heap.History.start (Config.limits {}) fun _ _ => true).request .openPool
  exact ⟨by decide, by decide, rfl, hsize, by decide, by decide, by decide, rfl, hblock, rfl, _, opened,
    by rintro _ ⟨⟩; exact .head _, hheap {} rfl _ _ _ opened⟩

end AtomHeap
