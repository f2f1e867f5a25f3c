import AtomHeap.Memory.Pool
import AtomHeap.Proofs.Ends
import AtomHeap.Proofs.Memory.Coverage
import AtomHeap.Proofs.Memory.Size
/-!
# What a pool owns

A pool owns the blocks on its shelves and its bump space. `Pool.Sound` is what each operation on a
pool keeps; the specification of an operation says how it changes `Pool.held`, the number of the
pool's regions that a byte lies in.
-/

namespace AtomHeap

/-- The free blocks on some shelves, the first of which is of class `c`. -/
def blocksOn (c : Nat) (shelves : List Shelf) : List Region :=
  (shelves.zipIdx c).flatMap fun (s, c) => blocksAt c s.free.blocks

theorem blocksOn_cons (c : Nat) (s : Shelf) (shelves : List Shelf) :
    blocksOn c (s :: shelves) = blocksAt c s.free.blocks ++ blocksOn (c + 1) shelves := by
  simp [blocksOn]

/-- Replacing one of some shelves replaces its blocks. -/
theorem coverage_blocksOn_set {shelves : List Shelf} {old : Shelf} (new : Shelf) (a : Address) {i : Nat}
    (h : shelves[i]? = some old) (c : Nat) :
    coverage (blocksOn c (shelves.set i new)) a + coverage (blocksAt (c + i) old.free.blocks) a =
      coverage (blocksOn c shelves) a + coverage (blocksAt (c + i) new.free.blocks) a := by
  induction shelves generalizing i c with
  | nil => cases h
  | cons s shelves ih =>
    cases i with
    | zero =>
      simp only [List.getElem?_cons_zero, Option.some.injEq] at h
      subst h
      simp only [List.set_cons_zero, blocksOn_cons, coverage_append, Nat.add_zero]
      omega
    | succ i =>
      have hi := ih (i := i) h (c + 1)
      rw [Nat.add_right_comm c 1 i] at hi
      simp only [List.set_cons_succ, blocksOn_cons, coverage_append, ← Nat.add_assoc]
      omega

/-- A free list knows how many blocks it has, and these are aligned. -/
structure FreeList.Sound (l : FreeList) : Prop where
  counted : l.Counted
  aligned : ∀ b ∈ l.blocks, b.offset % alignment = 0

namespace Pool

theorem shelves_of_shelf {p : Pool} {c : Nat} {s : Shelf} (hs : p.shelf c = .ok s) : p.shelves[c]? = some s := by
  unfold shelf at hs
  split at hs
  · rename_i hget
    cases hs
    exact hget
  · cases hs

/-- The free blocks of a pool, each as long as the class of the shelf it is on. -/
def freeBlocks (p : Pool) : List Region := blocksOn 0 p.shelves.toList

/-- How many of the pool's free blocks and bump space a byte lies in. -/
def held (p : Pool) (a : Address) : Nat := coverage p.freeBlocks a + coverage p.space.toList a

/-- A pool for requests up to `allocFast` bytes has a shelf for each class, with a sound free list, and
its bump space is aligned. -/
structure Sound (allocFast : Nat) (p : Pool) : Prop where
  size : p.shelves.size = SizeClass.count allocFast
  shelves : ∀ (c : Nat) (s : Shelf), p.shelves[c]? = some s → s.free.Sound
  space : ∀ r, p.space = some r → r.Aligned

variable {allocFast c : Nat} {p q : Pool} {s : Shelf} {a : Address}

/-! ## Shelves -/

theorem Sound.shelf (hp : p.Sound allocFast) (hc : c < SizeClass.count allocFast) :
    ∃ s, p.shelves[c]? = some s ∧ p.shelf c = .ok s ∧ s.free.Sound := by
  have hlt : c < p.shelves.size := hp.size ▸ hc
  have hs : p.shelves[c]? = some p.shelves[c] := Array.getElem?_eq_getElem hlt
  exact ⟨p.shelves[c], hs, by simp only [Pool.shelf, hs], hp.shelves c _ hs⟩

theorem Sound.setShelf (hp : p.Sound allocFast) (hs : s.free.Sound) : (p.setShelf c s).Sound allocFast where
  size := by simpa [Pool.setShelf] using hp.size
  shelves d t ht := by
    simp only [Pool.setShelf, Array.getElem?_setIfInBounds] at ht
    split at ht
    · split at ht
      · cases ht
        exact hs
      · cases ht
    · exact hp.shelves d t ht
  space := hp.space

theorem held_setShelf {old : Shelf} (h : p.shelves[c]? = some old) (new : Shelf) (a : Address) :
    (p.setShelf c new).held a + coverage (blocksAt c old.free.blocks) a =
      p.held a + coverage (blocksAt c new.free.blocks) a := by
  have hset := coverage_blocksOn_set new a (Array.getElem?_toList ▸ h) 0
  simp only [Nat.zero_add] at hset
  simp only [held, freeBlocks, Pool.setShelf, Array.toList_setIfInBounds]
  omega

/-! ## Taking blocks and putting them back -/

/-- The specification of `pop`: the block taken was the pool's. -/
theorem pop_ends (hp : p.Sound allocFast) (hc : c < SizeClass.count allocFast) :
    Ends (p.pop c) False fun (b?, q) =>
      q.Sound allocFast ∧ q.space = p.space ∧ (∀ b ∈ b?, b.offset % alignment = 0) ∧
        ∀ a, p.held a = coverage (blocksAt c b?.toList) a + q.held a := by
  obtain ⟨s, hs, hshelf, hsound⟩ := hp.shelf hc
  simp only [Pool.pop, hshelf, bind, Except.bind]
  cases hpop : s.free.pop? with
  | none => exact .ok ⟨hp, rfl, by simp, fun a => by simp [blocksAt]⟩
  | some r =>
    obtain ⟨b, free⟩ := r
    have hblocks := (FreeList.pop?_eq_some_iff.1 hpop).1
    have hmem : ∀ d ∈ free.blocks, d ∈ s.free.blocks := fun d hd => hblocks ▸ List.mem_cons_of_mem _ hd
    refine .ok ⟨hp.setShelf ⟨hsound.counted.pop hpop, fun d hd => hsound.aligned d (hmem d hd)⟩, rfl, ?_, ?_⟩
    · rintro _ ⟨⟩
      exact hsound.aligned b (hblocks ▸ List.mem_cons_self)
    · intro a
      have hset := held_setShelf hs { s with free } a
      rw [hblocks] at hset
      simp only [blocksAt, List.map_cons, Option.toList_some, List.map_nil] at hset ⊢
      rw [coverage_cons] at hset
      omega

/-- The specification of `push`: the block given is the pool's. -/
theorem push_ends (hp : p.Sound allocFast) (hc : c < SizeClass.count allocFast) {b : Address}
    (hb : b.offset % alignment = 0) :
    Ends (p.push c b) False fun q =>
      q.Sound allocFast ∧ q.space = p.space ∧ ∀ a, q.held a = p.held a + coverage (blocksAt c [b]) a := by
  obtain ⟨s, hs, hshelf, hsound⟩ := hp.shelf hc
  simp only [Pool.push, hshelf, bind, Except.bind]
  refine .ok ⟨hp.setShelf ⟨hsound.counted.push b, ?_⟩, rfl, ?_⟩
  · intro d hd
    rcases List.mem_cons.1 hd with rfl | hd
    · exact hb
    · exact hsound.aligned d hd
  · intro a
    have hset := held_setShelf hs { s with free := s.free.push b } a
    simp only [FreeList.blocks_push, blocksAt, List.map_cons, List.map_nil] at hset ⊢
    rw [coverage_cons] at hset
    omega

/-- The specification of `count`: no block changes hands. -/
theorem count_ends (hp : p.Sound allocFast) (hc : c < SizeClass.count allocFast) (change : Int) :
    Ends (p.count c change) False fun q => q.Sound allocFast ∧ q.space = p.space ∧ ∀ a, q.held a = p.held a := by
  obtain ⟨s, hs, hshelf, hsound⟩ := hp.shelf hc
  simp only [Pool.count, hshelf, bind, Except.bind]
  refine .ok ⟨hp.setShelf ⟨hsound.counted, hsound.aligned⟩, rfl, fun a => ?_⟩
  have hset := held_setShelf hs { s with inUse := s.inUse + change } a
  dsimp only at hset
  omega

/-- The specification of `splitTop`: the blocks taken were the pool's. -/
theorem splitTop_ends (hp : p.Sound allocFast) (hc : c < SizeClass.count allocFast) (n : Nat) :
    Ends (p.splitTop c n) False fun (top, q) =>
      q.Sound allocFast ∧ q.space = p.space ∧ top.Sound ∧
        ∀ a, p.held a = coverage (blocksAt c top.blocks) a + q.held a := by
  obtain ⟨s, hs, hshelf, hsound⟩ := hp.shelf hc
  simp only [Pool.splitTop, hshelf, bind, Except.bind]
  obtain ⟨htop, hrest⟩ := FreeList.blocks_splitTop hsound.counted n
  obtain ⟨hctop, hcrest⟩ := hsound.counted.splitTop n
  refine .ok ⟨hp.setShelf ⟨hcrest, ?_⟩, rfl, ⟨hctop, ?_⟩, ?_⟩
  · intro d hd
    exact hsound.aligned d (List.mem_of_mem_drop (hrest ▸ hd))
  · intro d hd
    exact hsound.aligned d (List.mem_of_mem_take (htop ▸ hd))
  · intro a
    have hset := held_setShelf hs { s with free := (s.free.splitTop n).2 } a
    have hcut : coverage (blocksAt c s.free.blocks) a =
        coverage (blocksAt c (s.free.blocks.take n)) a + coverage (blocksAt c (s.free.blocks.drop n)) a := by
      rw [← coverage_append, blocksAt, blocksAt, blocksAt, ← List.map_append, List.take_append_drop]
    simp only [htop, hrest] at hset ⊢
    omega

/-- The specification of `append`: the blocks given are the pool's. -/
theorem append_ends (hp : p.Sound allocFast) (hc : c < SizeClass.count allocFast) {top : FreeList}
    (ht : top.Sound) :
    Ends (p.append c top) False fun q =>
      q.Sound allocFast ∧ q.space = p.space ∧ ∀ a, q.held a = p.held a + coverage (blocksAt c top.blocks) a := by
  obtain ⟨s, hs, hshelf, hsound⟩ := hp.shelf hc
  simp only [Pool.append, hshelf, bind, Except.bind]
  refine .ok ⟨hp.setShelf ⟨hsound.counted.append ht.counted, ?_⟩, rfl, ?_⟩
  · intro d hd
    rcases List.mem_append.1 hd with hd | hd
    · exact ht.aligned d hd
    · exact hsound.aligned d hd
  · intro a
    have hset := held_setShelf hs { s with free := s.free.append top } a
    simp only [FreeList.blocks_append, blocksAt, List.map_append, coverage_append] at hset ⊢
    omega

/-! ## The bump space -/

theorem carve?_eq_some_iff {size : Nat} {b : Address} :
    p.carve? size = some (b, q) ↔ ∃ r, p.space = some r ∧ size ≤ r.length ∧ b = r.start ∧
      q = { p with space := some ⟨r.start.advance size, r.length - size⟩ } := by
  cases hr : p.space with
  | none => simp [Pool.carve?, hr]
  | some r => simp [Pool.carve?, hr, eq_comm]

theorem carve?_eq_none_iff {size : Nat} : p.carve? size = none ↔ ∀ r, p.space = some r → r.length < size := by
  cases hr : p.space with
  | none => simp [Pool.carve?, hr]
  | some r => simp [Pool.carve?, hr]

/-- The specification of `carve?`: the block carved was the front of the bump space. -/
theorem carve_spec (hp : p.Sound allocFast) {size : Nat} (hsize : size % alignment = 0) {b : Address}
    (h : p.carve? size = some (b, q)) :
    q.Sound allocFast ∧ b.offset % alignment = 0 ∧ ∀ a, p.held a = coverage [⟨b, size⟩] a + q.held a := by
  obtain ⟨r, hr, hle, rfl, rfl⟩ := carve?_eq_some_iff.1 h
  obtain ⟨hstart, hlength⟩ := hp.space r hr
  refine ⟨⟨hp.size, hp.shelves, ?_⟩, hstart, ?_⟩
  · rintro _ ⟨⟩
    constructor
    · simp only [Address.advance, alignment] at *
      omega
    · simp only [alignment] at *
      omega
  · intro a
    have hcut : coverage [r] a =
        coverage [⟨r.start, size⟩] a + coverage [⟨r.start.advance size, r.length - size⟩] a :=
      coverage_cut hle
    simp only [held, freeBlocks, hr, Option.toList_some]
    omega

theorem carve_isSome {size : Nat} {r : Region} (h : size ≤ r.length) :
    ∃ b q, { p with space := some r }.carve? size = some (b, q) :=
  ⟨_, _, carve?_eq_some_iff.2 ⟨r, rfl, h, rfl, rfl⟩⟩

/-- The specification of `takeSpace`: the remainder was the pool's. -/
theorem takeSpace_spec (hp : p.Sound allocFast) :
    p.takeSpace.2.Sound allocFast ∧ p.takeSpace.2.space = none ∧
      p.takeSpace.2.shelves = p.shelves ∧ (∀ r ∈ p.takeSpace.1, r.Aligned) ∧
      ∀ a, p.held a = coverage p.takeSpace.1.toList a + p.takeSpace.2.held a := by
  cases hr : p.space with
  | none => simp [Pool.takeSpace, hr, hp]
  | some r =>
    have hal := hp.space r hr
    simp only [Pool.takeSpace, hr]
    refine ⟨⟨hp.size, hp.shelves, fun _ h => nomatch h⟩, trivial, trivial, ?_, ?_⟩
    · intro q hq
      split at hq
      · cases hq
      · cases hq
        exact hal
    · intro a
      simp only [held, freeBlocks, hr, Option.toList_some, Option.toList_none, coverage_nil]
      split
      · have := coverage_empty (r := r) (a := a) ‹_›
        simp only [Option.toList_none, coverage_nil]
        omega
      · simp only [Option.toList_some]
        omega

/-- A remainder that is short enough for a block goes on the list of the blocks of its length. -/
theorem retire_of_fast {r : Region} (hspace : p.space = some r) (hpos : 0 < r.length)
    (ha : r.length % alignment = 0) (hclass : SizeClass.ofSize r.length allocFast = .ok (.fast c)) :
    p.retire allocFast = do return (none, ← { p with space := none }.push c r.start) := by
  simp only [retire, takeSpace, hspace, Nat.ne_of_gt hpos, if_false, ha, Nat.sub_zero, hclass]

/-- All that `retire` does: a remainder of the length of some class goes on the list of that class, and any other
is no longer the pool's. -/
theorem retire_inv {r? : Option Region} (h : p.retire allocFast = .ok (r?, q)) :
    (∃ r c, p.space = some r ∧ r? = none ∧
        SizeClass.ofSize (r.length - r.length % alignment) allocFast = .ok (.fast c) ∧
        { p with space := none }.push c r.start = .ok q) ∨
      (∀ c, SizeClass.ofSize (p.spaceLeft - p.spaceLeft % alignment) allocFast ≠ .ok (.fast c)) ∧
        q = { p with space := none } := by
  obtain ⟨shelves, _ | r⟩ := p
  · cases h
    exact .inr ⟨nofun, rfl⟩
  · simp only [retire, takeSpace, spaceLeft] at h ⊢
    by_cases hzero : r.length = 0
    · simp only [hzero, if_true, Except.ok.injEq, Prod.mk.injEq] at h
      exact .inr ⟨by rw [hzero]; exact nofun, h.2.symm⟩
    · rw [if_neg hzero] at h
      dsimp only at h
      split at h
      · rename_i htail
        cases h
        exact .inr ⟨by rw [htail]; exact nofun, rfl⟩
      · split at h
        · rename_i c hclass
          obtain ⟨q', hpush, h⟩ := bind_eq_ok_iff.1 h
          cases h
          exact .inl ⟨r, c, rfl, rfl, hclass, hpush⟩
        · rename_i hclass
          cases h
          exact .inr ⟨hclass, rfl⟩

/-- The specification of `retire`: the remainder was the pool's, and what it keeps of its bump space
is a block of the right class. -/
theorem retire_ends (hp : p.Sound allocFast) :
    Ends (p.retire allocFast) False fun (r?, q) =>
      q.Sound allocFast ∧ q.space = none ∧ (∀ r ∈ r?, r.Aligned) ∧
        ∀ a, p.held a = coverage r?.toList a + q.held a := by
  obtain ⟨hsound, hspace, -, hal, hheld⟩ := takeSpace_spec hp
  unfold Pool.retire
  generalize p.takeSpace = t at *
  obtain ⟨r?, q⟩ := t
  cases r? with
  | none => exact .ok ⟨hsound, hspace, fun r h => (nomatch h), hheld⟩
  | some r =>
    obtain ⟨hstart, hlength⟩ := hal r rfl
    simp only [hlength, Nat.sub_zero]
    split
    · refine .ok ⟨hsound, hspace, fun r h => (nomatch h), fun a => ?_⟩
      have := coverage_empty (r := r) (a := a) ‹_›
      have := hheld a
      simp only [Option.toList_some, Option.toList_none, coverage_nil] at *
      omega
    · split
      · rename_i c hclass
        obtain ⟨hround, -, hc⟩ := SizeClass.ofSize_eq_fast hclass
        have hblock : blocksAt c [r.start] = [r] := by
          rw [blocksAt, List.map_singleton, eq_of_roundUp hround hlength]
        refine (push_ends hsound hc hstart).bind ?_
        intro t ht
        obtain ⟨htsound, htspace, htheld⟩ := ht
        refine .ok ⟨htsound, htspace.trans hspace, fun r h => (nomatch h), fun a => ?_⟩
        have := hheld a
        have := htheld a
        simp only [hblock, Option.toList_some, Option.toList_none, coverage_nil] at *
        omega
      · refine .ok ⟨hsound, hspace, ?_, hheld⟩
        rintro _ ⟨⟩
        exact ⟨hstart, hlength⟩

/-! ## Whole pools -/

theorem coverage_blocksOn_zipWith {f : Shelf → Shelf → Shelf} (a : Address)
    (hf : ∀ s t, (f s t).free.blocks = t.free.blocks ++ s.free.blocks) (ss ts : List Shelf)
    (hlen : ss.length = ts.length) (c : Nat) :
    coverage (blocksOn c (ss.zipWith f ts)) a = coverage (blocksOn c ss) a + coverage (blocksOn c ts) a := by
  induction ss generalizing ts c with
  | nil =>
    cases ts with
    | nil => rfl
    | cons t ts => cases hlen
  | cons s ss ih =>
    cases ts with
    | nil => cases hlen
    | cons t ts =>
      have hi := ih ts (Nat.succ.inj hlen) (c + 1)
      simp only [List.zipWith_cons_cons, blocksOn_cons, coverage_append, blocksAt, hf, List.map_append] at *
      omega

/-- The specification of `merge`: the pool has the blocks of both, and the bump space of the one
merged into. -/
theorem merge_spec (hp : p.Sound allocFast) (hq : q.Sound allocFast) (hspace : p.space = none) :
    (p.merge q).Sound allocFast ∧ ∀ a, (p.merge q).held a = p.held a + q.held a := by
  refine ⟨⟨?_, ?_, hq.space⟩, ?_⟩
  · simp [Pool.merge, hp.size, hq.size]
  · intro c s hs
    simp only [Pool.merge, Array.getElem?_zipWith] at hs
    split at hs
    · rename_i t u ht hu
      cases hs
      have hts := hq.shelves c t ht
      have hus := hp.shelves c u hu
      refine ⟨hts.counted.append hus.counted, fun d hd => ?_⟩
      rcases List.mem_append.1 hd with hd | hd
      · exact hus.aligned d hd
      · exact hts.aligned d hd
    · cases hs
  · intro a
    have hlen : q.shelves.toList.length = p.shelves.toList.length := by simp [hp.size, hq.size]
    have hzip := coverage_blocksOn_zipWith a
      (f := fun old new => ⟨old.free.append new.free, old.inUse + new.inUse⟩) (fun _ _ => rfl) _ _ hlen 0
    simp only [held, freeBlocks, Pool.merge, Array.toList_zipWith, hspace, Option.toList_none, coverage_nil,
      hzip]
    omega

theorem sound_empty (allocFast : Nat) : (Pool.empty allocFast).Sound allocFast where
  size := Array.size_replicate
  shelves c s hs := by
    simp only [Pool.empty, Array.getElem?_replicate, Option.ite_none_right_eq_some, Option.some.injEq] at hs
    rw [← hs.2]
    exact ⟨rfl, fun _ h => nomatch h⟩
  space _ h := nomatch h

theorem coverage_blocksOn_replicate (n c : Nat) (a : Address) :
    coverage (blocksOn c (List.replicate n {})) a = 0 := by
  induction n generalizing c with
  | zero => rfl
  | succ n ih =>
    rw [List.replicate_succ, blocksOn_cons, coverage_append, ih]
    rfl

theorem held_empty (allocFast : Nat) (a : Address) : (Pool.empty allocFast).held a = 0 := by
  simp only [held, freeBlocks, Pool.empty, Array.toList_replicate, coverage_blocksOn_replicate]
  rfl

end Pool

end AtomHeap
