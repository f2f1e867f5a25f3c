import AtomHeap.Proofs.Memory.Listings
/-!
# A heap that goes on like a new one

`Past` is what a heap has used up at some moment: numbers of chunks and pools, and requests to the system. From
then on it may be like a new heap that starts counting at zero (`Resembles`): all figures and free lists are the
same, and each address of the new heap stands for one in a chunk with a later number. Every operation keeps that.
-/

namespace AtomHeap

/-! ## Computations that agree -/

/-- Both computations give values, and these are related, or both end the run alike. -/
inductive Agree {α β : Type} (R : α → β → Prop) : Except Fault α → Except Fault β → Prop
  | ok {a : α} {b : β} : R a b → Agree R (.ok a) (.ok b)
  | error (e : Fault) : Agree R (.error e) (.error e)

namespace Agree

variable {α α' β β' : Type} {R R' : α → β → Prop} {S : α' → β' → Prop} {x : Except Fault α} {y : Except Fault β}
  {f : α → Except Fault α'} {g : β → Except Fault β'}

theorem bind (hx : Agree R x y) (hf : ∀ a b, R a b → Agree S (f a) (g b)) : Agree S (x >>= f) (y >>= g) := by
  cases hx with
  | ok h => exact hf _ _ h
  | error e => exact .error e

theorem exists_ok (hx : Agree R x y) {a : α} (ha : x = .ok a) : ∃ b, y = .ok b ∧ R a b := by
  cases hx with
  | ok h =>
    cases ha
    exact ⟨_, rfl, h⟩
  | error e => cases ha

theorem mono (hx : Agree R x y) (h : ∀ a b, R a b → R' a b) : Agree R' x y := by
  cases hx with
  | ok hab => exact .ok (h _ _ hab)
  | error e => exact .error e

/-- The related values are those that the computations give. -/
theorem and_eq (hx : Agree R x y) : Agree (fun a b => x = .ok a ∧ y = .ok b ∧ R a b) x y := by
  cases hx with
  | ok h => exact .ok ⟨rfl, rfl, h⟩
  | error e => exact .error e

end Agree

/-! ## Addresses -/

/-- What a heap has used up at some moment. -/
structure Past where
  /-- The numbers of carving chunks. -/
  carved : Nat
  /-- The numbers of big blocks. -/
  big : Nat
  /-- The numbers of local pools. -/
  pools : Nat
  /-- Requests to the system. -/
  asked : Nat

def Heap.past (h : Heap) : Past := ⟨h.firstCarving + h.carving.size, h.big.size, h.nextPool, h.asked⟩

namespace Past

variable {past : Past}

def chunk (past : Past) : ChunkId → ChunkId
  | .nowhere => .nowhere
  | .carving n => .carving (past.carved + n)
  | .big n => .big (past.big + n)

def address (past : Past) (a : Address) : Address := ⟨past.chunk a.chunk, a.offset⟩

def region (past : Past) (r : Region) : Region := ⟨past.address r.start, r.length⟩

/-- The number that a local pool has here, if any is asked. -/
def pool? (past : Past) (id? : Option PoolId) : Option PoolId := id?.map (past.pools + ·)

theorem chunk_injective {k k' : ChunkId} (h : past.chunk k = past.chunk k') : k = k' := by
  cases k <;> cases k' <;> simp_all [chunk]

end Past

namespace FreeList

variable {past : Past}

/-- The blocks that those of a list stand for. -/
def later (l : FreeList) (past : Past) : FreeList := ⟨l.blocks.map past.address, l.length⟩

theorem pop_later (l : FreeList) :
    (l.later past).pop? = l.pop?.map fun x => (past.address x.1, x.2.later past) := by
  obtain ⟨blocks, length⟩ := l
  cases blocks <;> rfl

theorem splitTop_later (l : FreeList) (n : Nat) :
    (l.later past).splitTop n = ((l.splitTop n).1.later past, (l.splitTop n).2.later past) := by
  unfold splitTop
  by_cases hn : n ≥ l.length
  · simp [later, hn]
  · simp [later, hn]

theorem append_later (l top : FreeList) : (l.later past).append (top.later past) = (l.append top).later past := by
  simp [append, later]

end FreeList

/-! ## Pools -/

namespace Pool

variable {past : Past} {p q P Q : Pool} {s t : Shelf} {allocFast : Nat}

/-- A pool has the same free lists and the same bump space as one of a new heap; what it counts as in use may
differ. -/
structure Mirrors (past : Past) (p q : Pool) : Prop where
  shelves : ∀ c : Nat, p.shelves[c]?.map Shelf.free = q.shelves[c]?.map fun t : Shelf => t.free.later past
  space : p.space = q.space.map past.region

namespace Mirrors

theorem empty (allocFast : Nat) : Mirrors past (Pool.empty allocFast) (Pool.empty allocFast) where
  shelves c := by
    simp only [Pool.empty, Array.getElem?_replicate]
    split <;> rfl
  space := rfl

theorem nothing : Mirrors past { shelves := #[] } { shelves := #[] } := ⟨fun _ => rfl, rfl⟩

theorem shelf (hm : Mirrors past p q) (c : Nat) :
    Agree (fun s t => s.free = t.free.later past) (p.shelf c) (q.shelf c) := by
  have hc := hm.shelves c
  unfold Pool.shelf
  cases hp : p.shelves[c]? with
  | none =>
    cases hq : q.shelves[c]? with
    | none => exact .error _
    | some t => simp [hp, hq] at hc
  | some s =>
    cases hq : q.shelves[c]? with
    | none => simp [hp, hq] at hc
    | some t => exact .ok (by simpa [hp, hq] using hc)

theorem setShelf (hm : Mirrors past p q) (hs : s.free = t.free.later past) (c : Nat) :
    Mirrors past (p.setShelf c s) (q.setShelf c t) where
  shelves d := by
    have hd := hm.shelves d
    have hnone : p.shelves[c]? = none ↔ q.shelves[c]? = none := by
      have hc := hm.shelves c
      cases hp : p.shelves[c]? <;> cases hq : q.shelves[c]? <;> simp_all
    have hsize : c < p.shelves.size ↔ c < q.shelves.size := by
      rw [Array.getElem?_eq_none_iff, Array.getElem?_eq_none_iff] at hnone
      omega
    simp only [Pool.setShelf, Array.getElem?_setIfInBounds]
    split
    · by_cases hlt : c < p.shelves.size
      · simp [hlt, hsize.1 hlt, hs]
      · simp [hlt, mt hsize.2 hlt]
    · exact hd
  space := hm.space

theorem freeCount (hm : Mirrors past p q) (c : Nat) : p.freeCount c = q.freeCount c := by
  have hc := hm.shelf c
  unfold Pool.freeCount
  cases hp : p.shelf c <;> cases hq : q.shelf c <;> rw [hp, hq] at hc <;> cases hc
  · rfl
  · rename_i hfree
    simp only [bind, Except.bind, pure, Except.pure, hfree, FreeList.later]

theorem pop (hm : Mirrors past p q) (c : Nat) :
    Agree (fun x y => x.1 = y.1.map past.address ∧ Mirrors past x.2 y.2) (p.pop c) (q.pop c) := by
  refine (hm.shelf c).bind fun s t hs => ?_
  rw [hs, FreeList.pop_later]
  cases t.free.pop? with
  | none => exact .ok ⟨rfl, hm⟩
  | some x => exact .ok ⟨rfl, hm.setShelf rfl c⟩

theorem push (hm : Mirrors past p q) (c : Nat) (b : Address) :
    Agree (Mirrors past) (p.push c (past.address b)) (q.push c b) := by
  refine (hm.shelf c).bind fun s t hs => .ok (hm.setShelf ?_ c)
  rw [hs]
  rfl

theorem count (hm : Mirrors past p q) (c : Nat) (change change' : Int) :
    Agree (Mirrors past) (p.count c change) (q.count c change') := by
  refine (hm.shelf c).bind fun s t hs => .ok (hm.setShelf ?_ c)
  exact hs

theorem splitTop (hm : Mirrors past p q) (c n : Nat) :
    Agree (fun x y => x.1 = y.1.later past ∧ Mirrors past x.2 y.2) (p.splitTop c n) (q.splitTop c n) := by
  refine (hm.shelf c).bind fun s t hs => ?_
  rw [hs, FreeList.splitTop_later]
  exact .ok ⟨rfl, hm.setShelf rfl c⟩

theorem append (hm : Mirrors past p q) (c : Nat) (top : FreeList) :
    Agree (Mirrors past) (p.append c (top.later past)) (q.append c top) := by
  refine (hm.shelf c).bind fun s t hs => .ok (hm.setShelf ?_ c)
  rw [hs]
  exact FreeList.append_later _ _

theorem carve (hm : Mirrors past p q) (n : Nat) :
    (p.carve? n = none ∧ q.carve? n = none) ∨
      ∃ b p' q', p.carve? n = some (past.address b, p') ∧ q.carve? n = some (b, q') ∧ Mirrors past p' q' := by
  unfold Pool.carve?
  rw [hm.space]
  cases q.space with
  | none => exact .inl ⟨rfl, rfl⟩
  | some r =>
    by_cases hlt : r.length < n
    · simp [hlt, Past.region]
    · refine .inr ⟨r.start, _, _, if_neg hlt, if_neg hlt, hm.shelves, rfl⟩

theorem takeSpace (hm : Mirrors past p q) :
    p.takeSpace.1 = q.takeSpace.1.map past.region ∧ Mirrors past p.takeSpace.2 q.takeSpace.2 := by
  unfold Pool.takeSpace
  rw [hm.space]
  cases hq : q.space with
  | none => exact ⟨rfl, hm.shelves, by simpa [hq] using hm.space⟩
  | some r =>
    refine ⟨?_, hm.shelves, rfl⟩
    by_cases hzero : r.length = 0
    · simp [hzero, Past.region]
    · simp [hzero, Past.region]

theorem retire (hm : Mirrors past p q) (allocFast : Nat) :
    Agree (fun x y => x.1 = y.1.map past.region ∧ Mirrors past x.2 y.2) (p.retire allocFast) (q.retire allocFast) := by
  obtain ⟨hspace, hrest⟩ := hm.takeSpace
  unfold Pool.retire
  generalize p.takeSpace = x at hspace hrest
  generalize q.takeSpace = y at hspace hrest
  obtain ⟨r?, p'⟩ := x
  obtain ⟨_ | r, q'⟩ := y
  · cases hspace
    exact .ok ⟨rfl, hrest⟩
  · cases hspace
    dsimp only [Past.region]
    split
    · exact .ok ⟨rfl, hrest⟩
    · split
      · exact (hrest.push _ r.start).bind fun _ _ h => .ok ⟨rfl, h⟩
      · exact .ok ⟨rfl, hrest⟩

theorem merge (hm : Mirrors past p q) (hM : Mirrors past P Q) : Mirrors past (p.merge P) (q.merge Q) where
  shelves c := by
    have hc := hm.shelves c
    have hC := hM.shelves c
    simp only [Pool.merge, Array.getElem?_zipWith]
    cases hp : p.shelves[c]? <;> cases hq : q.shelves[c]? <;> cases hP : P.shelves[c]? <;>
      cases hQ : Q.shelves[c]? <;> simp_all [FreeList.append_later]
  space := hM.space

end Mirrors

/-- A pool without free blocks and without a bump space. -/
structure Bare (p : Pool) : Prop where
  lists : ∀ s ∈ p.shelves, s.free.blocks = []
  space : p.spaceLeft = 0

/-- A bare pool brings nothing along but what it counts. -/
theorem Mirrors.merge_bare (hM : Mirrors past P Q) (hp : p.Sound allocFast) (hP : P.Sound allocFast)
    (hbare : p.Bare) : Mirrors past (p.takeSpace.2.merge P) Q ∧ p.takeSpace.1 = none := by
  obtain ⟨hsound, -, hshelves, -⟩ := takeSpace_spec hp
  refine ⟨⟨fun c => ?_, hM.space⟩, ?_⟩
  · rw [← hM.shelves c]
    simp only [Pool.merge, hshelves, Array.getElem?_zipWith]
    cases hget : P.shelves[c]? with
    | none => rfl
    | some old =>
      have hlt : c < p.shelves.size := by
        rw [hp.size, ← hP.size]
        exact (Array.getElem?_eq_some_iff.1 hget).1
      have hs : p.shelves[c]? = some p.shelves[c] := Array.getElem?_eq_getElem hlt
      have hnone := hbare.lists _ (Array.getElem_mem hlt)
      have hcounted := (hp.shelves c _ hs).counted.trans (congrArg List.length hnone)
      simp [hs, FreeList.append, hnone, hcounted]
  · have hleft := hbare.space
    unfold spaceLeft at hleft
    unfold Pool.takeSpace
    cases hr : p.space with
    | none => rfl
    | some r => simp_all

end Pool

namespace Heap

variable {past : Past} {h g h' g' : Heap} {p q : Pool} {id : PoolId}

/-- But for its local pools, a heap is since some moment like a new one. -/
structure Twin (past : Past) (h g : Heap) : Prop where
  limits : h.limits = g.limits
  grants : ∀ n, h.grants (past.asked + n) = g.grants n
  asked : h.asked = past.asked + g.asked
  hook : h.hook = g.hook
  global : Pool.Mirrors past h.global g.global
  nextPool : h.nextPool = past.pools + g.nextPool
  leftOver : h.leftOver = g.leftOver.map past.region
  firstCarving : h.firstCarving = past.carved + g.firstCarving
  carving : h.carving = g.carving
  big : h.big = Array.replicate past.big none ++ g.big
  reserved : h.reserved = g.reserved
  bytesInUse : h.bytesInUse = g.bytesInUse

/-- What comes of a request to a pool: the same answer, and pools and heaps that go on alike. -/
structure Matched (past : Past) (x y : Except AllocError Address × Pool × Heap) : Prop where
  answer : x.1 = y.1.map past.address
  pool : Pool.Mirrors past x.2.1 y.2.1
  heap : Twin past x.2.2 y.2.2

namespace Twin

theorem withGlobal (ht : Twin past h g) (hm : Pool.Mirrors past p q) :
    Twin past { h with global := p } { g with global := q } :=
  { ht with global := hm }

theorem withBytes (ht : Twin past h g) (change : Nat → Nat) :
    Twin past { h with bytesInUse := change h.bytesInUse } { g with bytesInUse := change g.bytesInUse } :=
  { ht with bytesInUse := congrArg change ht.bytesInUse }

theorem withLocals (ht : Twin past h g) (locals locals' : List (PoolId × Pool)) :
    Twin past { h with locals } { g with locals := locals' } :=
  { ht with }

theorem obtain (ht : Twin past h g) (n : Nat) :
    Agree (fun x y => x.1 = y.1 ∧ Twin past x.2 y.2) (h.obtain n) (g.obtain n) := by
  unfold Heap.obtain
  rw [ht.asked, ht.grants, ht.reserved, ht.hook]
  split
  · exact .ok ⟨rfl, ht⟩
  · split
    · exact .ok ⟨rfl, { ht with asked := rfl, reserved := rfl, hook := rfl }⟩
    · split
      · exact .error _
      · exact .ok ⟨rfl, { ht with asked := rfl, hook := rfl, reserved := rfl }⟩

theorem takeFirst_later (regions : List Region) (min : Nat) :
    Region.takeFirst? (regions.map past.region) min =
      (Region.takeFirst? regions min).map fun x => (past.region x.1, x.2.map past.region) := by
  have hfind : (regions.map past.region).findIdx? (min ≤ ·.length) = regions.findIdx? (min ≤ ·.length) := by
    rw [List.findIdx?_map]
    rfl
  unfold Region.takeFirst?
  rw [hfind]
  cases regions.findIdx? (min ≤ ·.length) with
  | none => rfl
  | some i =>
    dsimp only
    rw [List.getElem?_map, List.getLast?_map]
    cases regions[i]? with
    | none => rfl
    | some r =>
      cases regions.getLast? with
      | none => rfl
      | some last => simp [List.map_dropLast, List.map_set]

theorem newSpace (ht : Twin past h g) (min : Nat) :
    Agree (fun x y => x.1 = y.1.map past.region ∧ Twin past x.2 y.2) (h.newSpace min) (g.newSpace min) := by
  unfold Heap.newSpace
  have hchunk : h.limits.chunkSize = g.limits.chunkSize := congrArg Limits.chunkSize ht.limits
  rw [ht.leftOver, takeFirst_later, hchunk]
  cases Region.takeFirst? g.leftOver min with
  | some x => exact .ok ⟨rfl, { ht with leftOver := rfl }⟩
  | none =>
    refine (ht.obtain _).bind ?_
    rintro ⟨e | _, h₁⟩ ⟨_, g₁⟩ ⟨rfl, ht₁⟩
    · exact .ok ⟨rfl, ht₁⟩
    · have hnumber : h₁.firstCarving + h₁.carving.size = past.carved + (g₁.firstCarving + g₁.carving.size) := by
        rw [ht₁.firstCarving, ht₁.carving, Nat.add_assoc]
      refine .ok ⟨?_, { ht₁ with carving := congrArg (Array.push · _) ht₁.carving }⟩
      dsimp only
      rw [hnumber]
      rfl

theorem carveAnew (ht : Twin past h g) (hm : Pool.Mirrors past p q) (size : Nat) :
    Agree (Matched past) (h.carveAnew p size) (g.carveAnew q size) := by
  unfold Heap.carveAnew
  have hfast : h.limits.allocFast = g.limits.allocFast := congrArg Limits.allocFast ht.limits
  rw [hfast]
  refine (hm.retire _).bind ?_
  rintro ⟨_, p₁⟩ ⟨r?, q₁⟩ ⟨rfl, hp₁⟩
  have ht₀ : Twin past { h with leftOver := h.leftOver ++ (r?.map past.region).toList }
      { g with leftOver := g.leftOver ++ r?.toList } := by
    refine { ht with leftOver := ?_ }
    rw [ht.leftOver, List.map_append]
    cases r? <;> rfl
  refine (ht₀.newSpace size).bind ?_
  rintro ⟨_, h₁⟩ ⟨e | r, g₁⟩ ⟨rfl, ht₁⟩
  · exact .ok ⟨rfl, hp₁, ht₁⟩
  · have hm₁ : Pool.Mirrors past { p₁ with space := some (past.region r) } { q₁ with space := some r } :=
      ⟨hp₁.shelves, rfl⟩
    simp only [Except.map]
    rcases hm₁.carve size with ⟨hp, hq⟩ | ⟨b, p₂, q₂, hp, hq, hm₂⟩
    · rw [hp, hq]
      exact .ok ⟨rfl, hm₁, ht₁⟩
    · rw [hp, hq]
      exact .ok ⟨rfl, hm₂, ht₁⟩

theorem refill (ht : Twin past h g) (hm : Pool.Mirrors past p q) (c : Nat) :
    Agree (Matched past) (h.refill p c) (g.refill q c) := by
  unfold Heap.refill
  refine (ht.global.splitTop c refillBatch).bind ?_
  rintro ⟨_, P⟩ ⟨batch, Q⟩ ⟨rfl, hM⟩
  have ht₁ := ht.withGlobal hM
  dsimp only
  rw [FreeList.pop_later]
  cases batch.pop? with
  | none => exact ht₁.carveAnew hm _
  | some x =>
    refine (hm.append c x.2).bind fun p₁ q₁ hm₁ => ?_
    exact .ok ⟨rfl, hm₁, ht₁⟩

/-- However a block was come by, counting it keeps heaps alike. -/
theorem counted {x y : Except AllocError Address × Pool × Heap} (hxy : Matched past x y) (c : Nat) :
    Agree (Matched past)
      (match x.1 with
        | .error e => pure (.error e, x.2.1, x.2.2)
        | .ok b => do
          return (.ok b, ← x.2.1.count c 1, { x.2.2 with bytesInUse := x.2.2.bytesInUse + SizeClass.blockSize c }))
      (match y.1 with
        | .error e => pure (.error e, y.2.1, y.2.2)
        | .ok b => do
          return (.ok b, ← y.2.1.count c 1,
            { y.2.2 with bytesInUse := y.2.2.bytesInUse + SizeClass.blockSize c })) := by
  obtain ⟨_, p₁, h₁⟩ := x
  obtain ⟨e | b, q₁, g₁⟩ := y
  all_goals obtain ⟨rfl, hm, ht⟩ := hxy
  · exact .ok ⟨rfl, hm, ht⟩
  · refine (hm.count c 1 1).bind fun p₂ q₂ hm₂ => ?_
    exact .ok ⟨rfl, hm₂, ht.withBytes (· + SizeClass.blockSize c)⟩

theorem serve (ht : Twin past h g) (hm : Pool.Mirrors past p q) (c : Nat)
    {more : Heap → Pool → Except Fault (Except AllocError Address × Pool × Heap)}
    (hmore : ∀ {h g : Heap} {p q : Pool}, Twin past h g → Pool.Mirrors past p q →
      Agree (Matched past) (more h p) (more g q)) :
    Agree (Matched past) (h.serve p c more) (g.serve q c more) := by
  unfold Heap.serve
  refine (hm.pop c).bind ?_
  rintro ⟨_, p₁⟩ ⟨_ | b, q₁⟩ ⟨rfl, hm₁⟩
  · dsimp only [Option.map]
    rcases hm₁.carve (SizeClass.blockSize c) with ⟨hp, hq⟩ | ⟨b, p₂, q₂, hp, hq, hm₂⟩
    · rw [hp, hq]
      exact (hmore ht hm₁).bind fun x y hxy => counted hxy c
    · rw [hp, hq]
      exact counted (x := (.ok (past.address b), p₂, h)) (y := (.ok b, q₂, g)) ⟨rfl, hm₂, ht⟩ c
  · exact counted (x := (.ok (past.address b), p₁, h)) (y := (.ok b, q₁, g)) ⟨rfl, hm₁, ht⟩ c

theorem allocBig (ht : Twin past h g) (size : Nat) :
    Agree (fun x y => x.1 = y.1.map past.address ∧ Twin past x.2 y.2) (h.allocBig size) (g.allocBig size) := by
  unfold Heap.allocBig
  cases roundUp size with
  | error e => exact .ok ⟨rfl, ht⟩
  | ok rounded =>
    refine (ht.obtain rounded).bind ?_
    rintro ⟨e | _, h₁⟩ ⟨_, g₁⟩ ⟨rfl, ht₁⟩
    · exact .ok ⟨rfl, ht₁⟩
    · have hnumber : h₁.big.size = past.big + g₁.big.size := by
        rw [ht₁.big, Array.size_append, Array.size_replicate]
      have hbig : h₁.big.push (some rounded) = Array.replicate past.big none ++ g₁.big.push (some rounded) := by
        rw [ht₁.big, Array.push_append]
      refine .ok ⟨?_, { ht₁ with big := hbig, bytesInUse := congrArg (· + rounded) ht₁.bytesInUse }⟩
      dsimp only
      rw [hnumber]
      rfl

theorem takeBack (ht : Twin past h g) (hm : Pool.Mirrors past p q) (c : Nat) (b : Address) :
    Agree (fun x y => Pool.Mirrors past x.1 y.1 ∧ Twin past x.2 y.2)
      (h.takeBack p c (past.address b)) (g.takeBack q c b) := by
  refine (hm.push c b).bind fun p₁ q₁ hm₁ => ?_
  refine (hm₁.count c (-1) (-1)).bind fun p₂ q₂ hm₂ => ?_
  exact .ok ⟨hm₂, ht.withBytes (· - SizeClass.blockSize c)⟩

theorem spill (ht : Twin past h g) (hm : Pool.Mirrors past p q) (c : Nat) :
    Agree (fun x y => Pool.Mirrors past x.1 y.1 ∧ Twin past x.2 y.2) (h.spill p c) (g.spill q c) := by
  unfold Heap.spill
  rw [hm.freeCount c]
  cases q.freeCount c with
  | error e => exact .error e
  | ok length =>
    have hmax : h.limits.localFreeMax = g.limits.localFreeMax := congrArg Limits.localFreeMax ht.limits
    simp only [bind, Except.bind, hmax]
    split
    · refine (hm.splitTop c (length / 2)).bind ?_
      rintro ⟨_, p₁⟩ ⟨top, q₁⟩ ⟨rfl, hm₁⟩
      refine (ht.global.append c top).bind fun P Q hM => ?_
      exact .ok ⟨hm₁, ht.withGlobal hM⟩
    · exact .ok ⟨hm, ht⟩

theorem chunkLength (ht : Twin past h g) (k : ChunkId) : h.chunkLength? (past.chunk k) = g.chunkLength? k := by
  cases k with
  | nowhere => rfl
  | carving n =>
    simp only [Past.chunk, chunkLength?, carvingIndex?, ht.firstCarving, ht.carving, Nat.add_le_add_iff_left,
      Nat.add_sub_add_left]
  | big n =>
    have hsize : (Array.replicate past.big (none : Option Nat)).size = past.big := Array.size_replicate
    have hget : h.big[past.big + n]? = g.big[n]? := by
      rw [ht.big, Array.getElem?_append_right (by omega), hsize, Nat.add_sub_cancel_left]
    simp only [Past.chunk, chunkLength?, hget]

theorem freeBig (ht : Twin past h g) (b : Address) (size : Nat) :
    Agree (Twin past) (h.freeBig (past.address b) size) (g.freeBig b size) := by
  obtain ⟨k, offset⟩ := b
  unfold Heap.freeBig
  cases k with
  | nowhere => exact .error _
  | carving n => exact .error _
  | big n =>
    cases offset with
    | succ m => exact .error _
    | zero =>
      cases roundUp size with
      | error e => exact .error _
      | ok rounded =>
        have hlength := ht.chunkLength (.big n)
        simp only [Past.address, Past.chunk] at hlength ⊢
        rw [hlength]
        split
        · have hbig : h.big.setIfInBounds (past.big + n) none =
              Array.replicate past.big none ++ g.big.setIfInBounds n none := by
            rw [ht.big]
            grind
          exact .ok { ht with
            big := hbig
            reserved := congrArg (· - rounded) ht.reserved
            bytesInUse := congrArg (· - rounded) ht.bytesInUse }
        · exact .error _

end Twin

/-! ## Whole heaps -/

/-- Since some moment a heap is like a new one. It may have other local pools, all of them from before. -/
structure Resembles (past : Past) (h g : Heap) : Prop where
  twin : Twin past h g
  locals : ∀ i, Option.Rel (Pool.Mirrors past) (h.locals.lookup (past.pools + i)) (g.locals.lookup i)

namespace Resembles

/-- The local pools are the same as before, but for one that was put back. -/
theorem putBack (hr : Resembles past h g) {h₁ g₁ : Heap} (ht : Twin past h₁ g₁) (hm : Pool.Mirrors past p q)
    (hp : h₁.locals = h.locals.eraseP (·.1 == past.pools + id)) (hq : g₁.locals = g.locals.eraseP (·.1 == id)) :
    Resembles past (h₁.putBack (past.pools + id) p) (g₁.putBack id q) := by
  refine ⟨ht.withLocals _ _, fun i => ?_⟩
  simp only [Heap.putBack, hp, hq, lookup_putBack, Nat.add_left_cancel_iff]
  split
  · exact .some hm
  · exact hr.locals i

theorem takeOut (hr : Resembles past h g) (id : PoolId) :
    Agree (fun x y => Pool.Mirrors past x.1 y.1 ∧ Twin past x.2 y.2 ∧
        x.2.locals = h.locals.eraseP (·.1 == past.pools + id) ∧ y.2.locals = g.locals.eraseP (·.1 == id))
      (h.takeOut (past.pools + id)) (g.takeOut id) := by
  have hid := hr.locals id
  unfold Heap.takeOut Heap.pool
  cases hp : h.locals.lookup (past.pools + id) <;> cases hq : g.locals.lookup id <;> rw [hp, hq] at hid
  · exact .error _
  · cases hid
  · cases hid
  · cases hid with
    | some hm => exact .ok ⟨hm, hr.twin.withLocals _ _, rfl, rfl⟩

theorem withTwin (hr : Resembles past h g) (ht : Twin past h' g') (hp : h'.locals = h.locals)
    (hq : g'.locals = g.locals) : Resembles past h' g' :=
  ⟨ht, hp ▸ hq ▸ hr.locals⟩

theorem alloc (hr : Resembles past h g) (from? : Option PoolId) (size : Nat) :
    Agree (fun x y => x.1 = y.1.map past.address ∧ Resembles past x.2 y.2)
      (h.alloc (past.pool? from?) size) (g.alloc from? size) := by
  have hfast : h.limits.allocFast = g.limits.allocFast := congrArg Limits.allocFast hr.twin.limits
  cases hclass : SizeClass.ofSize size g.limits.allocFast with
  | error e =>
    cases from? <;> simp only [Past.pool?, Option.map, Heap.alloc, allocLocal, allocGlobal, hfast, hclass] <;>
      exact .ok ⟨rfl, hr⟩
  | ok k =>
    cases k with
    | big =>
      rw [alloc_of_big (hfast ▸ hclass), alloc_of_big hclass]
      have hbig := (hr.twin.allocBig size).and_eq
      obtain ⟨rounded, hround, -⟩ := SizeClass.ofSize_eq_big hclass
      refine hbig.mono ?_
      rintro x y ⟨hx, hy, hanswer, ht⟩
      exact ⟨hanswer, hr.withTwin ht (allocBig_books hround hx).2 (allocBig_books hround hy).2⟩
    | fast c =>
      cases from? with
      | none =>
        simp only [Past.pool?, Option.map, Heap.alloc, allocGlobal, hfast, hclass, takeGlobal]
        have ht := hr.twin.withGlobal .nothing
        refine (ht.serve hr.twin.global c fun ht hm => ht.carveAnew hm _).and_eq.bind ?_
        rintro ⟨_, P, h₁⟩ ⟨answer, Q, g₁⟩ ⟨hx, hy, rfl, hM, ht₁⟩
        have hp := (serve_books (fun _ _ _ _ => carveAnew_books) hx).2
        have hq := (serve_books (fun _ _ _ _ => carveAnew_books) hy).2
        exact .ok ⟨rfl, hr.withTwin (ht₁.withGlobal hM) hp hq⟩
      | some id =>
        simp only [Past.pool?, Option.map, Heap.alloc, allocLocal, hfast, hclass]
        refine (hr.takeOut id).bind ?_
        rintro ⟨p, h₀⟩ ⟨q, g₀⟩ ⟨hm, ht, hp₀, hq₀⟩
        refine (ht.serve hm c fun ht hm => ht.refill hm c).and_eq.bind ?_
        rintro ⟨_, p₁, h₁⟩ ⟨answer, q₁, g₁⟩ ⟨hx, hy, rfl, hm₁, ht₁⟩
        have hp := (serve_books (fun _ _ _ _ => refill_books) hx).2
        have hq := (serve_books (fun _ _ _ _ => refill_books) hy).2
        exact .ok ⟨rfl, hr.putBack ht₁ hm₁ (hp.trans hp₀) (hq.trans hq₀)⟩

theorem free (hr : Resembles past h g) (into? : Option PoolId) (b : Address) (size : Nat) :
    Agree (Resembles past) (h.free (past.pool? into?) (past.address b) size) (g.free into? b size) := by
  have hfast : h.limits.allocFast = g.limits.allocFast := congrArg Limits.allocFast hr.twin.limits
  cases hclass : SizeClass.ofSize size g.limits.allocFast with
  | error e =>
    cases into? <;> simp only [Past.pool?, Option.map, Heap.free, freeLocal, freeGlobal, hfast, hclass] <;>
      exact .error _
  | ok k =>
    cases k with
    | big =>
      rw [free_of_big (hfast ▸ hclass), free_of_big hclass]
      refine (hr.twin.freeBig b size).and_eq.mono ?_
      rintro h₁ g₁ ⟨hx, hy, ht⟩
      exact hr.withTwin ht (freeBig_pools hx).2 (freeBig_pools hy).2
    | fast c =>
      cases into? with
      | none =>
        simp only [Past.pool?, Option.map, Heap.free, freeGlobal, hfast, hclass, takeGlobal]
        have ht := hr.twin.withGlobal .nothing
        refine (ht.takeBack hr.twin.global c b).and_eq.bind ?_
        rintro ⟨P, h₁⟩ ⟨Q, g₁⟩ ⟨hx, hy, hM, ht₁⟩
        exact .ok (hr.withTwin (ht₁.withGlobal hM) (takeBack_books hx).2 (takeBack_books hy).2)
      | some id =>
        simp only [Past.pool?, Option.map, Heap.free, freeLocal, hfast, hclass]
        refine (hr.takeOut id).bind ?_
        rintro ⟨p, h₀⟩ ⟨q, g₀⟩ ⟨hm, ht, hp₀, hq₀⟩
        refine (ht.takeBack hm c b).and_eq.bind ?_
        rintro ⟨p₁, h₁⟩ ⟨q₁, g₁⟩ ⟨hx₁, hy₁, hm₁, ht₁⟩
        refine (ht₁.spill hm₁ c).and_eq.bind ?_
        rintro ⟨p₂, h₂⟩ ⟨q₂, g₂⟩ ⟨hx₂, hy₂, hm₂, ht₂⟩
        have hp := (spill_books hx₂).locals.trans (takeBack_books hx₁).2
        have hq := (spill_books hy₂).locals.trans (takeBack_books hy₁).2
        exact .ok (hr.putBack ht₂ hm₂ (hp.trans hp₀) (hq.trans hq₀))

theorem openPool (hr : Resembles past h g) : Resembles past h.openPool.2 g.openPool.2 := by
  have hnext := hr.twin.nextPool
  refine ⟨{ hr.twin with nextPool := ?_ }, fun i => ?_⟩
  · simp only [Heap.openPool, hnext, Nat.add_assoc]
  · by_cases hi : i = g.nextPool
    · subst hi
      simp only [Heap.openPool, hnext, List.lookup_cons, beq_self_eq_true]
      have hfast : h.limits.allocFast = g.limits.allocFast := congrArg Limits.allocFast hr.twin.limits
      exact .some (hfast ▸ .empty _)
    · have hne : past.pools + i ≠ h.nextPool := fun he => hi (Nat.add_left_cancel (he.trans hnext))
      rw [openPool_lookup hi, openPool_lookup hne]
      exact hr.locals i

theorem closePool {limits limits' : Limits} (hr : Resembles past h g) (hs : Shaped limits h) (hs' : Shaped limits' g)
    (id : PoolId) : Agree (Resembles past) (h.closePool (past.pools + id)) (g.closePool id) := by
  have hid := hr.locals id
  have hclose : Agree (fun h' g' => Twin past h' g') (h.closePool (past.pools + id)) (g.closePool id) := by
    unfold Heap.closePool Heap.pool
    generalize h.locals.lookup (past.pools + id) = p? at hid
    generalize g.locals.lookup id = q? at hid
    cases hid with
    | none => exact .error _
    | @some p q hm =>
      obtain ⟨hspace, hrest⟩ := hm.takeSpace
      have hleft : h.leftOver ++ p.takeSpace.1.toList = (g.leftOver ++ q.takeSpace.1.toList).map past.region := by
        rw [hr.twin.leftOver, hspace, List.map_append]
        cases q.takeSpace.1 <;> rfl
      exact .ok { hr.twin with global := hrest.merge hr.twin.global, leftOver := hleft }
  refine hclose.and_eq.mono ?_
  rintro h' g' ⟨hx, hy, ht⟩
  refine ⟨ht, fun i => ?_⟩
  simp only [closePool_lookup hs.ids hx, closePool_lookup hs'.ids hy, Nat.add_left_cancel_iff]
  split
  · exact .none
  · exact hr.locals i

/-- A bare pool from before leaves no trace. -/
theorem drop {limits : Limits} (hr : Resembles past h g) (hs : Shaped limits h) (hid : id < past.pools)
    (hp : h.locals.lookup id = some p) (hbare : p.Bare) (hc : h.closePool id = .ok h') : Resembles past h' g := by
  have hlookup (i : PoolId) : h'.locals.lookup (past.pools + i) = h.locals.lookup (past.pools + i) := by
    rw [closePool_lookup hs.ids hc, if_neg (Nat.ne_of_gt (Nat.lt_add_right i hid))]
  obtain ⟨p', hp', rfl⟩ := closePool_cases hc
  cases hp.symm.trans hp'
  obtain ⟨hmerged, hspace⟩ := hr.twin.global.merge_bare (hs.sound_of_lookup hp) hs.global hbare
  refine ⟨{ hr.twin with global := hmerged, leftOver := ?_ }, fun i => (hlookup i) ▸ hr.locals i⟩
  rw [hspace]
  exact (List.append_nil _).trans hr.twin.leftOver

end Resembles

end Heap

end AtomHeap
