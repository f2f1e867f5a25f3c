import AtomHeap.Proofs.Memory.History
import AtomHeap.Proofs.Memory.Shortage
import AtomHeap.Proofs.Memory.Stacks
/-!
# How long the free lists are

`Pool.listed p c` is the number of free blocks of class `c` on the list of a pool. A list that is asked for a
block gets shorter by that block. A local pool whose list is empty carves a block, which changes no list; or
takes a batch of blocks from the shared pool, of which it keeps all but one; or gives up its bump space, and then
the remainder of that may go on a list, of whatever class it is as long as. `Draw` says which, and so all that
serving a block does to lists.
-/

namespace AtomHeap

namespace Pool

variable {allocFast c d n size : Nat} {p q : Pool} {b : Address} {top : FreeList}

/-- How many free blocks of a class a pool has. -/
def listed (p : Pool) (c : Nat) : Nat :=
  match p.shelves[c]? with
  | some s => s.free.blocks.length
  | none => 0

theorem listed_eq_length (p : Pool) (c : Nat) : p.listed c = (p.stack c).length := by
  unfold listed stack
  cases p.shelves[c]? <;> rfl

theorem listed_of_update {l : List Address} (h : q.stack = Function.update p.stack c l) (d : Nat) :
    q.listed d = if d = c then l.length else p.listed d := by
  rw [listed_eq_length, listed_eq_length, h, Function.update_apply]
  split <;> rfl

theorem listed_of_stack (h : q.stack = p.stack) : q.listed = p.listed := by
  funext d
  rw [listed_eq_length, listed_eq_length, h]

theorem lists_iff : p.lists c = true ↔ 0 < p.listed c := by
  unfold lists listed
  cases p.shelves[c]? with
  | none => simp
  | some s => simp [List.length_pos_iff]

/-- The number kept beside a list is right. -/
theorem freeCount_eq (hp : p.Sound allocFast) (hc : c < SizeClass.count allocFast) :
    p.freeCount c = .ok (p.listed c) := by
  obtain ⟨s, -, hshelf, -⟩ := hp.shelf hc
  have hn : p.freeCount c = .ok s.free.length := by
    simp only [freeCount, hshelf]
    rfl
  rw [hn, listed_eq_length, stack_freeCount hp hn]

theorem listed_freeCount (hp : p.Sound allocFast) (hn : p.freeCount c = .ok n) : p.listed c = n :=
  (listed_eq_length p c).trans (stack_freeCount hp hn)

theorem listed_eq_zero (hc : p.shelves.size ≤ c) : p.listed c = 0 := by
  rw [listed_eq_length, stack_eq_nil hc, List.length_nil]

theorem listed_pop_some (h : p.pop c = .ok (some b, q)) (d : Nat) :
    p.listed d = q.listed d + if d = c then 1 else 0 := by
  obtain ⟨rest, hstack, hq⟩ := stack_pop_some h
  rw [listed_of_update hq]
  by_cases hd : d = c
  · subst hd
    simp [listed_eq_length, hstack]
  · simp [hd]

theorem listed_pop_none (h : p.pop c = .ok (none, q)) : q = p ∧ p.listed c = 0 := by
  obtain ⟨rfl, hstack⟩ := stack_pop_none h
  exact ⟨rfl, by rw [listed_eq_length, hstack, List.length_nil]⟩

theorem listed_push (h : p.push c b = .ok q) (d : Nat) : q.listed d = p.listed d + if d = c then 1 else 0 := by
  rw [listed_of_update (stack_push h)]
  by_cases hd : d = c
  · subst hd
    simp [listed_eq_length]
  · simp [hd]

theorem listed_count {change : Int} (h : p.count c change = .ok q) : q.listed = p.listed :=
  listed_of_stack (stack_count h)

theorem listed_splitTop (hp : p.Sound allocFast) (h : p.splitTop c n = .ok (top, q)) :
    top.blocks.length = min n (p.listed c) ∧
      ∀ d, p.listed d = q.listed d + if d = c then top.blocks.length else 0 := by
  obtain ⟨htop, hrest⟩ := stack_splitTop hp h
  have hlength : top.blocks.length = min n (p.listed c) := by rw [htop, List.length_take, listed_eq_length]
  refine ⟨hlength, fun d => ?_⟩
  rw [listed_of_update hrest, hlength, List.length_drop, ← listed_eq_length]
  by_cases hd : d = c
  · subst hd
    simp only [if_true]
    omega
  · simp [hd]

theorem listed_append (h : p.append c top = .ok q) (d : Nat) :
    q.listed d = p.listed d + if d = c then top.blocks.length else 0 := by
  rw [listed_of_update (stack_append h), List.length_append, ← listed_eq_length]
  by_cases hd : d = c
  · subst hd
    simp only [if_true]
    omega
  · simp [hd]

theorem listed_carve (h : p.carve? size = some (b, q)) : q.listed = p.listed := listed_of_stack (stack_carve h)

theorem listed_takeSpace (p : Pool) : p.takeSpace.2.listed = p.listed := listed_of_stack (stack_takeSpace p)

theorem listed_empty (allocFast c : Nat) : (Pool.empty allocFast).listed c = 0 := by
  rw [listed_eq_length, stack_empty, List.length_nil]

theorem listed_merge (hp : p.Sound allocFast) (hq : q.Sound allocFast) (c : Nat) :
    (p.merge q).listed c = p.listed c + q.listed c := by
  rw [listed_eq_length, stack_merge hp hq, List.length_append, ← listed_eq_length, ← listed_eq_length]

/-- The class of the list that the remainder of the bump space goes on, if the space is given up and the
remainder is a block of some class. -/
def remainder? (p : Pool) (allocFast : Nat) : Option Nat :=
  SizeClass.fast? (p.spaceLeft - p.spaceLeft % alignment) allocFast

theorem listed_retire {r? : Option Region} (h : p.retire allocFast = .ok (r?, q)) (d : Nat) :
    q.listed d = p.listed d + if p.remainder? allocFast = some d then 1 else 0 := by
  unfold remainder?
  rcases retire_inv h with ⟨r, c, hr, -, hclass, hpush⟩ | ⟨hclass, rfl⟩
  · have hleft : p.spaceLeft = r.length := by simp only [spaceLeft, hr]
    simp only [hleft, SizeClass.fast?_eq_some_iff.2 hclass, Option.some.injEq, listed_push hpush, eq_comm (a := c)]
    rfl
  · rw [if_neg fun hd => hclass d (SizeClass.fast?_eq_some_iff.1 hd)]
    rfl

end Pool

namespace Heap

variable {limits : Limits} {h h' : Heap} {p q : Pool} {id other : PoolId} {c n size : Nat} {answer : Except AllocError Address}
  {b : Address} {from? : Option PoolId}

/-! ## Serving from a local pool -/

/-- What comes of a block of class `c` asked of a local pool `p`: the pool is `q` then, and the rest of the heap
`h'`. -/
inductive Draw (h : Heap) (p : Pool) (c : Nat) : Except AllocError Address → Pool → Heap → Prop
  /-- A block comes off the list. -/
  | popped {b : Address} {q : Pool} {bytesInUse : Nat} :
      (∀ d, p.listed d = q.listed d + if d = c then 1 else 0) → Draw h p c (.ok b) q { h with bytesInUse }
  /-- A block is carved. -/
  | carved {b : Address} {q : Pool} {bytesInUse : Nat} :
      p.listed c = 0 → q.listed = p.listed → Draw h p c (.ok b) q { h with bytesInUse }
  /-- A batch comes off the list of the shared pool. -/
  | batch {b : Address} {q global : Pool} {bytesInUse n : Nat} :
      p.listed c = 0 → n < refillBatch → (∀ d, q.listed d = p.listed d + if d = c then n else 0) →
      (∀ d, h.global.listed d = global.listed d + if d = c then n + 1 else 0) →
      Draw h p c (.ok b) q { h with global, bytesInUse }
  /-- The bump space is given up, whether or not there is another one. -/
  | anew {answer : Except AllocError Address} {q : Pool} {h' : Heap} :
      p.listed c = 0 → p.fits c = false → h.global.listed c = 0 →
      (∀ d, q.listed d = p.listed d + if p.remainder? h.limits.allocFast = some d then 1 else 0) →
      h'.global.listed = h.global.listed → Draw h p c answer q h'

theorem carveAnew_listed (hc : h.carveAnew p size = .ok (answer, q, h')) :
    (∀ d, q.listed d = p.listed d + if p.remainder? h.limits.allocFast = some d then 1 else 0) ∧
      h'.global = h.global := by
  cases carveAnew_cases hc with
  | refused hretire hspace | short hretire hspace =>
    have hlisted := Pool.listed_retire hretire
    have hglobal := newSpace_global hspace
    exact ⟨hlisted, hglobal⟩
  | carved hretire hspace hcarve =>
    have hlisted := Pool.listed_retire hretire
    have hglobal := newSpace_global hspace
    rw [Pool.listed_carve hcarve]
    exact ⟨hlisted, hglobal⟩

theorem refill_draw (hg : h.global.Sound h.limits.allocFast) (hlisted : p.listed c = 0) (hfits : p.fits c = false)
    (hr : h.refill p c = .ok (answer, q, h')) : Draw h p c answer q h' := by
  cases refill_cases hr with
  | @batch b batch rest global _ hsplit hblocks happend =>
    obtain ⟨hlength, hshared⟩ := Pool.listed_splitTop hg hsplit
    -- The block that is handed out is one of the batch.
    have hrest : batch.blocks.length = rest.blocks.length + 1 := by rw [hblocks, List.length_cons]
    exact .batch hlisted (by omega) (Pool.listed_append happend)
      fun d => hrest ▸ hshared d
  | @anew _ batch global _ _ hsplit hempty hcarve =>
    obtain ⟨hlength, hshared⟩ := Pool.listed_splitTop hg hsplit
    have hnone : h.global.listed c = 0 := by
      rw [hempty, List.length_nil] at hlength
      simp only [refillBatch] at hlength
      omega
    obtain ⟨hkept, hglobal⟩ := carveAnew_listed (h := { h with global }) hcarve
    refine .anew hlisted hfits hnone hkept ?_
    funext d
    rw [hglobal, hshared d, hempty]
    simp

/-- All that serving a block from a local pool does to the free lists. -/
theorem serve_draw (hg : h.global.Sound h.limits.allocFast)
    (hs : h.serve p c (fun h p => h.refill p c) = .ok (answer, q, h')) : Draw h p c answer q h' := by
  obtain ⟨p₁, h₁, hfound, hcount⟩ := serve_cases hs
  cases hfound with
  | popped hpop =>
    obtain ⟨hcount, rfl⟩ := hcount
    refine .popped fun d => ?_
    rw [Pool.listed_count hcount]
    exact Pool.listed_pop_some hpop d
  | carved hpop hcarve =>
    obtain ⟨hcount, rfl⟩ := hcount
    obtain ⟨rfl, hlisted⟩ := Pool.listed_pop_none hpop
    exact .carved hlisted ((Pool.listed_count hcount).trans (Pool.listed_carve hcarve))
  | more hpop hcarve hmore =>
    obtain ⟨rfl, hlisted⟩ := Pool.listed_pop_none hpop
    have hdraw := refill_draw hg hlisted (Pool.fits_of_carve_none hcarve) hmore
    cases answer with
    | error e =>
      obtain ⟨rfl, rfl⟩ := hcount
      exact hdraw
    | ok b =>
      obtain ⟨hcount, rfl⟩ := hcount
      have hq := Pool.listed_count hcount
      cases hdraw with
      | popped hpopped => exact .popped (hq ▸ hpopped)
      | carved hlisted hsame => exact .carved hlisted (hq.trans hsame)
      | batch hlisted hlt hkept hshared => exact .batch hlisted hlt (hq ▸ hkept) hshared
      | anew hlisted hfits hnone hkept hglobal => exact .anew hlisted hfits hnone (hq ▸ hkept) hglobal

/-! ## Taking back into a local pool -/

theorem takeBack_stack (ht : h.takeBack p c b = .ok (q, h')) :
    q.stack = Function.update p.stack c (b :: p.stack c) ∧ ∃ bytesInUse, h' = { h with bytesInUse } := by
  obtain ⟨p₁, hpush, hcount, rfl⟩ := takeBack_inv ht
  exact ⟨(Pool.stack_count hcount).trans (Pool.stack_push hpush), _, rfl⟩

theorem takeBack_listed (ht : h.takeBack p c b = .ok (q, h')) (d : Nat) :
    q.listed d = p.listed d + if d = c then 1 else 0 := by
  rw [Pool.listed_of_update (takeBack_stack ht).1, List.length_cons, ← Pool.listed_eq_length]
  by_cases hd : d = c
  · rw [if_pos hd, if_pos hd, hd]
  · rw [if_neg hd, if_neg hd, Nat.add_zero]

/-- How many blocks of a list go to the shared pool, where a list may be `max` long. -/
def spilled (max length : Nat) : Nat := if max < length then length / 2 else 0

/-- The blocks that are spilled go on top of those of the shared pool, in their order. -/
theorem spill_stack {allocFast : Nat} (hp : p.Sound allocFast) (hs : h.spill p c = .ok (q, h')) :
    q.stack = Function.update p.stack c
        ((p.stack c).drop (spilled h.limits.localFreeMax (p.stack c).length)) ∧
      ∃ global, h' = { h with global } ∧
        global.stack = Function.update h.global.stack c
          ((p.stack c).take (spilled h.limits.localFreeMax (p.stack c).length) ++ h.global.stack c) ∧
        ((p.stack c).length ≤ h.limits.localFreeMax → global = h.global) := by
  unfold spilled
  cases spill_cases hs with
  | @long _ top global _ hlength hlong hsplit happend =>
    cases Pool.stack_freeCount hp hlength
    obtain ⟨htop, hrest⟩ := Pool.stack_splitTop hp hsplit
    rw [if_pos hlong, ← htop]
    exact ⟨hrest, global, rfl, Pool.stack_append happend, fun hshort => absurd hlong (Nat.not_lt.2 hshort)⟩
  | short hlength hshort =>
    cases Pool.stack_freeCount hp hlength
    rw [if_neg (Nat.not_lt.2 hshort), List.drop_zero, List.take_zero, List.nil_append, Function.update_eq_self,
      Function.update_eq_self]
    exact ⟨rfl, h.global, rfl, rfl, fun _ => rfl⟩

/-! ## Which pool a request works on -/

/-- A fast request to a local pool is served by it, and the other local pools stay as they are. -/
theorem alloc_own (hclass : SizeClass.ofSize size h.limits.allocFast = .ok (.fast c))
    (ha : h.alloc (some id) size = .ok (answer, h')) :
    ∃ p q h₁, h.locals.lookup id = some p ∧
      { h with locals := h.locals.eraseP (·.1 == id) }.serve p c (fun h p => h.refill p c) = .ok (answer, q, h₁) ∧
      h' = h₁.putBack id q ∧
      ∀ other, h'.locals.lookup other = if other = id then some q else h.locals.lookup other := by
  simp only [Heap.alloc, allocLocal, hclass] at ha
  obtain ⟨⟨p, h₀⟩, htake, ha⟩ := bind_eq_ok_iff.1 ha
  obtain ⟨⟨answer₁, q, h₁⟩, hserve, ha⟩ := bind_eq_ok_iff.1 ha
  cases ha
  obtain ⟨hlookup, rfl⟩ := takeOut_lookup htake
  refine ⟨p, q, h₁, hlookup, hserve, rfl, fun other => ?_⟩
  have hlocals := (serve_books (fun _ _ _ _ => refill_books) hserve).2
  simp only [putBack, hlocals]
  exact lookup_putBack id other q

/-- A fast block that is freed into a local pool is taken back by it, and the other local pools stay as they are. -/
theorem free_own (hclass : SizeClass.ofSize size h.limits.allocFast = .ok (.fast c))
    (hf : h.free (some id) b size = .ok h') :
    ∃ p p₁ q h₁ h₂, h.locals.lookup id = some p ∧
      { h with locals := h.locals.eraseP (·.1 == id) }.takeBack p c b = .ok (p₁, h₁) ∧
      h₁.spill p₁ c = .ok (q, h₂) ∧ h' = h₂.putBack id q ∧
      ∀ other, h'.locals.lookup other = if other = id then some q else h.locals.lookup other := by
  simp only [Heap.free, freeLocal, hclass] at hf
  obtain ⟨⟨p, h₀⟩, htake, hf⟩ := bind_eq_ok_iff.1 hf
  obtain ⟨⟨p₁, h₁⟩, hback, hf⟩ := bind_eq_ok_iff.1 hf
  obtain ⟨⟨q, h₂⟩, hspill, hf⟩ := bind_eq_ok_iff.1 hf
  cases hf
  obtain ⟨hlookup, rfl⟩ := takeOut_lookup htake
  refine ⟨p, p₁, q, h₁, h₂, hlookup, hback, hspill, rfl, fun other => ?_⟩
  have hlocals := (spill_books hspill).locals.trans (takeBack_books hback).2
  simp only [putBack, hlocals]
  exact lookup_putBack id other q

/-- A fast request to the shared pool is served by it, and all local pools stay as they are. -/
theorem alloc_shared (hclass : SizeClass.ofSize size h.limits.allocFast = .ok (.fast c))
    (ha : h.alloc none size = .ok (answer, h')) :
    ∃ q h₁, { h with global := { shelves := #[] } }.serve h.global c
        (fun h p => h.carveAnew p (SizeClass.blockSize c)) = .ok (answer, q, h₁) ∧
      h' = { h₁ with global := q } ∧ h'.locals = h.locals := by
  simp only [Heap.alloc, allocGlobal, hclass, takeGlobal] at ha
  obtain ⟨⟨answer₁, q, h₁⟩, hserve, ha⟩ := bind_eq_ok_iff.1 ha
  cases ha
  exact ⟨q, h₁, hserve, rfl, (serve_books (fun _ _ _ _ => carveAnew_books) hserve).2⟩

theorem free_shared (hclass : SizeClass.ofSize size h.limits.allocFast = .ok (.fast c))
    (hf : h.free none b size = .ok h') :
    ∃ q h₁, { h with global := { shelves := #[] } }.takeBack h.global c b = .ok (q, h₁) ∧
      h' = { h₁ with global := q } ∧ h'.locals = h.locals := by
  simp only [Heap.free, freeGlobal, hclass, takeGlobal] at hf
  obtain ⟨⟨q, h₁⟩, hback, hf⟩ := bind_eq_ok_iff.1 hf
  cases hf
  exact ⟨q, h₁, hback, rfl, (takeBack_books hback).2⟩

theorem Shaped.alloc_draw (hs : Shaped limits h) (hclass : SizeClass.ofSize size h.limits.allocFast = .ok (.fast c))
    (ha : h.alloc (some id) size = .ok (answer, h')) :
    ∃ p q h₁, h.locals.lookup id = some p ∧
      Draw { h with locals := h.locals.eraseP (·.1 == id) } p c answer q h₁ ∧ h' = h₁.putBack id q ∧
      ∀ other, h'.locals.lookup other = if other = id then some q else h.locals.lookup other := by
  obtain ⟨p, q, h₁, hlookup, hserve, hh', hlocals⟩ := alloc_own hclass ha
  exact ⟨p, q, h₁, hlookup, serve_draw hs.global hserve, hh', hlocals⟩

/-- A block of class `c` that is freed into a local pool goes on top of its list, and the topmost half of a list
that is too long then on top of that of the shared pool. -/
theorem Shaped.free_stack (hs : Shaped limits h) (hb : b.offset % alignment = 0)
    (hclass : SizeClass.ofSize size h.limits.allocFast = .ok (.fast c)) (hf : h.free (some id) b size = .ok h') :
    ∃ p q, h.locals.lookup id = some p ∧ h'.locals = (id, q) :: h.locals.eraseP (·.1 == id) ∧
      q.stack = Function.update p.stack c
        ((b :: p.stack c).drop (spilled h.limits.localFreeMax ((p.stack c).length + 1))) ∧
      h'.global.stack = Function.update h.global.stack c
        ((b :: p.stack c).take (spilled h.limits.localFreeMax ((p.stack c).length + 1)) ++ h.global.stack c) ∧
      ((p.stack c).length < h.limits.localFreeMax → h'.global = h.global) := by
  obtain ⟨p, p₁, q, h₁, h₂, hlookup, hback, hspill, rfl, -⟩ := free_own hclass hf
  have hp := hs.sound_of_lookup hlookup
  have hp₁ := ((takeBack_ends (h := { h with locals := h.locals.eraseP (·.1 == id) }) hp (takeBack_lt hp hback)
    hb).post_of_ok hback).1
  obtain ⟨hpushed, bytesInUse, rfl⟩ := takeBack_stack hback
  obtain ⟨hkept, global, rfl, hglobal, hsame⟩ := spill_stack hp₁ hspill
  have hown : p₁.stack c = b :: p.stack c := by rw [hpushed, Function.update_self]
  rw [hown, List.length_cons] at hkept hglobal hsame
  rw [hpushed, Function.update_idem] at hkept
  exact ⟨p, q, hlookup, rfl, hkept, hglobal, hsame⟩

/-- What a block of class `c` that is freed into a local pool does to the lengths of the free lists. -/
theorem Shaped.free_listed (hs : Shaped limits h) (hb : b.offset % alignment = 0)
    (hclass : SizeClass.ofSize size h.limits.allocFast = .ok (.fast c)) (hf : h.free (some id) b size = .ok h') :
    ∃ p q, h.locals.lookup id = some p ∧
      (∀ other, h'.locals.lookup other = if other = id then some q else h.locals.lookup other) ∧
      ∀ d, q.listed d + (if d = c then spilled h.limits.localFreeMax (p.listed c + 1) else 0) =
          p.listed d + (if d = c then 1 else 0) ∧
        h'.global.listed d =
          h.global.listed d + if d = c then spilled h.limits.localFreeMax (p.listed c + 1) else 0 := by
  obtain ⟨p, q, hlookup, hlocals, hown, hshared, -⟩ := hs.free_stack hb hclass hf
  refine ⟨p, q, hlookup, fun other => hlocals ▸ lookup_putBack id other q, fun d => ?_⟩
  have hle : spilled h.limits.localFreeMax (p.listed c + 1) ≤ p.listed c + 1 := by
    unfold spilled
    split <;> omega
  rw [Pool.listed_of_update hown, Pool.listed_of_update hshared, ← Pool.listed_eq_length]
  simp only [List.length_drop, List.length_append, List.length_take, List.length_cons, ← Pool.listed_eq_length]
  by_cases hd : d = c
  · subst hd
    simp only [if_true]
    omega
  · simp [hd]

/-- A request leaves the local pools as they are that it is not made to, and all of them if it is for a big block. -/
theorem alloc_lookup (ha : h.alloc from? size = .ok (answer, h'))
    (hne : from? = some id → SizeClass.fast? size h.limits.allocFast = none) :
    h'.locals.lookup id = h.locals.lookup id := by
  cases hround : roundUp size with
  | error e =>
    rw [alloc_of_no_size hround] at ha
    cases ha
    rfl
  | ok length =>
    rcases SizeClass.ofSize_cases hround h.limits.allocFast with ⟨c, -, hclass⟩ | ⟨-, hclass⟩
    · cases from? with
      | none =>
        obtain ⟨_, _, -, -, hlocals⟩ := alloc_shared hclass ha
        rw [hlocals]
      | some other =>
        obtain ⟨_, _, _, -, -, -, hlocals⟩ := alloc_own hclass ha
        rw [hlocals, if_neg]
        rintro rfl
        exact absurd (hne rfl) (SizeClass.fast?_eq_some_iff.2 hclass ▸ nofun)
    · rw [alloc_of_big hclass] at ha
      rw [(allocBig_books hround ha).2]

theorem free_lookup {into? : Option PoolId} {length : Nat} (hround : roundUp size = .ok length)
    (hf : h.free into? b size = .ok h') (hne : into? = some id → SizeClass.fast? size h.limits.allocFast = none) :
    h'.locals.lookup id = h.locals.lookup id := by
  rcases SizeClass.ofSize_cases hround h.limits.allocFast with ⟨c, -, hclass⟩ | ⟨-, hclass⟩
  · cases into? with
    | none =>
      obtain ⟨_, _, -, -, hlocals⟩ := free_shared hclass hf
      rw [hlocals]
    | some other =>
      obtain ⟨_, _, _, _, _, -, -, -, -, hlocals⟩ := free_own hclass hf
      rw [hlocals, if_neg]
      rintro rfl
      exact absurd (hne rfl) (SizeClass.fast?_eq_some_iff.2 hclass ▸ nofun)
  · rw [free_of_big hclass] at hf
    rw [(freeBig_pools hf).2]

theorem openPool_lookup (hid : id ≠ h.nextPool) : h.openPool.2.locals.lookup id = h.locals.lookup id := by
  simp only [openPool, List.lookup_cons, beq_eq_false_iff_ne.2 hid]

theorem closePool_lookup (hids : (h.locals.map (·.1)).Nodup) (hc : h.closePool other = .ok h') :
    h'.locals.lookup id = if id = other then none else h.locals.lookup id := by
  obtain ⟨p, -, rfl⟩ := closePool_cases hc
  simp only [filter_ne_of_nodup hids]
  split
  · rename_i hid
    rw [hid, ← filter_ne_of_nodup hids, List.lookup_eq_none_iff]
    intro x hx
    have hx' := (List.mem_filter.1 hx).2
    rw [decide_eq_true_eq] at hx'
    exact bne_iff_ne.2 (Ne.symm hx')
  · exact lookup_eraseP_of_ne ‹_›

end Heap

end AtomHeap
