import AtomHeap.Proofs.Memory.Reuse
import Mathlib.Data.List.Flatten
/-!
# In which order blocks are reused

A free list is a stack. The block that was freed last into a local pool is the first one that it serves again,
unless the list was full: then that block is one of the topmost half, which goes to the shared pool in its order.
From there pools take blocks that were freed last first, and a batch at a time (`Refills`). `Returned` says so of
every block that is freed into a local pool, and that no block gets lost or onto two lists.
-/

namespace AtomHeap

/-- The free blocks of a class are among those of a pool. -/
theorem Pool.blocksAt_stack_sublist (p : Pool) (c : Nat) : (blocksAt c (p.stack c)).Sublist p.freeBlocks := by
  unfold stack
  split
  · rename_i s hs
    refine List.sublist_flatten_of_mem (List.mem_map.2 ⟨(s, c), ?_, rfl⟩)
    rwa [List.mk_mem_zipIdx_iff_getElem?, Array.getElem?_toList]
  · exact List.nil_sublist _

namespace Heap

variable {limits : Limits} {grants : Nat → Nat → Bool} {h h' h₀ : Heap} {p q : Pool} {out out' out₀ : List Region}
  {r : Region} {id : PoolId} {c n size : Nat} {b : Address} {rest : List Address} {answer : Except AllocError Address}

/-- The free blocks of a class that a local pool has, from the top. -/
def stack (h : Heap) (id : PoolId) (c : Nat) : List Address := (h.locals.lookup id).elim [] (·.stack c)

/-- The free blocks of a class that all pools have. -/
def freeOf (h : Heap) (c : Nat) : List Address := h.global.stack c ++ h.locals.flatMap (·.2.stack c)

theorem stack_of_lookup (hp : h.locals.lookup id = some p) (c : Nat) : h.stack id c = p.stack c := by
  rw [stack, hp]
  rfl

theorem stack_putBack (h : Heap) (id : PoolId) (q : Pool) (c : Nat) : (h.putBack id q).stack id c = q.stack c :=
  stack_of_lookup (by simp [putBack]) c

theorem freeOf_takeOut (hp : h.locals.lookup id = some p) (c : Nat) :
    (h.freeOf c).Perm
      (h.global.stack c ++ (p.stack c ++ (h.locals.eraseP (·.1 == id)).flatMap (·.2.stack c))) :=
  ((perm_takeOut hp).flatMap_right _).append_left _

/-- No free block of a class is on two lists, nor on one list twice. -/
theorem Owned.nodup_freeOf (ho : Owned limits h out) (hpos : 0 < SizeClass.blockSize c) : (h.freeOf c).Nodup := by
  have hsub : (blocksAt c (h.freeOf c)).Sublist h.freeBlocks := by
    have hlocals : blocksAt c (h.locals.flatMap (·.2.stack c)) = h.locals.flatMap fun x => blocksAt c (x.2.stack c) :=
      List.map_flatMap
    have happend : blocksAt c (h.freeOf c) =
        blocksAt c (h.global.stack c) ++ blocksAt c (h.locals.flatMap (·.2.stack c)) := List.map_append
    rw [happend, hlocals]
    exact (h.global.blocksAt_stack_sublist c).append
      (.flatMap_right _ fun x _ => x.2.blocksAt_stack_sublist c)
  have hapart : (blocksAt c (h.freeOf c)).Pairwise Region.Apart := by
    refine pairwise_apart_of_coverage_le fun a => Nat.le_trans hsub.countP_le ?_
    have := ho.coverage_le_one a
    rw [← coverage_free, coverage_append, coverage_append] at this
    change coverage h.freeBlocks a ≤ 1
    omega
  refine hapart.of_map _ ?_
  rintro b _ hne rfl
  exact hne b ⟨Region.covers_start (r := ⟨b, _⟩) hpos, Region.covers_start (r := ⟨b, _⟩) hpos⟩

/-! ## Serving from lists -/

theorem hasPool_of_lookup (hlookup : h.locals.lookup id = some p) : h.HasPool (some id) := by
  rintro _ ⟨⟩
  exact List.mem_map.2 ⟨(id, p), (perm_takeOut hlookup).symm.subset (.head _), rfl⟩

/-- A local pool that has free blocks of a class serves the topmost one. -/
theorem alloc_top (hlookup : h.locals.lookup id = some p) (hstack : p.stack c = b :: rest)
    (hclass : SizeClass.ofSize size h.limits.allocFast = .ok (.fast c))
    (ha : h.alloc (some id) size = .ok (answer, h')) : answer = .ok b := by
  obtain ⟨p', q, h₁, hlookup', hserve, -⟩ := alloc_own hclass ha
  cases hlookup.symm.trans hlookup'
  obtain ⟨p₁, h₂, hfound, -⟩ := serve_cases hserve
  cases hfound with
  | popped hpop =>
    obtain ⟨rest', hstack', -⟩ := Pool.stack_pop_some hpop
    cases hstack.symm.trans hstack'
    rfl
  | carved hpop | more hpop =>
    have hnil := (Pool.stack_pop_none hpop).2
    rw [hstack] at hnil
    cases hnil

theorem Shaped.serves_top (hs : Shaped limits h) (hchunk : h.limits.allocFast ≤ h.limits.chunkSize)
    (hlookup : h.locals.lookup id = some p) (hstack : p.stack c = b :: rest)
    (hclass : SizeClass.ofSize size h.limits.allocFast = .ok (.fast c)) :
    ∃ h', h.alloc (some id) size = .ok (.ok b, h') := by
  have hpos : 0 < h.atHand id c := by
    rw [atHand_of_lookup hlookup, Pool.listed_eq_length, hstack, List.length_cons]
    omega
  obtain ⟨b', h', halloc, -⟩ := hs.alloc_reused hchunk (hasPool_of_lookup hlookup) hclass hpos
  cases alloc_top hlookup hstack hclass halloc
  exact ⟨h', halloc⟩

/-- A local pool that has no free block of class `c`, nor the room to carve one. -/
def Drained (h : Heap) (id : PoolId) (c : Nat) : Prop :=
  ∃ p, h.locals.lookup id = some p ∧ p.stack c = [] ∧ p.fits c = false

theorem Drained.hasPool (hd : h.Drained id c) : h.HasPool (some id) :=
  let ⟨_, hlookup, _⟩ := hd
  hasPool_of_lookup hlookup

theorem refill_stack (hg : h.global.Sound h.limits.allocFast) (hshared : h.global.stack c = b :: rest)
    (hr : h.refill p c = .ok (answer, q, h')) :
    answer = .ok b ∧ q.stack = Function.update p.stack c (rest.take (refillBatch - 1) ++ p.stack c) ∧
      ∃ global, h' = { h with global } ∧
        global.stack = Function.update h.global.stack c ((b :: rest).drop refillBatch) := by
  have htop {batch : FreeList} {global : Pool} (hsplit : h.global.splitTop c refillBatch = .ok (batch, global)) :
      batch.blocks = b :: rest.take (refillBatch - 1) := by
    have hbatch := (Pool.stack_splitTop hg hsplit).1
    rwa [hshared] at hbatch
  cases refill_cases hr with
  | batch hsplit hblocks happend =>
    obtain ⟨rfl, hrest⟩ := List.cons.inj ((htop hsplit).symm.trans hblocks)
    have hleft := (Pool.stack_splitTop hg hsplit).2
    rw [hshared] at hleft
    rw [hrest]
    exact ⟨rfl, Pool.stack_append happend, _, rfl, hleft⟩
  | anew hsplit hempty =>
    rw [htop hsplit] at hempty
    cases hempty

/-- A local pool that is drained takes a batch from the top of the shared list, and serves the topmost block of it. -/
theorem Shaped.alloc_drained (hs : Shaped limits h) (hd : h.Drained id c)
    (hclass : SizeClass.ofSize size h.limits.allocFast = .ok (.fast c)) (hshared : h.global.stack c = b :: rest)
    (ha : h.alloc (some id) size = .ok (answer, h')) :
    answer = .ok b ∧ h'.stack id c = rest.take (refillBatch - 1) ∧
      h'.global.stack c = (b :: rest).drop refillBatch := by
  obtain ⟨p, hlookup, hstack, hfits⟩ := hd
  obtain ⟨p', q, h₁, hlookup', hserve, rfl, -⟩ := alloc_own hclass ha
  cases hlookup.symm.trans hlookup'
  obtain ⟨p₁, h₂, hfound, hcount⟩ := serve_cases hserve
  cases hfound with
  | popped hpop =>
    obtain ⟨_, hstack', -⟩ := Pool.stack_pop_some hpop
    rw [hstack] at hstack'
    cases hstack'
  | carved hpop hcarve =>
    obtain ⟨rfl, -⟩ := Pool.stack_pop_none hpop
    rw [Pool.fits_of_carve_some hcarve] at hfits
    cases hfits
  | more hpop _ hmore =>
    obtain ⟨rfl, -⟩ := Pool.stack_pop_none hpop
    obtain ⟨rfl, hown, global, rfl, hglobal⟩ :=
      refill_stack (h := { h with locals := h.locals.eraseP (·.1 == id) }) hs.global hshared hmore
    obtain ⟨hcount, rfl⟩ := hcount
    refine ⟨rfl, ?_, ?_⟩
    · rw [stack_putBack, Pool.stack_count hcount, hown, Function.update_self, hstack, List.append_nil]
    · exact (congrFun hglobal c).trans (Function.update_self ..)

theorem Shaped.serves_drained (hs : Shaped limits h) (hchunk : h.limits.allocFast ≤ h.limits.chunkSize)
    (hd : h.Drained id c) (hclass : SizeClass.ofSize size h.limits.allocFast = .ok (.fast c))
    (hshared : h.global.stack c = b :: rest) :
    ∃ h', h.alloc (some id) size = .ok (.ok b, h') ∧ h'.stack id c = rest.take (refillBatch - 1) ∧
      h'.global.stack c = (b :: rest).drop refillBatch := by
  have hpos : 0 < h.atHand id c := by
    rw [atHand, Pool.listed_eq_length h.global, hshared, List.length_cons]
    omega
  obtain ⟨b', h', halloc, -⟩ := hs.alloc_reused hchunk hd.hasPool hclass hpos
  obtain ⟨hb, hown, hleft⟩ := hs.alloc_drained hd hclass hshared halloc
  cases hb
  exact ⟨h', halloc, hown, hleft⟩

/-! ## Refilling pools -/

/-- Requests in a row, of whoever has the blocks `out₀` of the heap `h₀`, in which nothing happens to the shared list
of class `c` but that drained pools are refilled from it; `n` counts the refills. -/
inductive Refills (c : Nat) (h₀ : Heap) (out₀ : List Region) : Heap → List Region → Nat → Prop
  | start : Refills c h₀ out₀ h₀ out₀ 0
  | refill {h h' : Heap} {out : List Region} {n size length : Nat} {id : PoolId} {b : Address} :
      Refills c h₀ out₀ h out n → h.Drained id c → h.global.stack c ≠ [] →
      SizeClass.ofSize size h.limits.allocFast = .ok (.fast c) → h.alloc (some id) size = .ok (.ok b, h') →
      roundUp size = .ok length → Refills c h₀ out₀ h' (⟨b, length⟩ :: out) (n + 1)
  | other {h h' : Heap} {out out' : List Region} {n : Nat} :
      Refills c h₀ out₀ h out n → Request h out h' out' → h'.global.stack c = h.global.stack c →
      Refills c h₀ out₀ h' out' n

/-- Each refill takes one batch. -/
theorem Refills.kept (hs : Shaped limits h₀) (hout : ∀ r ∈ out₀, r.start.offset % alignment = 0)
    (hr : Refills c h₀ out₀ h out n) :
    Shaped limits h ∧ (∀ r ∈ out, r.start.offset % alignment = 0) ∧
      h.global.stack c = (h₀.global.stack c).drop (refillBatch * n) := by
  induction hr with
  | start => exact ⟨hs, hout, rfl⟩
  | @refill h h' out n size length id b _ hd hne hclass halloc hround ih =>
    obtain ⟨hs, hout, hstack⟩ := ih
    have hid := hd.hasPool
    obtain ⟨hs', hout'⟩ := hs.request hout (.served hid halloc hround)
    obtain ⟨b', rest, hshared⟩ := List.exists_cons_of_ne_nil hne
    obtain ⟨-, -, hleft⟩ := hs.alloc_drained hd hclass hshared halloc
    refine ⟨hs', hout', ?_⟩
    rw [hleft, ← hshared, hstack, List.drop_drop, Nat.mul_succ]
  | other _ hq hsame ih =>
    obtain ⟨hs, hout, hstack⟩ := ih
    obtain ⟨hs', hout'⟩ := hs.request hout hq
    exact ⟨hs', hout', hsame.trans hstack⟩

/-! ## A block that is freed -/

/-- What becomes of the lists when block `b` of class `c` is freed into the local pool `id` of a heap, the callers of
which have the blocks `out'` then. -/
structure Returned (h : Heap) (id : PoolId) (c : Nat) (b : Address) (h' : Heap) (out' : List Region) : Prop where
  /-- A list that is not full gets the block on top, and the shared pool nothing. -/
  kept : (h.stack id c).length < h.limits.localFreeMax →
    h'.stack id c = b :: h.stack id c ∧ h'.global = h.global
  /-- Of a list that is full the topmost half goes on top of the shared one, in its order. -/
  spilled : h.limits.localFreeMax ≤ (h.stack id c).length →
    h'.global.stack c = (b :: h.stack id c).take (((h.stack id c).length + 1) / 2) ++ h.global.stack c ∧
      h'.stack id c = (b :: h.stack id c).drop (((h.stack id c).length + 1) / 2)
  other_classes : ∀ d ≠ c, h'.stack id d = h.stack id d ∧ h'.global.stack d = h.global.stack d
  other_pools : ∀ other ≠ id, h'.locals.lookup other = h.locals.lookup other
  /-- No block gets lost, and none is on two lists or on one twice. -/
  conserved : (h'.freeOf c).Perm (b :: h.freeOf c) ∧ (h'.freeOf c).Nodup
  /-- The block is the next one that the pool serves, unless the list was full. -/
  served_next : ∀ size, SizeClass.ofSize size h.limits.allocFast = .ok (.fast c) →
    ∃ b' h'', h'.alloc (some id) size = .ok (.ok b', h'') ∧
      (b' = b ↔ (h.stack id c).length < h.limits.localFreeMax)
  /-- Pools take back what is on the shared list from its top, a batch at a time, and serve it in this order. -/
  refilled : ∀ h'' out'' n, Refills c h' out' h'' out'' n → ∀ id', h''.Drained id' c → ∀ size,
    SizeClass.ofSize size h.limits.allocFast = .ok (.fast c) → ∀ b' rest,
    (h'.global.stack c).drop (refillBatch * n) = b' :: rest →
    ∃ h₃, h''.alloc (some id') size = .ok (.ok b', h₃) ∧ h₃.stack id' c = rest.take (refillBatch - 1) ∧
      h₃.global.stack c = (h'.global.stack c).drop (refillBatch * (n + 1))

/-- Spilling blocks moves them from one list to another. -/
theorem Shaped.free_conserved (hs : Shaped limits h) (hb : b.offset % alignment = 0)
    (hclass : SizeClass.ofSize size h.limits.allocFast = .ok (.fast c)) (hf : h.free (some id) b size = .ok h') :
    (h'.freeOf c).Perm (b :: h.freeOf c) := by
  obtain ⟨p, q, hlookup, hlocals, hown, hshared, -⟩ := hs.free_stack hb hclass hf
  generalize spilled h.limits.localFreeMax ((p.stack c).length + 1) = k at hown hshared
  have hafter : h'.freeOf c = (b :: p.stack c).take k ++ h.global.stack c ++
      ((b :: p.stack c).drop k ++ (h.locals.eraseP (·.1 == id)).flatMap (·.2.stack c)) := by
    rw [freeOf, hlocals, hshared, List.flatMap_cons, hown, Function.update_self, Function.update_self]
  refine List.perm_iff_count.2 fun a => ?_
  have hcut := congrArg (List.count a) (List.take_append_drop k (b :: p.stack c))
  have hbefore := (freeOf_takeOut hlookup c).count_eq a
  rw [List.count_append] at hcut
  simp only [hafter, List.count_append, List.count_cons] at hcut hbefore ⊢
  omega

theorem localFreeMax_ge {c : Config} (hc : c.check = .ok ()) : 2 ≤ c.limits.localFreeMax :=
  (Config.check_eq_ok_iff.1 hc).localFreeMax

/-- What stays on a list is not empty, and has the block on top that was there first. -/
theorem exists_cons_of_spilled {max : Nat} {l : List Address} (hmax : 2 ≤ max) (b : Address) (hb : b ∉ l) :
    ∃ b' rest, (b :: l).drop (spilled max (l.length + 1)) = b' :: rest ∧ (b' = b ↔ l.length < max) := by
  unfold spilled
  split
  · rename_i hlong
    have hlt : (l.length + 1) / 2 - 1 < l.length := by omega
    have hdrop : (b :: l).drop ((l.length + 1) / 2) = l.drop ((l.length + 1) / 2 - 1) := by
      rw [List.drop_cons (by omega)]
    refine ⟨_, _, hdrop.trans (List.drop_eq_getElem_cons hlt), ?_⟩
    have hne : l[(l.length + 1) / 2 - 1] ≠ b := fun he => hb (he ▸ List.getElem_mem hlt)
    exact iff_of_false hne (by omega)
  · rename_i hshort
    exact ⟨b, l, rfl, iff_of_true rfl (by omega)⟩

theorem Owned.returned (ho : Owned limits h out) (hchunk : limits.allocFast ≤ limits.chunkSize)
    (hmax : 2 ≤ limits.localFreeMax) (hid : h.HasPool (some id)) (hr : r ∈ out) (hround : roundUp size = .ok r.length)
    (hclass : SizeClass.ofSize size limits.allocFast = .ok (.fast c)) (hf : h.free (some id) r.start size = .ok h') :
    Returned h id c r.start h' (out.erase r) := by
  have hlimits := ho.limits
  subst hlimits
  have ho' := (ho.free_ends hid hr hround).post_of_ok hf
  have hs' := ho'.shaped
  have hpos := pos_of_roundUp (SizeClass.ofSize_eq_fast hclass).1
  have haligned := (ho.handed r hr).aligned
  have hconserved := ho.shaped.free_conserved haligned hclass hf
  have hnodup := ho'.nodup_freeOf hpos
  obtain ⟨p, q, hlookup, hlocals, hown, hshared, hsame⟩ := ho.shaped.free_stack haligned hclass hf
  have hother (other : PoolId) : h'.locals.lookup other = if other = id then some q else h.locals.lookup other := by
    rw [hlocals, lookup_putBack]
  have hlookup' : h'.locals.lookup id = some q := (hother id).trans (if_pos rfl)
  have hfresh : r.start ∉ p.stack c := fun hmem =>
    (hconserved.nodup_iff.1 hnodup).notMem ((freeOf_takeOut hlookup c).symm.subset (by simp [hmem]))
  constructor
  case kept =>
    intro hlt
    rw [stack_of_lookup hlookup] at hlt ⊢
    rw [stack_of_lookup hlookup', hown, Function.update_self, spilled, if_neg (by omega)]
    exact ⟨rfl, hsame hlt⟩
  case spilled =>
    intro hle
    rw [stack_of_lookup hlookup] at hle ⊢
    rw [stack_of_lookup hlookup', hown, hshared, Function.update_self, Function.update_self, Heap.spilled,
      if_pos (by omega)]
    exact ⟨rfl, rfl⟩
  case other_classes =>
    intro d hd
    rw [stack_of_lookup hlookup, stack_of_lookup hlookup', hown, hshared, Function.update_of_ne hd,
      Function.update_of_ne hd]
    exact ⟨rfl, rfl⟩
  case other_pools => exact fun other hne => (hother other).trans (if_neg hne)
  case conserved => exact ⟨hconserved, hnodup⟩
  case served_next =>
    intro size' hclass'
    obtain ⟨b', rest, hcons, hiff⟩ := exists_cons_of_spilled hmax r.start hfresh
    have hstack : q.stack c = b' :: rest := by rw [hown, Function.update_self, hcons]
    rw [← hs'.limits] at hchunk hclass'
    obtain ⟨h'', halloc⟩ := hs'.serves_top hchunk hlookup' hstack hclass'
    exact ⟨b', h'', halloc, stack_of_lookup hlookup c ▸ hiff⟩
  case refilled =>
    intro h'' out'' n hrefills id' hd size' hclass' b' rest hcons
    obtain ⟨hs'', -, hstack⟩ := hrefills.kept hs' fun r' hr' => (ho'.handed r' hr').aligned
    rw [← hs''.limits] at hchunk hclass'
    obtain ⟨h₃, halloc, hown', hleft⟩ := hs''.serves_drained hchunk hd hclass' (hstack.trans hcons)
    refine ⟨h₃, halloc, hown', ?_⟩
    rw [hleft, ← hcons, List.drop_drop, Nat.mul_succ]

/-- With an accepted configuration, whatever the heap was asked for before, whatever the system refused, and however
often all chunks were given back: freeing a block into a local pool keeps all lists in the order in which blocks were
freed, newest first. -/
theorem freed_last_served_first {c : Config} {d : Nat} (hc : c.check = .ok ()) (hl : Life c.limits grants n h out)
    (hid : h.HasPool (some id)) (hr : r ∈ out) (hround : roundUp size = .ok r.length)
    (hclass : SizeClass.ofSize size c.limits.allocFast = .ok (.fast d)) :
    ∃ h', h.free (some id) r.start size = .ok h' ∧ Returned h id d r.start h' (out.erase r) := by
  have ho := (hl.solvent (chunkSize_aligned hc)).settled.owned
  obtain ⟨h', hfree, -⟩ := (ho.free_ends hid hr hround).exists_ok
  exact ⟨h', hfree, ho.returned (chunkSize_ge hc) (localFreeMax_ge hc) hid hr hround hclass hfree⟩

/-- A block is in use when the chunks are given back. After that, the third block on a list that may have two goes to
the shared pool. -/
theorem freed_last_served_first_spilled :
    ∃ h h', Life ⟨32, 64, 2⟩ (fun _ _ => true) 7 h [⟨⟨.carving 1, 32⟩, 16⟩] ∧
      h.stack 0 1 = [⟨.carving 1, 16⟩, ⟨.carving 1, 0⟩] ∧ h.free (some 0) ⟨.carving 1, 32⟩ 16 = .ok h' ∧
      Returned h 0 1 ⟨.carving 1, 32⟩ h' [] ∧ h'.global.stack 1 = [⟨.carving 1, 32⟩] := by
  have used := (@Life.start ⟨32, 64, 2⟩ fun _ _ => true).request
    (.served (hasPool_none _) (rfl : alloc _ none 16 = _) rfl)
  have hreset := (used.solvent rfl).settled.owned.shaped.destroyAll_eq
  have bare := (congrArg (fun h₀ => Life ⟨32, 64, 2⟩ (fun _ _ => true) 1 h₀ []) hreset).mp (used.destroyAll rfl)
  have opened := bare.request .openPool
  have one := opened.request (.served (by rintro _ ⟨⟩; exact .head _) (rfl : alloc _ (some 0) 16 = _) rfl)
  have two := one.request (.served (by rintro _ ⟨⟩; exact .head _) (rfl : alloc _ (some 0) 16 = _) rfl)
  have three := two.request (.served (by rintro _ ⟨⟩; exact .head _) (rfl : alloc _ (some 0) 16 = _) rfl)
  have back := three.request (.freed (r := ⟨⟨.carving 1, 0⟩, 16⟩) (by rintro _ ⟨⟩; exact .head _)
    (.tail _ (.tail _ (.head _))) (rfl : roundUp 16 = _) (rfl : free _ (some 0) _ _ = _))
  have full := back.request (.freed (r := ⟨⟨.carving 1, 16⟩, 16⟩) (by rintro _ ⟨⟩; exact .head _) (.tail _ (.head _))
    (rfl : roundUp 16 = _) (rfl : free _ (some 0) _ _ = _))
  obtain ⟨h', hfree, hreturned⟩ := freed_last_served_first (d := 1)
    (c := { allocFast := 32, chunkSize := 64, localFreeMax := 2 }) rfl full (by rintro _ ⟨⟩; exact .head _) (.head _)
    (rfl : roundUp 16 = _) rfl
  exact ⟨_, h', full, rfl, hfree, hreturned, (hreturned.spilled (by decide)).1⟩

end Heap

end AtomHeap
