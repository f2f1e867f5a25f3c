import AtomHeap.Proofs.Memory.Listings
/-!
# How much a local pool hoards

A list that a freed block makes longer than `localFreeMax` loses half of its blocks to the shared pool. Nothing
else looks at the limit: a batch from the shared pool leaves up to `refillBatch - 1` blocks on a list whatever
the limit is, and each bump space that is given up may leave its remainder on a list of the same pool, which so
can get longer without bound. `Hoarding` is a run of a heap with a record of these remainders, and
`hoards_bounded` is the bound that holds: the limit, or a batch, and besides only what is on record.
-/

namespace AtomHeap.Heap

variable {limits : Limits} {grants : Nat → Nat → Bool} {h h' : Heap} {p q : Pool} {out : List Region}
  {id : PoolId} {c d n size length : Nat} {from? into? : Option PoolId} {b : Address}
  {answer : Except AllocError Address} {kept : List (PoolId × Nat)}

/-- The local pool and the class of the list that gets the remainder of a bump space in this request, if one does:
that of the pool that serves the request, where it has no block and no room for one and the shared pool has none
either. -/
def shelved? (h : Heap) (from? : Option PoolId) (size : Nat) : Option (PoolId × Nat) :=
  match from?, SizeClass.fast? size h.limits.allocFast with
  | some id, some c =>
    match h.locals.lookup id with
    | some p =>
      if p.lists c || p.fits c || h.global.lists c then none
      else (p.remainder? h.limits.allocFast).map (id, ·)
    | none => none
  | _, _ => none

/-- Runs of a heap, with the lists that remainders went on. -/
inductive Hoarding (limits : Limits) (grants : Nat → Nat → Bool) : Heap → List Region → List (PoolId × Nat) → Prop
  | start : Hoarding limits grants (.empty limits grants) [] []
  | openPool {h : Heap} {out : List Region} {kept : List (PoolId × Nat)} :
      Hoarding limits grants h out kept → Hoarding limits grants h.openPool.2 out kept
  | closePool {h h' : Heap} {out : List Region} {kept : List (PoolId × Nat)} {id : PoolId} :
      Hoarding limits grants h out kept → h.HasPool (some id) → h.closePool id = .ok h' →
      Hoarding limits grants h' out kept
  | setHook {h : Heap} {out : List Region} {kept : List (PoolId × Nat)} (hook : String) :
      Hoarding limits grants h out kept → Hoarding limits grants (h.setHook hook) out kept
  | alloc {h h' : Heap} {out : List Region} {kept : List (PoolId × Nat)} {from? : Option PoolId} {size : Nat}
      {answer : Except AllocError Address} :
      Hoarding limits grants h out kept → h.HasPool from? → h.alloc from? size = .ok (answer, h') →
      Hoarding limits grants h' (handed size answer out) ((h.shelved? from? size).toList ++ kept)
  | freed {h h' : Heap} {out : List Region} {kept : List (PoolId × Nat)} {into? : Option PoolId} {r : Region}
      {size : Nat} :
      Hoarding limits grants h out kept → h.HasPool into? → r ∈ out → roundUp size = .ok r.length →
      h.free into? r.start size = .ok h' → Hoarding limits grants h' (out.erase r) kept

/-- Each run can be recorded. -/
theorem Run.hoarding (hr : Run limits grants h out) : ∃ kept, Hoarding limits grants h out kept := by
  induction hr with
  | start => exact ⟨[], .start⟩
  | openPool _ ih => exact ih.imp fun _ hh => hh.openPool
  | closePool _ hid hclose ih => exact ih.imp fun _ hh => hh.closePool hid hclose
  | setHook hook _ ih => exact ih.imp fun _ hh => hh.setHook hook
  | served _ hfrom halloc hround ih =>
    obtain ⟨kept, hh⟩ := ih
    have := hh.alloc hfrom halloc
    simp only [handed, hround] at this
    exact ⟨_, this⟩
  | refused _ hfrom halloc ih =>
    obtain ⟨kept, hh⟩ := ih
    exact ⟨_, hh.alloc hfrom halloc⟩
  | freed _ hinto hmem hround hfree ih => exact ih.imp fun _ hh => hh.freed hinto hmem hround hfree

theorem Hoarding.run (hh : Hoarding limits grants h out kept) : Run limits grants h out := by
  induction hh with
  | start => exact .start
  | openPool _ ih => exact ih.openPool
  | closePool _ hid hclose ih => exact ih.closePool hid hclose
  | setHook hook _ ih => exact ih.setHook hook
  | @alloc h h' out kept from? size answer _ hfrom halloc ih =>
    cases answer with
    | error e => exact ih.refused hfrom halloc
    | ok b =>
      obtain ⟨length, hround⟩ := exists_length halloc
      simp only [handed, hround]
      exact ih.served hfrom halloc hround
  | freed _ hinto hmem hround hfree ih => exact ih.freed hinto hmem hround hfree

/-! ## The bound -/

/-- No list of a local pool is longer than the limit, or a batch, and what it got of bump spaces. -/
def Capped (limits : Limits) (h : Heap) (kept : List (PoolId × Nat)) : Prop :=
  ∀ id p, h.locals.lookup id = some p → ∀ d,
    p.listed d ≤ max limits.localFreeMax (refillBatch - 1) + kept.count (id, d)

/-- A pool that gives up its bump space puts the remainder on the list that is recorded. -/
theorem shelved_of_anew (hlookup : h.locals.lookup id = some p)
    (hclass : SizeClass.ofSize size h.limits.allocFast = .ok (.fast c)) (hlisted : p.listed c = 0)
    (hfits : p.fits c = false) (hnone : h.global.listed c = 0) :
    h.shelved? (some id) size = (p.remainder? h.limits.allocFast).map (id, ·) := by
  have hlists {p : Pool} (hp : p.listed c = 0) : p.lists c = false :=
    Bool.eq_false_iff.2 fun h => absurd (Pool.lists_iff.1 h) (Nat.not_lt.2 (Nat.le_of_eq hp))
  simp only [shelved?, SizeClass.fast?_eq_some_iff.2 hclass, hlookup, hlists hlisted, hfits, hlists hnone,
    Bool.or_self, Bool.false_eq_true, if_false]

theorem Draw.capped {limit : Nat} {h₁ : Heap} (hd : Draw h p c answer q h₁) (hlimit : refillBatch - 1 ≤ limit)
    (hp : ∀ d, p.listed d ≤ limit + kept.count (id, d)) {shelved : Option (PoolId × Nat)}
    (hshelved : p.listed c = 0 → p.fits c = false → h.global.listed c = 0 →
      shelved = (p.remainder? h.limits.allocFast).map (id, ·)) (d : Nat) :
    q.listed d ≤ limit + (shelved.toList ++ kept).count (id, d) := by
  have hcount : kept.count (id, d) ≤ (shelved.toList ++ kept).count (id, d) := by
    rw [List.count_append]
    exact Nat.le_add_left _ _
  have hbound := hp d
  cases hd with
  | popped hpopped =>
    have := hpopped d
    omega
  | carved _ hsame =>
    rw [hsame]
    omega
  | batch hlisted hlt hkept =>
    have := hkept d
    by_cases hdc : d = c
    · subst hdc
      rw [if_pos rfl, hlisted] at this
      omega
    · rw [if_neg hdc] at this
      omega
  | anew hlisted hfits hnone hkept =>
    rw [hshelved hlisted hfits hnone, List.count_append, hkept d]
    cases p.remainder? h.limits.allocFast with
    | none => simpa using hbound
    | some e =>
      by_cases he : e = d
      · subst he
        simp only [Option.map_some, Option.toList_some, List.count_singleton_self, if_true]
        omega
      · simpa [he] using hbound

/-- A list that a block was freed into is within the limit, or shorter than it would be. -/
theorem length_after_spill (max length : Nat) : length - spilled max length ≤ max ∨
    length - spilled max length + 1 ≤ length ∨ length = 1 := by
  unfold spilled
  split
  · omega
  · exact .inl (by omega)

theorem Hoarding.capped (hchunk : limits.chunkSize % alignment = 0) (hh : Hoarding limits grants h out kept) :
    Capped limits h kept := by
  induction hh with
  | start => exact fun _ _ hlookup => nomatch hlookup
  | @openPool h _ _ _ ih =>
    intro id p hlookup d
    by_cases hid : id = h.nextPool
    · subst hid
      simp only [Heap.openPool, List.lookup_cons, beq_self_eq_true, Option.some.injEq] at hlookup
      rw [← hlookup, Pool.listed_empty]
      exact Nat.zero_le _
    · rw [openPool_lookup hid] at hlookup
      exact ih id p hlookup d
  | closePool hh _ hclose ih =>
    intro id p hlookup d
    rw [closePool_lookup (run_owned hchunk hh.run).ids hclose, Option.ite_none_left_eq_some] at hlookup
    exact ih id p hlookup.2 d
  | setHook _ _ ih => exact ih
  | @alloc h h' _ kept from? size answer hh hfrom halloc ih =>
    have hs := (run_owned hchunk hh.run).shaped
    intro id q hlookup d
    by_cases hown : from? = some id ∧ (SizeClass.fast? size h.limits.allocFast).isSome
    · obtain ⟨rfl, hfast⟩ := hown
      obtain ⟨c, hc⟩ := Option.isSome_iff_exists.1 hfast
      have hclass := SizeClass.fast?_eq_some_iff.1 hc
      obtain ⟨p, q', h₁, hp, hdraw, -, hlocals⟩ := hs.alloc_draw hclass halloc
      rw [hlocals, if_pos rfl, Option.some.injEq] at hlookup
      subst hlookup
      have hshelved := shelved_of_anew hp hclass
      exact hdraw.capped (Nat.le_max_right _ _) (ih id p hp) hshelved d
    · -- Any other request leaves the pool as it is.
      rw [alloc_lookup halloc fun he => Option.not_isSome_iff_eq_none.1 fun hfast => hown ⟨he, hfast⟩] at hlookup
      have hbound := ih id q hlookup d
      rw [List.count_append]
      omega
  | @freed h h' _ kept into? r size hh hinto hmem hround hfree ih =>
    have ho := run_owned hchunk hh.run
    intro id q hlookup d
    by_cases hown : into? = some id ∧ (SizeClass.fast? size h.limits.allocFast).isSome
    · obtain ⟨rfl, hfast⟩ := hown
      obtain ⟨c, hc⟩ := Option.isSome_iff_exists.1 hfast
      have hclass := SizeClass.fast?_eq_some_iff.1 hc
      obtain ⟨p, q', hp, hlocals, hlisted⟩ := ho.shaped.free_listed (ho.handed r hmem).aligned hclass hfree
      rw [hlocals, if_pos rfl, Option.some.injEq] at hlookup
      subst hlookup
      have hbound := ih id p hp d
      have hown := (hlisted d).1
      by_cases hdc : d = c
      · subst hdc
        have hspilled := length_after_spill h.limits.localFreeMax (p.listed d + 1)
        have hbatch : refillBatch - 1 = 63 := rfl
        rw [if_pos rfl, if_pos rfl] at hown
        rw [ho.limits] at hown hspilled
        omega
      · rw [if_neg hdc, if_neg hdc] at hown
        omega
    · rw [free_lookup hround hfree fun he => Option.not_isSome_iff_eq_none.1 fun hfast => hown ⟨he, hfast⟩] at hlookup
      exact ih id q hlookup d

/-- What the lists of local pools may be, where `kept` says which of them got remainders of bump spaces. -/
structure Hoards (limits : Limits) (h : Heap) (kept : List (PoolId × Nat)) : Prop where
  /-- A list is no longer than the limit or a batch, and what it got of bump spaces. -/
  bounded : ∀ id p, h.pool id = .ok p → ∀ d n, p.freeCount d = .ok n →
    n ≤ max limits.localFreeMax (refillBatch - 1) + kept.count (id, d)
  /-- Where the limit has room for a batch, a list that got nothing of bump spaces keeps to the limit. -/
  limited : refillBatch ≤ limits.localFreeMax + 1 → ∀ id p, h.pool id = .ok p → ∀ d n, p.freeCount d = .ok n →
    (id, d) ∉ kept → n ≤ limits.localFreeMax

/-- With an accepted configuration, after any requests to a heap, made in any order, through any pools and whatever
the system refused, only batches and remainders of bump spaces make a list of a local pool longer than it may
be. -/
theorem hoards_bounded {c : Config} (hc : c.check = .ok ()) (hh : Hoarding c.limits grants h out kept) :
    Hoards c.limits h kept := by
  have hchunk := chunkSize_aligned hc
  have ho := run_owned hchunk hh.run
  have hbounded : ∀ id p, h.pool id = .ok p → ∀ d n, p.freeCount d = .ok n →
      n ≤ max c.limits.localFreeMax (refillBatch - 1) + kept.count (id, d) := by
    intro id p hpool d n hn
    have hlookup := pool_eq_ok_iff.1 hpool
    rw [← Pool.listed_freeCount (ho.shaped.sound_of_lookup hlookup) hn]
    exact hh.capped hchunk id p hlookup d
  refine ⟨hbounded, fun hbatch id p hpool d n hn hkept => ?_⟩
  have hbound := hbounded id p hpool d n hn
  rw [List.count_eq_zero_of_not_mem hkept, Nat.max_eq_left (by omega)] at hbound
  exact hbound

/-- Two chunks, of the first of which a short block is left over. -/
theorem hoards_bounded_remainder :
    ∃ h, Hoarding ⟨32, 48, 64⟩ (fun _ _ => true) h [⟨⟨.carving 1, 0⟩, 32⟩, ⟨⟨.carving 0, 0⟩, 32⟩] [(0, 1)] ∧
      Hoards ⟨32, 48, 64⟩ h [(0, 1)] := by
  have opened := (@Hoarding.start ⟨32, 48, 64⟩ fun _ _ => true).openPool
  have one := opened.alloc (by rintro _ ⟨⟩; exact .head _) (rfl : alloc _ (some 0) 32 = _)
  have both := one.alloc (by rintro _ ⟨⟩; exact .head _) (rfl : alloc _ (some 0) 32 = _)
  exact ⟨_, both, hoards_bounded (c := { allocFast := 32, chunkSize := 48, localFreeMax := 64 }) rfl both⟩

/-- Each chunk but the last leaves a short block on a list that no block was ever freed into, and so that list gets
longer than the limit. -/
theorem hoard_of_remainders :
    Config.check { allocFast := 32, chunkSize := 48, localFreeMax := 2 } = .ok () ∧
      ∃ h out p n, Run ⟨32, 48, 2⟩ (fun _ _ => true) h out ∧ h.pool 0 = .ok p ∧ p.freeCount 1 = .ok n ∧
        h.limits.localFreeMax < n := by
  have opened := (@Run.start ⟨32, 48, 2⟩ fun _ _ => true).openPool
  have one := opened.served (by rintro _ ⟨⟩; exact .head _) (rfl : alloc _ (some 0) 32 = _) rfl
  have two := one.served (by rintro _ ⟨⟩; exact .head _) (rfl : alloc _ (some 0) 32 = _) rfl
  have three := two.served (by rintro _ ⟨⟩; exact .head _) (rfl : alloc _ (some 0) 32 = _) rfl
  have four := three.served (by rintro _ ⟨⟩; exact .head _) (rfl : alloc _ (some 0) 32 = _) rfl
  exact ⟨rfl, _, _, _, 3, four, rfl, rfl, by decide⟩

end AtomHeap.Heap
