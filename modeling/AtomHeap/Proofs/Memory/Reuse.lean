import AtomHeap.Proofs.Memory.Listings
/-!
# Blocks are reused before the heap grows

`Heap.atHand h id c` is how many free blocks of class `c` a local pool and the shared pool have together. It is
the potential by which reuse is proved: serving a block of a class from the local pool lowers it by one at most,
and leaves it as it is for the other classes, whether the block comes off a list, is carved or is one of a batch
from the shared pool; and while it is above zero, the pool does not give up its bump space, so that no region is
taken up and the system is not asked. Freeing a block into the pool raises it by one, also where half the list is
spilled.
-/

namespace AtomHeap

/-- How many of some requests a class serves. -/
def SizeClass.wanted (allocFast : Nat) (sizes : List Nat) (c : Nat) : Nat :=
  sizes.countP fun size => SizeClass.fast? size allocFast = some c

theorem SizeClass.wanted_cons (allocFast size : Nat) (sizes : List Nat) (c : Nat) :
    SizeClass.wanted allocFast (size :: sizes) c =
      SizeClass.wanted allocFast sizes c + if SizeClass.fast? size allocFast = some c then 1 else 0 := by
  simp [SizeClass.wanted, List.countP_cons]

namespace Heap

variable {limits : Limits} {grants : Nat → Nat → Bool} {h h' h₀ h₁ : Heap} {p q : Pool}
  {out out' out₀ : List Region} {id other : PoolId} {c d n size length : Nat} {sizes back taken : List Nat}
  {from? into? : Option PoolId} {b : Address} {answer : Except AllocError Address}

/-- How many free blocks of a class a local pool and the shared one have together. -/
def atHand (h : Heap) (id : PoolId) (c : Nat) : Nat := (h.locals.lookup id).elim 0 (·.listed c) + h.global.listed c

/-- Allocates from a local pool, one size after the other, until a request is refused. -/
def drawAll (h : Heap) (id : PoolId) : List Nat → Except Fault (Except AllocError (List Address) × Heap)
  | [] => .ok (.ok [], h)
  | size :: sizes => do
    match ← h.alloc (some id) size with
    | (.error e, h) => return (.error e, h)
    | (.ok b, h) =>
      match ← h.drawAll id sizes with
      | (.error e, h) => return (.error e, h)
      | (.ok blocks, h) => return (.ok (b :: blocks), h)

/-- Nothing but free lists was drawn on: there are the same chunks and left-over regions, and the system was not
asked. -/
structure Reused (h h' : Heap) : Prop where
  carving : h'.carving = h.carving
  big : h'.big = h.big
  leftOver : h'.leftOver = h.leftOver
  asked : h'.asked = h.asked
  reserved : h'.reserved = h.reserved
  refusals : h'.refusals = h.refusals

theorem Reused.refl (h : Heap) : Reused h h := ⟨rfl, rfl, rfl, rfl, rfl, rfl⟩

theorem Reused.trans (hr : Reused h h₁) (hr' : Reused h₁ h') : Reused h h' :=
  ⟨hr'.carving.trans hr.carving, hr'.big.trans hr.big, hr'.leftOver.trans hr.leftOver, hr'.asked.trans hr.asked,
    hr'.reserved.trans hr.reserved, hr'.refusals.trans hr.refusals⟩

/-! ## Serving from what is at hand -/

theorem atHand_of_lookup (hp : h.locals.lookup id = some p) (c : Nat) :
    h.atHand id c = p.listed c + h.global.listed c := by
  rw [atHand, hp]
  rfl

theorem atHand_putBack (h : Heap) (id : PoolId) (q : Pool) (c : Nat) :
    (h.putBack id q).atHand id c = q.listed c + h.global.listed c := by
  simp [atHand, putBack]

/-- Blocks that are at hand are not taken but by being handed out. -/
theorem Draw.listed (hd : Draw h p c answer q h') (d : Nat) :
    p.listed d + h.global.listed d ≤
      q.listed d + h'.global.listed d + if d = c then handedOut answer 1 else 0 := by
  cases hd with
  | popped hpopped =>
    have := hpopped d
    simp only [handedOut]
    omega
  | carved _ hsame =>
    rw [hsame]
    exact Nat.le_add_right _ _
  | batch _ _ hkept hshared =>
    have e₁ := hkept d
    have e₂ := hshared d
    by_cases hd : d = c
    all_goals
      simp only [hd, handedOut, if_true, if_false] at *
      omega
  | anew _ _ _ hkept hglobal =>
    have := hkept d
    rw [hglobal]
    omega

/-- While there are blocks at hand, one of these is served, or a new one from the bump space. -/
theorem Draw.reused (hd : Draw h p c answer q h') (hpos : 0 < p.listed c + h.global.listed c) :
    Reused h h' ∧ ∃ b, answer = .ok b := by
  cases hd with
  | popped => exact ⟨⟨rfl, rfl, rfl, rfl, rfl, rfl⟩, _, rfl⟩
  | carved => exact ⟨⟨rfl, rfl, rfl, rfl, rfl, rfl⟩, _, rfl⟩
  | batch => exact ⟨⟨rfl, rfl, rfl, rfl, rfl, rfl⟩, _, rfl⟩
  | anew hlisted _ hnone =>
    rw [hlisted, hnone] at hpos
    exact absurd hpos (Nat.lt_irrefl 0)

/-- A request to a local pool leaves what is at hand, but for the block that is handed out. -/
theorem Shaped.alloc_atHand (hs : Shaped limits h) (ha : h.alloc (some id) size = .ok (answer, h')) (d : Nat) :
    h.atHand id d ≤ h'.atHand id d +
      if SizeClass.fast? size h.limits.allocFast = some d then handedOut answer 1 else 0 := by
  cases hround : roundUp size with
  | error e =>
    rw [alloc_of_no_size hround] at ha
    cases ha
    exact Nat.le_add_right _ _
  | ok length =>
    rcases SizeClass.ofSize_cases hround h.limits.allocFast with ⟨c, -, hclass⟩ | ⟨-, hclass⟩
    · obtain ⟨p, q, h₁, hlookup, hdraw, rfl, -⟩ := hs.alloc_draw hclass ha
      have hlisted := hdraw.listed d
      rw [atHand_of_lookup hlookup, atHand_putBack, SizeClass.fast?_eq_some_iff.2 hclass]
      simpa only [Option.some.injEq, eq_comm (a := c)] using hlisted
    · have hbig := (alloc_of_big hclass).symm.trans ha
      rw [atHand, atHand, allocBig_global hbig, (allocBig_books hround hbig).2]
      exact Nat.le_add_right _ _

/-- A request for a block that is at hand is served, and draws on nothing else. -/
theorem Shaped.alloc_reused (hs : Shaped limits h) (hchunk : h.limits.allocFast ≤ h.limits.chunkSize)
    (hid : h.HasPool (some id)) (hclass : SizeClass.ofSize size h.limits.allocFast = .ok (.fast c))
    (hpos : 0 < h.atHand id c) : ∃ b h', h.alloc (some id) size = .ok (.ok b, h') ∧ Reused h h' := by
  obtain ⟨p, hlookup⟩ := lookup_isSome (hid id rfl)
  rw [atHand_of_lookup hlookup] at hpos
  -- What is in stock takes no chunk, so there is nothing that the system could refuse.
  have hstocks : h.stocks (some id) c = true := by
    rcases Nat.eq_zero_or_pos (p.listed c) with hzero | hown
    · simp [stocks, Pool.lists_iff.2 (show 0 < h.global.listed c by omega)]
    · simp [stocks, hlookup, Pool.stocks, Pool.lists_iff.2 hown]
  have hdemand : h.demand? (some id) size = none := by
    unfold demand?
    rw [hclass]
    exact if_pos hstocks
  have hround := (SizeClass.ofSize_eq_fast hclass).1
  have hsupplied := hs.alloc_supplied hchunk hid hround
  rw [hdemand] at hsupplied
  have hfed : ¬ h.supply.Starves none := by
    rintro ⟨-, n, hn, -⟩
    cases hn
  obtain ⟨⟨answer, h'⟩, halloc, -⟩ := (hsupplied.starve hfed).exists_ok
  obtain ⟨p', q, h₁, hlookup', hdraw, rfl, -⟩ := hs.alloc_draw hclass halloc
  cases hlookup.symm.trans hlookup'
  obtain ⟨hreused, b, rfl⟩ := hdraw.reused hpos
  exact ⟨b, _, halloc, hreused.carving, hreused.big, hreused.leftOver, hreused.asked, hreused.reserved,
    hreused.refusals⟩

/-- Some requests for which enough is at hand, one after the other. -/
theorem Shaped.drawAll_reused (hs : Shaped limits h) (hchunk : h.limits.allocFast ≤ h.limits.chunkSize)
    (hid : h.HasPool (some id)) (hfast : ∀ size ∈ sizes, (SizeClass.fast? size h.limits.allocFast).isSome)
    (hwanted : ∀ d, SizeClass.wanted h.limits.allocFast sizes d ≤ h.atHand id d) :
    ∃ blocks h', h.drawAll id sizes = .ok (.ok blocks, h') ∧ Reused h h' := by
  induction sizes generalizing h with
  | nil => exact ⟨[], h, rfl, .refl h⟩
  | cons size sizes ih =>
    obtain ⟨c, hc⟩ := Option.isSome_iff_exists.1 (hfast size (.head _))
    have hclass := SizeClass.fast?_eq_some_iff.1 hc
    have hpos : 0 < h.atHand id c := by
      have := hwanted c
      rw [SizeClass.wanted_cons, if_pos hc] at this
      omega
    obtain ⟨b, h₁, halloc, hreused⟩ := hs.alloc_reused hchunk hid hclass hpos
    have hs₁ := (hs.alloc halloc).1
    have hlimits : h₁.limits = h.limits := hs₁.limits.trans hs.limits.symm
    have hid₁ : h₁.HasPool (some id) := fun other hother => (alloc_pools halloc other).2 (hid other hother)
    -- One block less is at hand, and one less is asked for.
    obtain ⟨blocks, h₂, hdraw, hreused'⟩ := ih hs₁ (hlimits ▸ hchunk) hid₁
      (fun s hmem => hlimits ▸ hfast s (.tail _ hmem)) fun d => by
        have hleft := hs.alloc_atHand halloc d
        have := hwanted d
        rw [SizeClass.wanted_cons] at this
        rw [hlimits]
        simp only [handedOut] at hleft
        omega
    refine ⟨b :: blocks, h₂, ?_, hreused.trans hreused'⟩
    simp only [drawAll, halloc, hdraw, bind, Except.bind, pure, Except.pure]

/-! ## Freeing into the pool -/

theorem Shaped.free_atHand (hs : Shaped limits h) (hb : b.offset % alignment = 0) (hround : roundUp size = .ok length)
    (hf : h.free (some id) b size = .ok h') (d : Nat) :
    h.atHand id d + (if SizeClass.fast? size h.limits.allocFast = some d then 1 else 0) ≤ h'.atHand id d := by
  rcases SizeClass.ofSize_cases hround h.limits.allocFast with ⟨c, -, hclass⟩ | ⟨hbig, hclass⟩
  · obtain ⟨p, q, hlookup, hlocals, hlisted⟩ := hs.free_listed hb hclass hf
    have hq := (hlocals id).trans (if_pos rfl)
    obtain ⟨hown, hshared⟩ := hlisted d
    rw [atHand_of_lookup hlookup, atHand_of_lookup hq, SizeClass.fast?_eq_some_iff.2 hclass]
    simp only [Option.some.injEq, eq_comm (a := c)]
    omega
  · obtain ⟨hglobal, hlocals⟩ := freeBig_pools ((free_of_big hclass).symm.trans hf)
    have hnone : SizeClass.fast? size h.limits.allocFast ≠ some d := fun hd => by
      rw [SizeClass.fast?_eq_some_iff, hclass] at hd
      cases hd
    rw [if_neg hnone, atHand, atHand, hglobal, hlocals]
    exact Nat.le_refl _

/-! ## What others do -/

/-- A request that is refused takes nothing from the shared pool. -/
theorem Shaped.refused_takes_nothing (hs : Shaped limits h) {e : AllocError}
    (ha : h.alloc from? size = .ok (.error e, h')) (d : Nat) : h.global.listed d ≤ h'.global.listed d := by
  cases hround : roundUp size with
  | error e' =>
    rw [alloc_of_no_size hround] at ha
    cases ha
    exact Nat.le_refl _
  | ok length =>
    rcases SizeClass.ofSize_cases hround h.limits.allocFast with ⟨c, -, hclass⟩ | ⟨-, hclass⟩
    · cases from? with
      | none =>
        obtain ⟨q, h₁, hserve, rfl, -⟩ := alloc_shared hclass ha
        obtain ⟨p₁, h₂, hfound, rfl, rfl⟩ := serve_cases hserve
        cases hfound with
        | more hpop _ hmore =>
          obtain ⟨rfl, -⟩ := Pool.listed_pop_none hpop
          have hkept := (carveAnew_listed hmore).1 d
          dsimp only
          omega
      | some other =>
        obtain ⟨p, q, h₁, -, hdraw, rfl, -⟩ := hs.alloc_draw hclass ha
        cases hdraw with
        | anew _ _ _ _ hglobal => exact Nat.le_of_eq (congrFun hglobal d).symm
    · rw [alloc_of_big hclass] at ha
      rw [allocBig_global ha]

/-- A block that is freed takes nothing from the shared pool. -/
theorem Shaped.free_takes_nothing (hs : Shaped limits h) (hb : b.offset % alignment = 0) (hround : roundUp size = .ok length)
    (hf : h.free into? b size = .ok h') (d : Nat) : h.global.listed d ≤ h'.global.listed d := by
  rcases SizeClass.ofSize_cases hround h.limits.allocFast with ⟨c, -, hclass⟩ | ⟨-, hclass⟩
  · cases into? with
    | none =>
      obtain ⟨q, h₁, hback, rfl, -⟩ := free_shared hclass hf
      have hpushed := takeBack_listed hback d
      dsimp only
      omega
    | some other =>
      obtain ⟨p, q, -, -, hlisted⟩ := hs.free_listed hb hclass hf
      exact Nat.le.intro (hlisted d).2.symm
  · rw [free_of_big hclass] at hf
    rw [(freeBig_pools hf).1]

theorem atHand_mono (hlookup : h'.locals.lookup id = h.locals.lookup id)
    (hshared : h.global.listed d ≤ h'.global.listed d) : h.atHand id d ≤ h'.atHand id d := by
  rw [atHand, atHand, hlookup]
  exact Nat.add_le_add_left hshared _

/-- A request that hands out no block, whoever makes it, leaves what is at hand for a pool that it leaves open. -/
theorem Shaped.request_atHand (hs : Shaped limits h) (hout : ∀ r ∈ out, r.start.offset % alignment = 0)
    (hid : h.HasPool (some id)) (hid' : h'.HasPool (some id)) (hq : Request h out h' out')
    (hnone : out'.length ≤ out.length) (d : Nat) : h.atHand id d ≤ h'.atHand id d := by
  cases hq with
  | openPool =>
    have hfresh : id ≠ h.nextPool := by
      obtain ⟨x, hx, rfl⟩ := List.mem_map.1 (hid id rfl)
      exact Nat.ne_of_lt (hs.fresh x hx)
    exact atHand_mono (openPool_lookup hfresh) (Nat.le_refl _)
  | @closePool _ other _ hclose =>
    have hlookup : h'.locals.lookup id = _ := closePool_lookup hs.ids hclose
    obtain ⟨q, hq⟩ := lookup_isSome (hid' id rfl)
    obtain ⟨p, hp, rfl⟩ := closePool_cases hclose
    by_cases hother : id = other
    · rw [if_pos hother, hq] at hlookup
      cases hlookup
    · rw [if_neg hother] at hlookup
      obtain ⟨hsound, -, -, -, -⟩ := Pool.takeSpace_spec (hs.sound_of_lookup hp)
      have hmerged := Pool.listed_merge hsound hs.global d
      exact atHand_mono hlookup (by dsimp only; omega)
  | setHook => exact Nat.le_refl _
  | collect => exact Nat.le_refl _
  | served => exact absurd hnone (Nat.not_le.2 (Nat.lt_succ_self _))
  | @refused _ from? size e _ halloc =>
    by_cases hown : from? = some id
    · subst hown
      have := hs.alloc_atHand halloc d
      simpa only [handedOut, ite_self, Nat.add_zero] using this
    · exact atHand_mono (alloc_lookup halloc fun he => absurd he hown) (hs.refused_takes_nothing halloc d)
  | @freed _ into? r size _ hmem hround hfree =>
    have hb := hout r hmem
    by_cases hown : into? = some id
    · subst hown
      exact Nat.le_of_add_right_le (hs.free_atHand hb hround hfree d)
    · exact atHand_mono (free_lookup hround hfree fun he => absurd he hown) (hs.free_takes_nothing hb hround hfree d)

/-- Requests in a row, of whoever has the blocks `out₀` of the heap `h₀`, in which no pool but the local pool `id`
takes blocks that the shared pool has free. `back` are the sizes of the blocks that were freed into that pool, and
`taken` those that it served, the last ones in front. -/
inductive Lull (id : PoolId) (h₀ : Heap) (out₀ : List Region) : Heap → List Region → List Nat → List Nat → Prop
  | start : Lull id h₀ out₀ h₀ out₀ [] []
  | freed {h h' : Heap} {out : List Region} {back taken : List Nat} {r : Region} {size : Nat} :
      Lull id h₀ out₀ h out back taken → r ∈ out → roundUp size = .ok r.length →
      h.free (some id) r.start size = .ok h' → Lull id h₀ out₀ h' (out.erase r) (size :: back) taken
  | drawn {h h' : Heap} {out : List Region} {back taken : List Nat} {b : Address} {size length : Nat} :
      Lull id h₀ out₀ h out back taken → h.alloc (some id) size = .ok (.ok b, h') → roundUp size = .ok length →
      Lull id h₀ out₀ h' (⟨b, length⟩ :: out) back (size :: taken)
  /-- Another pool serves a block, from what it has itself or from new memory. -/
  | served {h h' : Heap} {out : List Region} {back taken : List Nat} {from? : Option PoolId} {b : Address}
      {size length : Nat} :
      Lull id h₀ out₀ h out back taken → from? ≠ some id → h.HasPool from? →
      h.alloc from? size = .ok (.ok b, h') → roundUp size = .ok length →
      (∀ d, h.global.listed d ≤ h'.global.listed d) → Lull id h₀ out₀ h' (⟨b, length⟩ :: out) back taken
  /-- Any request that hands out no block and leaves the pool open. -/
  | other {h h' : Heap} {out out' : List Region} {back taken : List Nat} :
      Lull id h₀ out₀ h out back taken → Request h out h' out' → out'.length ≤ out.length →
      h'.HasPool (some id) → Lull id h₀ out₀ h' out' back taken

/-- What is kept in such a row of requests. -/
structure Lull.Kept (limits : Limits) (id : PoolId) (h₀ h : Heap) (out : List Region) (back taken : List Nat) :
    Prop where
  shaped : Shaped limits h
  aligned : ∀ r ∈ out, r.start.offset % alignment = 0
  hasPool : h.HasPool (some id)
  /-- No more was taken from what was at hand and what was given back since than the pool served. -/
  atHand : ∀ d, h₀.atHand id d + SizeClass.wanted limits.allocFast back d ≤
    h.atHand id d + SizeClass.wanted limits.allocFast taken d

theorem Lull.kept (hs : Shaped limits h₀) (hout : ∀ r ∈ out₀, r.start.offset % alignment = 0)
    (hid : h₀.HasPool (some id)) (hl : Lull id h₀ out₀ h out back taken) :
    Lull.Kept limits id h₀ h out back taken := by
  induction hl with
  | start => exact ⟨hs, hout, hid, fun _ => Nat.le_refl _⟩
  | @freed h h' out back taken r size _ hmem hround hfree ih =>
    have hb := ih.aligned r hmem
    refine ⟨ih.shaped.free hb hround hfree, fun q hq => ih.aligned q (List.mem_of_mem_erase hq), ?_, fun d => ?_⟩
    · exact fun other hother => ((free_books hround hfree).2 other).2 (ih.hasPool other hother)
    · have h₁ := ih.atHand d
      have h₂ := ih.shaped.free_atHand hb hround hfree d
      rw [ih.shaped.limits] at h₂
      rw [SizeClass.wanted_cons]
      omega
  | drawn _ halloc hround ih =>
    obtain ⟨hshaped, hblock⟩ := ih.shaped.alloc halloc
    refine ⟨hshaped, fun q hq => ?_, fun other hother => (alloc_pools halloc other).2 (ih.hasPool other hother),
      fun d => ?_⟩
    · rcases List.mem_cons.1 hq with rfl | hq
      · exact hblock _ rfl
      · exact ih.aligned q hq
    · have h₁ := ih.atHand d
      have h₂ := ih.shaped.alloc_atHand halloc d
      rw [ih.shaped.limits] at h₂
      simp only [handedOut] at h₂
      rw [SizeClass.wanted_cons]
      omega
  | served _ hne hfrom halloc hround hshared ih =>
    obtain ⟨hshaped, haligned⟩ := ih.shaped.request ih.aligned (.served hfrom halloc hround)
    refine ⟨hshaped, haligned, fun other hother => (alloc_pools halloc other).2 (ih.hasPool other hother), fun d => ?_⟩
    exact Nat.le_trans (ih.atHand d)
      (Nat.add_le_add_right (atHand_mono (alloc_lookup halloc fun he => absurd he hne) (hshared d)) _)
  | other _ hq hnone hid' ih =>
    obtain ⟨hshaped, haligned⟩ := ih.shaped.request ih.aligned hq
    refine ⟨hshaped, haligned, hid', fun d => ?_⟩
    exact Nat.le_trans (ih.atHand d)
      (Nat.add_le_add_right (ih.shaped.request_atHand ih.aligned ih.hasPool hid' hq hnone d) _)

/-! ## Reuse -/

/-- Requests of these sizes to a local pool, one after the other, are all served, and from free lists alone. -/
def Redraws (h : Heap) (id : PoolId) (sizes : List Nat) : Prop :=
  ∃ blocks h', h.drawAll id sizes = .ok (.ok blocks, h') ∧ Reused h h'

/-- What a local pool serves before the heap grows. -/
structure Recycles (limits : Limits) (h : Heap) (out : List Region) (id : PoolId) : Prop where
  /-- As many blocks of each class as are on the lists of the pool and the shared pool, in any order. -/
  at_hand : ∀ sizes, (∀ size ∈ sizes, (SizeClass.fast? size limits.allocFast).isSome) →
    (∀ d, SizeClass.wanted limits.allocFast sizes d ≤ h.atHand id d) → h.Redraws id sizes
  /-- Later on, also what was freed into it since, less what it served. -/
  given_back : ∀ h' out' back taken, Lull id h out h' out' back taken →
    ∀ sizes, (∀ size ∈ sizes, (SizeClass.fast? size limits.allocFast).isSome) →
      (∀ d, SizeClass.wanted limits.allocFast sizes d + SizeClass.wanted limits.allocFast taken d ≤
        h.atHand id d + SizeClass.wanted limits.allocFast back d) → h'.Redraws id sizes
  /-- So a workload that was freed into it can be repeated in any order. -/
  repeated : ∀ h' out' workload, Lull id h out h' out' workload [] →
    (∀ size ∈ workload, (SizeClass.fast? size limits.allocFast).isSome) →
    ∀ sizes, sizes.Perm workload → h'.Redraws id sizes

/-- With an accepted configuration, whatever a heap was asked for before, even if all its chunks were given back on
the way, and whatever the system would answer, a local pool serves what is at hand and what was freed into it
before the heap grows. -/
theorem freed_blocks_reused {c : Config} (hc : c.check = .ok ()) (hh : History c.limits grants h out)
    (hid : h.HasPool (some id)) : Recycles c.limits h out id := by
  obtain ⟨hs, hout⟩ := hh.shaped (chunkSize_aligned hc)
  have hgiven {h' : Heap} {out' : List Region} {back taken : List Nat} (hl : Lull id h out h' out' back taken)
      {sizes : List Nat} (hfast : ∀ size ∈ sizes, (SizeClass.fast? size c.limits.allocFast).isSome)
      (hwanted : ∀ d, SizeClass.wanted c.limits.allocFast sizes d + SizeClass.wanted c.limits.allocFast taken d ≤
        h.atHand id d + SizeClass.wanted c.limits.allocFast back d) : h'.Redraws id sizes := by
    have hkept := hl.kept hs hout hid
    have hlimits := hkept.shaped.limits
    refine hkept.shaped.drawAll_reused (hlimits ▸ chunkSize_ge hc) hkept.hasPool (hlimits ▸ hfast) fun d => ?_
    have h₁ := hwanted d
    have h₂ := hkept.atHand d
    rw [hlimits]
    omega
  refine ⟨fun sizes hfast hwanted => hgiven .start hfast hwanted, fun h' out' back taken hl sizes => hgiven hl, ?_⟩
  intro h' out' workload hl hfast sizes hperm
  refine hgiven hl (fun size hsize => hfast size (hperm.subset hsize)) fun d => ?_
  have hsame : SizeClass.wanted c.limits.allocFast sizes d = SizeClass.wanted c.limits.allocFast workload d :=
    hperm.countP_eq _
  have hnone : SizeClass.wanted c.limits.allocFast [] d = 0 := rfl
  omega

/-- Two blocks of different classes, freed into the pool that served them and asked for again the other way round,
of a system that has a single chunk. -/
theorem freed_blocks_reused_swapped :
    ∃ h h', History ⟨32, 64, 2⟩ (fun n _ => n == 0) h [⟨⟨.carving 0, 32⟩, 16⟩, ⟨⟨.carving 0, 0⟩, 32⟩] ∧
      Lull 0 h [⟨⟨.carving 0, 32⟩, 16⟩, ⟨⟨.carving 0, 0⟩, 32⟩] h' [] [32, 16] [] ∧ h'.Redraws 0 [16, 32] := by
  have opened := (@History.start ⟨32, 64, 2⟩ fun n _ => n == 0).request .openPool
  have one := opened.request (.served (by rintro _ ⟨⟩; exact .head _) (rfl : alloc _ (some 0) 20 = _) rfl)
  have both := one.request (.served (by rintro _ ⟨⟩; exact .head _) (rfl : alloc _ (some 0) 16 = _) rfl)
  have start {h : Heap} {out : List Region} (_ : History ⟨32, 64, 2⟩ (fun n _ => n == 0) h out) :
      Lull 0 h out h out [] [] := .start
  have short := (start both).freed (.head _) (rfl : roundUp 16 = _) (rfl : free _ (some 0) _ _ = _)
  have back := short.freed (.head _) (rfl : roundUp 32 = _) (rfl : free _ (some 0) _ _ = _)
  have recycles := freed_blocks_reused (c := { allocFast := 32, chunkSize := 64, localFreeMax := 2 }) rfl both
    (by rintro _ ⟨⟩; exact .head _)
  exact ⟨_, _, both, back, recycles.repeated _ _ _ back (by decide) _ (.swap _ _ _)⟩

end Heap

end AtomHeap
