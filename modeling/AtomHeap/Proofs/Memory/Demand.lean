import AtomHeap.Proofs.Memory.Lifetime
/-!
# What a request asks of the system

A request is served from what the heap has in store, or takes one chunk. `Heap.demand?` says which chunk that
is before anything is done, and `Supplied` how the answer depends on what the system says to it: so the only
ways for a request to fail are a size that no block has, a chunk that no memory can hold and a chunk that the
system refuses. That the first block carved from a new region fits into it takes that chunks are at least as
long as the longest block of a size class; that a bump space which is given up is never left over again takes
that it was too short for a block of such a class.
-/

namespace AtomHeap

/-! ## The system -/

/-- What a heap knows of the system that it has its chunks from. -/
structure Supply where
  grants : Nat → Nat → Bool
  asked : Nat
  reserved : Nat
  hook : Option String
  refusals : List Refusal

def Heap.supply (h : Heap) : Supply := ⟨h.grants, h.asked, h.reserved, h.hook, h.refusals⟩

namespace Supply

/-- The system has a chunk of this length for the next request. -/
def Gives (s : Supply) (n : Nat) : Prop := s.grants s.asked n ∧ s.reserved + n < wordCount

/-- The system refuses a chunk that some memory could hold. -/
def Denies (s : Supply) (n : Nat) : Prop := n ≤ maxRequest ∧ ¬ s.Gives n

/-- A chunk is refused and there is nobody to be told. -/
def Starves (s : Supply) (demand? : Option Nat) : Prop := s.hook = none ∧ ∃ n, demand? = some n ∧ s.Denies n

end Supply

/-- How a request goes that takes a chunk of so many bytes, if it takes one. -/
inductive Supplied {α : Type} (s : Supply) : Option Nat → Except AllocError α → Supply → Prop
  | stocked (a : α) : Supplied s none (.ok a) s
  | granted (a : α) {n : Nat} :
      n ≤ maxRequest → s.Gives n →
      Supplied s (some n) (.ok a) { s with asked := s.asked + 1, reserved := s.reserved + n }
  | denied {n : Nat} {hook : String} :
      s.Denies n → s.hook = some hook →
      Supplied s (some n) (.error .outOfMemory)
        { s with asked := s.asked + 1, refusals := s.refusals ++ [⟨hook, n⟩] }
  /-- The system is not asked for what no memory can hold. -/
  | unheard {n : Nat} : maxRequest < n → Supplied s (some n) (.error .badRequest) s

namespace Supplied

variable {α β : Type} {s s' : Supply} {demand? : Option Nat} {answer : Except AllocError α} {a : α} {e : AllocError}

theorem ok (h : Supplied s demand? (.ok a) s') (b : β) : Supplied s demand? (.ok b) s' := by
  cases h with
  | stocked => exact .stocked b
  | granted _ hle hgives => exact .granted b hle hgives

theorem error (h : Supplied s demand? (.error e : Except AllocError α) s') :
    Supplied s demand? (.error e : Except AllocError β) s' := by
  cases h with
  | denied hdenies hhook => exact .denied hdenies hhook
  | unheard hlt => exact .unheard hlt

theorem outOfMemory_iff (h : Supplied s demand? answer s') :
    answer = .error .outOfMemory ↔ ∃ n, demand? = some n ∧ s.Denies n := by
  cases h with
  | stocked => simp
  | granted _ hle hgives => simp [Supply.Denies, hgives]
  | denied hdenies _ => simp [hdenies]
  | unheard hlt => simp [Supply.Denies, Nat.not_le.2 hlt]

theorem badRequest_iff (h : Supplied s demand? answer s') :
    answer = .error .badRequest ↔ ∃ n, demand? = some n ∧ maxRequest < n := by
  cases h with
  | stocked => simp
  | granted _ hle _ => simp [Nat.not_lt.2 hle]
  | denied hdenies _ => simp [Nat.not_lt.2 hdenies.1]
  | unheard hlt => simp [hlt]

/-- Refusals, and nothing else, are told. -/
theorem refusals (h : Supplied s demand? answer s') :
    (answer ≠ .error .outOfMemory ∧ s'.refusals = s.refusals) ∨
      ∃ hook n, s.hook = some hook ∧ demand? = some n ∧ s.Denies n ∧ answer = .error .outOfMemory ∧
        s'.refusals = s.refusals ++ [⟨hook, n⟩] := by
  cases h with
  | stocked => exact .inl ⟨nofun, rfl⟩
  | granted => exact .inl ⟨nofun, rfl⟩
  | @denied n hook hdenies hhook => exact .inr ⟨hook, n, hhook, rfl, hdenies, rfl, rfl⟩
  | unheard => exact .inl ⟨nofun, rfl⟩

end Supplied

/-! ## What is in store -/

variable {allocFast c size rounded : Nat}

/-- A class that serves some requests, where rounded requests up to `allocFast` bytes are fast. -/
structure SizeClass.Serves (allocFast c : Nat) : Prop where
  le : SizeClass.blockSize c ≤ allocFast
  le_max : SizeClass.blockSize c ≤ maxRequest
  lt : c < SizeClass.count allocFast

theorem SizeClass.serves_of_ofSize (h : SizeClass.ofSize size allocFast = .ok (.fast c)) :
    SizeClass.Serves allocFast c := by
  obtain ⟨hround, hle, hlt⟩ := SizeClass.ofSize_eq_fast h
  exact ⟨hle, rounded_le hround, hlt⟩

/-- A stretch that is too short for a block of a class is a block of a shorter class. -/
theorem SizeClass.Serves.shorter (hc : SizeClass.Serves allocFast c) {n : Nat} (hn : n < SizeClass.blockSize c)
    (hpos : 0 < n) (ha : n % alignment = 0) :
    ∃ d, n = SizeClass.blockSize d ∧ SizeClass.ofSize n allocFast = .ok (.fast d) :=
  SizeClass.ofSize_of_aligned hpos ha (Nat.le_trans (Nat.le_of_lt hn) hc.le)
    (Nat.le_trans (Nat.le_of_lt hn) hc.le_max)

namespace Pool

variable {allocFast c size : Nat} {p q : Pool} {b : Address}

/-- Whether a pool has a free block of a class. -/
def lists (p : Pool) (c : Nat) : Bool := p.shelves[c]?.any fun s => !s.free.blocks.isEmpty

/-- Whether a block of a class can be carved from the bump space of a pool. -/
def fits (p : Pool) (c : Nat) : Bool := p.space.any (SizeClass.blockSize c ≤ ·.length)

theorem lists_of_pop_some (h : p.pop c = .ok (some b, q)) : p.lists c = true := by
  unfold pop shelf at h
  split at h
  · rename_i s hs
    simp only [bind, Except.bind] at h
    split at h
    · rename_i hpop
      have hblocks := (FreeList.pop?_eq_some_iff.1 hpop).1
      simp [lists, hs, hblocks]
    · cases h
  · cases h

theorem lists_of_pop_none (h : p.pop c = .ok (none, q)) : q = p ∧ p.lists c = false := by
  unfold pop shelf at h
  split at h
  · rename_i s hs
    simp only [bind, Except.bind] at h
    split at h
    · cases h
    · rename_i hpop
      cases h
      have hblocks := FreeList.pop?_eq_none_iff.1 hpop
      exact ⟨rfl, by simp [lists, hs, hblocks]⟩
  · cases h

/-- The blocks taken from the top of a list are none just if the list has none. -/
theorem lists_of_splitTop {top : FreeList} {n : Nat} (hp : p.Sound allocFast)
    (h : p.splitTop c (n + 1) = .ok (top, q)) : p.lists c = !top.blocks.isEmpty := by
  unfold splitTop shelf at h
  split at h
  · rename_i s hs
    have htop : (s.free.splitTop (n + 1)).1 = top := (Prod.mk.inj (Except.ok.inj h)).1
    rw [← htop, (FreeList.blocks_splitTop (hp.shelves c s hs).counted (n + 1)).1]
    cases hblocks : s.free.blocks <;> simp [lists, hs, hblocks]
  · cases h

theorem fits_of_carve_some (h : p.carve? (SizeClass.blockSize c) = some (b, q)) : p.fits c = true := by
  obtain ⟨r, hr, hle, -, -⟩ := carve?_eq_some_iff.1 h
  simpa [fits, hr] using hle

theorem fits_of_carve_none (h : p.carve? (SizeClass.blockSize c) = none) : p.fits c = false := by
  cases hr : p.space with
  | none => simp [fits, hr]
  | some r => simpa [fits, hr] using carve?_eq_none_iff.1 h r hr

/-- Whether a pool has a block of a class by itself. -/
def stocks (p : Pool) (c : Nat) : Bool := p.lists c || p.fits c

end Pool

namespace Pool

variable {allocFast c : Nat} {p q : Pool}

/-- A bump space that is too short for a block of a class becomes a free block, if anything is left of it. -/
theorem retire_cases (hp : p.Sound allocFast) (hc : SizeClass.Serves allocFast c) (hfits : p.fits c = false) :
    ∃ q, p.retire allocFast = .ok (none, q) ∧
      (p.spaceLeft = 0 ∧ q = { p with space := none } ∨
        ∃ r d, p.space = some r ∧ SizeClass.ofSize r.length allocFast = .ok (.fast d) ∧
          { p with space := none }.push d r.start = .ok q) := by
  cases hr : p.space with
  | none => exact ⟨p, by simp [retire, takeSpace, hr], .inl ⟨by simp [spaceLeft, hr], by rw [← hr]⟩⟩
  | some r =>
    by_cases hzero : r.length = 0
    · refine ⟨{ p with space := none }, ?_, .inl ⟨by simp [spaceLeft, hr, hzero], rfl⟩⟩
      simp [retire, takeSpace, hr, hzero]
    · have hlt : r.length < SizeClass.blockSize c := by simpa [fits, hr] using hfits
      have ha := (hp.space r hr).length
      obtain ⟨d, -, hclass⟩ := hc.shorter hlt (Nat.pos_of_ne_zero hzero) ha
      have hd := SizeClass.serves_of_ofSize hclass
      have hp₁ : Pool.Sound allocFast { p with space := none } := ⟨hp.size, hp.shelves, by simp⟩
      obtain ⟨q, hpush, -⟩ := (push_ends hp₁ hd.lt (hp.space r hr).start).exists_ok
      refine ⟨q, ?_, .inr ⟨r, d, rfl, hclass, hpush⟩⟩
      rw [retire_of_fast hr (Nat.pos_of_ne_zero hzero) ha hclass, hpush]
      rfl

end Pool

/-! ## Requests -/

namespace Heap

variable {limits : Limits} {h h' : Heap} {p q : Pool} {out : List Region} {from? : Option PoolId}
  {c min size length : Nat} {answer : Except AllocError Address}

/-- Whether a region of at least `min` bytes is left over. -/
def spares (h : Heap) (min : Nat) : Bool := h.leftOver.any (min ≤ ·.length)

/-- Whether a pool gets a block of a class without a new chunk: by itself, from the shared pool, or by carving
a region that is left over. -/
def stocks (h : Heap) (from? : Option PoolId) (c : Nat) : Bool :=
  match from? with
  | none => h.global.stocks c || h.spares (SizeClass.blockSize c)
  | some id =>
    (h.locals.lookup id).any (·.stocks c) || h.global.lists c || h.spares (SizeClass.blockSize c)

/-- The length of the chunk that a request takes, if it takes one. -/
def demand? (h : Heap) (from? : Option PoolId) (size : Nat) : Option Nat :=
  match SizeClass.ofSize size h.limits.allocFast with
  | .ok (.fast c) => if h.stocks from? c then none else some h.limits.chunkSize
  | .ok .big => (roundUp size).toOption
  | .error _ => none

theorem obtain_supplied (h : Heap) (size : Nat) :
    Ends (h.obtain size) (h.supply.Starves (some size)) fun (answer, h') =>
      Supplied h.supply (some size) answer h'.supply := by
  unfold Heap.obtain
  split
  · exact .ok (.unheard ‹_›)
  · rename_i hle
    split
    · rename_i hgives
      rw [Bool.and_eq_true, decide_eq_true_eq] at hgives
      exact .ok (.granted () (Nat.le_of_not_lt hle) hgives)
    · rename_i hgives
      rw [Bool.and_eq_true, decide_eq_true_eq] at hgives
      have hdenies : h.supply.Denies size := ⟨Nat.le_of_not_lt hle, hgives⟩
      split
      · rename_i hhook
        exact .inr ⟨rfl, hhook, size, rfl, hdenies⟩
      · rename_i hook hhook
        exact .ok (.denied hdenies hhook)

/-- A left-over region is found if there is one. -/
theorem takeFirst_eq_none (hn : Region.takeFirst? h.leftOver min = none) : h.spares min = false := by
  unfold Region.takeFirst? at hn
  split at hn
  · rename_i hfind
    simpa [spares] using List.findIdx?_eq_none_iff.1 hfind
  · rename_i i hfind
    obtain ⟨hlt, -⟩ := List.findIdx?_eq_some_iff_getElem.1 hfind
    have hne : h.leftOver ≠ [] := List.ne_nil_of_length_pos (Nat.zero_lt_of_lt hlt)
    rw [List.getElem?_eq_getElem hlt, List.getLast?_eq_getLast_of_ne_nil hne] at hn
    cases hn

theorem spares_of_takeFirst {r : Region} {rest : List Region}
    (hs : Region.takeFirst? h.leftOver min = some (r, rest)) : h.spares min = true := by
  obtain ⟨hperm, hle⟩ := Region.takeFirst_spec hs
  simp only [spares, List.any_eq_true, decide_eq_true_eq]
  exact ⟨r, hperm.symm.subset (.head _), hle⟩

/-- The chunk that a request for a new space takes, if it takes one. -/
def spaceDemand? (h : Heap) (min : Nat) : Option Nat :=
  if h.spares min then none else some (max h.limits.chunkSize min)

theorem newSpace_supplied (h : Heap) (min : Nat) :
    Ends (h.newSpace min) (h.supply.Starves (h.spaceDemand? min)) fun (answer, h') =>
      Supplied h.supply (h.spaceDemand? min) answer h'.supply := by
  unfold newSpace spaceDemand?
  split
  · rename_i hs
    rw [if_pos (spares_of_takeFirst hs)]
    exact .ok (.stocked _)
  · rename_i hn
    rw [if_neg (by rw [takeFirst_eq_none hn]; exact Bool.false_ne_true)]
    refine (obtain_supplied h _).bind ?_
    rintro ⟨e | _, h'⟩ hs
    · exact .ok hs.error
    · exact .ok (hs.ok _)

/-- A new space, left over or a new chunk, is as long as it has to be. -/
theorem newSpace_length {r : Region} (hn : h.newSpace min = .ok (.ok r, h')) : min ≤ r.length := by
  cases newSpace_cases hn with
  | spare htake => exact (Region.takeFirst_spec htake).2
  | chunk hlength => exact hlength ▸ Nat.le_max_right _ _

/-- What is left of the bump space stays with the pool, so it does not count as left over. -/
theorem carveAnew_supplied (hp : p.Sound h.limits.allocFast) (hc : SizeClass.Serves h.limits.allocFast c)
    (hfits : p.fits c = false) :
    Ends (h.carveAnew p (SizeClass.blockSize c)) (h.supply.Starves (h.spaceDemand? (SizeClass.blockSize c)))
      fun (answer, _, h') => Supplied h.supply (h.spaceDemand? (SizeClass.blockSize c)) answer h'.supply := by
  obtain ⟨q, hretire, -⟩ := Pool.retire_cases hp hc hfits
  unfold carveAnew
  simp only [hretire, bind, Except.bind, Option.toList_none, List.append_nil]
  refine (newSpace_supplied h _).and_eq.bind ?_
  rintro ⟨e | r, h'⟩ ⟨hspace, hs⟩
  · exact .ok hs.error
  · obtain ⟨b, q', hcarve⟩ := Pool.carve_isSome (p := q) (newSpace_length hspace)
    simp only [hcarve]
    exact .ok (hs.ok b)

theorem refill_supplied (hp : p.Sound h.limits.allocFast) (hg : h.global.Sound h.limits.allocFast)
    (hc : SizeClass.Serves h.limits.allocFast c) (hfits : p.fits c = false) :
    Ends (h.refill p c)
      (h.supply.Starves (if h.global.lists c then none else h.spaceDemand? (SizeClass.blockSize c)))
      fun (answer, _, h') =>
        Supplied h.supply (if h.global.lists c then none else h.spaceDemand? (SizeClass.blockSize c)) answer
          h'.supply := by
  unfold refill takeGlobal
  refine ((Pool.splitTop_ends hg hc.lt refillBatch).and_eq.starve False.elim).bind ?_
  rintro ⟨batch, global⟩ ⟨hsplit, -, -, hbatch, -⟩
  have hlists := Pool.lists_of_splitTop hg hsplit
  cases hpop : batch.pop? with
  | some r =>
    obtain ⟨b, rest⟩ := r
    have hblocks := (FreeList.pop?_eq_some_iff.1 hpop).1
    have hrest : rest.Sound :=
      ⟨hbatch.counted.pop hpop, fun d hd => hbatch.aligned d (hblocks ▸ List.mem_cons_of_mem _ hd)⟩
    have hsome : h.global.lists c = true := by simp [hlists, hblocks]
    simp only [hpop, hsome, if_true]
    refine ((Pool.append_ends hp hc.lt hrest).starve False.elim).bind ?_
    rintro q -
    exact .ok (.stocked b)
  | none =>
    have hblocks := FreeList.pop?_eq_none_iff.1 hpop
    have hnone : h.global.lists c = false := by simp [hlists, hblocks]
    simp only [hpop, hnone, Bool.false_eq_true, if_false]
    exact carveAnew_supplied (h := { h with global }) hp hc hfits

theorem serve_supplied {demand? : Option Nat} (hp : p.Sound h.limits.allocFast)
    (hc : SizeClass.Serves h.limits.allocFast c)
    {more : Heap → Pool → Except Fault (Except AllocError Address × Pool × Heap)}
    (hmore : p.fits c = false →
      Ends (more h p) (h.supply.Starves demand?) fun (answer, q, h') =>
        q.Sound h.limits.allocFast ∧ Supplied h.supply demand? answer h'.supply) :
    Ends (h.serve p c more) (h.supply.Starves (if p.stocks c then none else demand?)) fun (answer, _, h') =>
      Supplied h.supply (if p.stocks c then none else demand?) answer h'.supply := by
  -- Counting the block does not concern the system.
  have hcount (b : Address) {q : Pool} (hq : q.Sound h.limits.allocFast) (h₁ : Heap) {P : Prop}
      {demand? : Option Nat} (hs : Supplied h.supply demand? (.ok b) h₁.supply) :
      Ends (do
          let q ← q.count c 1
          pure ((.ok b : Except AllocError Address), q,
            { h₁ with bytesInUse := h₁.bytesInUse + SizeClass.blockSize c })) P
        fun (answer, _, h') => Supplied h.supply demand? answer h'.supply := by
    refine ((Pool.count_ends hq hc.lt 1).starve False.elim).bind ?_
    rintro q' -
    exact .ok hs
  unfold serve
  refine ((Pool.pop_ends hp hc.lt).and_eq.starve False.elim).bind ?_
  rintro ⟨b | b, q⟩ ⟨hpop, hq, -⟩
  · obtain ⟨rfl, hlists⟩ := Pool.lists_of_pop_none hpop
    dsimp only
    split
    · rename_i b q' hcarve
      have hstocks : q.stocks c = true := by simp [Pool.stocks, Pool.fits_of_carve_some hcarve]
      rw [if_pos hstocks]
      exact hcount b (Pool.carve_spec hq (SizeClass.aligned_blockSize c) hcarve).1 h (.stocked b)
    · rename_i hcarve
      have hfits := Pool.fits_of_carve_none hcarve
      have hstocks : q.stocks c = false := by simp [Pool.stocks, hlists, hfits]
      rw [if_neg (by rw [hstocks]; exact Bool.false_ne_true)]
      refine (hmore hfits).bind ?_
      rintro ⟨e | b, q', h'⟩ ⟨hq', hs⟩
      · exact .ok hs
      · exact hcount b hq' h' hs
  · have hstocks : p.stocks c = true := by simp [Pool.stocks, Pool.lists_of_pop_some hpop]
    rw [if_pos hstocks]
    exact hcount b hq h (.stocked b)

/-! ## Every request -/

/-- The chunk for a new space is no longer than for others, since no block of a class is. -/
theorem spaceDemand_eq (hchunk : h.limits.allocFast ≤ h.limits.chunkSize)
    (hc : SizeClass.Serves h.limits.allocFast c) :
    h.spaceDemand? (SizeClass.blockSize c) =
      if h.spares (SizeClass.blockSize c) then none else some h.limits.chunkSize := by
  unfold spaceDemand?
  rw [Nat.max_eq_left (Nat.le_trans hc.le hchunk)]

theorem Shaped.allocGlobal_supplied (hs : Shaped limits h) (hchunk : h.limits.allocFast ≤ h.limits.chunkSize)
    (hclass : SizeClass.ofSize size h.limits.allocFast = .ok (.fast c)) :
    Ends (h.allocGlobal size) (h.supply.Starves (h.demand? none size)) fun (answer, h') =>
      Supplied h.supply (h.demand? none size) answer h'.supply := by
  have hc := SizeClass.serves_of_ofSize hclass
  have hready : { h with global := { shelves := #[] } }.Ready := ⟨hs.chunkSize, hs.leftOver⟩
  have hdemand : h.demand? none size =
      if h.global.stocks c then none else h.spaceDemand? (SizeClass.blockSize c) := by
    simp only [demand?, hclass, stocks, spaceDemand_eq hchunk hc, Bool.or_eq_true, ite_or]
  rw [hdemand]
  simp only [allocGlobal, hclass, takeGlobal]
  refine (serve_supplied (h := { h with global := { shelves := #[] } }) hs.global hc fun hfits => ?_).bind ?_
  · refine ((carveAnew_ends hready hs.global c).and
      (carveAnew_supplied (h := { h with global := { shelves := #[] } }) hs.global hc hfits)).mono ?_ |>.starve And.right
    rintro ⟨answer, q, h'⟩ ⟨hserved, hsupplied⟩
    exact ⟨hserved.pool, hsupplied⟩
  · rintro ⟨answer, q, h'⟩ hsupplied
    exact .ok hsupplied

theorem Shaped.allocLocal_supplied (hs : Shaped limits h) (hchunk : h.limits.allocFast ≤ h.limits.chunkSize)
    {id : PoolId} (hid : id ∈ h.locals.map (·.1))
    (hclass : SizeClass.ofSize size h.limits.allocFast = .ok (.fast c)) :
    Ends (h.allocLocal id size) (h.supply.Starves (h.demand? (some id) size)) fun (answer, h') =>
      Supplied h.supply (h.demand? (some id) size) answer h'.supply := by
  have hc := SizeClass.serves_of_ofSize hclass
  obtain ⟨p, hlookup⟩ := lookup_isSome hid
  have hp := hs.sound_of_lookup hlookup
  have hready : { h with locals := h.locals.eraseP (·.1 == id) }.Ready := ⟨hs.chunkSize, hs.leftOver⟩
  have hdemand : h.demand? (some id) size =
      if p.stocks c then none
      else if h.global.lists c then none else h.spaceDemand? (SizeClass.blockSize c) := by
    simp only [demand?, hclass, stocks, hlookup, Option.any_some, spaceDemand_eq hchunk hc, Bool.or_eq_true, ite_or]
  rw [hdemand]
  simp only [allocLocal, hclass, takeOut, Heap.pool, hlookup]
  refine (serve_supplied (h := { h with locals := h.locals.eraseP (·.1 == id) }) hp hc fun hfits => ?_).bind ?_
  · refine ((refill_ends hready hp hs.global hc.lt).and
      (refill_supplied (h := { h with locals := h.locals.eraseP (·.1 == id) }) hp hs.global hc hfits)).mono ?_ |>.starve
      And.right
    rintro ⟨answer, q, h'⟩ ⟨hserved, hsupplied⟩
    exact ⟨hserved.pool, hsupplied⟩
  · rintro ⟨answer, q, h'⟩ hsupplied
    exact .ok hsupplied

theorem allocBig_supplied (hround : roundUp size = .ok length) :
    Ends (h.allocBig size) (h.supply.Starves (some length)) fun (answer, h') =>
      Supplied h.supply (some length) answer h'.supply := by
  simp only [allocBig, hround]
  refine (obtain_supplied h length).bind ?_
  rintro ⟨e | _, h'⟩ hs
  · exact .ok hs.error
  · exact .ok (hs.ok _)

/-- A request for a size that some block has is answered as the system answers for the chunk that it takes. -/
theorem Shaped.alloc_supplied (hs : Shaped limits h) (hchunk : h.limits.allocFast ≤ h.limits.chunkSize)
    (hfrom : h.HasPool from?) (hround : roundUp size = .ok length) :
    Ends (h.alloc from? size) (h.supply.Starves (h.demand? from? size)) fun (answer, h') =>
      Supplied h.supply (h.demand? from? size) answer h'.supply := by
  rcases SizeClass.ofSize_cases hround h.limits.allocFast with ⟨c, -, hclass⟩ | ⟨-, hclass⟩
  · cases from? with
    | none => exact hs.allocGlobal_supplied hchunk hclass
    | some id => exact hs.allocLocal_supplied hchunk (hfrom id rfl) hclass
  · have hdemand : h.demand? from? size = some length := by simp only [demand?, hclass, hround, Except.toOption]
    rw [hdemand, alloc_of_big hclass]
    exact allocBig_supplied hround

theorem Owned.alloc_supplied (ho : Owned limits h out) (hchunk : h.limits.allocFast ≤ h.limits.chunkSize)
    (hfrom : h.HasPool from?) (hround : roundUp size = .ok length) :
    Ends (h.alloc from? size) (h.supply.Starves (h.demand? from? size)) fun (answer, h') =>
      Supplied h.supply (h.demand? from? size) answer h'.supply :=
  ho.shaped.alloc_supplied hchunk hfrom hround

/-! ## Bad requests -/

theorem chunkSize_ge {c : Config} (hc : c.check = .ok ()) : c.limits.allocFast ≤ c.limits.chunkSize :=
  (Config.check_eq_ok_iff.1 hc).chunkSize.2

/-- A chunk that is taken is one for small blocks, or else the block itself. -/
theorem demand_cases {n : Nat} (hn : h.demand? from? size = some n) :
    (∃ c, SizeClass.ofSize size h.limits.allocFast = .ok (.fast c) ∧ h.stocks from? c = false ∧
        n = h.limits.chunkSize) ∨
      (SizeClass.ofSize size h.limits.allocFast = .ok .big ∧ roundUp size = .ok n) := by
  unfold demand? at hn
  split at hn
  · rename_i c hclass
    split at hn
    · cases hn
    · rename_i hstocks
      exact .inl ⟨c, hclass, Bool.eq_false_iff.2 hstocks, (Option.some.inj hn).symm⟩
  · rename_i hclass
    refine .inr ⟨hclass, ?_⟩
    cases hround : roundUp size with
    | ok length =>
      rw [hround] at hn
      exact congrArg Except.ok (Option.some.inj hn)
    | error e =>
      rw [hround] at hn
      cases hn
  · cases hn

/-- What the answer to a request may be. -/
structure Judged (h : Heap) (from? : Option PoolId) (size : Nat) (answer : Except AllocError Address) (h' : Heap) :
    Prop where
  /-- Bad requests are those for nothing or for too much, and those that take a chunk too long for any memory. -/
  bad_iff : answer = .error .badRequest ↔
    size = 0 ∨ maxRequest < size ∨
      (h.demand? from? size = some h.limits.chunkSize ∧ maxRequest < h.limits.chunkSize)
  /-- Where chunks are not that long, it is a matter of the request alone. -/
  bad_alone : h.limits.chunkSize ≤ maxRequest → (answer = .error .badRequest ↔ size = 0 ∨ maxRequest < size)
  /-- All others are served, or refused with the hook told of it. -/
  otherwise : answer ≠ .error .badRequest → (∃ b, answer = .ok b) ∨
    answer = .error .outOfMemory ∧ ∃ hook n, h.hook = some hook ∧ h'.refusals = h.refusals ++ [⟨hook, n⟩]

/-- A size that some block has is a good one, so only the chunk that the request takes can be too long. -/
theorem judged_of_supplied (hs : Supplied h.supply (h.demand? from? size) answer h'.supply)
    (hround : roundUp size = .ok length) : Judged h from? size answer h' := by
  obtain ⟨hpos, hle, -⟩ := roundUp_eq_ok_iff.1 hround
  have hgood : ¬ (size = 0 ∨ maxRequest < size) := by omega
  have hbad : answer = .error .badRequest ↔
      h.demand? from? size = some h.limits.chunkSize ∧ maxRequest < h.limits.chunkSize := by
    rw [hs.badRequest_iff]
    constructor
    · rintro ⟨n, hn, hlt⟩
      rcases demand_cases hn with ⟨c, -, -, rfl⟩ | ⟨-, hround'⟩
      · exact ⟨hn, hlt⟩
      · exact absurd (rounded_le hround') (Nat.not_le.2 hlt)
    · rintro ⟨hn, hlt⟩
      exact ⟨_, hn, hlt⟩
  refine ⟨?_, fun hchunk => ?_, fun hgranted => ?_⟩
  · rw [← or_assoc, or_iff_right hgood]
    exact hbad
  · exact ⟨fun hb => absurd (hbad.1 hb).2 (Nat.not_lt.2 hchunk), fun h => absurd h hgood⟩
  · rcases hs.refusals with ⟨hne, -⟩ | ⟨hook, n, hhook, -, -, hanswer, htold⟩
    · rcases answer with (_ | _) | b
      · exact absurd rfl hgranted
      · exact absurd rfl hne
      · exact .inl ⟨b, rfl⟩
    · exact .inr ⟨hanswer, hook, n, hhook, htold⟩

theorem judged_of_no_size {e : AllocError} (hround : roundUp size = .error e) :
    Judged h from? size (.error e) h := by
  obtain ⟨rfl, hbad⟩ := roundUp_eq_error_iff.1 hround
  exact ⟨⟨fun _ => or_assoc.1 (.inl hbad), fun _ => rfl⟩, fun _ => ⟨fun _ => hbad, fun _ => rfl⟩, fun h => absurd rfl h⟩

/-- With an accepted configuration, whatever a heap was asked for before and whichever pool is asked, a request
is a bad one for its size alone, unless chunks are longer than any memory can be. Every other request is served
or refused; where one is refused and there is no hook, the run ends. -/
theorem bad_requests {c : Config} (hc : c.check = .ok ()) {grants : Nat → Nat → Bool} {n : Nat}
    (hl : Life c.limits grants n h out) (hfrom : h.HasPool from?) (size : Nat) :
    Ends (h.alloc from? size) (h.supply.Starves (h.demand? from? size)) fun (answer, h') =>
      Judged h from? size answer h' := by
  have ho := (hl.solvent (chunkSize_aligned hc)).settled.owned
  cases hround : roundUp size with
  | error e =>
    rw [alloc_of_no_size hround]
    exact .ok (judged_of_no_size hround)
  | ok length =>
    have hchunk : h.limits.allocFast ≤ h.limits.chunkSize := ho.limits ▸ chunkSize_ge hc
    exact (ho.alloc_supplied hchunk hfrom hround).mono fun _ hs => judged_of_supplied hs hround

/-- A request that the system refuses, with a hook, after one that was bad for its size. -/
theorem bad_requests_refused :
    ∃ h, Life ⟨512, 65536, 200⟩ (fun _ _ => false) 1 h [] ∧
      h.alloc none 0 = .ok (.error .badRequest, h) ∧
      Judged h none 0 (.error .badRequest) h ∧
      ∃ h', h.alloc none 16 = .ok (.error .outOfMemory, h') ∧ Judged h none 16 (.error .outOfMemory) h' := by
  have told := (@Life.start ⟨512, 65536, 200⟩ fun _ _ => false).request (.setHook "hook")
  have bad := bad_requests (c := {}) rfl told (hasPool_none _) 0
  have refused := bad_requests (c := {}) rfl told (hasPool_none _) 16
  exact ⟨_, told, rfl, bad.post_of_ok rfl, _, rfl, refused.post_of_ok rfl⟩

/-- Chunks of half the address space are accepted, and then the first small request of all is a bad one. -/
theorem bad_request_of_chunkSize :
    Config.check { chunkSize := 0x8000000000000000 } = .ok () ∧
      Life (Config.limits { chunkSize := 0x8000000000000000 }) (fun _ _ => true) 0
        (.empty (Config.limits { chunkSize := 0x8000000000000000 }) fun _ _ => true) [] ∧
      ∃ h', (Heap.empty (Config.limits { chunkSize := 0x8000000000000000 }) fun _ _ => true).alloc none 16 =
        .ok (.error .badRequest, h') ∧ ¬ ((16 : Nat) = 0 ∨ maxRequest < 16) := by
  exact ⟨rfl, .start, _, rfl, by decide⟩

end Heap

end AtomHeap
