import AtomHeap.Memory.Alloc
import AtomHeap.Proofs.Memory.Pool
import Mathlib.Data.List.Perm.Basic
/-!
# What serving a request moves

`Heap.held` counts the free blocks, bump spaces and left-over regions of a heap that a byte lies in,
and `Heap.bytesAt` the chunks. Serving a request moves regions between a pool, the heap and the
caller; `Served.balance` is the account of that, whether or not the system refused a chunk on the
way.
-/

namespace AtomHeap

/-! ## Left-over regions -/

/-- Taking out the entry of an index and putting the last one in its place loses nothing. -/
theorem swapRemove_perm {α : Type} {l : List α} {i : Nat} {last : α} (hi : i < l.length)
    (hl : l.getLast? = some last) : l.Perm (l[i] :: (l.set i last).dropLast) := by
  obtain ⟨front, rfl⟩ := List.getLast?_eq_some_iff.1 hl
  have hlast : (front ++ [last]).Perm (last :: front) := List.perm_append_comm
  by_cases hf : i < front.length
  · rw [List.set_append_left _ _ hf, List.dropLast_concat, List.getElem_append_left hf]
    have hget : front.Perm (front[i] :: front.eraseIdx i) := by
      have := List.set_perm_cons_eraseIdx hf front[i]
      rwa [List.set_getElem_self] at this
    have hset := List.set_perm_cons_eraseIdx hf last
    calc
      (front ++ [last]).Perm (last :: front[i] :: front.eraseIdx i) := hlast.trans (hget.cons _)
      _ |>.Perm (front[i] :: last :: front.eraseIdx i) := .swap _ _ _
      _ |>.Perm (front[i] :: front.set i last) := hset.symm.cons _
  · have he : i = front.length := by
      simp only [List.length_append, List.length_singleton] at hi
      omega
    subst he
    simp [hlast]

/-- The first region that is long enough is taken out of the list. -/
theorem Region.takeFirst_spec {regions rest : List Region} {r : Region} {min : Nat}
    (h : Region.takeFirst? regions min = some (r, rest)) :
    regions.Perm (r :: rest) ∧ min ≤ r.length := by
  unfold Region.takeFirst? at h
  split at h
  · cases h
  · rename_i i hi
    obtain ⟨hlt, hmin, -⟩ := List.findIdx?_eq_some_iff_getElem.1 hi
    rw [List.getElem?_eq_getElem hlt] at h
    split at h
    · rename_i q last hq hlast
      simp only [Option.some.injEq, Prod.mk.injEq] at h hq
      obtain ⟨rfl, rfl⟩ := h
      subst hq
      exact ⟨swapRemove_perm hlt hlast, by simpa using hmin⟩
    · cases h

namespace Heap

variable {h h' : Heap} {p q : Pool} {a : Address} {c size : Nat}

/-! ## Bytes and who holds them -/

/-- Whether a byte lies in a chunk that the heap has. -/
def hasByte (h : Heap) (a : Address) : Bool := (h.chunkLength? a.chunk).any (a.offset < ·)

/-- How many chunks of the heap a byte lies in. -/
def bytesAt (h : Heap) (a : Address) : Nat := if h.hasByte a then 1 else 0

/-- How many free blocks and bump spaces of some local pools a byte lies in. -/
def heldByLocals (locals : List (PoolId × Pool)) (a : Address) : Nat := (locals.map (·.2.held a)).sum

/-- How many free blocks, bump spaces and left-over regions of the heap a byte lies in. -/
def held (h : Heap) (a : Address) : Nat :=
  h.global.held a + heldByLocals h.locals a + coverage h.leftOver a

/-- A chunk that the heap did not have brings its bytes. -/
theorem bytesAt_newChunk {chunk : ChunkId} {length : Nat} (hnew : h.chunkLength? chunk = none)
    (hlen : h'.chunkLength? chunk = some length)
    (hother : ∀ other, other ≠ chunk → h'.chunkLength? other = h.chunkLength? other) (a : Address) :
    h'.bytesAt a = h.bytesAt a + coverage [⟨chunk.start, length⟩] a := by
  by_cases hc : a.chunk = chunk
  · subst hc
    simp [bytesAt, hasByte, hnew, hlen, coverage_one, Region.covers_iff, ChunkId.start]
  · have hc' : ¬ chunk = a.chunk := fun e => hc e.symm
    have hsame : h'.hasByte a = h.hasByte a := by rw [hasByte, hasByte, hother _ hc]
    simp [bytesAt, hsame, coverage_one, Region.covers_iff, ChunkId.start, hc']

theorem bytesAt_pushCarving (h : Heap) (length : Nat) (a : Address) :
    { h with carving := h.carving.push length }.bytesAt a =
      h.bytesAt a + coverage [⟨(ChunkId.carving (h.firstCarving + h.carving.size)).start, length⟩] a := by
  refine bytesAt_newChunk ?_ ?_ ?_ a
  · simp [chunkLength?, carvingIndex?]
  · simp [chunkLength?, carvingIndex?]
  · intro other hother
    cases other with
    | nowhere => rfl
    | big n => rfl
    | carving n =>
      simp only [chunkLength?, carvingIndex?]
      split
      · have hn : n - h.firstCarving ≠ h.carving.size := by
          rintro he
          exact hother (congrArg ChunkId.carving (by omega))
        simp [Array.getElem?_push, hn]
      · rfl

theorem bytesAt_pushBig (h : Heap) (length : Nat) (a : Address) :
    { h with big := h.big.push (some length) }.bytesAt a =
      h.bytesAt a + coverage [⟨(ChunkId.big h.big.size).start, length⟩] a := by
  refine bytesAt_newChunk ?_ ?_ ?_ a
  · simp [chunkLength?]
  · simp [chunkLength?]
  · intro other hother
    cases other with
    | nowhere => rfl
    | carving n => rfl
    | big n =>
      have hn : n ≠ h.big.size := fun he => hother (congrArg ChunkId.big he)
      simp [chunkLength?, Array.getElem?_push, hn]

/-! ## Serving from a size class -/

/-- Serving a fast request leaves the other pools and all big blocks alone. -/
structure Untouched (h h' : Heap) : Prop where
  limits : h'.limits = h.limits
  locals : h'.locals = h.locals
  nextPool : h'.nextPool = h.nextPool
  hook : h'.hook = h.hook
  big : h'.big = h.big

/-- What serving a request for a block of class `c` from a pool `p` comes to, where the pool becomes
`q` and the rest of the heap `h'`; `G` is what it does to the shared pool. -/
structure Served (G : Pool → Pool → Prop) (c : Nat) (h : Heap) (p : Pool) (answer : Except AllocError Address)
    (q : Pool) (h' : Heap) : Prop where
  pool : q.Sound h.limits.allocFast
  leftOver : ∀ r ∈ h'.leftOver, r.Aligned
  global : G h.global h'.global
  untouched : Untouched h h'
  block : ∀ b, answer = .ok b → b.offset % alignment = 0
  /-- Each byte that the pool and the heap held, or that is new, they hold or the caller got. -/
  balance : ∀ a, q.held a + h'.held a + coverage (blocksAt c answer.toOption.toList) a + h.bytesAt a =
    p.held a + h.held a + h'.bytesAt a

/-- The specification of `obtain`: only the record of requests changes. -/
theorem obtain_ends (h : Heap) (size : Nat) :
    Ends (h.obtain size) (h.hook = none) fun (_, h') =>
      ∃ asked reserved refusals, h' = { h with asked, reserved, refusals } := by
  unfold Heap.obtain
  split
  · exact .ok ⟨_, _, _, rfl⟩
  · split
    · exact .ok ⟨_, _, _, rfl⟩
    · split
      · exact .inr ⟨rfl, by assumption⟩
      · exact .ok ⟨_, _, _, rfl⟩

/-- The specification of `newSpace`: the region was left over, or is all of a new chunk. -/
theorem newSpace_ends (hleft : ∀ r ∈ h.leftOver, r.Aligned) (hchunk : h.limits.chunkSize % alignment = 0)
    (hsize : size % alignment = 0) :
    Ends (h.newSpace size) (h.hook = none) fun (answer, h') =>
      Untouched h h' ∧ h'.global = h.global ∧ (∀ r ∈ h'.leftOver, r.Aligned) ∧
        (∀ r, answer = .ok r → r.Aligned ∧ size ≤ r.length) ∧
        ∀ a, coverage h'.leftOver a + coverage answer.toOption.toList a + h.bytesAt a =
          coverage h.leftOver a + h'.bytesAt a := by
  unfold newSpace
  split
  · rename_i r leftOver htake
    obtain ⟨hperm, hlen⟩ := Region.takeFirst_spec htake
    refine .ok ⟨⟨rfl, rfl, rfl, rfl, rfl⟩, rfl, fun q hq => hleft q (hperm.symm.subset (.tail _ hq)), ?_, ?_⟩
    · rintro _ ⟨⟩
      exact ⟨hleft r (hperm.symm.subset (.head _)), hlen⟩
    · intro a
      have hsum := (coverage_perm (a := a) hperm).trans coverage_cons
      have hbytes : { h with leftOver }.bytesAt a = h.bytesAt a := rfl
      simp only [Except.toOption, Option.toList_some, hbytes]
      omega
  · refine (obtain_ends h _).bind ?_
    rintro ⟨answer, h'⟩ ⟨asked, reserved, refusals, rfl⟩
    cases answer with
    | error e =>
      exact .ok ⟨⟨rfl, rfl, rfl, rfl, rfl⟩, rfl, hleft, fun r hr => (nomatch hr), fun a => rfl⟩
    | ok _ =>
      refine .ok ⟨⟨rfl, rfl, rfl, rfl, rfl⟩, rfl, hleft, ?_, ?_⟩
      · rintro _ ⟨⟩
        refine ⟨⟨rfl, ?_⟩, Nat.le_max_right _ _⟩
        -- The chunk is as long as the longer of the two, and both are aligned.
        rcases Nat.le_total h.limits.chunkSize size with hle | hle
        · simpa [Nat.max_eq_right hle] using hsize
        · simpa [Nat.max_eq_left hle] using hchunk
      · intro a
        rw [bytesAt_pushCarving { h with asked, reserved, refusals }]
        have hbytes : { h with asked, reserved, refusals }.bytesAt a = h.bytesAt a := rfl
        simp only [Except.toOption, Option.toList_some, hbytes]
        omega

/-- What the heap has to be like for a pool to serve from it: its left-over regions and new chunks
are aligned. -/
structure Ready (h : Heap) : Prop where
  chunkSize : h.limits.chunkSize % alignment = 0
  leftOver : ∀ r ∈ h.leftOver, r.Aligned

theorem carveAnew_ends (hr : h.Ready) (hp : p.Sound h.limits.allocFast) (c : Nat) :
    Ends (h.carveAnew p (SizeClass.blockSize c)) (h.hook = none) fun (answer, q, h') =>
      Served (fun g g' => g' = g) c h p answer q h' := by
  unfold carveAnew
  refine ((Pool.retire_ends hp).starve False.elim).bind ?_
  rintro ⟨remainder, p₁⟩ ⟨hp₁, hspace, hal, hheld₁⟩
  -- The old bump space is left over before a new one is asked for.
  have hleft : ∀ r ∈ h.leftOver ++ remainder.toList, r.Aligned := by
    intro r hmem
    rcases List.mem_append.1 hmem with hmem | hmem
    · exact hr.leftOver r hmem
    · exact hal r (Option.mem_toList.1 hmem)
  refine (newSpace_ends (h := { h with leftOver := h.leftOver ++ remainder.toList }) hleft hr.chunkSize
    (SizeClass.aligned_blockSize c)).bind ?_
  rintro ⟨answer, h'⟩ ⟨hsame, hglobal, hleft', hregion, hsum⟩
  have hlocals : heldByLocals h'.locals = heldByLocals h.locals := congrArg _ hsame.locals
  have hbytes (a) : { h with leftOver := h.leftOver ++ remainder.toList }.bytesAt a = h.bytesAt a := rfl
  have hsame' : Untouched h h' := ⟨hsame.limits, hsame.locals, hsame.nextPool, hsame.hook, hsame.big⟩
  cases answer with
  | error e =>
    refine .ok ⟨hp₁, hleft', hglobal, hsame', fun b hb => (nomatch hb), fun a => ?_⟩
    have h₁ := hheld₁ a
    have h₂ := hsum a
    simp only [held, hglobal, hlocals, coverage_append, hbytes, Except.toOption, Option.toList_none, blocksAt,
      List.map_nil, coverage_nil] at h₂ ⊢
    omega
  | ok r =>
    obtain ⟨hral, hle⟩ := hregion r rfl
    obtain ⟨b, p₂, hcarve⟩ := Pool.carve_isSome (p := p₁) hle
    have hp₁' : Pool.Sound h.limits.allocFast { p₁ with space := some r } :=
      ⟨hp₁.size, hp₁.shelves, fun _ hs => Option.some.inj hs ▸ hral⟩
    obtain ⟨hp₂, hb, hheld₂⟩ := Pool.carve_spec hp₁' (SizeClass.aligned_blockSize c) hcarve
    simp only [hcarve]
    refine .ok ⟨hp₂, hleft', hglobal, hsame', ?_, ?_⟩
    · rintro _ ⟨⟩
      exact hb
    · intro a
      have h₁ := hheld₁ a
      have h₂ := hsum a
      have h₃ := hheld₂ a
      have hspaces : Pool.held { p₁ with space := some r } a = p₁.held a + coverage [r] a := by
        simp [Pool.held, Pool.freeBlocks, hspace]
      simp only [held, hglobal, hlocals, coverage_append, hbytes, Except.toOption, Option.toList_some, blocksAt,
        List.map_cons, List.map_nil] at h₂ ⊢
      omega

theorem refill_ends (hr : h.Ready) (hp : p.Sound h.limits.allocFast) (hg : h.global.Sound h.limits.allocFast)
    (hc : c < SizeClass.count h.limits.allocFast) :
    Ends (h.refill p c) (h.hook = none) fun (answer, q, h') =>
      Served (fun _ g' => g'.Sound h.limits.allocFast) c h p answer q h' := by
  unfold refill takeGlobal
  refine ((Pool.splitTop_ends hg hc refillBatch).starve False.elim).bind ?_
  rintro ⟨batch, global⟩ ⟨hglobal, -, hbatch, hheld⟩
  dsimp only
  split
  · rename_i b rest hpop
    -- The first block of the batch is served, and the others go onto a list of the pool.
    have hblocks := (FreeList.pop?_eq_some_iff.1 hpop).1
    have hrest : rest.Sound :=
      ⟨hbatch.counted.pop hpop, fun d hd => hbatch.aligned d (hblocks ▸ List.mem_cons_of_mem _ hd)⟩
    refine ((Pool.append_ends hp hc hrest).starve False.elim).bind ?_
    rintro q ⟨hq, -, hqheld⟩
    refine .ok ⟨hq, hr.leftOver, hglobal, ⟨rfl, rfl, rfl, rfl, rfl⟩, ?_, ?_⟩
    · rintro _ ⟨⟩
      exact hbatch.aligned b (hblocks ▸ List.mem_cons_self)
    · intro a
      have h₁ := hheld a
      have h₂ := hqheld a
      have hbytes : { h with global }.bytesAt a = h.bytesAt a := rfl
      rw [hblocks, blocksAt, List.map_cons, coverage_cons] at h₁
      simp only [held, hbytes, Except.toOption, Option.toList_some, blocksAt, List.map_cons, List.map_nil] at *
      omega
  · rename_i hpop
    -- An empty batch took nothing from the shared pool.
    have hnone := FreeList.pop?_eq_none_iff.1 hpop
    refine (carveAnew_ends (h := { h with global }) ⟨hr.chunkSize, hr.leftOver⟩ hp c).mono ?_
    rintro ⟨answer, q, h'⟩ hs
    refine ⟨hs.pool, hs.leftOver, hs.global ▸ hglobal, ?_, hs.block, ?_⟩
    · obtain ⟨hlimits, hlocals, hnext, hhook, hbig⟩ := hs.untouched
      exact ⟨hlimits, hlocals, hnext, hhook, hbig⟩
    · intro a
      have h₁ := hheld a
      have h₂ := hs.balance a
      have hbytes : { h with global }.bytesAt a = h.bytesAt a := rfl
      rw [hnone, blocksAt, List.map_nil, coverage_nil] at h₁
      simp only [held, hbytes] at h₂ ⊢
      omega

/-- However a block was come by, all that is left is to count it. -/
theorem count_served {G : Pool → Pool → Prop} (hc : c < SizeClass.count h.limits.allocFast)
    (answer : Except AllocError Address) (q : Pool) (h' : Heap) (hs : Served G c h p answer q h') :
    Ends (match answer with
      | .error e => pure (.error e, q, h')
      | .ok b => do
        let q ← q.count c 1
        pure (.ok b, q, { h' with bytesInUse := h'.bytesInUse + SizeClass.blockSize c }))
      (h.hook = none) fun (answer, q, h') => Served G c h p answer q h' := by
  cases answer with
  | error e => exact .ok hs
  | ok b =>
    refine ((Pool.count_ends hs.pool hc 1).starve False.elim).bind ?_
    rintro q' ⟨hq', -, hheld⟩
    refine .ok ⟨hq', hs.leftOver, hs.global, ?_, hs.block, ?_⟩
    · obtain ⟨hlimits, hlocals, hnext, hhook, hbig⟩ := hs.untouched
      exact ⟨hlimits, hlocals, hnext, hhook, hbig⟩
    · intro a
      rw [hheld a]
      exact hs.balance a

/-- The specification of `serve`, where `more` is as specified. -/
theorem serve_ends {G : Pool → Pool → Prop} (hG : G h.global h.global) (hr : h.Ready)
    (hp : p.Sound h.limits.allocFast) (hc : c < SizeClass.count h.limits.allocFast)
    {more : Heap → Pool → Except Fault (Except AllocError Address × Pool × Heap)}
    (hmore : ∀ q, q.Sound h.limits.allocFast →
      Ends (more h q) (h.hook = none) fun (answer, q', h') => Served G c h q answer q' h') :
    Ends (h.serve p c more) (h.hook = none) fun (answer, q, h') => Served G c h p answer q h' := by
  unfold serve
  refine ((Pool.pop_ends hp hc).starve False.elim).bind ?_
  rintro ⟨b?, q⟩ ⟨hq, hspace, hb, hheld⟩
  cases b? with
  | some b =>
    refine count_served hc (.ok b) q h ⟨hq, hr.leftOver, hG, ⟨rfl, rfl, rfl, rfl, rfl⟩, ?_, ?_⟩
    · rintro _ ⟨⟩
      exact hb b rfl
    · intro a
      have := hheld a
      simp only [Except.toOption, Option.toList_some] at *
      omega
  | none =>
    -- No block of the class is free, so the pool holds what it held.
    have hsame (a) : p.held a = q.held a := by
      have := hheld a
      simpa [blocksAt] using this
    dsimp only
    split
    · rename_i b q' hcarve
      obtain ⟨hq', hb', hheld'⟩ := Pool.carve_spec hq (SizeClass.aligned_blockSize c) hcarve
      refine count_served hc (.ok b) q' h ⟨hq', hr.leftOver, hG, ⟨rfl, rfl, rfl, rfl, rfl⟩, ?_, ?_⟩
      · rintro _ ⟨⟩
        exact hb'
      · intro a
        have h₁ := hsame a
        have h₂ := hheld' a
        simp only [Except.toOption, Option.toList_some, blocksAt, List.map_cons, List.map_nil]
        omega
    · refine (hmore q hq).bind ?_
      rintro ⟨answer, q', h'⟩ hs
      apply count_served hc answer q' h' ⟨hs.pool, hs.leftOver, hs.global, hs.untouched, hs.block, ?_⟩
      intro a
      rw [hsame a]
      exact hs.balance a

end Heap

end AtomHeap
