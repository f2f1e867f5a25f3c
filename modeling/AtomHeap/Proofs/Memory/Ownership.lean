import AtomHeap.Memory.Free
import AtomHeap.Proofs.Memory.Serving
/-!
# Every byte has one owner

`Owned limits h out` is the invariant of a heap whose callers have the blocks `out`: each byte of each chunk
lies in exactly one block of `out`, free block, bump space or left-over region. Every request made
within the contract of `free` is answered and keeps it.
-/

namespace AtomHeap.Heap

variable {limits : Limits} {h h' : Heap} {p q : Pool} {out : List Region} {r : Region} {a : Address}
  {id : PoolId} {c size : Nat}

/-- A block in the hands of a caller: it serves some request, and lies in a carving chunk or is all
of a big one, as its length says. -/
structure Handed (h : Heap) (r : Region) : Prop where
  serves : ∃ size, roundUp size = .ok r.length
  aligned : r.start.offset % alignment = 0
  fast : r.length ≤ h.limits.allocFast → ∃ n, r.start.chunk = .carving n
  big : h.limits.allocFast < r.length →
    ∃ n, r.start = (ChunkId.big n).start ∧ h.chunkLength? (.big n) = some r.length

theorem Handed.pos (hr : Handed h r) : 0 < r.length := by
  obtain ⟨size, hsize⟩ := hr.serves
  exact pos_of_roundUp hsize

/-- The pools of a heap with these limits are sound and told apart, whoever owns its bytes. -/
structure Shaped (limits : Limits) (h : Heap) : Prop where
  limits : h.limits = limits
  chunkSize : h.limits.chunkSize % alignment = 0
  global : h.global.Sound h.limits.allocFast
  locals : ∀ x ∈ h.locals, x.2.Sound h.limits.allocFast
  ids : (h.locals.map (·.1)).Nodup
  fresh : ∀ x ∈ h.locals, x.1 < h.nextPool
  leftOver : ∀ r ∈ h.leftOver, r.Aligned

/-- The callers of a heap with these limits have the blocks `out`, and each byte has one owner. -/
structure Owned (limits : Limits) (h : Heap) (out : List Region) : Prop where
  limits : h.limits = limits
  chunkSize : h.limits.chunkSize % alignment = 0
  global : h.global.Sound h.limits.allocFast
  locals : ∀ x ∈ h.locals, x.2.Sound h.limits.allocFast
  ids : (h.locals.map (·.1)).Nodup
  fresh : ∀ x ∈ h.locals, x.1 < h.nextPool
  leftOver : ∀ r ∈ h.leftOver, r.Aligned
  bytes : ∀ a, coverage out a + h.held a = h.bytesAt a
  handed : ∀ r ∈ out, Handed h r
  big : ∀ n length, h.chunkLength? (.big n) = some length → ⟨(ChunkId.big n).start, length⟩ ∈ out

theorem Owned.shaped (ho : Owned limits h out) : Shaped limits h :=
  ⟨ho.limits, ho.chunkSize, ho.global, ho.locals, ho.ids, ho.fresh, ho.leftOver⟩

theorem Shaped.owned (hs : Shaped limits h) (hbytes : ∀ a, coverage out a + h.held a = h.bytesAt a)
    (hhanded : ∀ r ∈ out, Handed h r)
    (hbig : ∀ n length, h.chunkLength? (.big n) = some length → ⟨(ChunkId.big n).start, length⟩ ∈ out) :
    Owned limits h out :=
  ⟨hs.limits, hs.chunkSize, hs.global, hs.locals, hs.ids, hs.fresh, hs.leftOver, hbytes, hhanded, hbig⟩

/-- A byte in a chunk of the heap is covered by that chunk. -/
theorem bytesAt_pos (hb : 0 < h.bytesAt a) :
    ∃ length, h.chunkLength? a.chunk = some length ∧ a.offset < length := by
  unfold bytesAt at hb
  split at hb
  · rename_i hbyte
    simpa [hasByte, Option.any_eq_true] using hbyte
  · cases hb

theorem bytesAt_le_one (h : Heap) (a : Address) : h.bytesAt a ≤ 1 := by
  unfold bytesAt
  split <;> omega

/-- A block that no big block overlaps lies in a carving chunk. -/
theorem carving_of_bytes (hr : 0 < r.length)
    (hbytes : coverage [r] r.start + coverage out r.start ≤ h.bytesAt r.start)
    (hbig : ∀ n length, h.chunkLength? (.big n) = some length → ⟨(ChunkId.big n).start, length⟩ ∈ out) :
    ∃ n, r.start.chunk = .carving n := by
  have hone := coverage_pos_of_mem (List.mem_singleton_self r) (Region.covers_start hr)
  obtain ⟨length, hlen, hlt⟩ := bytesAt_pos (h := h) (a := r.start) (by omega)
  cases hc : r.start.chunk with
  | carving n => exact ⟨n, rfl⟩
  | nowhere =>
    rw [hc] at hlen
    cases hlen
  | big n =>
    rw [hc] at hlen
    -- The chunk is a block of a caller, and its first byte would be in two blocks.
    have hcov : (⟨(ChunkId.big n).start, length⟩ : Region).covers r.start = true :=
      Region.covers_iff.2 ⟨hc.symm, Nat.zero_le _, by simpa [ChunkId.start] using hlt⟩
    have hout := coverage_pos_of_mem (hbig n length hlen) hcov
    have := bytesAt_le_one h r.start
    omega

/-! ## Local pools -/

theorem heldByLocals_cons (x : PoolId × Pool) (locals : List (PoolId × Pool)) (a : Address) :
    heldByLocals (x :: locals) a = x.2.held a + heldByLocals locals a := by
  simp [heldByLocals]

theorem lookup_isSome {locals : List (PoolId × Pool)} (hid : id ∈ locals.map (·.1)) :
    ∃ p, locals.lookup id = some p := by
  induction locals with
  | nil => cases hid
  | cons x locals ih =>
    obtain ⟨i, p⟩ := x
    by_cases hi : id = i
    · exact ⟨p, by simp [hi]⟩
    · have hid' : id ∈ locals.map (·.1) := (List.mem_cons.1 hid).resolve_left hi
      simpa [List.lookup_cons, beq_eq_false_iff_ne.2 hi] using ih hid'

theorem pool_eq_ok_iff : h.pool id = .ok p ↔ h.locals.lookup id = some p := by
  unfold Heap.pool
  cases h.locals.lookup id <;> simp

/-- Taking a pool out of the list leaves the others. -/
theorem perm_takeOut {locals : List (PoolId × Pool)} (hp : locals.lookup id = some p) :
    locals.Perm ((id, p) :: locals.eraseP (·.1 == id)) := by
  induction locals with
  | nil => cases hp
  | cons x locals ih =>
    obtain ⟨i, q⟩ := x
    by_cases hi : id = i
    · subst hi
      simp only [List.lookup_cons, beq_self_eq_true, Option.some.injEq] at hp
      subst hp
      simp
    · have hne : (i == id) = false := beq_eq_false_iff_ne.2 fun e => hi e.symm
      rw [List.lookup_cons, beq_eq_false_iff_ne.2 hi] at hp
      rw [List.eraseP_cons_of_neg (by simp [hne])]
      exact ((ih hp).cons _).trans (.swap _ _ _)

theorem lookup_eraseP_of_ne {locals : List (PoolId × Pool)} {other : PoolId} (hne : other ≠ id) :
    (locals.eraseP (·.1 == id)).lookup other = locals.lookup other := by
  induction locals with
  | nil => rfl
  | cons x locals ih =>
    obtain ⟨i, p⟩ := x
    by_cases hi : i = id
    · subst hi
      simp [List.lookup_cons, beq_eq_false_iff_ne.2 hne]
    · simp [beq_eq_false_iff_ne.2 hi, List.lookup_cons, ih]

/-- A pool that is put back is found under its number, and the others as before. -/
theorem lookup_putBack {locals : List (PoolId × Pool)} (id other : PoolId) (q : Pool) :
    ((id, q) :: locals.eraseP (·.1 == id)).lookup other = if other = id then some q else locals.lookup other := by
  by_cases hid : other = id
  · simp [hid]
  · simp [List.lookup_cons, beq_eq_false_iff_ne.2 hid, hid, lookup_eraseP_of_ne hid]

theorem takeOut_spec (hid : id ∈ h.locals.map (·.1)) :
    ∃ p rest, h.takeOut id = .ok (p, { h with locals := rest }) ∧ h.locals.Perm ((id, p) :: rest) := by
  obtain ⟨p, hp⟩ := lookup_isSome hid
  exact ⟨p, _, by simp only [takeOut, Heap.pool, hp]; rfl, perm_takeOut hp⟩

theorem held_takeOut {rest : List (PoolId × Pool)} (hperm : h.locals.Perm ((id, p) :: rest)) (a : Address) :
    h.held a = p.held a + { h with locals := rest }.held a := by
  have hsum : heldByLocals h.locals a = p.held a + heldByLocals rest a := by
    rw [← heldByLocals_cons (id, p) rest a]
    exact (hperm.map _).sum_nat
  simp only [held, hsum]
  omega

theorem Shaped.sound_of_lookup (hs : Shaped limits h) (hp : h.locals.lookup id = some p) : p.Sound h.limits.allocFast :=
  hs.locals (id, p) ((perm_takeOut hp).symm.subset (.head _))

/-- A pool that was taken out and works is put back. -/
theorem Shaped.putBack {rest : List (PoolId × Pool)} (hs : Shaped limits h) (hperm : h.locals.Perm ((id, p) :: rest))
    (hlimits : h'.limits = h.limits) (hlocals : h'.locals = rest) (hnext : h'.nextPool = h.nextPool)
    (hglobal : h'.global.Sound h.limits.allocFast) (hq : q.Sound h.limits.allocFast)
    (hleft : ∀ r ∈ h'.leftOver, r.Aligned) : Shaped limits (h'.putBack id q) := by
  have hids := (hperm.map (·.1)).nodup_iff.1 hs.ids
  subst hlocals
  refine ⟨hlimits.trans hs.limits, ?_, ?_, ?_, hids, ?_, hleft⟩
  all_goals simp only [Heap.putBack, hlimits, hnext]
  · exact hs.chunkSize
  · exact hglobal
  · rintro x hx
    rcases List.mem_cons.1 hx with rfl | hx
    · exact hq
    · exact hs.locals x (hperm.symm.subset (.tail _ hx))
  · rintro x hx
    rcases List.mem_cons.1 hx with rfl | hx
    · exact hs.fresh (id, p) (hperm.symm.subset (.head _))
    · exact hs.fresh x (hperm.symm.subset (.tail _ hx))

/-- Of a heap that a request works on, only the shared pool and what is left over may be new. -/
theorem Shaped.of_untouched (hs : Shaped limits h) (hlimits : h'.limits = h.limits) (hlocals : h'.locals = h.locals)
    (hnext : h'.nextPool = h.nextPool) (hglobal : h'.global.Sound h.limits.allocFast)
    (hleft : ∀ r ∈ h'.leftOver, r.Aligned) : Shaped limits h' where
  limits := hlimits.trans hs.limits
  chunkSize := hlimits ▸ hs.chunkSize
  global := hlimits ▸ hglobal
  locals := hlimits ▸ hlocals ▸ hs.locals
  ids := hlocals ▸ hs.ids
  fresh := hnext ▸ hlocals ▸ hs.fresh
  leftOver := hleft

/-- Putting a pool back keeps the invariant, if together with the rest of the heap it has what it
has to have. -/
theorem Owned.putBack {out' : List Region} {rest : List (PoolId × Pool)} (ho : Owned limits h out)
    (hperm : h.locals.Perm ((id, p) :: rest)) (hlimits : h'.limits = h.limits) (hlocals : h'.locals = rest)
    (hnext : h'.nextPool = h.nextPool) (hglobal : h'.global.Sound h.limits.allocFast)
    (hq : q.Sound h.limits.allocFast) (hleft : ∀ r ∈ h'.leftOver, r.Aligned)
    (hbytes : ∀ a, coverage out' a + (q.held a + h'.held a) = h'.bytesAt a)
    (hhanded : ∀ r ∈ out', Handed h' r)
    (hbig : ∀ n length, h'.chunkLength? (.big n) = some length → ⟨(ChunkId.big n).start, length⟩ ∈ out') :
    Owned limits (h'.putBack id q) out' := by
  refine (ho.shaped.putBack hperm hlimits hlocals hnext hglobal hq hleft).owned (fun a => ?_) (fun r hr => ?_) hbig
  · have hheld : (h'.putBack id q).held a = q.held a + h'.held a := by
      simp only [held, Heap.putBack, heldByLocals_cons]
      omega
    rw [hheld]
    exact hbytes a
  · obtain ⟨hserves, haligned, hfast, hbig⟩ := hhanded r hr
    exact ⟨hserves, haligned, hfast, hbig⟩

theorem Owned.putGlobal {out' : List Region} (ho : Owned limits h out) (hlimits : h'.limits = h.limits)
    (hlocals : h'.locals = h.locals) (hnext : h'.nextPool = h.nextPool) (hq : q.Sound h.limits.allocFast)
    (hleft : ∀ r ∈ h'.leftOver, r.Aligned)
    (hbytes : ∀ a, coverage out' a + { h' with global := q }.held a = h'.bytesAt a)
    (hhanded : ∀ r ∈ out', Handed h' r)
    (hbig : ∀ n length, h'.chunkLength? (.big n) = some length → ⟨(ChunkId.big n).start, length⟩ ∈ out') :
    Owned limits { h' with global := q } out' := by
  have hs : Shaped limits { h' with global := q } := ho.shaped.of_untouched hlimits hlocals hnext hq hleft
  refine hs.owned hbytes (fun r hr => ?_) hbig
  obtain ⟨hserves, haligned, hfast, hbig⟩ := hhanded r hr
  exact ⟨hserves, haligned, hfast, hbig⟩

/-! ## Serving requests -/

theorem Handed.mono (hr : Handed h r) (hlimits : h'.limits = h.limits)
    (hbig : ∀ n length, h.chunkLength? (.big n) = some length → h'.chunkLength? (.big n) = some length) :
    Handed h' r where
  serves := hr.serves
  aligned := hr.aligned
  fast hle := hr.fast (hlimits ▸ hle)
  big hlt := by
    obtain ⟨n, hstart, hlen⟩ := hr.big (hlimits ▸ hlt)
    exact ⟨n, hstart, hbig n _ hlen⟩

/-- A block of a size class that was served is in the hands of the caller. -/
theorem Owned.handed_served (ho : Owned limits h out) (hlimits : h'.limits = h.limits)
    (hsame : h'.big = h.big)
    {answer : Except AllocError Address} (hblock : ∀ b, answer = .ok b → b.offset % alignment = 0)
    (hround : roundUp size = .ok (SizeClass.blockSize c)) (hfast : SizeClass.blockSize c ≤ h.limits.allocFast)
    (hbytes : ∀ a, coverage (blocksAt c answer.toOption.toList ++ out) a ≤ h'.bytesAt a) :
    ∀ r ∈ blocksAt c answer.toOption.toList ++ out, Handed h' r := by
  have hkeep : ∀ n length, h.chunkLength? (.big n) = some length → h'.chunkLength? (.big n) = some length := by
    intro n length hlen
    rw [← hlen]
    simp [chunkLength?, hsame]
  have hback : ∀ n length, h'.chunkLength? (.big n) = some length → ⟨(ChunkId.big n).start, length⟩ ∈ out := by
    intro n length hlen
    apply ho.big n length
    rw [← hlen]
    simp [chunkLength?, hsame]
  intro r hr
  rcases List.mem_append.1 hr with hr | hr
  · cases answer with
    | error e => cases hr
    | ok b =>
      simp only [Except.toOption, Option.toList_some, blocksAt, List.map_cons, List.map_nil,
        List.mem_singleton] at hr
      subst hr
      refine ⟨⟨size, hround⟩, hblock b rfl, ?_, ?_⟩
      · intro _
        have hb := hbytes b
        rw [coverage_append] at hb
        exact carving_of_bytes (pos_of_roundUp hround) hb hback
      · intro hlt
        rw [hlimits] at hlt
        exact absurd hlt (Nat.not_lt.2 hfast)
  · exact (ho.handed r hr).mono hlimits hkeep

/-- A big block has no pool. -/
theorem alloc_of_big {from? : Option PoolId} (hclass : SizeClass.ofSize size h.limits.allocFast = .ok .big) :
    h.alloc from? size = h.allocBig size := by
  cases from? <;> simp only [Heap.alloc, allocLocal, allocGlobal, hclass]

/-- The specification of `alloc` for a fast request through a local pool. -/
theorem Owned.allocLocal_fast (ho : Owned limits h out) (hid : id ∈ h.locals.map (·.1))
    (hclass : SizeClass.ofSize size h.limits.allocFast = .ok (.fast c)) :
    Ends (h.allocLocal id size) (h.hook = none) fun (answer, h') =>
      Owned limits h' (blocksAt c answer.toOption.toList ++ out) := by
  obtain ⟨hround, hfast, hc⟩ := SizeClass.ofSize_eq_fast hclass
  obtain ⟨p, rest, htake, hperm⟩ := takeOut_spec hid
  have hp : p.Sound h.limits.allocFast := ho.locals (id, p) (hperm.symm.subset (.head _))
  have hready : { h with locals := rest }.Ready := ⟨ho.chunkSize, ho.leftOver⟩
  simp only [allocLocal, hclass, htake, bind, Except.bind]
  refine (serve_ends (h := { h with locals := rest }) (G := fun _ g' => g'.Sound h.limits.allocFast) ho.global
    hready hp hc fun q hq => refill_ends hready hq ho.global hc).bind ?_
  rintro ⟨answer, q, h'⟩ hs
  -- While the pool serves it is out of the heap, so the balance is over both.
  have hbytes : ∀ a, coverage (blocksAt c answer.toOption.toList ++ out) a + (q.held a + h'.held a) =
      h'.bytesAt a := by
    intro a
    have h₁ := ho.bytes a
    have h₂ := held_takeOut hperm a
    have h₃ := hs.balance a
    have h₄ : { h with locals := rest }.bytesAt a = h.bytesAt a := rfl
    rw [coverage_append]
    omega
  refine .ok (ho.putBack hperm hs.untouched.limits hs.untouched.locals hs.untouched.nextPool hs.global hs.pool
    hs.leftOver hbytes ?_ ?_)
  · exact ho.handed_served hs.untouched.limits hs.untouched.big hs.block hround hfast fun a =>
      Nat.le.intro (hbytes a)
  · intro n length hlen
    refine List.mem_append_right _ (ho.big n length ?_)
    rw [← hlen]
    simp [chunkLength?, hs.untouched.big]

/-- The specification of `alloc` for a fast request through the shared pool. -/
theorem Owned.allocGlobal_fast (ho : Owned limits h out)
    (hclass : SizeClass.ofSize size h.limits.allocFast = .ok (.fast c)) :
    Ends (h.allocGlobal size) (h.hook = none) fun (answer, h') =>
      Owned limits h' (blocksAt c answer.toOption.toList ++ out) := by
  obtain ⟨hround, hfast, hc⟩ := SizeClass.ofSize_eq_fast hclass
  have hready : { h with global := { shelves := #[] } }.Ready := ⟨ho.chunkSize, ho.leftOver⟩
  simp only [allocGlobal, hclass, takeGlobal]
  refine (serve_ends (h := { h with global := { shelves := #[] } }) (G := fun g g' => g' = g) rfl hready
    ho.global hc fun q hq => carveAnew_ends hready hq c).bind ?_
  rintro ⟨answer, q, h'⟩ hs
  have hlocals : heldByLocals h'.locals = heldByLocals h.locals := congrArg _ hs.untouched.locals
  -- While the shared pool serves, an empty one stands in its place.
  have hbytes : ∀ a, coverage (blocksAt c answer.toOption.toList ++ out) a + { h' with global := q }.held a =
      h'.bytesAt a := by
    intro a
    have h₁ := ho.bytes a
    have h₂ := hs.balance a
    have h₃ : { h with global := { shelves := #[] } }.bytesAt a = h.bytesAt a := rfl
    have h₄ : Pool.held { shelves := #[] } a = 0 := rfl
    simp only [held, hs.global, hlocals, coverage_append, h₃, h₄] at *
    omega
  refine .ok (ho.putGlobal hs.untouched.limits hs.untouched.locals hs.untouched.nextPool hs.pool hs.leftOver
    hbytes ?_ ?_)
  · exact ho.handed_served hs.untouched.limits hs.untouched.big hs.block hround hfast fun a =>
      Nat.le.intro (hbytes a)
  · intro n length hlen
    refine List.mem_append_right _ (ho.big n length ?_)
    rw [← hlen]
    simp [chunkLength?, hs.untouched.big]

theorem Owned.allocBig_ends {rounded : Nat} (ho : Owned limits h out) (hround : roundUp size = .ok rounded)
    (hbig : h.limits.allocFast < rounded) :
    Ends (h.allocBig size) (h.hook = none) fun (answer, h') =>
      Owned limits h' (answer.toOption.toList.map (⟨·, rounded⟩) ++ out) := by
  simp only [allocBig, hround]
  refine (obtain_ends h rounded).bind ?_
  rintro ⟨answer, h'⟩ ⟨asked, reserved, refusals, rfl⟩
  cases answer with
  | error e => exact .ok ⟨ho.limits, ho.chunkSize, ho.global, ho.locals, ho.ids, ho.fresh, ho.leftOver, ho.bytes,
      fun r hr => (ho.handed r hr).mono rfl fun n length hlen => hlen, ho.big⟩
  | ok _ =>
    have hchunk (n : Nat) :
        chunkLength? { h with asked, reserved, refusals, big := h.big.push (some rounded) } (.big n) =
          if n = h.big.size then some rounded else h.chunkLength? (.big n) := by
      by_cases hn : n = h.big.size
      · simp [chunkLength?, hn]
      · simp [chunkLength?, Array.getElem?_push, hn]
    -- The chunk has a number that none had before it.
    have hkeep : ∀ n length, h.chunkLength? (.big n) = some length →
        chunkLength? { h with asked, reserved, refusals, big := h.big.push (some rounded) } (.big n) =
          some length := by
      intro n length hlen
      have hn : n ≠ h.big.size := by
        rintro rfl
        simp [chunkLength?] at hlen
      rw [hchunk, if_neg hn, hlen]
    refine .ok ⟨ho.limits, ho.chunkSize, ho.global, ho.locals, ho.ids, ho.fresh, ho.leftOver, ?_, ?_, ?_⟩
    · intro a
      have h₁ := ho.bytes a
      have h₂ := bytesAt_pushBig h rounded a
      simp only [Except.toOption, Option.toList_some, List.map_cons, List.map_nil, List.singleton_append]
      rw [coverage_cons]
      change coverage [⟨(ChunkId.big h.big.size).start, rounded⟩] a + coverage out a + h.held a =
        { h with big := h.big.push (some rounded) }.bytesAt a
      omega
    · intro r hr
      rcases List.mem_cons.1 hr with rfl | hr
      · refine ⟨⟨size, hround⟩, rfl, fun hle => absurd hle (Nat.not_le.2 hbig), fun _ => ⟨_, rfl, ?_⟩⟩
        exact (hchunk _).trans (if_pos rfl)
      · exact (ho.handed r hr).mono rfl hkeep
    · intro n length hlen
      have hn := (hchunk n).symm.trans hlen
      split at hn
      · rename_i he
        subst he
        cases hn
        exact .head _
      · exact .tail _ (ho.big n length hn)

theorem Owned.alloc_ends (ho : Owned limits h out) {from? : Option PoolId}
    (hfrom : ∀ id ∈ from?, id ∈ h.locals.map (·.1))
    (size : Nat) :
    Ends (h.alloc from? size) (h.hook = none) fun (answer, h') =>
      ∃ blocks, Owned limits h' (blocks ++ out) ∧
        match answer with
        | .ok b => ∃ rounded, roundUp size = .ok rounded ∧ blocks = [⟨b, rounded⟩]
        | .error _ => blocks = [] := by
  cases hclass : SizeClass.ofSize size h.limits.allocFast with
  | error e =>
    have hrefused : h.alloc from? size = .ok (.error e, h) := by
      cases from? <;> simp only [Heap.alloc, allocLocal, allocGlobal, hclass]
    rw [hrefused]
    exact .ok ⟨[], ho, rfl⟩
  | ok k =>
    cases k with
    | fast c =>
      obtain ⟨hround, -, -⟩ := SizeClass.ofSize_eq_fast hclass
      have hends : Ends (h.alloc from? size) (h.hook = none) fun (answer, h') =>
          Owned limits h' (blocksAt c answer.toOption.toList ++ out) := by
        cases from? with
        | none => exact ho.allocGlobal_fast hclass
        | some id => exact ho.allocLocal_fast (hfrom id rfl) hclass
      apply hends.mono
      rintro ⟨answer, h'⟩ hh
      refine ⟨_, hh, ?_⟩
      cases answer with
      | error e => rfl
      | ok b => exact ⟨_, hround, rfl⟩
    | big =>
      obtain ⟨rounded, hround, hbig⟩ := SizeClass.ofSize_eq_big hclass
      rw [alloc_of_big hclass]
      refine (ho.allocBig_ends hround hbig).mono ?_
      rintro ⟨answer, h'⟩ hh
      refine ⟨_, hh, ?_⟩
      cases answer with
      | error e => rfl
      | ok b => exact ⟨_, hround, rfl⟩

end AtomHeap.Heap
