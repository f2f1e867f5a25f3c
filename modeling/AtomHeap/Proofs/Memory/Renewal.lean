import AtomHeap.Proofs.Memory.Mirror
/-!
# A heap after a reset

When all chunks are given back, the local pools that are open survive. They are not asked to serve or take back
blocks again, but they are closed at some time, and closing one hands what it has to the heap. `Later` is all that
can follow: calls, none of them through a survivor, and survivors that are closed in between.

A survivor that still has a free block or some bump space brings these back, though they lie in no chunk. A bare
one brings nothing, and as long as only bare ones are closed, the heap is like a new one that got the same calls:
`reset_renews`.
-/

namespace AtomHeap.Heap

variable {limits limits' : Limits} {grants : Nat → Nat → Bool} {past : Past} {h h₀ h' g : Heap} {p : Pool}
  {out out' outg : List Region} {r q : Region} {id base : PoolId} {c : Nat} {from? : Option PoolId}

/-! ## Calls since some moment -/

/-- What callers ask of a heap. A local pool is named by how many were opened before it since some moment, and a
block by its place among those that are handed out. -/
inductive Call
  | openPool
  | closePool (id : PoolId)
  | setHook (hook : String)
  | collect
  | alloc (from? : Option PoolId) (size : Nat)
  | free (into? : Option PoolId) (place size : Nat)

variable {calls : List Call} {gone : List PoolId}

/-- A call to a heap that had opened `base` local pools at that moment. -/
inductive Made (base : PoolId) (h : Heap) (out : List Region) : Call → Heap → List Region → Prop
  | openPool : Made base h out .openPool h.openPool.2 out
  | closePool {h' : Heap} {id : PoolId} :
      h.HasPool (some (base + id)) → h.closePool (base + id) = .ok h' → Made base h out (.closePool id) h' out
  | setHook (hook : String) : Made base h out (.setHook hook) (h.setHook hook) out
  | collect : Made base h out .collect { h with refusals := [] } out
  | alloc {h' : Heap} {from? : Option PoolId} {size : Nat} {answer : Except AllocError Address} :
      h.HasPool (from?.map (base + ·)) → h.alloc (from?.map (base + ·)) size = .ok (answer, h') →
      Made base h out (.alloc from? size) h' (handed size answer out)
  | free {h' : Heap} {into? : Option PoolId} {place size : Nat} {r : Region} :
      h.HasPool (into?.map (base + ·)) → out[place]? = some r → roundUp size = .ok r.length →
      h.free (into?.map (base + ·)) r.start size = .ok h' → Made base h out (.free into? place size) h' (out.eraseIdx place)

/-- What comes of a heap whose local pools do nothing any more until they are closed: `calls` were made since
then, and of the local pools that it had, `gone` were closed. -/
inductive Later (h₀ : Heap) : List Call → List PoolId → Heap → List Region → Prop
  | start : Later h₀ [] [] h₀ []
  | call {calls : List Call} {gone : List PoolId} {c : Call} {h h' : Heap} {out out' : List Region} :
      Later h₀ calls gone h out → Made h₀.nextPool h out c h' out' → Later h₀ (calls ++ [c]) gone h' out'
  | drop {calls : List Call} {gone : List PoolId} {id : PoolId} {h h' : Heap} {out : List Region} :
      Later h₀ calls gone h out → id < h₀.nextPool → h.closePool id = .ok h' → Later h₀ calls (gone ++ [id]) h' out

theorem Later.congr {h₁ : Heap} (hl : Later h₀ calls gone h out) (he : h₁ = h₀) : Later h₁ calls gone h out := he ▸ hl

/-- A call is a request, but for the order of the blocks. -/
theorem Made.request {c : Call} (hm : Made base h out c h' out') :
    ∃ out'', Request h out h' out'' ∧ out''.Perm out' := by
  cases hm with
  | openPool => exact ⟨_, .openPool, .refl _⟩
  | closePool hid hclose => exact ⟨_, .closePool hid hclose, .refl _⟩
  | setHook hook => exact ⟨_, .setHook hook, .refl _⟩
  | collect => exact ⟨_, .collect, .refl _⟩
  | alloc hfrom halloc => exact ⟨_, .of_alloc hfrom halloc, .refl _⟩
  | @free h' into? place size r hinto hplace hround hfree =>
    have hmem : r ∈ out := List.mem_of_getElem? hplace
    obtain ⟨hlt, hget⟩ := List.getElem?_eq_some_iff.1 hplace
    have hperm : (r :: out.eraseIdx place).Perm out := hget ▸ List.getElem_cons_eraseIdx_perm hlt
    exact ⟨_, .freed hinto hmem hround hfree, ((hperm.trans (List.perm_cons_erase hmem)).cons_inv).symm⟩

/-- No call works on a pool from before. -/
theorem Made.lookup {c : Call} (hm : Made base h out c h' out') (hs : Shaped limits h) (hbase : base ≤ h.nextPool)
    (hid : id < base) : h'.locals.lookup id = h.locals.lookup id := by
  have hne (i : PoolId) : id ≠ base + i := Nat.ne_of_lt (Nat.lt_add_right i hid)
  have hother (from? : Option PoolId) : from?.map (base + ·) ≠ some id := by
    cases from? with
    | none => exact nofun
    | some i => exact fun he => hne i (Option.some.inj he).symm
  cases hm with
  | openPool => exact openPool_lookup (Nat.ne_of_lt (Nat.lt_of_lt_of_le hid hbase))
  | closePool _ hclose => rw [closePool_lookup hs.ids hclose, if_neg (hne _)]
  | setHook _ => rfl
  | collect => rfl
  | alloc _ halloc => exact alloc_lookup halloc fun he => absurd he (hother _)
  | free _ _ hround hfree => exact free_lookup hround hfree fun he => absurd he (hother _)

/-! ## Calls to heaps that are alike -/

/-- A new heap, to which the system answers as to this one from now on. -/
def anew (h : Heap) : Heap :=
  { Heap.empty h.limits (fun n => h.grants (h.asked + n)) with hook := h.hook }

namespace Resembles

theorem hasPool (hr : Resembles past h g) (hh : h.HasPool (from?.map (past.pools + ·))) : g.HasPool from? := by
  rintro i rfl
  obtain ⟨p, hp⟩ := lookup_isSome (hh (past.pools + i) rfl)
  have hi := hr.locals i
  rw [hp] at hi
  cases hq : g.locals.lookup i with
  | none =>
    rw [hq] at hi
    cases hi
  | some q => exact List.mem_map_of_mem ((perm_takeOut hq).symm.subset (.head _))

/-- A new heap answers the same call alike. -/
theorem made {c : Call} (hr : Resembles past h g) (hs : Shaped limits h) (hs' : Shaped limits' g)
    (hm : Made past.pools h (outg.map past.region) c h' out') :
    ∃ g' outg', Made 0 g outg c g' outg' ∧ Resembles past h' g' ∧ out' = outg'.map past.region := by
  have hzero (from? : Option PoolId) : from?.map (0 + ·) = from? := by
    cases from? <;> simp
  cases hm with
  | openPool => exact ⟨_, _, .openPool, hr.openPool, rfl⟩
  | @closePool _ id hid hclose =>
    obtain ⟨g', hclose', hr'⟩ := (hr.closePool hs hs' id).exists_ok hclose
    have hid' : g.HasPool ((some id).map (0 + ·)) := by
      rw [hzero]
      exact hr.hasPool hid
    exact ⟨g', _, .closePool hid' (by rwa [Nat.zero_add]), hr', rfl⟩
  | setHook hook => exact ⟨_, _, .setHook hook, ⟨{ hr.twin with hook := rfl }, hr.locals⟩, rfl⟩
  | collect => exact ⟨_, _, .collect, ⟨{ hr.twin with }, hr.locals⟩, rfl⟩
  | @alloc _ from? size _ hfrom halloc =>
    obtain ⟨⟨answer, g'⟩, halloc', rfl, hr'⟩ := (hr.alloc from? size).exists_ok halloc
    have hfrom' := hr.hasPool hfrom
    refine ⟨g', _, .alloc (by rwa [hzero]) (by rwa [hzero]), hr', ?_⟩
    unfold handed
    cases answer <;> cases roundUp size <;> rfl
  | @free _ into? place size _ hinto hplace hround hfree =>
    rw [List.getElem?_map, Option.map_eq_some_iff] at hplace
    obtain ⟨r, hplace, rfl⟩ := hplace
    obtain ⟨g', hfree', hr'⟩ := (hr.free into? r.start size).exists_ok hfree
    have hinto' := hr.hasPool hinto
    refine ⟨g', _, .free (by rwa [hzero]) hplace hround (by rwa [hzero]), hr', ?_⟩
    rw [List.eraseIdx_map]

/-- Chunks that were given back leave a heap like a new one, with local pools of before. -/
theorem reset (hs : Shaped limits h) : Resembles h.destroyAll.past h.destroyAll h.destroyAll.anew where
  twin :=
    { limits := rfl
      grants := fun _ => rfl
      asked := rfl
      hook := rfl
      global := by
        have hglobal : h.destroyAll.global = Pool.empty h.limits.allocFast := reset_eq hs.global
        exact hglobal ▸ .empty _
      nextPool := rfl
      leftOver := rfl
      firstCarving := rfl
      carving := rfl
      big := by
        simp only [Heap.past, destroyAll, anew, Heap.empty, Array.size_map, Array.append_empty]
        exact Array.map_const'
      reserved := rfl
      bytesInUse := rfl }
  locals i := by
    have hnone : h.destroyAll.locals.lookup (h.destroyAll.past.pools + i) = none := by
      rw [List.lookup_eq_none_iff]
      intro x hx
      have hlt : x.1 < h.nextPool := hs.fresh x hx
      exact bne_iff_ne.2 (Nat.ne_of_gt (Nat.lt_add_right i hlt))
    rw [hnone]
    exact .none

end Resembles

/-! ## What follows a reset -/

/-- What is known of a heap after a reset, in terms of a new one that got the same calls. -/
structure Renews (limits : Limits) (h₀ : Heap) (calls : List Call) (gone : List PoolId) (h : Heap) (out : List Region)
    (g : Heap) (outg : List Region) : Prop where
  shaped : Shaped limits h
  later : Later h₀.anew calls [] g outg
  settled : Settled limits g outg
  resembles : Resembles h₀.past h g
  blocks : out = outg.map h₀.past.region
  survivors : ∀ id < h₀.nextPool, h.locals.lookup id = if id ∈ gone then none else h₀.locals.lookup id

theorem Renews.aligned (hr : Renews limits h₀ calls gone h out g outg) : ∀ r ∈ out, r.start.offset % alignment = 0 := by
  rw [hr.blocks]
  intro r hmem
  obtain ⟨q, hq, rfl⟩ := List.mem_map.1 hmem
  exact (hr.settled.owned.handed q hq).aligned

/-- As long as only bare survivors are closed, a heap is like a new one. -/
theorem Later.renews (hs : Shaped limits h) (hl : Later h.destroyAll calls gone h' out)
    (hbare : ∀ id ∈ gone, ∀ p, h.locals.lookup id = some p → p.Bare) :
    ∃ g outg, Renews limits h.destroyAll calls gone h' out g outg := by
  generalize hreset : h.destroyAll = h₀ at hl
  induction hl with
  | start =>
    subst hreset
    have hnew := settled_empty (fun n => h.grants (h.asked + n)) hs.chunkSize
    have hsettled : Settled limits h.destroyAll.anew [] :=
      hs.limits ▸ ⟨hnew.owned.withHook h.hook [], hnew.inUse⟩
    exact ⟨_, [], hs.destroyAll, .start, hsettled, .reset hs, rfl, fun _ _ => rfl⟩
  | @call calls gone c h₁ h₂ out₁ out₂ _ hm ih =>
    obtain ⟨g, outg, hr⟩ := ih hbare
    have hm' := hm
    rw [hr.blocks] at hm'
    obtain ⟨g', outg', hmade, hres, hout⟩ := hr.resembles.made hr.shaped hr.settled.owned.shaped hm'
    obtain ⟨_, hreq, -⟩ := hm.request
    obtain ⟨_, hreq', hperm⟩ := hmade.request
    have hbase : h₀.nextPool ≤ h₁.nextPool := hr.resembles.twin.nextPool ▸ Nat.le_add_right _ _
    refine ⟨g', outg', (hr.shaped.request hr.aligned hreq).1, hr.later.call hmade,
      (hr.settled.request hreq').perm hperm, hres, hout, fun id hid => ?_⟩
    rw [hm.lookup hr.shaped hbase hid]
    exact hr.survivors id hid
  | @drop calls gone id h₁ h₂ out₁ _ hid hclose ih =>
    obtain ⟨g, outg, hr⟩ := ih fun i hi => hbare i (List.mem_append_left _ hi)
    -- A survivor is closed once, and until then it is as it was.
    obtain ⟨p, hp, -⟩ := closePool_cases hclose
    have hsame := hr.survivors id hid
    rw [hp] at hsame
    have hbefore : h.locals.lookup id = some p := by
      subst hreset
      exact (Option.ite_none_left_eq_some.1 hsame.symm).2
    have hp_bare := hbare id (List.mem_append_right _ (List.mem_singleton_self id)) p hbefore
    refine ⟨g, outg, hr.shaped.closePool hclose, hr.later, hr.settled,
      hr.resembles.drop hr.shaped hid hp hp_bare hclose, hr.blocks, fun i hi => ?_⟩
    rw [closePool_lookup hr.shaped.ids hclose, hr.survivors i hi]
    simp only [List.mem_append, List.mem_singleton]
    grind

/-- What a heap is like after a reset, where `calls` were made since and callers have the blocks `out`. -/
structure Renewed (h₀ : Heap) (calls : List Call) (h : Heap) (out : List Region) : Prop where
  /-- No block lies in a chunk from before. -/
  new_chunk : ∀ r ∈ out, (∃ n, h₀.firstCarving ≤ n ∧ r.start.chunk = .carving n) ∨
    ∃ n, h₀.big.size ≤ n ∧ r.start.chunk = .big n
  inside : ∀ r ∈ out, ∃ length, h.chunkLength? r.start.chunk = some length ∧ r.start.offset + r.length ≤ length
  apart : out.Pairwise Region.Apart
  /-- A new heap that gets the same calls answers them alike, and has the same figures. -/
  like_new : ∃ g outg, Later h₀.anew calls [] g outg ∧ out = outg.map h₀.past.region ∧
    h.bytesInUse = g.bytesInUse ∧ h.reserved = g.reserved ∧ h.chunkCount = g.chunkCount ∧
    ∀ c, h.globalFreeCount c = g.globalFreeCount c

theorem Twin.chunkCount (ht : Twin past h g) : h.chunkCount = g.chunkCount := by
  unfold Heap.chunkCount
  rw [ht.carving, ht.big, Array.countP_append]
  simp

theorem apart_later (hrq : r.Apart q) : (past.region r).Apart (past.region q) := by
  intro a ha
  obtain ⟨hr, hq⟩ := ha
  rw [Region.covers_iff] at hr hq
  have hchunk : q.start.chunk = r.start.chunk := Past.chunk_injective (hq.1.trans hr.1.symm)
  exact hrq ⟨r.start.chunk, a.offset⟩ ⟨Region.covers_iff.2 ⟨rfl, hr.2⟩, Region.covers_iff.2 ⟨hchunk, hq.2⟩⟩

/-- Whatever was done with a heap of an accepted configuration before all its chunks were given back, and whatever
is done with it afterwards, but not through the local pools that survived: if those of them that are closed have no
free block and no bump space left, the heap is like a new one. -/
theorem reset_renews {c : Config} (hc : c.check = .ok ()) (hh : History c.limits grants h out)
    (hl : Later h.destroyAll calls gone h' out')
    (hbare : ∀ id ∈ gone, ∀ p, h.pool id = .ok p → p.Bare) : Renewed h.destroyAll calls h' out' := by
  have hs := (hh.shaped (chunkSize_aligned hc)).1
  obtain ⟨g, outg, hr⟩ := hl.renews hs fun id hid p hp => hbare id hid p (pool_eq_ok_iff.2 hp)
  have hparts := hr.settled.owned.partitioned
  refine ⟨fun r hmem => ?_, fun r hmem => ?_, ?_, g, outg, hr.later, hr.blocks, hr.resembles.twin.bytesInUse,
    hr.resembles.twin.reserved, hr.resembles.twin.chunkCount, hr.resembles.twin.global.freeCount⟩
  · rw [hr.blocks] at hmem
    obtain ⟨q, hq, rfl⟩ := List.mem_map.1 hmem
    rcases hparts.big q hq with ⟨n, hn⟩ | ⟨n, hn, -⟩
    · refine .inl ⟨h.destroyAll.past.carved + n, Nat.le_add_right_of_le (Nat.le_add_right _ _), ?_⟩
      simp only [Past.region, Past.address, hn, Past.chunk]
    · refine .inr ⟨h.destroyAll.past.big + n, Nat.le_add_right _ _, ?_⟩
      simp only [Past.region, Past.address, hn, Past.chunk, ChunkId.start]
  · rw [hr.blocks] at hmem
    obtain ⟨q, hq, rfl⟩ := List.mem_map.1 hmem
    obtain ⟨length, hlen, hle⟩ := hparts.inside q hq
    exact ⟨length, (hr.resembles.twin.chunkLength q.start.chunk).trans hlen, hle⟩
  · rw [hr.blocks]
    exact hparts.apart.map _ fun _ _ => apart_later

/-- A survivor is closed in which there is nothing left, and another one has a free block and is left alone. -/
theorem reset_renews_bare :
    ∃ h out h', History ⟨32, 48, 2⟩ (fun _ _ => true) h out ∧
      Later h.destroyAll [.alloc none 16] [0] h' [⟨⟨.carving 2, 0⟩, 16⟩] ∧
      Renewed h.destroyAll [.alloc none 16] h' [⟨⟨.carving 2, 0⟩, 16⟩] := by
  have opened := (@History.start ⟨32, 48, 2⟩ fun _ _ => true).request .openPool
  have both := opened.request .openPool
  have one := both.request (.served (by rintro _ ⟨⟩; exact .tail _ (.head _)) (rfl : alloc _ (some 0) 32 = _) rfl)
  have two := one.request (.served (by rintro _ ⟨⟩; exact .head _) (rfl : alloc _ (some 0) 16 = _) rfl)
  have other := two.request (.served (by rintro _ ⟨⟩; exact .tail _ (.head _)) (rfl : alloc _ (some 1) 16 = _) rfl)
  have freed := other.request
    (.freed (by rintro _ ⟨⟩; exact .head _) (.head _) (rfl : roundUp 16 = _) (rfl : free _ (some 1) _ _ = _))
  have hreset := (freed.shaped rfl).1.destroyAll_eq
  have renewed := (congrArg (fun h₀ => Later h₀ [] [] h₀ []) hreset).mp .start
  have served := renewed.call (c := .alloc none 16) (.alloc (hasPool_none _) (rfl : alloc _ none 16 = _))
  have dropped := served.drop (by decide) (rfl : closePool _ 0 = _)
  have later := dropped.congr hreset
  refine ⟨_, _, _, freed, later,
    reset_renews (c := { allocFast := 32, chunkSize := 48, localFreeMax := 2 }) rfl freed later ?_⟩
  rintro _ (_ | _) p hp
  · cases hp
    exact ⟨by decide, by decide⟩
  · contradiction

/-! ## A survivor that has free blocks -/

theorem Later.eq_start (hl : Later h₀ [] [] h out) : h = h₀ := by
  generalize hcalls : ([] : List Call) = calls at hl
  generalize hgone : ([] : List PoolId) = gone at hl
  cases hl with
  | start => rfl
  | call => simp at hcalls
  | drop => simp at hgone

/-- The blocks of a survivor become free blocks of the heap, though they lie in no chunk. -/
theorem Shaped.freeCount_of_survivor (hs : Shaped limits h) (hp : h.pool id = .ok p)
    (hclose : h.destroyAll.closePool id = .ok h') (hc : c < SizeClass.count limits.allocFast) :
    h'.globalFreeCount c = .ok (p.listed c) := by
  have hs₀ := hs.destroyAll
  have hs' := hs₀.closePool hclose
  refine (Pool.freeCount_eq hs'.global (hs'.limits ▸ hc)).trans (congrArg _ ?_)
  have hlookup : h.destroyAll.locals.lookup id = some p := pool_eq_ok_iff.1 hp
  obtain ⟨p', hp', rfl⟩ := closePool_cases hclose
  cases hlookup.symm.trans hp'
  have hnothing : h.destroyAll.global.listed c = 0 := by
    rw [hs.destroyAll_eq]
    exact Pool.listed_empty _ _
  have hsound := (Pool.takeSpace_spec (hs₀.sound_of_lookup hlookup)).1
  exact (Pool.listed_merge hsound hs₀.global c).trans (by rw [Pool.listed_takeSpace, hnothing, Nat.add_zero])

/-- A heap that closes a survivor with a free block is not like a new one. -/
theorem Shaped.not_renewed (hs : Shaped limits h) (hp : h.pool id = .ok p) (hclose : h.destroyAll.closePool id = .ok h')
    (hlisted : 0 < p.listed c) : ¬ Renewed h.destroyAll [] h' [] := by
  intro hr
  obtain ⟨g, outg, hl, -, -, -, -, hfree⟩ := hr.like_new
  cases hl.eq_start
  have hc : c < SizeClass.count limits.allocFast := by
    rw [← hs.limits, ← (hs.sound_of_lookup (pool_eq_ok_iff.1 hp)).size]
    exact Nat.lt_of_not_le fun hle => Nat.ne_of_gt hlisted (Pool.listed_eq_zero hle)
  have hnew : h.destroyAll.anew.globalFreeCount c = .ok 0 := by
    have hcount : c < SizeClass.count h.limits.allocFast := hs.limits ▸ hc
    exact (Pool.freeCount_eq (Pool.sound_empty _) hcount).trans (congrArg _ (Pool.listed_empty _ _))
  have hcount := hfree c
  rw [hs.freeCount_of_survivor hp hclose hc, hnew, Except.ok.injEq] at hcount
  exact Nat.ne_of_gt hlisted hcount

end AtomHeap.Heap
