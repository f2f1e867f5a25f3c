import AtomHeap.Proofs.Memory.Requests
import AtomHeap.Proofs.Store.Represented
import AtomHeap.Proofs.Table.Blocks
import AtomHeap.Proofs.Table.Links
/-!
# A store among the other users of its heap

A `Tenancy` is a store with the blocks that the other users of its heap have, and the bytes of memory.
Its steps are those of the store and, in between, whatever the others do: they open and close pools of
their own, allocate, free what is theirs, and write where nothing is theirs but is not the store's
either. `Tenancy.Sound` is what all of these keep: the blocks of all copies and those of the others
together are the blocks handed out, and each copy is in its block.
-/

namespace AtomHeap

open Heap (Settled Request Requests SamePools HasPool)

/-- The bytes of memory. -/
abbrev Memory := Address → UInt8

/-- The bytes of a copy are in its block. -/
def Payload.Reads (memory : Memory) (p : Payload) : Prop :=
  ∀ b bytes, p = .pooled b bytes → ∀ k byte, bytes[k]? = some byte → memory (b.advance k) = byte

/-- The blocks of the copy, if there is one. -/
def Payload.regions (p : Payload) : List Region := p.block?.toList.map Region.ofBlock

/-- New copies are written to their blocks, and nothing is written elsewhere. -/
structure Table.Copied (t t' : Table) (memory memory' : Memory) : Prop where
  written : ∀ i e, t.entryAt? i = none → t'.entryAt? i = some e → e.payload.Reads memory'
  kept : ∀ a, memory' a ≠ memory a → ∃ i e b bytes, t.entryAt? i = none ∧ t'.entryAt? i = some e ∧
    e.payload = .pooled b bytes ∧ (⟨b, bytes.length⟩ : Region).covers a

/-- A store, and what the heap is used for besides. -/
structure Tenancy where
  store : Store
  /-- The blocks that the other users of the heap have. -/
  others : List Region
  memory : Memory

namespace Tenancy

open Store

/-- Steps of a store and of the other users of its heap. -/
inductive Step (spans : Span → Prop) : Tenancy → List Event → Tenancy → Prop
  | interned {s s' : Store} {others : List Region} {memory memory' : Memory} {span : Span} {lasting : Bool}
      {blob : BlobId} {i : Interned} :
      spans span → s.internLocked span lasting blob = .ok (.ok i, s') →
      Table.Copied s.table s'.table memory memory' →
      Step spans ⟨s, others, memory⟩ [if i.isNew then .made i.atom else .found i.atom] ⟨s', others, memory'⟩
  | refused {s s' : Store} {others : List Region} {memory : Memory} {span : Span} {lasting : Bool} {blob : BlobId}
      {e : AtomError} :
      spans span → s.internLocked span lasting blob = .ok (.error e, s') →
      Step spans ⟨s, others, memory⟩ [] ⟨s', others, memory⟩
  /-- The other calls leave the heap alone. -/
  | called {s s' : Store} {others : List Region} {memory : Memory} {events : List Event} :
      Call spans s events s' → s'.heap = s.heap → (∀ a, Event.made a ∉ events) →
      Step spans ⟨s, others, memory⟩ events ⟨s', others, memory⟩
  | moved {s s' : Store} {others : List Region} {memory : Memory} {events : List Event} :
      Move s events s' → Step spans ⟨s, others, memory⟩ events ⟨s', others, memory⟩
  /-- Others make a request. The pool of the table is not theirs to close. -/
  | requested {s : Store} {others others' : List Region} {memory : Memory} {heap : Heap} (calls : Array HookCall) :
      Request s.heap others heap others' → heap.HasPool (some s.table.pool) →
      Step spans ⟨s, others, memory⟩ [] ⟨{ s with heap, calls }, others', memory⟩
  /-- Others write to their blocks, the heap to its free memory, and the system to its own. -/
  | wrote {s : Store} {others : List Region} {memory memory' : Memory} :
      (∀ a, memory' a ≠ memory a → 0 < coverage others a + s.heap.held a ∨ s.heap.bytesAt a = 0) →
      Step spans ⟨s, others, memory⟩ [] ⟨s, others, memory'⟩

/-- Sequences of steps, with what happened to atoms on the way, the latest step first. -/
inductive Run (spans : Span → Prop) (x₀ : Tenancy) : List Event → Tenancy → Prop
  | start : Run spans x₀ [] x₀
  | step {x x' : Tenancy} {events events' : List Event} :
      Run spans x₀ events x → Step spans x events' x' → Run spans x₀ (events' ++ events) x'

/-- The blocks that the heap has handed out. -/
def handed (x : Tenancy) : List Region := x.store.table.regions ++ x.others

/-- What all steps keep. -/
structure Sound (buckets : Nat) (limits : Limits) (x : Tenancy) : Prop where
  table : x.store.table.Sound buckets 0
  heap : Settled limits x.store.heap x.handed
  pool : x.store.heap.HasPool (some x.store.table.pool)
  reads : ∀ i e, x.store.table.entryAt? i = some e → e.payload.Reads x.memory

variable {spans : Span → Prop} {x x' x₀ : Tenancy} {events : List Event}

/-- What happens to a store among others is a run of the store. -/
theorem Step.run (h : Step spans x events x') : Store.Run spans x.store events x'.store := by
  have hstart : Store.Run spans x.store [] x.store := .start
  cases h with
  | interned hspan hintern =>
    have := hstart.call (.intern hspan hintern)
    rwa [List.append_nil] at this
  | refused hspan hintern => exact hstart.call (.internRefused hspan hintern)
  | called hcall =>
    have := hstart.call hcall
    rwa [List.append_nil] at this
  | moved hmove =>
    have := hstart.move hmove
    rwa [List.append_nil] at this
  | requested calls _ _ => exact hstart.call (.other _ calls)
  | wrote _ => exact hstart

theorem Run.run (h : Run spans x₀ events x) : Store.Run spans x₀.store events x.store := by
  induction h with
  | start => exact .start
  | step _ hstep ih => exact ih.trans hstep.run

end Tenancy

namespace Store

variable {spans : Span → Prop} {events : List Event} {buckets : Nat} {limits : Limits} {s s' : Store}
  {out : List Region} {span : Span} {lasting : Bool} {blob : BlobId} {type : BlobType}

/-! ## What interning does to the heap -/

theorem logRefusals_heap (s : Store) : s.logRefusals.heap = { s.heap with refusals := [] } := by
  rw [logRefusals_eq]

/-- The blocks that a new payload fills. -/
def newRegions : Except AtomError Payload → List Region
  | .ok p => p.regions
  | .error _ => []

/-- A copy takes a request for its block, after which refusals are collected. -/
theorem payloadFor_requests {r : Except AtomError Payload}
    (h : s.payloadFor type span lasting = .ok (r, s')) (out : List Region) :
    ∃ n ≤ 2, Requests n s.heap out s'.heap (newRegions r ++ out) ∧ SamePools s.heap s'.heap := by
  cases payloadFor_eq_ok_iff.1 h with
  | kept | fleeting | empty => exact ⟨0, Nat.zero_le _, .refl _ _, .refl _⟩
  | @copied block heap used _ _ hserve _ =>
    have hsame : SamePools s.heap heap := Heap.alloc_pools hserve
    obtain ⟨pool?, hpool, hserve⟩ := Heap.exists_hasPool hserve
    obtain ⟨length, hround⟩ := Heap.exists_length hserve
    simp only [logRefusals_heap]
    refine ⟨2, Nat.le_refl _, ?_, hsame⟩
    simpa [newRegions, Payload.regions, Payload.block?, Region.ofBlock, hround, Except.toOption] using
      Requests.cons (.served hpool hserve hround) (.one .collect)
  | @refused e heap _ _ hserve =>
    have hsame : SamePools s.heap heap := Heap.alloc_pools hserve
    obtain ⟨pool?, hpool, hserve⟩ := Heap.exists_hasPool hserve
    simp only [logRefusals_heap]
    exact ⟨2, Nat.le_refl _, .cons (.refused hpool hserve) (.one .collect), hsame⟩

/-- Interning asks the heap for the block of a new copy at most, and each block stays with its atom. -/
theorem internLocked_requests (hs : s.table.Sound buckets 0) {r : Except AtomError Interned}
    (h : s.internLocked span lasting blob = .ok (r, s')) (out : List Region) :
    ∃ n ≤ 2, Requests n s.heap (s.table.regions ++ out) s'.heap (s'.table.regions ++ out) ∧
      SamePools s.heap s'.heap := by
  cases internLocked_interning h with
  | unknown => exact ⟨0, Nat.zero_le _, .refl _ _, .refl _⟩
  | refused hpayload =>
    obtain ⟨n, hn, hrequests, hsame⟩ := payloadFor_requests hpayload (s.table.regions ++ out)
    have htable : s'.table = s.table := payloadFor_table hpayload
    rw [htable]
    exact ⟨n, hn, hrequests, hsame⟩
  | @found _ _ _ t _ _ hreuse =>
    have hregions : t.regions = s.table.regions :=
      congrArg (List.map Region.ofBlock) (Table.reuse_amended hreuse).samePayloads.blocks
    refine ⟨0, Nat.zero_le _, ?_, .refl _⟩
    change Requests 0 s.heap _ s.heap (t.regions ++ out)
    rw [hregions]
    exact .refl _ _
  | @made s₁ type payload a t due _ _ hpayload hinsert =>
    obtain ⟨hbytes, -, -, htable₁⟩ := payloadFor_table hpayload
    obtain ⟨n, hn, hrequests, hsame⟩ := payloadFor_requests hpayload (s.table.regions ++ out)
    rw [htable₁] at hinsert
    rcases (hs.withSpare payload.copied).insert (congrArg Hash.ofBytes hbytes.symm) blob with
      ⟨-, hfailed⟩ | ⟨-, index, g, t', hinsert', hinserted, -⟩
    · rw [hfailed] at hinsert
      cases hinsert
    rw [hinsert'] at hinsert
    cases hinsert
    have hperm := hinserted.blocks.map Region.ofBlock
    rw [List.map_append] at hperm
    refine ⟨n, hn, hrequests.permRight ?_, hsame⟩
    unfold newRegions
    rw [← List.append_assoc]
    exact (hperm.append_right out).symm

/-! ## The pool of the table -/

theorem pool_of_onLinks {t t' : Table} (h : Table.OnLinks t t') : t'.pool = t.pool :=
  h.congr (·.pool) fun _ _ _ => rfl

theorem reuse_pool {t t' : Table} {index : Nat} {a : Atom} (h : t.reuse index = .ok (a, t')) :
    t'.pool = t.pool := pool_of_onLinks (Table.reuse_onLinks h)

theorem lookup_pool {t t' : Table} {found : Option Atom} (h : t.lookup span blob = .ok (found, t')) :
    t'.pool = t.pool := pool_of_onLinks (Table.lookup_onLinks h)

theorem applyMarks_pool (t : Table) (atoms : List Atom) : (t.applyMarks atoms).pool = t.pool :=
  pool_of_onLinks (Table.applyMarks_onLinks t atoms)

theorem register_pool (t : Table) (a : Atom) : (t.register a).2.pool = t.pool :=
  pool_of_onLinks (Table.register_onLinks t a)

theorem unregister_pool (t : Table) (a : Atom) : (t.unregister a).2.pool = t.pool :=
  pool_of_onLinks (Table.unregister_onLinks t a)

theorem registerBlob_pool {t t' : Table} {id : BlobId} (h : t.registerBlob type = .ok (id, t')) :
    t'.pool = t.pool := by
  unfold Table.registerBlob BlobRegistry.register at h
  split at h
  · cases h
  · cases h
    rfl

theorem requestCollection_pool (t : Table) : t.requestCollection.2.pool = t.pool := by
  unfold Table.requestCollection
  split <;> rfl

theorem Outcome.pool (hs : s.table.Sound buckets 0) {r : Except AtomError Interned} (h : Outcome s span blob r s') :
    s'.table.pool = s.table.pool := by
  cases h with
  | refused e htable => rw [htable]
  | found _ _ _ hreuse => exact reuse_pool hreuse
  | made hwanted hinsert =>
    obtain ⟨_, _, -, hinserted, -⟩ := hs.made hwanted hinsert
    rw [hinserted.rest]

theorem Call.pool (hs : s.table.Sound buckets 0) (h : Call spans s events s') : s'.table.pool = s.table.pool := by
  cases h with
  | intern _ h => exact (internLocked_outcome hs h).pool hs
  | internRefused _ h => exact (internLocked_outcome hs h).pool hs
  | lookup _ h => exact lookup_pool (lookup_table h)
  | register a => exact register_pool s.table a
  | unregister a => exact unregister_pool s.table a
  | registerBlob h => exact registerBlob_pool h
  | unregisterBlob h =>
    obtain ⟨_, -, rfl⟩ := Table.unregisterBlob_eq h
    rfl
  | setFallback hook => rfl
  | lockAtoms => rfl
  | requestCollection => exact requestCollection_pool s.table
  | other heap calls => rfl

/-! ## Steps that make and destroy nothing -/

/-- Callers that make no atom leave all payloads as they are. -/
theorem Call.samePayloads (hs : s.table.Sound buckets 0) (h : Call spans s events s')
    (hmade : ∀ a, Event.made a ∉ events) : Table.SamePayloads s.table s'.table := by
  cases h with
  | @intern _ _ _ _ i _ h =>
    have houtcome := internLocked_outcome hs h
    cases houtcome with
    | found _ _ _ hreuse => exact (Table.reuse_amended hreuse).samePayloads
    | @made _ _ _ a =>
      exact absurd (.head _) (hmade a)
  | internRefused _ h =>
    cases internLocked_outcome hs h with
    | refused e htable => exact .of_slots (congrArg (·.slots) htable)
  | lookup _ h => exact (Table.lookup_amended (lookup_table h)).samePayloads
  | register a => exact (Table.register_amended _ a).samePayloads
  | unregister a => exact (Table.unregister_amended _ a).samePayloads
  | registerBlob h => exact (Table.registerBlob_amended h).samePayloads
  | unregisterBlob h => exact Table.unregisterBlob_samePayloads h
  | setFallback hook => exact .of_slots rfl
  | lockAtoms => exact .of_slots rfl
  | requestCollection => exact (Table.requestCollection_amended s.table).samePayloads
  | other heap calls => exact .of_slots rfl

theorem made_notMem_dropEvents (a b : Atom) (answer : Except AtomError Unit) (refs : Except AtomError Nat) :
    Event.made b ∉ dropEvents a answer refs := by
  unfold dropEvents
  split <;> simp

/-! ## Giving blocks back -/

/-- All blocks of a list that are handed out can be freed, through a pool that is open. -/
theorem freeBlocks_requests {heap : Heap} {pool : PoolId} {blocks : List (Address × Nat)}
    (hs : Settled limits heap (blocks.map Region.ofBlock ++ out)) (hpool : heap.HasPool (some pool)) :
    ∃ heap', freeBlocks heap pool blocks = .ok heap' ∧
      Requests blocks.length heap (blocks.map Region.ofBlock ++ out) heap' out ∧ SamePools heap heap' := by
  induction blocks generalizing heap with
  | nil => exact ⟨heap, rfl, .refl _ _, .refl _⟩
  | cons block rest ih =>
    obtain ⟨b, size⟩ := block
    have hmem : Region.ofBlock (b, size) ∈ ((b, size) :: rest).map Region.ofBlock ++ out := List.mem_cons_self
    have hround := Region.ofBlock_length (hs.owned.handed _ hmem).pos
    obtain ⟨heap₁, hfree, -⟩ := (hs.owned.free_ends hpool hmem hround).exists_ok
    have hfreed : Request heap _ heap₁ _ := .freed hpool hmem hround hfree
    rw [List.map_cons, List.cons_append, List.erase_cons_head] at hfreed
    have hsame : SamePools heap heap₁ := (Heap.free_books hround hfree).2
    obtain ⟨heap', hrest, hrequests, hsame'⟩ := ih (hs.request hfreed) (hsame.hasPool hpool)
    refine ⟨heap', ?_, .cons hfreed hrequests, hsame.trans hsame'⟩
    unfold freeBlocks
    have hlocal : heap.freeLocal pool b size = .ok heap₁ := hfree
    rw [hlocal]
    exact hrest

/-- A sweep always ends, with the effect that could be foreseen, and frees the blocks of the atoms that it
destroys. -/
theorem sweep_requests (hs : s.table.Sound buckets 0) (hheap : Settled limits s.heap (s.table.regions ++ out))
    (hpool : s.heap.HasPool (some s.table.pool)) :
    ∃ swept t s', s.table.sweep = .ok (swept, { t with marking := false, nonGarbage := t.count }) ∧
      Table.SweptBelow s.table s.table.slots.size swept t ∧ s.sweep = .ok (swept.destroyed.size, s') ∧
      s'.table = { t with marking := false, nonGarbage := t.count } ∧
      s'.calls = s.calls ++ swept.calls.map .released ∧ s'.table.Sound buckets 0 ∧
      Requests swept.freed.size s.heap (s.table.regions ++ out) s'.heap (s'.table.regions ++ out) ∧
      SamePools s.heap s'.heap := by
  obtain ⟨swept, t, hsweep, hbelow⟩ := hs.sweep_below
  have hpool' : t.pool = s.table.pool := by rw [hbelow.rest]
  have hperm : (s.table.regions ++ out).Perm (swept.freed.toList.map Region.ofBlock ++ (t.regions ++ out)) := by
    have := hbelow.blocks.map Region.ofBlock
    rw [List.map_append] at this
    rw [← List.append_assoc]
    exact this.append_right out
  obtain ⟨heap, hfree, hrequests, hsame⟩ := freeBlocks_requests (hheap.perm hperm) hpool
  refine ⟨swept, t, ⟨heap, { t with marking := false, nonGarbage := t.count }, _⟩, hsweep, hbelow, ?_, rfl, rfl,
    ?_, hrequests.perm hperm, hsame⟩
  · unfold Store.sweep
    simp only [hsweep, bind, Except.bind, hpool', hfree]
    rfl
  · obtain ⟨_, _, hsweep', hchanges, -⟩ := hs.sweep fun _ => True
    rw [hsweep, Except.ok.injEq, Prod.mk.injEq] at hsweep'
    obtain ⟨rfl, rfl⟩ := hsweep'
    exact hs.changes hchanges

/-- Closing a store always ends, and gives up all its blocks and its pool. -/
theorem close_requests (hheap : Settled limits s.heap (s.table.regions ++ out))
    (hpool : s.heap.HasPool (some s.table.pool)) :
    ∃ heap n, s.close = .ok heap ∧ Requests n s.heap (s.table.regions ++ out) heap out := by
  obtain ⟨heap, hfree, hrequests, hsame⟩ := @freeBlocks_requests _ _ _ _ s.table.blocks hheap hpool
  have hpool := hsame.hasPool hpool
  obtain ⟨heap', hclose, -⟩ := ((hrequests.settled hheap).owned.closePool_ends (hpool _ rfl)).exists_ok
  refine ⟨heap', _, ?_, hrequests.trans (.one (.closePool hpool hclose))⟩
  unfold Store.close
  have hblocks : s.blocks = s.table.blocks := rfl
  rw [hblocks, hfree]
  exact hclose

end Store

namespace Tenancy

open Store

variable {spans : Span → Prop} {x x' x₀ : Tenancy} {events : List Event} {buckets : Nat} {limits : Limits}
  {s s' : Store} {others others' : List Region} {memory memory' : Memory} {span : Span} {lasting : Bool}
  {blob : BlobId} {bytes : List UInt8}

/-! ## Steps keep tenancies sound -/

/-- A byte of a copy is in no other block, nor free, and is there. -/
theorem Sound.mine (hx : Sound buckets limits x) {i : Nat} {e : Entry} {b : Address} (k : Nat) {byte : UInt8}
    (he : x.store.table.entryAt? i = some e) (hp : e.payload = .pooled b bytes) (hk : bytes[k]? = some byte) :
    coverage x.others (b.advance k) + x.store.heap.held (b.advance k) = 0 ∧
      x.store.heap.bytesAt (b.advance k) = 1 ∧ (Region.ofBlock (b, bytes.length)).covers (b.advance k) := by
  have hmem := Table.mem_regions he hp
  have hpos := (hx.heap.owned.handed _ (List.mem_append_left x.others hmem)).pos
  have hcovers : (Region.ofBlock (b, bytes.length)).covers (b.advance k) := by
    refine Region.covers_ofBlock hpos (Region.covers_iff.2 ⟨rfl, Nat.le_add_right _ _, ?_⟩)
    have hlt := (List.getElem?_eq_some_iff.1 hk).1
    simp only [Address.advance]
    omega
  have hcov := coverage_pos_of_mem hmem hcovers
  have hbytes := hx.heap.owned.bytes (b.advance k)
  have hone := Heap.bytesAt_le_one x.store.heap (b.advance k)
  unfold handed at hbytes
  rw [coverage_append] at hbytes
  exact ⟨by omega, by omega, hcovers⟩

/-- Nothing changes for the copies where payloads, the heap and memory stay. -/
theorem Sound.congr (hx : Sound buckets limits ⟨s, others, memory⟩) (htable : s'.table.Sound buckets 0)
    (hsame : Table.SamePayloads s.table s'.table) (hheap : s'.heap = s.heap) (hpool : s'.table.pool = s.table.pool) :
    Sound buckets limits ⟨s', others, memory⟩ where
  table := htable
  heap := by
    have hregions : s'.table.regions = s.table.regions := congrArg (List.map Region.ofBlock) hsame.blocks
    change Settled limits s'.heap (s'.table.regions ++ others)
    rw [hheap, hregions]
    exact hx.heap
  pool := by
    change s'.heap.HasPool (some s'.table.pool)
    rw [hheap, hpool]
    exact hx.pool
  reads i e he := by
    have hpayload := hsame.payload i
    rw [he, Option.map_some, eq_comm, Option.map_eq_some_iff] at hpayload
    obtain ⟨e₀, he₀, heq⟩ := hpayload
    rw [← heq]
    exact hx.reads i e₀ he₀

/-- The other users make a request. -/
theorem Sound.requested (hx : Sound buckets limits ⟨s, others, memory⟩) {heap : Heap} {others' : List Region}
    (calls : Array HookCall) (hq : Request s.heap others heap others') (hpool : heap.HasPool (some s.table.pool)) :
    Sound buckets limits ⟨{ s with heap, calls }, others', memory⟩ := by
  obtain ⟨all, hall, hperm⟩ := hq.frame s.table.regions
  exact ⟨hx.table, (hx.heap.request hall).perm hperm, hpool, hx.reads⟩

/-- What others and the system write is in no copy. -/
theorem Sound.wrote (hx : Sound buckets limits ⟨s, others, memory⟩)
    (hw : ∀ a, memory' a ≠ memory a → 0 < coverage others a + s.heap.held a ∨ s.heap.bytesAt a = 0) :
    Sound buckets limits ⟨s, others, memory'⟩ := by
  refine ⟨hx.table, hx.heap, hx.pool, fun i e he b bytes hp k byte hk => ?_⟩
  rw [← hx.reads i e he b bytes hp k byte hk]
  obtain ⟨hnone, hone, -⟩ := hx.mine k he hp hk
  simp only at hnone hone
  by_contra hne
  rcases hw _ hne with hpos | hzero <;> omega

/-- The payload of an atom is from before, or the atom is new. -/
theorem Sound.copied (hx : Sound buckets limits ⟨s, others, memory⟩)
    (hheap : Settled limits s'.heap (s'.table.regions ++ others))
    (hold : ∀ i e', s'.table.entryAt? i = some e' → s.table.entryAt? i = none ∨
      ∃ e, s.table.entryAt? i = some e ∧ e.payload = e'.payload)
    (hc : Table.Copied s.table s'.table memory memory') (i : Nat) (e' : Entry)
    (he' : s'.table.entryAt? i = some e') : e'.payload.Reads memory' := by
  rcases hold i e' he' with hnone | ⟨e, he, hpayload⟩
  · exact hc.written i e' hnone he'
  · intro b bytes hp k byte hk
    rw [← hx.reads i e he b bytes (hpayload.trans hp) k byte hk]
    by_contra hne
    -- What was written there is a new copy, in another slot, whose block is apart.
    obtain ⟨j, ej, bj, bytesj, hj, hej, hpj, hcovers⟩ := hc.kept _ hne
    have hij : i ≠ j := by
      rintro rfl
      rw [hj] at he
      cases he
    have hapart := hheap.owned.apart.sublist (List.sublist_append_left s'.table.regions others)
    have hcovers' : ∀ {l : Nat} {el : Entry} {bl : Address} {bytesl : List UInt8} {a : Address},
        s'.table.entryAt? l = some el → el.payload = .pooled bl bytesl →
        (⟨bl, bytesl.length⟩ : Region).covers a → (Region.ofBlock (bl, bytesl.length)).covers a := by
      intro l el bl bytesl a hel hpl
      have hmem := List.mem_append_left others (Table.mem_regions hel hpl)
      exact Region.covers_ofBlock (hheap.owned.handed _ hmem).pos
    have hlt := (List.getElem?_eq_some_iff.1 hk).1
    refine Table.apart_of_ne hapart (Table.blockAt?_of_pooled he' hp) (Table.blockAt?_of_pooled hej hpj) hij
      (b.advance k) ⟨?_, hcovers' hej hpj hcovers⟩
    refine hcovers' he' hp (Region.covers_iff.2 ⟨rfl, Nat.le_add_right _ _, ?_⟩)
    simp only [Address.advance]
    omega

theorem Sound.refused (hx : Sound buckets limits ⟨s, others, memory⟩) {e : AtomError}
    (h : s.internLocked span lasting blob = .ok (.error e, s')) : Sound buckets limits ⟨s', others, memory⟩ := by
  obtain ⟨n, -, hrequests, hsame⟩ := internLocked_requests hx.table h others
  have houtcome := internLocked_outcome hx.table h
  cases houtcome with
  | refused e htable =>
    refine ⟨htable ▸ hx.table, hrequests.settled hx.heap, ?_, ?_⟩
    · change s'.heap.HasPool (some s'.table.pool)
      rw [htable]
      exact hsame.hasPool hx.pool
    · change ∀ i e, s'.table.entryAt? i = some e → e.payload.Reads memory
      rw [htable]
      exact hx.reads

/-- Every entry that interning leaves is new or has the payload that it had. -/
theorem payload_of_interned (hs : s.table.Sound buckets 0) {r : Except AtomError Interned}
    (h : s.internLocked span lasting blob = .ok (r, s')) {i : Nat} {e' : Entry} (he' : s'.table.entryAt? i = some e') :
    s.table.entryAt? i = none ∨ ∃ e, s.table.entryAt? i = some e ∧ e.payload = e'.payload := by
  have hsame (hamended : Table.SamePayloads s.table s'.table) :
      ∃ e, s.table.entryAt? i = some e ∧ e.payload = e'.payload := by
    have hpayload := hamended.payload i
    rw [he', Option.map_some, eq_comm, Option.map_eq_some_iff] at hpayload
    exact hpayload
  cases internLocked_outcome hs h with
  | refused _ htable => exact .inr (hsame (.of_slots (congrArg (·.slots) htable)))
  | found _ _ _ hreuse => exact .inr (hsame (Table.reuse_amended hreuse).samePayloads)
  | made hwanted hinsert =>
    obtain ⟨index, g, -, hinserted, -⟩ := hs.made hwanted hinsert
    rcases hinserted.of_some he' with ⟨rfl, -⟩ | ⟨-, e, he, hbare⟩
    · exact .inl hinserted.vacant
    · exact .inr ⟨e, he, congrArg (·.payload) hbare⟩

theorem Sound.interned (hx : Sound buckets limits ⟨s, others, memory⟩) (hspan : spans span) {i : Interned}
    (h : s.internLocked span lasting blob = .ok (.ok i, s')) (hc : Table.Copied s.table s'.table memory memory') :
    Sound buckets limits ⟨s', others, memory'⟩ := by
  have houtcome := internLocked_outcome hx.table h
  obtain ⟨n, -, hrequests, hsame⟩ := internLocked_requests hx.table h others
  have hheap := hrequests.settled hx.heap
  refine ⟨hx.table.changes (houtcome.changes hspan), hheap, ?_, hx.copied hheap ?_ hc⟩
  · change s'.heap.HasPool (some s'.table.pool)
    rw [houtcome.pool hx.table]
    exact hsame.hasPool hx.pool
  · exact fun i e' => payload_of_interned hx.table h

/-- A sweep always ends, with the effect that could be foreseen, and the blocks of the atoms that it
destroys go back to the pool of the table. -/
theorem Sound.sweep (hx : Sound buckets limits ⟨s, others, memory⟩) :
    ∃ swept t s', s.table.sweep = .ok (swept, { t with marking := false, nonGarbage := t.count }) ∧
      Table.SweptBelow s.table s.table.slots.size swept t ∧ s.sweep = .ok (swept.destroyed.size, s') ∧
      s'.table = { t with marking := false, nonGarbage := t.count } ∧
      s'.calls = s.calls ++ swept.calls.map .released ∧ Sound buckets limits ⟨s', others, memory⟩ := by
  obtain ⟨swept, t, s', hsweep, hbelow, hstore, htable, hcalls, hsound, hrequests, hsame⟩ :=
    sweep_requests hx.table hx.heap hx.pool
  have hpool : s'.table.pool = s.table.pool := by rw [htable, hbelow.rest]
  refine ⟨swept, t, s', hsweep, hbelow, hstore, htable, hcalls, hsound, hrequests.settled hx.heap, ?_, ?_⟩
  · change s'.heap.HasPool (some s'.table.pool)
    rw [hpool]
    exact hsame.hasPool hx.pool
  · intro i e he
    have hpayload := hbelow.entryAt? i
    have he : t.entryAt? i = some e := by
      change s'.table.entryAt? i = some e at he
      rw [htable] at he
      exact he
    rw [he, Option.map_some] at hpayload
    split at hpayload
    · cases hpayload
    · rw [eq_comm, Option.map_eq_some_iff] at hpayload
      obtain ⟨e₀, he₀, heq⟩ := hpayload
      rw [← heq]
      exact hx.reads i e₀ he₀

theorem Sound.moved (hx : Sound buckets limits ⟨s, others, memory⟩) (h : Move s events s') :
    Sound buckets limits ⟨s', others, memory⟩ := by
  have hchanges : Table.Changes (fun _ => True) s.table s'.table := h.changes hx.table
  have htable := hx.table.changes hchanges
  cases h with
  | clearRequest => exact hx.congr htable (.of_slots rfl) rfl rfl
  | beginMarking => exact hx.congr htable (.of_slots rfl) rfl rfl
  | applyMarks atoms =>
    exact hx.congr htable (Table.applyMarks_amended _ atoms).samePayloads rfl (applyMarks_pool _ atoms)
  | abortMarking => exact hx.congr htable (Table.abortMarking_amended _).samePayloads rfl rfl
  | postpone => exact hx.congr htable (.of_slots rfl) rfl rfl
  | sweep _ h =>
    obtain ⟨_, _, _, -, -, hsweep, -, -, hx'⟩ := hx.sweep
    rw [hsweep] at h
    cases h
    exact hx'

/-- Every step keeps a tenancy sound. -/
theorem Step.sound (hx : Sound buckets limits x) (h : Step spans x events x') : Sound buckets limits x' := by
  cases h with
  | interned hspan hintern hcopied => exact hx.interned hspan hintern hcopied
  | refused _ hintern => exact hx.refused hintern
  | called hcall hheap hmade =>
    exact hx.congr (hx.table.changes (hcall.changes hx.table)) (hcall.samePayloads hx.table hmade) hheap
      (hcall.pool hx.table)
  | moved hmove => exact hx.moved hmove
  | requested calls hrequest hpool => exact hx.requested calls hrequest hpool
  | wrote hwrote => exact hx.wrote hwrote

theorem Run.sound (hx : Sound buckets limits x₀) (h : Run spans x₀ events x) : Sound buckets limits x := by
  induction h with
  | start => exact hx
  | step _ hstep ih => exact hstep.sound ih

/-- A store without atoms on a heap that is in use. -/
theorem sound_empty {config : Config} (hc : config.check = .ok ()) {grants : Nat → Nat → Bool} {heap : Heap}
    (hr : Heap.Run config.limits grants heap others) (memory : Memory) :
    Sound config.atomBuckets.toNat config.limits ⟨.empty heap config, others, memory⟩ where
  table := Table.sound_empty (Table.atomBuckets_power hc) _
  heap := (hr.settled (Heap.chunkSize_aligned hc)).request .openPool
  pool := by
    rintro id ⟨⟩
    exact .head _
  reads i e he := by
    simp [Table.entryAt?, Store.empty, Table.empty] at he

end Tenancy

end AtomHeap
