import AtomHeap.Proofs.Memory.Renewal
/-!
# Which addresses a heap owns

A heap is asked whether it owns an address. Of its carving chunks it owns every byte. The chunks of big blocks it
knows by where they start, and of such a chunk it owns the first byte only, though all of them are in the block.

The number of a chunk that was returned is never given to another one (`Onward.returned`), so from then on none
of its addresses is owned.
-/

namespace AtomHeap.Heap

variable {limits : Limits} {grants : Nat → Nat → Bool} {h h' h'' : Heap} {out out' out'' : List Region}
  {r : Region} {a : Address} {p q : Pool} {k n size length : Nat} {from? into? : Option PoolId} {b : Address}
  {answer : Except AllocError Address} {calls : List Call} {gone : List PoolId}

/-! ## What becomes of the chunks of big blocks -/

/-- What a request does to the chunks of big blocks. -/
inductive Rehoused (before : Array (Option Nat)) : Array (Option Nat) → Prop
  | same : Rehoused before before
  | obtained {length : Nat} : 0 < length → Rehoused before (before.push (some length))
  | returned (number : Nat) : Rehoused before (before.setIfInBounds number none)

theorem Rehoused.of_eq {before after : Array (Option Nat)} (he : after = before) : Rehoused before after := he ▸ .same

theorem allocBig_rehoused (ha : h.allocBig size = .ok (answer, h')) : Rehoused h.big h'.big := by
  cases allocBig_cases ha with
  | denied => exact .same
  | granted hround => exact .obtained (pos_of_roundUp hround)

theorem Shaped.alloc_rehoused (hs : Shaped limits h) (ha : h.alloc from? size = .ok (answer, h')) :
    Rehoused h.big h'.big := by
  cases hround : roundUp size with
  | error e =>
    rw [alloc_of_no_size hround] at ha
    cases ha
    exact .same
  | ok length =>
    cases alloc_cases hround ha with
    | big _ hbig => exact allocBig_rehoused hbig
    | shared _ hserve => exact .of_eq (hs.served_shared hserve).untouched.big
    | own _ hperm hserve => exact .of_eq (hs.served_own hperm hserve).untouched.big

theorem freeBig_eq (hf : h.freeBig b size = .ok h') :
    ∃ n < h.big.size, b = (ChunkId.big n).start ∧ h'.big = h.big.setIfInBounds n none := by
  obtain ⟨n, _, rfl, -, hlength, rfl⟩ := freeBig_inv hf
  exact ⟨n, lt_of_big hlength, rfl, rfl⟩

theorem takeBack_big {c : Nat} (ht : h.takeBack p c b = .ok (q, h')) : h'.big = h.big := by
  obtain ⟨_, -, -, rfl⟩ := takeBack_inv ht
  rfl

theorem spill_big {c : Nat} (hs : h.spill p c = .ok (q, h')) : h'.big = h.big := by
  cases spill_cases hs <;> rfl

theorem free_rehoused (hround : roundUp size = .ok length) (hf : h.free into? b size = .ok h') :
    Rehoused h.big h'.big := by
  cases free_cases hround hf with
  | big _ hbig =>
    obtain ⟨n, -, -, hsame⟩ := freeBig_eq hbig
    exact hsame ▸ .returned n
  | shared _ hback =>
    have hsame := takeBack_big hback
    exact .of_eq hsame
  | own _ _ hback hspill =>
    have hsame := (spill_big hspill).trans (takeBack_big hback)
    exact .of_eq hsame

theorem Request.rehoused (hs : Shaped limits h) (hq : Request h out h' out') : Rehoused h.big h'.big := by
  cases hq with
  | openPool => exact .same
  | closePool _ hclose =>
    obtain ⟨_, _, rfl⟩ := closePool_cases hclose
    exact .same
  | setHook _ => exact .same
  | collect => exact .same
  | served _ halloc _ => exact hs.alloc_rehoused halloc
  | refused _ halloc => exact hs.alloc_rehoused halloc
  | freed _ _ hround hfree => exact free_rehoused hround hfree

/-- No chunk of a big block is without bytes. -/
def Filled (big : Array (Option Nat)) : Prop := ∀ n length : Nat, big[n]? = some (some length) → 0 < length

theorem Filled.rehoused {big big' : Array (Option Nat)} (hf : Filled big) (hr : Rehoused big big') : Filled big' := by
  intro n length hlen
  cases hr with
  | same => exact hf n length hlen
  | obtained hpos =>
    rw [Array.getElem?_push] at hlen
    split at hlen
    · cases hlen
      exact hpos
    · exact hf n length hlen
  | returned number =>
    rw [Array.getElem?_setIfInBounds] at hlen
    split at hlen
    · split at hlen <;> cases hlen
    · exact hf n length hlen

theorem Filled.destroyAll (h : Heap) : Filled h.destroyAll.big := by
  intro n length hlen
  simp [Heap.destroyAll] at hlen

theorem History.filled (hchunk : limits.chunkSize % alignment = 0) (hh : History limits grants h out) :
    Filled h.big := by
  induction hh with
  | start =>
    intro n length hlen
    cases hlen
  | request hh hq ih => exact ih.rehoused (hq.rehoused (hh.shaped hchunk).1)
  | destroyAll _ _ => exact .destroyAll _

/-- What can follow, requests and resets, for a heap whose callers have the blocks `out`. -/
inductive Onward (h : Heap) (out : List Region) : Heap → List Region → Prop
  | refl : Onward h out h out
  | request {h' h'' : Heap} {out' out'' : List Region} :
      Onward h out h' out' → Request h' out' h'' out'' → Onward h out h'' out''
  | destroyAll {h' : Heap} {out' : List Region} : Onward h out h' out' → Onward h out h'.destroyAll []

theorem History.onward (hh : History limits grants h out) (ho : Onward h out h' out') : History limits grants h' out' := by
  induction ho with
  | refl => exact hh
  | request _ hq ih => exact ih.request hq
  | destroyAll _ ih => exact ih.destroyAll

theorem Rehoused.returned_stays {big big' : Array (Option Nat)} (hr : Rehoused big big') (hn : big[n]? = some none) :
    big'[n]? = some none := by
  obtain ⟨hlt, -⟩ := Array.getElem?_eq_some_iff.1 hn
  cases hr with
  | same => exact hn
  | obtained _ => rw [Array.getElem?_push, if_neg (Nat.ne_of_lt hlt), hn]
  | returned number =>
    rw [Array.getElem?_setIfInBounds]
    split
    · rename_i he
      rw [if_pos (he ▸ hlt)]
    · exact hn

/-- A chunk that was returned stays so. -/
theorem Onward.returned (hchunk : limits.chunkSize % alignment = 0) (hh : History limits grants h out)
    (ho : Onward h out h' out') (hn : h.big[n]? = some none) : h'.big[n]? = some none := by
  induction ho with
  | refl => exact hn
  | request ho hq ih => exact (hq.rehoused ((hh.onward ho).shaped hchunk).1).returned_stays ih
  | destroyAll _ ih =>
    simp only [Heap.destroyAll, Array.getElem?_map, ih, Option.map_some]

/-! ## What is owned -/

theorem owns_iff (hf : Filled h.big) :
    h.owns a = true ↔ h.hasByte a = true ∧ ∀ n, a.chunk = .big n → a.offset = 0 := by
  obtain ⟨chunk, offset⟩ := a
  cases chunk with
  | nowhere => simp [owns, hasByte, chunkLength?]
  | carving n => cases hlen : h.chunkLength? (.carving n) <;> simp [owns, hasByte, hlen]
  | big n =>
    cases hlen : h.chunkLength? (.big n) with
    | none => simp [owns, hasByte, hlen]
    | some length =>
      have hpos : 0 < length := hf n length (Option.join_eq_some_iff.1 hlen)
      simp only [owns, hasByte, hlen, Option.any_some, beq_iff_eq, decide_eq_true_eq]
      constructor
      · rintro rfl
        exact ⟨hpos, fun _ _ => rfl⟩
      · rintro ⟨-, hstart⟩
        exact hstart n rfl

/-- A block lies in a chunk, and starts it if it is big. -/
structure Seated (limits : Limits) (h : Heap) (r : Region) : Prop where
  inside : ∃ length, h.chunkLength? r.start.chunk = some length ∧ r.start.offset + r.length ≤ length
  fast : r.length ≤ limits.allocFast → ∃ n, r.start.chunk = .carving n
  big : limits.allocFast < r.length → ∃ n, r.start = (ChunkId.big n).start

theorem Owned.seated (ho : Owned limits h out) (hr : r ∈ out) : Seated limits h r where
  inside := ho.inside hr
  fast hle := (ho.handed r hr).fast (ho.limits ▸ hle)
  big hlt := by
    obtain ⟨n, hstart, -⟩ := (ho.handed r hr).big (ho.limits ▸ hlt)
    exact ⟨n, hstart⟩

/-- A block lies where its counterpart in a new heap does, in the chunk of a later number. -/
theorem Renews.seated {g : Heap} {outg : List Region} {h₀ : Heap} (hn : Renews limits h₀ calls gone h out g outg)
    (hr : r ∈ out) : Seated limits h r := by
  obtain ⟨q, hq, rfl⟩ := List.mem_map.1 (hn.blocks ▸ hr)
  have hseated := hn.settled.owned.seated hq
  refine ⟨?_, fun hle => ?_, fun hlt => ?_⟩
  · obtain ⟨length, hlen, hle⟩ := hseated.inside
    exact ⟨length, (hn.resembles.twin.chunkLength q.start.chunk).trans hlen, hle⟩
  · obtain ⟨n, hchunk⟩ := hseated.fast hle
    exact ⟨h₀.past.carved + n, by simp only [Past.region, Past.address, hchunk, Past.chunk]⟩
  · obtain ⟨n, hstart⟩ := hseated.big hlt
    exact ⟨h₀.past.big + n, by simp only [Past.region, Past.address, hstart, ChunkId.start, Past.chunk]⟩

/-- Heaps whose callers keep to the contract of resets: local pools that survive one are not worked with any
longer, and if they are closed they bring nothing back. -/
inductive Tended (limits : Limits) (grants : Nat → Nat → Bool) : Heap → List Region → Prop
  | lived {n : Nat} {h : Heap} {out : List Region} : Life limits grants n h out → Tended limits grants h out
  | later {h h' : Heap} {out out' : List Region} {calls : List Call} {gone : List PoolId} :
      History limits grants h out → Later h.destroyAll calls gone h' out' →
      (∀ id ∈ gone, ∀ p, h.pool id = .ok p → p.Bare) → Tended limits grants h' out'

theorem Tended.seated (hchunk : limits.chunkSize % alignment = 0) (ht : Tended limits grants h out) (hr : r ∈ out) :
    Seated limits h r := by
  cases ht with
  | lived hl => exact (hl.solvent hchunk).settled.owned.seated hr
  | later hh hl hbare =>
    obtain ⟨g, outg, hn⟩ := hl.renews (hh.shaped hchunk).1 fun id hid p hp => hbare id hid p (pool_eq_ok_iff.2 hp)
    exact hn.seated hr

/-- Of a small block all bytes are owned, and of a big one the first. -/
theorem Seated.owns (hs : Seated limits h r) (hf : Filled h.big) (hk : k < r.length) :
    h.owns (r.start.advance k) = true ↔ r.length ≤ limits.allocFast ∨ k = 0 := by
  obtain ⟨length, hlen, hle⟩ := hs.inside
  have hbyte : h.hasByte (r.start.advance k) = true := by
    simp only [hasByte, Address.advance, hlen, Option.any_some]
    exact decide_eq_true (by omega)
  rw [owns_iff hf, and_iff_right hbyte]
  rcases Nat.lt_or_ge limits.allocFast r.length with hlt | hfast
  · obtain ⟨n, hstart⟩ := hs.big hlt
    simp only [Address.advance, hstart, ChunkId.start, ChunkId.big.injEq, Nat.zero_add, forall_eq', Nat.not_le.2 hlt,
      false_or]
  · obtain ⟨n, hchunk⟩ := hs.fast hfast
    simp [Address.advance, hchunk, hfast]

theorem owns_of_returned (hn : h.big[n]? = some none) (ha : a.chunk = .big n) :
    h.hasByte a = false ∧ h.owns a = false := by
  have hlen : h.chunkLength? (.big n) = none := by rw [chunkLength?, hn, Option.join_some]
  exact ⟨by simp only [hasByte, ha, hlen, Option.any_none], by simp only [owns, ha, hlen]⟩

/-- The chunk of a big block that is freed is returned. -/
theorem free_returns (hbig : h.limits.allocFast < r.length) (hround : roundUp size = .ok r.length)
    (hf : h.free into? r.start size = .ok h') :
    ∃ n, r.start.chunk = .big n ∧ h'.big[n]? = some none := by
  have hclass : SizeClass.ofSize size h.limits.allocFast = _ := SizeClass.ofSize_of_roundUp hround
  rw [if_neg (Nat.not_le.2 hbig)] at hclass
  obtain ⟨n, hlt, hstart, hsame⟩ := freeBig_eq ((free_of_big hclass).symm.trans hf)
  refine ⟨n, by rw [hstart]; rfl, ?_⟩
  rw [hsame, Array.getElem?_setIfInBounds_self_of_lt hlt]

/-- With an accepted configuration, whatever was asked of a heap and whenever all its chunks were given back: it
owns the bytes of its carving chunks, and of the chunk of a big block the first byte. So of a block that is handed
out all bytes are owned if it is small, and the first one if it is big; and once a big block is freed, none of its
bytes is owned or lies in a chunk, whatever follows. -/
theorem owned_addresses {c : Config} (hc : c.check = .ok ()) (hh : History c.limits grants h out) :
    (∀ a, h.owns a = true ↔ h.hasByte a = true ∧ ∀ n, a.chunk = .big n → a.offset = 0) ∧
      (Tended c.limits grants h out → ∀ r ∈ out, ∀ k < r.length,
        (h.owns (r.start.advance k) = true ↔ r.length ≤ c.limits.allocFast ∨ k = 0)) ∧
      ∀ r ∈ out, c.limits.allocFast < r.length → ∀ into? size h', h.HasPool into? → roundUp size = .ok r.length →
        h.free into? r.start size = .ok h' → ∀ h'' out'', Onward h' (out.erase r) h'' out'' →
          ∀ a, a.chunk = r.start.chunk → h''.hasByte a = false ∧ h''.owns a = false := by
  have hchunk := chunkSize_aligned hc
  have hlimits := (hh.shaped hchunk).1.limits
  refine ⟨fun a => owns_iff (hh.filled hchunk), fun ht r hr k hk => (ht.seated hchunk hr).owns (hh.filled hchunk) hk, ?_⟩
  intro r hr hbig into? size h' hinto hround hfree h'' out'' ho a ha
  obtain ⟨n, hn, hreturned⟩ := free_returns (hlimits ▸ hbig) hround hfree
  have hh' := hh.request (.freed hinto hr hround hfree)
  exact owns_of_returned (ho.returned hchunk hh' hreturned) (ha.trans hn)

/-- A small block and a big one are handed out, and all chunks are given back after the big one was freed. -/
theorem owned_addresses_two_blocks :
    ∃ h, History ⟨32, 64, 2⟩ (fun _ _ => true) h [⟨⟨.big 0, 0⟩, 48⟩, ⟨⟨.carving 0, 0⟩, 32⟩] ∧
      h.owns ⟨.carving 0, 31⟩ = true ∧ h.owns ⟨.big 0, 0⟩ = true ∧
      ∃ h', h.free none ⟨.big 0, 0⟩ 40 = .ok h' ∧ h'.owns ⟨.big 0, 0⟩ = false ∧
        h'.destroyAll.owns ⟨.big 0, 0⟩ = false := by
  have small := (@Run.start ⟨32, 64, 2⟩ fun _ _ => true).served (hasPool_none _) (rfl : alloc _ none 20 = _) rfl
  have both := small.served (hasPool_none _) (rfl : alloc _ none 40 = _) rfl
  obtain ⟨n, lived⟩ := both.life
  obtain ⟨-, howned, hfreed⟩ :=
    owned_addresses (c := { allocFast := 32, chunkSize := 64, localFreeMax := 2 }) rfl both.history
  have hafter := hfreed _ (.head _) (by decide) none 40 _ (hasPool_none _) rfl rfl
  refine ⟨_, both.history, ?_, ?_, _, rfl, ?_, ?_⟩
  · exact (howned (.lived lived) _ (.tail _ (.head _)) 31 (by decide)).2 (.inl (by decide))
  · exact (howned (.lived lived) _ (.head _) 0 (by decide)).2 (.inr rfl)
  · exact (hafter _ _ .refl _ rfl).2
  · exact (hafter _ _ (.destroyAll .refl) _ rfl).2

/-- A byte of a big block that is handed out, not the first, lies in a chunk of the heap and is not owned. -/
theorem big_block_not_owned :
    Config.check { allocFast := 32, chunkSize := 64, localFreeMax := 2 } = .ok () ∧
      ∃ h, Run ⟨32, 64, 2⟩ (fun _ _ => true) h [⟨⟨.big 0, 0⟩, 48⟩] ∧
        h.hasByte ⟨.big 0, 1⟩ = true ∧ h.owns ⟨.big 0, 1⟩ = false := by
  have served := (@Run.start ⟨32, 64, 2⟩ fun _ _ => true).served (hasPool_none _) (rfl : alloc _ none 48 = _) rfl
  exact ⟨rfl, _, served, rfl, rfl⟩

end AtomHeap.Heap
