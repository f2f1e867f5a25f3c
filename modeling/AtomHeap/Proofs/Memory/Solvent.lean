import AtomHeap.Proofs.Memory.Accounts
/-!
# Heaps within the address space

The system never gives a heap more than the address space has, so the bytes reserved are a 64-bit word
(`Bounded`), and with the accounts of the heap so are the bytes in use. `Solvent` is all that requests keep.
-/

namespace AtomHeap.Heap

variable {limits : Limits} {grants : Nat → Nat → Bool} {h h' : Heap} {p q : Pool} {out out' : List Region}
  {id : PoolId} {c size : Nat} {from? into? : Option PoolId} {b : Address} {answer : Except AllocError Address}

/-- The bytes reserved are a 64-bit word. -/
def Bounded (h : Heap) : Prop := h.reserved < wordCount

namespace Bounded

theorem newSpace {answer : Except AllocError Region} (hb : h.Bounded) (hn : h.newSpace size = .ok (answer, h')) :
    h'.Bounded := by
  cases newSpace_cases hn with
  | spare | denied => exact hb
  | chunk _ hlt => exact hlt

theorem carveAnew (hb : h.Bounded) (hc : h.carveAnew p size = .ok (answer, q, h')) : h'.Bounded := by
  cases carveAnew_cases hc with
  | refused _ hspace | carved _ hspace | short _ hspace =>
    exact Bounded.newSpace (h := { h with leftOver := h.leftOver ++ _ }) hb hspace

theorem refill (hb : h.Bounded) (hr : h.refill p c = .ok (answer, q, h')) : h'.Bounded := by
  cases refill_cases hr with
  | batch => exact hb
  | @anew _ _ global _ _ _ _ hcarve => exact Bounded.carveAnew (h := { h with global }) hb hcarve

theorem serve {more : Heap → Pool → Except Fault (Except AllocError Address × Pool × Heap)} (hb : h.Bounded)
    (hmore : ∀ p answer q h', more h p = .ok (answer, q, h') → h'.Bounded)
    (hs : h.serve p c more = .ok (answer, q, h')) : h'.Bounded := by
  obtain ⟨p₁, h₁, hfound, hcount⟩ := serve_cases hs
  have hb₁ : h₁.Bounded := by
    cases hfound with
    | popped => exact hb
    | carved => exact hb
    | more _ _ hm => exact hmore _ _ _ _ hm
  cases answer with
  | error e =>
    obtain ⟨-, rfl⟩ := hcount
    exact hb₁
  | ok b =>
    obtain ⟨-, rfl⟩ := hcount
    exact hb₁

theorem allocBig (hb : h.Bounded) (ha : h.allocBig size = .ok (answer, h')) : h'.Bounded := by
  cases allocBig_cases ha with
  | denied => exact hb
  | granted _ hlt => exact hlt

theorem alloc (hb : h.Bounded) (ha : h.alloc from? size = .ok (answer, h')) : h'.Bounded := by
  cases hround : roundUp size with
  | error e =>
    rw [alloc_of_no_size hround] at ha
    cases ha
    exact hb
  | ok length =>
    cases alloc_cases hround ha with
    | big _ hbig => exact hb.allocBig hbig
    | @shared _ _ h₁ _ hserve =>
      have hb₁ : h₁.Bounded := Bounded.serve (h := { h with global := { shelves := #[] } }) hb
        (fun _ _ _ _ => carveAnew (h := { h with global := { shelves := #[] } }) hb) hserve
      exact hb₁
    | @own _ _ _ _ rest h₁ _ _ hserve =>
      have hb₁ : h₁.Bounded := Bounded.serve (h := { h with locals := rest }) hb
        (fun _ _ _ _ => refill (h := { h with locals := rest }) hb) hserve
      exact hb₁

/-- Nothing that is freed adds to the bytes reserved. -/
theorem free (hb : h.Bounded) (hround : roundUp size = .ok c) (hf : h.free into? b size = .ok h') :
    h'.Bounded := by
  cases free_cases hround hf with
  | big _ hbig =>
    obtain ⟨_, _, -, -, -, rfl⟩ := freeBig_inv hbig
    exact Nat.lt_of_le_of_lt (Nat.sub_le _ _) hb
  | shared _ hback =>
    obtain ⟨-, _, rfl⟩ := takeBack_tally hback
    exact hb
  | own _ _ hback hspill =>
    obtain ⟨-, _, rfl⟩ := takeBack_tally hback
    obtain ⟨-, _, rfl, -⟩ := spill_tally hspill
    exact hb

end Bounded

/-- The bytes of a heap have one owner each, it counts them, and they are within the address space. -/
structure Solvent (limits : Limits) (h : Heap) (out : List Region) : Prop where
  settled : Settled limits h out
  tallied : Tallied h out
  bounded : h.Bounded

namespace Solvent

/-- A request keeps a heap solvent. -/
theorem request (hs : Solvent limits h out) (hq : Request h out h' out') : Solvent limits h' out' := by
  refine ⟨hs.settled.request hq, hs.tallied.request hs.settled hq, ?_⟩
  cases hq with
  | openPool => exact hs.bounded
  | closePool _ hclose =>
    obtain ⟨_, -, rfl⟩ := closePool_cases hclose
    exact hs.bounded
  | setHook hook => exact hs.bounded
  | collect => exact hs.bounded
  | served _ halloc _ => exact hs.bounded.alloc halloc
  | refused _ halloc => exact hs.bounded.alloc halloc
  | freed _ _ hround hfree => exact hs.bounded.free hround hfree

theorem perm (hs : Solvent limits h out) (hp : out.Perm out') : Solvent limits h out' where
  settled := hs.settled.perm hp
  tallied := ⟨fun c hc => (hs.tallied.counts c hc).trans (by rw [hp.countP_eq]), hs.tallied.backed⟩
  bounded := hs.bounded

/-- No more bytes are in use than are reserved. -/
theorem inUse_le (hs : Solvent limits h out) : total out ≤ h.reserved :=
  hs.settled.inUse ▸ (hs.tallied.accounted hs.settled).in_use_le

theorem total_lt (hs : Solvent limits h out) : total out < wordCount := Nat.lt_of_le_of_lt hs.inUse_le hs.bounded

end Solvent

theorem solvent_empty (grants : Nat → Nat → Bool) (hchunk : limits.chunkSize % alignment = 0) :
    Solvent limits (.empty limits grants) [] :=
  ⟨settled_empty grants hchunk, tallied_empty limits grants, show 0 < wordCount by decide⟩

/-- Every heap that requests led to is solvent. -/
theorem Run.solvent (hchunk : limits.chunkSize % alignment = 0) (hr : Run limits grants h out) :
    Solvent limits h out :=
  hr.inv (solvent_empty grants hchunk) Solvent.request

end AtomHeap.Heap
