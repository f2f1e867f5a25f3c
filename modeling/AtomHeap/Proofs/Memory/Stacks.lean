import AtomHeap.Proofs.Memory.Pool
import Mathlib.Logic.Function.Basic
/-!
# The blocks on the free lists

`Pool.stack p c` are the free blocks of class `c` on the list of a pool, from the top. Taking blocks and putting
them back is stated by what it does to these lists, all of which but one stay as they are.
-/

namespace AtomHeap.Pool

variable {allocFast c d n size : Nat} {p q : Pool} {s : Shelf} {b : Address} {top : FreeList}

/-- The free blocks of a class that a pool has, from the top. -/
def stack (p : Pool) (c : Nat) : List Address :=
  match p.shelves[c]? with
  | some s => s.free.blocks
  | none => []

theorem stack_of_shelf (hs : p.shelf c = .ok s) : p.stack c = s.free.blocks := by
  simp only [stack, shelves_of_shelf hs]

theorem stack_setShelf (hs : p.shelf c = .ok s) (t : Shelf) :
    (p.setShelf c t).stack = Function.update p.stack c t.free.blocks := by
  have hlt := (Array.getElem?_eq_some_iff.1 (shelves_of_shelf hs)).1
  funext d
  by_cases hd : d = c
  · subst hd
    rw [Function.update_self]
    simp only [stack, setShelf, Array.getElem?_setIfInBounds_self_of_lt hlt]
  · rw [Function.update_of_ne hd]
    simp only [stack, setShelf, Array.getElem?_setIfInBounds_ne (Ne.symm hd)]

/-- The number kept beside a list is right. -/
theorem stack_freeCount (hp : p.Sound allocFast) (hn : p.freeCount c = .ok n) : (p.stack c).length = n := by
  obtain ⟨s, hs, hn⟩ := bind_eq_ok_iff.1 hn
  cases hn
  rw [stack_of_shelf hs]
  exact (hp.shelves c s (shelves_of_shelf hs)).counted.symm

theorem stack_pop_some (h : p.pop c = .ok (some b, q)) :
    ∃ rest, p.stack c = b :: rest ∧ q.stack = Function.update p.stack c rest := by
  obtain ⟨s, hs, h⟩ := bind_eq_ok_iff.1 h
  split at h
  · rename_i free hpop
    cases h
    exact ⟨free.blocks, (stack_of_shelf hs).trans (FreeList.pop?_eq_some_iff.1 hpop).1, stack_setShelf hs _⟩
  · cases h

theorem stack_pop_none (h : p.pop c = .ok (none, q)) : q = p ∧ p.stack c = [] := by
  obtain ⟨s, hs, h⟩ := bind_eq_ok_iff.1 h
  split at h
  · cases h
  · rename_i hpop
    cases h
    exact ⟨rfl, (stack_of_shelf hs).trans (FreeList.pop?_eq_none_iff.1 hpop)⟩

theorem stack_push (h : p.push c b = .ok q) : q.stack = Function.update p.stack c (b :: p.stack c) := by
  obtain ⟨s, hs, h⟩ := bind_eq_ok_iff.1 h
  cases h
  rw [stack_setShelf hs, stack_of_shelf hs]
  rfl

theorem stack_count {change : Int} (h : p.count c change = .ok q) : q.stack = p.stack := by
  obtain ⟨s, hs, h⟩ := bind_eq_ok_iff.1 h
  cases h
  rw [stack_setShelf hs, ← stack_of_shelf hs, Function.update_eq_self]

theorem stack_splitTop (hp : p.Sound allocFast) (h : p.splitTop c n = .ok (top, q)) :
    top.blocks = (p.stack c).take n ∧ q.stack = Function.update p.stack c ((p.stack c).drop n) := by
  obtain ⟨s, hs, h⟩ := bind_eq_ok_iff.1 h
  obtain ⟨htop, hrest⟩ := FreeList.blocks_splitTop (hp.shelves c s (shelves_of_shelf hs)).counted n
  rw [stack_of_shelf hs, ← htop, ← hrest]
  cases h
  exact ⟨rfl, stack_setShelf hs _⟩

theorem stack_append (h : p.append c top = .ok q) :
    q.stack = Function.update p.stack c (top.blocks ++ p.stack c) := by
  obtain ⟨s, hs, h⟩ := bind_eq_ok_iff.1 h
  cases h
  rw [stack_setShelf hs, stack_of_shelf hs]
  rfl

theorem stack_carve (h : p.carve? size = some (b, q)) : q.stack = p.stack := by
  obtain ⟨_, -, -, -, rfl⟩ := carve?_eq_some_iff.1 h
  rfl

theorem stack_takeSpace (p : Pool) : p.takeSpace.2.stack = p.stack := by
  unfold takeSpace
  split <;> rfl

theorem stack_empty (allocFast c : Nat) : (Pool.empty allocFast).stack c = [] := by
  unfold stack
  split
  · rename_i s hs
    simp only [Pool.empty, Array.getElem?_replicate, Option.ite_none_right_eq_some, Option.some.injEq] at hs
    rw [← hs.2]
  · rfl

theorem stack_eq_nil (hc : p.shelves.size ≤ c) : p.stack c = [] := by
  unfold stack
  rw [Array.getElem?_eq_none hc]

theorem stack_merge (hp : p.Sound allocFast) (hq : q.Sound allocFast) (c : Nat) :
    (p.merge q).stack c = p.stack c ++ q.stack c := by
  by_cases hc : c < SizeClass.count allocFast
  · obtain ⟨s, hs, -, -⟩ := hp.shelf hc
    obtain ⟨t, ht, -, -⟩ := hq.shelf hc
    simp only [stack, merge, Array.getElem?_zipWith, hs, ht, FreeList.blocks_append]
  · have hnone {r : Pool} (hr : r.shelves.size = SizeClass.count allocFast) : r.stack c = [] :=
      stack_eq_nil (hr ▸ Nat.le_of_not_lt hc)
    rw [hnone hp.size, hnone hq.size, hnone (by simp [merge, hp.size, hq.size]), List.append_nil]

end AtomHeap.Pool
