import AtomHeap.Memory.Address
/-!
# Free lists

The free blocks of one size class, the one freed last on top. The number of blocks is kept beside
them. `blocks` is the view: each operation is described by what it does to that list, and
`Counted`, which all of them keep, says that the number is right.
-/

namespace AtomHeap

/-- A stack of free blocks. -/
structure FreeList where
  /-- The blocks, from the top. -/
  blocks : List Address := []
  /-- How many there are. -/
  length : Nat := 0
  deriving DecidableEq, Repr, Inhabited

namespace FreeList

def push (l : FreeList) (b : Address) : FreeList := ⟨b :: l.blocks, l.length + 1⟩

def pop? (l : FreeList) : Option (Address × FreeList) :=
  match l.blocks with
  | [] => none
  | b :: rest => some (b, ⟨rest, l.length - 1⟩)

/-- Takes the topmost blocks, as many as there are up to `n`; the second list is what stays. -/
def splitTop (l : FreeList) (n : Nat) : FreeList × FreeList :=
  if n ≥ l.length then (l, {})
  else (⟨l.blocks.take n, n⟩, ⟨l.blocks.drop n, l.length - n⟩)

/-- Puts all blocks of `top` on top, in their order. -/
def append (l top : FreeList) : FreeList := ⟨top.blocks ++ l.blocks, l.length + top.length⟩

/-- The number kept beside the blocks is theirs. -/
def Counted (l : FreeList) : Prop := l.length = l.blocks.length

theorem Counted.push {l : FreeList} (h : l.Counted) (b : Address) : (l.push b).Counted := by
  simp_all [Counted, FreeList.push]

theorem Counted.pop {l r : FreeList} {b : Address} (h : l.Counted) (hp : l.pop? = some (b, r)) :
    r.Counted := by
  unfold pop? at hp
  split at hp <;> simp_all [Counted]
  obtain ⟨rfl, rfl⟩ := hp
  rfl

theorem Counted.splitTop {l : FreeList} (h : l.Counted) (n : Nat) :
    (l.splitTop n).1.Counted ∧ (l.splitTop n).2.Counted := by
  unfold FreeList.splitTop
  split
  · exact ⟨h, rfl⟩
  · simp_all [Counted]
    omega

theorem Counted.append {l top : FreeList} (h : l.Counted) (ht : top.Counted) :
    (l.append top).Counted := by
  simp_all [Counted, FreeList.append, Nat.add_comm]

theorem blocks_push (l : FreeList) (b : Address) : (l.push b).blocks = b :: l.blocks := rfl

theorem pop?_eq_some_iff {l r : FreeList} {b : Address} :
    l.pop? = some (b, r) ↔ l.blocks = b :: r.blocks ∧ r.length = l.length - 1 := by
  unfold pop?
  split <;> simp_all
  grind [FreeList]

theorem pop?_eq_none_iff {l : FreeList} : l.pop? = none ↔ l.blocks = [] := by
  unfold pop?
  split <;> simp_all

theorem blocks_splitTop {l : FreeList} (h : l.Counted) (n : Nat) :
    (l.splitTop n).1.blocks = l.blocks.take n ∧ (l.splitTop n).2.blocks = l.blocks.drop n := by
  unfold splitTop
  split
  · simp_all [Counted, List.take_of_length_le, List.drop_of_length_le]
  · simp

theorem blocks_append (l top : FreeList) : (l.append top).blocks = top.blocks ++ l.blocks := rfl

end FreeList

end AtomHeap
