import AtomHeap.Memory.FreeList
import Mathlib.Data.PFun
/-!
# Free lists in memory

A free block is at least a word long, and nobody reads it. So a free list takes no memory of its own: the first
word of each block on it holds the address of the block below, and all that is kept elsewhere is the address of
the top block and how many blocks there are. `LinkedList` is a free list kept like that. Its operations go from
block to block along the links; what they do to the blocks is what those of `FreeList` do.
-/

namespace AtomHeap

/-- What the first words of blocks hold, read as links. -/
abbrev Links := Address → Option Address

def Links.write (m : Links) (b : Address) (link : Option Address) : Links :=
  fun a => if a = b then link else m a

/-- The block a number of links below another one, or the bottom one if there are not so many. -/
def Links.below (m : Links) : Nat → Address → Address
  | 0, b => b
  | n + 1, b =>
    match m b with
    | some next => m.below n next
    | none => b

/-- The block where the links from another one end, if they ever do. -/
def Links.bottom (m : Links) : Address →. Address :=
  PFun.fix fun b =>
    match m b with
    | some next => Part.some (.inr next)
    | none => Part.some (.inl b)

theorem Links.bottom_of_none {m : Links} {b : Address} (h : m b = none) : m.bottom b = Part.some b :=
  Part.eq_some_iff.2 (PFun.fix_stop (by simp [h]))

theorem Links.bottom_of_some {m : Links} {b next : Address} (h : m b = some next) : m.bottom b = m.bottom next :=
  PFun.fix_fwd_eq (by simp [h])

/-- A stack of free blocks that are linked to each other. -/
structure LinkedList where
  top : Option Address := none
  /-- How many blocks there are. -/
  length : Nat := 0
  deriving DecidableEq, Repr

namespace LinkedList

def push (l : LinkedList) (m : Links) (b : Address) : LinkedList × Links :=
  (⟨some b, l.length + 1⟩, m.write b l.top)

def pop? (l : LinkedList) (m : Links) : Option (Address × LinkedList) :=
  match l.top with
  | none => none
  | some b => some (b, ⟨m b, l.length - 1⟩)

/-- Takes the topmost blocks, as many as there are up to `n`; the second list is what stays. The list is cut
below the last block that is taken. -/
def splitTop (l : LinkedList) (m : Links) (n : Nat) : (LinkedList × LinkedList) × Links :=
  match l.top with
  | none => (({}, l), m)
  | some top =>
    if n = 0 then (({}, l), m)
    else if n ≥ l.length then ((l, {}), m)
    else
      let last := m.below (n - 1) top
      ((⟨some top, n⟩, ⟨m last, l.length - n⟩), m.write last none)

/-- Puts all blocks of `top` on top, in their order, by a link from the bottom one. It never ends if `top` has no
bottom. -/
def append (l : LinkedList) (m : Links) (top : LinkedList) : Part (LinkedList × Links) :=
  match top.top with
  | none => Part.some (l, m)
  | some b => do
    let last ← m.bottom b
    return (⟨some b, l.length + top.length⟩, m.write last l.top)

end LinkedList

end AtomHeap
