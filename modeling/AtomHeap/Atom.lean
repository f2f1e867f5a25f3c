/-!
# Atoms and atom words

An atom is the identity of an interned value: the index of its slot and the generation of that slot,
so that a handle kept past the slot's reuse can be told from a current one.

As a 64-bit machine word an atom is, from the low end, the 7-bit tag, the index in a field of 33
bits, and the 24-bit generation. `Atom.ofWord?` accepts exactly the words that `Atom.toWord` makes,
which is what makes a scan of arbitrary words for atoms safe.
-/

namespace AtomHeap

/-- The identity of an interned value. -/
structure Atom where
  /-- The number of the slot. -/
  index : UInt32
  /-- How often the slot had been emptied, modulo `2 ^ 24`, when the atom was made. -/
  generation : BitVec 24
  deriving DecidableEq, Repr, Inhabited

namespace Atom

/-- The low bits that tell an atom word from other words. -/
def tag : Nat := 5

/-- How many values the tag field has: it is 7 bits wide. -/
def tagSpan : Nat := 128

/-- How many values the index field has: it is 33 bits wide, one more than an index needs. -/
def indexSpan : Nat := 2 * UInt32.size

def toWord (a : Atom) : UInt64 :=
  .ofNat ((a.generation.toNat * indexSpan + a.index.toNat) * tagSpan + tag)

/-- The atom of a tagged machine word; none for any other word. -/
def ofWord? (w : UInt64) : Option Atom :=
  let index := w.toNat / tagSpan % indexSpan
  if w.toNat % tagSpan = tag ∧ index < UInt32.size then
    some ⟨.ofNat index, .ofNat 24 (w.toNat / tagSpan / indexSpan)⟩
  else none

/-- Atoms are ordered by index, and by generation within one index. -/
instance : Ord Atom where
  compare a b := (compare a.index b.index).then (compare a.generation.toNat b.generation.toNat)

/-- The different atoms of a list, in ascending order. -/
def sorted (atoms : List Atom) : List Atom :=
  (atoms.mergeSort fun a b => (compare a b).isLE).eraseReps

end Atom

end AtomHeap
