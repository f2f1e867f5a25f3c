import AtomHeap.Atom
/-!
# Blob types

A blob type says what kind of data an atom stands for: whether equal data is one atom, whether it is
text, and whether the table copies it. A type may have an acquire hook, run once for each new atom,
and a release hook, which decides whether an unreachable atom may go.
-/

namespace AtomHeap

/-- What holds of the data of a blob type. -/
structure BlobFlags where
  /-- Equal data always is the same atom. -/
  unique : Bool := false
  /-- The data can be read back as a string. -/
  text : Bool := false
  /-- The table keeps the caller's lasting bytes instead of a copy, and only the very same bytes in
  memory are equal. -/
  nocopy : Bool := false
  deriving DecidableEq, Repr

namespace BlobFlags

def contains (a b : BlobFlags) : Bool :=
  (!b.unique || a.unique) && (!b.text || a.text) && (!b.nocopy || a.nocopy)

def union (a b : BlobFlags) : BlobFlags :=
  ⟨a.unique || b.unique, a.text || b.text, a.nocopy || b.nocopy⟩

def bits (f : BlobFlags) : Nat :=
  f.unique.toNat + 2 * f.text.toNat + 4 * f.nocopy.toNat

end BlobFlags

/-- What is done with each new atom of a type, after the table is open to others again. -/
inductive AcquireHook
  /-- Takes note of it. -/
  | observe
  /-- Takes a reference to it. -/
  | register
  /-- Gives back a reference to it. -/
  | unregister
  /-- Interns these bytes as text. -/
  | internText (bytes : List UInt8)
  deriving DecidableEq, Repr

/-- Decides whether an unreachable atom may go, given how often the hook was asked before. -/
abbrev ReleaseHook := Nat → Atom → Bool

/-- A kind of data that can be interned. -/
structure BlobType where
  name : String
  flags : BlobFlags
  acquire : Option AcquireHook := none
  release : Option ReleaseHook := none

end AtomHeap
