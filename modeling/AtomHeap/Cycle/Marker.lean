import AtomHeap.Atom
/-!
# Markers and root stacks

A marker collects the atoms that a thread's roots name. Words that come from an unknown place, such
as a raw stack, can be given to it as they are: it takes those that are atoms and leaves the others.
A root stack is a stack of atoms that serves as the roots of a thread.
-/

namespace AtomHeap

/-- The atoms reported so far. -/
structure Marker where
  /-- The atoms, in the order of their reports. -/
  atoms : Array Atom := #[]
  deriving DecidableEq, Repr

namespace Marker

def mark (m : Marker) (a : Atom) : Marker := ⟨m.atoms.push a⟩

def markWord (m : Marker) (word : UInt64) : Bool × Marker :=
  match Atom.ofWord? word with
  | some a => (true, m.mark a)
  | none => (false, m)

def markWords (m : Marker) (words : List UInt64) : Marker :=
  words.foldl (fun m word => (m.markWord word).2) m

def length (m : Marker) : Nat := m.atoms.size

def isEmpty (m : Marker) : Bool := m.atoms.isEmpty

theorem toList_mark (m : Marker) (a : Atom) : (m.mark a).atoms.toList = m.atoms.toList ++ [a] := by
  simp [mark]

theorem toList_markWords (m : Marker) (words : List UInt64) :
    (m.markWords words).atoms.toList = m.atoms.toList ++ words.filterMap Atom.ofWord? := by
  unfold markWords
  induction words generalizing m with
  | nil => simp
  | cons word words ih =>
    rw [List.foldl_cons, ih]
    cases h : Atom.ofWord? word <;> simp [markWord, toList_mark, h]

end Marker

/-- A stack of atoms. -/
structure RootStack where
  /-- The atoms, from the top. -/
  atoms : List Atom := []
  deriving DecidableEq, Repr

namespace RootStack

def push (s : RootStack) (a : Atom) : RootStack := ⟨a :: s.atoms⟩

def pop (s : RootStack) : Option Atom × RootStack := (s.atoms.head?, ⟨s.atoms.tail⟩)

def length (s : RootStack) : Nat := s.atoms.length

def isEmpty (s : RootStack) : Bool := s.atoms.isEmpty

def report (s : RootStack) (m : Marker) : Marker := s.atoms.foldr (fun a m => m.mark a) m

theorem toList_report (s : RootStack) (m : Marker) :
    (s.report m).atoms.toList = m.atoms.toList ++ s.atoms.reverse := by
  obtain ⟨atoms⟩ := s
  unfold report
  induction atoms with
  | nil => simp
  | cons a atoms ih => simp [Marker.toList_mark, ih]

end RootStack

end AtomHeap
