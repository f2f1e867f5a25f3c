import AtomHeap.Table.Chain
/-!
# Marking and sweeping

A cycle marks the atoms that its roots name and sweeps the rest: each atom above the builtin
boundary that is neither referenced nor marked is a candidate, and goes if the release hook of its
type, or else the fallback hook, agrees. A candidate without any hook stays.
-/

namespace AtomHeap

/-- A question put to a release hook. -/
structure ReleaseCall where
  /-- The type whose hook was asked, with its name; none for the fallback hook. -/
  asked : Option (BlobId × String)
  atom : Atom
  /-- Whether the atom may go. -/
  answer : Bool
  deriving DecidableEq, Repr

namespace Table

/-! ## Marks -/

/-- From now on, atoms that are touched are marked. -/
def beginMarking (t : Table) : Table := { t with marking := true }

/-- Marks an atom, if it is live and not builtin. -/
def mark (t : Table) (a : Atom) : Table :=
  if a.index.toNat < t.builtin then t
  else
    match t.entry a with
    | .ok e => t.setEntry a.index.toNat (some { e with marked := true })
    | .error _ => t

def applyMarks (t : Table) (atoms : List Atom) : Table := atoms.foldl mark t

def abortMarking (t : Table) : Table :=
  { t with
    marking := false
    slots := t.slots.map fun s => { s with entry := s.entry.map ({ · with marked := false }) } }

/-! ## The sweep -/

/-- Empties a slot in use. The block that its payload filled is handed back. -/
def destroy (t : Table) (index : Nat) : Except Fault (Option (Address × Nat) × Table) := do
  let s ← t.slot index
  match s.entry with
  | none => return (none, t)
  | some e =>
    let t ← t.unlink index e
    let count ← checkedSub t.count 1
    let bytes ← checkedSub t.bytes e.payload.copied
    return (e.payload.block?,
      { t with
        slots := t.slots.modify index fun s => { generation := s.generation + 1, entry := none }
        holes := t.holes.insert index
        count
        bytes })

/-- Asks the hook that decides about an atom of a type, if there is one. -/
def askRelease (t : Table) (blob : BlobId) (atom : Atom) : Option (ReleaseCall × Table) :=
  match t.blobs.askRelease blob atom with
  | some (answer, blobs) =>
    some (⟨some (blob, ((t.blobs.get? blob).map (·.name)).getD ""), atom, answer⟩, { t with blobs })
  | none =>
    t.fallback.map fun (hook, asked) =>
      (⟨none, atom, hook asked atom⟩, { t with fallback := some (hook, asked + 1) })

/-- What a sweep did so far. -/
structure Swept where
  /-- The questions put to release hooks, in order. -/
  calls : Array ReleaseCall := #[]
  /-- The atoms destroyed, in order. -/
  destroyed : Array Atom := #[]
  /-- The blocks of their payloads, with the lengths asked for. -/
  freed : Array (Address × Nat) := #[]
  deriving DecidableEq, Repr

def Swept.ask : Swept → ReleaseCall → Swept
  | ⟨calls, destroyed, freed⟩, call => ⟨calls.push call, destroyed, freed⟩

/-- Notes that an atom was destroyed, and the block of its payload if it had one. -/
def Swept.destroy : Swept → Atom → Option (Address × Nat) → Swept
  | ⟨calls, destroyed, freed⟩, atom, block =>
    ⟨calls, destroyed.push atom, freed ++ block.toList⟩

def sweepSlot (t : Table) (swept : Swept) (index : Nat) : Except Fault (Swept × Table) := do
  let s ← t.slot index
  match s.entry with
  | none => return (swept, t)
  | some e =>
    if e.refs = 0 ∧ ¬ e.marked then
      match t.askRelease e.blob (s.atom index) with
      | none => return (swept, t)
      | some (call, t) =>
        if call.answer then
          let (block, t) ← t.destroy index
          return ((swept.ask call).destroy (s.atom index) block, t)
        else return (swept.ask call, t)
    else return (swept, t.setEntry index (some { e with marked := false }))

def sweepSlots (t : Table) (swept : Swept) : List Nat → Except Fault (Swept × Table)
  | [] => .ok (swept, t)
  | index :: rest => do
    let (swept, t) ← t.sweepSlot swept index
    t.sweepSlots swept rest

/-- Destroys every atom above the builtin boundary that is neither referenced nor marked and whose
release hook agrees, and ends marking. -/
def sweep (t : Table) : Except Fault (Swept × Table) := do
  let (swept, t) ← t.sweepSlots {} (List.range' t.builtin (t.slots.size - t.builtin))
  return (swept, { t with marking := false, nonGarbage := t.count })

end Table

end AtomHeap
