import AtomHeap.Table.Chain
/-!
# References

Callers own references to the atoms they got by interning or took with `register`. Builtin atoms are
not counted. While a cycle is marking, an atom that is interned again, looked up, or left without
references is marked, since a caller may hold it in a place that was already scanned.
-/

namespace AtomHeap

/-- The most references that are counted; from here on the count stays. -/
def maxRefs : Nat := UInt32.size - 1

namespace Table

/-- Hands out another reference to the atom of a slot. -/
def reuse (t : Table) (index : Nat) : Except Fault (Atom × Table) := do
  let s ← t.slot index
  let t := match s.entry with
    | none => t
    | some e =>
      t.setEntry index <| some { e with
        refs := if index < t.builtin then e.refs else min (e.refs + 1) maxRefs
        marked := t.marking || e.marked }
  return (s.atom index, t)

/-- Marks the atom of a slot that a caller came upon, if a cycle is marking. -/
def notice (t : Table) (index : Nat) (s : Slot) : Table :=
  match s.entry with
  | none => t
  | some e => if t.marking then t.setEntry index (some { e with marked := true }) else t

/-- The atom of a type for some bytes, without creating it or taking a reference. -/
def lookup (t : Table) (span : Span) (blob : BlobId) : Except Fault (Option Atom × Table) :=
  match t.blobs.get? blob with
  | none => .ok (none, t)
  | some type => do
    match ← t.find (Hash.ofBytes span.bytes) span blob type.flags.nocopy with
    | none => return (none, t)
    | some index =>
      let s ← t.slot index
      return (some (s.atom index), t.notice index s)

def register (t : Table) (a : Atom) : Except AtomError Unit × Table :=
  match t.entry a with
  | .error error => (.error error, t)
  | .ok e =>
    if a.index.toNat < t.builtin then (.ok (), t)
    else (.ok (), t.setEntry a.index.toNat (some { e with refs := min (e.refs + 1) maxRefs }))

def unregister (t : Table) (a : Atom) : Except AtomError Unit × Table :=
  match t.entry a with
  | .error error => (.error error, t)
  | .ok e =>
    if a.index.toNat < t.builtin then (.ok (), t)
    else if e.refs = 0 then (.error .underflow, t)
    else
      let refs := e.refs - 1
      (.ok (), t.setEntry a.index.toNat
        (some { e with refs, marked := e.marked || (t.marking && refs = 0) }))

end Table

end AtomHeap
