import AtomHeap.Table.Chain
/-!
# New atoms

A new atom takes the lowest hole, or a new slot at the end if there is none. With collection
switched off holes are never used.
-/

namespace AtomHeap.Table

/-- The slot for a new atom: the lowest hole, or else a new one. -/
def takeSlot (t : Table) : Nat × Table :=
  match if t.agcEnabled then t.holes.min? else none with
  | some index => (index, { t with holes := t.holes.erase index })
  | none => (t.slots.size, { t with slots := t.slots.push {} })

def insert (t : Table) (payload : Payload) (blob : BlobId) (hash : UInt64) :
    Except Fault (Atom × Table) := do
  let (index, t) := t.takeSlot
  let s ← t.slot index
  let t ← t.link index { payload, blob, hash, marked := t.marking }
  let count ← checkedAdd t.count 1
  return (s.atom index, ← { t with count }.growIfFull)

end AtomHeap.Table
