import AtomHeap.Session.State
/-!
# Atom steps
-/

namespace AtomHeap.Session

/-- Interning on behalf of a mutator, if one acts, and of the table otherwise. -/
def internBy (readRoots : MutatorId → SessionM (List Atom)) (actor : Actor) (span : Span)
    (blob : BlobId) : SessionM (Except AtomError Interned) :=
  match actor with
  | .mutator id => System.internFrom readRoots id span blob
  | _ => onStore (·.intern span blob)

/-- Looking up on behalf of a mutator, if one acts, and of the table otherwise. -/
def lookupBy (readRoots : MutatorId → SessionM (List Atom)) (actor : Actor) (span : Span)
    (blob : BlobId) : SessionM (Option Atom) :=
  match actor with
  | .mutator id => System.lookupFrom readRoots id span blob
  | _ => onStore (·.lookup span blob)

/-- Saves an atom that was interned. The answer says whether it is new if `tellNew`. -/
def saveInterned (as : Option String) (tellNew : Bool) (i : Interned) : SessionM Answer := do
  saveAtom as i.atom
  let place ← ask fun s => return s.store.placeOf i.atom
  return .interned i.atom (if tellNew then some i.isNew else none) place

def onTable {α : Type} (f : Table → Except AtomError (α × Table)) : SessionM α := do
  orFail <| ← onStore fun
    | ⟨heap, table, calls⟩ =>
      match f table with
      | .ok (a, table) => .ok (.ok a, ⟨heap, table, calls⟩)
      | .error e => .ok (.error e, ⟨heap, table, calls⟩)

def changeTable (f : Table → Table) : SessionM Unit := change fun s => return s.onTable f

/-- Gives up the table and all that goes with it. What stays is the heap. -/
def dropTable : SessionM Unit := fun
  | ⟨.system system, book⟩ => do return (.ok (), ⟨.heap (← system.store.close), book⟩)
  | state => .ok (.error (.unusable "there is no table"), state)

def AtomStep.perform (readRoots : MutatorId → SessionM (List Atom)) : AtomStep → SessionM Answer
  | .intern who source blob as => do
    let span ← spanOf source
    saveInterned as true (← orFail (← internBy readRoots (← actorOf who) span (← blobOf blob)))
  | .internStatic source blob as => do
    let span ← spanOf source
    let blob ← blobOf blob
    saveInterned as true (← orFail (← onStore (·.internStatic span blob)))
  | .internStr who text as => do
    let span : Span := { bytes := Text.utf8Bytes text }
    saveInterned as false (← orFail (← internBy readRoots (← actorOf who) span BlobId.text))
  | .internWide text as => do
    saveInterned as false (← orFail (← onStore (·.internWide text)))
  | .initBuiltins names => do
    let atoms ← orFail (← onStore (·.initBuiltins names))
    for (name, atom) in names.zip atoms do
      saveAtom (some name) atom
    return .atoms atoms
  | .lookup who source blob as => do
    let span ← spanOf source
    let atom ← lookupBy readRoots (← actorOf who) span (← blobOf blob)
    if let some atom := atom then
      if as.isSome then saveAtom as atom
    return .someAtom atom
  | .bytesOf atom => do
    let atom ← atomOf atom
    return .bytes (← orFail (← ask fun s => return s.store.table.bytesOf atom))
  | .stringOf atom => do
    let atom ← atomOf atom
    return .text (← orFail (← ask fun s => return s.store.stringOf atom))
  | .info atom => do
    let atom ← atomOf atom
    return .info (← ask fun s => return s.store.table.info atom)
  | .register atom => do
    let atom ← atomOf atom
    orFail (← onStore fun s => return s.register atom)
    return .done
  | .unregister atom => do
    let atom ← atomOf atom
    orFail (← onStore fun s => return s.unregister atom)
    return .done
  | .areLive atoms => do
    let atoms ← atoms.mapM atomOf
    return .live (← ask fun s => return atoms.map s.store.table.isLive)
  | .registerBlob type => do
    let id ← onTable (·.registerBlob type)
    onBook fun b => { b with blobs := b.blobs.insert type.name id }
    return .number id
  | .unregisterBlob blob => do
    let id ← blobOf blob
    onTable fun t => return ((), ← t.unregisterBlob id)
    return .done
  | .findBlob name => do
    return .someNumber (← ask fun s => return s.store.table.blobs.find? name)
  | .blobType blob => do
    let id ← blobOf blob
    return .blobType (← ask fun s => return s.store.table.blobs.get? id)
  | .blobNames => do
    return .blobNames (← ask fun s => return s.store.table.blobs.registered)
  | .setFallback hook => do
    changeTable (·.setFallback hook)
    return .done
  | .lockAtoms => do
    changeTable Table.lockAtoms
    return .done
  | .request => do
    return .truth (← onStore fun s => return s.requestCollection)
  | .tableStat => do
    return .tableStat (← ask fun s => s.store.table.stat)
  | .closeTable => do
    dropTable
    return .done

end AtomHeap.Session
