import AtomHeap.Store.Basic
import AtomHeap.Text.Wide
/-!
# Interning

Interning bytes as a type gives the atom that the type has for them, or makes one. What is done
under the table's lock is one step, `Store.internLocked`; the acquire hook of the type and the
request for a cycle follow it.
-/

namespace AtomHeap

/-- What interning found or made. -/
structure Interned where
  atom : Atom
  /-- Whether the atom was made for this. -/
  isNew : Bool
  /-- Whether there are so many atoms now that a cycle is to be asked for. -/
  wantsCycle : Bool
  deriving DecidableEq, Repr

namespace Store

/-- The slot of the atom that a unique type has for a span. -/
def existing? (s : Store) (type : BlobType) (blob : BlobId) (hash : UInt64) (span : Span) :
    Except Fault (Option Nat) :=
  if type.flags.unique then s.table.find hash span blob type.flags.nocopy else .ok none

def copyBytes (s : Store) (bytes : List UInt8) :
    Except Fault (Except AtomError Payload × Store) := do
  if bytes.isEmpty then return (.ok .empty, s)
  else
    match ← s.alloc (some s.table.pool) bytes.length with
    | (.error e, s) => return (.error (.alloc e), s)
    | (.ok block, ⟨heap, table, calls⟩) =>
      let used ← checkedAdd table.bytes bytes.length
      return (.ok (.pooled block bytes), ⟨heap, { table with bytes := used }, calls⟩)

/-- The payload for a new atom of a type. A type that does not copy keeps bytes that last, and
refuses others. -/
def payloadFor (s : Store) (type : BlobType) (span : Span) (lasting : Bool) :
    Except Fault (Except AtomError Payload × Store) :=
  if type.flags.nocopy then
    match span.place with
    | some place =>
      if lasting then .ok (.ok (.kept place span.bytes), s)
      else .ok (.error (.staticNeeded type.name), s)
    | none => .ok (.error (.staticNeeded type.name), s)
  else s.copyBytes span.bytes

def create (s : Store) (type : BlobType) (blob : BlobId) (hash : UInt64) (span : Span)
    (lasting : Bool) : Except Fault (Except AtomError Interned × Store) := do
  match ← s.payloadFor type span lasting with
  | (.error e, s) => return (.error e, s)
  | (.ok payload, ⟨heap, table, calls⟩) =>
    let (atom, table) ← table.insert payload blob hash
    let wantsCycle ← table.shouldCollect
    return (.ok { atom, isNew := true, wantsCycle }, ⟨heap, table, calls⟩)

/-- Hands out another reference to the atom of a slot. -/
def reuse : Store → Nat → Except Fault (Interned × Store)
  | ⟨heap, table, calls⟩, index => do
    let (atom, table) ← table.reuse index
    return ({ atom, isNew := false, wantsCycle := false }, ⟨heap, table, calls⟩)

/-- Finds or makes the atom of a type for a span. -/
def internLocked (s : Store) (span : Span) (lasting : Bool) (blob : BlobId) :
    Except Fault (Except AtomError Interned × Store) :=
  match s.table.blobs.isRegistered blob, s.table.blobs.get? blob with
  | true, some type => do
    let hash := Hash.ofBytes span.bytes
    match ← s.existing? type blob hash span with
    | some index =>
      let (found, s) ← s.reuse index
      return (.ok found, s)
    | none => s.create type blob hash span lasting
  | _, _ => .ok (.error .unknownBlob, s)

/-- Asks for a cycle if interning left so many atoms that one is due. -/
def heed (s : Store) (i : Interned) : Store :=
  if i.wantsCycle then s.requestCollection.2 else s

/-- Runs an acquire hook for a new atom. Text has no acquire hook itself, so none follows. -/
def runAcquire (s : Store) (hook : AcquireHook) (atom : Atom) :
    Except Fault (AcquireAnswer × Store) :=
  match hook with
  | .observe => .ok (.observed, s)
  | .register =>
    let (result, s) := s.register atom
    .ok (.counted result, s)
  | .unregister =>
    let (result, s) := s.unregister atom
    .ok (.counted result, s)
  | .internText bytes => do
    match ← s.internLocked { bytes } false BlobId.text with
    | (.ok i, s) => return (.interned (.ok i.atom), s.heed i)
    | (.error e, s) => return (.interned (.error e), s)

/-- Runs the acquire hook of a type for a new atom, if it has one, and logs it. -/
def acquire (s : Store) (blob : BlobId) (atom : Atom) : Except Fault Store :=
  match s.table.blobs.get? blob with
  | none => .ok s
  | some type =>
    match type.acquire with
    | none => .ok s
    | some hook => do
      let refs := (s.table.refsOf atom).toOption.getD 0
      let (answer, s) ← s.runAcquire hook atom
      return { s with calls := s.calls.push (.acquired (blob, type.name) atom refs answer) }

/-- Interns a span as a type. For a new atom the acquire hook of the type runs, and then a cycle is
asked for if one is due. -/
def internSpan (s : Store) (span : Span) (lasting : Bool) (blob : BlobId) :
    Except Fault (Except AtomError Interned × Store) := do
  match ← s.internLocked span lasting blob with
  | (.error e, s) => return (.error e, s)
  | (.ok i, s) =>
    let s ← if i.isNew then s.acquire blob i.atom else pure s
    return (.ok i, s.heed i)

def intern (s : Store) (span : Span) (blob : BlobId) :
    Except Fault (Except AtomError Interned × Store) := s.internSpan span false blob

/-- Interns bytes that last, which a type that does not copy then keeps. -/
def internStatic (s : Store) (span : Span) (blob : BlobId) :
    Except Fault (Except AtomError Interned × Store) := s.internSpan span true blob

def internStr (s : Store) (text : String) : Except Fault (Except AtomError Interned × Store) :=
  s.intern { bytes := Text.utf8Bytes text } BlobId.text

def internWide (s : Store) (text : String) : Except Fault (Except AtomError Interned × Store) :=
  s.intern { bytes := Text.wideBytes text } BlobId.wide

/-- Interns strings as text, up to the first error. -/
def internAll (s : Store) : List String → Except Fault (Except AtomError (List Atom) × Store)
  | [] => .ok (.ok [], s)
  | name :: names => do
    match ← s.internStr name with
    | (.error e, s) => return (.error e, s)
    | (.ok i, s) =>
      match ← s.internAll names with
      | (.error e, s) => return (.error e, s)
      | (.ok atoms, s) => return (.ok (i.atom :: atoms), s)

/-- Interns names as text and makes all atoms there are then builtin. -/
def initBuiltins (s : Store) (names : List String) :
    Except Fault (Except AtomError (List Atom) × Store) := do
  match ← s.internAll names with
  | (.error e, s) => return (.error e, s)
  | (.ok atoms, s) => return (.ok atoms, { s with table := s.table.lockAtoms })

/-- The string of an atom: wide text is read as such and all else as UTF-8. -/
def stringOf (s : Store) (a : Atom) : Except AtomError String := do
  let e ← s.table.entry a
  return if e.blob = BlobId.wide then Text.ofWide e.payload.bytes else Text.ofUtf8 e.payload.bytes

/-- Where the copy of an atom's bytes lies, if it has one. -/
def placeOf (s : Store) (a : Atom) : Option Heap.Place :=
  match s.table.entry a with
  | .ok e => e.payload.block?.map fun (block, _) => s.heap.place block
  | .error _ => none

end Store

end AtomHeap
