import AtomHeap.AtomError
import AtomHeap.Blob.Type
/-!
# The registry of blob types

A list of all types ever registered. A type's number is its place in the list, so it never changes;
withdrawing a type only takes its name out of use. Numbers have 32 bits: no two types share one unless
there are more than `2 ^ 32` of them. Three types are there from the start: text, wide text, and the
type that atoms get whose own type was withdrawn.
-/

namespace AtomHeap

/-- The number of a blob type. -/
abbrev BlobId := UInt32

namespace BlobId

/-- The place of a type in the list. -/
instance : Coe BlobId Nat := ⟨UInt32.toNat⟩

def text : BlobId := 0

def wide : BlobId := 1

/-- Atoms whose type was withdrawn while they were alive. -/
def discarded : BlobId := 2

end BlobId

/-- A blob type and its standing. -/
structure Registration where
  type : BlobType
  /-- Whether the type is still in use. -/
  registered : Bool := true
  /-- How often its release hook was asked. -/
  asked : Nat := 0

/-- All types ever registered, in order. -/
structure BlobRegistry where
  types : Array Registration

namespace BlobRegistry

/-- The types that are there from the start. Each agrees to every release. -/
def initial : BlobRegistry :=
  let always : Option ReleaseHook := some fun _ _ => true
  { types := #[
      { type := { name := "text", flags := { unique := true, text := true }, release := always } },
      { type := { name := "ucs", flags := { unique := true, text := true }, release := always } },
      { type := { name := "<discarded>", flags := {}, release := always } }] }

def get? (r : BlobRegistry) (id : BlobId) : Option BlobType := r.types[id.toNat]?.map (·.type)

def isRegistered (r : BlobRegistry) (id : BlobId) : Bool :=
  match r.types[id.toNat]? with
  | some t => t.registered
  | none => false

/-- The number of the type in use that has a name. -/
def find? (r : BlobRegistry) (name : String) : Option BlobId :=
  (r.types.findIdx? fun t => t.registered && t.type.name == name).map UInt32.ofNat

/-- Puts a type into use, under a name that no type in use has. -/
def register (r : BlobRegistry) (type : BlobType) : Except AtomError (BlobId × BlobRegistry) :=
  if (r.find? type.name).isSome then .error (.blobExists type.name)
  else .ok (.ofNat r.types.size, ⟨r.types.push { type }⟩)

/-- Takes a type out of use; the discarded type always stays. -/
def unregister (r : BlobRegistry) (id : BlobId) : Except AtomError BlobRegistry :=
  if id ≠ BlobId.discarded ∧ r.isRegistered id then
    .ok ⟨r.types.modify id.toNat fun t => { t with registered := false }⟩
  else .error .unknownBlob

/-- The types in use, in the order of the list. -/
def registered (r : BlobRegistry) : List (BlobId × String) :=
  r.types.toList.zipIdx.filterMap fun (t, i) =>
    if t.registered then some (.ofNat i, t.type.name) else none

/-- Asks the release hook of a type about an atom; none if it has no hook. -/
def askRelease (r : BlobRegistry) (id : BlobId) (atom : Atom) : Option (Bool × BlobRegistry) :=
  match r.types[id.toNat]? with
  | none => none
  | some t =>
    t.type.release.map fun hook =>
      (hook t.asked atom, ⟨r.types.modify id.toNat fun t => { t with asked := t.asked + 1 }⟩)

end BlobRegistry

end AtomHeap
