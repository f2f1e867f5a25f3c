import AtomHeap.Memory.Size
/-!
# Errors of the atom table

Why an operation on atoms or blob types was not carried out.
-/

namespace AtomHeap

/-- Why an operation on atoms or blob types was not carried out. -/
inductive AtomError
  /-- There was no memory for the bytes. -/
  | alloc (cause : AllocError)
  /-- No slot has the atom's index. -/
  | unknownAtom
  /-- The atom was collected. -/
  | stale
  /-- More references were given back than there were. -/
  | underflow
  /-- The type keeps the caller's bytes, and these do not last. -/
  | staticNeeded (type : String)
  /-- A type in use has the name. -/
  | blobExists (name : String)
  /-- No type in use has the number. -/
  | unknownBlob
  deriving DecidableEq, Repr

def AtomError.message : AtomError → String
  | .alloc cause => cause.message
  | .unknownAtom => "no atom exists at that index"
  | .stale => "atom handle refers to a collected atom"
  | .underflow => "atom reference count underflow"
  | .staticNeeded type => s!"blob type `{type}` does not copy its data and needs static bytes"
  | .blobExists name => s!"blob type `{name}` is already registered"
  | .unknownBlob => "blob type is not registered"

end AtomHeap
