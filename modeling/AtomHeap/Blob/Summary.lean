import AtomHeap.Blob.Type
import AtomHeap.Text.Quoted
/-!
# One-line summaries of blob types
-/

namespace AtomHeap

/-- A blob type on one line: its name in quotes, its flags as a number, and which hooks it has. -/
def BlobType.summary (t : BlobType) : String :=
  s!"BlobType \x7b name: {Text.quoted t.name}, flags: BlobFlags({t.flags.bits}), " ++
    s!"acquire: {t.acquire.isSome}, release: {t.release.isSome} \x7d"

end AtomHeap
