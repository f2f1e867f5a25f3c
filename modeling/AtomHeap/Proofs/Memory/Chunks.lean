import AtomHeap.Proofs.Memory.Requests
import Mathlib.Data.List.Nodup
/-!
# Chunks and the bytes reserved

`Heap.chunks` has the chunks of a heap as regions. What some regions are long together is how many bytes
they list, so `Heap.total` can be read off `coverage`, and what is known of the single bytes bounds the
sums. `Backed`, that the bytes reserved are those of the chunks, is kept by everything that asks for a
chunk or returns one.
-/

namespace AtomHeap.Heap

variable {h h' : Heap} {p q : Pool} {rs qs : List Region} {r : Region} {a : Address} {c size : Nat}
  {answer : Except AllocError Address}

/-! ## Sums of lengths, byte by byte -/

/-- The bytes of a region, in their order. -/
def bytesOf (r : Region) : List Address := (List.range r.length).map r.start.advance

theorem nodup_bytesOf (r : Region) : (bytesOf r).Nodup :=
  List.nodup_range.map fun _ _ hij => Nat.add_left_cancel (congrArg Address.offset hij)

theorem mem_bytesOf : a ∈ bytesOf r ↔ r.covers a = true := by
  rw [Region.covers_iff]
  simp only [bytesOf, List.mem_map, List.mem_range, Address.advance]
  constructor
  · rintro ⟨i, hi, rfl⟩
    exact ⟨rfl, Nat.le_add_right _ _, Nat.add_lt_add_left hi _⟩
  · rintro ⟨hchunk, hle, hlt⟩
    refine ⟨a.offset - r.start.offset, by omega, ?_⟩
    rw [hchunk, Nat.add_sub_cancel' hle]

theorem count_bytes (rs : List Region) (a : Address) : (rs.flatMap bytesOf).count a = coverage rs a := by
  induction rs with
  | nil => rfl
  | cons r rs ih =>
    rw [List.flatMap_cons, List.count_append, ih, coverage_cons, coverage_one, (nodup_bytesOf r).count]
    simp only [mem_bytesOf]

theorem length_bytes (rs : List Region) : (rs.flatMap bytesOf).length = total rs := by
  induction rs with
  | nil => rfl
  | cons r rs ih =>
    rw [List.flatMap_cons, List.length_append, ih, total_cons, bytesOf, List.length_map, List.length_range]

/-- Regions that cover no byte more often than others do are no longer than these. -/
theorem total_le_of_coverage (hle : ∀ a, coverage rs a ≤ coverage qs a) : total rs ≤ total qs := by
  rw [← length_bytes, ← length_bytes]
  refine (List.subperm_ext_iff.2 fun a _ => ?_).length_le
  rw [count_bytes, count_bytes]
  exact hle a

theorem total_eq_of_coverage (heq : ∀ a, coverage rs a = coverage qs a) : total rs = total qs :=
  Nat.le_antisymm (total_le_of_coverage fun a => Nat.le_of_eq (heq a))
    (total_le_of_coverage fun a => Nat.le_of_eq (heq a).symm)

/-! ## The chunks of a heap -/

/-- The numbers that a chunk of the heap can have. -/
def chunkIds (h : Heap) : List ChunkId :=
  (List.range' h.firstCarving h.carving.size).map .carving ++ (List.range h.big.size).map .big

/-- A chunk, if the heap has it. -/
def chunkRegion? (h : Heap) (k : ChunkId) : Option Region := (h.chunkLength? k).map (⟨k.start, ·⟩)

def chunks (h : Heap) : List Region := h.chunkIds.filterMap h.chunkRegion?

/-- The chunks that are big blocks. -/
def bigChunks (h : Heap) : List Region := ((List.range h.big.size).map .big).filterMap h.chunkRegion?

theorem nodup_chunkIds (h : Heap) : h.chunkIds.Nodup := by
  refine List.nodup_append.2 ⟨?_, ?_, ?_⟩
  · exact (List.nodup_range' 1).map fun _ _ => ChunkId.carving.inj
  · exact List.nodup_range.map fun _ _ => ChunkId.big.inj
  · intro k hk l hl
    obtain ⟨i, -, rfl⟩ := List.mem_map.1 hk
    obtain ⟨j, -, rfl⟩ := List.mem_map.1 hl
    exact nofun

theorem lt_of_big {n length : Nat} (hlen : h.chunkLength? (.big n) = some length) : n < h.big.size :=
  (Array.getElem?_eq_some_iff.1 (Option.join_eq_some_iff.1 hlen)).1

theorem mem_chunkIds {k : ChunkId} {length : Nat} (hlen : h.chunkLength? k = some length) : k ∈ h.chunkIds := by
  cases k with
  | nowhere => cases hlen
  | carving n =>
    refine List.mem_append_left _ (List.mem_map.2 ⟨n, List.mem_range'_1.2 ?_, rfl⟩)
    simp only [chunkLength?, carvingIndex?] at hlen
    split at hlen
    · have := (Array.getElem?_eq_some_iff.1 hlen).1
      omega
    · cases hlen
  | big n =>
    exact List.mem_append_right _ (List.mem_map.2 ⟨n, List.mem_range.2 (lt_of_big hlen), rfl⟩)

/-- A byte is in a chunk of the list if it is one of the bytes of the heap. -/
theorem coverage_chunks (h : Heap) (a : Address) : coverage h.chunks a = h.bytesAt a := by
  have hcovers (k : ChunkId) :
      ((h.chunkRegion? k).map (·.covers a)).getD false = (k == a.chunk && h.hasByte a) := by
    by_cases hk : k = a.chunk
    · subst hk
      cases hlen : h.chunkLength? a.chunk <;> simp [chunkRegion?, hasByte, hlen, Region.covers, ChunkId.start]
    · have hk' : (k == a.chunk) = false := beq_eq_false_iff_ne.2 hk
      cases hlen : h.chunkLength? k <;> simp [chunkRegion?, hlen, Region.covers, ChunkId.start, hk']
  simp only [coverage, chunks, List.countP_filterMap, hcovers]
  cases hbyte : h.hasByte a with
  | false => simp [bytesAt, hbyte]
  | true =>
    obtain ⟨length, hlen, -⟩ := Option.any_eq_true _ _ |>.1 hbyte
    simp only [Bool.and_true, bytesAt, hbyte, if_true]
    exact ((nodup_chunkIds h).count).trans (if_pos (mem_chunkIds hlen))

theorem mem_bigChunks :
    r ∈ h.bigChunks ↔ ∃ n, r.start = (ChunkId.big n).start ∧ h.chunkLength? (.big n) = some r.length := by
  simp only [bigChunks, chunkRegion?, List.mem_filterMap, List.mem_map, Option.map_eq_some_iff]
  constructor
  · rintro ⟨_, ⟨n, -, rfl⟩, length, hlen, rfl⟩
    exact ⟨n, rfl, hlen⟩
  · rintro ⟨n, hstart, hlen⟩
    exact ⟨_, ⟨n, List.mem_range.2 (lt_of_big hlen), rfl⟩, r.length, hlen, by rw [← hstart]⟩

theorem length_chunks (h : Heap) : h.chunks.length = h.chunkCount := by
  have hcarving (k) (hk : k ∈ (List.range' h.firstCarving h.carving.size).map ChunkId.carving) :
      (h.chunkRegion? k).isSome = true := by
    obtain ⟨n, hn, rfl⟩ := List.mem_map.1 hk
    have := List.mem_range'_1.1 hn
    have hlt : n - h.firstCarving < h.carving.size := by omega
    simp [chunkRegion?, chunkLength?, carvingIndex?, this.1, hlt]
  have hbig : h.big.toList = (List.range h.big.size).map fun n => h.chunkLength? (.big n) := by
    apply List.ext_getElem
    · simp
    · intro n hn _
      simp [chunkLength?, Array.getElem?_eq_getElem (Array.length_toList ▸ hn)]
  simp only [chunks, chunkIds, List.length_filterMap_eq_countP, List.countP_append]
  rw [List.countP_eq_length.2 hcarving, chunkCount, ← Array.countP_toList, hbig]
  simp only [List.length_map, List.length_range', List.countP_map]
  congr 2
  funext n
  simp [chunkRegion?]

/-! ## The bytes reserved -/

/-- The bytes reserved are those of the chunks. -/
def Backed (h : Heap) : Prop := h.reserved = total h.chunks

theorem total_chunks (hbytes : ∀ a, h'.bytesAt a = h.bytesAt a + coverage [r] a) :
    total h'.chunks = total h.chunks + r.length := by
  have htotal : total h'.chunks = total (h.chunks ++ [r]) := by
    refine total_eq_of_coverage fun a => ?_
    rw [coverage_append, coverage_chunks, coverage_chunks, hbytes]
  rw [htotal, total_append]
  rfl

theorem Backed.newSpace {answer : Except AllocError Region} (hb : h.Backed)
    (hn : h.newSpace size = .ok (answer, h')) : h'.Backed := by
  cases newSpace_cases hn with
  | spare | denied => exact hb
  | chunk => exact (congrArg (· + _) hb).trans (total_chunks (bytesAt_pushCarving h _)).symm

theorem Backed.allocBig (hb : h.Backed) (ha : h.allocBig size = .ok (answer, h')) : h'.Backed := by
  cases allocBig_cases ha with
  | denied => exact hb
  | granted => exact (congrArg (· + _) hb).trans (total_chunks (bytesAt_pushBig h _)).symm

/-- A chunk that is returned is no longer reserved. -/
theorem Backed.freeBig {b : Address} (hb : h.Backed) (hf : h.freeBig b size = .ok h') : h'.Backed := by
  obtain ⟨n, length, -, -, hlength, rfl⟩ := freeBig_inv hf
  have hdrop := total_chunks (bytesAt_dropBig hlength)
  exact (congrArg (· - length) (hb.trans hdrop)).trans (Nat.add_sub_cancel _ _)

end AtomHeap.Heap
