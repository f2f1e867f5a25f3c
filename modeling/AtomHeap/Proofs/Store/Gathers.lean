import AtomHeap.Proofs.Store.Names
import AtomHeap.Proofs.Store.Tenancy
/-!
# Gathering names

Names are interned one by one, while others run cycles, request them, and open and close pools (`Store.Gathers`).
The store holds the names then (`Gathers.holds`), and its figures depend on nothing but which names there are
(`Holds.figures_eq`).
-/

namespace AtomHeap.Store

open Heap (Settled)

variable {memory : StaticMemory} {buckets : Nat} {limits : Limits} {others : List Region} {names names' : Names}
  {name : String} {i : Interned} {s s' s₀ : Store}

/-- There are few enough names for a slot each. -/
def Few (names : List String) : Prop := names.dedup.length ≤ UInt32.size

theorem Few.mono {l l' : List String} (h : Few l') (hsub : l ⊆ l') : Few l := by
  have hsubset : l.dedup ⊆ l'.dedup := fun _ hname => List.mem_dedup.2 (hsub (List.mem_dedup.1 hname))
  exact Nat.le_trans ((List.nodup_dedup l).subperm hsubset).length_le h

/-- What others do to a store while names are interned: what cycles do, requesting one, and opening and closing
pools. -/
inductive Meanwhile : Store → Store → Prop
  | idle {s : Store} : Meanwhile s s
  | moved {s s' : Store} {events : List Event} : Move s events s' → Meanwhile s s'
  | requested {s : Store} : Meanwhile s s.requestCollection.2
  | opened {s : Store} : Meanwhile s { s with heap := s.heap.openPool.2 }
  | closed {s : Store} {id : PoolId} {heap : Heap} : s.heap.closePool id = .ok heap → Meanwhile s { s with heap }

/-- Names are interned, with whatever others do in between. -/
inductive Gathers (s₀ : Store) : Names → Store → Prop
  | start : Gathers s₀ [] s₀
  | intern {names : Names} {s s' : Store} {name : String} {i : Interned} : Gathers s₀ names s →
      s.internLocked { bytes := Text.utf8Bytes name } false BlobId.text = .ok (.ok i, s') →
      Gathers s₀ ((name, i) :: names) s'
  | meanwhile {names : Names} {s s' : Store} : Gathers s₀ names s → Meanwhile s s' → Gathers s₀ names s'

/-- A table with names on a heap that its blocks and those of the other users are all the blocks of. -/
structure Holds (buckets : Nat) (limits : Limits) (others : List Region) (names : Names) (s : Store) : Prop where
  table : s.table.Named (fun _ => []) buckets names
  heap : Settled limits s.heap (s.table.regions ++ others)

theorem Holds.intern (h : s.Holds buckets limits others names)
    (hfew : Few (name :: names.map (·.1)))
    (hi : s.internLocked { bytes := Text.utf8Bytes name } false BlobId.text = .ok (.ok i, s')) :
    s'.Holds buckets limits others ((name, i) :: names) := by
  obtain ⟨n, -, hrequests, -⟩ := internLocked_requests h.table.sound hi others
  refine ⟨?_, hrequests.settled h.heap⟩
  have houtcome := internLocked_outcome h.table.sound hi
  cases houtcome with
  | found htype _ hfind hreuse =>
    obtain ⟨p, hp, rfl, rfl⟩ := h.table.owner htype hfind
    exact h.table.reused hp hreuse
  | made hw hinsert =>
    exact h.table.new hfew hw hinsert

theorem Holds.intact (h : s.Holds buckets limits others names) (hi : Table.Intact s.table s'.table)
    (hheap : s'.heap = s.heap) : s'.Holds buckets limits others names := by
  have hregions : s'.table.regions = s.table.regions :=
    congrArg (List.map Region.ofBlock) hi.amended.samePayloads.blocks
  refine ⟨h.table.intact hi, ?_⟩
  rw [hheap, hregions]
  exact h.heap

/-- A sweep destroys no atom and gives no block back. -/
theorem Holds.sweep (h : s.Holds buckets limits others names) {n : Nat} (hs : s.sweep = .ok (n, s')) :
    Table.Intact s.table s'.table ∧ s'.heap = s.heap := by
  obtain ⟨⟨swept, table⟩, htable, hs⟩ := bind_eq_ok_iff.1 hs
  obtain ⟨rfl, hintact⟩ := Table.sweep_intact h.table.referenced htable
  obtain ⟨heap, hheap, hs⟩ := bind_eq_ok_iff.1 hs
  cases hheap
  cases hs
  exact ⟨hintact, rfl⟩

theorem Holds.moved (h : s.Holds buckets limits others names) {events : List Event} (hmove : Move s events s') :
    s'.Holds buckets limits others names := by
  cases hmove with
  | clearRequest => exact h.intact ⟨rfl, rfl⟩ rfl
  | beginMarking => exact h.intact ⟨rfl, rfl⟩ rfl
  | applyMarks atoms => exact h.intact (Table.applyMarks_intact _ atoms) rfl
  | abortMarking => exact h.intact (Table.abortMarking_intact _) rfl
  | postpone => exact h.intact ⟨rfl, rfl⟩ rfl
  | sweep _ hs =>
    obtain ⟨hintact, hheap⟩ := h.sweep hs
    exact h.intact hintact hheap

theorem Holds.meanwhile (h : s.Holds buckets limits others names) (hm : Meanwhile s s') :
    s'.Holds buckets limits others names := by
  cases hm with
  | idle => exact h
  | moved hmove => exact h.moved hmove
  | requested => exact h.intact (Table.requestCollection_intact _) rfl
  | opened => exact ⟨h.table, h.heap.request .openPool⟩
  | closed hclose =>
    obtain ⟨p, hpool, -⟩ := bind_eq_ok_iff.1 hclose
    exact ⟨h.table, h.heap.request (.closePool (Heap.hasPool_of_pool hpool) hclose)⟩

theorem Gathers.holds (h₀ : s₀.Holds buckets limits others []) (h : Gathers s₀ names s)
    (hfew : Few (names.map (·.1))) : s.Holds buckets limits others names := by
  induction h with
  | start => exact h₀
  | @intern names s s' name i _ hi ih =>
    exact (ih (hfew.mono (List.subset_cons_self _ _))).intern hfew hi
  | meanwhile _ hm ih => exact (ih hfew).meanwhile hm

/-- Interning asks no hook, as text has none for new atoms, and at most requests a cycle. -/
theorem Gathers.internSpan (h₀ : s₀.Holds buckets limits others []) (h : Gathers s₀ names s)
    (hfew : Few (name :: names.map (·.1)))
    (hi : s.internSpan { bytes := Text.utf8Bytes name } false BlobId.text = .ok (.ok i, s')) :
    Gathers s₀ ((name, i) :: names) s' := by
  have hheed (s : Store) : Meanwhile s (s.heed i) := by
    unfold heed
    split
    · exact .requested
    · exact .idle
  cases internSpan_cases hi with
  | found hlocked => exact (h.intern hlocked).meanwhile (hheed _)
  | made hlocked _ hacquire =>
    have hgathers := h.intern hlocked
    obtain ⟨-, type, htype, -, -, hnone⟩ := (hgathers.holds h₀ hfew).table.text
    cases acquire_cases hacquire with
    | passed => exact hgathers.meanwhile (hheed _)
    | called htype' hhook =>
      cases htype.symm.trans htype'
      rw [hnone] at hhook
      cases hhook

theorem holds_empty {config : Config} (hc : config.check = .ok ()) {grants : Nat → Nat → Bool} {heap : Heap}
    (hr : Heap.Run config.limits grants heap others) :
    (empty heap config).Holds config.atomBuckets.toNat config.limits others [] :=
  ⟨Table.named_empty _ hc _, (hr.settled (Heap.chunkSize_aligned hc)).request .openPool⟩

/-- The figures of a store that the order of interns could bear on. -/
structure Figures where
  count : Nat
  bytes : Nat
  chains : Nat
  bytesInUse : Nat
  deriving DecidableEq, Repr

def figures (s : Store) : Figures :=
  { count := s.table.count
    bytes := s.table.bytes
    chains := s.table.chains.size
    bytesInUse := s.heap.bytesInUse }

/-- In whatever order names are interned, and whatever is done meanwhile, the figures are the same. -/
theorem Holds.figures_eq (h : s.Holds buckets limits others names) (h' : s'.Holds buckets limits others names')
    (hnames : (names'.map (·.1)).Perm (names.map (·.1))) : s'.figures = s.figures := by
  have hmade : names'.made.Perm names.made := h'.table.made_perm.trans (hnames.dedup.trans h.table.made_perm.symm)
  have hcount : s'.table.count = s.table.count := by rw [h.table.count, h'.table.count, hmade.length_eq]
  have hbytes : s'.table.bytes = s.table.bytes := by
    rw [h.table.bytes, h'.table.bytes]
    exact (hmade.map _).sum_nat
  have hchains := h.table.snug.chains_eq h'.table.snug h.table.sound h'.table.sound hcount
  have hinUse : s'.heap.bytesInUse = s.heap.bytesInUse := by
    rw [h.heap.inUse, h'.heap.inUse, Heap.total_append, Heap.total_append, h.table.blocks, h'.table.blocks]
    exact congrArg (· + _) (hmade.map _).sum_nat
  unfold figures
  rw [hcount, hbytes, hchains, hinUse]

end AtomHeap.Store
