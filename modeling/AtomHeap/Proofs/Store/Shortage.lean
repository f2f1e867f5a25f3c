import AtomHeap.Proofs.Memory.Shortage
import AtomHeap.Proofs.Store.Tenancy
/-!
# When an atom cannot be copied

Interning takes memory for a new copy only (`Store.Copies`), and takes it from the table's pool. So it is out of
memory just where the system refuses that pool a chunk, and then nothing is lost: neither in the heap, nor in
the table. What the log of a store and the refusals not collected yet say together (`Store.log`) grows by that one
refusal.
-/

namespace AtomHeap

open Heap (NothingLost Refused Reported Life)

namespace Store

variable {limits : Limits} {out : List Region} {s s' : Store} {span : Span} {lasting : Bool}
  {blob : BlobId} {type : BlobType} {hook : String}

/-- The hooks that ran, those that were told of refusals and not collected included. -/
def log (s : Store) : List HookCall := s.calls.toList ++ s.heap.refusals.map .refused

/-- Interning a span as a type makes a copy of its bytes. -/
def Copies (s : Store) (span : Span) (blob : BlobId) : Prop :=
  span.bytes ≠ [] ∧ s.table.blobs.isRegistered blob = true ∧ ∃ type, s.table.blobs.get? blob = some type ∧
    type.flags.nocopy = false ∧ s.existing? type blob (Hash.ofBytes span.bytes) span = .ok none

theorem logRefusals_log (s : Store) : s.logRefusals.log = s.log := by
  rw [logRefusals_eq]
  simp [log]

/-- How interning goes, as far as memory is concerned: it makes no copy, or the heap answers for it. -/
inductive Copying (s : Store) (span : Span) (blob : BlobId) : Except AtomError Interned → Store → Prop
  | none {answer : Except AtomError Interned} {s' : Store} :
      ¬ s.Copies span blob → (∀ e, answer ≠ .error (.alloc e)) → s'.heap = s.heap → s'.log = s.log →
      Copying s span blob answer s'
  | copied {i : Interned} {block : Address} {heap : Heap} {s' : Store} :
      s.Copies span blob → s.heap.alloc (some s.table.pool) span.bytes.length = .ok (.ok block, heap) →
      s'.heap = { heap with refusals := [] } → s'.log = s.calls.toList ++ heap.refusals.map .refused →
      Copying s span blob (.ok i) s'
  | refused {e : AllocError} {heap : Heap} {s' : Store} :
      s.Copies span blob → s.heap.alloc (some s.table.pool) span.bytes.length = .ok (.error e, heap) →
      s'.heap = { heap with refusals := [] } → s'.log = s.calls.toList ++ heap.refusals.map .refused →
      s'.table = s.table → Copying s span blob (.error (.alloc e)) s'

theorem create_copying {answer : Except AtomError Interned}
    (hcopies : s.Copies span blob ↔ span.bytes ≠ [] ∧ type.flags.nocopy = false)
    (h : s.create type blob (Hash.ofBytes span.bytes) span lasting = .ok (answer, s')) :
    Copying s span blob answer s' := by
  have hnone (hnot : ¬ (span.bytes ≠ [] ∧ type.flags.nocopy = false)) : ¬ s.Copies span blob :=
    fun hc => hnot (hcopies.1 hc)
  have hkept (hnocopy : type.flags.nocopy = true) : ¬ s.Copies span blob :=
    hnone fun hboth => Bool.false_ne_true (hboth.2.symm.trans hnocopy)
  obtain ⟨⟨r, s₁⟩, hpayload, h⟩ := bind_eq_ok_iff.1 h
  cases r with
  | error e =>
    cases h
    cases payloadFor_eq_ok_iff.1 hpayload with
    | fleeting hnocopy => exact .none (hkept hnocopy) nofun rfl rfl
    | refused hcopy hne halloc =>
      exact .refused (hcopies.2 ⟨hne, hcopy⟩) halloc (logRefusals_heap _) (logRefusals_log _) (logRefusals_table _)
  | ok payload =>
    obtain ⟨⟨a, t⟩, -, h⟩ := bind_eq_ok_iff.1 h
    obtain ⟨due, -, h⟩ := bind_eq_ok_iff.1 h
    cases h
    cases payloadFor_eq_ok_iff.1 hpayload with
    | kept hnocopy => exact .none (hkept hnocopy) nofun rfl rfl
    | empty _ hempty => exact .none (hnone fun hboth => hboth.1 hempty) nofun rfl rfl
    | copied hcopy hne halloc => exact .copied (hcopies.2 ⟨hne, hcopy⟩) halloc (logRefusals_heap _) (logRefusals_log _)

theorem internLocked_copying {answer : Except AtomError Interned}
    (h : s.internLocked span lasting blob = .ok (answer, s')) : Copying s span blob answer s' := by
  unfold internLocked at h
  split at h
  · rename_i type hreg htype
    obtain ⟨_ | index, hexisting, h⟩ := bind_eq_ok_iff.1 h
    · refine create_copying ⟨?_, fun ⟨hne, hcopy⟩ => ⟨hne, hreg, type, htype, hcopy, hexisting⟩⟩ h
      rintro ⟨hne, -, type', htype', hcopy, -⟩
      cases htype.symm.trans htype'
      exact ⟨hne, hcopy⟩
    · obtain ⟨⟨i, s₁⟩, hreuse, h⟩ := bind_eq_ok_iff.1 h
      cases h
      obtain ⟨⟨a, t⟩, -, h⟩ := bind_eq_ok_iff.1 hreuse
      cases h
      refine .none ?_ nofun rfl rfl
      rintro ⟨-, -, type', htype', -, hnone⟩
      cases htype.symm.trans htype'
      cases hexisting.symm.trans hnone
  · rename_i hunknown
    cases h
    refine .none ?_ nofun rfl rfl
    rintro ⟨-, hreg, type, htype, -⟩
    exact hunknown type hreg htype

/-- Where the heap refuses the copy, interning answers so. -/
theorem internLocked_of_refused {e : AllocError} {heap : Heap} (hc : s.Copies span blob)
    (ha : s.heap.alloc (some s.table.pool) span.bytes.length = .ok (.error e, heap)) :
    ∃ s', s.internLocked span lasting blob = .ok (.error (.alloc e), s') := by
  obtain ⟨hne, hreg, type, htype, hcopy, hnone⟩ := hc
  refine ⟨Store.logRefusals ⟨heap, s.table, s.calls⟩, ?_⟩
  unfold internLocked create
  simp only [hreg, htype, hnone, payloadFor_eq_ok_iff.2 (.refused hcopy hne ha), bind, Except.bind, pure, Except.pure]

/-- Nothing follows interning that was refused. -/
theorem internSpan_eq_error_iff {e : AtomError} :
    s.internSpan span lasting blob = .ok (.error e, s') ↔ s.internLocked span lasting blob = .ok (.error e, s') := by
  constructor
  · intro h
    cases internSpan_cases h with
    | refused hintern => exact hintern
  · intro h
    unfold internSpan
    rw [h]
    rfl

/-! ## Refusals are reported -/

/-- Interning under the table's lock ended with `answer`, where refusals are told to a hook: out of memory is
reported exactly, and loses nothing. -/
structure Reported (s : Store) (span : Span) (blob : BlobId) (hook : String) (answer : Except AtomError Interned)
    (s' : Store) : Prop where
  /-- It is reported where the system was asked and gave nothing, -/
  refused_iff : answer = .error (.alloc .outOfMemory) ↔
    s'.heap.asked = s.heap.asked + 1 ∧ s'.heap.reserved = s.heap.reserved
  /-- that is where a copy is to be made, nothing in store serves it and the system refuses the chunk that it takes. -/
  foreseen : answer = .error (.alloc .outOfMemory) ↔ s.Copies span blob ∧
    ∃ n, s.heap.demand? (some s.table.pool) span.bytes.length = some n ∧ s.heap.supply.Denies n
  /-- The hook is told once, of that chunk. -/
  told : answer = .error (.alloc .outOfMemory) → ∃ refusal length, s'.log = s.log ++ [.refused refusal] ∧
    refusal.hook = hook ∧ roundUp span.bytes.length = .ok length ∧
    refusal.layout = (s.heap.chunkFor length, alignment)
  untold : answer ≠ .error (.alloc .outOfMemory) → s'.log = s.log
  nothing_lost : answer = .error (.alloc .outOfMemory) → NothingLost s.heap s'.heap ∧ s'.table = s.table
  /-- What the pool had left to carve from, it serves next. -/
  remainder : answer = .error (.alloc .outOfMemory) → ∀ length, roundUp span.bytes.length = .ok length →
    length ≤ s.heap.limits.allocFast → ∀ r, s.heap.space? (some s.table.pool) = some r → 0 < r.length →
    ∃ heap, s'.heap.alloc (some s.table.pool) r.length = .ok (.ok r.start, heap)

theorem Copying.reported {answer : Except AtomError Interned} (hc : Copying s span blob answer s')
    (hheap : ∃ r heap, s.heap.alloc (some s.table.pool) span.bytes.length = .ok (r, heap) ∧
      Heap.Reported s.heap (some s.table.pool) span.bytes.length hook r heap) :
    Reported s span blob hook answer s' := by
  obtain ⟨r, heap, halloc, hr⟩ := hheap
  cases hc with
  | none hnot hanswer hsame hlog =>
    have hne : answer ≠ .error (.alloc .outOfMemory) := hanswer _
    refine ⟨⟨fun h => absurd h hne, fun h => ?_⟩, ⟨fun h => absurd h hne, fun h => absurd h.1 hnot⟩,
      fun h => absurd h hne, fun _ => hlog, fun h => absurd h hne, fun h => absurd h hne⟩
    rw [hsame] at h
    omega
  | @copied i block heap' _ hcopies halloc' hheap hlog =>
    cases halloc.symm.trans halloc'
    have huntold := hr.untold nofun
    refine ⟨⟨nofun, fun h => ?_⟩, ⟨nofun, fun h => ?_⟩, nofun, fun _ => ?_, nofun, nofun⟩
    · rw [hheap] at h
      cases hr.refused_iff.2 h
    · cases hr.foreseen.2 h.2
    · rw [hlog, huntold]
      rfl
  | @refused e heap' _ hcopies halloc' hheap hlog htable =>
    cases halloc.symm.trans halloc'
    have hanswer : (.error (.alloc e) : Except AtomError Interned) = .error (.alloc .outOfMemory) ↔
        (.error e : Except AllocError Address) = .error .outOfMemory := by simp
    refine ⟨hanswer.trans ?_, hanswer.trans (hr.foreseen.trans (and_iff_right hcopies).symm), fun h => ?_, fun h => ?_,
      fun h => ?_, fun h => ?_⟩
    · rw [hheap]
      exact hr.refused_iff
    · obtain ⟨refusal, length, htold, hrest⟩ := hr.told (hanswer.1 h)
      refine ⟨refusal, length, ?_, hrest⟩
      rw [hlog, htold, List.map_append, ← List.append_assoc]
      rfl
    · rw [hlog, hr.untold fun h' => h (hanswer.2 h')]
      rfl
    · rw [hheap]
      exact ⟨(hr.nothing_lost (hanswer.1 h)).collected [], htable⟩
    · rw [hheap]
      exact fun length hround hfast r hspace hpos => hr.remainder (hanswer.1 h) length hround hfast r hspace hpos []

/-- What interning a span as a type makes of a shortage of memory. -/
structure ReportsShortage (s : Store) (hook : String) (span : Span) (blob : BlobId) : Prop where
  exact : ∀ lasting answer s', s.internLocked span lasting blob = .ok (answer, s') → Reported s span blob hook answer s'
  /-- It is answered where there is one, -/
  answers : ∀ lasting, s.Copies span blob →
    (∃ n, s.heap.demand? (some s.table.pool) span.bytes.length = some n ∧ s.heap.supply.Denies n) →
    ∃ s', s.internLocked span lasting blob = .ok (.error (.alloc .outOfMemory), s')
  /-- and nothing follows that. -/
  last : ∀ lasting e s',
    s.internSpan span lasting blob = .ok (.error e, s') ↔ s.internLocked span lasting blob = .ok (.error e, s')

end Store

namespace Tenancy

variable {spans : Span → Prop} {x : Tenancy} {buckets : Nat} {limits : Limits} {hook : String}

theorem Sound.reportsShortage (hx : Sound buckets limits x) (hchunk : limits.allocFast ≤ limits.chunkSize)
    (hhook : x.store.heap.hook = some hook) (span : Span) (blob : BlobId) :
    x.store.ReportsShortage hook span blob := by
  have ho := hx.heap.owned
  have hheap := ho.reported (ho.limits ▸ hchunk) hhook hx.pool span.bytes.length
  refine ⟨fun lasting answer s' h => (Store.internLocked_copying h).reported hheap, fun lasting hcopies hdenied => ?_,
    fun lasting e s' => Store.internSpan_eq_error_iff⟩
  obtain ⟨r, heap, halloc, hr⟩ := hheap
  obtain rfl := hr.foreseen.2 hdenied
  exact Store.internLocked_of_refused hcopies halloc

/-- With an accepted configuration and a hook, in every state that requests lead to, a request through any pool is
answered, and so is interning that runs short of memory. Both report out of memory just where the system refused a
chunk, and lose nothing; what is carved from a new region is never too long for it. -/
theorem shortages_reported {config : Config} (hc : config.check = .ok ()) (grants : Nat → Nat → Bool) (hook : String) :
    (∀ n h out, Life config.limits grants n h out → h.hook = some hook → ∀ from?, h.HasPool from? → ∀ size,
      ∃ answer h', h.alloc from? size = .ok (answer, h') ∧ Reported h from? size hook answer h') ∧
    (∀ (h h' : Heap) min r, h.newSpace min = .ok (.ok r, h') → ∀ p : Pool,
      ∃ b q, { p with space := some r }.carve? min = some (b, q)) ∧
    ∀ heap others memory spans events x, Heap.Run config.limits grants heap others →
      Run spans ⟨.empty heap config, others, memory⟩ events x → x.store.heap.hook = some hook →
      ∀ span blob, x.store.ReportsShortage hook span blob := by
  refine ⟨fun n h out hl hhook from? hfrom size => ?_, fun h h' min r hn p => ?_, ?_⟩
  · have ho := (hl.solvent (Heap.chunkSize_aligned hc)).settled.owned
    exact ho.reported (ho.limits ▸ Heap.chunkSize_ge hc) hhook hfrom size
  · exact Pool.carve_isSome (Heap.newSpace_length hn)
  · intro heap others memory spans events x hheap hrun hhook span blob
    exact (hrun.sound (sound_empty hc hheap memory)).reportsShortage (Heap.chunkSize_ge hc) hhook span blob

/-- The system has one chunk. What is left of it when a pool is refused another one, that pool serves; and a store on
that heap cannot copy a byte. -/
theorem shortages_reported_one_chunk :
    ∃ h n out, Life ⟨48, 64, 2⟩ (fun n _ => n == 0) n h out ∧
      (∃ h' h'', h.alloc (some 0) 40 = .ok (.error .outOfMemory, h') ∧
        Reported h (some 0) 40 "hook" (.error .outOfMemory) h' ∧
        h'.alloc (some 0) 16 = .ok (.ok ⟨.carving 0, 48⟩, h'')) ∧
      ∃ s', (Store.empty h { allocFast := 48, chunkSize := 64, localFreeMax := 2, atomBuckets := 1 }).internLocked
          { bytes := [97] } false BlobId.text = .ok (.error (.alloc .outOfMemory), s') ∧
        Store.Reported (.empty h { allocFast := 48, chunkSize := 64, localFreeMax := 2, atomBuckets := 1 })
          { bytes := [97] } BlobId.text "hook" (.error (.alloc .outOfMemory)) s' := by
  have opened := ((@Heap.Run.start ⟨48, 64, 2⟩ fun n _ => n == 0).setHook "hook").openPool
  have served := opened.served (by rintro _ ⟨⟩; exact .head _) (rfl : Heap.alloc _ (some 0) 48 = _) rfl
  obtain ⟨n, hl⟩ := served.life
  have hc : Config.check { allocFast := 48, chunkSize := 64, localFreeMax := 2, atomBuckets := 1 } = .ok () := rfl
  obtain ⟨halloc, -, hintern⟩ := shortages_reported hc (fun n _ => n == 0) "hook"
  obtain ⟨answer, h', hanswer, hreported⟩ := halloc n _ _ hl rfl (some 0) (by rintro _ ⟨⟩; exact .head _) 40
  cases hanswer
  have hrefused := hintern _ _ (fun _ => 0) (fun _ => True) [] _ served .start rfl { bytes := [97] } BlobId.text
  refine ⟨_, n, _, hl, ⟨_, _, rfl, hreported, rfl⟩, _, rfl, hrefused.exact false _ _ rfl⟩

end Tenancy

end AtomHeap
