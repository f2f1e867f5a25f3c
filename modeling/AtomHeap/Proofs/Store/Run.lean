import AtomHeap.Proofs.Table.Sweep
import AtomHeap.Store.Intern
import AtomHeap.Store.Sweep
/-!
# Runs of a store

A store is worked on in steps that the table's lock keeps apart: what callers do (`Store.Call`) and
what cycles do (`Store.Move`). A `Store.Run` is any sequence of such steps, by whomever, with the
events on the way. The heap and the log may change in any way between steps. What the rest of the
library does to a store is such a run: `internSpan_run`, `initBuiltins_run`, `sweep_run`.

The predicate `spans` says which spans callers have to hand over.
-/

namespace AtomHeap.Store

open Table (Changes Amended)

/-- What happened to an atom in a step. -/
inductive Event
  /-- Interning made it. -/
  | made (a : Atom)
  /-- Interning or a lookup came upon it. -/
  | found (a : Atom)
  /-- The last reference to it was given back. -/
  | dropped (a : Atom)
  /-- A sweep destroyed it. -/
  | destroyed (a : Atom)
  deriving DecidableEq, Repr

/-- What giving back a reference did, given what it answered and the references left. -/
def dropEvents (a : Atom) : Except AtomError Unit → Except AtomError Nat → List Event
  | .ok (), .ok 0 => [.dropped a]
  | _, _ => []

/-- Steps of callers. -/
inductive Call (spans : Span → Prop) : Store → List Event → Store → Prop
  | intern {s s' : Store} {span : Span} {lasting : Bool} {blob : BlobId} {i : Interned} :
      spans span → s.internLocked span lasting blob = .ok (.ok i, s') →
      Call spans s [if i.isNew then .made i.atom else .found i.atom] s'
  | internRefused {s s' : Store} {span : Span} {lasting : Bool} {blob : BlobId} {e : AtomError} :
      spans span → s.internLocked span lasting blob = .ok (.error e, s') → Call spans s [] s'
  | lookup {s s' : Store} {span : Span} {blob : BlobId} {found : Option Atom} :
      spans span → s.lookup span blob = .ok (found, s') → Call spans s (found.toList.map .found) s'
  | register {s : Store} (a : Atom) : Call spans s [] (s.register a).2
  | unregister {s : Store} (a : Atom) :
      Call spans s (dropEvents a (s.unregister a).1 ((s.unregister a).2.table.refsOf a)) (s.unregister a).2
  | registerBlob {s : Store} {type : BlobType} {id : BlobId} {table : Table} :
      s.table.registerBlob type = .ok (id, table) → Call spans s [] { s with table }
  | unregisterBlob {s : Store} {id : BlobId} {table : Table} :
      s.table.unregisterBlob id = .ok table → Call spans s [] { s with table }
  | setFallback {s : Store} (hook : ReleaseHook) : Call spans s [] { s with table := s.table.setFallback hook }
  | lockAtoms {s : Store} : Call spans s [] { s with table := s.table.lockAtoms }
  | requestCollection {s : Store} : Call spans s [] s.requestCollection.2
  | other {s : Store} (heap : Heap) (calls : Array HookCall) : Call spans s [] { s with heap, calls }

/-- Steps of cycles. -/
inductive Move : Store → List Event → Store → Prop
  | clearRequest {s : Store} : Move s [] { s with table := { s.table with requested := false } }
  | beginMarking {s : Store} : Move s [] { s with table := s.table.beginMarking }
  | applyMarks {s : Store} (atoms : List Atom) : Move s [] { s with table := s.table.applyMarks atoms }
  | abortMarking {s : Store} : Move s [] { s with table := s.table.abortMarking }
  | postpone {s : Store} : Move s [] { s with table := s.table.postpone }
  | sweep {s s' : Store} {n : Nat} {swept : Table.Swept} {table : Table} :
      s.table.sweep = .ok (swept, table) → s.sweep = .ok (n, s') →
      Move s (swept.destroyed.toList.map .destroyed) s'

/-- Sequences of steps, with what happened on the way, the latest step first. -/
inductive Run (spans : Span → Prop) (s₀ : Store) : List Event → Store → Prop
  | start : Run spans s₀ [] s₀
  | call {s s' : Store} {events events' : List Event} :
      Run spans s₀ events s → Call spans s events' s' → Run spans s₀ (events' ++ events) s'
  | move {s s' : Store} {events events' : List Event} :
      Run spans s₀ events s → Move s events' s' → Run spans s₀ (events' ++ events) s'

variable {spans : Span → Prop} {s s' s₀ : Store} {events events' : List Event} {buckets index size : Nat}
  {span : Span} {lasting : Bool} {blob : BlobId} {type : BlobType}

/-! ## What interning does to the table -/

theorem logRefusals_eq (s : Store) :
    s.logRefusals = { s with
      heap := { s.heap with refusals := [] }, calls := s.calls ++ (s.heap.refusals.map .refused).toArray } := by
  obtain ⟨heap, table, calls⟩ := s
  simp only [logRefusals]
  split
  · rename_i hnone
    have hheap : { heap with refusals := [] } = heap := by rw [← hnone]
    rw [hheap, hnone]
    simp
  · rfl

theorem logRefusals_table (s : Store) : s.logRefusals.table = s.table := by
  rw [logRefusals_eq]

/-- An allocation of a store is one of its heap, after which refusals are collected. -/
theorem alloc_eq_ok_iff {from? : Option PoolId} {r : Except AllocError Address} :
    s.alloc from? size = .ok (r, s') ↔
      ∃ heap, s.heap.alloc from? size = .ok (r, heap) ∧ s' = logRefusals ⟨heap, s.table, s.calls⟩ := by
  constructor
  · intro h
    obtain ⟨⟨answer, heap⟩, hserve, h⟩ := bind_eq_ok_iff.1 h
    cases h
    exact ⟨heap, hserve, rfl⟩
  · rintro ⟨heap, hserve, rfl⟩
    exact bind_eq_ok_iff.2 ⟨(r, heap), hserve, rfl⟩

/-- How the payload of a new atom is provided: kept where it lies for good, empty, or copied to a block of the
table's pool. -/
inductive Provides (s : Store) (type : BlobType) (span : Span) (lasting : Bool) :
    Except AtomError Payload → Store → Prop
  | kept {place : StaticPlace} :
      type.flags.nocopy = true → span.place = some place → lasting = true →
      Provides s type span lasting (.ok (.kept place span.bytes)) s
  | fleeting :
      type.flags.nocopy = true → ¬ (lasting = true ∧ span.place.isSome = true) →
      Provides s type span lasting (.error (.staticNeeded type.name)) s
  | empty : type.flags.nocopy = false → span.bytes = [] → Provides s type span lasting (.ok .empty) s
  | copied {block : Address} {heap : Heap} {used : Nat} :
      type.flags.nocopy = false → span.bytes ≠ [] →
      s.heap.alloc (some s.table.pool) span.bytes.length = .ok (.ok block, heap) →
      checkedAdd s.table.bytes span.bytes.length = .ok used →
      Provides s type span lasting (.ok (.pooled block span.bytes))
        { logRefusals ⟨heap, s.table, s.calls⟩ with table := { s.table with bytes := used } }
  | refused {e : AllocError} {heap : Heap} :
      type.flags.nocopy = false → span.bytes ≠ [] →
      s.heap.alloc (some s.table.pool) span.bytes.length = .ok (.error e, heap) →
      Provides s type span lasting (.error (.alloc e)) (logRefusals ⟨heap, s.table, s.calls⟩)

theorem provides_of_payloadFor {r : Except AtomError Payload} (h : s.payloadFor type span lasting = .ok (r, s')) :
    Provides s type span lasting r s' := by
  unfold payloadFor at h
  split at h
  · rename_i hnocopy
    split at h
    · rename_i place hplace
      split at h
      · rename_i hlasting
        cases h
        exact .kept hnocopy hplace hlasting
      · rename_i hfleeting
        cases h
        exact .fleeting hnocopy fun hboth => hfleeting hboth.1
    · rename_i hplace
      cases h
      exact .fleeting hnocopy fun hboth => by simp [hplace] at hboth
  · rename_i hcopy
    have hcopy' : type.flags.nocopy = false := Bool.eq_false_iff.2 hcopy
    unfold copyBytes at h
    split at h
    · rename_i hempty
      cases h
      exact .empty hcopy' (List.isEmpty_iff.1 hempty)
    · rename_i hne
      have hne' : span.bytes ≠ [] := fun he => hne (List.isEmpty_iff.2 he)
      obtain ⟨⟨answer, s₁⟩, halloc, h⟩ := bind_eq_ok_iff.1 h
      obtain ⟨heap, hserve, hs₁⟩ := alloc_eq_ok_iff.1 halloc
      cases answer with
      | error e =>
        cases h
        rw [hs₁]
        exact .refused hcopy' hne' hserve
      | ok block =>
        obtain ⟨used, hadd, h⟩ := bind_eq_ok_iff.1 h
        cases h
        have htable : s₁.table = s.table := by rw [hs₁, logRefusals_table]
        rw [htable] at hadd ⊢
        rw [hs₁]
        exact .copied hcopy' hne' hserve hadd

theorem payloadFor_of_provides {r : Except AtomError Payload} (h : Provides s type span lasting r s') :
    s.payloadFor type span lasting = .ok (r, s') := by
  unfold payloadFor
  cases h with
  | kept hnocopy hplace hlasting => simp only [hnocopy, hplace, hlasting, if_true]
  | fleeting hnocopy hfleeting =>
    rw [if_pos hnocopy]
    split
    · rename_i hplace
      exact if_neg fun hlasting => hfleeting ⟨hlasting, by rw [hplace]; rfl⟩
    · rfl
  | empty hcopy hempty =>
    rw [if_neg (Bool.eq_false_iff.1 hcopy)]
    unfold copyBytes
    rw [if_pos (List.isEmpty_iff.2 hempty)]
    rfl
  | @copied block heap used hcopy hne hserve hadd =>
    rw [if_neg (Bool.eq_false_iff.1 hcopy)]
    unfold copyBytes
    rw [if_neg fun he => hne (List.isEmpty_iff.1 he), alloc_eq_ok_iff.2 ⟨heap, hserve, rfl⟩]
    simp only [bind, Except.bind, pure, Except.pure, logRefusals_table, hadd]
  | @refused e heap hcopy hne hserve =>
    rw [if_neg (Bool.eq_false_iff.1 hcopy)]
    unfold copyBytes
    rw [if_neg fun he => hne (List.isEmpty_iff.1 he), alloc_eq_ok_iff.2 ⟨heap, hserve, rfl⟩]
    rfl

theorem payloadFor_eq_ok_iff {r : Except AtomError Payload} :
    s.payloadFor type span lasting = .ok (r, s') ↔ Provides s type span lasting r s' :=
  ⟨provides_of_payloadFor, payloadFor_of_provides⟩

theorem payloadFor_table {r : Except AtomError Payload} (h : s.payloadFor type span lasting = .ok (r, s')) :
    match r with
    | .error _ => s'.table = s.table
    | .ok payload => payload.bytes = span.bytes ∧
      (type.flags.nocopy → ∃ place, span.place = some place ∧ payload = .kept place span.bytes) ∧
      (¬ type.flags.nocopy → ∀ place bytes, payload ≠ .kept place bytes) ∧
      s'.table = { s.table with bytes := s.table.bytes + payload.copied } := by
  cases payloadFor_eq_ok_iff.1 h with
  | kept hnocopy hplace _ => exact ⟨rfl, fun _ => ⟨_, hplace, rfl⟩, fun h => absurd hnocopy h, rfl⟩
  | fleeting _ _ => rfl
  | empty hcopy hempty => exact ⟨hempty.symm, fun h => absurd h (Bool.eq_false_iff.1 hcopy), nofun, rfl⟩
  | copied hcopy _ _ hadd =>
    obtain ⟨-, rfl⟩ := checkedAdd_eq_ok_iff.1 hadd
    exact ⟨rfl, fun h => absurd h (Bool.eq_false_iff.1 hcopy), nofun, rfl⟩
  | refused _ _ _ => exact logRefusals_table _

/-- What interning came to, where the table is sound: it was refused, or came upon the atom that a
unique type has for the span, or made the atom that it wanted. -/
inductive Outcome (s : Store) (span : Span) (blob : BlobId) : Except AtomError Interned → Store → Prop
  | refused {s' : Store} (e : AtomError) : s'.table = s.table → Outcome s span blob (.error e) s'
  | found {s' : Store} {type : BlobType} {index : Nat} {a : Atom} :
      s.table.blobs.get? blob = some type → type.flags.unique →
      s.table.find (Hash.ofBytes span.bytes) span blob type.flags.nocopy = .ok (some index) →
      s.table.reuse index = .ok (a, s'.table) → Outcome s span blob (.ok ⟨a, false, false⟩) s'
  | made {s' : Store} {type : BlobType} {payload : Payload} {a : Atom} {due : Bool} :
      s.table.Wanted span blob payload type →
      { s.table with bytes := s.table.bytes + payload.copied }.insert payload blob (Hash.ofBytes span.bytes) =
        .ok (a, s'.table) → Outcome s span blob (.ok ⟨a, true, due⟩) s'

/-- How interning goes. -/
inductive Interning (s : Store) (span : Span) (lasting : Bool) (blob : BlobId) :
    Except AtomError Interned → Store → Prop
  | unknown : Interning s span lasting blob (.error .unknownBlob) s
  | refused {s' : Store} {type : BlobType} {e : AtomError} :
      s.payloadFor type span lasting = .ok (.error e, s') → Interning s span lasting blob (.error e) s'
  | found {type : BlobType} {index : Nat} {a : Atom} {t : Table} :
      s.table.blobs.get? blob = some type →
      s.existing? type blob (Hash.ofBytes span.bytes) span = .ok (some index) →
      s.table.reuse index = .ok (a, t) → Interning s span lasting blob (.ok ⟨a, false, false⟩) { s with table := t }
  | made {s₁ : Store} {type : BlobType} {payload : Payload} {a : Atom} {t : Table} {due : Bool} :
      s.table.blobs.get? blob = some type →
      s.existing? type blob (Hash.ofBytes span.bytes) span = .ok none →
      s.payloadFor type span lasting = .ok (.ok payload, s₁) →
      s₁.table.insert payload blob (Hash.ofBytes span.bytes) = .ok (a, t) →
      Interning s span lasting blob (.ok ⟨a, true, due⟩) { s₁ with table := t }

theorem internLocked_interning {r : Except AtomError Interned}
    (h : s.internLocked span lasting blob = .ok (r, s')) : Interning s span lasting blob r s' := by
  unfold internLocked at h
  split at h
  · rename_i type hreg htype
    obtain ⟨_ | index, hexisting, h⟩ := bind_eq_ok_iff.1 h
    · obtain ⟨⟨e | payload, s₁⟩, hpayload, h⟩ := bind_eq_ok_iff.1 h
      · cases h
        exact .refused hpayload
      · obtain ⟨⟨a, t⟩, hinsert, h⟩ := bind_eq_ok_iff.1 h
        obtain ⟨due, -, h⟩ := bind_eq_ok_iff.1 h
        cases h
        exact .made htype hexisting hpayload hinsert
    · obtain ⟨⟨i, s₁⟩, hreuse, h⟩ := bind_eq_ok_iff.1 h
      cases h
      obtain ⟨⟨a, t⟩, htable, h⟩ := bind_eq_ok_iff.1 hreuse
      cases h
      exact .found htype hexisting htable
  · cases h
    exact .unknown

theorem internLocked_outcome (hs : s.table.Sound buckets 0) {r : Except AtomError Interned}
    (h : s.internLocked span lasting blob = .ok (r, s')) : Outcome s span blob r s' := by
  cases internLocked_interning h with
  | unknown => exact .refused _ rfl
  | refused hpayload => exact .refused _ (payloadFor_table hpayload)
  | found htype hexisting hreuse =>
    unfold existing? at hexisting
    split at hexisting
    · rename_i hunique
      exact .found htype hunique hexisting hreuse
    · cases hexisting
  | @made s₁ type payload a t due htype hexisting hpayload hinsert =>
    obtain ⟨hbytes, hkept, hcopied, htable⟩ := payloadFor_table hpayload
    rw [htable] at hinsert
    refine .made ⟨htype, ?_, hbytes, hkept, hcopied⟩ hinsert
    -- An atom is made if the type is not unique, or if the search found none.
    intro hunique
    obtain ⟨found, hfound, -, hnone⟩ := hs.linked.find (Hash.ofBytes span.bytes) span blob type.flags.nocopy
    unfold existing? at hexisting
    rw [if_pos hunique, hfound, Except.ok.injEq] at hexisting
    exact hnone hexisting

theorem Outcome.changes {r : Except AtomError Interned} (hspan : spans span) (h : Outcome s span blob r s') :
    Changes spans s.table s'.table := by
  cases h with
  | refused _ htable => rw [htable]
  | found _ _ _ hreuse => exact (Table.reuse_amended hreuse).changes
  | made hwanted hinsert => exact .single (.made hspan hwanted hinsert)

/-- Interning makes an atom if there is none and the table takes it. -/
theorem internLocked_of_insert {s₁ : Store} {payload : Payload} {a : Atom} {t : Table} {due : Bool}
    (hreg : s.table.blobs.isRegistered blob = true) (htype : s.table.blobs.get? blob = some type)
    (hnone : s.existing? type blob (Hash.ofBytes span.bytes) span = .ok none)
    (hpayload : s.payloadFor type span lasting = .ok (.ok payload, s₁))
    (hinsert : s₁.table.insert payload blob (Hash.ofBytes span.bytes) = .ok (a, t))
    (hdue : t.shouldCollect = .ok due) :
    s.internLocked span lasting blob = .ok (.ok ⟨a, true, due⟩, { s₁ with table := t }) := by
  unfold internLocked create
  simp only [hreg, htype, hnone, hpayload, bind, Except.bind, hinsert, hdue]
  rfl

/-- An atom that is made may be one too many to tell whether a cycle is due. -/
theorem internLocked_of_fault {s₁ : Store} {payload : Payload} {a : Atom} {t : Table} {fault : Fault}
    (hreg : s.table.blobs.isRegistered blob = true) (htype : s.table.blobs.get? blob = some type)
    (hnone : s.existing? type blob (Hash.ofBytes span.bytes) span = .ok none)
    (hpayload : s.payloadFor type span lasting = .ok (.ok payload, s₁))
    (hinsert : s₁.table.insert payload blob (Hash.ofBytes span.bytes) = .ok (a, t))
    (hdue : t.shouldCollect = .error fault) : s.internLocked span lasting blob = .error fault := by
  unfold internLocked create
  simp only [hreg, htype, hnone, hpayload, bind, Except.bind, hinsert, hdue]

/-! ## What follows the table's lock -/

/-- What an acquire hook does. -/
inductive RunsHook (s : Store) (a : Atom) : AcquireHook → AcquireAnswer → Store → Prop
  | observe : RunsHook s a .observe .observed s
  | register : RunsHook s a .register (.counted (s.register a).1) (s.register a).2
  | unregister : RunsHook s a .unregister (.counted (s.unregister a).1) (s.unregister a).2
  | refused {s' : Store} {bytes : List UInt8} {e : AtomError} :
      s.internLocked { bytes } false BlobId.text = .ok (.error e, s') →
      RunsHook s a (.internText bytes) (.interned (.error e)) s'
  | interned {s' : Store} {bytes : List UInt8} {i : Interned} :
      s.internLocked { bytes } false BlobId.text = .ok (.ok i, s') →
      RunsHook s a (.internText bytes) (.interned (.ok i.atom)) (s'.heed i)

theorem runAcquire_cases {a : Atom} {hook : AcquireHook} {answer : AcquireAnswer}
    (h : s.runAcquire hook a = .ok (answer, s')) : RunsHook s a hook answer s' := by
  cases hook with
  | observe =>
    cases h
    exact .observe
  | register =>
    cases h
    exact .register
  | unregister =>
    cases h
    exact .unregister
  | internText bytes =>
    obtain ⟨⟨e | i, s₁⟩, hintern, h⟩ := bind_eq_ok_iff.1 h
    · cases h
      exact .refused hintern
    · cases h
      exact .interned hintern

/-- A new atom is shown to the acquire hook of its type, if the type has one, and the call is logged. -/
inductive Acquires (s : Store) (blob : BlobId) (a : Atom) : Store → Prop
  | passed : (∀ type, s.table.blobs.get? blob = some type → type.acquire = none) → Acquires s blob a s
  | called {type : BlobType} {hook : AcquireHook} {answer : AcquireAnswer} {s' : Store} :
      s.table.blobs.get? blob = some type → type.acquire = some hook → s.runAcquire hook a = .ok (answer, s') →
      Acquires s blob a { s' with
        calls := s'.calls.push (.acquired (blob, type.name) a ((s.table.refsOf a).toOption.getD 0) answer) }

theorem acquire_cases {a : Atom} (h : s.acquire blob a = .ok s') : Acquires s blob a s' := by
  unfold acquire at h
  split at h
  · rename_i hnone
    cases h
    refine .passed fun type htype => ?_
    rw [hnone] at htype
    cases htype
  · rename_i type htype
    split at h
    · rename_i hnone
      cases h
      refine .passed fun type' htype' => ?_
      rw [htype, Option.some.injEq] at htype'
      exact htype' ▸ hnone
    · rename_i hhook
      obtain ⟨⟨answer, s₁⟩, hrun, h⟩ := bind_eq_ok_iff.1 h
      cases h
      exact .called htype hhook hrun

/-- What interning is settled by under the table's lock, and what follows. -/
inductive InternsSpan (s : Store) (span : Span) (lasting : Bool) (blob : BlobId) :
    Except AtomError Interned → Store → Prop
  | refused {s' : Store} {e : AtomError} :
      s.internLocked span lasting blob = .ok (.error e, s') → InternsSpan s span lasting blob (.error e) s'
  | found {s' : Store} {i : Interned} :
      s.internLocked span lasting blob = .ok (.ok i, s') → i.isNew = false →
      InternsSpan s span lasting blob (.ok i) (s'.heed i)
  | made {s₁ s' : Store} {i : Interned} :
      s.internLocked span lasting blob = .ok (.ok i, s₁) → i.isNew = true → s₁.acquire blob i.atom = .ok s' →
      InternsSpan s span lasting blob (.ok i) (s'.heed i)

theorem internSpan_cases {r : Except AtomError Interned} (h : s.internSpan span lasting blob = .ok (r, s')) :
    InternsSpan s span lasting blob r s' := by
  obtain ⟨⟨e | i, s₁⟩, hintern, h⟩ := bind_eq_ok_iff.1 h
  · cases h
    exact .refused hintern
  · simp only at h
    split at h
    · rename_i hnew
      obtain ⟨s₂, hacquire, h⟩ := bind_eq_ok_iff.1 h
      cases h
      exact .made hintern hnew hacquire
    · rename_i hnew
      cases h
      exact .found hintern (Bool.eq_false_iff.2 hnew)

/-! ## What a step does to the table -/

theorem lookup_table {found : Option Atom} (h : s.lookup span blob = .ok (found, s')) :
    s.table.lookup span blob = .ok (found, s'.table) := by
  obtain ⟨⟨answer, table⟩, htable, h⟩ := bind_eq_ok_iff.1 h
  cases h
  exact htable

theorem sweep_table {n : Nat} (h : s.sweep = .ok (n, s')) :
    ∃ swept, s.table.sweep = .ok (swept, s'.table) ∧ n = swept.destroyed.size := by
  obtain ⟨⟨swept, table⟩, htable, h⟩ := bind_eq_ok_iff.1 h
  obtain ⟨heap, -, h⟩ := bind_eq_ok_iff.1 h
  cases h
  exact ⟨swept, htable, rfl⟩

theorem sweep_table_eq {n : Nat} {swept : Table.Swept} {table : Table} (hswept : s.table.sweep = .ok (swept, table))
    (h : s.sweep = .ok (n, s')) : table = s'.table := by
  obtain ⟨swept', htable, -⟩ := sweep_table h
  rw [hswept, Except.ok.injEq, Prod.mk.injEq] at htable
  exact htable.2

theorem Call.changes (hs : s.table.Sound buckets 0) (h : Call spans s events s') :
    Changes spans s.table s'.table := by
  cases h with
  | intern hspan h => exact (internLocked_outcome hs h).changes hspan
  | internRefused hspan h => exact (internLocked_outcome hs h).changes hspan
  | lookup _ h => exact (Table.lookup_amended (lookup_table h)).changes
  | register a => exact (Table.register_amended _ a).changes
  | unregister a => exact (Table.unregister_amended _ a).changes
  | registerBlob h => exact (Table.registerBlob_amended h).changes
  | unregisterBlob h => exact .single (.relabelled h)
  | setFallback hook => exact Amended.changes ⟨rfl, rfl, rfl, rfl, rfl, rfl, fun _ _ h => h⟩
  | lockAtoms => exact .single .locked
  | requestCollection => exact (Table.requestCollection_amended s.table).changes
  | other heap calls => exact .refl

theorem Move.changes (hs : s.table.Sound buckets 0) (h : Move s events s') :
    Changes spans s.table s'.table := by
  cases h with
  | clearRequest => exact Amended.changes ⟨rfl, rfl, rfl, rfl, rfl, rfl, fun _ _ h => h⟩
  | beginMarking => exact Amended.changes ⟨rfl, rfl, rfl, rfl, rfl, rfl, fun _ _ h => h⟩
  | applyMarks atoms => exact (Table.applyMarks_amended _ atoms).changes
  | abortMarking => exact (Table.abortMarking_amended _).changes
  | postpone => exact Amended.changes ⟨rfl, rfl, rfl, rfl, rfl, rfl, fun _ _ h => h⟩
  | sweep _ h =>
    obtain ⟨swept, h, -⟩ := sweep_table h
    obtain ⟨swept', t, h', hchanges, -⟩ := hs.sweep spans
    rw [h'] at h
    cases h
    exact hchanges

/-- Whatever tables all changes preserve, runs preserve; so they stay sound. -/
theorem Run.changes (hs : s₀.table.Sound buckets 0) (h : Run spans s₀ events s) :
    Changes spans s₀.table s.table := by
  induction h with
  | start => exact .refl
  | call _ hcall ih => exact ih.trans (hcall.changes (hs.changes ih))
  | move _ hmove ih => exact ih.trans (hmove.changes (hs.changes ih))

theorem Run.sound (hs : s₀.table.Sound buckets 0) (h : Run spans s₀ events s) : s.table.Sound buckets 0 :=
  hs.changes (h.changes hs)

/-! ## Operations are runs -/

theorem Run.intern {i : Interned} (h : Run spans s₀ events s) (span : Span) (hspan : spans span)
    (blob : BlobId)
    (hi : s.internLocked span false blob = .ok (.ok i, s')) :
    Run spans s₀ ((if i.isNew then .made i.atom else .found i.atom) :: events) s' := .call h (.intern hspan hi)

theorem Run.trans {s₁ : Store} (h : Run spans s₀ events s) (h' : Run spans s events' s₁) :
    Run spans s₀ (events' ++ events) s₁ := by
  induction h' with
  | start => exact h
  | call _ hcall ih =>
    rw [List.append_assoc]
    exact .call ih hcall
  | move _ hmove ih =>
    rw [List.append_assoc]
    exact .move ih hmove

theorem Call.run (h : Call spans s events s') : ∃ events, Run spans s events s' := ⟨_, .call .start h⟩

theorem run_trans {s₁ : Store} (h : ∃ events, Run spans s events s') (h' : ∃ events, Run spans s' events s₁) :
    ∃ events, Run spans s events s₁ := by
  obtain ⟨events, h⟩ := h
  obtain ⟨events', h'⟩ := h'
  exact ⟨_, h.trans h'⟩

/-- Asking for a cycle if one is due is nothing that happens to an atom. -/
theorem Run.heed (h : Run spans s₀ events s) (i : Interned) : Run spans s₀ events (s.heed i) := by
  unfold Store.heed
  split
  · exact h.call .requestCollection
  · exact h

/-- Any number of steps of callers. -/
abbrev Calls (spans : Span → Prop) : Store → Store → Prop :=
  Relation.ReflTransGen fun s s' => ∃ events, Call spans s events s'

theorem Call.calls (h : Call spans s events s') : Calls spans s s' := .single ⟨_, h⟩

theorem Calls.run (h : Calls spans s s') : ∃ events, Run spans s events s' := by
  induction h with
  | refl => exact ⟨[], .start⟩
  | tail _ hcall ih =>
    obtain ⟨events, hrun⟩ := ih
    obtain ⟨events', hcall⟩ := hcall
    exact ⟨_, hrun.call hcall⟩

theorem internLocked_calls {r : Except AtomError Interned} (hspan : spans span)
    (h : s.internLocked span lasting blob = .ok (r, s')) : Calls spans s s' := by
  cases r with
  | error e => exact (Call.internRefused hspan h).calls
  | ok i => exact (Call.intern hspan h).calls

theorem heed_calls (s : Store) (i : Interned) : Calls spans s (s.heed i) := by
  unfold Store.heed
  split
  · exact Call.requestCollection.calls
  · exact .refl

/-- The text that an acquire hook interns has no place where it lasts. -/
theorem runAcquire_calls {a : Atom} {hook : AcquireHook} {answer : AcquireAnswer} (hplain : ∀ bytes, spans { bytes })
    (h : s.runAcquire hook a = .ok (answer, s')) : Calls spans s s' := by
  cases runAcquire_cases h with
  | observe => exact .refl
  | register => exact (Call.register a).calls
  | unregister => exact (Call.unregister a).calls
  | refused hintern => exact internLocked_calls (hplain _) hintern
  | interned hintern => exact (internLocked_calls (hplain _) hintern).trans (heed_calls _ _)

theorem acquire_calls {a : Atom} (hplain : ∀ bytes, spans { bytes }) (h : s.acquire blob a = .ok s') :
    Calls spans s s' := by
  cases acquire_cases h with
  | passed => exact .refl
  | @called _ _ _ s₁ _ _ hrun => exact (runAcquire_calls hplain hrun).trans (Call.other s₁.heap _).calls

/-- Interning, its hook and the request for a cycle included, is a row of such steps. -/
theorem internSpan_calls {r : Except AtomError Interned} (hplain : ∀ bytes, spans { bytes })
    (hspan : spans span)
    (h : s.internSpan span lasting blob = .ok (r, s')) : Calls spans s s' := by
  cases internSpan_cases h with
  | refused hintern => exact internLocked_calls hspan hintern
  | found hintern => exact (internLocked_calls hspan hintern).trans (heed_calls _ _)
  | made hintern _ hacquire =>
    have hacquired := (internLocked_calls hspan hintern).trans (acquire_calls hplain hacquire)
    exact hacquired.trans (heed_calls _ _)

theorem initBuiltins_calls {names : List String} {r : Except AtomError (List Atom)}
    (hplain : ∀ bytes, spans { bytes })
    (h : s.initBuiltins names = .ok (r, s')) : Calls spans s s' := by
  have hall : ∀ (names : List String) (s s' : Store) (r : Except AtomError (List Atom)),
      s.internAll names = .ok (r, s') → Calls spans s s' := by
    intro names
    induction names with
    | nil =>
      rintro s s' r ⟨⟩
      exact .refl
    | cons name names ih =>
      intro s s' r h
      obtain ⟨⟨e | i, s₁⟩, hintern, h⟩ := bind_eq_ok_iff.1 h
      · cases h
        exact internSpan_calls hplain (hplain _) hintern
      · obtain ⟨⟨e | atoms, s₂⟩, hrest, h⟩ := bind_eq_ok_iff.1 h
        all_goals
          cases h
          exact (internSpan_calls hplain (hplain _) hintern).trans (ih _ _ _ hrest)
  obtain ⟨⟨e | atoms, s₁⟩, hatoms, h⟩ := bind_eq_ok_iff.1 h
  · cases h
    exact hall _ _ _ _ hatoms
  · cases h
    exact (hall _ _ _ _ hatoms).trans Call.lockAtoms.calls

theorem internSpan_run {r : Except AtomError Interned} (hplain : ∀ bytes, spans { bytes })
    (hspan : spans span)
    (h : s.internSpan span lasting blob = .ok (r, s')) : ∃ events, Run spans s events s' :=
  (internSpan_calls hplain hspan h).run

theorem initBuiltins_run {names : List String} {r : Except AtomError (List Atom)}
    (hplain : ∀ bytes, spans { bytes })
    (h : s.initBuiltins names = .ok (r, s')) : ∃ events, Run spans s events s' := (initBuiltins_calls hplain h).run

theorem sweep_run {n : Nat} (h : s.sweep = .ok (n, s')) : ∃ events, Run spans s events s' := by
  obtain ⟨swept, htable, -⟩ := sweep_table h
  exact ⟨_, .move .start (.sweep htable h)⟩

end AtomHeap.Store
