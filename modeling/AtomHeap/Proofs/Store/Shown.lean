import AtomHeap.Proofs.Store.Blocks
import AtomHeap.Proofs.Store.Housed
import AtomHeap.Proofs.Table.Shown
/-!
# What a store shows

Callers of a store cannot tell how its heap serves the copies, as long as it does. Stores that show the same and
ran the same hooks (`Alike`) give the same answers and are alike again, whether a span is interned, looked up or
swept; only for interning this needs that no allocation fails, for the atom or for one that a hook interns.
-/

namespace AtomHeap

namespace Table

variable {spans : Span → Prop} {α : Type} {f : Table → α × Table} {t u : Table}

/-- Tuning a table never looks at a chain. -/
theorem Tuning.shown (hf : Tuning f) (t : Table) : f t.shown = ((f t).1, (f t).2.shown) := by
  have hblobs : t.shown.blobs = t.blobs := rfl
  cases hf with
  | register a => exact register_shown t a
  | unregister a => exact unregister_shown t a
  | registerBlob type =>
    dsimp only [attempt, Table.registerBlob]
    rw [hblobs]
    cases t.blobs.register type <;> rfl
  | unregisterBlob id =>
    dsimp only [attempt, Table.unregisterBlob]
    rw [hblobs]
    cases t.blobs.unregister id with
    | error e => rfl
    | ok blobs =>
      have hslots := map_shown t (f := fun s => { s with entry := s.entry.map (·.withdraw id) }) fun s => by
        obtain ⟨g, _ | e⟩ := s
        · rfl
        · exact congrArg (fun e => (⟨g, some e⟩ : Slot)) (withdraw_shown e id)
      exact congrArg (fun slots => (Except.ok (), { t.shown with blobs, slots })) hslots.symm
  | lockAtoms =>
    dsimp only [Table.lockAtoms]
    rw [size_shown]
    rfl
  | requestCollection =>
    have henabled : t.shown.agcEnabled = t.agcEnabled := rfl
    dsimp only [Table.requestCollection]
    rw [henabled]
    split <;> rfl
  | applyMarks atoms => exact congrArg ((), ·) (applyMarks_shown t atoms)
  | abortMarking =>
    have hslots := map_shown t (f := fun s => { s with entry := s.entry.map ({ · with marked := false }) }) fun s => by
      obtain ⟨g, _ | e⟩ := s <;> rfl
    exact congrArg (fun slots => ((), { t.shown with marking := false, slots })) hslots.symm
  | _ => rfl

theorem Tuning.chains (hf : Tuning f) (t : Table) : (f t).2.chains = t.chains := by
  cases hf with
  | register a => exact (register_amended t a).chains
  | unregister a => exact (unregister_amended t a).chains
  | registerBlob type =>
    dsimp only [attempt, Table.registerBlob]
    cases t.blobs.register type <;> rfl
  | unregisterBlob id =>
    dsimp only [attempt, Table.unregisterBlob]
    cases t.blobs.unregister id <;> rfl
  | requestCollection => exact (requestCollection_amended t).chains
  | applyMarks atoms => exact (applyMarks_amended t atoms).chains
  | _ => rfl

theorem Tuning.changes (hf : Tuning f) (t : Table) : Changes spans t (f t).2 := by
  have hother {t' : Table} (ha : Amended t t') : Changes spans t t' := ha.changes
  cases hf with
  | register a => exact (register_amended t a).changes
  | unregister a => exact (unregister_amended t a).changes
  | registerBlob type =>
    cases h : t.registerBlob type with
    | error e => rw [attempt_of_error h]
    | ok p =>
      rw [attempt_of_ok h]
      exact (registerBlob_amended h).changes
  | unregisterBlob id =>
    cases h : t.unregisterBlob id with
    | error e => rw [unregisterBlob_attempt_of_error h]
    | ok t' =>
      rw [unregisterBlob_attempt h]
      exact .single (.relabelled h)
  | lockAtoms => exact .single .locked
  | requestCollection => exact (requestCollection_amended t).changes
  | applyMarks atoms => exact (applyMarks_amended t atoms).changes
  | abortMarking => exact (abortMarking_amended t).changes
  | _ => exact hother ⟨rfl, rfl, rfl, rfl, rfl, rfl, fun _ _ h => h⟩

theorem Alike.tuned (h : Alike t u) (hf : Tuning f) : (f u).1 = (f t).1 ∧ Alike (f t).2 (f u).2 := by
  have heq := hf.shown u
  rw [h.shown, hf.shown, Prod.mk.injEq] at heq
  exact ⟨heq.1.symm, h.congr heq.2.symm (congrArg Array.size (hf.chains t)) (congrArg Array.size (hf.chains u))⟩

end Table

/-! ## Failed allocations -/

def AtomError.isAlloc : AtomError → Bool
  | .alloc _ => true
  | _ => false

/-- Whether there was no memory for the bytes. -/
def unserved {α : Type} : Except AtomError α → Bool
  | .error e => e.isAlloc
  | .ok _ => false

/-- Whether a hook found no memory for its bytes. -/
def AcquireAnswer.unserved : AcquireAnswer → Bool
  | .interned r => AtomHeap.unserved r
  | _ => false

def HookCall.unserved : HookCall → Bool
  | .acquired _ _ _ answer => answer.unserved
  | _ => false

def HookCall.isRefusal : HookCall → Bool
  | .refused _ => true
  | _ => false

namespace Store

open Table (Changes)

variable {buckets buckets' : Nat} {limits limits' : Limits} {others others' : List Region} {memory : StaticMemory}
  {α : Type} {s s' u u' : Store} {span : Span} {lasting : Bool} {blob : BlobId} {type : BlobType} {a : Atom}

/-- The hooks that ran, apart from those that were told of refused memory. -/
def told (s : Store) : List HookCall := s.calls.toList.filter (!·.isRefusal)

/-- Stores that show the same. Where the one can double its chains, so can the other. -/
structure Alike (s u : Store) : Prop where
  table : s.table.Alike u.table
  told : u.told = s.told

theorem told_logRefusals (s : Store) : s.logRefusals.told = s.told := by
  rw [logRefusals_eq]
  unfold Store.told
  rw [Array.toList_append, List.filter_append, List.append_right_eq_self, List.filter_eq_nil_iff]
  intro call hcall
  obtain ⟨refusal, -, rfl⟩ := List.mem_map.1 hcall
  simp [HookCall.isRefusal]

theorem told_push (s : Store) {call : HookCall} (hcall : call.isRefusal = false) :
    Store.told { s with calls := s.calls.push call } = s.told ++ [call] := by
  unfold Store.told
  rw [Array.toList_push, List.filter_append]
  simp [hcall]

theorem told_heed (s : Store) (i : Interned) : (s.heed i).told = s.told := by
  unfold heed
  split <;> rfl

/-- Whether an allocation failed, for the atom that was asked for or for one that a hook interned. -/
def starved (r : Except AtomError α) (s : Store) : Bool := unserved r || s.told.any (·.unserved)

namespace Alike

variable (h : s.Alike u)

include h

theorem payloadFor (hu : u.Housed buckets' limits' others') {r : Except AtomError Payload}
    (hc : s.payloadFor type span lasting = .ok (r, s')) (hserved : ¬ unserved r) :
    Ends (u.payloadFor type span lasting) True fun p =>
      unserved p.1 ∨ (p.1.map Payload.shown = r.map Payload.shown ∧ s'.Alike p.2) := by
  have likewise (hprovides : u.Provides type span lasting r u) (hs' : s' = s) :
      Ends (u.payloadFor type span lasting) True fun p =>
        unserved p.1 ∨ (p.1.map Payload.shown = r.map Payload.shown ∧ s'.Alike p.2) :=
    .inl ⟨(r, u), payloadFor_eq_ok_iff.2 hprovides, .inr ⟨rfl, hs' ▸ h⟩⟩
  cases payloadFor_eq_ok_iff.1 hc with
  | kept hnocopy hplace hlasting => exact likewise (.kept hnocopy hplace hlasting) rfl
  | fleeting hnocopy hfleeting => exact likewise (.fleeting hnocopy hfleeting) rfl
  | empty hcopy hempty => exact likewise (.empty hcopy hempty) rfl
  | refused => exact absurd rfl hserved
  | @copied _ heap used hcopy hne _ hadd =>
    refine (hu.payloadFor_ends type span lasting).and_eq.mono ?_
    rintro ⟨r', u'⟩ ⟨hcu, -⟩
    cases payloadFor_eq_ok_iff.1 hcu with
    | kept hnocopy _ _ | fleeting hnocopy _ => exact absurd (hcopy.symm.trans hnocopy) Bool.false_ne_true
    | empty _ hempty => exact absurd hempty hne
    | refused => exact .inl rfl
    | @copied _ heap' _ _ _ _ hadd' =>
      have hbytes : u.table.bytes = s.table.bytes := congrArg (·.bytes) h.table.shown
      rw [hbytes] at hadd'
      cases hadd.symm.trans hadd'
      have htold : Store.told (logRefusals ⟨heap', u.table, u.calls⟩) = Store.told (logRefusals ⟨heap, s.table, s.calls⟩) :=
        (told_logRefusals _).trans (h.told.trans (told_logRefusals ⟨heap, s.table, s.calls⟩).symm)
      exact .inr ⟨rfl, h.table.congr (congrArg (fun t => { t with bytes := used }) h.table.shown) rfl rfl, htold⟩

theorem existing? (hs : s.table.Sound buckets 0) (hu : u.table.Sound buckets' 0) (hc : s.table.Canonical memory)
    (hspan : span.Lies memory) (htype : s.table.blobs.get? blob = some type) :
    u.existing? type blob (Hash.ofBytes span.bytes) span = s.existing? type blob (Hash.ofBytes span.bytes) span := by
  unfold Store.existing?
  split
  · rename_i hunique
    exact h.table.find hs hu hc hspan htype hunique
  · rfl

theorem create (hs : s.table.Sound buckets 0) (hu : u.Housed buckets' limits' others')
    {r : Except AtomError Interned} (hc : s.create type blob (Hash.ofBytes span.bytes) span lasting = .ok (r, s'))
    (hserved : ¬ unserved r) :
    Ends (u.create type blob (Hash.ofBytes span.bytes) span lasting) True fun p =>
      unserved p.1 ∨ (p.1 = r ∧ s'.Alike p.2) := by
  unfold Store.create at hc ⊢
  obtain ⟨⟨e | payload, s₁⟩, hpayload, hc⟩ := bind_eq_ok_iff.1 hc
  · cases hc
    refine (h.payloadFor hu hpayload hserved).bind ?_
    rintro ⟨e' | payload', u₁⟩ (hnone | ⟨⟨⟩, halike⟩)
    · exact .ok (.inl hnone)
    · exact .ok (.inr ⟨rfl, halike⟩)
    · cases hnone
  · obtain ⟨⟨a, t⟩, hinsert, hc⟩ := bind_eq_ok_iff.1 hc
    obtain ⟨due, hdue, hc⟩ := bind_eq_ok_iff.1 hc
    cases hc
    refine (h.payloadFor hu hpayload nofun).and_eq.bind ?_
    rintro ⟨e' | payload', u₁⟩ ⟨hpayloadu, hnone | ⟨hsame, halike⟩⟩
    · exact .ok (.inl hnone)
    · cases hsame
    · cases hnone
    · obtain ⟨hbytes, -, -, htable⟩ := payloadFor_table hpayload
      obtain ⟨-, -, -, htableu⟩ := payloadFor_table hpayloadu
      obtain ⟨t', hinsertu, halike'⟩ := halike.table.insert (htable ▸ hs.withSpare payload.copied)
        (htableu ▸ hu.table.withSpare payload'.copied) (congrArg Hash.ofBytes hbytes.symm)
        (Except.ok.inj hsame) hinsert
      have hdueu : t'.shouldCollect = .ok due := by
        rw [← Table.shouldCollect_shown, halike'.shown, Table.shouldCollect_shown, hdue]
      obtain ⟨heap₁, table₁, calls₁⟩ := u₁
      simp only [hinsertu, hdueu, bind, Except.bind]
      exact .ok (.inr ⟨rfl, halike', halike.told⟩)

theorem reuse {index : Nat} {i : Interned} (hr : s.reuse index = .ok (i, s')) :
    ∃ u', u.reuse index = .ok (i, u') ∧ s'.Alike u' := by
  obtain ⟨⟨a, t⟩, hreuse, hr⟩ := bind_eq_ok_iff.1 hr
  cases hr
  obtain ⟨t', hreuseu, halike⟩ := h.table.reuse hreuse
  refine ⟨{ u with table := t' }, ?_, halike, h.told⟩
  unfold Store.reuse
  simp only [hreuseu, bind, Except.bind]
  rfl

theorem internLocked (hs : s.table.Sound buckets 0) (hu : u.Housed buckets' limits' others')
    (hc : s.table.Canonical memory) (hspan : span.Lies memory) {r : Except AtomError Interned}
    (hi : s.internLocked span lasting blob = .ok (r, s')) (hserved : ¬ unserved r) :
    Ends (u.internLocked span lasting blob) True fun p => unserved p.1 ∨ (p.1 = r ∧ s'.Alike p.2) := by
  have hblobs : u.table.blobs = s.table.blobs := congrArg (·.blobs) h.table.shown
  unfold Store.internLocked at hi ⊢
  rw [hblobs]
  split at hi
  · rename_i type _ htype
    simp only [h.existing? hs hu.table hc hspan htype]
    obtain ⟨_ | index, hexisting, hi⟩ := bind_eq_ok_iff.1 hi
    · simp only [hexisting, bind, Except.bind]
      exact h.create hs hu hi hserved
    · obtain ⟨⟨found, s₁⟩, hreuse, hi⟩ := bind_eq_ok_iff.1 hi
      cases hi
      obtain ⟨u', hreuseu, halike⟩ := h.reuse hreuse
      simp only [hexisting, hreuseu, bind, Except.bind]
      exact .ok (.inr ⟨rfl, halike⟩)
  · cases hi
    exact .ok (.inr ⟨rfl, h⟩)

/-- Tuning both tables. -/
theorem tuned {f : Table → α × Table} (hf : Table.Tuning f) :
    (f u.table).1 = (f s.table).1 ∧ Alike { s with table := (f s.table).2 } { u with table := (f u.table).2 } := by
  obtain ⟨hanswer, htable⟩ := h.table.tuned hf
  exact ⟨hanswer, htable, h.told⟩

theorem heed (i : Interned) : (s.heed i).Alike (u.heed i) := by
  unfold Store.heed
  split
  · exact (h.tuned .requestCollection).2
  · exact h

/-- A hook does the same in both, and finds memory in both or in neither. -/
theorem runAcquire (hs : s.table.Sound buckets 0) (hu : u.Housed buckets' limits' others')
    (hc : s.table.Canonical memory) {hook : AcquireHook} {answer : AcquireAnswer}
    (hr : s.runAcquire hook a = .ok (answer, s')) (hserved : ¬ answer.unserved) :
    Ends (u.runAcquire hook a) True fun p => p.1.unserved ∨ (p.1 = answer ∧ s'.Alike p.2) := by
  cases Store.runAcquire_cases hr with
  | observe => exact .ok (.inr ⟨rfl, h⟩)
  | register =>
    obtain ⟨hanswer, halike⟩ := h.tuned (.register a)
    exact .ok (.inr ⟨congrArg AcquireAnswer.counted hanswer, halike⟩)
  | unregister =>
    obtain ⟨hanswer, halike⟩ := h.tuned (.unregister a)
    exact .ok (.inr ⟨congrArg AcquireAnswer.counted hanswer, halike⟩)
  | refused hintern =>
    refine (h.internLocked hs hu hc (Span.lies_of_bytes memory _) hintern hserved).bind ?_
    rintro ⟨e' | i', u₁⟩ (hnone | ⟨⟨⟩, halike⟩)
    · exact .ok (.inl hnone)
    · exact .ok (.inr ⟨rfl, halike⟩)
    · cases hnone
  | @interned _ _ i hintern =>
    refine (h.internLocked hs hu hc (Span.lies_of_bytes memory _) hintern nofun).bind ?_
    rintro ⟨e' | i', u₁⟩ (hnone | ⟨⟨⟩, halike⟩)
    · exact .ok (.inl hnone)
    · cases hnone
    · exact .ok (.inr ⟨rfl, halike.heed i⟩)

theorem acquire (hs : s.table.Sound buckets 0) (hu : u.Housed buckets' limits' others')
    (hc : s.table.Canonical memory) (ha : s.acquire blob a = .ok s') (hserved : ¬ s'.told.any (·.unserved)) :
    Ends (u.acquire blob a) True fun u' => u'.told.any (·.unserved) ∨ s'.Alike u' := by
  have hblobs : u.table.blobs = s.table.blobs := congrArg (·.blobs) h.table.shown
  have hrefs : u.table.refsOf a = s.table.refsOf a := by
    rw [← Table.refsOf_shown, h.table.shown, Table.refsOf_shown]
  unfold Store.acquire at ha ⊢
  rw [hblobs, hrefs]
  split at ha
  · cases ha
    exact .ok (.inr h)
  · split at ha
    · cases ha
      exact .ok (.inr h)
    · obtain ⟨⟨answer, s₁⟩, hrun, ha⟩ := bind_eq_ok_iff.1 ha
      cases ha
      have hany (call : HookCall) (calls : List HookCall) :
          (calls ++ [call]).any (·.unserved) = (calls.any (·.unserved) || call.unserved) := by simp
      rw [told_push s₁ rfl, hany, Bool.or_eq_true] at hserved
      refine (h.runAcquire hs hu hc hrun fun hnone => hserved (.inr hnone)).bind ?_
      rintro ⟨answer', u₁⟩ (hnone | ⟨rfl, halike⟩)
      · refine .ok (.inl ?_)
        rw [told_push u₁ rfl, hany, Bool.or_eq_true]
        exact .inr hnone
      · refine .ok (.inr ⟨halike.table, ?_⟩)
        rw [told_push u₁ rfl, told_push s₁ rfl, halike.told]

/-- Interning gives the same in both, unless an allocation fails. -/
theorem internSpan (hs : s.table.Sound buckets 0) (hu : u.Housed buckets' limits' others')
    (hc : s.table.Canonical memory) (hspan : span.Lies memory) {r : Except AtomError Interned}
    (hi : s.internSpan span lasting blob = .ok (r, s')) (hserved : ¬ starved r s') :
    Ends (u.internSpan span lasting blob) True fun p => starved p.1 p.2 ∨ (p.1 = r ∧ s'.Alike p.2) := by
  obtain ⟨hr, hcalls⟩ := not_or.1 ((Bool.or_eq_true _ _).mpr.mt hserved)
  unfold Store.internSpan at hi ⊢
  obtain ⟨⟨e | i, s₁⟩, hintern, hi⟩ := bind_eq_ok_iff.1 hi
  · cases hi
    refine (h.internLocked hs hu hc hspan hintern hr).bind ?_
    rintro ⟨e' | i', u₁⟩ (hnone | ⟨⟨⟩, halike⟩)
    · exact .ok (.inl ((Bool.or_eq_true _ _).mpr (.inl hnone)))
    · exact .ok (.inr ⟨rfl, halike⟩)
    · cases hnone
  · refine (h.internLocked hs hu hc hspan hintern nofun).and_eq.bind ?_
    rintro ⟨e' | i', u₁⟩ ⟨hinternu, hnone | ⟨⟨⟩, halike⟩⟩
    · exact .ok (.inl ((Bool.or_eq_true _ _).mpr (.inl hnone)))
    · cases hnone
    · have hchanges := (internLocked_outcome hs hintern).changes hspan
      have hs₁ : s₁.table.Sound buckets 0 := hs.changes hchanges
      have hc₁ : s₁.table.Canonical memory := hc.changes hs hchanges
      obtain ⟨hu₁, -⟩ := hu.internLocked hinternu
      simp only at hi ⊢
      split at hi
      · rename_i hnew
        rw [if_pos hnew]
        obtain ⟨s₂, hacquire, hi⟩ := bind_eq_ok_iff.1 hi
        cases hi
        rw [told_heed] at hcalls
        refine (halike.acquire hs₁ hu₁ hc₁ hacquire hcalls).bind fun u₂ => ?_
        rintro (hnone | halike₂)
        · exact .ok (.inl ((Bool.or_eq_true _ _).mpr (.inr (by rwa [told_heed]))))
        · exact .ok (.inr ⟨rfl, halike₂.heed i⟩)
      · rename_i hnew
        rw [if_neg hnew]
        cases hi
        exact .ok (.inr ⟨rfl, halike.heed i⟩)

theorem lookup (hs : s.table.Sound buckets 0) (hu : u.table.Sound buckets' 0) (hc : s.table.Canonical memory)
    (hspan : span.Lies memory) (hunique : ∀ type, s.table.blobs.get? blob = some type → type.flags.unique)
    {found : Option Atom} (hl : s.lookup span blob = .ok (found, s')) :
    ∃ u', u.lookup span blob = .ok (found, u') ∧ s'.Alike u' := by
  obtain ⟨⟨a, t⟩, hlookup, hl⟩ := bind_eq_ok_iff.1 hl
  cases hl
  obtain ⟨t', hlookupu, htable⟩ := h.table.lookup hs hu hc hspan hunique hlookup
  refine ⟨{ u with table := t' }, ?_, htable, h.told⟩
  unfold Store.lookup
  simp only [hlookupu, bind, Except.bind]
  rfl

theorem sweep (hs : s.table.Sound buckets 0) (hu : u.Housed buckets' limits' others') {n : Nat}
    (hsweep : s.sweep = .ok (n, s')) : ∃ u', u.sweep = .ok (n, u') ∧ s'.Alike u' := by
  obtain ⟨⟨swept, t⟩, htable, hsweep⟩ := bind_eq_ok_iff.1 hsweep
  obtain ⟨heap, -, hsweep⟩ := bind_eq_ok_iff.1 hsweep
  cases hsweep
  obtain ⟨swept', t', htable', hswept, halike⟩ := h.table.sweep hs hu.table htable
  obtain ⟨⟨m, u'⟩, hsweepu, -⟩ := hu.sweep_ends.exists_ok
  have hanswer := hsweepu
  obtain ⟨p, hpu, hanswer⟩ := bind_eq_ok_iff.1 hanswer
  rw [htable'] at hpu
  cases hpu
  obtain ⟨heap', -, hanswer⟩ := bind_eq_ok_iff.1 hanswer
  cases hanswer
  have hdestroyed : swept'.destroyed = swept.destroyed := congrArg (·.destroyed) hswept
  have hcalls : swept'.calls = swept.calls := congrArg (·.calls) hswept
  rw [hdestroyed] at hsweepu
  refine ⟨_, hsweepu, halike, ?_⟩
  have htold := h.told
  unfold Store.told at htold ⊢
  rw [hcalls, Array.toList_append, Array.toList_append, List.filter_append, List.filter_append, htold]

end Alike

/-! ## What callers are told -/

/-- A copy is as long wherever it lies. -/
theorem rounded_shown (slot : Slot) : slot.shown.rounded = slot.rounded := by
  obtain ⟨g, _ | ⟨payload, _⟩⟩ := slot
  · rfl
  · cases payload <;> rfl

theorem bytesInUse_of_shown (hs : s.Housed buckets limits []) (hu : u.Housed buckets' limits' [])
    (h : u.table.shown = s.table.shown) : u.heap.bytesInUse = s.heap.bytesInUse := by
  have hrounded (t : Table) : t.shown.slots.toList.map Slot.rounded = t.slots.toList.map Slot.rounded := by
    simp [Table.shown, Function.comp_def, rounded_shown]
  rw [hs.heap.settled.inUse, hu.heap.settled.inUse, List.append_nil, List.append_nil, Table.total_regions,
    Table.total_regions, ← hrounded, h, hrounded]

theorem stringOf_of_shown (h : u.table.shown = s.table.shown) (a : Atom) : u.stringOf a = s.stringOf a := by
  have hentry := Table.entry_shown u.table a
  rw [h, Table.entry_shown] at hentry
  unfold Store.stringOf
  cases hs : s.table.entry a with
  | error e =>
    rw [hs] at hentry
    cases hu : u.table.entry a <;> rw [hu] at hentry <;> cases hentry
    rfl
  | ok e =>
    rw [hs] at hentry
    cases hu : u.table.entry a with
    | error e' =>
      rw [hu] at hentry
      cases hentry
    | ok e' =>
      rw [hu] at hentry
      have hshown : e.shown = e'.shown := Except.ok.inj hentry
      have hblob : e'.blob = e.blob := (congrArg (·.blob) hshown).symm
      have hbytes : e'.payload.bytes = e.payload.bytes := by
        rw [← e.payload.shown_bytes, ← e'.payload.shown_bytes]
        exact (congrArg (·.payload.bytes) hshown).symm
      simp only [hblob, hbytes, bind, Except.bind]

end Store

end AtomHeap
