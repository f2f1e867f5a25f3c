import AtomHeap.Proofs.Store.Ledger
import AtomHeap.Proofs.Store.Shortage
/-!
# Acquire and release hooks bracket the life of an atom

A run of one thread, hooks included, step by step (`Custody`): interning makes an atom while the table is locked,
and then, before anything else is done, the acquire hook of the type is entered. What the hook does are steps like
all others, so it may intern, and enter other hooks, and may even let a cycle run. Release hooks are asked in sweeps,
and do not touch the table.

The notes of such a run say of each atom of a type with both hooks that the acquire hook was entered for it once, by
the intern that made it, and that it went just when the release hook agreed (`hooks_bracket`). What interning does, its
hook included, goes on with such a run, and calls the hooks that the run notes (`Logged`).
-/

namespace AtomHeap

namespace Table

variable {spans : Span → Prop} {t t' : Table} {buckets : Nat} {b id : BlobId} {a : Atom} {type : BlobType}
  {hook : ReleaseHook} {calls : List ReleaseCall} {c c' : ReleaseCall}

/-! ## Atoms of a type -/

/-- Atoms of one type stay, as such, and no atom comes. -/
structure Abides (b : BlobId) (t t' : Table) : Prop where
  stays : ∀ a e, t.entry a = .ok e → e.blob = b → ∃ e', t'.entry a = .ok e' ∧ e'.blob = b
  live : ∀ a e', t'.entry a = .ok e' → ∃ e, t.entry a = .ok e

theorem Abides.of_map (f : Entry → Entry) (h : ∀ a, t'.entry a = (t.entry a).map f)
    (hf : ∀ e, e.blob = b → (f e).blob = b) : Abides b t t' where
  stays a e he hb := by
    refine ⟨f e, ?_, hf e hb⟩
    rw [h, he]
    rfl
  live a e' he' := by
    rw [h] at he'
    cases he : t.entry a with
    | error error =>
      rw [he] at he'
      cases he'
    | ok e => exact ⟨e, rfl⟩

theorem Abides.of_entry (h : ∀ a, t'.entry a = t.entry a) : Abides b t t' :=
  .of_map id (fun a => by rw [h]; cases t.entry a <;> rfl) fun _ hb => hb

theorem Amended.abides (h : Amended t t') : Abides b t t' where
  stays a e he hb := by
    obtain ⟨e', he', hfixed⟩ := exists_of_map_eq (entry_congr Entry.fixed (h.slot a.index.toNat)) he
    have hblob : e'.blob = e.blob := congrArg (·.2.1) hfixed
    exact ⟨e', he', hblob.trans hb⟩
  live a e' he' := by
    obtain ⟨e, he, -⟩ := exists_of_map_eq (entry_congr Entry.fixed (h.slot a.index.toNat)).symm he'
    exact ⟨e, he⟩

/-- Withdrawing a type leaves the atoms of others. -/
theorem unregisterBlob_abides (h : t.unregisterBlob id = .ok t') (hne : id ≠ b) : Abides b t t' := by
  refine .of_map _ (entry_unregisterBlob h) fun e hb => ?_
  unfold Entry.withdraw
  rw [if_neg (hb ▸ Ne.symm hne)]
  exact hb

/-- Types keep their numbers. -/
theorem Sound.types_changes (h : t.Sound buckets 0) (hc : Changes spans t t') : t.blobs.Extends t'.blobs := by
  induction hc with
  | refl => exact fun _ _ h => h
  | @tail t₁ t₂ hc hchange ih =>
    have hs := h.changes hc
    have hone : t₁.blobs.Extends t₂.blobs := by
      cases hchange with
      | amended ha => exact ha.blobs
      | made _ hw hi =>
        obtain ⟨_, _, -, hinserted, -⟩ := hs.made hw hi
        rw [hinserted.rest]
        exact fun _ _ h => h
      | destroyed he hle hd =>
        obtain ⟨t₃, hd', hdestroyed, -⟩ := hs.destroy he hle
        rw [hd'] at hd
        cases hd
        rw [hdestroyed.rest]
        exact fun _ _ h => h
      | relabelled hu => exact unregisterBlob_extends hu
      | locked => exact fun _ _ h => h
    exact fun id type hid => hone id type (ih id type hid)

/-- A type with a release hook is asked itself. -/
theorem decider?_of_release (htype : t.blobs.get? b = some type) (hhook : type.release = some hook) :
    ∃ count, t.decider? b = some ⟨some (b, type.name), hook, count⟩ := by
  obtain ⟨r, hr, rfl⟩ := Option.map_eq_some_iff.1 htype
  refine ⟨r.asked, ?_⟩
  unfold decider?
  rw [hr, Option.bind_some, hhook]
  rfl

/-- A sweep asks about an atom once at most. -/
theorem Cleared.nodup (h : Cleared t calls t') (hsize : t.slots.size < UInt32.size) :
    (calls.map (·.atom)).Nodup := by
  rw [h.calls_eq, List.Nodup, List.pairwise_map]
  refine (pairwise_questions (Nat.le_of_lt hsize)).imp fun {c c'} hlt heq => ?_
  rw [heq] at hlt
  exact Nat.lt_irrefl _ hlt

/-- It asks the hook that decides about the type of the atom. -/
theorem Cleared.asked_by (h : Cleared t calls t') (hsize : t.slots.size < UInt32.size) (hc : c ∈ calls)
    (htyped : ∀ e, t.entry c.atom = .ok e → e.blob = b) {d : Decider} (hd : t.decider? b = some d) :
    c.asked = d.asked := by
  obtain ⟨before, after, hcalls⟩ := List.append_of_mem hc
  obtain ⟨e, d', he, hd', hcall⟩ := h.answers hsize hcalls
  rw [htyped e he, hd, Option.some.injEq] at hd'
  rw [hcall, ← hd']
  rfl

end Table

/-- A sweep, with the tables that it found and left. -/
structure Round where
  before : Table
  calls : List ReleaseCall
  destroyed : List Atom
  after : Table

/-- A sweep heeds what the release hook of an atom's type says. -/
structure Round.Heeds (round : Round) (b : BlobId) (name : String) (a : Atom) : Prop where
  /-- This hook is asked, and only while the atom is above the boundary with neither references nor a mark, -/
  asked : ∀ c ∈ round.calls, c.atom = a → c.asked = some (b, name) ∧ ∃ e, round.before.entry a = .ok e ∧ e.refs = 0 ∧
    e.marked = false ∧ round.before.builtin ≤ a.index.toNat
  /-- and once at most. -/
  once : (round.calls.map (·.atom)).count a ≤ 1
  /-- If the answer is no then the atom stays. -/
  declined : ∀ c ∈ round.calls, c.atom = a → c.answer = false → a ∉ round.destroyed ∧ round.after.isLive a = true
  /-- If it is yes then the atom goes, -/
  agreed : ∀ c ∈ round.calls, c.atom = a → c.answer = true → a ∈ round.destroyed ∧ round.after.isLive a = false
  /-- and it does not go otherwise. -/
  destroyed : a ∈ round.destroyed → ∃ c ∈ round.calls, c.atom = a ∧ c.answer = true

/-- Every sweep does, where all atoms under the handle are of the type. -/
theorem Table.Cleared.heeds {t t' : Table} {calls : List ReleaseCall} {destroyed : List Atom} {b : BlobId} {a : Atom}
    {type : BlobType} {hook : ReleaseHook} (h : Cleared t calls t') (hsize : t.slots.size < UInt32.size)
    (hdestroyed : ∀ a, a ∈ destroyed ↔ Agreed calls a) (htype : t.blobs.get? b = some type)
    (hhook : type.release = some hook) (htyped : ∀ e, t.entry a = .ok e → e.blob = b) :
    Round.Heeds ⟨t, calls, destroyed, t'⟩ b type.name a where
  asked := by
    rintro c hc rfl
    obtain ⟨count, hd⟩ := decider?_of_release htype hhook
    obtain ⟨e, -, he, hle, hrefs, hmarked, -⟩ := (h.candidates hsize).1 ⟨c, hc, rfl⟩
    exact ⟨h.asked_by hsize hc htyped hd, e, he, hrefs, hmarked, hle⟩
  once := List.nodup_iff_count_le_one.1 (h.nodup hsize) a
  declined := by
    rintro c hc rfl hanswer
    have hnot : ¬ Agreed calls c.atom := by
      rintro ⟨c', hc', hatom, hanswer'⟩
      rw [List.inj_on_of_nodup_map (h.nodup hsize) hc' hc hatom, hanswer] at hanswer'
      cases hanswer'
    obtain ⟨e, -, he, -⟩ := (h.candidates hsize).1 ⟨c, hc, rfl⟩
    obtain ⟨e', he', -⟩ := h.kept hsize he hnot
    refine ⟨mt (hdestroyed _).1 hnot, ?_⟩
    simp only [isLive, he']
    rfl
  agreed := by
    rintro c hc rfl hanswer
    have hagreed : Agreed calls c.atom := ⟨c, hc, rfl, hanswer⟩
    refine ⟨(hdestroyed _).2 hagreed, ?_⟩
    simp only [isLive, h.destroyed hsize hagreed]
    rfl
  destroyed := (hdestroyed a).1

/-- A run of one thread in some state. -/
structure Custody where
  store : Store
  /-- The atom that an intern just made, with its type, before the hook of the type is entered. -/
  fresh : Option (BlobId × Atom) := none

namespace Custody

open Store (Aside)

/-- What is noted of a run. -/
inductive Note
  /-- Interning made an atom of a type. -/
  | made (blob : BlobId) (a : Atom)
  /-- Interning as a type came upon an atom. -/
  | found (blob : BlobId) (a : Atom)
  /-- The acquire hook of a type was entered for an atom. -/
  | acquired (blob : BlobId) (a : Atom)
  /-- A type was taken out of use. -/
  | withdrawn (blob : BlobId)
  | swept (round : Round)

/-- Steps in which interning gives no atom, no hook is entered, no type withdrawn and nothing swept. -/
inductive Quiet (spans : Span → Prop) : Store → Store → Prop
  | aside {s s' : Store} : Aside spans s s' → Quiet spans s s'
  | register {s : Store} (a : Atom) : Quiet spans s (s.register a).2
  | unregister {s : Store} (a : Atom) : Quiet spans s (s.unregister a).2
  | clearRequest {s : Store} : Quiet spans s { s with table := { s.table with requested := false } }
  | beginMarking {s : Store} : Quiet spans s { s with table := s.table.beginMarking }
  | applyMarks {s : Store} (atoms : List Atom) : Quiet spans s { s with table := s.table.applyMarks atoms }
  | abortMarking {s : Store} : Quiet spans s { s with table := s.table.abortMarking }
  | postpone {s : Store} : Quiet spans s { s with table := s.table.postpone }

/-- The steps of the run. -/
inductive Step (spans : Span → Prop) : Custody → List Note → Custody → Prop
  | made {s s' : Store} {span : Span} {lasting : Bool} {blob : BlobId} {i : Interned} :
      spans span → s.internLocked span lasting blob = .ok (.ok i, s') → i.isNew = true →
      Step spans ⟨s, none⟩ [.made blob i.atom] ⟨s', some (blob, i.atom)⟩
  | acquired {s : Store} {blob : BlobId} {a : Atom} {type : BlobType} {hook : AcquireHook} :
      s.table.blobs.get? blob = some type → type.acquire = some hook →
      Step spans ⟨s, some (blob, a)⟩ [.acquired blob a] ⟨s, none⟩
  /-- Types without an acquire hook. -/
  | passed {s : Store} {blob : BlobId} {a : Atom} :
      (∀ type, s.table.blobs.get? blob = some type → type.acquire = none) →
      Step spans ⟨s, some (blob, a)⟩ [] ⟨s, none⟩
  | found {s s' : Store} {span : Span} {lasting : Bool} {blob : BlobId} {i : Interned} :
      spans span → s.internLocked span lasting blob = .ok (.ok i, s') → i.isNew = false →
      Step spans ⟨s, none⟩ [.found blob i.atom] ⟨s', none⟩
  | withdrawn {s : Store} {id : BlobId} {table : Table} :
      s.table.unregisterBlob id = .ok table → Step spans ⟨s, none⟩ [.withdrawn id] ⟨{ s with table }, none⟩
  | quiet {s s' : Store} : Quiet spans s s' → Step spans ⟨s, none⟩ [] ⟨s', none⟩
  | swept {s s' : Store} {n : Nat} {swept : Table.Swept} {table : Table} :
      s.table.sweep = .ok (swept, table) → s.sweep = .ok (n, s') →
      Step spans ⟨s, none⟩
        [.swept ⟨s.table, swept.calls.toList, swept.destroyed.toList, table⟩] ⟨s', none⟩

/-- Runs with their notes, the latest note first. -/
inductive Run (spans : Span → Prop) (x₀ : Custody) : List Note → Custody → Prop
  | start : Run spans x₀ [] x₀
  | step {x x' : Custody} {notes notes' : List Note} :
      Run spans x₀ notes x → Step spans x notes' x' → Run spans x₀ (notes' ++ notes) x'

variable {spans : Span → Prop} {x x' x₀ : Custody} {s s' : Store} {notes notes' later life : List Note}
  {buckets : Nat} {config : Config} {heap : Heap} {span : Span} {lasting : Bool} {b blob : BlobId} {a : Atom}
  {type : BlobType} {name : String} {e : Entry} {t t' : Table} {round : Round}

/-! ## The runs are runs of the store -/

theorem Quiet.step (h : Quiet spans s s') : ∃ events, Store.Call spans s events s' ∨ Store.Move s events s' := by
  cases h with
  | aside h =>
    obtain ⟨events, hcall⟩ := h.call
    exact ⟨events, .inl hcall⟩
  | register a => exact ⟨_, .inl (.register a)⟩
  | unregister a => exact ⟨_, .inl (.unregister a)⟩
  | clearRequest => exact ⟨_, .inr .clearRequest⟩
  | beginMarking => exact ⟨_, .inr .beginMarking⟩
  | applyMarks atoms => exact ⟨_, .inr (.applyMarks atoms)⟩
  | abortMarking => exact ⟨_, .inr .abortMarking⟩
  | postpone => exact ⟨_, .inr .postpone⟩

theorem Step.run (h : Step spans x notes x') : ∃ events, Store.Run spans x.store events x'.store := by
  cases h with
  | made hspan h _ => exact (Store.Call.intern hspan h).run
  | acquired _ _ => exact ⟨[], .start⟩
  | passed _ => exact ⟨[], .start⟩
  | found hspan h _ => exact (Store.Call.intern hspan h).run
  | withdrawn h => exact (Store.Call.unregisterBlob h).run
  | quiet h =>
    obtain ⟨events, hcall | hmove⟩ := h.step
    · exact hcall.run
    · exact ⟨_, .move .start hmove⟩
  | swept hswept h => exact ⟨_, .move .start (.sweep hswept h)⟩

theorem Run.quiet (h : Run spans x₀ notes ⟨s, none⟩) (hquiet : Quiet spans s s') : Run spans x₀ notes ⟨s', none⟩ :=
  .step h (.quiet hquiet)

theorem Run.made {i : Interned} (h : Run spans x₀ notes ⟨s, none⟩) (span : Span) (hspan : spans span) (blob : BlobId)
    (hi : s.internLocked span false blob = .ok (.ok i, s')) (hnew : i.isNew = true) :
    Run spans x₀ (.made blob i.atom :: notes) ⟨s', some (blob, i.atom)⟩ := .step h (.made hspan hi hnew)

theorem Run.run (h : Run spans x₀ notes x) : ∃ events, Store.Run spans x₀.store events x.store := by
  induction h with
  | start => exact ⟨[], .start⟩
  | step _ hstep ih => exact Store.run_trans ih hstep.run

theorem Run.sound (h : Run spans x₀ notes x) (hs : x₀.store.table.Sound buckets 0) :
    x.store.table.Sound buckets 0 := by
  obtain ⟨events, hrun⟩ := h.run
  exact hrun.sound hs

theorem Step.size (hs : x.store.table.Sound buckets 0) (h : Step spans x notes x') :
    x.store.table.slots.size ≤ x'.store.table.slots.size := by
  obtain ⟨events, hrun⟩ := h.run
  exact hs.size_changes (hrun.changes hs)

theorem Step.types (hs : x.store.table.Sound buckets 0) (h : Step spans x notes x') :
    x.store.table.blobs.Extends x'.store.table.blobs := by
  obtain ⟨events, hrun⟩ := h.run
  exact hs.types_changes (hrun.changes hs)

/-! ## What steps do to atoms -/

theorem Quiet.abides (hs : s.table.Sound buckets 0) (h : Quiet spans s s') : Table.Abides b s.table s'.table := by
  cases h with
  | aside h =>
    cases h with
    | internRefused _ h =>
      cases Store.internLocked_outcome hs h with
      | refused _ htable => exact .of_entry fun a => by rw [htable]
    | lookup _ h => exact (Table.lookup_amended (Store.lookup_table h)).abides
    | registerBlob h => exact (Table.registerBlob_amended h).abides
    | setFallback hook => exact .of_entry fun _ => rfl
    | lockAtoms => exact .of_entry fun _ => rfl
    | requestCollection => exact (Table.requestCollection_amended s.table).abides
    | other heap calls => exact .of_entry fun _ => rfl
  | register a => exact (Table.register_amended _ a).abides
  | unregister a => exact (Table.unregister_amended _ a).abides
  | clearRequest => exact .of_entry fun _ => rfl
  | beginMarking => exact .of_entry fun _ => rfl
  | applyMarks atoms => exact (Table.applyMarks_amended _ atoms).abides
  | abortMarking => exact (Table.abortMarking_amended _).abides
  | postpone => exact .of_entry fun _ => rfl

/-- Interning that comes upon an atom leaves all atoms as they are but for references and marks. -/
theorem found_abides (hs : s.table.Sound buckets 0) {i : Interned}
    (h : s.internLocked span lasting blob = .ok (.ok i, s')) (hnew : i.isNew = false) :
    Table.Abides b s.table s'.table := by
  cases Store.internLocked_outcome hs h with
  | found _ _ _ hreuse => exact (Table.reuse_amended hreuse).abides
  | made =>
    cases hnew

/-- Interning that makes an atom makes one of its type, and leaves all others as they are. -/
theorem made_cases (hs : s.table.Sound buckets 0) (hsize : s'.table.slots.size ≤ UInt32.size) {i : Interned}
    (h : s.internLocked span lasting blob = .ok (.ok i, s')) (hnew : i.isNew = true) :
    (∃ type, s.table.blobs.get? blob = some type) ∧ (∃ e, s'.table.entry i.atom = .ok e ∧ e.blob = blob) ∧
      (∀ a e, s.table.entry a = .ok e → ∃ e', s'.table.entry a = .ok e' ∧ e'.blob = e.blob) ∧
        ∀ a e', s'.table.entry a = .ok e' → a ≠ i.atom → ∃ e, s.table.entry a = .ok e := by
  cases Store.internLocked_outcome hs h with
  | found =>
    cases hnew
  | made hwanted hinsert =>
    obtain ⟨index, g, rfl, hinserted, -⟩ := hs.made hwanted hinsert
    have hi : index < UInt32.size := by
      have := hinserted.size
      omega
    obtain ⟨e₁, he₁, hbare₁⟩ := hinserted.entry hi
    refine ⟨⟨_, hwanted.registered⟩, ⟨e₁, he₁, congrArg (·.blob) hbare₁⟩, fun a e he => ?_, fun a e' he' hne => ?_⟩
    · obtain ⟨e', he', hbare⟩ := hinserted.survives he
      exact ⟨e', he', congrArg (·.blob) hbare⟩
    · rcases hinserted.live he' with ⟨hindex, -⟩ | ⟨e, he, -⟩
      · exact absurd (Table.eq_of_index_eq he' he₁ (hindex.trans (UInt32.toNat_ofNat_of_lt hi).symm)) hne
      · exact ⟨e, he⟩

/-! ## One atom -/

/-- What a run did about an atom of a type since it was made, and where the atom is. -/
structure Kept (b : BlobId) (type : BlobType) (a : Atom) (later : List Note) (x : Custody) : Prop where
  known : x.store.table.blobs.get? b = some type
  /-- The acquire hook is about to be entered, or was entered first of all and then no more. -/
  acquired : (later = [] ∧ x.fresh = some (b, a)) ∨
    (∃ life, later = life ++ [.acquired b a] ∧ ∀ blob, .acquired blob a ∉ life) ∧ ∀ blob, x.fresh ≠ some (blob, a)
  heeded : ∀ round, .swept round ∈ later → round.Heeds b type.name a
  /-- Nothing is asked after the answer was yes. -/
  last : later.Pairwise fun note note' => ∀ round round', note = .swept round → note' = .swept round' →
    a ∈ round'.destroyed → ∀ c ∈ round.calls, c.atom ≠ a
  /-- The atom is there, or a sweep took it. -/
  state : (∃ e, x.store.table.entry a = .ok e ∧ e.blob = b) ∧ (∀ round, .swept round ∈ later → a ∉ round.destroyed) ∨
    (∀ e, x.store.table.entry a ≠ .ok e) ∧ ∃ round, .swept round ∈ later ∧ a ∈ round.destroyed

theorem Kept.typed (h : Kept b type a later x) (e : Entry) (he : x.store.table.entry a = .ok e) : e.blob = b := by
  rcases h.state with ⟨⟨e', he', hb⟩, -⟩ | ⟨hnot, -⟩
  · rw [he, Except.ok.injEq] at he'
    exact he' ▸ hb
  · exact absurd he (hnot e)

/-- Steps that sweep nothing leave the atom where it is. -/
theorem Kept.unswept (h : Kept b type a later x) (hnotes : ∀ round, .swept round ∉ notes)
    (htype : x'.store.table.blobs.get? b = some type)
    (hstays : ∀ e, x.store.table.entry a = .ok e → e.blob = b → ∃ e', x'.store.table.entry a = .ok e' ∧ e'.blob = b)
    (hlive : ∀ e', x'.store.table.entry a = .ok e' → ∃ e, x.store.table.entry a = .ok e)
    (hacquired : (∃ life, notes ++ later = life ++ [.acquired b a] ∧ ∀ blob, .acquired blob a ∉ life) ∧
      ∀ blob, x'.fresh ≠ some (blob, a)) : Kept b type a (notes ++ later) x' := by
  have hsweeps (round : Round) (hround : .swept round ∈ notes ++ later) : .swept round ∈ later :=
    (List.mem_append.1 hround).resolve_left (hnotes round)
  have hnone (note : Note) (hnote : note ∈ notes) (round : Round) : note ≠ .swept round := by
    rintro rfl
    exact hnotes round hnote
  refine ⟨htype, .inr hacquired, ?_, List.pairwise_append.2 ⟨?_, h.last, ?_⟩, ?_⟩
  · intro round hround
    exact h.heeded round (hsweeps round hround)
  · apply List.pairwise_of_forall_mem_list
    intro note hnote _ _ round _ heq
    exact absurd heq (hnone note hnote round)
  · intro note hnote _ _ round _ heq
    exact absurd heq (hnone note hnote round)
  · rcases h.state with ⟨⟨e, he, hb⟩, hspared⟩ | ⟨hnot, round, hround, hdestroyed⟩
    · refine .inl ⟨hstays e he hb, ?_⟩
      intro round hround
      exact hspared round (hsweeps round hround)
    · refine .inr ⟨?_, round, List.mem_append_right _ hround, hdestroyed⟩
      intro e' he'
      obtain ⟨e, he⟩ := hlive e' he'
      exact hnot e he

/-- Between interning and its hook nothing else is done, so after other steps the hook was entered before. -/
theorem Kept.entered (notes : List Note) (h : Kept b type a later x) (hrest : x.fresh = none)
    (hnotes : ∀ blob, .acquired blob a ∉ notes) :
    ∃ life, notes ++ later = life ++ [.acquired b a] ∧ ∀ blob, .acquired blob a ∉ life := by
  rcases h.acquired with ⟨-, hfresh⟩ | ⟨⟨life, rfl, hlife⟩, -⟩
  · rw [hrest] at hfresh
    cases hfresh
  · exact ⟨notes ++ life, (List.append_assoc _ _ _).symm, fun blob => List.not_mem_append (hnotes blob) (hlife blob)⟩

/-- A sweep asks the release hook about the atom, if it asks about it, and nothing once the atom is gone. -/
theorem Kept.swept {round : Round} (h : Kept b type a later x) (hheeds : round.Heeds b type.name a)
    (hbefore : round.before = x.store.table) (hafter : x'.store.table.entry = round.after.entry)
    (htype : x'.store.table.blobs.get? b = some type)
    (hstays : ∀ e, round.before.entry a = .ok e → a ∉ round.destroyed →
      ∃ e', round.after.entry a = .ok e' ∧ e'.blob = e.blob)
    (hlive : ∀ e', round.after.entry a = .ok e' → ∃ e, round.before.entry a = .ok e) (hrest : x.fresh = none)
    (hrest' : x'.fresh = none) : Kept b type a (.swept round :: later) x' where
  known := htype
  acquired := by
    refine .inr ⟨h.entered [.swept round] hrest fun blob => by simp, fun blob => ?_⟩
    rw [hrest']
    nofun
  heeded round' hround := by
    rcases List.mem_cons.1 hround with heq | hround
    · cases heq
      exact hheeds
    · exact h.heeded round' hround
  last := by
    refine List.pairwise_cons.2 ⟨?_, h.last⟩
    rintro note hnote _ round' ⟨⟩ rfl hdestroyed c hc hatom
    rcases h.state with ⟨-, hspared⟩ | ⟨hnot, -⟩
    · exact hspared round' hnote hdestroyed
    · obtain ⟨-, e, he, -⟩ := hheeds.asked c hc hatom
      exact hnot e (hbefore ▸ he)
  state := by
    rw [hafter]
    rw [hbefore] at hstays hlive
    rcases h.state with ⟨⟨e, he, hb⟩, hspared⟩ | ⟨hnot, round', hround, hdestroyed⟩
    · by_cases hmem : a ∈ round.destroyed
      · obtain ⟨c, hc, hatom, hanswer⟩ := hheeds.destroyed hmem
        refine .inr ⟨fun e' he' => ?_, round, .head _, hmem⟩
        have hgone := (hheeds.agreed c hc hatom hanswer).2
        rw [Table.isLive_iff.2 ⟨e', he'⟩] at hgone
        cases hgone
      · obtain ⟨e', he', hblob⟩ := hstays e he hmem
        refine .inl ⟨⟨e', he', hblob.trans hb⟩, fun round' hround => ?_⟩
        rcases List.mem_cons.1 hround with heq | hround
        · cases heq
          exact hmem
        · exact hspared round' hround
    · refine .inr ⟨fun e' he' => ?_, round', .tail _ hround, hdestroyed⟩
      obtain ⟨e, he⟩ := hlive e' he'
      exact hnot e he

theorem Kept.step (hs : x.store.table.Sound buckets 0) (hsize : x'.store.table.slots.size < UInt32.size)
    {hook : AcquireHook} {release : ReleaseHook} (hacquire : type.acquire = some hook)
    (hrelease : type.release = some release) (h : Kept b type a later x) (hstep : Step spans x notes x')
    (hmade : ∀ blob, .made blob a ∉ notes) (hwithdrawn : .withdrawn b ∉ notes) : Kept b type a (notes ++ later) x' := by
  have htype := hstep.types hs b type h.known
  have hslots := Nat.lt_of_le_of_lt (hstep.size hs) hsize
  cases hstep with
  | @made s s' _ _ blob i _ hintern hnew =>
    obtain ⟨-, -, hstays, hlive⟩ := made_cases hs (Nat.le_of_lt hsize) hintern hnew
    have hne : i.atom ≠ a := fun heq => hmade blob (heq ▸ List.mem_cons_self)
    refine h.unswept (by simp) htype (fun e he hb => ?_) (fun e' he' => hlive a e' he' hne.symm) ⟨?_, fun blob' heq => ?_⟩
    · obtain ⟨e', he', hblob⟩ := hstays a e he
      exact ⟨e', he', hblob.trans hb⟩
    · exact h.entered _ rfl fun blob => by simp
    · exact hne (congrArg Prod.snd (Option.some.inj heq))
  | @acquired s blob a' _ _ _ _ =>
    refine h.unswept (by simp) htype (fun e he hb => ⟨e, he, hb⟩) (fun e he => ⟨e, he⟩) ⟨?_, by simp⟩
    rcases h.acquired with ⟨rfl, hfresh⟩ | ⟨⟨life, rfl, hlife⟩, hfresh⟩
    · cases hfresh
      exact ⟨[], rfl, by simp⟩
    · refine ⟨.acquired blob a' :: life, rfl, fun blob' hmem => ?_⟩
      rcases List.mem_cons.1 hmem with heq | hmem
      · cases heq
        exact hfresh _ rfl
      · exact hlife blob' hmem
  | @passed s blob a' hnone =>
    refine h.unswept (by simp) htype (fun e he hb => ⟨e, he, hb⟩) (fun e he => ⟨e, he⟩) ⟨?_, by simp⟩
    rcases h.acquired with ⟨rfl, hfresh⟩ | ⟨hlife, -⟩
    · -- The type of the atom has a hook to enter.
      cases hfresh
      rw [hnone type h.known] at hacquire
      cases hacquire
    · exact hlife
  | found _ hintern hnew =>
    have habides : Table.Abides b _ _ := found_abides hs hintern hnew
    exact h.unswept (by simp) htype (habides.stays a) (habides.live a) ⟨h.entered _ rfl fun blob => by simp, by simp⟩
  | @withdrawn s id _ hu =>
    have hne : id ≠ b := fun heq => hwithdrawn (heq ▸ List.mem_cons_self)
    have habides := Table.unregisterBlob_abides hu hne
    exact h.unswept (by simp) htype (habides.stays a) (habides.live a) ⟨h.entered _ rfl fun blob => by simp, by simp⟩
  | quiet hq =>
    have habides : Table.Abides b _ _ := hq.abides hs
    exact h.unswept (by simp) htype (habides.stays a) (habides.live a) ⟨h.entered _ rfl (by simp), by simp⟩
  | @swept s s' n swept table hswept hsweep =>
    obtain rfl := Store.sweep_table_eq hswept hsweep
    obtain ⟨hcleared, hdestroyed⟩ := hs.sweep_cleared hswept
    refine h.swept (hcleared.heeds hslots hdestroyed h.known hrelease h.typed) rfl rfl htype (fun e he hnot => ?_)
      (fun e' he' => hcleared.live he') rfl rfl
    obtain ⟨e', he', -, hblob, -⟩ := hcleared.kept hslots he (mt (hdestroyed a).2 hnot)
    exact ⟨e', he', hblob⟩

/-- An atom that was just made is there, and its hook is about to be entered. -/
theorem Step.kept (hs : x.store.table.Sound buckets 0) (hsize : x'.store.table.slots.size < UInt32.size)
    (h : Step spans x notes x') (hmade : .made b a ∈ notes) :
    notes = [.made b a] ∧ ∃ type, Kept b type a [] x' := by
  have htypes := h.types hs
  cases h with
  | @made s s' _ _ blob i _ hintern hnew =>
    cases List.mem_singleton.1 hmade
    obtain ⟨⟨type, htype⟩, hlive, -⟩ := made_cases hs (Nat.le_of_lt hsize) hintern hnew
    exact ⟨rfl, type, htypes _ type htype, .inl ⟨rfl, rfl⟩, by simp, .nil, .inl ⟨hlive, by simp⟩⟩
  | _ => simp at hmade

/-! ## Interning and sweeps are such runs -/

/-- A call of a hook about an atom. -/
inductive Hooked
  | acquired (blob : BlobId) (a : Atom)
  | released (call : ReleaseCall)

def hooked? : HookCall → Option Hooked
  | .acquired (blob, _) a _ _ => some (.acquired blob a)
  | .released call => some (.released call)
  | .refused _ => none

/-- The calls that a store logged, in order. -/
def hooked (s : Store) : List Hooked := s.calls.toList.filterMap hooked?

/-- The calls that notes tell of, in order. -/
def told (notes : List Note) : List Hooked := notes.reverse.flatMap fun
  | .acquired blob a => [.acquired blob a]
  | .swept round => round.calls.map .released
  | _ => []

/-- Text has no acquire hook, so none is entered when a hook interns text. -/
def Plain (s : Store) : Prop := ∃ type, s.table.blobs.get? BlobId.text = some type ∧ type.acquire = none

/-- A run from one store to the other that enters no hook, while the store logs none. -/
def Silent (spans : Span → Prop) (s s' : Store) : Prop :=
  ∃ notes, Run spans ⟨s, none⟩ notes ⟨s', none⟩ ∧ told notes = [] ∧ hooked s' = hooked s

theorem told_append (notes notes' : List Note) : told (notes' ++ notes) = told notes ++ told notes' := by
  unfold told
  rw [List.reverse_append, List.flatMap_append]

theorem Run.trans (h : Run spans x₀ notes x) (h' : Run spans x notes' x') : Run spans x₀ (notes' ++ notes) x' := by
  induction h' with
  | start => exact h
  | step _ hstep ih =>
    rw [List.append_assoc]
    exact .step ih hstep

theorem Silent.refl (s : Store) : Silent spans s s := ⟨[], .start, rfl, rfl⟩

theorem Quiet.silent (h : Quiet spans s s') (hlog : s'.calls = s.calls) : Silent spans s s' :=
  ⟨[], .step .start (.quiet h), rfl, by rw [hooked, hlog, hooked]⟩

theorem Run.plain (h : Run spans x₀ notes x) (hs : x₀.store.table.Sound buckets 0) (hplain : Plain x₀.store) :
    Plain x.store := by
  obtain ⟨type, htype, hnone⟩ := hplain
  obtain ⟨events, hrun⟩ := h.run
  exact ⟨type, hs.types_changes (hrun.changes hs) _ type htype, hnone⟩

theorem Run.heed (h : Run spans x₀ notes ⟨s, none⟩) (i : Interned) : Run spans x₀ notes ⟨s.heed i, none⟩ := by
  unfold Store.heed
  split
  · exact h.quiet (.aside .requestCollection)
  · exact h

theorem hooked_heed (s : Store) (i : Interned) : hooked (s.heed i) = hooked s := by
  unfold Store.heed
  split <;> rfl

/-- Refusals are no calls about atoms. -/
theorem hooked_refused (calls : List HookCall) (refusals : List Refusal) :
    (calls ++ refusals.map HookCall.refused).filterMap hooked? = calls.filterMap hooked? := by
  have hnone : refusals.filterMap (hooked? ∘ HookCall.refused) = [] := List.filterMap_eq_nil_iff.2 fun _ _ => rfl
  rw [List.filterMap_append, List.filterMap_map, hnone, List.append_nil]

/-- What interning does while the table is locked enters no hook. -/
theorem internLocked_hooked {r : Except AtomError Interned} (h : s.internLocked span lasting blob = .ok (r, s')) :
    hooked s' = hooked s := by
  have hlog : ∀ s : Store, s.log.filterMap hooked? = hooked s := fun s => hooked_refused _ _
  cases Store.internLocked_copying h with
  | none _ _ _ h => rw [← hlog, h, hlog]
  | copied _ _ _ h =>
    rw [← hlog, h]
    exact hooked_refused _ _
  | refused _ _ _ h =>
    rw [← hlog, h]
    exact hooked_refused _ _

/-- What an acquire hook of the library does enters no hook itself. -/
theorem runAcquire_silent (hs : s.table.Sound buckets 0) (hplain : Plain s) (hspans : ∀ bytes, spans { bytes })
    {hook : AcquireHook} {answer : AcquireAnswer} (h : s.runAcquire hook a = .ok (answer, s')) : Silent spans s s' := by
  cases Store.runAcquire_cases h with
  | observe => exact .refl s
  | register => exact Quiet.silent (.register a) rfl
  | unregister => exact Quiet.silent (.unregister a) rfl
  | @refused _ bytes _ hintern =>
    have hrefused : Run spans ⟨s, none⟩ _ _ :=
      .step .start (.quiet (.aside (.internRefused (hspans bytes) hintern)))
    exact ⟨_, hrefused, rfl, internLocked_hooked hintern⟩
  | @interned s₁ bytes i hintern =>
    have hlog : hooked (s₁.heed i) = hooked s := (hooked_heed s₁ i).trans (internLocked_hooked hintern)
    cases hnew : i.isNew with
    | false =>
      have hfound : Run spans ⟨s, none⟩ _ ⟨s₁, none⟩ := .step .start (.found (hspans bytes) hintern hnew)
      exact ⟨_, hfound.heed i, rfl, hlog⟩
    | true =>
      have hmade : Run spans ⟨s, none⟩ _ _ := .step .start (.made (hspans bytes) hintern hnew)
      obtain ⟨type, htype, hnone⟩ := hmade.plain hs hplain
      have hpassed := hmade.step (.passed fun type' htype' => by
        rw [htype, Option.some.injEq] at htype'
        exact htype' ▸ hnone)
      exact ⟨_, hpassed.heed i, rfl, hlog⟩

/-- The acquire hook of the type of a new atom, if there is one, is entered and logged. -/
theorem acquire_custody (hs : s.table.Sound buckets 0) (hplain : Plain s) (hspans : ∀ bytes, spans { bytes })
    (h : s.acquire blob a = .ok s') :
    ∃ notes, Run spans ⟨s, some (blob, a)⟩ notes ⟨s', none⟩ ∧ hooked s' = hooked s ++ told notes := by
  cases Store.acquire_cases h with
  | passed hnone => exact ⟨_, .step .start (.passed hnone), (List.append_nil _).symm⟩
  | @called _ _ _ s₁ htype hhook hrun =>
    obtain ⟨notes, hsilent, htold, hlog⟩ := runAcquire_silent hs hplain hspans hrun
    have hentered : Run spans ⟨s, some (blob, a)⟩ _ ⟨s, none⟩ := .step .start (.acquired htype hhook)
    refine ⟨_, (hentered.trans hsilent).step (.quiet (.aside (.other s₁.heap _))), ?_⟩
    rw [List.nil_append, told_append, htold, ← hlog]
    simp [hooked, hooked?, told]

/-- What interning as a type notes first of all, by its answer. -/
inductive Noted (blob : BlobId) : Except AtomError Interned → List Note → Prop
  | refused (error : AtomError) : Noted blob (.error error) []
  | found {i : Interned} : i.isNew = false → Noted blob (.ok i) [.found blob i.atom]
  | made {i : Interned} (notes : List Note) : i.isNew = true → Noted blob (.ok i) (notes ++ [.made blob i.atom])

/-- What interning and sweeps do after a run, hooks included, goes on with it, and of hooks they log what it notes. -/
structure Logged (spans : Span → Prop) (x₀ : Custody) (notes : List Note) (s : Store) : Prop where
  interned : ∀ span lasting blob r s', spans span → s.internSpan span lasting blob = .ok (r, s') →
    ∃ notes', Noted blob r notes' ∧ Run spans x₀ (notes' ++ notes) ⟨s', none⟩ ∧ hooked s' = hooked s ++ told notes'
  swept : ∀ n s', s.sweep = .ok (n, s') →
    ∃ round, Run spans x₀ (.swept round :: notes) ⟨s', none⟩ ∧ hooked s' = hooked s ++ round.calls.map .released

theorem Run.interned (h : Run spans x₀ notes ⟨s, none⟩) (hs : x₀.store.table.Sound buckets 0)
    (hplain : Plain x₀.store) (hspans : ∀ bytes, spans { bytes }) (hspan : spans span) {r : Except AtomError Interned}
    (hi : s.internSpan span lasting blob = .ok (r, s')) :
    ∃ notes', Noted blob r notes' ∧ Run spans x₀ (notes' ++ notes) ⟨s', none⟩ ∧
      hooked s' = hooked s ++ told notes' := by
  cases Store.internSpan_cases hi with
  | refused hintern =>
    refine ⟨[], .refused _, h.quiet (.aside (.internRefused hspan hintern)), ?_⟩
    rw [internLocked_hooked hintern]
    exact (List.append_nil _).symm
  | @found _ i hintern hnew =>
    refine ⟨[.found blob i.atom], .found hnew, (h.step (.found hspan hintern hnew)).heed i, ?_⟩
    rw [hooked_heed, internLocked_hooked hintern]
    exact (List.append_nil _).symm
  | @made _ _ i hintern hnew hacquire =>
    have hmade := h.step (.made hspan hintern hnew)
    obtain ⟨notes', hrun, hlog⟩ := acquire_custody (hmade.sound hs) (hmade.plain hs hplain) hspans hacquire
    refine ⟨notes' ++ [.made blob i.atom], .made notes' hnew, ?_, ?_⟩
    · rw [List.append_assoc]
      exact (hmade.trans hrun).heed i
    · rw [hooked_heed, hlog, internLocked_hooked hintern, told_append]
      rfl

theorem Run.swept (h : Run spans x₀ notes ⟨s, none⟩) {n : Nat} (hs : s.sweep = .ok (n, s')) :
    ∃ round, Run spans x₀ (.swept round :: notes) ⟨s', none⟩ ∧ hooked s' = hooked s ++ round.calls.map .released := by
  obtain ⟨heap, table, calls⟩ := s
  obtain ⟨⟨swept, t⟩, htable, hs'⟩ := bind_eq_ok_iff.1 hs
  obtain ⟨heap', -, hs'⟩ := bind_eq_ok_iff.1 hs'
  cases hs'
  refine ⟨_, h.step (.swept htable hs), ?_⟩
  have hcalls : swept.calls.toList.filterMap (fun call => hooked? (.released call)) =
      swept.calls.toList.map .released := by
    rw [← List.filterMap_eq_map]
    rfl
  simp [hooked, List.filterMap_map, hcalls]

/-! ## Whole runs -/

/-- Of each atom that was made and not made anew since, the run kept what it has to. -/
theorem Run.kept (h : Run spans x₀ notes x) (hs : x₀.store.table.Sound buckets 0)
    (hsize : x.store.table.slots.size < UInt32.size) (hwithdrawn : .withdrawn b ∉ notes) {before : List Note}
    (heq : notes = later ++ .made b a :: before) (hmade : ∀ blob, .made blob a ∉ later) :
    ∃ type, x.store.table.blobs.get? b = some type ∧ (type.acquire.isSome → type.release.isSome →
      Kept b type a later x) := by
  induction h generalizing later with
  | start => exact absurd heq (by simp)
  | @step x x' notes notes' h hstep ih =>
    have hx := h.sound hs
    have hslots := Nat.lt_of_le_of_lt (hstep.size hx) hsize
    rw [List.mem_append, not_or] at hwithdrawn
    -- The atom was made in this step, or before it.
    have hcases : .made b a ∈ notes' ∨ ∃ life, later = notes' ++ life ∧ notes = life ++ .made b a :: before := by
      rcases List.append_eq_append_iff.1 heq with hlife | ⟨_ | ⟨note, more⟩, hnotes, hmore⟩
      · exact .inr hlife
      · exact .inr ⟨[], by rw [List.append_nil, hnotes, List.append_nil], hmore.symm⟩
      · rw [hnotes, (List.cons.inj hmore).1]
        exact .inl (List.mem_append_right _ List.mem_cons_self)
    rcases hcases with hnew | ⟨life, rfl, hnotes⟩
    · obtain ⟨rfl, type, hkept⟩ := hstep.kept hx hsize hnew
      cases later with
      | nil => exact ⟨type, hkept.known, fun _ _ => hkept⟩
      | cons note later =>
        obtain ⟨rfl, -⟩ := List.cons.inj heq
        exact absurd List.mem_cons_self (hmade b)
    · obtain ⟨type, htype, hkept⟩ := ih hslots hwithdrawn.2 hnotes fun blob hmem =>
        hmade blob (List.mem_append_right _ hmem)
      refine ⟨type, hstep.types hx b type htype, fun hacquire hrelease => ?_⟩
      obtain ⟨hook, hhook⟩ := Option.isSome_iff_exists.1 hacquire
      obtain ⟨release, hrelease'⟩ := Option.isSome_iff_exists.1 hrelease
      exact (hkept hacquire hrelease).step hx hsize hhook hrelease' hstep
        (fun blob hmem => hmade blob (List.mem_append_left _ hmem)) hwithdrawn.1

/-- How hooks bracket the life of an atom, from when it was made. -/
structure Bracketed (b : BlobId) (name : String) (a : Atom) (later : List Note) (s : Store) : Prop where
  /-- The acquire hook was entered at once, by the intern that made the atom, and not again. -/
  acquired : ∃ life, later = life ++ [.acquired b a] ∧ ∀ blob, .acquired blob a ∉ life
  /-- In each sweep since then the atom stayed if its release hook declined, and went just if it agreed. -/
  heeded : ∀ round, .swept round ∈ later → round.Heeds b name a
  /-- Once it went nothing was asked about it any more. -/
  last : ∀ after round before, later = after ++ .swept round :: before → a ∈ round.destroyed →
    ∀ round', .swept round' ∈ after → ∀ c ∈ round'.calls, c.atom ≠ a
  /-- It is still there, if no sweep took it. -/
  gone : s.table.isLive a = true ∨ ∃ round, .swept round ∈ later ∧ a ∈ round.destroyed

theorem Kept.bracketed (h : Kept b type a later ⟨s, none⟩) : Bracketed b type.name a later s := by
  refine ⟨h.entered [] rfl (by simp), h.heeded, ?_, ?_⟩
  · rintro after round before rfl hdestroyed round' hround
    exact (List.pairwise_append.1 h.last).2.2 _ hround _ List.mem_cons_self round' round rfl rfl hdestroyed
  · rcases h.state with ⟨⟨e, he, -⟩, -⟩ | ⟨-, hgone⟩
    · exact .inl (Table.isLive_iff.2 ⟨e, he⟩)
    · exact .inr hgone

/-- In every run of one thread, whatever acquire hooks do, and for every type with both hooks that was never
withdrawn: the life of each of its atoms begins with one call of the acquire hook, by the intern that made it, and
ends when the release hook agrees, if ever. What interning and sweeps do goes on with the run, and the hooks that they
call are those that it notes. -/
theorem hooks_bracket (hc : config.check = .ok ()) (h : Run spans ⟨.empty heap config, none⟩ notes ⟨s, none⟩)
    (hsize : s.table.slots.size < UInt32.size) :
    (∀ b type, s.table.blobs.get? b = some type → type.acquire.isSome → type.release.isSome → .withdrawn b ∉ notes →
      ∀ a later before, notes = later ++ .made b a :: before → (∀ blob, .made blob a ∉ later) →
        Bracketed b type.name a later s) ∧
      ((∀ bytes, spans { bytes }) → Logged spans ⟨.empty heap config, none⟩ notes s) := by
  have hempty := Table.sound_empty (Table.atomBuckets_power hc) heap.openPool.1
  refine ⟨?_, ?_⟩
  · intro b type htype hacquire hrelease hwithdrawn a later before heq hmade
    obtain ⟨type', htype', hkept⟩ := h.kept hempty hsize hwithdrawn heq hmade
    rw [htype, Option.some.injEq] at htype'
    subst htype'
    exact (hkept hacquire hrelease).bracketed
  · intro hspans
    refine ⟨?_, ?_⟩
    · intro span lasting blob r s' hspan hi
      exact h.interned hempty ⟨_, rfl, rfl⟩ hspans hspan hi
    · intro n s' hsweep
      exact h.swept hsweep

/-- An atom whose acquire hook interns another, and whose release hook declines once. -/
theorem hooks_bracket_declined :
    ∃ s round round', Run (fun _ => True) ⟨.empty (.empty ⟨32, 64, 2⟩ fun _ _ => true) { atomBuckets := 1 }, none⟩
        [.swept round', .swept round, .made 0 ⟨1, 0⟩, .acquired 3 ⟨0, 0⟩, .made 3 ⟨0, 0⟩] ⟨s, none⟩ ∧
      Bracketed 3 "file" ⟨0, 0⟩ [.swept round', .swept round, .made 0 ⟨1, 0⟩, .acquired 3 ⟨0, 0⟩] s ∧
        (⟨0, 0⟩ : Atom) ∉ round.destroyed ∧ ⟨0, 0⟩ ∈ round'.destroyed ∧
        Logged (fun _ => True) ⟨.empty (.empty ⟨32, 64, 2⟩ fun _ _ => true) { atomBuckets := 1 }, none⟩
          [.swept round', .swept round, .made 0 ⟨1, 0⟩, .acquired 3 ⟨0, 0⟩, .made 3 ⟨0, 0⟩] s := by
  have none := @Run.start (fun _ => True)
    ⟨.empty (.empty ⟨32, 64, 2⟩ fun _ _ => true) { atomBuckets := 1 }, none⟩
  have known := none.quiet (.aside (.registerBlob
    (@Table.registerBlob_of_none _ ⟨"file", {}, some (.internText [98]), some fun asked _ => 0 < asked⟩ (by cbv))))
  have made := known.made { bytes := [97] } trivial 3 (by cbv) rfl
  have acquired := made.step (.acquired rfl rfl)
  have other := acquired.made { bytes := [98] } trivial BlobId.text (by cbv) rfl
  have passed := other.step (.passed fun type htype => (Option.some.inj htype) ▸ rfl)
  have dropped := passed.quiet (.unregister ⟨0, 0⟩)
  have declined := dropped.step (.swept (by cbv) (by cbv))
  have agreed := declined.step (.swept (by cbv) (by cbv))
  obtain ⟨hbracketed, hlogged⟩ := hooks_bracket rfl agreed (by decide)
  have hbracketed := hbracketed 3 _ rfl rfl rfl (by simp) ⟨0, 0⟩
    [.swept _, .swept _, .made 0 ⟨1, 0⟩, .acquired 3 ⟨0, 0⟩] [] rfl (by simp)
  exact ⟨_, _, _, agreed, hbracketed, by decide, by decide, hlogged fun _ => trivial⟩

end Custody

end AtomHeap
