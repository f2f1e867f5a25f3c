import AtomHeap.Proofs.Store.Run
import AtomHeap.Proofs.Table.Gauge
import AtomHeap.System.Cycle
/-!
# Collection pressure

A cycle is asked for when the live atoms outnumber those left by the last one by more than the margin. Who
makes an atom learns under the table's lock whether it is one too many, and asks later, after the acquire
hook. A cycle clears the request before it looks whether one is due, and atoms are made meanwhile. Here it
is shown that no pressure is lost on the way, and that none is reported before its time.

A `Pressure` is a system with who still owes a request and how far the cycle that keeps others out is with
it; a `Pressure.Step` is what somebody does under one lock. Whatever touches neither the gauge nor the number
of atoms nor the lock is a step, so a `Pressure.Run` goes through any interleaving of what threads do.
-/

namespace AtomHeap

/-- How far the cycle that keeps others out is with the request. -/
inductive Turn
  /-- There is none. -/
  | free
  /-- There is none, and somebody keeps cycles out. -/
  | held
  /-- The request stands as it was. -/
  | locked
  /-- The request is cleared. -/
  | cleared
  /-- The request is cleared, and there were not enough new atoms then. -/
  | undue
  /-- It marks or sweeps. -/
  | begun
  /-- It took the live atoms as those that are left. -/
  | settled
  deriving DecidableEq, Repr

/-- A system at work on requests for cycles. -/
structure Pressure where
  system : System
  turn : Turn := .free
  /-- The atoms that were one too many and whose makers did not ask for a cycle yet. -/
  owing : List Atom := []

namespace Pressure

/-- What matters to requests in a step. -/
inductive Note
  | made (a : Atom)
  /-- The maker of an atom, or else somebody of its own accord, asked for a cycle and got an answer. -/
  | asked (maker : Option Atom) (answer : Bool)
  | cleared
  /-- The live atoms were taken as those that are left, while makers of some atoms owed a request. -/
  | settled (owing : List Atom)
  deriving DecidableEq, Repr

/-- A system on a heap, without atoms and mutators, at rest. -/
def empty (heap : Heap) (config : Config) : Pressure := { system := .empty heap config }

def table (p : Pressure) : Table := p.system.store.table

/-- Neither a cycle nor an intern is on its way. -/
structure Resting (p : Pressure) : Prop where
  turn : p.turn = .free ∨ p.turn = .held
  owing : p.owing = []

inductive Step (p : Pressure) : List Note → Pressure → Prop
  -- Callers
  | make {span : Span} {lasting : Bool} {blob : BlobId} {i : Interned} {store : Store} :
      p.system.store.internLocked span lasting blob = .ok (.ok i, store) → i.isNew = true →
      Step p [.made i.atom]
        { p with
          system := { p.system with store }
          owing := if i.wantsCycle then i.atom :: p.owing else p.owing }
  | heed {a : Atom} : a ∈ p.owing →
      Step p [.asked (some a) p.table.requestCollection.1]
        { p with system := p.system.onTable (·.requestCollection.2), owing := p.owing.erase a }
  | request : Step p [.asked none p.table.requestCollection.1]
      { p with system := p.system.onTable (·.requestCollection.2) }
  | lockAtoms : Step p [.settled p.owing] { p with system := p.system.onTable .lockAtoms }
  -- The lock
  | hold : p.turn = .free → p.system.collector.locked = false →
      Step p [] { p with system := p.system.onCollector .lock, turn := .held }
  | release : p.turn = .held → Step p [] { p with system := p.system.onCollector .unlock, turn := .free }
  | lock : p.turn = .free → p.system.collector.locked = false → p.table.agcEnabled = true →
      Step p [] { p with system := p.system.onCollector .lock, turn := .locked }
  -- The cycle
  | clear : p.turn = .locked →
      Step p [.cleared] { p with system := p.system.onTable ({ · with requested := false }), turn := .cleared }
  | look : p.turn = .cleared → p.table.shouldCollect = .ok false → Step p [] { p with turn := .undue }
  | decline : p.turn = .undue → Step p [] { p with system := p.system.onCollector .unlock, turn := .free }
  | begin : p.turn = .cleared → Step p [] { p with system := p.system.onTable .beginMarking, turn := .begun }
  | postpone : p.turn = .begun →
      Step p [.settled p.owing] { p with system := p.system.onTable .postpone, turn := .settled }
  | sweep {n : Nat} {store : Store} : p.turn = .begun → p.system.store.sweep = .ok (n, store) →
      Step p [.settled p.owing] { p with system := { p.system with store }, turn := .settled }
  | rest : p.turn = .settled → Step p [] { p with system := p.system.onCollector .unlock, turn := .free }
  -- All else
  | other {system : System} : p.table.Steady system.store.table →
      system.collector.locked = p.system.collector.locked → Step p [] { p with system }

/-- Sequences of steps, with what mattered to requests on the way, the latest first. -/
inductive Run (p₀ : Pressure) : List Note → Pressure → Prop
  | start : Run p₀ [] p₀
  | step {p p' : Pressure} {notes new : List Note} : Run p₀ notes p → Step p new p' → Run p₀ (new ++ notes) p'

/-- How many atoms were made since the live ones were last taken as those that are left. -/
def madeSince : List Note → Nat
  | [] | .settled _ :: _ => 0
  | .made _ :: notes => madeSince notes + 1
  | .asked _ _ :: notes | .cleared :: notes => madeSince notes

/-- Whether a cycle was asked for since the request was last cleared. -/
def askedSince : List Note → Bool
  | [] | .cleared :: _ => false
  | .asked _ _ :: _ => true
  | .made _ :: notes | .settled _ :: notes => askedSince notes

/-- No maker of an atom owed a request when the live atoms were taken as those that are left. -/
def Undisturbed (notes : List Note) : Prop := ∀ owing, .settled owing ∈ notes → owing = []

variable {p p' p₀ q : Pressure} {notes new since before : List Note} {note : Note} {heap : Heap} {config : Config}
  {span : Span} {lasting : Bool} {blob : BlobId} {i : Interned} {s : System} {store store' : Store} {a : Atom}

theorem Run.trans (h : Run p₀ notes p) (h' : Run p new p') : Run p₀ (new ++ notes) p' := by
  induction h' with
  | start => exact h
  | step _ hstep ih =>
    rw [List.append_assoc]
    exact .step ih hstep

theorem Run.make (h : Run p₀ notes p) (span : Span) (lasting : Bool) (blob : BlobId)
    (hi : p.system.store.internLocked span lasting blob = .ok (.ok i, store)) (hnew : i.isNew = true) :
    Run p₀ (.made i.atom :: notes)
      { p with
        system := { p.system with store }
        owing := if i.wantsCycle then i.atom :: p.owing else p.owing } := h.step (.make hi hnew)

/-- Each note was left by a step. -/
theorem Run.at_note (h : Run p₀ notes p) (heq : notes = since ++ note :: before) :
    ∃ q q', Run p₀ before q ∧ Step q [note] q' := by
  induction h generalizing since with
  | start => simp at heq
  | @step p p' notes new hrun hstep ih =>
    have hnew : new = [] ∨ ∃ note', new = [note'] := by
      cases hstep <;> simp
    rcases hnew with rfl | ⟨note', rfl⟩
    · exact ih heq
    · cases since with
      | nil =>
        cases heq
        exact ⟨p, p', hrun, hstep⟩
      | cons _ since =>
        cases heq
        exact ih rfl

/-! ## What steps preserve -/

/-- Who makes an atom learns whether it is one too many. -/
theorem made_gauge (h : store.internLocked span lasting blob = .ok (.ok i, store')) (hnew : i.isNew = true) :
    store'.table.gauge = store.table.gauge ∧ store'.table.count = store.table.count + 1 ∧
      store'.table.shouldCollect = .ok i.wantsCycle := by
  unfold Store.internLocked at h
  split at h
  · obtain ⟨_ | index, -, h⟩ := bind_eq_ok_iff.1 h
    · obtain ⟨⟨e | payload, store₁⟩, hpayload, h⟩ := bind_eq_ok_iff.1 h
      · cases h
      · obtain ⟨⟨a, t⟩, hinsert, h⟩ := bind_eq_ok_iff.1 h
        obtain ⟨due, hdue, h⟩ := bind_eq_ok_iff.1 h
        cases h
        obtain ⟨-, -, -, htable⟩ := Store.payloadFor_table hpayload
        obtain ⟨hgauge, hcount⟩ := Table.insert_gauge hinsert
        dsimp only at htable
        rw [htable] at hgauge hcount
        exact ⟨hgauge, hcount, hdue⟩
    · obtain ⟨⟨found, store₁⟩, hreuse, h⟩ := bind_eq_ok_iff.1 h
      obtain ⟨⟨a, t⟩, -, hreuse⟩ := bind_eq_ok_iff.1 hreuse
      cases h
      cases hreuse
      cases hnew
  · cases h

/-- What the notes tell about the table, with collection switched on; and that as long as a cycle is due, one
is requested or somebody is about to see to that. -/
structure Kept (margin : Nat) (notes : List Note) (p : Pressure) : Prop where
  enabled : p.table.agcEnabled = true
  limit : p.table.margin = margin
  count : p.table.count = p.table.nonGarbage + madeSince notes
  requested : p.table.requested = askedSince notes
  alert : p.table.nonGarbage + margin < p.table.count →
    p.table.requested = true ∨ p.owing ≠ [] ∨ p.turn = .cleared ∨ p.turn = .begun
  /-- Where the live atoms were not taken as those left in between, whoever owes a request made enough. -/
  early : Undisturbed notes → p.owing ≠ [] → margin < madeSince notes

namespace Kept

variable {margin : Nat}

theorem lt_madeSince (h : Kept margin notes p) (hover : p.table.nonGarbage + p.table.margin < p.table.count) :
    margin < madeSince notes := by
  have hcount := h.count
  rw [h.limit] at hover
  omega

/-- A step that leaves table and debts alone does not end what sees to a request that is due. -/
theorem turn (h : Kept margin notes p) (htable : p.table.Steady p'.table) (howing : p'.owing = p.owing)
    (hturn : p.turn = .cleared ∨ p.turn = .begun → p'.turn = .cleared ∨ p'.turn = .begun ∨
      ¬ p.table.nonGarbage + margin < p.table.count) : Kept margin notes p' := by
  obtain ⟨henabled, hmargin, hleft, hrequested⟩ := Table.gauge_eq_iff.1 htable.gauge
  refine ⟨henabled.trans h.enabled, hmargin.trans h.limit, ?_, hrequested.trans h.requested, ?_, ?_⟩
  · rw [htable.count, hleft]
    exact h.count
  · rw [htable.count, hleft, hrequested, howing]
    intro hdue
    rcases h.alert hdue with hasked | howes | hcycle
    · exact .inl hasked
    · exact .inr (.inl howes)
    · rcases hturn hcycle with hcleared | hbegun | hnot
      · exact .inr (.inr (.inl hcleared))
      · exact .inr (.inr (.inr hbegun))
      · exact absurd hdue hnot
  · rw [howing]
    exact h.early

/-- Asking for a cycle. Whoever owed a request may owe none any longer. -/
theorem asked (h : Kept margin notes p) (maker : Option Atom) (answer : Bool)
    (htable : p'.table = p.table.requestCollection.2) (howing : p'.owing ⊆ p.owing) :
    Kept margin (.asked maker answer :: notes) p' := by
  rw [Table.requestCollection_of_enabled h.enabled] at htable
  have hrequested : p'.table.requested = true := by rw [htable]
  refine ⟨?_, ?_, ?_, hrequested, fun _ => .inl hrequested, fun hquiet howes => ?_⟩
  · rw [htable]
    exact h.enabled
  · rw [htable]
    exact h.limit
  · rw [htable]
    exact h.count
  · refine h.early (fun owing hmem => hquiet owing (.tail _ hmem)) fun hnone => howes ?_
    rw [hnone] at howing
    exact List.subset_nil.1 howing

/-- Taking the live atoms as those that are left. -/
theorem settled (h : Kept margin notes p)
    (hgauge : p'.table.gauge = { p.table with nonGarbage := p'.table.count }.gauge) (howing : p'.owing = p.owing) :
    Kept margin (.settled p.owing :: notes) p' := by
  obtain ⟨henabled, hmargin, hleft, hrequested⟩ := Table.gauge_eq_iff.1 hgauge
  dsimp only at henabled hmargin hleft hrequested
  refine ⟨henabled.trans h.enabled, hmargin.trans h.limit, hleft.symm, hrequested.trans h.requested, ?_, ?_⟩
  · rw [hleft]
    exact fun hdue => absurd hdue (Nat.not_lt.2 (Nat.le_add_right _ _))
  · rw [howing]
    exact fun hquiet howes => absurd (hquiet _ List.mem_cons_self) howes

theorem made (h : Kept margin notes p)
    (hi : p.system.store.internLocked span lasting blob = .ok (.ok i, store)) (hnew : i.isNew = true) :
    Kept margin (.made i.atom :: notes)
      { p with
        system := { p.system with store }
        owing := if i.wantsCycle then i.atom :: p.owing else p.owing } := by
  obtain ⟨hgauge, hcount, hdue⟩ := made_gauge hi hnew
  obtain ⟨henabled, hmargin, hleft, hrequested⟩ := Table.gauge_eq_iff.1 hgauge
  have hwants := Table.shouldCollect_of_enabled (henabled.trans h.enabled) hdue
  have hmade : store.table.count = store.table.nonGarbage + (madeSince notes + 1) := by
    have := h.count
    unfold table at this
    omega
  have hmargin : store.table.margin = margin := hmargin.trans h.limit
  rw [hmargin] at hwants
  refine ⟨henabled.trans h.enabled, hmargin, hmade, hrequested.trans h.requested, fun hover => ?_, ?_⟩
  · refine .inr (.inl ?_)
    dsimp only
    rw [if_pos (hwants.2 hover)]
    exact List.cons_ne_nil _ _
  · intro hquiet howes
    have hquiet : Undisturbed notes := fun owing hmem => hquiet owing (.tail _ hmem)
    dsimp only [madeSince] at howes ⊢
    split at howes
    · rename_i hover
      have := hwants.1 hover
      omega
    · exact Nat.lt_succ_of_lt (h.early hquiet howes)

theorem step (h : Kept margin notes p) (hstep : Step p new p') : Kept margin (new ++ notes) p' := by
  have hsteady := Table.Steady.refl p.table
  cases hstep with
  | make hi hnew => exact h.made hi hnew
  | heed _ => exact h.asked _ _ rfl List.erase_subset
  | request => exact h.asked _ _ rfl (List.Subset.refl _)
  | lockAtoms => exact h.settled rfl rfl
  | postpone _ => exact h.settled rfl rfl
  | sweep _ hsweep =>
    obtain ⟨swept, htable, -⟩ := Store.sweep_table hsweep
    exact h.settled (Table.sweep_gauge htable) rfl
  | clear _ =>
    exact ⟨h.enabled, h.limit, h.count, rfl, fun _ => .inr (.inr (.inl rfl)), fun hquiet =>
      h.early fun owing hmem => hquiet owing (.tail _ hmem)⟩
  | begin _ => exact h.turn ⟨rfl, rfl⟩ rfl fun _ => .inr (.inl rfl)
  | look _ hundue =>
    -- The look gives the pressure up only where there is none.
    refine h.turn hsteady rfl fun _ => .inr (.inr fun hdue => ?_)
    have := Table.shouldCollect_of_enabled h.enabled hundue
    rw [h.limit] at this
    exact absurd (this.2 hdue) Bool.false_ne_true
  | hold hturn _ | release hturn | lock hturn _ _ | decline hturn | rest hturn =>
    refine h.turn hsteady rfl fun hcycle => ?_
    rw [hturn] at hcycle
    rcases hcycle with hcycle | hcycle <;> cases hcycle
  | other htable _ => exact h.turn htable rfl fun hcycle => hcycle.imp_right .inl

end Kept

theorem Run.kept (hagc : config.agcEnabled = true) (h : Run (empty heap config) notes p) :
    Kept config.agcMargin.toNat notes p := by
  induction h with
  | start => exact ⟨hagc, rfl, rfl, rfl, fun hdue => absurd hdue (Nat.not_lt_zero _), fun _ howes => absurd rfl howes⟩
  | step _ hstep ih => exact ih.step hstep

/-- An atom was made when there were one too many. -/
def MadeOver (p₀ : Pressure) (margin : Nat) (a : Atom) (notes : List Note) : Prop :=
  ∃ since before q, notes = since ++ .made a :: before ∧ Run p₀ (.made a :: before) q ∧
    q.table.nonGarbage + q.table.margin < q.table.count ∧ margin < madeSince (.made a :: before)

theorem MadeOver.append {margin : Nat} (h : MadeOver p₀ margin a notes) (new : List Note) :
    MadeOver p₀ margin a (new ++ notes) := by
  obtain ⟨since, before, q, rfl, h⟩ := h
  exact ⟨new ++ since, before, q, (List.append_assoc _ _ _).symm, h⟩

/-- Whoever owes a request made an atom that was one too many. -/
theorem Run.owing (hagc : config.agcEnabled = true) (h : Run (empty heap config) notes p) (ha : a ∈ p.owing) :
    MadeOver (empty heap config) config.agcMargin.toNat a notes := by
  induction h with
  | start => cases ha
  | @step p p' notes new hrun hstep ih =>
    cases hstep with
    | make hi hnew =>
      have hmade := hrun.step (.make hi hnew)
      dsimp only at ha
      split at ha
      · rename_i hover
        rcases List.mem_cons.1 ha with rfl | ha
        · have hkept := hmade.kept hagc
          have hdue := (Table.shouldCollect_of_enabled hkept.enabled (made_gauge hi hnew).2.2).1 hover
          exact ⟨[], notes, _, rfl, hmade, hdue, hkept.lt_madeSince hdue⟩
        · exact (ih ha).append _
      · exact (ih ha).append _
    | heed _ => exact (ih (List.mem_of_mem_erase ha)).append _
    | _ => exact (ih ha).append _

end Pressure

end AtomHeap
