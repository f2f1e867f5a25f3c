import AtomHeap.Proofs.Cycle.Between
import AtomHeap.Proofs.Cycle.Pressure
import AtomHeap.Proofs.Table.Gone
import AtomHeap.System.Metrics
/-!
# What calls for cycles come to

The collector counts what calls for cycles come to: a cycle counts what it destroyed after its sweep, and a call
that is put off or given up counts itself, each some time before the call returns. A `Tally` is a world with what
is counted and not yet told, or destroyed and not yet counted; a `Tally.Step` is a step of the world or one of a
call, with what happened and what calls were told. On every run the figures are those after all that calls were
told or are about to be told, and the live atoms are those made less those destroyed (`Tally.Run.kept`).
-/

namespace AtomHeap

/-! ## Atoms made and destroyed -/

/-- Whether interning made an atom. -/
def Store.Event.makes : Store.Event → Bool
  | .made _ => true
  | _ => false

/-- Callers make the atoms that are noted, and destroy none. -/
theorem Store.Call.count {spans : Span → Prop} {s s' : Store} {events : List Store.Event}
    (h : Store.Call spans s events s') : s'.table.count = s.table.count + events.countP Store.Event.makes := by
  cases h with
  | intern _ h =>
    have hmade := h
    cases Store.internLocked_interning h with
    | found _ _ hreuse => exact (Table.reuse_steady hreuse).count
    | made => exact (Pressure.made_gauge hmade rfl).2.1
  | internRefused _ h =>
    cases Store.internLocked_interning h with
    | unknown => rfl
    | refused hpayload => exact congrArg (·.count) (Store.payloadFor_table hpayload)
  | @lookup _ _ _ found _ h =>
    have hnone : (found.toList.map Store.Event.found).countP Store.Event.makes = 0 := by
      cases found <;> rfl
    rw [hnone]
    exact (Table.lookup_steady (Store.lookup_table h)).count
  | register a => exact (Table.register_steady _ a).count
  | unregister a =>
    have hnone (answer : Except AtomError Unit) (refs : Except AtomError Nat) :
        (Store.dropEvents a answer refs).countP Store.Event.makes = 0 := by
      unfold Store.dropEvents
      split <;> rfl
    rw [hnone]
    exact (Table.unregister_steady _ a).count
  | registerBlob h => exact (Table.registerBlob_steady h).count
  | unregisterBlob h => exact (Table.unregisterBlob_steady h).count
  | setFallback | lockAtoms | other => rfl
  | requestCollection => exact (Table.requestCollection_amended _).count

/-- A slot is new only for an atom that callers make. -/
theorem Store.Call.slots_le {spans : Span → Prop} {s s' : Store} {events : List Store.Event} {buckets : Nat}
    (hs : s.table.Sound buckets 0) (h : Store.Call spans s events s') :
    s'.table.slots.size ≤ s.table.slots.size + events.countP Store.Event.makes := by
  have hsame {n : Nat} (heq : s'.table.slots.size = s.table.slots.size) :
      s'.table.slots.size ≤ s.table.slots.size + n := Nat.le_add_right_of_le (Nat.le_of_eq heq)
  cases h with
  | intern _ h =>
    cases Store.internLocked_outcome hs h with
    | found _ _ _ hreuse => exact hsame (Table.reuse_amended hreuse).size
    | made hwanted hinsert =>
      obtain ⟨index, g, -, hinserted, -⟩ := hs.made hwanted hinsert
      have hsize : s'.table.slots.size = max s.table.slots.size (index + 1) := hinserted.size
      have hle : index ≤ s.table.slots.size := hinserted.le
      change s'.table.slots.size ≤ s.table.slots.size + 1
      omega
  | internRefused _ h =>
    cases Store.internLocked_outcome hs h with
    | refused _ htable => exact hsame (congrArg (·.slots.size) htable)
  | lookup _ h => exact hsame (Table.lookup_amended (Store.lookup_table h)).size
  | register a => exact hsame (Table.register_amended _ a).size
  | unregister a => exact hsame (Table.unregister_amended _ a).size
  | registerBlob h => exact hsame (Table.registerBlob_amended h).size
  | unregisterBlob h =>
    obtain ⟨blobs, -, rfl⟩ := Table.unregisterBlob_eq h
    exact hsame Array.size_map
  | setFallback | lockAtoms | other => exact hsame rfl
  | requestCollection => exact hsame (Table.requestCollection_amended _).size

namespace World

variable {spans : Span → Prop} {w w' : World} {events trace : List Event} {buckets epoch : Nat} {atoms : List Atom}

/-- Whether interning made an atom. -/
def Event.makes : Event → Bool
  | .store event => event.makes
  | _ => false

/-- The atoms that a sweep destroyed. -/
def Event.destroyed : Event → List Atom
  | .swept _ atoms => atoms
  | _ => []

/-- How many atoms interning made. -/
def madeIn (events : List Event) : Nat := events.countP Event.makes

/-- The atoms that sweeps destroyed. -/
def destroyedIn (events : List Event) : List Atom := events.flatMap Event.destroyed

@[simp] theorem madeIn_append (events trace : List Event) : madeIn (events ++ trace) = madeIn events + madeIn trace :=
  List.countP_append

@[simp] theorem destroyedIn_append (events trace : List Event) :
    destroyedIn (events ++ trace) = destroyedIn events ++ destroyedIn trace := List.flatMap_append

@[simp] theorem madeIn_store (events : List Store.Event) :
    madeIn (events.map .store) = events.countP Store.Event.makes := List.countP_map

/-- No sweep is among the events. -/
def Spares (events : List Event) : Prop := ∀ epoch atoms, .swept epoch atoms ∉ events

theorem Spares.destroyedIn (h : Spares events) : destroyedIn events = [] := by
  refine List.flatMap_eq_nil_iff.2 fun event hevent => ?_
  cases event with
  | swept epoch atoms => exact absurd hevent (h epoch atoms)
  | _ => rfl

theorem spares_store (events : List Store.Event) : Spares (events.map .store) := by
  intro epoch atoms hmem
  obtain ⟨_, -, heq⟩ := List.mem_map.1 hmem
  cases heq

/-- A sweep is all that happens in its step. -/
theorem Step.swept_table (h : Step spans w events w') (hmem : .swept epoch atoms ∈ events) :
    events = [.swept epoch atoms] ∧
      ∃ swept, w.table.sweep = .ok (swept, w'.table) ∧ atoms = swept.destroyed.toList := by
  cases h with
  | call => exact absurd hmem (spares_store _ _ _)
  | receive =>
    split at hmem <;> cases List.mem_singleton.1 hmem
  | sweep _ htable hstore =>
    cases List.mem_singleton.1 hmem
    have htable' := Store.sweep_table_eq htable hstore
    subst htable'
    exact ⟨rfl, _, htable, rfl⟩
  | begin | snapshot | markOwn => cases List.mem_singleton.1 hmem
  | _ => cases hmem

/-- Without a sweep no atom is destroyed. -/
theorem Step.aged (hs : w.table.Sound buckets 0) (h : Step spans w events w') (hspares : Spares events) :
    Table.Aged (fun _ => 0) w.table w'.table := by
  cases h with
  | call hcall =>
    have haged := hcall.aged hs
    rwa [hcall.destructions] at haged
  | close hclose => exact .of_eq (congrArg (·.slots) (closeMutator_eq hclose).1)
  | markOwn _ _ => exact (Table.applyMarks_amended _ _).aged
  | @receive r collector _ _ _ =>
    by_cases hcurrent : r.epoch = collector.epoch
    · rw [receive_of_eq hcurrent]
      exact (Table.applyMarks_amended _ _).aged
    · rw [receive_of_ne hcurrent]
      exact .of_eq rfl
  | abort _ => exact (Table.abortMarking_amended _).aged
  | sweep => exact absurd List.mem_cons_self (hspares _ _)
  | _ => exact .of_eq rfl

/-- The atoms that are gone after a step are those that it destroyed. -/
theorem Step.destroys (hs : w.table.Sound buckets 0) (h : Step spans w events w') :
    w.table.gone w'.table = destroyedIn events := by
  by_cases hspares : Spares events
  · rw [hspares.destroyedIn]
    exact (h.aged hs hspares).gone
  · obtain ⟨epoch, atoms, hmem⟩ : ∃ epoch atoms, .swept epoch atoms ∈ events := by
      simpa [Spares] using hspares
    obtain ⟨rfl, swept, htable, rfl⟩ := h.swept_table hmem
    obtain ⟨swept', t', hsweep, hbelow⟩ := hs.sweep_below
    rw [htable, Except.ok.injEq, Prod.mk.injEq] at hsweep
    obtain ⟨rfl, heq⟩ := hsweep
    rw [heq]
    exact hbelow.gone.symm.trans (List.append_nil _).symm

/-- The live atoms are as many more as were made, and as many fewer as were destroyed. -/
theorem Step.count (hs : w.table.Sound buckets 0) (h : Step spans w events w') :
    w'.table.count + (destroyedIn events).length = w.table.count + madeIn events := by
  cases h with
  | @call _ events hcall =>
    rw [(spares_store events).destroyedIn, madeIn_store]
    exact hcall.count
  | close hclose => exact congrArg (·.count) (closeMutator_eq hclose).1
  | markOwn _ _ => exact (Table.applyMarks_steady _ _).count
  | @receive r collector _ _ _ =>
    have hnone : destroyedIn [if r.epoch = w.epoch then .applied r else .ignored r] = [] ∧
        madeIn [if r.epoch = w.epoch then .applied r else .ignored r] = 0 := by
      split <;> exact ⟨rfl, rfl⟩
    rw [hnone.1, hnone.2]
    by_cases hcurrent : r.epoch = collector.epoch
    · rw [receive_of_eq hcurrent]
      exact (Table.applyMarks_steady _ _).count
    · rw [receive_of_ne hcurrent]
      rfl
  | @sweep swept _ _ _ _ htable hstore =>
    have hafter := Store.sweep_table_eq htable hstore
    subst hafter
    obtain ⟨swept', t', hsweep, hbelow⟩ := hs.sweep_below
    rw [htable, Except.ok.injEq, Prod.mk.injEq] at hsweep
    obtain ⟨rfl, heq⟩ := hsweep
    have hcount := hbelow.count
    rw [← Array.length_toList] at hcount
    have hdestroyed : destroyedIn [.swept w.epoch swept.destroyed.toList] = swept.destroyed.toList :=
      List.append_nil _
    rw [hdestroyed]
    unfold table
    rw [heq]
    exact hcount
  | _ => rfl

/-- There are at most as many slots more as atoms were made. -/
theorem Step.slots_le (hs : w.table.Sound buckets 0) (h : Step spans w events w') :
    w'.table.slots.size ≤ w.table.slots.size + madeIn events := by
  have hsame (heq : w'.table.slots.size = w.table.slots.size) :
      w'.table.slots.size ≤ w.table.slots.size + madeIn events := Nat.le_add_right_of_le (Nat.le_of_eq heq)
  cases h with
  | call hcall =>
    rw [madeIn_store]
    exact hcall.slots_le hs
  | close hclose => exact hsame (congrArg (·.slots.size) (closeMutator_eq hclose).1)
  | markOwn _ _ => exact hsame (Table.applyMarks_amended _ _).size
  | @receive r collector _ _ _ =>
    by_cases hcurrent : r.epoch = collector.epoch
    · rw [receive_of_eq hcurrent] at *
      exact hsame (Table.applyMarks_amended _ _).size
    · rw [receive_of_ne hcurrent] at *
      exact hsame rfl
  | abort _ => exact hsame (Table.abortMarking_amended _).size
  | sweep _ htable hstore =>
    have hafter := Store.sweep_table_eq htable hstore
    subst hafter
    obtain ⟨swept, t, hsweep, hbelow⟩ := hs.sweep_below
    rw [htable, Except.ok.injEq, Prod.mk.injEq] at hsweep
    obtain ⟨-, heq⟩ := hsweep
    refine hsame ?_
    unfold table
    rw [heq]
    exact hbelow.size
  | _ => exact hsame rfl

/-- No more slots are ever needed than atoms were made. -/
theorem Run.slots_le {heap : Heap} {config : Config} (hc : config.check = .ok ())
    (h : Run spans (.empty heap config) trace w) : w.table.slots.size ≤ madeIn trace := by
  induction h with
  | start => exact Nat.le_refl _
  | step hrun hstep ih =>
    have hle := hstep.slots_le (hrun.sound hc)
    rw [madeIn_append]
    omega

/-! ## How far a cycle is -/

/-- Nothing is left of a cycle but to count it and to let others in. -/
def Stage.isFinished : Stage → Bool
  | .aborted | .ended => true
  | _ => false

/-- A call keeps others out. -/
def Stage.isBusy : Stage → Bool
  | .idle | .held => false
  | _ => true

theorem Stage.isBusy_of_isFinished {stage : Stage} (h : stage.isFinished = true) : stage.isBusy = true := by
  cases stage with
  | aborted | ended => rfl
  | _ => cases h

/-- A cycle marks in a world if it did before, or if it began just now. -/
theorem Step.marks (h : Step spans w events w') (hmarking : w'.stage.isMarking = true) :
    events = [.began] ∨ .began ∉ events ∧ w.stage.isMarking = true := by
  cases h with
  | call => exact .inr ⟨by simp, hmarking⟩
  | begin _ => exact .inl rfl
  | receive _ _ _ =>
    refine .inr ⟨fun hmem => ?_, hmarking⟩
    split at hmem <;> cases List.mem_singleton.1 hmem
  | number hstage | publish hstage | readOwn _ hstage _ | markNone hstage _ | finish hstage _ =>
    exact .inr ⟨nofun, by rw [hstage]; rfl⟩
  | snapshot hstage | markOwn hstage _ => exact .inr ⟨by simp, by rw [hstage]; rfl⟩
  | hold | release | lock | decline | rest | timeOut | abort | postpone | sweep => cases hmarking
  | _ => exact .inr ⟨nofun, hmarking⟩

/-- A cycle that is over stays so until others are let in. -/
theorem Step.finished (h : Step spans w events w') (hfinished : w.stage.isFinished = true) :
    .began ∉ events ∧ (w'.stage.isFinished = true ∨ w'.stage = .idle) := by
  cases h with
  | call => exact ⟨by simp, .inl hfinished⟩
  | receive hstage _ _ | begin hstage | snapshot hstage | markOwn hstage _ | sweep hstage _ _ =>
    rw [hstage] at hfinished
    cases hfinished
  | hold hstage _ | release hstage | lock _ hstage _ _ | decline hstage | number hstage | publish hstage
  | readOwn _ hstage _ | markNone hstage _ | finish hstage _ | timeOut hstage _ | abort hstage =>
    rw [hstage] at hfinished
    cases hfinished
  | rest _ => exact ⟨nofun, .inr rfl⟩
  | postpone _ => exact ⟨nofun, .inl rfl⟩
  | _ => exact ⟨nofun, .inl hfinished⟩

end World

/-! ## Figures -/

/-- What a collector shows of the cycles that ran and of the calls that were put off. -/
structure Figures where
  collections : Nat := 0
  collectedTotal : Nat := 0
  collectedLast : Nat := 0
  deferred : Nat := 0
  deriving DecidableEq, Repr

def Collector.figures (c : Collector) : Figures :=
  ⟨c.collections, c.collectedTotal, c.collectedLast, c.deferred⟩

/-- How many atoms a cycle destroyed, if one ran to its end. -/
def Outcome.collected? : Outcome → Option Nat
  | .collected n => some n
  | .deferred | .notNeeded => none

/-- How many atoms cycles destroyed, each that ran to its end. -/
def results (outcomes : List Outcome) : List Nat := outcomes.filterMap Outcome.collected?

/-- The figures after calls came to these outcomes, the latest first. -/
def Figures.after (outcomes : List Outcome) : Figures where
  collections := (results outcomes).length
  collectedTotal := (results outcomes).sum
  collectedLast := (results outcomes).headD 0
  deferred := outcomes.count .deferred

@[simp] theorem results_append (outcomes before : List Outcome) :
    results (outcomes ++ before) = results outcomes ++ results before := List.filterMap_append

@[simp] theorem results_replicate (k : Nat) : results (List.replicate k .deferred) = [] :=
  List.filterMap_replicate_of_none rfl

namespace Figures

variable {outcomes outcomes' before : List Outcome}

theorem after_congr (hresults : results outcomes = results outcomes')
    (hdeferred : outcomes.count .deferred = outcomes'.count .deferred) : after outcomes = after outcomes' := by
  unfold after
  rw [hresults, hdeferred]

/-- One more call was put off. -/
def putOff (f : Figures) : Figures := { f with deferred := f.deferred + 1 }

/-- One more cycle ran to its end. -/
def collect (f : Figures) (n : Nat) : Figures :=
  { f with
    collections := f.collections + 1
    collectedTotal := f.collectedTotal + n
    collectedLast := n }

/-- A call that was put off counts, wherever it stands among others. -/
theorem after_deferred (outcomes before : List Outcome) :
    after (outcomes ++ .deferred :: before) = (after (outcomes ++ before)).putOff := by
  have hresults : results (.deferred :: before) = results before := rfl
  unfold after putOff
  simp only [results_append, hresults, List.count_append, List.count_cons_self, Nat.add_assoc]

theorem after_collected (n : Nat) (before : List Outcome) :
    after (.collected n :: before) = (after before).collect n := by
  have hresults : results (.collected n :: before) = n :: results before := rfl
  unfold after collect
  simp [hresults, Nat.add_comm]

/-- A call that needed nothing does not count. -/
theorem after_notNeeded (outcomes before : List Outcome) :
    after (outcomes ++ .notNeeded :: before) = after (outcomes ++ before) := by
  refine after_congr ?_ ?_
  · have hresults : results (.notNeeded :: before) = results before := rfl
    simp only [results_append, hresults]
  · simp

/-- It does not matter to the figures which of a call and some that were put off came back first. -/
theorem after_replicate (k : Nat) (outcome : Outcome) (before : List Outcome) :
    after (List.replicate k .deferred ++ outcome :: before) =
      after (outcome :: (List.replicate k .deferred ++ before)) := by
  refine after_congr ?_ (List.perm_middle.count_eq _)
  have hcons (outcomes : List Outcome) : results (outcome :: outcomes) = results [outcome] ++ results outcomes :=
    results_append [outcome] outcomes
  rw [hcons, results_append, results_append, results_replicate, hcons]
  rfl

end Figures

/-! ## Calls at work -/

/-- What has come of the cycle that keeps others out. -/
inductive Verdict
  | undecided
  /-- Its sweep destroyed this many atoms, and they are not counted yet. -/
  | swept (n : Nat)
  /-- It is counted, and this is what the call is told. -/
  | settled (outcome : Outcome)
  deriving DecidableEq, Repr

namespace Verdict

/-- What the call is told, once its cycle is counted. -/
def due : Verdict → List Outcome
  | .settled outcome => [outcome]
  | .undecided | .swept _ => []

/-- How many atoms are destroyed and not counted. -/
def uncounted : Verdict → Nat
  | .swept n => n
  | .undecided | .settled _ => 0

end Verdict

/-- A world with what came of calls for cycles that did not return yet. -/
structure Tally where
  world : World
  verdict : Verdict := .undecided
  /-- How many calls that were put off are counted and did not return. -/
  leaving : Nat := 0

namespace Tally

open World (Event madeIn destroyedIn sinceBegan Spares)

/-- A system on a heap, without atoms and mutators, at rest. -/
def empty (heap : Heap) (config : Config) : Tally := { world := .empty heap config }

def table (t : Tally) : Table := t.world.table

def figures (t : Tally) : Figures := t.world.system.collector.figures

def onCollector (t : Tally) (f : Collector → Collector) : Tally :=
  { t with world := { t.world with system := t.world.system.onCollector f } }

/-- A step that counts nothing, sweeps nothing and ends no cycle. -/
structure Neutral (w : World) (events : List Event) (w' : World) : Prop where
  step : World.Step (fun _ => True) w events w'
  figures : w'.system.collector.figures = w.system.collector.figures
  spares : Spares events
  busy : w.stage.isBusy = true → w'.stage.isBusy = true

/-- Steps, with what happened and what calls for cycles were told. -/
inductive Step (t : Tally) : List Event → List Outcome → Tally → Prop
  | other {events : List Event} {w : World} : Neutral t.world events w → Step t events [] { t with world := w }
  -- Calls that begin no cycle
  | putOff : Step t [] [] { t.onCollector .countDeferred with leaving := t.leaving + 1 }
  | comeBack {k : Nat} : t.leaving = k + 1 → Step t [] [.deferred] { t with leaving := k }
  | unneeded : Step t [] [.notNeeded] t
  | decline : t.world.stage = .locked →
      Step t [] [.notNeeded]
        { t with world := { t.world with system := t.world.system.onCollector .unlock, stage := .idle } }
  -- The ends of cycles
  | sweep {swept : Table.Swept} {table : Table} {n : Nat} {store : Store} : t.world.stage = .complete →
      t.table.sweep = .ok (swept, table) → t.world.system.store.sweep = .ok (n, store) →
      Step t [.swept t.world.epoch swept.destroyed.toList] []
        { t with
          world := { t.world with system := { t.world.system with store }, stage := .ended }
          verdict := .swept n }
  | count {n : Nat} : t.verdict = .swept n →
      Step t [] [] { t.onCollector (·.countCollected n) with verdict := .settled (.collected n) }
  | giveUp : t.world.stage = .aborted → t.verdict = .undecided →
      Step t [] [] { t.onCollector .countDeferred with verdict := .settled .deferred }
  | rest {outcome : Outcome} : t.world.stage = .ended → t.verdict = .settled outcome →
      Step t [] [outcome]
        { t with
          world := { t.world with system := t.world.system.onCollector .unlock, stage := .idle }
          verdict := .undecided }

/-- Sequences of steps, with what happened and what calls were told on the way, each with the latest first. -/
inductive Run (t₀ : Tally) : List Event → List Outcome → Tally → Prop
  | start : Run t₀ [] [] t₀
  | step {t t' : Tally} {trace events : List Event} {outcomes came : List Outcome} :
      Run t₀ trace outcomes t → Step t events came t' → Run t₀ (events ++ trace) (came ++ outcomes) t'

/-- No call for a cycle is on its way. -/
structure Resting (t : Tally) : Prop where
  stage : t.world.stage = .idle ∨ t.world.stage = .held
  leaving : t.leaving = 0

/-- What calls that are counted are going to be told. -/
def due (t : Tally) : List Outcome := t.verdict.due ++ List.replicate t.leaving .deferred

variable {t t' t₀ t₁ : Tally} {trace events trace' : List Event} {outcomes came told : List Outcome} {heap : Heap}
  {config : Config} {w w' : World}

/-! ## Runs of worlds -/

theorem Step.world (h : Step t events came t') :
    World.Step (fun _ => True) t.world events t'.world ∨ events = [] ∧ t'.world = t.world := by
  cases h with
  | other hneutral => exact .inl hneutral.step
  | putOff | count _ | giveUp _ _ => exact .inl (.display _ rfl)
  | comeBack _ | unneeded => exact .inr ⟨rfl, rfl⟩
  | decline hstage => exact .inl (.decline hstage)
  | sweep hstage htable hstore => exact .inl (.sweep hstage htable hstore)
  | rest hstage _ => exact .inl (.rest hstage)

theorem Run.world (h : Run t₀ trace outcomes t) : World.Run (fun _ => True) t₀.world trace t.world := by
  induction h with
  | start => exact .start
  | step _ hstep ih =>
    rcases hstep.world with hstep | ⟨rfl, heq⟩
    · exact ih.step hstep
    · rw [heq]
      exact ih

theorem Run.trans (h : Run t₀ trace outcomes t) (h' : Run t trace' told t') :
    Run t₀ (trace' ++ trace) (told ++ outcomes) t' := by
  induction h' with
  | start => exact h
  | step _ hstep ih =>
    rw [List.append_assoc, List.append_assoc]
    exact .step ih hstep

theorem Run.sound (hc : config.check = .ok ()) (h : Run (.empty heap config) trace outcomes t) :
    t.table.Sound config.atomBuckets.toNat 0 := World.Run.sound hc h.world

/-! ## What steps keep -/

theorem due_append (t : Tally) (outcomes : List Outcome) :
    t.due ++ outcomes = t.verdict.due ++ (List.replicate t.leaving .deferred ++ outcomes) := List.append_assoc _ _ _

/-- What the figures tell of the calls for cycles, and of the atoms that are left. -/
structure Kept (trace : List Event) (outcomes : List Outcome) (t : Tally) : Prop where
  figures : Tally.figures t = .after (t.due ++ outcomes)
  live : t.table.count + (Tally.figures t).collectedTotal + t.verdict.uncounted = madeIn trace
  finished : t.verdict ≠ .undecided → t.world.stage.isFinished = true
  /-- No cycle swept yet that marks. -/
  fresh : t.world.stage.isMarking = true → destroyedIn (sinceBegan trace) = []
  result : ∀ n, t.verdict = .swept n ∨ t.verdict = .settled (.collected n) →
    n = (destroyedIn (sinceBegan trace)).length

namespace Kept

theorem undecided (h : Kept trace outcomes t) (hfinished : t.world.stage.isFinished = false) : t.verdict = .undecided :=
  Classical.byContradiction fun hne => Bool.false_ne_true (hfinished.symm.trans (h.finished hne))

theorem other {buckets : Nat} (h : Kept trace outcomes t) (hs : t.table.Sound buckets 0)
    (hneutral : Neutral t.world events w) : Kept (events ++ trace) outcomes { t with world := w } where
  figures := hneutral.figures.trans h.figures
  live := by
    have hcount := hneutral.step.count hs
    have hlive := h.live
    have hfigures : Tally.figures { t with world := w } = t.figures := hneutral.figures
    rw [hneutral.spares.destroyedIn] at hcount
    rw [World.madeIn_append, hfigures]
    change w.table.count = t.table.count + madeIn events at hcount
    change w.table.count + t.figures.collectedTotal + t.verdict.uncounted = madeIn events + madeIn trace
    omega
  finished hne := by
    have hfinished := h.finished hne
    rcases (hneutral.step.finished hfinished).2 with hfinished' | hidle
    · exact hfinished'
    · have hbusy := hneutral.busy (World.Stage.isBusy_of_isFinished hfinished)
      rw [hidle] at hbusy
      cases hbusy
  fresh hmarking := by
    rcases hneutral.step.marks hmarking with rfl | ⟨hbegan, hmarking⟩
    · rfl
    · rw [World.sinceBegan_append hbegan, World.destroyedIn_append, hneutral.spares.destroyedIn]
      exact h.fresh hmarking
  result n hn := by
    have hfinished : t.world.stage.isFinished = true := h.finished fun heq => by simp [heq] at hn
    obtain ⟨hbegan, -⟩ := hneutral.step.finished hfinished
    rw [World.sinceBegan_append hbegan, World.destroyedIn_append, hneutral.spares.destroyedIn]
    exact h.result n hn

theorem putOff (h : Kept trace outcomes t) :
    Kept trace outcomes { t.onCollector .countDeferred with leaving := t.leaving + 1 } := by
  refine ⟨?_, h.live, h.finished, h.fresh, h.result⟩
  have hfigures := congrArg Figures.putOff h.figures
  rw [due_append, ← Figures.after_deferred] at hfigures
  rw [due_append]
  exact hfigures

theorem comeBack {k : Nat} (h : Kept trace outcomes t) (hleaving : t.leaving = k + 1) :
    Kept trace (.deferred :: outcomes) { t with leaving := k } := by
  refine ⟨?_, h.live, h.finished, h.fresh, h.result⟩
  have hfigures := h.figures
  rw [due_append, hleaving, List.replicate_succ, List.cons_append, Figures.after_deferred, ← List.append_assoc,
    ← Figures.after_deferred] at hfigures
  exact hfigures

theorem sweep {buckets : Nat} {swept : Table.Swept} {table : Table} {n : Nat} {store : Store}
    (h : Kept trace outcomes t) (hs : t.table.Sound buckets 0) (hstage : t.world.stage = .complete)
    (htable : t.table.sweep = .ok (swept, table)) (hstore : t.world.system.store.sweep = .ok (n, store)) :
    Kept ([.swept t.world.epoch swept.destroyed.toList] ++ trace) outcomes
      { t with
        world := { t.world with system := { t.world.system with store }, stage := .ended }
        verdict := .swept n } := by
  have hundecided := h.undecided (by rw [hstage]; rfl)
  have hfresh := h.fresh (by rw [hstage]; rfl)
  have hn : n = swept.destroyed.toList.length := by
    obtain ⟨swept', htable', rfl⟩ := Store.sweep_table hstore
    rw [show t.world.system.store.table.sweep = _ from htable, Except.ok.injEq, Prod.mk.injEq] at htable'
    rw [htable'.1, Array.length_toList]
  have hdestroyed : destroyedIn [.swept t.world.epoch swept.destroyed.toList] = swept.destroyed.toList :=
    List.append_nil _
  refine ⟨?_, ?_, fun _ => rfl, nofun, ?_⟩
  · have hfigures := h.figures
    rw [due_append, hundecided] at hfigures
    exact hfigures
  · have hlive := h.live
    have hstep : World.Step (fun _ => True) t.world _ _ := .sweep hstage htable hstore
    have hcount := hstep.count hs
    rw [hdestroyed, ← hn] at hcount
    rw [hundecided] at hlive
    change store.table.count + n = t.table.count + 0 at hcount
    change t.table.count + t.figures.collectedTotal + 0 = madeIn trace at hlive
    change store.table.count + t.figures.collectedTotal + n = madeIn trace
    omega
  · rintro n' (heq | heq)
    · cases heq
      rw [World.sinceBegan_append (by simp), World.destroyedIn_append, hdestroyed, hfresh, List.append_nil]
      exact hn
    · cases heq

theorem count {n : Nat} (h : Kept trace outcomes t) (hverdict : t.verdict = .swept n) :
    Kept trace outcomes { t.onCollector (·.countCollected n) with verdict := .settled (.collected n) } := by
  refine ⟨?_, ?_, fun _ => h.finished (by rw [hverdict]; nofun), h.fresh, ?_⟩
  · have hfigures := congrArg (Figures.collect · n) h.figures
    rw [due_append, hverdict] at hfigures
    exact hfigures.trans (Figures.after_collected n _).symm
  · have hlive := h.live
    rw [hverdict, Nat.add_assoc] at hlive
    exact hlive
  · rintro n' (heq | heq)
    · cases heq
    · cases heq
      exact h.result n (.inl hverdict)

theorem giveUp (h : Kept trace outcomes t) (hstage : t.world.stage = .aborted) (hverdict : t.verdict = .undecided) :
    Kept trace outcomes { t.onCollector .countDeferred with verdict := .settled .deferred } := by
  refine ⟨?_, ?_, fun _ => (congrArg World.Stage.isFinished hstage).trans rfl, h.fresh, by simp⟩
  · have hfigures := congrArg Figures.putOff h.figures
    rw [due_append, hverdict] at hfigures
    exact hfigures.trans (Figures.after_deferred [] _).symm
  · have hlive := h.live
    rw [hverdict] at hlive
    exact hlive

theorem rest {outcome : Outcome} (h : Kept trace outcomes t) (hverdict : t.verdict = .settled outcome) :
    Kept trace (outcome :: outcomes)
      { t with
        world := { t.world with system := t.world.system.onCollector .unlock, stage := .idle }
        verdict := .undecided } := by
  refine ⟨?_, ?_, fun hne => absurd rfl hne, nofun, by simp⟩
  · have hfigures := h.figures
    rw [due_append, hverdict] at hfigures
    exact hfigures.trans (Figures.after_replicate _ outcome _).symm
  · have hlive := h.live
    rw [hverdict] at hlive
    exact hlive

theorem step {buckets : Nat} (h : Kept trace outcomes t) (hs : t.table.Sound buckets 0)
    (hstep : Step t events came t') : Kept (events ++ trace) (came ++ outcomes) t' := by
  cases hstep with
  | other hneutral => exact h.other hs hneutral
  | putOff => exact h.putOff
  | comeBack hleaving => exact h.comeBack hleaving
  | unneeded =>
    exact ⟨h.figures.trans (Figures.after_notNeeded _ _).symm, h.live, h.finished, h.fresh, h.result⟩
  | decline hstage =>
    have hundecided := h.undecided (by rw [hstage]; rfl)
    exact ⟨h.figures.trans (Figures.after_notNeeded _ _).symm, h.live, fun hne => absurd hundecided hne, nofun,
      h.result⟩
  | sweep hstage htable hstore => exact h.sweep hs hstage htable hstore
  | count hverdict => exact h.count hverdict
  | giveUp hstage hverdict => exact h.giveUp hstage hverdict
  | rest _ hverdict => exact h.rest hverdict

end Kept

theorem Run.kept (hc : config.check = .ok ()) (h : Run (.empty heap config) trace outcomes t) :
    Kept trace outcomes t := by
  induction h with
  | start => exact ⟨rfl, rfl, fun hne => absurd rfl hne, nofun, by simp [empty]⟩
  | step hrun hstep ih => exact ih.step (hrun.sound hc) hstep

end Tally

end AtomHeap
