import AtomHeap.Proofs.Cycle.Asides
import Mathlib
/-!
# Calls for cycles

A call for a cycle either comes to nothing at once, or begins a cycle that sweeps or is given up (`Amid`). What
else happens while it reads roots and waits for reports is up to others, and may be calls as well: a call is noted
with the stretches in which others were at work, of which there are none where it has nobody's roots to read. A
call that did not collect left everything as it is outside of them, and neither destroyed an atom nor asked a
release hook at all (`calls_atomic`); after any call from outside of a cycle the system is at rest.
-/

namespace AtomHeap

namespace System

variable {s s' : System} {thread : ThreadId} {initiator : Option MutatorId} {onlyIfNeeded : Bool}

/-- A call that is put off is counted, and a cycle requested. -/
theorem defer_eq (h : s.store.table.agcEnabled = true) :
    s.defer = (s.onCollector Collector.countDeferred).onTable ({ · with requested := true }) := by
  have hrequest : s.store.table.requestCollection.2 = { s.store.table with requested := true } := by
    unfold Table.requestCollection
    rw [if_pos h]
  exact congrArg (fun table => (s.onCollector Collector.countDeferred).onTable fun _ => table) hrequest

theorem unlock_lock {f : Table → Table} (h : s.collector.locked = false) :
    ((s.onCollector Collector.lock).onTable f).onCollector Collector.unlock = s.onTable f := by
  have hcollector : (s.collector.lock).unlock = s.collector :=
    congrArg (fun locked => { s.collector with locked }) h.symm
  exact congrArg (fun collector => (s.onTable f).onCollector fun _ => collector) hcollector

/-- No atom is touched before roots are marked. -/
theorem tryBegin_intact {refusal : Option Outcome}
    (h : s.tryBegin thread initiator onlyIfNeeded = .ok (refusal, s')) : s.Intact s' := by
  have hcleared := ((Intact.refl s).onCollector Collector.lock fun _ => rfl).onTable
    ({ · with requested := false }) fun _ => ⟨rfl, rfl⟩
  cases tryBegin_cases h with
  | off _ => exact .refl s
  | refused _ _ =>
    exact ((Intact.refl s).onCollector Collector.countDeferred fun _ => rfl).onTable _ Table.requestCollection_intact
  | undue _ _ _ => exact hcleared.onCollector Collector.unlock fun _ => rfl
  | begun _ _ =>
    have hmarking := (hcleared.onCollector (·.enter .marking) fun _ => rfl).onTable Table.beginMarking
      fun _ => ⟨rfl, rfl⟩
    exact ((hmarking.onCollector Collector.nextEpoch fun _ => rfl).onCollector Collector.publish
      fun _ => rfl).onCollector Collector.snapshot fun _ => rfl

end System

namespace World

/-- Who calls for a cycle, and under which conditions. -/
structure Caller where
  thread : ThreadId
  /-- The mutator on behalf of which the thread calls. -/
  initiator : Option MutatorId := none
  onlyIfRequested : Bool := false
  onlyIfNeeded : Bool

variable {spans : Span → Prop} {w w' w₀ w₁ : World} {s s' : System} {heap : Heap} {config : Config}
  {thread : ThreadId} {initiator : Option MutatorId} {id : MutatorId} {onlyIfNeeded : Bool} {outcome : Outcome}
  {c : Caller} {between : List (World × World)} {readRoots : MutatorId → StateT System (Except Fault) (List Atom)}

/-! ## Calls -/

/-- The world with a cycle that waits for roots. -/
def asking (w : World) (system : System) (initiator : Option MutatorId) : World :=
  { w with system, stage := .asked [], initiator }

/-- A call for a cycle, with what others do in the middle of it. -/
inductive Amid (spans : Span → Prop) (w : World) (c : Caller) : List (World × World) → Outcome → World → Prop
  /-- No cycle begins. -/
  | refused {outcome : Outcome} {s : System} :
      w.system.tryBegin c.thread c.initiator c.onlyIfNeeded = .ok (some outcome, s) →
      Amid spans w c [] outcome { w with system := s }
  /-- Everybody reported. -/
  | swept {s s' : System} {between : List (World × World)} {w₁ : World} {n : Nat} :
      w.system.tryBegin c.thread c.initiator c.onlyIfNeeded = .ok (none, s) →
      Course spans (w.asking s c.initiator) between w₁ →
      w₁.stage = .awaiting → w₁.pending = [] → w₁.system.sweep = .ok (n, s') →
      Amid spans w c between (.collected n) { w₁ with system := s'.rest, stage := .idle, initiator := w.initiator }
  /-- Somebody did not report in time. -/
  | givenUp {s : System} {between : List (World × World)} {w₁ : World} :
      w.system.tryBegin c.thread c.initiator c.onlyIfNeeded = .ok (none, s) →
      Course spans (w.asking s c.initiator) between w₁ →
      w₁.stage = .awaiting → w₁.pending ≠ [] →
      Amid spans w c between .deferred
        { w₁ with system := w₁.system.giveUp.rest, stage := .idle, initiator := w.initiator }

/-- While a cycle waits for roots, reading those of a mutator is no more than asides. -/
def ReadsAside (spans : Span → Prop) (readRoots : MutatorId → StateT System (Except Fault) (List Atom))
    (id : MutatorId) : Prop :=
  ∀ w atoms s, w.Latched → w.stage.isWaiting = true → readRoots id w.system = .ok (atoms, s) →
    Asides spans w { w with system := s }

/-- The stretch in which the roots of a mutator are read when it calls for a cycle, if one begins. -/
def rootsRead (readRoots : MutatorId → StateT System (Except Fault) (List Atom)) (m : Mutator) (onlyIfNeeded : Bool)
    (w : World) : List (World × World) :=
  match w.system.tryBegin m.thread (some m.id) onlyIfNeeded with
  | .ok (none, s) =>
    match readRoots m.id s with
    | .ok (_, s') => [(w.asking s (some m.id), w.asking s' (some m.id))]
    | .error _ => []
  | _ => []

/-- A call for a cycle: as a whole, with its roots if it is on behalf of a mutator, or with what others do in the
middle of it. -/
inductive Called (spans : Span → Prop) (w : World) : Caller → List (World × World) → Outcome → World → Prop
  | collect {thread : ThreadId} {onlyIfNeeded : Bool} {outcome : Outcome} {s : System} :
      w.system.collect thread onlyIfNeeded = .ok (outcome, s) →
      Called spans w { thread, onlyIfNeeded } [] outcome { w with system := s }
  | maybeCollect {thread : ThreadId} {outcome : Outcome} {s : System} :
      w.system.maybeCollect thread = .ok (outcome, s) →
      Called spans w { thread, onlyIfRequested := true, onlyIfNeeded := true } [] outcome { w with system := s }
  | collectFrom {readRoots : MutatorId → StateT System (Except Fault) (List Atom)} {id : MutatorId} {m : Mutator}
      {onlyIfNeeded : Bool} {outcome : Outcome} {s : System} :
      ReadsAside spans readRoots id → w.system.mutator id = .ok m →
      System.collectFrom readRoots id onlyIfNeeded w.system = .ok (outcome, s) →
      Called spans w { thread := m.thread, initiator := some id, onlyIfNeeded }
        (w.rootsRead readRoots m onlyIfNeeded) outcome { w with system := s }
  | amid {c : Caller} {between : List (World × World)} {outcome : Outcome} {w' : World} :
      (c.onlyIfRequested = true → w.system.isRequested = true) → Amid spans w c between outcome w' →
      Called spans w c between outcome w'

/-- A cycle that began is completed. -/
theorem amid_of_complete (hidle : w.stage = .idle)
    (htry : w.system.tryBegin c.thread c.initiator c.onlyIfNeeded = .ok (none, s)) {s₁ : System}
    (hcourse : Course spans (w.asking s c.initiator) between
      { w with system := s₁, stage := .awaiting, initiator := c.initiator })
    (h : s₁.complete none = .ok (outcome, s')) : Amid spans w c between outcome { w with system := s' } := by
  have hreceived :=
    awaitReports_receives (w := { w with system := s₁, stage := .awaiting, initiator := c.initiator }) rfl rfl
  have hwaited := hcourse.proceeds (Relation.ReflTransGen.mono (fun _ _ => Proceeds.receives) _ _ hreceived)
  obtain ⟨system, stage, who, visits⟩ := w
  subst hidle
  rcases System.conclude_cases h with ⟨hpending, n, s₂, hsweep, rfl, rfl⟩ | ⟨hpending, rfl, rfl⟩
  · have hswept := Amid.swept htry hwaited rfl hpending hsweep
    exact hswept
  · have hgivenUp := Amid.givenUp htry hwaited rfl hpending
    exact hgivenUp

/-- A cycle begins only while none is on its way, and then keeps others out. -/
theorem idle_of_tryBegin (hl : w.Latched)
    (h : w.system.tryBegin thread initiator onlyIfNeeded = .ok (none, s)) :
    w.stage = .idle ∧ s.collector.locked = true := by
  cases System.tryBegin_cases h with
  | begun hadmits _ => exact ⟨hl.1 hadmits.unlocked, rfl⟩

theorem collect_amid (hl : w.Latched) (onlyIfRequested : Bool)
    (h : w.system.collect thread onlyIfNeeded = .ok (outcome, s)) :
    Amid spans w { thread, onlyIfRequested, onlyIfNeeded } [] outcome { w with system := s } := by
  rcases System.collect_cases h with htry | ⟨s₁, htry, h⟩
  · exact .refused htry
  · have hcourse : Course spans (w.asking s₁ none) []
        { w with system := s₁, stage := .awaiting, initiator := none } :=
      Course.start.proceed (.marksNone rfl rfl)
    exact amid_of_complete (idle_of_tryBegin hl htry).1 htry hcourse h

theorem collectFrom_amid (hl : w.Latched) (hroots : ReadsAside spans readRoots id) {m : Mutator}
    (hm : w.system.mutator id = .ok m)
    (h : System.collectFrom readRoots id onlyIfNeeded w.system = .ok (outcome, s)) :
    Amid spans w { thread := m.thread, initiator := some id, onlyIfNeeded } (w.rootsRead readRoots m onlyIfNeeded)
      outcome { w with system := s } := by
  obtain ⟨m', hm', hcases⟩ := System.collectFrom_cases h
  cases hm.symm.trans hm'
  obtain rfl := System.id_of_mutator hm
  unfold rootsRead
  rcases hcases with htry | ⟨s₁, atoms, s₂, htry, hatoms, h⟩
  · rw [htry]
    exact .refused htry
  · rw [htry]
    dsimp only
    rw [hatoms]
    obtain ⟨hidle, hlocked⟩ := idle_of_tryBegin hl htry
    have hlatched : Latched (w.asking s₁ (some m.id)) := iff_of_false (by rw [asking, hlocked]; nofun) nofun
    have hasides := hroots (w.asking s₁ (some m.id)) atoms s₂ hlatched rfl hatoms
    have hread := asked_readsOwn (w := w.asking s₂ (some m.id)) atoms rfl rfl
    have hcourse := (Course.start.others rfl hasides).proceeds
      (Relation.ReflTransGen.mono (fun _ _ => Proceeds.reads) _ _ hread)
    exact amid_of_complete hidle htry (hcourse.proceed (.marks rfl rfl)) h

/-- Every call is one with what others do in the middle of it, or found that no cycle is requested. -/
theorem Called.cases (hl : w.Latched) (h : Called spans w c between outcome w') :
    (c.onlyIfRequested = true ∧ w.system.isRequested = false ∧ between = [] ∧ outcome = .notNeeded ∧ w' = w) ∨
      Amid spans w c between outcome w' := by
  cases h with
  | collect h => exact .inr (collect_amid hl false h)
  | maybeCollect h =>
    unfold System.maybeCollect at h
    split at h
    · exact .inr (collect_amid hl true h)
    · rename_i hrequested
      cases h
      exact .inl ⟨rfl, by simpa using hrequested, rfl, rfl, rfl⟩
  | collectFrom hroots hm h => exact .inr (collectFrom_amid hl hroots hm h)
  | amid _ h => exact .inr h

/-! ## Calls are made of steps -/

theorem defer_asides (spans : Span → Prop) (w : World) : Asides spans w { w with system := w.system.defer } := by
  have hcounted : Aside spans w { w with system := w.system.onCollector Collector.countDeferred } :=
    .quiet (.display w.system.monitor rfl) rfl rfl rfl
  exact .tail (.single hcounted) (.quiet (.call .requestCollection) rfl rfl rfl)

theorem refused_reached (hw : Reached spans w₀ w) (hl : w.Latched)
    (h : w.system.tryBegin thread initiator onlyIfNeeded = .ok (some outcome, s)) :
    ∃ initiator, Reached spans w₀ { w with system := s, initiator } := by
  cases System.tryBegin_cases h with
  | off _ => exact ⟨w.initiator, hw⟩
  | refused _ _ => exact ⟨w.initiator, hw.trans (defer_asides spans w).reached⟩
  | undue hadmits _ _ =>
    have hidle := hl.1 hadmits.unlocked
    have hlocked := hw.step (.lock initiator hidle hadmits.unlocked hadmits.enabled) rfl (by rw [hidle]; nofun)
    have hdeclined := (hlocked.step (.clearRequest rfl) rfl nofun).step (.decline rfl) rfl nofun
    rw [← hidle] at hdeclined
    exact ⟨initiator, hdeclined⟩

theorem begun_reached (hw : Reached spans w₀ w) (hl : w.Latched)
    (h : w.system.tryBegin thread initiator onlyIfNeeded = .ok (none, s)) :
    Reached spans w₀ { w with system := s, stage := .asked [], initiator } := by
  cases System.tryBegin_cases h with
  | begun hadmits _ =>
    have hidle := hl.1 hadmits.unlocked
    have hlocked := hw.step (.lock initiator hidle hadmits.unlocked hadmits.enabled) rfl (by rw [hidle]; nofun)
    have hbegun := (hlocked.step (.clearRequest rfl) rfl nofun).act (.begin rfl)
    exact ((hbegun.step (.number rfl) rfl nofun).step (.publish rfl) rfl nofun).step (.snapshot rfl) rfl nofun

theorem swept_reached {n : Nat} (hw : Reached spans w₀ w) (hstage : w.stage = .awaiting) (hpending : w.pending = [])
    (h : w.system.sweep = .ok (n, s)) : Reached spans w₀ { w with system := s.rest, stage := .idle } := by
  obtain ⟨swept, store, htable, hstore, rfl⟩ := System.sweep_inv h
  have hfinished := hw.step (.finish hstage hpending) rfl (by rw [hstage]; nofun)
  have hswept := (hfinished.act (.sweeping rfl)).step (.sweep rfl htable hstore) rfl nofun
  exact (hswept.display (·.countCollected n) (fun _ => rfl) fun _ => rfl).act (.rest rfl)

theorem givenUp_reached (hw : Reached spans w₀ w) (hstage : w.stage = .awaiting) (hpending : w.pending ≠ []) :
    Reached spans w₀ { w with system := w.system.giveUp.rest, stage := .idle } := by
  have htimedOut := hw.step (.timeOut hstage hpending) rfl (by rw [hstage]; nofun)
  have haborted := htimedOut.step (.abort rfl) rfl nofun
  have hcounted := haborted.display Collector.countDeferred (fun _ => rfl) fun _ => rfl
  exact (hcounted.step (.postpone rfl) rfl nofun).act (.rest rfl)

/-- A call leads from a world that is reached to another. -/
theorem Amid.reached (hw : Reached spans w₀ w) (hl : w.Latched) (h : Amid spans w c between outcome w') :
    ∃ initiator, Reached spans w₀ { w' with initiator } := by
  cases h with
  | refused htry =>
    obtain ⟨who, hrefused⟩ := refused_reached hw hl htry
    exact ⟨who, hrefused⟩
  | swept htry hcourse hstage hpending hsweep =>
    have hwaited := (begun_reached hw hl htry).trans hcourse.reached
    have hswept := swept_reached hwaited hstage hpending hsweep
    exact ⟨_, hswept⟩
  | givenUp htry hcourse hstage hpending =>
    have hwaited := (begun_reached hw hl htry).trans hcourse.reached
    have hgivenUp := givenUp_reached hwaited hstage hpending
    exact ⟨_, hgivenUp⟩

/-- While a cycle waits for roots, a call is put off or needs nothing. -/
theorem Called.asides (hl : w.Latched) (hstage : w.stage.isWaiting = true)
    (h : Called spans w c between outcome w') : Asides spans w w' := by
  have hbusy : w.stage ≠ .idle := by
    intro hidle
    rw [hidle] at hstage
    cases hstage
  rcases h.cases hl with ⟨-, -, -, -, rfl⟩ | h
  · exact .refl
  · cases h with
    | swept htry | givenUp htry => exact absurd (idle_of_tryBegin hl htry).1 hbusy
    | refused htry =>
      cases System.tryBegin_cases htry with
      | off _ => exact .refl
      | refused _ _ => exact defer_asides spans w
      | undue hadmits _ _ => exact absurd (hl.1 hadmits.unlocked) hbusy

/-- So calls may be made while roots are read. -/
theorem readsAside_collect (thread : ThreadId) (atoms : List Atom) :
    ReadsAside spans (fun _ => do
      let _ ← onSystem (·.collect thread false)
      return atoms) id := by
  intro w atoms' s hl hstage h
  obtain ⟨outcome, s₁, hcollect, h⟩ := state_bind_eq_ok_iff.1 h
  cases h
  exact (Called.collect hcollect).asides hl hstage

/-! ## What a call comes to -/

/-- A cycle was given up. -/
structure GivenUp (s s' : System) : Prop where
  intact : s.Intact s'
  unmarked : ∀ i e, s'.store.table.entryAt? i = some e → e.marked = false
  nonGarbage : s'.store.table.nonGarbage = s'.store.table.count
  deferred : s'.collector.deferred = s.collector.deferred + 1

theorem giveUp_rest (s : System) : GivenUp s s.giveUp.rest where
  intact := by
    have hretracted := (System.Intact.refl s).onCollector Collector.retract fun _ => rfl
    have haborted := hretracted.onTable _ Table.abortMarking_intact
    have hpostponed := (haborted.onCollector Collector.countDeferred fun _ => rfl).onTable Table.postpone
      fun _ => ⟨rfl, rfl⟩
    exact (hpostponed.onCollector (·.enter .idle) fun _ => rfl).onCollector Collector.unlock fun _ => rfl
  unmarked _ _ he := Table.abortMarking_unmarked _ he
  nonGarbage := rfl
  deferred := rfl

/-- A call did no harm: apart from marks and from when to collect, everything is what others made it in the stretches
in which they were at work, and of those too none destroyed an atom or asked a release hook. -/
structure Harmless (spans : Span → Prop) (w : World) (between : List (World × World)) (w' : World) : Prop where
  apart : Apart w between w'
  asides : ∀ p ∈ between, Asides spans p.1 p.2
  spares : w.table.Spares w'.table

theorem Harmless.of_untouched (h : Untouched w w') : Harmless spans w [] w' :=
  ⟨h, fun _ hp => absurd hp List.not_mem_nil, .of_intact h.system.table⟩

/-- What a call came to. -/
inductive Ended (w : World) (c : Caller) : List (World × World) → Outcome → World → Prop
  | unasked : c.onlyIfRequested = true → w.system.isRequested = false → Ended w c [] .notNeeded w
  /-- Collection is switched off. -/
  | off : w.table.agcEnabled = false → Ended w c [] .notNeeded w
  /-- The call is counted, a cycle is requested, and nothing else is different. -/
  | refused : w.table.agcEnabled = true → w.system.Refuses c.thread c.initiator →
      Ended w c [] .deferred
        { w with system := (w.system.onCollector Collector.countDeferred).onTable ({ · with requested := true }) }
  /-- There was nothing worth a cycle. The request is cleared, and nothing else is different. -/
  | undue : w.system.Admits c.thread c.initiator → c.onlyIfNeeded = true → w.table.shouldCollect = .ok false →
      Ended w c [] .notNeeded { w with system := w.system.onTable ({ · with requested := false }) }
  /-- Somebody did not report. -/
  | abandoned {between : List (World × World)} {w₁ w' : World} : w.system.Admits c.thread c.initiator →
      Apart w between w₁ → w₁.pending ≠ [] → GivenUp w₁.system w'.system → Ended w c between .deferred w'
  | collected {between : List (World × World)} {n : Nat} {w' : World} : w.system.Admits c.thread c.initiator →
      Ended w c between (.collected n) w'

/-- While a cycle waits no harm is done. -/
theorem harmless_of_tryBegin (hc : config.check = .ok ()) (hw : Reached spans (.empty heap config) w)
    (htry : w.system.tryBegin thread initiator onlyIfNeeded = .ok (none, s))
    (hcourse : Course spans (w.asking s initiator) between w') : Harmless spans w between w' := by
  have hbegun : Untouched w (w.asking s initiator) := ⟨System.tryBegin_intact htry, rfl⟩
  have hspares := hcourse.spares hc (begun_reached hw hw.latched htry)
  exact ⟨hcourse.apart.of_untouched hbegun, hcourse.asides, (Table.Spares.of_intact hbegun.system.table).trans hspares⟩

theorem Amid.ended (hc : config.check = .ok ()) (hw : Reached spans (.empty heap config) w)
    (h : Amid spans w c between outcome w') : Ended w c between outcome w' := by
  have hadmits {s : System} (htry : w.system.tryBegin c.thread c.initiator c.onlyIfNeeded = .ok (none, s)) :
      w.system.Admits c.thread c.initiator := by
    cases System.tryBegin_cases htry with
    | begun hadmits _ => exact hadmits
  cases h with
  | swept htry => exact .collected (hadmits htry)
  | givenUp htry hcourse _ hpending =>
    exact .abandoned (hadmits htry) (harmless_of_tryBegin hc hw htry hcourse).apart hpending (giveUp_rest _)
  | refused htry =>
    cases System.tryBegin_cases htry with
    | off hagc => exact .off hagc
    | refused hagc hrefuses =>
      rw [System.defer_eq hagc]
      exact .refused hagc hrefuses
    | undue hadmits honly hdue =>
      rw [System.unlock_lock hadmits.unlocked]
      exact .undue hadmits honly hdue

theorem Amid.harmless (hc : config.check = .ok ()) (hw : Reached spans (.empty heap config) w)
    (h : Amid spans w c between outcome w') (houtcome : ∀ n, outcome ≠ .collected n) :
    Harmless spans w between w' := by
  cases h with
  | refused htry => exact .of_untouched ⟨System.tryBegin_intact htry, rfl⟩
  | swept => exact absurd rfl (houtcome _)
  | @givenUp _ _ w₁ htry hcourse _ _ =>
    have hwaited := harmless_of_tryBegin hc hw htry hcourse
    have hgiven := (giveUp_rest w₁.system).intact
    exact ⟨hwaited.apart.untouched ⟨hgiven, rfl⟩, hwaited.asides, hwaited.spares.trans (.of_intact hgiven.table)⟩

theorem Amid.stage (hl : w.Latched) (h : Amid spans w c between outcome w') : w'.stage = w.stage := by
  cases h with
  | refused _ => rfl
  | swept htry | givenUp htry => exact (idle_of_tryBegin hl htry).1.symm

theorem Amid.resting (hc : config.check = .ok ()) (hw : Reached spans (.empty heap config) w)
    (h : Amid spans w c between outcome w') (hstage : w.stage = .idle ∨ w.stage = .held) :
    w'.system.Resting := by
  obtain ⟨who, hreached⟩ := h.reached hw hw.latched
  have hstage' : w'.stage = .idle ∨ w'.stage = .held := by rwa [h.stage hw.latched]
  have hresting := Reached.resting hc hreached hstage'
  exact hresting

/-- What a call for a cycle comes to, whoever calls and whatever others do in the middle of it. One that did not
collect did no harm: without roots to read all but marks is as it was, and with them it is so before and after the
stretch in which they are read. If it was no call from inside of a cycle the system is at rest after it. -/
theorem calls_atomic (hc : config.check = .ok ()) (hw : Reached spans (.empty heap config) w)
    (h : Called spans w c between outcome w') :
    Ended w c between outcome w' ∧
      ((∀ n, outcome ≠ .collected n) → Harmless spans w between w') ∧
      (w.stage = .idle ∨ w.stage = .held → w'.stage = w.stage ∧ w'.system.Resting) := by
  rcases h.cases hw.latched with ⟨honly, hrequested, rfl, rfl, rfl⟩ | h
  · exact ⟨.unasked honly hrequested, fun _ => .of_untouched (.refl _), fun hstage => ⟨rfl, hw.resting hc hstage⟩⟩
  · exact ⟨h.ended hc hw, h.harmless hc hw, fun hstage => ⟨h.stage hw.latched, h.resting hc hw hstage⟩⟩

/-- Two mutators are attached when the first runs a cycle, and calls for another one while its roots are read.
The second does not report. Both calls are counted, and the mark of the only root is gone. -/
theorem calls_atomic_nested :
    ∃ w between w' e, Reached (fun _ => True) (.empty (.empty ⟨32, 64, 2⟩ fun _ _ => true) { atomBuckets := 1 }) w ∧
      w.stage = .idle ∧ Called (fun _ => True) w ⟨0, some 1, false, false⟩ between .deferred w' ∧
      between.length = 1 ∧ Harmless (fun _ => True) w between w' ∧ w'.system.Resting ∧
      w'.system.collector.deferred = 2 ∧ w'.system.standing = .requested ∧ w'.table.entry ⟨0, 0⟩ = .ok e ∧
      e.refs = 0 ∧ e.marked = false := by
  have none : Reached (fun _ => True) (.empty (.empty ⟨32, 64, 2⟩ fun _ _ => true) { atomBuckets := 1 })
    (.empty (.empty ⟨32, 64, 2⟩ fun _ _ => true) { atomBuckets := 1 }) := .refl
  have attached := (none.step (.attach 0) rfl (by rintro ⟨⟩)).step (.attach 1) rfl (by rintro ⟨⟩)
  have made := attached.intern { bytes := [97] } trivial BlobId.text (by cbv)
  have dropped := made.step (.call (.unregister ⟨0, 0⟩)) rfl (by rintro ⟨⟩)
  obtain ⟨w, between, w', e, hw, hstage, hcalled, hlength, hafter⟩ :
      ∃ w between w' e,
        Reached (fun _ => True) (.empty (.empty ⟨32, 64, 2⟩ fun _ _ => true) { atomBuckets := 1 }) w ∧
        w.stage = .idle ∧ Called (fun _ => True) w ⟨0, some 1, false, false⟩ between .deferred w' ∧
        between.length = 1 ∧ w'.system.collector.deferred = 2 ∧ w'.system.standing = .requested ∧
        w'.table.entry ⟨0, 0⟩ = .ok e ∧ e.refs = 0 ∧ e.marked = false :=
    ⟨_, _, _, _, dropped, rfl,
      @Called.collectFrom _ _ _ 1 ⟨1, 0, 1, {}, 0⟩ false _ _ (readsAside_collect 0 [⟨0, 0⟩]) rfl (by cbv),
      rfl, rfl, rfl, rfl, rfl, rfl⟩
  obtain ⟨-, hharmless, hresting⟩ := calls_atomic rfl hw hcalled
  exact ⟨w, between, w', e, hw, hstage, hcalled, hlength, hharmless (by simp), (hresting (.inl hstage)).2, hafter⟩

end World

end AtomHeap
