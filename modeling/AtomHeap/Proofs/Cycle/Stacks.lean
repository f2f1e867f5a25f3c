import AtomHeap.Proofs.Cycle.Epochs
/-!
# Runs with root stacks

A mutator whose roots are a stack reports what is on the stack at some moment while its roots are read. A
`StackRun` is a run in which that holds of every mutator; it has the copies of the stacks, which say what
was on them at those moments. Steps that neither send a report nor mark the roots of the mutator that runs
the cycle need no copies (`LeadsQuietly`).
-/

namespace AtomHeap.World

variable {spans : Span → Prop} {w w' w₀ : World} {copies : List Report} {trace events : List Event}
  {w'' : World} {r : Report} {id : MutatorId}

/-! ## Runs -/

/-- A report has all that some copy has which was made of its mutator's stack for its epoch. -/
def Copied (copies : List Report) (r : Report) : Prop :=
  ∃ c ∈ copies, c.mutator = r.mutator ∧ c.epoch = r.epoch ∧ c.atoms ⊆ r.atoms

/-- A mutator that was asked for its roots sends them. -/
def Sends (w : World) (r : Report) (w' : World) : Prop :=
  .reading r ∈ w.visits ∧ w' = { w with system := w.system.send r, visits := w.visits.erase (.reading r) }

/-- Runs in which the roots of each mutator are at least its stack, with the copies of stacks that were
made on the way, the latest first. The stack is copied at some moment of the visit in which the roots are
read, and a report has all of the copy. Root sets that do more than report a stack may add to it, and
may do other steps before and after the moment at which they read the stack. -/
inductive StackRun (spans : Span → Prop) (w₀ : World) : List Report → List Event → World → Prop
  | start : StackRun spans w₀ [] [] w₀
  | step {w w' : World} {copies : List Report} {trace events : List Event} :
      StackRun spans w₀ copies trace w → Step spans w events w' →
      (∀ r, Sends w r w' ∨ .initiated r ∈ events → Copied copies r) →
      StackRun spans w₀ copies (events ++ trace) w'
  | copy {w : World} {copies : List Report} {trace : List Event} {r : Report} {m : Mutator} :
      StackRun spans w₀ copies trace w → .reading r ∈ w.visits → w.system.mutator r.mutator = .ok m →
      StackRun spans w₀ (⟨r.mutator, r.epoch, m.roots.atoms⟩ :: copies) trace w
  | copyOwn {w : World} {copies : List Report} {trace : List Event} {id : MutatorId} {atoms : List Atom}
      {m : Mutator} :
      StackRun spans w₀ copies trace w → w.stage = .asked atoms → w.initiator = some id →
      w.system.mutator id = .ok m → StackRun spans w₀ (⟨id, w.epoch, m.roots.atoms⟩ :: copies) trace w

theorem StackRun.run (h : StackRun spans w₀ copies trace w) : Run spans w₀ trace w := by
  induction h with
  | start => exact .start
  | step _ hstep _ ih => exact ih.step hstep
  | copy _ _ _ ih | copyOwn _ _ _ _ ih => exact ih

theorem Copied.cons (h : Copied copies r) (c : Report) : Copied (c :: copies) r := by
  obtain ⟨c', hc', heq⟩ := h
  exact ⟨c', List.mem_cons_of_mem _ hc', heq⟩

theorem Sends.reports (h : Sends w r w') :
    w'.system.collector.reports = w.system.collector.reports ++ [r] := by
  obtain ⟨-, rfl⟩ := h
  rfl

namespace StackRun

/-- A step that sends nothing needs no copy. -/
theorem forth (h : StackRun spans w₀ copies trace w) (hstep : Step spans w events w')
    (hreports : w'.system.collector.reports.length ≤ w.system.collector.reports.length)
    (hinitiated : ∀ r, .initiated r ∉ events) : StackRun spans w₀ copies (events ++ trace) w' := by
  refine h.step hstep ?_
  rintro r (hsends | hevent)
  · rw [hsends.reports, List.length_append] at hreports
    exact absurd hreports (Nat.not_succ_le_self _)
  · exact absurd hevent (hinitiated r)

theorem call {store : Store} {touched : List Store.Event} (h : StackRun spans w₀ copies trace w)
    (hcall : Store.Call spans w.system.store touched store) :
    StackRun spans w₀ copies (touched.map .store ++ trace) { w with system := { w.system with store } } :=
  h.forth (.call hcall) (Nat.le_refl _) (by simp)

theorem intern {i : Interned} {store : Store} (h : StackRun spans w₀ copies trace w) (span : Span)
    (hspan : spans span) (blob : BlobId)
    (hi : w.system.store.internLocked span false blob = .ok (.ok i, store)) :
    StackRun spans w₀ copies (.store (if i.isNew then .made i.atom else .found i.atom) :: trace)
      { w with system := { w.system with store } } := h.call (.intern hspan hi)

theorem send (h : StackRun spans w₀ copies trace w) (hv : .reading r ∈ w.visits) (hr : Copied copies r) :
    StackRun spans w₀ copies trace
      { w with system := w.system.send r, visits := w.visits.erase (.reading r) } := by
  refine h.step (.send hv) ?_
  rintro r' (hsends | hevent)
  · have heq : w.system.collector.reports ++ [r] = w.system.collector.reports ++ [r'] := hsends.reports
    cases List.append_cancel_left heq
    exact hr
  · cases hevent

theorem markOwn {atoms : List Atom} (h : StackRun spans w₀ copies trace w) (hstage : w.stage = .asked atoms)
    (hinitiator : w.initiator = some id) (hr : Copied copies ⟨id, w.epoch, atoms⟩) :
    StackRun spans w₀ copies (.initiated ⟨id, w.epoch, atoms⟩ :: trace)
      { w with system := w.system.markInitiator id atoms, stage := .awaiting } := by
  refine h.step (.markOwn hstage hinitiator) ?_
  rintro r' (⟨-, hsends⟩ | hevent)
  · have heq : Stage.awaiting = w.stage := congrArg (·.stage) hsends
    rw [hstage] at heq
    cases heq
  · cases List.mem_singleton.1 hevent
    exact hr

theorem receive {collector : Collector} (h : StackRun spans w₀ copies trace w) (hstage : w.stage = .awaiting)
    (hpending : w.pending ≠ []) (htake : w.system.collector.takeReport? = some (r, collector)) :
    StackRun spans w₀ copies ([if r.epoch = w.epoch then .applied r else .ignored r] ++ trace)
      { w with system := { w.system with collector }.receive r } := by
  obtain ⟨-, pending, hreceived⟩ := receive_frame { w.system with collector } r
  refine h.forth (.receive hstage hpending htake) ?_ ?_
  · dsimp only
    rw [hreceived, (takeReport?_eq htake).1]
    exact Nat.le_succ _
  · intro r' hr'
    split at hr' <;> cases List.mem_singleton.1 hr'

/-- The last report of a mutator that leaves says nothing of its stack. -/
theorem sendLast {epoch : Nat} (h : StackRun spans w₀ copies trace w) (hv : .parting id epoch ∈ w.visits) :
    StackRun spans w₀ copies trace
      { w with system := w.system.send ⟨id, epoch, []⟩, visits := w.visits.erase (.parting id epoch) } := by
  refine h.step (.sendLast hv) ?_
  rintro r (⟨hr, hsends⟩ | hevent)
  · -- A reading would have ended, and the parting does.
    have herase : w.visits.erase (.parting id epoch) = w.visits.erase (.reading r) := congrArg (·.visits) hsends
    have hcount := congrArg (List.count (.parting id epoch)) herase
    have hne : Visit.parting id epoch ≠ .reading r := nofun
    rw [List.count_erase_self, List.count_erase_of_ne hne] at hcount
    have := List.count_pos_iff.2 hv
    omega
  · cases hevent

end StackRun

/-! ## Quiet steps -/

/-- Steps that need no copies lead from the one world to the other. -/
def LeadsQuietly (spans : Span → Prop) (w w' : World) : Prop :=
  ∃ trace', ∀ w₀ copies trace, StackRun spans w₀ copies trace w → StackRun spans w₀ copies (trace' ++ trace) w'

namespace LeadsQuietly

theorem refl (spans : Span → Prop) (w : World) : LeadsQuietly spans w w := ⟨[], fun _ _ _ h => h⟩

theorem trans (h : LeadsQuietly spans w w') (h' : LeadsQuietly spans w' w'') : LeadsQuietly spans w w'' := by
  obtain ⟨trace, h⟩ := h
  obtain ⟨trace', h'⟩ := h'
  refine ⟨trace' ++ trace, fun w₀ copies trace₀ h₀ => ?_⟩
  rw [List.append_assoc]
  exact h' _ _ _ (h _ _ _ h₀)

theorem forth (h : LeadsQuietly spans w w') (hstep : Step spans w' events w'')
    (hreports : w''.system.collector.reports.length ≤ w'.system.collector.reports.length)
    (hinitiated : ∀ r, .initiated r ∉ events) : LeadsQuietly spans w w'' :=
  h.trans ⟨events, fun _ _ _ h₀ => h₀.forth hstep hreports hinitiated⟩

/-- A step in which nothing happens that is noted. -/
theorem aside (h : LeadsQuietly spans w w') (hstep : Step spans w' [] w'')
    (hreports : w''.system.collector.reports = w'.system.collector.reports) : LeadsQuietly spans w w'' :=
  h.forth hstep (Nat.le_of_eq (congrArg List.length hreports)) nofun

theorem sendLast {epoch : Nat} (h : LeadsQuietly spans w w') (hv : .parting id epoch ∈ w'.visits) :
    LeadsQuietly spans w
      { w' with system := w'.system.send ⟨id, epoch, []⟩, visits := w'.visits.erase (.parting id epoch) } :=
  h.trans ⟨[], fun _ _ _ h₀ => h₀.sendLast hv⟩

theorem receive {collector : Collector} (h : LeadsQuietly spans w w') (hstage : w'.stage = .awaiting)
    (hpending : w'.pending ≠ []) (htake : w'.system.collector.takeReport? = some (r, collector)) :
    LeadsQuietly spans w { w' with system := { w'.system with collector }.receive r } :=
  h.trans ⟨_, fun _ _ _ h₀ => h₀.receive hstage hpending htake⟩

theorem display (h : LeadsQuietly spans w w') (f : Collector → Collector) (hf : ∀ c, (f c).core = c.core) :
    LeadsQuietly spans w { w' with system := w'.system.onCollector f } :=
  h.aside (.display w'.system.monitor (hf w'.system.collector)) (congrArg (·.reports) (hf w'.system.collector))

end LeadsQuietly

end AtomHeap.World
