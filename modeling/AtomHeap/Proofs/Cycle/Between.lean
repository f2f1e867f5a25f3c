import AtomHeap.Proofs.Cycle.Departures
import AtomHeap.Proofs.Cycle.Operations
import AtomHeap.Proofs.Cycle.Soundness
import AtomHeap.Proofs.Store.Intact
/-!
# Between cycles

Whatever a cycle does to the collector and the marks, it takes back before it lets others in. The collector
shows that a cycle marks or sweeps just while one does (`Act`). So in every world that is reached, with no
cycle on its way, the system is at rest (`Reached.resting`): the collector shows no cycle, mutators see no
epoch, and the table does not mark and has no marks above the builtin boundary.
-/

namespace AtomHeap

/-- Nothing is left of a cycle. -/
structure System.Resting (s : System) : Prop where
  standing : s.standing = if s.isRequested then .requested else .idle
  activeEpoch : s.collector.activeEpoch = 0
  marking : s.store.table.marking = false
  unmarked : s.store.table.Unmarked

namespace World

variable {spans : Span → Prop} {w w' w'' w₀ : World} {events trace : List Event} {buckets : Nat}
  {heap : Heap} {config : Config}

/-! ## What the collector shows -/

/-- A step, where the collector shows that a cycle marks from when it begins to, that it sweeps from when all
reports are there, and that it is over before others are let in. -/
inductive Act (spans : Span → Prop) (w : World) : World → Prop
  | step {events : List Event} {w' : World} : Step spans w events w' →
      w'.system.collector.phase = w.system.collector.phase → (w.stage = .ended → w'.stage = .ended) →
      Act spans w w'
  | begin : w.stage = .locked → Act spans w { w with system := w.system.beginMarking, stage := .begun }
  | sweeping : w.stage = .complete → Act spans w { w with system := w.system.onCollector (·.enter .sweeping) }
  | rest : w.stage = .ended → Act spans w { w with system := w.system.rest, stage := .idle }

/-- Any number of such steps. -/
abbrev Reached (spans : Span → Prop) : World → World → Prop := Relation.ReflTransGen (Act spans)

theorem Act.leads (h : Act spans w w') : Leads spans w w' := by
  have hshow (phase : Phase) : Leads spans w { w with system := w.system.onCollector (·.enter phase) } :=
    ((LeadsQuietly.refl spans w).display (·.enter phase) fun _ => rfl).leads
  cases h with
  | step hstep _ _ => exact (Leads.refl spans w).step hstep
  | begin hstage => exact (hshow .marking).step (.begin hstage)
  | sweeping _ => exact hshow .sweeping
  | rest hstage => exact (hshow .idle).step (.rest hstage)

theorem Reached.leads (h : Reached spans w w') : Leads spans w w' := by
  induction h with
  | refl => exact .refl spans w
  | tail _ hact ih => exact ih.trans hact.leads

theorem Reached.act (h : Reached spans w₀ w) (hact : Act spans w w') : Reached spans w₀ w' := h.tail hact

theorem Reached.step (h : Reached spans w₀ w) (hstep : Step spans w events w')
    (hphase : w'.system.collector.phase = w.system.collector.phase) (hended : w.stage = .ended → w'.stage = .ended) :
    Reached spans w₀ w' := h.act (.step hstep hphase hended)

theorem Reached.intern {i : Interned} {store : Store} (h : Reached spans w₀ w) (span : Span) (hspan : spans span)
    (blob : BlobId) (hi : w.system.store.internLocked span false blob = .ok (.ok i, store)) :
    Reached spans w₀ { w with system := { w.system with store } } := h.step (.call (.intern hspan hi)) rfl id

theorem Reached.display (h : Reached spans w₀ w) (f : Collector → Collector) (hcore : ∀ c, (f c).core = c.core)
    (hphase : ∀ c, (f c).phase = c.phase) : Reached spans w₀ { w with system := w.system.onCollector f } :=
  h.step (.display w.system.monitor (hcore _)) (hphase _) id

/-- No cycle has begun to mark. -/
def Stage.isCalm : Stage → Bool
  | .idle | .held | .locked => true
  | _ => false

/-- The collector shows no cycle before one begins to mark. -/
def Calm (w : World) : Prop := w.stage.isCalm = true → w.system.collector.phase = .idle

theorem Act.calm (h : Calm w) (hact : Act spans w w') : Calm w' := by
  intro hcalm
  cases hact with
  | begin _ => cases hcalm
  | sweeping hstage =>
    rw [show w.stage = .complete from hstage] at hcalm
    cases hcalm
  | rest _ => rfl
  | step hstep hphase hended =>
    rw [hphase]
    apply h
    cases hstep with
    | hold hstage _ | release hstage | lock _ hstage _ _ | decline hstage =>
      rw [hstage]
      rfl
    | rest hstage => cases hended hstage
    | begin | number | publish | snapshot | readOwn | markOwn | markNone | finish | timeOut | abort | postpone
    | sweep => cases hcalm
    | _ => exact hcalm

/-! ## Marks -/

/-- No cycle has begun to mark, or its marks are gone. -/
def Stage.isClear : Stage → Bool
  | .idle | .held | .locked | .aborted | .ended => true
  | _ => false

def Clear (w : World) : Prop := w.stage.isClear = true → w.table.marking = false ∧ w.table.Unmarked

theorem Clear.step (hs : w.table.Sound buckets 0) (h : Clear w) (hstep : Step spans w events w') : Clear w' := by
  intro hclear
  cases hstep with
  | call hcall =>
    obtain ⟨hmarking, hunmarked⟩ := h hclear
    have hfades := hcall.fades hs hmarking
    exact ⟨hfades.marking.trans hmarking, hfades.unmarked hunmarked⟩
  | @close _ system hclose =>
    have htable : system.store.table = w.table := (closeMutator_eq hclose).1
    unfold table
    dsimp only
    rw [htable]
    exact h hclear
  | hold hstage _ | release hstage | lock _ hstage _ _ | clearRequest hstage | decline hstage | rest hstage
  | postpone hstage => exact h (by rw [hstage]; rfl)
  | begin | number | publish | snapshot | readOwn | markOwn | markNone | finish | timeOut => cases hclear
  | receive hstage _ _ =>
    rw [show w.stage = .awaiting from hstage] at hclear
    cases hclear
  | abort _ => exact ⟨rfl, fun i e _ he => Table.abortMarking_unmarked _ he⟩
  | sweep _ htable hstore =>
    obtain ⟨swept, htable', -⟩ := Store.sweep_table hstore
    obtain ⟨swept', t', hsweep, hbelow⟩ := hs.sweep_below
    have hswept := htable'.symm.trans hsweep
    rw [Except.ok.injEq, Prod.mk.injEq] at hswept
    unfold table
    dsimp only
    rw [hswept.2]
    exact ⟨rfl, hbelow.unmarked⟩
  | _ => exact h hclear

/-! ## At rest -/

theorem Run.clear (hc : config.check = .ok ()) (h : Run spans (.empty heap config) trace w) : Clear w := by
  induction h with
  | start => exact fun _ => ⟨rfl, fun i e _ he => by cases he⟩
  | step hrun hstep ih => exact ih.step (hrun.sound hc) hstep

theorem Run.shown (h : Run spans (.empty heap config) trace w) : Shown w := by
  induction h with
  | start => exact ⟨rfl, nofun⟩
  | step _ hstep ih => exact ih.step hstep

namespace Reached

theorem sound (hc : config.check = .ok ()) (h : Reached spans (.empty heap config) w) :
    w.table.Sound config.atomBuckets.toNat 0 := by
  obtain ⟨_, hrun⟩ := h.leads
  exact hrun.sound hc

theorem latched (h : Reached spans (.empty heap config) w) : w.Latched :=
  h.leads.latched (latched_empty heap config)

theorem calm (h : Reached spans (.empty heap config) w) : Calm w := by
  induction h with
  | refl => exact fun _ => rfl
  | tail _ hact ih => exact hact.calm ih

/-- With no cycle on its way the system is at rest. -/
theorem resting (hc : config.check = .ok ()) (h : Reached spans (.empty heap config) w)
    (hstage : w.stage = .idle ∨ w.stage = .held) : w.system.Resting := by
  obtain ⟨_, hrun⟩ := h.leads
  have hclear := hrun.clear hc (by rcases hstage with hstage | hstage <;> rw [hstage] <;> rfl)
  refine ⟨?_, ?_, hclear.1, hclear.2⟩
  · have hphase := h.calm (by rcases hstage with hstage | hstage <;> rw [hstage] <;> rfl)
    unfold System.standing
    rw [hphase]
  · rw [hrun.shown.active]
    rcases hstage with hstage | hstage <;> rw [hstage] <;> rfl

end Reached

end World

end AtomHeap
