import AtomHeap.Proofs.Cycle.Step
/-!
# Epochs

What the stages of a cycle mean, what a step may change of the table, and the invariant `Stamped`: no
epoch is ahead of the cycle's. So what has a cycle's epoch came after the cycle got it.
-/

namespace AtomHeap.World

variable {spans : Span → Prop} {w w' w₀ : World} {trace trace' events : List Event} {buckets : Nat}

def Stage.isMarking : Stage → Bool
  | .begun | .numbered | .published | .asked _ | .awaiting | .complete => true
  | _ => false

def Stage.isNumbered : Stage → Bool
  | .numbered | .published | .asked _ | .awaiting | .complete => true
  | _ => false

/-- The cycle marks, and it is settled who is waited for. -/
def Stage.isAsked : Stage → Bool
  | .asked _ | .awaiting | .complete => true
  | _ => false

def Visit.epoch? : Visit → Option Nat
  | .saw _ epoch | .parting _ epoch => some epoch
  | .reading r => some r.epoch
  | .leaving _ _ => none

/-- The epoch of the cycle, or that of the report. -/
def Event.epoch? : Event → Option Nat
  | .asked epoch _ _ | .swept epoch _ => some epoch
  | .initiated r | .applied r | .ignored r => some r.epoch
  | .store _ | .began => none

/-- What happened since the last cycle began to mark. -/
def sinceBegan (trace : List Event) : List Event := trace.takeWhile (· ≠ .began)

theorem Stage.isMarking_of_isNumbered {stage : Stage} (h : stage.isNumbered = true) :
    stage.isMarking = true := by
  cases stage with
  | idle | held | locked | begun | abandoned | aborted | ended => cases h
  | _ => rfl

theorem Stage.isNumbered_of_isAsked {stage : Stage} (h : stage.isAsked = true) : stage.isNumbered = true := by
  cases stage with
  | asked | awaiting | complete => rfl
  | _ => cases h

theorem sinceBegan_append (h : .began ∉ events) : sinceBegan (events ++ trace) = events ++ sinceBegan trace := by
  apply List.takeWhile_append_of_pos
  intro event hevent
  apply decide_eq_true
  rintro rfl
  exact h hevent

/-! ## What the functions of a system do -/

theorem dueEpoch?_eq {c : Collector} {lastEpoch epoch : Nat} (h : c.dueEpoch? lastEpoch = some epoch) :
    epoch = c.activeEpoch := by
  unfold Collector.dueEpoch? at h
  split at h
  · exact (Option.some.inj h).symm
  · cases h

theorem takeReport?_eq {c c' : Collector} {r : Report} (h : c.takeReport? = some (r, c')) :
    c.reports = r :: c'.reports ∧ c' = { c with reports := c'.reports } := by
  unfold Collector.takeReport? at h
  split at h
  · cases h
  · rename_i heq
    cases h
    exact ⟨heq, rfl⟩

theorem receive_of_eq {s : System} {r : Report} (h : r.epoch = s.collector.epoch) :
    s.receive r = (s.onTable (·.applyMarks r.atoms)).onCollector (·.excuse r.mutator) := if_pos h

theorem receive_of_ne {s : System} {r : Report} (h : r.epoch ≠ s.collector.epoch) :
    s.receive r = s := if_neg h

/-- Taking a report changes the table, and of the collector at most who is waited for. -/
theorem receive_frame (s : System) (r : Report) :
    (s.receive r).mutators = s.mutators ∧ ∃ pending, (s.receive r).collector = { s.collector with pending } := by
  by_cases hcurrent : r.epoch = s.collector.epoch
  · rw [receive_of_eq hcurrent]
    exact ⟨rfl, _, rfl⟩
  · rw [receive_of_ne hcurrent]
    exact ⟨rfl, s.collector.pending, rfl⟩

theorem closeMutator_eq {s s' : System} {m : Mutator} (h : s.closeMutator m = .ok s') :
    s'.store.table = s.store.table ∧ s'.collector = s.collector := by
  obtain ⟨heap, -, h⟩ := bind_eq_ok_iff.1 h
  cases h
  exact ⟨rfl, rfl⟩

/-! ## Epochs -/

/-- No epoch is ahead of that of the last cycle. -/
structure Stamped (trace : List Event) (w : World) : Prop where
  active : w.system.collector.activeEpoch ≤ w.epoch
  visits : ∀ v ∈ w.visits, ∀ e ∈ v.epoch?, e ≤ w.epoch
  reports : ∀ r ∈ w.system.collector.reports, r.epoch ≤ w.epoch
  trace : ∀ event ∈ trace, ∀ e ∈ event.epoch?, e ≤ w.epoch

namespace Stamped

theorem visit (h : Stamped trace w) {v : Visit} (hv : ∀ e ∈ v.epoch?, e ≤ w.epoch) (rest : List Visit)
    (hrest : ∀ v' ∈ rest, v' ∈ w.visits) : ∀ v' ∈ v :: rest, ∀ e ∈ v'.epoch?, e ≤ w.epoch := by
  intro v' hv'
  rcases List.mem_cons.1 hv' with rfl | hv'
  · exact hv
  · exact h.visits v' (hrest v' hv')

theorem sent (h : Stamped trace w) {r : Report} (hr : r.epoch ≤ w.epoch) :
    ∀ r' ∈ w.system.collector.reports ++ [r], r'.epoch ≤ w.epoch := by
  intro r' hr'
  rcases List.mem_append.1 hr' with hr' | hr'
  · exact h.reports r' hr'
  · rwa [List.mem_singleton.1 hr']

/-- Something happened that has at most the epoch of the cycle. -/
theorem happened (h : Stamped trace w) {event : Event} (he : ∀ e ∈ event.epoch?, e ≤ w.epoch) :
    ∀ event' ∈ event :: trace, ∀ e ∈ event'.epoch?, e ≤ w.epoch := by
  intro event' hevent
  rcases List.mem_cons.1 hevent with rfl | hevent
  · exact he
  · exact h.trace event' hevent

/-- The epoch of the cycle stays, and so do visits. -/
theorem congr (h : Stamped trace w) (hepoch : w'.epoch = w.epoch) (hvisits : w'.visits = w.visits)
    (hactive : w'.system.collector.activeEpoch ≤ w.epoch)
    (hreports : ∀ r ∈ w'.system.collector.reports, r.epoch ≤ w.epoch)
    (htrace : ∀ event ∈ trace', ∀ e ∈ event.epoch?, e ≤ w.epoch) : Stamped trace' w' where
  active := hepoch ▸ hactive
  visits := by
    rw [hepoch, hvisits]
    exact h.visits
  reports := by
    rw [hepoch]
    exact hreports
  trace := by
    rw [hepoch]
    exact htrace

theorem step (h : Stamped trace w) (hstep : Step spans w events w') : Stamped (events ++ trace) w' := by
  cases hstep with
  | call _ =>
    refine ⟨h.active, h.visits, h.reports, fun event hevent => ?_⟩
    rcases List.mem_append.1 hevent with hevent | hevent
    · obtain ⟨_, -, rfl⟩ := List.mem_map.1 hevent
      exact nofun
    · exact h.trace event hevent
  | look _ hdue =>
    refine ⟨h.active, h.visit (fun e he => ?_) _ fun _ hv => hv, h.reports, h.trace⟩
    cases he
    exact dueEpoch?_eq hdue ▸ h.active
  | note hv =>
    refine ⟨h.active, h.visit (fun e he => ?_) _ fun _ => List.mem_of_mem_erase, h.reports, h.trace⟩
    exact h.visits _ hv e he
  | read a hv =>
    refine ⟨h.active, h.visit (fun e he => ?_) _ fun _ => List.mem_of_mem_erase, h.reports, h.trace⟩
    exact h.visits _ hv e he
  | send hv =>
    refine ⟨h.active, fun v hv' => h.visits v (List.mem_of_mem_erase hv'), h.sent ?_, h.trace⟩
    exact h.visits _ hv _ rfl
  | leave _ => exact ⟨h.active, h.visit (fun e he => by cases he) _ fun _ hv => hv, h.reports, h.trace⟩
  | part _ hdue =>
    refine ⟨h.active, h.visit (fun e he => ?_) _ fun _ => List.mem_of_mem_erase, h.reports, h.trace⟩
    cases he
    exact dueEpoch?_eq hdue ▸ h.active
  | partUnasked _ _ => exact ⟨h.active, fun v hv => h.visits v (List.mem_of_mem_erase hv), h.reports, h.trace⟩
  | sendLast hv =>
    refine ⟨h.active, fun v hv' => h.visits v (List.mem_of_mem_erase hv'), h.sent ?_, h.trace⟩
    exact h.visits _ hv _ rfl
  | close hclose =>
    obtain ⟨-, hcollector⟩ := closeMutator_eq hclose
    refine h.congr (congrArg (·.epoch) hcollector) rfl ?_ ?_ h.trace
    all_goals
      dsimp only
      rw [hcollector]
    · exact h.active
    · exact h.reports
  | @display collector _ hcore =>
    have hepoch : collector.epoch = w.epoch := congrArg (·.epoch) hcore
    have hactive : collector.activeEpoch = w.system.collector.activeEpoch := congrArg (·.activeEpoch) hcore
    have hreports : collector.reports = w.system.collector.reports := congrArg (·.reports) hcore
    exact h.congr hepoch rfl (hactive ▸ h.active) (fun r hr => h.reports r (hreports ▸ hr)) h.trace
  | begin _ => exact ⟨h.active, h.visits, h.reports, h.happened nofun⟩
  | number _ =>
    -- The epoch goes up, and nothing else is stamped anew.
    have hle : ∀ {e}, e ≤ w.epoch → e ≤ w.epoch + 1 := Nat.le_succ_of_le
    exact ⟨hle h.active, fun v hv e he => hle (h.visits v hv e he), fun r hr => hle (h.reports r hr),
      fun event hevent e he => hle (h.trace event hevent e he)⟩
  | publish _ => exact ⟨Nat.le_refl _, h.visits, h.reports, h.trace⟩
  | snapshot _ => exact ⟨h.active, h.visits, h.reports, h.happened fun e he => by cases he; exact Nat.le_refl _⟩
  | markOwn _ _ => exact ⟨h.active, h.visits, h.reports, h.happened fun e he => by cases he; exact Nat.le_refl _⟩
  | @receive r collector _ _ htake =>
    obtain ⟨hreports, hcollector⟩ := takeReport?_eq htake
    have hr : r.epoch ≤ w.epoch := h.reports r (hreports ▸ List.mem_cons_self)
    have htail : ∀ r' ∈ collector.reports, r'.epoch ≤ w.epoch := fun r' hr' =>
      h.reports r' (hreports ▸ List.mem_cons_of_mem _ hr')
    have hepoch : collector.epoch = w.epoch := by rw [hcollector]; rfl
    have hactive : collector.activeEpoch ≤ w.epoch := by rw [hcollector]; exact h.active
    by_cases hcurrent : r.epoch = w.epoch
    · rw [if_pos hcurrent, receive_of_eq (hcurrent.trans hepoch.symm)]
      exact h.congr hepoch rfl hactive htail (h.happened fun e he => by cases he; exact hr)
    · rw [if_neg hcurrent, receive_of_ne fun heq => hcurrent (heq.trans hepoch)]
      exact h.congr hepoch rfl hactive htail (h.happened fun e he => by cases he; exact hr)
  | finish _ _ => exact ⟨Nat.zero_le _, h.visits, h.reports, h.trace⟩
  | timeOut _ _ => exact ⟨Nat.zero_le _, h.visits, h.reports, h.trace⟩
  | sweep _ _ _ => exact ⟨h.active, h.visits, h.reports, h.happened fun e he => by cases he; exact Nat.le_refl _⟩
  | _ => exact ⟨h.active, h.visits, h.reports, h.trace⟩

end Stamped

/-! ## The table -/

/-- A step changes the table only as tables change. -/
theorem Step.changes (hs : w.table.Sound buckets 0) (h : Step spans w events w') :
    Table.Changes spans w.table w'.table := by
  cases h with
  | call hcall => exact hcall.changes hs
  | @close _ system hclose =>
    have htable : system.store.table = w.table := (closeMutator_eq hclose).1
    unfold table at htable ⊢
    rw [htable]
  | clearRequest _ => exact Store.Move.clearRequest.changes hs
  | begin _ => exact Store.Move.beginMarking.changes hs
  | markOwn _ _ => exact (Store.Move.applyMarks _).changes hs
  | @receive r collector _ _ _ =>
    by_cases hcurrent : r.epoch = collector.epoch
    · rw [receive_of_eq hcurrent]
      exact (Store.Move.applyMarks _).changes hs
    · rw [receive_of_ne hcurrent]
      exact .refl
  | abort _ => exact Store.Move.abortMarking.changes hs
  | postpone _ => exact Store.Move.postpone.changes hs
  | sweep _ htable hstore => exact (Store.Move.sweep htable hstore).changes hs
  | _ => exact .refl

end AtomHeap.World
