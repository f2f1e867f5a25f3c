import AtomHeap.Cycle.Collector
import AtomHeap.Cycle.Monitor
import Mathlib.Logic.Function.Basic
/-!
# A monitor that was stopped

Any threads start and stop a monitor while its watchers work. `Watch.Step` is what one of them does without the
others seeing the middle of it, and a `Watch.Run` is any such steps in any order.

There may be several watchers, some of which were spawned before the last stop and have not had their turn yet. The
lock keeps all but one of them out. A stop has the lock before it returns, so no watcher is between seeing the flag up
and collecting then; and one that gets its turn later sees the flag down (`Resting`). So nobody collects until a start
raises the flag again.
-/

namespace AtomHeap

/-- How far a thread is with stopping a monitor. -/
inductive Stopping
  /-- It does nothing of the kind. -/
  | no
  /-- It lowered the flag, and waits for the lock. -/
  | waiting
  | locked
  /-- It gave the lock back, and is about to return. -/
  | leaving
  deriving DecidableEq, Repr

/-- A monitor, and the threads that stop it. -/
structure Watch where
  monitor : Monitor := {}
  stopping : ThreadId → Stopping := fun _ => .no

/-- A watcher that sees the flag down does not go on to collect. -/
theorem Watcher.next_of_lowered {x y : Watcher} {requested : Bool} (h : x.next false requested = some y)
    (hx : x ≠ .looking) : y ≠ .looking ∧ y ≠ .collecting := by
  cases x with
  | looking => exact absurd rfl hx
  | waiting | asleep | awake | collecting =>
    cases (Option.some.inj h : _ = y)
    exact ⟨nofun, nofun⟩
  | leaving => cases h

namespace Monitor

variable {m m' : Monitor} {i : Nat} {requested : Bool}

/-- How many watchers have the lock. -/
def holders (m : Monitor) : Nat := m.watchers.countP (·.hasLock)

theorem holders_eq_zero_iff : m.holders = 0 ↔ m.isLocked = false := by
  simp [holders, isLocked, List.countP_eq_zero]

/-- A watcher goes on to its next place, or is done. -/
theorem step_cases (h : m.step? i requested = some m') :
    ∃ x, m.watchers[i]? = some x ∧ (x = .waiting → m.isLocked = false) ∧
      ((∃ y, x.next m.running requested = some y ∧ m' = { m with watchers := m.watchers.set i y }) ∨
        m' = { m with watchers := m.watchers.eraseIdx i }) := by
  unfold step? at h
  split at h
  · cases h
  · rename_i x hx
    split at h
    · cases h
    · rename_i hlock
      refine ⟨x, hx, fun hwaiting => ?_, ?_⟩
      · simpa [hwaiting] using hlock
      · split at h
        · rename_i y hy
          cases h
          exact .inl ⟨y, hy, rfl⟩
        · cases h
          exact .inr rfl

/-- Only a watcher that waits takes the lock, and only if no other one has it. -/
theorem holders_step (h : m.step? i requested = some m') :
    m'.holders ≤ m.holders ∨ m.watchers[i]? = some .waiting ∧ m.holders = 0 ∧ m'.holders ≤ 1 := by
  obtain ⟨x, hx, hfree, ⟨y, -, rfl⟩ | rfl⟩ := step_cases h
  · obtain ⟨hi, rfl⟩ := List.getElem?_eq_some_iff.1 hx
    simp only [holders, List.countP_set hi]
    have hy : (if y.hasLock = true then 1 else 0) ≤ 1 := by split <;> decide
    by_cases hwaiting : m.watchers[i] = .waiting
    · have hzero := holders_eq_zero_iff.2 (hfree hwaiting)
      unfold holders at hzero
      exact .inr ⟨hwaiting ▸ hx, hzero, by omega⟩
    · have hlock : m.watchers[i].hasLock = true := by
        cases hw : m.watchers[i] <;> simp_all [Watcher.hasLock]
      have hpos : 0 < m.watchers.countP (·.hasLock) := List.countP_pos_iff.2 ⟨_, List.getElem_mem hi, hlock⟩
      simp only [hlock, if_true]
      exact .inl (by omega)
  · exact .inl (List.eraseIdx_sublist ..).countP_le

end Monitor

namespace Watch

/-- What happened in a step. -/
inductive Event
  /-- A start raised the flag. -/
  | started
  /-- A start found the flag up. -/
  | refused
  | lowered (thread : ThreadId)
  | locked (thread : ThreadId)
  | unlocked (thread : ThreadId)
  /-- A stop returned. -/
  | returned (thread : ThreadId)
  /-- A watcher ran a cycle, if it was still worth one. -/
  | collected
  /-- A watcher did anything else. -/
  | watched
  deriving DecidableEq, Repr

/-- No thread that stops the monitor has the lock. -/
def Free (w : Watch) : Prop := ∀ thread, w.stopping thread ≠ .locked

/-- Steps of threads that start and stop a monitor, and of its watchers. -/
inductive Step (w : Watch) : Event → Watch → Prop
  | start : w.monitor.running = false → Step w .started { w with monitor := w.monitor.start }
  | startTwice : w.monitor.running = true → Step w .refused { w with monitor := w.monitor.start }
  | lower {thread : ThreadId} : w.stopping thread = .no →
      Step w (.lowered thread) ⟨w.monitor.lower, Function.update w.stopping thread .waiting⟩
  | lock {thread : ThreadId} : w.stopping thread = .waiting → w.monitor.canReturn = true → w.Free →
      Step w (.locked thread) { w with stopping := Function.update w.stopping thread .locked }
  | unlock {thread : ThreadId} : w.stopping thread = .locked →
      Step w (.unlocked thread) { w with stopping := Function.update w.stopping thread .leaving }
  | ret {thread : ThreadId} : w.stopping thread = .leaving →
      Step w (.returned thread) { w with stopping := Function.update w.stopping thread .no }
  | collect {i : Nat} {requested : Bool} {monitor : Monitor} : w.monitor.watchers[i]? = some .collecting →
      w.monitor.step? i requested = some monitor → Step w .collected { w with monitor }
  | watch {i : Nat} {requested : Bool} {monitor : Monitor} : w.monitor.watchers[i]? ≠ some .collecting →
      (w.monitor.watchers[i]? = some .waiting → w.Free) → w.monitor.step? i requested = some monitor →
      Step w .watched { w with monitor }

/-- Any steps in any order, with what happened. -/
inductive Run : Watch → List Event → Watch → Prop
  | nil {w : Watch} : Run w [] w
  | cons {w w₁ w₂ : Watch} {e : Event} {es : List Event} : Step w e w₁ → Run w₁ es w₂ → Run w (e :: es) w₂

variable {w w' : Watch} {e : Event} {es es' : List Event} {thread : ThreadId}

theorem run_append : Run w (es ++ es') w' ↔ ∃ w₁, Run w es w₁ ∧ Run w₁ es' w' := by
  induction es generalizing w with
  | nil => exact ⟨fun h => ⟨w, .nil, h⟩, fun ⟨_, .nil, h⟩ => h⟩
  | cons e es ih =>
    constructor
    · rintro (_ | ⟨hstep, hrun⟩)
      obtain ⟨w₁, h₁, h₂⟩ := ih.1 hrun
      exact ⟨w₁, .cons hstep h₁, h₂⟩
    · rintro ⟨w₁, _ | ⟨hstep, h₁⟩, h₂⟩
      exact .cons hstep (ih.2 ⟨w₁, h₁, h₂⟩)

theorem Run.snoc {w₁ : Watch} (hr : Run w es w₁) (hs : Step w₁ e w') : Run w (es ++ [e]) w' :=
  run_append.2 ⟨w₁, hr, .cons hs .nil⟩

/-! ## The lock -/

/-- The lock is with one watcher at most, and with none if a stop has it. -/
structure Exclusive (w : Watch) : Prop where
  one : w.monitor.holders ≤ 1
  none : ∀ thread, w.stopping thread = .locked → w.monitor.holders = 0

theorem exclusive_start : Exclusive {} := ⟨Nat.zero_le 1, fun _ _ => rfl⟩

theorem Exclusive.fewer (h : Exclusive w) {monitor : Monitor} (hle : monitor.holders ≤ w.monitor.holders) :
    Exclusive { w with monitor } :=
  ⟨Nat.le_trans hle h.one, fun thread ht => Nat.eq_zero_of_le_zero (h.none thread ht ▸ hle)⟩

theorem Exclusive.step (h : Exclusive w) (hs : Step w e w') : Exclusive w' := by
  have hstarted : w.monitor.start.holders = w.monitor.holders := by
    unfold Monitor.start
    split
    · rfl
    · simp [Monitor.holders, Watcher.hasLock]
  -- A thread that stops the monitor is not at having the lock unless it took it in this step.
  have hkept {thread : ThreadId} {s : Stopping} (hs : s ≠ .locked) (other : ThreadId)
      (hother : Function.update w.stopping thread s other = .locked) : w.monitor.holders = 0 := by
    rw [Function.update_apply] at hother
    split at hother
    · exact absurd hother hs
    · exact h.none other hother
  cases hs with
  | start | startTwice => exact ⟨hstarted ▸ h.one, hstarted ▸ h.none⟩
  | lower => exact ⟨h.one, hkept nofun⟩
  | lock _ hfree =>
    have hzero := Monitor.holders_eq_zero_iff.2 ((Bool.not_eq_true' _).mp hfree)
    exact ⟨h.one, fun _ _ => hzero⟩
  | unlock => exact ⟨h.one, hkept nofun⟩
  | ret => exact ⟨h.one, hkept nofun⟩
  | collect hcollecting hstep =>
    rcases Monitor.holders_step hstep with hle | ⟨hwaiting, -, -⟩
    · exact h.fewer hle
    · cases hcollecting.symm.trans hwaiting
  | watch _ hfree hstep =>
    rcases Monitor.holders_step hstep with hle | ⟨hwaiting, -, hone⟩
    · exact h.fewer hle
    · exact ⟨hone, fun thread ht => absurd ht (hfree hwaiting thread)⟩

theorem Exclusive.run (h : Exclusive w) (hr : Run w es w') : Exclusive w' := by
  induction hr with
  | nil => exact h
  | cons hs _ ih => exact ih (h.step hs)

/-! ## Rest -/

/-- The flag is down, and no watcher has yet to act on having seen it up. -/
structure Resting (w : Watch) : Prop where
  flag : w.monitor.running = false
  watchers : ∀ x ∈ w.monitor.watchers, x ≠ .looking ∧ x ≠ .collecting

/-- While the monitor rests, nobody collects; and it rests until it is started. -/
theorem Resting.step (h : Resting w) (hs : Step w e w') (hne : e ≠ .started) : Resting w' ∧ e ≠ .collected := by
  cases hs with
  | start => exact absurd rfl hne
  | startTwice hrunning => exact absurd (h.flag.symm.trans hrunning) nofun
  | lower => exact ⟨⟨rfl, h.watchers⟩, nofun⟩
  | lock | unlock | ret => exact ⟨⟨h.flag, h.watchers⟩, nofun⟩
  | collect hcollecting => exact absurd rfl (h.watchers _ (List.mem_of_getElem? hcollecting)).2
  | watch _ _ hstep =>
    refine ⟨?_, nofun⟩
    obtain ⟨x, hx, -, ⟨y, hy, rfl⟩ | rfl⟩ := Monitor.step_cases hstep
    · refine ⟨h.flag, fun z hz => ?_⟩
      rcases List.mem_or_eq_of_mem_set hz with hz | rfl
      · exact h.watchers z hz
      · exact Watcher.next_of_lowered (h.flag ▸ hy) (h.watchers x (List.mem_of_getElem? hx)).1
    · exact ⟨h.flag, fun z hz => h.watchers z (List.mem_of_mem_eraseIdx hz)⟩

theorem Resting.run (h : Resting w) (hr : Run w es w') (hne : .started ∉ es) : .collected ∉ es := by
  induction hr with
  | nil => exact List.not_mem_nil
  | cons hs _ ih =>
    obtain ⟨hhead, htail⟩ := List.ne_and_not_mem_of_not_mem_cons hne
    obtain ⟨h', hcollected⟩ := h.step hs hhead.symm
    exact List.not_mem_cons_of_ne_of_not_mem hcollected.symm (ih h' htail)

/-- The flag was lowered by a thread that stops the monitor, and has not been raised since. -/
structure Stopped (thread : ThreadId) (w : Watch) : Prop where
  flag : w.monitor.running = false
  /-- Once the thread has had the lock, the monitor rests. -/
  rests : w.stopping thread ≠ .waiting → Resting w

theorem stopped_lower (w : Watch) (thread : ThreadId) :
    Stopped thread ⟨w.monitor.lower, Function.update w.stopping thread .waiting⟩ :=
  ⟨rfl, fun hne => absurd (Function.update_self ..) hne⟩

/-- When the thread takes the lock, no watcher has it, so none can have seen the flag up. -/
theorem Resting.of_canReturn (hflag : w.monitor.running = false) (hfree : w.monitor.canReturn = true) :
    Resting w := by
  refine ⟨hflag, fun x hx => ?_⟩
  have hlock : x.hasLock = false := by
    simp only [Monitor.canReturn, Monitor.isLocked, Bool.not_eq_true', List.any_eq_false, Bool.not_eq_true] at hfree
    exact hfree x hx
  constructor
  all_goals
    rintro rfl
    cases hlock

theorem Stopped.step (h : Stopped thread w) (hs : Step w e w') (hne : e ≠ .started) : Stopped thread w' := by
  by_cases hrests : Resting w
  · obtain ⟨hrests', -⟩ := hrests.step hs hne
    exact ⟨hrests'.flag, fun _ => hrests'⟩
  -- Until the thread takes the lock, all that counts is that the flag stays down.
  have hwaiting : w.stopping thread = .waiting := by
    by_contra hnot
    exact hrests (h.rests hnot)
  cases hs with
  | start => exact absurd rfl hne
  | startTwice hrunning => exact absurd (h.flag.symm.trans hrunning) nofun
  | @lower other hno =>
    refine ⟨rfl, fun hnot => absurd ?_ hnot⟩
    dsimp only
    rw [Function.update_apply]
    split
    · rfl
    · exact hwaiting
  | lock _ hfree =>
    have hresting := Resting.of_canReturn h.flag hfree
    exact absurd hresting hrests
  | @unlock other hother | @ret other hother =>
    have hdiffer : thread ≠ other := by
      rintro rfl
      rw [hwaiting] at hother
      cases hother
    exact ⟨h.flag, fun hnot => absurd ((Function.update_of_ne hdiffer ..).trans hwaiting) hnot⟩
  | collect _ hstep | watch _ _ hstep =>
    obtain ⟨-, -, -, ⟨_, -, rfl⟩ | rfl⟩ := Monitor.step_cases hstep
    all_goals exact ⟨h.flag, fun hnot => absurd hwaiting hnot⟩

theorem Stopped.run (h : Stopped thread w) (hr : Run w es w') (hne : .started ∉ es) : Stopped thread w' := by
  induction hr with
  | nil => exact h
  | cons hs _ ih =>
    obtain ⟨hhead, htail⟩ := List.ne_and_not_mem_of_not_mem_cons hne
    exact ih (h.step hs hhead.symm) htail

/-- Whatever order the steps of threads and watchers come in, one watcher at most has the lock. And if nobody raises
the flag between the moment a stop lowers it and its return, no watcher collects from that return until somebody
does, even one that was spawned before and has had no turn yet. -/
theorem stopped_monitor_rests (hrun : Run {} es w) :
    w.monitor.watchers.countP (·.hasLock) ≤ 1 ∧
      ∀ before thread during after rest,
        es = before ++ .lowered thread :: during ++ .returned thread :: after ++ rest →
        .started ∉ during → .started ∉ after → .collected ∉ after := by
  refine ⟨(exclusive_start.run hrun).one, ?_⟩
  rintro before thread during after rest rfl hduring hafter
  obtain ⟨w₄, hrun, -⟩ := run_append.1 hrun
  obtain ⟨w₂, hrun, hreturn⟩ := run_append.1 hrun
  obtain ⟨w₁, -, hlower⟩ := run_append.1 hrun
  obtain _ | ⟨hlowered, hmeanwhile⟩ := hlower
  obtain _ | ⟨hreturned, hlater⟩ := hreturn
  cases hlowered
  have hstopped := (stopped_lower w₁ thread).run hmeanwhile hduring
  have hresting : Resting w₂ := by
    cases hreturned with
    | ret hleaving => exact hstopped.rests (hleaving ▸ nofun)
  exact (hresting.step hreturned nofun).1.run hlater hafter

/-- A watcher that gets its first turn after the stop sleeps once, and is done. -/
theorem stopped_monitor_rests_late :
    ∃ w, Run {} [.started, .lowered 1, .locked 1, .unlocked 1, .returned 1, .watched, .watched, .watched, .watched] w ∧
      w.monitor = {} ∧ .collected ∉ [Event.watched, .watched, .watched, .watched] := by
  -- Nobody but thread 1 stops the monitor.
  have hfree {f : ThreadId → Stopping} {s : Stopping} (hf : ∀ thread, thread ≠ 1 → f thread ≠ .locked)
      (hs : s ≠ .locked) (thread : ThreadId) : Function.update f 1 s thread ≠ .locked := by
    by_cases ht : thread = 1
    · rwa [ht, Function.update_self]
    · rw [Function.update_of_ne ht]
      exact hf thread ht
  have hother {f : ThreadId → Stopping} {s : Stopping} (hf : ∀ thread, thread ≠ 1 → f thread ≠ .locked)
      (thread : ThreadId) (ht : thread ≠ 1) : Function.update f 1 s thread ≠ .locked := by
    rw [Function.update_of_ne ht]
    exact hf thread ht
  have lowered := ((@Run.nil {}).snoc (.start rfl)).snoc (@Step.lower _ 1 rfl)
  have locked := lowered.snoc (@Step.lock _ 1 rfl rfl (hfree nofun nofun))
  have returned := (locked.snoc (@Step.unlock _ 1 rfl)).snoc (@Step.ret _ 1 rfl)
  have first := returned.snoc
    (@Step.watch _ 0 false _ (by decide) (fun _ => hfree (hother (hother (hother nofun))) nofun) rfl)
  have last := ((first.snoc (@Step.watch _ 0 false _ (by decide) nofun rfl)).snoc
    (@Step.watch _ 0 false _ (by decide) nofun rfl)).snoc (@Step.watch _ 0 false _ (by decide) nofun rfl)
  exact ⟨_, last, rfl, (stopped_monitor_rests last).2 [.started] 1 [.locked 1, .unlocked 1] _ [] rfl (by decide)
    (by decide)⟩

end Watch

end AtomHeap
