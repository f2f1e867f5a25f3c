import AtomHeap.Proofs.Cycle.Between
import AtomHeap.Proofs.Table.Types
/-!
# What others do meanwhile

While a cycle is on its way mutators and callers go on, also from inside the reading of roots: their steps
are asides. What the cycle does itself until it sweeps (`Proceeds`) leaves the system as it is but for marks
(`System.Intact`). So what is different after it came about in the stretches of its course where others were
at work (`Apart`), and others destroy no atom and ask no release hook (`Table.Spares`).
-/

namespace AtomHeap

/-! ## What is spared -/

/-- No atom was destroyed, and no release hook was asked, nor the hook for types without one. -/
structure Table.Spares (t t' : Table) : Prop where
  kept : ∀ a e, t.entry a = .ok e → ∃ e', t'.entry a = .ok e' ∧ e'.payload = e.payload
  blobs : t.blobs.Unasked t'.blobs
  /-- Another hook was asked nothing yet. -/
  fallback : t'.fallback.map Prod.snd = t.fallback.map Prod.snd ∨ t'.fallback.map Prod.snd = some 0

namespace Table.Spares

variable {t t' t'' : Table}

theorem refl (t : Table) : Spares t t := ⟨fun _ e he => ⟨e, he, rfl⟩, .refl _, .inl rfl⟩

theorem trans (h : Spares t t') (h' : Spares t' t'') : Spares t t'' where
  kept a e he := by
    obtain ⟨e', he', hpayload⟩ := h.kept a e he
    obtain ⟨e'', he'', hpayload'⟩ := h'.kept a e' he'
    exact ⟨e'', he'', hpayload'.trans hpayload⟩
  blobs := h.blobs.trans h'.blobs
  fallback := by
    rcases h'.fallback with hsame | hnew
    · rcases h.fallback with hsame' | hnew'
      · exact .inl (hsame.trans hsame')
      · exact .inr (hsame.trans hnew')
    · exact .inr hnew

/-- Where no hook is another, none was asked. -/
theorem of_hooks (hkept : ∀ a e, t.entry a = .ok e → ∃ e', t'.entry a = .ok e' ∧ e'.payload = e.payload)
    (hblobs : t'.blobs = t.blobs) (hfallback : t'.fallback = t.fallback) : Spares t t' :=
  ⟨hkept, hblobs ▸ .refl _, .inl (by rw [hfallback])⟩

theorem of_intact (h : Intact t t') : Spares t t' := by
  refine .of_hooks (fun a e he => ?_) (congrArg (·.blobs) h.rest) (congrArg (·.fallback) h.rest)
  obtain ⟨e', he', hunmarked⟩ := h.of_ok he
  exact ⟨e', he', congrArg (·.payload) hunmarked⟩

end Table.Spares

/-- Callers destroy nothing and ask no release hook. -/
theorem Store.Call.spares {spans : Span → Prop} {s s' : Store} {events : List Store.Event} {buckets : Nat}
    (hs : s.table.Sound buckets 0) (h : Call spans s events s') : s.table.Spares s'.table := by
  have hkept (a : Atom) (e : Entry) (he : s.table.entry a = .ok e) :
      ∃ e', s'.table.entry a = .ok e' ∧ e'.payload = e.payload := by
    have haged := h.aged hs
    rw [h.destructions] at haged
    exact haged.kept he
  have hlinked (hlinks : s.table.OnLinks s'.table) : s.table.Spares s'.table :=
    .of_hooks hkept hlinks.blobs (hlinks.congr (·.fallback) fun _ _ _ => rfl)
  cases h with
  | @intern _ _ _ _ r _ h =>
    cases internLocked_outcome hs h with
    | found _ _ _ hreuse => exact hlinked (Table.reuse_onLinks hreuse)
    | made hwanted hinsert =>
      obtain ⟨_, _, -, hinserted, -⟩ := hs.made hwanted hinsert
      exact .of_hooks hkept (by rw [hinserted.rest]) (by rw [hinserted.rest])
  | internRefused _ h =>
    cases internLocked_outcome hs h with
    | refused _ htable =>
      rw [htable]
      exact .refl _
  | lookup _ h => exact hlinked (Table.lookup_onLinks (lookup_table h))
  | register a => exact hlinked (Table.register_onLinks _ a)
  | unregister a => exact hlinked (Table.unregister_onLinks _ a)
  | registerBlob h =>
    obtain ⟨hregister, hrest⟩ := Table.registerBlob_register h
    exact ⟨hkept, BlobRegistry.unasked_register hregister, .inl (by rw [hrest])⟩
  | unregisterBlob h =>
    obtain ⟨blobs, hunregister, rfl⟩ := Table.unregisterBlob_eq h
    exact ⟨hkept, BlobRegistry.unasked_unregister hunregister, .inl rfl⟩
  | setFallback hook => exact ⟨hkept, .refl _, .inr rfl⟩
  | lockAtoms => exact .of_hooks hkept rfl rfl
  | requestCollection => exact .of_intact (Table.requestCollection_intact s.table)
  | other heap calls => exact .refl _

/-! ## What a cycle leaves alone -/

/-- The systems differ at most in marks, in when to collect, and in what the collector keeps of cycles. -/
structure System.Intact (s s' : System) : Prop where
  heap : s'.store.heap = s.store.heap
  /-- No release hook was asked. -/
  calls : s'.store.calls = s.store.calls
  table : Table.Intact s.store.table s'.store.table
  mutators : s'.mutators = s.mutators
  registered : s'.collector.registered = s.collector.registered

namespace System.Intact

variable {s s' s'' : System}

theorem refl (s : System) : Intact s s := ⟨rfl, rfl, .refl _, rfl, rfl⟩

theorem trans (h : Intact s s') (h' : Intact s' s'') : Intact s s'' :=
  ⟨h'.heap.trans h.heap, h'.calls.trans h.calls, h.table.trans h'.table, h'.mutators.trans h.mutators,
    h'.registered.trans h.registered⟩

theorem onCollector (h : Intact s s') (f : Collector → Collector) (hf : ∀ c, (f c).registered = c.registered) :
    Intact s (s'.onCollector f) := ⟨h.heap, h.calls, h.table, h.mutators, (hf _).trans h.registered⟩

theorem onTable (h : Intact s s') (f : Table → Table) (hf : ∀ t, Table.Intact t (f t)) :
    Intact s (s'.onTable f) := ⟨h.heap, h.calls, h.table.trans (hf _), h.mutators, h.registered⟩

end System.Intact

theorem System.receive_intact (s : System) (r : Report) : Intact s (s.receive r) := by
  by_cases hcurrent : r.epoch = s.collector.epoch
  · rw [World.receive_of_eq hcurrent]
    exact ((Intact.refl s).onTable _ fun t => Table.applyMarks_intact t _).onCollector _ fun _ => rfl
  · rw [World.receive_of_ne hcurrent]
    exact .refl s

namespace World

variable {spans : Span → Prop} {w w' w'' : World} {buckets : Nat} {events : List Event}

/-- A step of callers or mutators. The collector shows to be doing what it did. -/
structure Aside (spans : Span → Prop) (w w' : World) : Prop where
  step : ∃ events : List Store.Event, Step spans w (events.map .store) w'
  stage : w'.stage = w.stage
  initiator : w'.initiator = w.initiator
  phase : w'.system.collector.phase = w.system.collector.phase

/-- Any number of asides. -/
abbrev Asides (spans : Span → Prop) : World → World → Prop := Relation.ReflTransGen (Aside spans)

/-- A step in which nothing happens that is noted. -/
theorem Aside.quiet (hstep : Step spans w [] w') (hstage : w'.stage = w.stage)
    (hinitiator : w'.initiator = w.initiator)
    (hphase : w'.system.collector.phase = w.system.collector.phase) : Aside spans w w' :=
  ⟨⟨[], hstep⟩, hstage, hinitiator, hphase⟩

theorem Aside.act (h : Aside spans w w') : Act spans w w' := by
  obtain ⟨events, hstep⟩ := h.step
  exact .step hstep h.phase h.stage.trans

theorem Asides.reached (h : Asides spans w w') : Reached spans w w' :=
  Relation.ReflTransGen.mono (fun _ _ => Aside.act) _ _ h

theorem Aside.table (h : Aside spans w w') : w'.table = w.table ∨ w'.table = { w.table with requested := false } ∨
    ∃ events, Store.Call spans w.system.store events w'.system.store := by
  obtain ⟨⟨events, hstep⟩, hstage, -, -⟩ := h
  generalize hevents : events.map Event.store = trace at hstep
  cases hstep with
  | call hcall => exact .inr (.inr ⟨_, hcall⟩)
  | close hclose => exact .inl (closeMutator_eq hclose).1
  | clearRequest _ => exact .inr (.inl rfl)
  | begin h | abort h | postpone h | sweep h _ _ | markOwn h _ => exact absurd (hstage.trans h) nofun
  | receive _ _ _ =>
    -- Nothing is said of reports among what callers do.
    cases events with
    | nil => cases hevents
    | cons event events =>
      have := (List.cons.inj hevents).1
      split at this <;> cases this
  | _ => exact .inl rfl

theorem Aside.spares (hs : w.table.Sound buckets 0) (h : Aside spans w w') : w.table.Spares w'.table := by
  obtain htable | htable | ⟨_, hcall⟩ := h.table
  · rw [htable]
    exact .refl _
  · rw [htable]
    exact .of_intact ⟨rfl, rfl⟩
  · exact hcall.spares hs

theorem Asides.stage (h : Asides spans w w') : w'.stage = w.stage := by
  induction h with
  | refl => rfl
  | tail _ haside ih => exact haside.stage.trans ih

theorem Asides.spares {heap : Heap} {config : Config} (hc : config.check = .ok ())
    (hw : Reached spans (.empty heap config) w) (h : Asides spans w w') : w.table.Spares w'.table := by
  induction h with
  | refl => exact .refl _
  | tail hasides haside ih =>
    have hreached := hw.trans (Asides.reached hasides)
    exact ih.trans (haside.spares (Reached.sound hc hreached))

/-! ## While a cycle waits -/

/-- What a cycle does itself while it waits: it reads the roots of the mutator that runs it, marks them, and takes
reports. -/
inductive Proceeds (w : World) : World → Prop
  | reads {w' : World} : ReadsOwn w w' → Proceeds w w'
  | marks {id : MutatorId} {atoms : List Atom} : w.stage = .asked atoms → w.initiator = some id →
      Proceeds w { w with system := w.system.markInitiator id atoms, stage := .awaiting }
  | marksNone : w.stage = .asked [] → w.initiator = none → Proceeds w { w with stage := .awaiting }
  | receives {w' : World} : Receives w w' → Proceeds w w'

/-- While a cycle waits there is nothing but asides and what it does itself. -/
theorem Step.aside_or_proceeds (h : Step spans w events w') (hbefore : w.stage.isWaiting = true)
    (hafter : w'.stage.isWaiting = true) (hphase : w'.system.collector.phase = w.system.collector.phase) :
    Aside spans w w' ∨ Proceeds w w' := by
  have hstep := h
  cases h with
  | call hcall => exact .inl ⟨⟨_, hstep⟩, rfl, rfl, rfl⟩
  | hold | release | lock | decline | rest | begin | number | publish | finish | timeOut | abort | postpone
  | sweep => cases hafter
  | snapshot hstage | clearRequest hstage =>
    rw [hstage] at hbefore
    cases hbefore
  | readOwn a hstage hinitiator => exact .inr (.reads ⟨_, _, a, hstage, hinitiator, rfl⟩)
  | markOwn hstage hinitiator => exact .inr (.marks hstage hinitiator)
  | markNone hstage hinitiator => exact .inr (.marksNone hstage hinitiator)
  | receive hstage hpending htake => exact .inr (.receives ⟨hstage, hpending, _, _, htake, rfl⟩)
  | _ => exact .inl (.quiet hstep rfl rfl hphase)

theorem Proceeds.act (h : Proceeds w w') : Act spans w w' := by
  cases h with
  | reads h =>
    obtain ⟨atoms, id, a, hstage, hinitiator, rfl⟩ := h
    exact .step (.readOwn a hstage hinitiator) rfl (by rw [hstage]; nofun)
  | marks hstage hinitiator => exact .step (.markOwn hstage hinitiator) rfl (by rw [hstage]; nofun)
  | marksNone hstage hinitiator => exact .step (.markNone hstage hinitiator) rfl (by rw [hstage]; nofun)
  | receives h =>
    obtain ⟨hstage, hpending, r, collector, htake, rfl⟩ := h
    obtain ⟨-, pending, hcollector⟩ := receive_frame { w.system with collector } r
    refine .step (.receive hstage hpending htake) ?_ id
    exact (congrArg (·.phase) hcollector).trans (congrArg (·.phase) (takeReport?_eq htake).2)

/-- The worlds are apart at most by what a cycle does that does not sweep. -/
structure Untouched (w w' : World) : Prop where
  system : w.system.Intact w'.system
  visits : w'.visits = w.visits

theorem Untouched.refl (w : World) : Untouched w w := ⟨.refl _, rfl⟩

theorem Untouched.trans (h : Untouched w w') (h' : Untouched w' w'') : Untouched w w'' :=
  ⟨h.system.trans h'.system, h'.visits.trans h.visits⟩

theorem Proceeds.untouched (h : Proceeds w w') : Untouched w w' := by
  cases h with
  | reads h =>
    obtain ⟨_, _, _, -, -, rfl⟩ := h
    exact ⟨.refl _, rfl⟩
  | @marks id atoms _ _ =>
    exact ⟨((System.Intact.refl _).onCollector (·.excuse id) fun _ => rfl).onTable _ fun t =>
      Table.applyMarks_intact t atoms, rfl⟩
  | marksNone => exact ⟨.refl _, rfl⟩
  | receives h =>
    obtain ⟨-, -, r, collector, htake, rfl⟩ := h
    have htaken := (System.Intact.refl w.system).onCollector ({ · with reports := collector.reports }) fun _ => rfl
    refine ⟨?_, rfl⟩
    rw [(takeReport?_eq htake).2]
    exact htaken.trans (System.receive_intact _ r)

/-- The course of a cycle while it waits, with the stretches of it in which others were at work. -/
inductive Course (spans : Span → Prop) (w : World) : List (World × World) → World → Prop
  | start : Course spans w [] w
  | proceed {between : List (World × World)} {w₁ w₂ : World} :
      Course spans w between w₁ → Proceeds w₁ w₂ → Course spans w between w₂
  | others {between : List (World × World)} {w₁ w₂ : World} :
      Course spans w between w₁ → w₁.stage.isWaiting = true → Asides spans w₁ w₂ →
      Course spans w (between ++ [(w₁, w₂)]) w₂

/-- All in which the worlds differ came about in some stretches between them, one after the other. Without any the
system is intact. -/
def Apart (w : World) : List (World × World) → World → Prop
  | [], w' => Untouched w w'
  | (w₁, w₂) :: between, w' => Untouched w w₁ ∧ Apart w₂ between w'

variable {between : List (World × World)}

theorem Apart.refl (w : World) : Apart w [] w := Untouched.refl w

theorem Apart.of_untouched (h' : Apart w' between w'') (h : Untouched w w') : Apart w between w'' := by
  cases between with
  | nil => exact Untouched.trans h h'
  | cons => exact ⟨h.trans h'.1, h'.2⟩

theorem Apart.untouched (h : Apart w between w') (h' : Untouched w' w'') : Apart w between w'' := by
  induction between generalizing w with
  | nil => exact Untouched.trans h h'
  | cons _ _ ih => exact ⟨h.1, ih h.2⟩

theorem Apart.others (h : Apart w between w') (w'' : World) : Apart w (between ++ [(w', w'')]) w'' := by
  induction between generalizing w with
  | nil => exact ⟨h, .refl _⟩
  | cons _ _ ih => exact ⟨h.1, ih h.2⟩

namespace Course

theorem proceeds (h : Course spans w between w') (h' : Relation.ReflTransGen Proceeds w' w'') :
    Course spans w between w'' := by
  induction h' with
  | refl => exact h
  | tail _ hproceeds ih => exact ih.proceed hproceeds

theorem reached (h : Course spans w between w') : Reached spans w w' := by
  induction h with
  | start => exact .refl
  | proceed _ hproceeds ih => exact ih.act hproceeds.act
  | others _ _ hasides ih => exact ih.trans hasides.reached

theorem apart (h : Course spans w between w') : Apart w between w' := by
  induction h with
  | start => exact .refl w
  | proceed _ hproceeds ih => exact ih.untouched hproceeds.untouched
  | others _ _ _ ih => exact ih.others _

theorem asides (h : Course spans w between w') : ∀ p ∈ between, Asides spans p.1 p.2 := by
  induction h with
  | start => exact fun p hp => absurd hp List.not_mem_nil
  | proceed _ _ ih => exact ih
  | others _ _ hasides ih =>
    intro p hp
    rcases List.mem_append.1 hp with hp | hp
    · exact ih p hp
    · rw [List.mem_singleton.1 hp]
      exact hasides

theorem spares {heap : Heap} {config : Config} (hc : config.check = .ok ())
    (hw : Reached spans (.empty heap config) w) (h : Course spans w between w') : w.table.Spares w'.table := by
  induction h with
  | start => exact .refl _
  | proceed _ hproceeds ih => exact ih.trans (.of_intact hproceeds.untouched.system.table)
  | others hcourse _ hasides ih => exact ih.trans (hasides.spares hc (hw.trans hcourse.reached))

end Course

end World

end AtomHeap
