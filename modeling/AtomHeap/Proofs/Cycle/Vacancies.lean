import AtomHeap.Proofs.Cycle.Soundness
import AtomHeap.Proofs.Store.Interning
import AtomHeap.Proofs.Table.Vacancies
/-!
# Where new atoms go

Cycles run only where collection is switched on, and nothing but their sweeps empties slots. So in every world that
a run leads to a new atom takes the lowest index, from the builtin boundary on, at which no atom is live, whether
collection is switched on or not. The slots are as many as the boundary and the live atoms from it on came to at
most (`new_atoms_lowest`).
-/

namespace AtomHeap

open Table (Fills TakesLowest)

/-! ## Steps of callers -/

namespace Store

variable {spans : Span → Prop} {s s' : Store} {buckets : Nat} {span : Span} {blob : BlobId} {events : List Event}

theorem Outcome.fills {r : Except AtomError Interned} (hs : s.table.Sound buckets 0) (hp : s.table.Compact)
    (h : Outcome s span blob r s') :
    Fills s.table s'.table ∧ ∀ i, r = .ok i → i.isNew = true → TakesLowest s.table i.atom s'.table := by
  cases h with
  | refused _ htable => exact ⟨htable ▸ .refl _, nofun⟩
  | found _ _ _ hreuse =>
    refine ⟨.of_steady (Table.reuse_amended hreuse) (Table.reuse_steady hreuse), ?_⟩
    rintro _ ⟨⟩ hnew
    cases hnew
  | made hw hi =>
    obtain ⟨htakes, hfills⟩ := hp.made hs hw hi
    refine ⟨hfills, ?_⟩
    rintro _ ⟨⟩ -
    exact htakes

theorem Call.fills (hs : s.table.Sound buckets 0) (hp : s.table.Compact) (h : Call spans s events s') :
    Fills s.table s'.table := by
  cases h with
  | intern _ hi | internRefused _ hi => exact ((internLocked_outcome hs hi).fills hs hp).1
  | lookup _ hl =>
    have htable := lookup_table hl
    exact .of_steady (Table.lookup_amended htable) (Table.lookup_steady htable)
  | register a => exact .of_steady (Table.register_amended _ a) (Table.register_steady _ a)
  | unregister a => exact .of_steady (Table.unregister_amended _ a) (Table.unregister_steady _ a)
  | registerBlob hr => exact .of_steady (Table.registerBlob_amended hr) (Table.registerBlob_steady hr)
  | unregisterBlob hu => exact .unregisterBlob hu
  | setFallback hook => exact .of_amended ⟨rfl, rfl, rfl, rfl, rfl, rfl, fun _ _ h => h⟩ rfl
  | lockAtoms => exact .lockAtoms hs.accounted.boundary
  | requestCollection =>
    refine .of_amended (Table.requestCollection_amended s.table) ?_
    show s.table.requestCollection.2.agcEnabled = _
    unfold Table.requestCollection
    split <;> rfl
  | other heap calls => exact .refl _

end Store

namespace World

variable {spans : Span → Prop} {w w' w₀ : World} {trace events : List Event} {config : Config} {heap : Heap}
  {buckets peak : Nat}

/-! ## Steps of a system -/

/-- There are empty slots, and cycles, only where collection is switched on. -/
structure Thrifty (w : World) : Prop where
  compact : w.table.Compact
  cycle : w.stage ≠ .idle → w.stage ≠ .held → w.table.agcEnabled = true

theorem Thrifty.fills (h : Thrifty w) (hs : w.table.Sound buckets 0) (hstep : Step spans w events w') :
    Fills w.table w'.table := by
  cases hstep with
  | call hcall => exact hcall.fills hs h.compact
  | @close _ system hclose =>
    have htable : system.store.table = w.table := (closeMutator_eq hclose).1
    unfold table at htable ⊢
    rw [htable]
    exact .refl _
  | clearRequest _ | begin _ | postpone _ => exact .of_amended ⟨rfl, rfl, rfl, rfl, rfl, rfl, fun _ _ h => h⟩ rfl
  | markOwn _ _ => exact .of_steady (Table.applyMarks_amended _ _) (Table.applyMarks_steady _ _)
  | @receive r collector _ _ _ =>
    by_cases hcurrent : r.epoch = collector.epoch
    · rw [receive_of_eq hcurrent]
      exact .of_steady (Table.applyMarks_amended _ _) (Table.applyMarks_steady _ _)
    · rw [receive_of_ne hcurrent]
      exact .refl _
  | abort _ => exact .of_amended (Table.abortMarking_amended _) rfl
  | sweep hstage _ hstore =>
    have hagc := h.cycle (by rw [hstage]; exact nofun) (by rw [hstage]; exact nofun)
    obtain ⟨_, hsweep, -⟩ := Store.sweep_table hstore
    exact .sweep hs hagc hsweep
  | _ => exact .refl _

/-- A cycle is on its way only if it was before, or collection is switched on. -/
theorem Step.cycle (h : Step spans w events w') (hidle : w'.stage ≠ .idle) (hheld : w'.stage ≠ .held) :
    (w.stage ≠ .idle ∧ w.stage ≠ .held) ∨ w.table.agcEnabled = true := by
  cases h with
  | lock _ _ _ hagc => exact .inr hagc
  | hold _ _ => exact absurd rfl hheld
  | release _ | decline _ | rest _ => exact absurd rfl hidle
  | begin hstage | number hstage | publish hstage | snapshot hstage | readOwn _ hstage _ | markOwn hstage _
  | markNone hstage _ | finish hstage _ | timeOut hstage _ | abort hstage | postpone hstage | sweep hstage _ _ =>
    rw [hstage]
    exact .inl ⟨nofun, nofun⟩
  | _ => exact .inl ⟨hidle, hheld⟩

theorem Thrifty.step (h : Thrifty w) (hs : w.table.Sound buckets 0) (hstep : Step spans w events w') :
    Thrifty w' := by
  have hfills := h.fills hs hstep
  refine ⟨hfills.compact h.compact, fun hidle hheld => ?_⟩
  rw [hfills.enabled]
  rcases hstep.cycle hidle hheld with ⟨hidle, hheld⟩ | hagc
  · exact h.cycle hidle hheld
  · exact hagc

theorem Run.thrifty (hc : config.check = .ok ()) (h : Run spans (.empty heap config) trace w) : Thrifty w := by
  induction h with
  | start => exact ⟨fun _ i _ => Nat.zero_le i, fun hidle => absurd rfl hidle⟩
  | step hrun hstep ih => exact ih.step (hrun.sound hc) hstep

/-! ## Peaks -/

/-- Runs with the most that the boundary and the live atoms from it on came to together on the way. -/
inductive PeakRun (spans : Span → Prop) (w₀ : World) : Nat → World → Prop
  | start : PeakRun spans w₀ w₀.table.occupied w₀
  | step {peak : Nat} {w w' : World} {events : List Event} :
      PeakRun spans w₀ peak w → Step spans w events w' → PeakRun spans w₀ (max peak w'.table.occupied) w'

theorem PeakRun.run (h : PeakRun spans w₀ peak w) : ∃ trace, Run spans w₀ trace w := by
  induction h with
  | start => exact ⟨_, .start⟩
  | step _ hstep ih =>
    obtain ⟨_, ih⟩ := ih
    exact ⟨_, ih.step hstep⟩

theorem PeakRun.intern {i : Interned} {store : Store} (h : PeakRun spans w₀ peak w) (span : Span)
    (hspan : spans span) (blob : BlobId) (hi : w.system.store.internLocked span false blob = .ok (.ok i, store)) :
    PeakRun spans w₀ (max peak store.table.occupied) { w with system := { w.system with store } } :=
  h.step (.call (.intern hspan hi))

/-- There are as many slots as were occupied at most. -/
theorem PeakRun.size_eq (hc : config.check = .ok ()) (h : PeakRun spans (.empty heap config) peak w) :
    w.table.slots.size = peak := by
  induction h with
  | start => rfl
  | @step peak w w' events hpeak hstep ih =>
    obtain ⟨_, hrun⟩ := hpeak.run
    have hs := hrun.sound hc
    have hboundary := (hs.changes (hstep.changes hs)).accounted.boundary
    have hle := Table.occupied_le hboundary
    rcases ((hrun.thrifty hc).fills hs hstep).size with hsame | ⟨-, hfull, hmore⟩
    · omega
    · have heq := hfull.occupied_eq hboundary
      omega

/-- In every world that a run leads to, whether collection is switched on or not: interning that makes an atom makes
it at the lowest index from the boundary on at which none is live. There is a slot more only if all from the boundary
on were in use. There are just as many slots as the boundary and the live atoms from it on came to at most. -/
theorem new_atoms_lowest (hc : config.check = .ok ()) (h : PeakRun spans (.empty heap config) peak w) :
    (∀ span lasting blob i, i.isNew = true →
      (∀ s, w.system.store.internLocked span lasting blob = .ok (.ok i, s) → TakesLowest w.table i.atom s.table) ∧
      ∀ s', w.system.store.internSpan span lasting blob = .ok (.ok i, s') →
        ∃ s, w.system.store.internLocked span lasting blob = .ok (.ok i, s) ∧ TakesLowest w.table i.atom s.table) ∧
    (∀ events w', Step spans w events w' → w.table.slots.size < w'.table.slots.size → w.table.Full) ∧
    w.table.slots.size = peak := by
  obtain ⟨trace, hrun⟩ := h.run
  have hs := hrun.sound hc
  have ht := hrun.thrifty hc
  refine ⟨?_, ?_, h.size_eq hc⟩
  · intro span lasting blob i hnew
    have htakes : ∀ s, w.system.store.internLocked span lasting blob = .ok (.ok i, s) →
        TakesLowest w.table i.atom s.table := fun s hi =>
      ((Store.internLocked_outcome hs hi).fills hs ht.compact).2 i rfl hnew
    refine ⟨htakes, fun s' hi => ?_⟩
    obtain ⟨s, hi⟩ := Store.internSpan_answer hi
    exact ⟨s, hi, htakes s hi⟩
  · intro events w' hstep hmore
    rcases (ht.fills hs hstep).size with hsame | ⟨hfull, -, -⟩
    · omega
    · exact hfull

/-- Of two atoms behind a builtin the first is swept, and the empty text comes in its place. -/
theorem new_atoms_lowest_swept :
    ∃ peak w i s, PeakRun (fun _ => True) (.empty (.empty ⟨32, 64, 2⟩ fun _ _ => true) { atomBuckets := 1 }) peak w ∧
      w.system.store.internLocked { bytes := [] } false BlobId.text = .ok (.ok i, s) ∧ i.atom.index = 1 ∧
      w.table.slots.size = 3 ∧ w.table.builtin = 1 ∧ w.table.count = 2 := by
  have none := @PeakRun.start (fun _ => True) (.empty (.empty ⟨32, 64, 2⟩ fun _ _ => true) { atomBuckets := 1 })
  have first := none.intern { bytes := [97] } trivial BlobId.text
    (Store.internLocked_of_insert rfl rfl rfl rfl (Table.insert_of_no_holes rfl rfl rfl rfl rfl) rfl)
  have locked := first.step (.call .lockAtoms)
  have second := locked.intern { bytes := [98] } trivial BlobId.text
    (Store.internLocked_of_insert rfl rfl rfl rfl (Table.insert_of_no_holes rfl rfl rfl rfl rfl) rfl)
  have third := second.intern { bytes := [99] } trivial BlobId.text
    (Store.internLocked_of_insert rfl rfl rfl rfl (Table.insert_of_no_holes rfl rfl rfl rfl rfl) rfl)
  have dropped := third.step (.call (.unregister ⟨1, 0⟩))
  have begun := (dropped.step (.lock .none rfl rfl rfl)).step (.begin rfl)
  have asked := ((begun.step (.number rfl)).step (.publish rfl)).step (.snapshot rfl)
  have complete := (asked.step (.markNone rfl rfl)).step (.finish rfl rfl)
  have swept := complete.step (.sweep rfl rfl rfl)
  obtain ⟨_, hrun⟩ := swept.run
  obtain ⟨i, store, hintern, hnew⟩ := @Store.makes_of_none _ { bytes := [] } false BlobId.text _ _ (hrun.sound rfl)
    rfl rfl rfl _ _ rfl ⟨by decide, by decide⟩ (by decide)
  obtain ⟨hlowest, -, hpeak⟩ := new_atoms_lowest rfl swept
  obtain ⟨n, s, hleast, -, -, hatom, -⟩ := (hlowest _ _ _ _ hnew).1 _ hintern
  obtain rfl : n = 1 := Nat.le_antisymm (hleast.2 ⟨Nat.le_refl _, rfl⟩) hleast.1.1
  exact ⟨_, _, _, _, swept, hintern, congrArg (·.index) hatom, hpeak, rfl, rfl⟩

end World

end AtomHeap
