import AtomHeap.Proofs.Cycle.Epochs
import AtomHeap.Proofs.Store.Marks
/-!
# What a cycle must not destroy

The invariant `Marked`: while a cycle marks, what was touched since it began is black, and so are the
live atoms among its roots.
-/

namespace AtomHeap.World

variable {spans : Span → Prop} {w w' : World} {trace events : List Event} {buckets : Nat} {r : Report}

/-- The roots of a report were marked. -/
def Rooted (trace : List Event) (r : Report) : Prop := .initiated r ∈ trace ∨ .applied r ∈ trace

theorem Rooted.of_append (h : Rooted (events ++ trace) r) : Rooted events r ∨ Rooted trace r := by
  rcases h with h | h
  · exact (List.mem_append.1 h).imp .inl .inl
  · exact (List.mem_append.1 h).imp .inr .inr

/-- What a cycle must not destroy is black while it marks. -/
structure Marked (trace : List Event) (w : World) : Prop where
  marking : w.stage.isMarking = true → w.table.marking = true
  touched : w.stage.isMarking = true → ∀ event, .store event ∈ sinceBegan trace → w.table.Black event.atom
  rooted : w.stage.isNumbered = true → ∀ r, Rooted trace r → r.epoch = w.epoch → ∀ a ∈ r.atoms, ∀ e,
    w.table.entry a = .ok e → w.table.Black a

theorem marked_of_not (h : w.stage.isMarking = false) (trace : List Event) : Marked trace w where
  marking hm := by
    rw [h] at hm
    cases hm
  touched hm := by
    rw [h] at hm
    cases hm
  rooted hn := by
    rw [Stage.isMarking_of_isNumbered hn] at h
    cases h

theorem applyMarks_rooted {t : Table} (hm : t.marking = true) {atoms : List Atom} {a : Atom} {e : Entry}
    (ha : a ∈ atoms)
    (he : (t.applyMarks atoms).entry a = .ok e) : (t.applyMarks atoms).Black a := by
  rcases (Table.applyMarks_keeps t atoms).born hm a e he with ⟨e₀, he₀⟩ | hblack
  · exact Table.applyMarks_black ha he₀
  · exact hblack

namespace Marked

/-- What is black stays so, what is touched becomes black, and so do the roots that are marked. -/
theorem keep (h : Marked trace w) (hmarking : w'.stage.isMarking = true → w.stage.isMarking = true)
    (hnumbered : w'.stage.isNumbered = true → w.stage.isNumbered = true) (hepoch : w'.epoch = w.epoch)
    (hkeeps : w.table.Keeps w'.table) (hbegan : .began ∉ events)
    (htouched : w.table.marking = true → ∀ event, .store event ∈ events → w'.table.Black event.atom)
    (hrooted : w.table.marking = true → ∀ r, Rooted events r → ∀ a ∈ r.atoms, ∀ e,
      w'.table.entry a = .ok e → w'.table.Black a) : Marked (events ++ trace) w' where
  marking hm := hkeeps.marking.trans (h.marking (hmarking hm))
  touched hm event hevent := by
    rw [sinceBegan_append hbegan] at hevent
    rcases List.mem_append.1 hevent with hevent | hevent
    · exact htouched (h.marking (hmarking hm)) event hevent
    · exact hkeeps.black (h.touched (hmarking hm) event hevent)
  rooted hn r hr hrepoch a ha e he := by
    have hm := h.marking (Stage.isMarking_of_isNumbered (hnumbered hn))
    rcases hr.of_append with hr | hr
    · exact hrooted hm r hr a ha e he
    · -- A root that was alive is black already, and one that came to life is born black.
      rcases hkeeps.born hm a e he with ⟨e₀, he₀⟩ | hblack
      · exact hkeeps.black (h.rooted (hnumbered hn) r hr (hrepoch.trans hepoch) a ha e₀ he₀)
      · exact hblack

theorem quiet (h : Marked trace w) (hmarking : w'.stage.isMarking = true → w.stage.isMarking = true)
    (hnumbered : w'.stage.isNumbered = true → w.stage.isNumbered = true) (hepoch : w'.epoch = w.epoch)
    (htable : w'.table = w.table) : Marked ([] ++ trace) w' := by
  refine h.keep hmarking hnumbered hepoch (htable ▸ .refl _) nofun nofun ?_
  intro _ r hr
  rcases hr with hr | hr <;> cases hr

theorem applied (h : Marked trace w) (hmarking : w'.stage.isMarking = true → w.stage.isMarking = true)
    (hnumbered : w'.stage.isNumbered = true → w.stage.isNumbered = true) (hepoch : w'.epoch = w.epoch)
    {r : Report}
    (htable : w'.table = w.table.applyMarks r.atoms) {event : Event}
    (hevent : event = .initiated r ∨ event = .applied r) :
    Marked ([event] ++ trace) w' := by
  have hsame : ∀ r', Rooted [event] r' → r' = r := by
    intro r' hr'
    rcases hevent with rfl | rfl <;> rcases hr' with hr' | hr' <;> cases List.mem_singleton.1 hr' <;> rfl
  refine h.keep hmarking hnumbered hepoch (htable ▸ Table.applyMarks_keeps _ _) ?_ ?_ ?_
  · rcases hevent with rfl | rfl <;> simp
  · intro _ event' hevent'
    rcases hevent with rfl | rfl <;> cases List.mem_singleton.1 hevent'
  · intro hm r' hr' a ha e he
    obtain rfl := hsame r' hr'
    rw [htable] at he ⊢
    exact applyMarks_rooted hm ha he

theorem ignored (h : Marked trace w) (r : Report) (hstage : w'.stage = w.stage) (hepoch : w'.epoch = w.epoch)
    (htable : w'.table = w.table) : Marked ([.ignored r] ++ trace) w' := by
  refine h.keep (by rw [hstage]; exact id) (by rw [hstage]; exact id) hepoch
    (htable ▸ .refl _) (by simp) (fun _ event hevent => ?_) fun _ r' hr' => ?_
  · cases List.mem_singleton.1 hevent
  · rcases hr' with hr' | hr' <;> cases List.mem_singleton.1 hr'

theorem step (h : Marked trace w) (hst : Stamped trace w) (hs : w.table.Sound buckets 0)
    (hsize : w'.table.slots.size ≤ UInt32.size) (hstep : Step spans w events w') :
    Marked (events ++ trace) w' := by
  cases hstep with
  | call hcall =>
    refine h.keep id id rfl (hcall.keeps hs) (by simp) ?_ ?_
    · intro hm event hevent
      obtain ⟨event', hevent', heq⟩ := List.mem_map.1 hevent
      cases heq
      exact hcall.black hs hsize hm event hevent'
    · intro _ r hr
      rcases hr with hr | hr
      all_goals
        obtain ⟨_, -, heq⟩ := List.mem_map.1 hr
        cases heq
  | close hclose =>
    obtain ⟨htable, hcollector⟩ := closeMutator_eq hclose
    exact h.quiet id id (congrArg (·.epoch) hcollector) htable
  | @display collector _ hcore => exact h.quiet id id (congrArg (·.epoch) hcore : collector.epoch = _) rfl
  | hold _ _ => exact marked_of_not rfl trace
  | release _ => exact marked_of_not rfl trace
  | lock _ _ _ _ => exact marked_of_not rfl trace
  | clearRequest hstage =>
    refine marked_of_not ?_ trace
    dsimp only
    rw [hstage]
    rfl
  | decline _ => exact marked_of_not rfl trace
  | rest _ => exact marked_of_not rfl trace
  | timeOut _ _ => exact marked_of_not rfl trace
  | abort _ => exact marked_of_not rfl trace
  | postpone _ => exact marked_of_not rfl trace
  | sweep _ _ _ => exact marked_of_not rfl _
  | begin hstage =>
    -- Nothing was touched yet.
    refine ⟨fun _ => rfl, fun _ event hevent => ?_, nofun⟩
    cases hevent
  | number hstage =>
    -- No report has the new epoch yet.
    have hmarking : w.stage.isMarking = true := by
      rw [hstage]
      rfl
    refine ⟨fun _ => h.marking hmarking, fun _ => h.touched hmarking, fun _ r hr hepoch => ?_⟩
    have hle : r.epoch ≤ w.epoch := by
      rcases hr with hr | hr
      · exact hst.trace _ hr _ rfl
      · exact hst.trace _ hr _ rfl
    exact absurd (hepoch ▸ hle) (Nat.not_succ_le_self _)
  | publish hstage => exact h.quiet (by rw [hstage]; exact id) (by rw [hstage]; exact id) rfl rfl
  | snapshot hstage =>
    refine h.keep (by rw [hstage]; exact id) (by rw [hstage]; exact id) rfl (.refl _) (by simp)
      (fun _ event hevent => ?_) fun _ r hr => ?_
    · cases List.mem_singleton.1 hevent
    · rcases hr with hr | hr <;> cases List.mem_singleton.1 hr
  | readOwn a hstage _ => exact h.quiet (by rw [hstage]; exact id) (by rw [hstage]; exact id) rfl rfl
  | markOwn hstage _ =>
    refine h.applied ?_ ?_ ?_ ?_ (.inl rfl)
    · rw [hstage]
      exact id
    · rw [hstage]
      exact id
    · rfl
    · rfl
  | markNone hstage _ => exact h.quiet (by rw [hstage]; exact id) (by rw [hstage]; exact id) rfl rfl
  | @receive r collector hstage _ htake =>
    have hepoch : collector.epoch = w.epoch := by
      rw [(takeReport?_eq htake).2]
      rfl
    by_cases hcurrent : r.epoch = w.epoch
    · rw [if_pos hcurrent, receive_of_eq (hcurrent.trans hepoch.symm)]
      refine h.applied ?_ ?_ ?_ ?_ (.inr rfl)
      · exact id
      · exact id
      · exact hepoch
      · rfl
    · rw [if_neg hcurrent, receive_of_ne fun heq => hcurrent (heq.trans hepoch)]
      refine h.ignored r ?_ ?_ ?_
      · rfl
      · exact hepoch
      · rfl
  | finish hstage _ => exact h.quiet (by rw [hstage]; exact id) (by rw [hstage]; exact id) rfl rfl
  | _ => exact h.quiet id id rfl rfl

end Marked

end AtomHeap.World
