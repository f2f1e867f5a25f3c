import AtomHeap.Proofs.Table.Sweep
/-!
# The effect of a sweep

`Table.questions t n` are the questions that a sweep of `t` puts about the atoms in the slots below `n`,
read off `t` itself. After the loop of the sweep has visited these slots (`Table.SweptBelow`), these and no
others were put, the atoms condemned by the answers are gone, and all other atoms are as they were but for
marks.
-/

namespace AtomHeap.Table

/-- The questions that a sweep puts about the atoms in the slots below `n`. -/
def questions (t : Table) : Nat → List ReleaseCall
  | 0 => []
  | n + 1 => t.questions n ++ ((t.question? n).map fun (a, d) => (d.later (t.questions n)).call 0 a).toList

/-- The question that a sweep puts about the atom in a slot. -/
def verdict? (t : Table) (i : Nat) : Option ReleaseCall :=
  (t.question? i).map fun (a, d) => (d.later (t.questions i)).call 0 a

/-- Whether the atom in a slot is to go. -/
def condemned (t : Table) (i : Nat) : Bool := (t.verdict? i).any (·.answer)

/-- The block of the atom in a slot, if the atom is to go. -/
def forfeit? (t : Table) (i : Nat) : Option (Address × Nat) :=
  if t.condemned i then (t.entryAt? i).bind (·.payload.block?) else none

/-- A slot, apart from the place of its entry on a chain, after the slots below `n` were visited. -/
def visit (t : Table) (n i : Nat) (s : Slot) : Slot :=
  if n ≤ i ∨ i < t.builtin then s.bare else if t.condemned i then s.emptied else s.spared

/-- The one table is the other after the sweep has visited the slots below `n`. -/
structure SweptBelow (t : Table) (n : Nat) (swept : Swept) (t' : Table) : Prop where
  calls : swept.calls.toList = t.questions n
  destroyed : swept.destroyed.toList = ((t.questions n).filter (·.answer)).map (·.atom)
  freed : swept.freed.toList = (List.range n).filterMap t.forfeit?
  slots : ∀ i, t'.slots[i]?.map Slot.bare = t.slots[i]?.map (t.visit n i)
  size : t'.slots.size = t.slots.size
  count : t'.count + swept.destroyed.size = t.count
  types : t'.blobs.get? = t.blobs.get?
  deciders : ∀ blob, t'.decider? blob = (t.decider? blob).map (·.later (t.questions n))
  rest : t' = { t with
    slots := t'.slots, chains := t'.chains, holes := t'.holes, count := t'.count, bytes := t'.bytes
    blobs := t'.blobs, fallback := t'.fallback }

variable {t t' t₁ t₂ : Table} {buckets n i k : Nat} {e : Entry} {s s' : Slot} {a : Atom} {d : Decider}
  {swept swept' : Swept} {c : ReleaseCall}

theorem questions_succ (t : Table) (n : Nat) : t.questions (n + 1) = t.questions n ++ (t.verdict? n).toList := rfl

theorem questions_eq (t : Table) (n : Nat) : t.questions n = (List.range n).filterMap t.verdict? := by
  induction n with
  | zero => rfl
  | succ n ih =>
    rw [questions_succ, ih, List.range_succ, List.filterMap_append]
    cases h : t.verdict? n <;> simp [h]

theorem question?_of_lt (h : i < t.builtin) : t.question? i = none := by
  cases hq : t.question? i with
  | none => rfl
  | some p =>
    obtain ⟨_, _, -, -, hle, -⟩ := question?_eq_some_iff.1 hq
    omega

theorem questions_of_le (h : n ≤ t.builtin) : t.questions n = [] := by
  induction n with
  | zero => rfl
  | succ n ih =>
    rw [questions_succ, ih (Nat.le_of_succ_le h)]
    unfold verdict?
    rw [question?_of_lt h]
    rfl

theorem condemned_of_lt (h : i < t.builtin) : t.condemned i = false := by
  unfold condemned verdict?
  rw [question?_of_lt h]
  rfl

/-! ## Visits, apart from links -/

theorem Slot.spared_bare (s : Slot) : s.bare.spared = s.spared := by
  obtain ⟨g, e⟩ := s
  cases e <;> rfl

theorem map_spared_of_bare {o o' : Option Slot} (h : o'.map Slot.bare = o.map Slot.bare) :
    o'.map Slot.spared = o.map Slot.spared := by
  have := congrArg (Option.map Slot.spared) h
  rw [Option.map_map, Option.map_map] at this
  have hcomp : Slot.spared ∘ Slot.bare = Slot.spared := funext Slot.spared_bare
  rwa [hcomp] at this

/-- A slot that was not visited yet is as it was at first. -/
theorem SweptBelow.current (h : SweptBelow t n swept t') : t'.slots[n]?.map Slot.bare = t.slots[n]?.map Slot.bare := by
  rw [h.slots]
  have : t.visit n n = Slot.bare := by
    funext s
    unfold visit
    rw [if_pos (.inl (Nat.le_refl n))]
  rw [this]

/-- So the question about it is the one that could be foreseen. -/
theorem SweptBelow.question (h : SweptBelow t n swept t') :
    t'.question? n = (t.question? n).map fun (a, d) => (a, d.later (t.questions n)) := by
  have hcurrent := h.current
  have hbuiltin : t'.builtin = t.builtin := by rw [h.rest]
  unfold question?
  rw [hbuiltin]
  cases hs : t.slots[n]? with
  | none =>
    rw [hs, Option.map_none, Option.map_eq_none_iff] at hcurrent
    rw [hcurrent]
    rfl
  | some s =>
    rw [hs, Option.map_some, Option.map_eq_some_iff] at hcurrent
    obtain ⟨s', hs', hbare⟩ := hcurrent
    rw [hs']
    have hgeneration : s'.generation = s.generation := congrArg (·.generation) hbare
    have hentry := congrArg (·.entry) hbare
    simp only [Slot.bare] at hentry
    cases he : s.entry with
    | none =>
      rw [he, Option.map_none, Option.map_eq_none_iff] at hentry
      simp [he, hentry]
    | some e =>
      rw [he, Option.map_some, Option.map_eq_some_iff] at hentry
      obtain ⟨e', he', hbare'⟩ := hentry
      have hrefs : e'.refs = e.refs := congrArg (·.refs) hbare'
      have hmarked : e'.marked = e.marked := congrArg (·.marked) hbare'
      have hblob : e'.blob = e.blob := congrArg (·.blob) hbare'
      simp only [bind, Option.bind_some, he', hrefs, hmarked, hblob, he, h.deciders]
      split
      · rw [Option.map_map, Option.map_map]
        unfold Slot.atom
        rw [hgeneration]
        rfl
      · rfl

theorem visit_of_ne (h : i ≠ n) : t.visit (n + 1) i = t.visit n i := by
  funext s
  unfold visit
  have hiff : n + 1 ≤ i ↔ n ≤ i := by omega
  simp only [hiff]

theorem visit_self (h : t.builtin ≤ n) :
    t.visit (n + 1) n = if t.condemned n then Slot.emptied else Slot.spared := by
  funext s
  unfold visit
  rw [if_neg (by omega)]
  split <;> rfl

theorem get?_noted (t : Table) (asked : Option (BlobId × String)) : (t.noted asked).blobs.get? = t.blobs.get? := by
  cases asked with
  | none => rfl
  | some asked =>
    funext id
    unfold noted BlobRegistry.get?
    rw [Array.getElem?_modify]
    split
    · rw [Option.map_map]
      rfl
    · rfl

theorem noted_rest (t : Table) (asked : Option (BlobId × String)) :
    t.noted asked = { t with blobs := (t.noted asked).blobs, fallback := (t.noted asked).fallback } := by
  cases asked <;> rfl

/-- A visit that leaves the other slots alone, and the slot as the answer demands, is as foreseen. -/
theorem SweptBelow.slots_step (h : SweptBelow t n swept t₁) (hle : t.builtin ≤ n)
    (hself : t₂.slots[n]?.map Slot.bare = t₁.slots[n]?.map (if t.condemned n then Slot.emptied else Slot.spared))
    (hothers : ∀ i ≠ n, t₂.slots[i]?.map Slot.bare = t₁.slots[i]?.map Slot.bare) (i : Nat) :
    t₂.slots[i]?.map Slot.bare = t.slots[i]?.map (t.visit (n + 1) i) := by
  by_cases hi : i = n
  · subst hi
    rw [visit_self hle, hself]
    split
    · have := congrArg (Option.map Slot.emptied) h.current
      rw [Option.map_map, Option.map_map] at this
      exact this
    · exact map_spared_of_bare h.current
  · rw [hothers i hi, visit_of_ne hi, h.slots]

theorem SweptBelow.verdict (h : SweptBelow t n swept t₁) (hquestion : t₁.question? n = some (a, d)) :
    t.verdict? n = some (d.call 0 a) := by
  rw [h.question, Option.map_eq_some_iff] at hquestion
  obtain ⟨⟨a', d'⟩, hquestion, heq⟩ := hquestion
  cases heq
  unfold verdict?
  rw [hquestion]
  rfl

theorem SweptBelow.no_verdict (h : SweptBelow t n swept t₁) (hquestion : t₁.question? n = none) :
    t.verdict? n = none := by
  rw [h.question, Option.map_eq_none_iff] at hquestion
  unfold verdict?
  rw [hquestion]
  rfl

theorem questions_of_verdict (h : t.verdict? n = some c) : t.questions (n + 1) = t.questions n ++ [c] := by
  rw [questions_succ, h]
  rfl

theorem questions_of_no_verdict (h : t.verdict? n = none) : t.questions (n + 1) = t.questions n := by
  rw [questions_succ, h]
  exact List.append_nil _

theorem condemned_of_verdict (h : t.verdict? n = some c) : t.condemned n = c.answer := by
  unfold condemned
  rw [h]
  rfl

theorem condemned_of_no_verdict (h : t.verdict? n = none) : t.condemned n = false := by
  unfold condemned
  rw [h]
  rfl

/-- An atom that stays keeps its block. -/
theorem freed_of_kept (h : t.condemned n = false) :
    (List.range (n + 1)).filterMap t.forfeit? = (List.range n).filterMap t.forfeit? := by
  simp [List.range_succ, List.filterMap_append, forfeit?, h]

theorem SweptBelow.freed_of_condemned (h : SweptBelow t n swept t₁) (hcondemned : t.condemned n = true)
    (he : t₁.entryAt? n = some e) :
    (List.range (n + 1)).filterMap t.forfeit? = (List.range n).filterMap t.forfeit? ++ e.payload.block?.toList := by
  obtain ⟨e₀, he₀, hbare⟩ := of_bare_slot h.current he
  have hpayload : e₀.payload = e.payload := congrArg (·.payload) hbare
  have hforfeit : t.forfeit? n = e.payload.block? := by
    unfold forfeit?
    rw [hcondemned, he₀, ← hpayload]
    rfl
  rw [List.range_succ, List.filterMap_append, List.filterMap_cons, hforfeit]
  cases e.payload.block? <;> rfl

/-- Hooks count the questions put to them. -/
theorem SweptBelow.deciders_noted (h : SweptBelow t n swept t₁) (hquestion : t₁.question? n = some (a, d))
    (blob : BlobId) :
    (t₁.noted d.asked).decider? blob = (t.decider? blob).map (·.later (t.questions (n + 1))) := by
  obtain ⟨_, e, -, -, -, -, -, hd, -⟩ := question?_eq_some_iff.1 hquestion
  rw [decider?_noted hd a, h.deciders, Option.map_map, questions_of_verdict (h.verdict hquestion)]
  apply congrArg (Option.map · _)
  funext d'
  exact d'.later_append _ _

/-- No question is put about an atom that is held or marked. -/
theorem SweptBelow.passed (h : SweptBelow t n swept t₁) (hle : t.builtin ≤ n) (hquestion : t₁.question? n = none)
    (hp : Passed t₁ n t₂) : SweptBelow t (n + 1) swept t₂ := by
  have hnone := h.no_verdict hquestion
  have hcondemned := condemned_of_no_verdict hnone
  have hquestions := questions_of_no_verdict hnone
  constructor
  case calls => rw [hquestions, h.calls]
  case destroyed => rw [hquestions, h.destroyed]
  case freed => rw [freed_of_kept hcondemned, h.freed]
  case slots =>
    refine h.slots_step hle ?_ fun i hi => by rw [hp.others i hi]
    rw [hcondemned]
    exact hp.slot
  case size => rw [hp.amended.size, h.size]
  case count => rw [hp.amended.count, h.count]
  case types => rw [hp.rest, h.types]
  case deciders =>
    intro blob
    rw [hquestions, ← h.deciders, hp.rest]
    rfl
  case rest => rw [hp.rest, h.rest]

/-- The hook wants the atom kept. -/
theorem SweptBelow.kept (h : SweptBelow t n swept t₁) (hle : t.builtin ≤ n)
    (hquestion : t₁.question? n = some (a, d)) (hanswer : (d.call 0 a).answer = false) :
    SweptBelow t (n + 1) (swept.ask (d.call 0 a)) (t₁.noted d.asked) := by
  have hverdict := h.verdict hquestion
  have hcondemned := (condemned_of_verdict hverdict).trans hanswer
  have hquestions := questions_of_verdict hverdict
  constructor
  case calls =>
    rw [hquestions, ← h.calls]
    simp [Swept.ask]
  case destroyed =>
    rw [hquestions, List.filter_append, List.map_append, ← h.destroyed]
    simp [Swept.ask, hanswer]
  case freed => exact h.freed.trans (freed_of_kept hcondemned).symm
  case slots =>
    refine h.slots_step hle ?_ fun i _ => by rw [slots_noted]
    -- The atom had no mark, or there would have been no question.
    obtain ⟨s, e, hs, hse, -, -, hmarked, -, -⟩ := question?_eq_some_iff.1 hquestion
    rw [slots_noted, hcondemned, hs]
    simp [Slot.bare, Slot.spared, hse, Entry.bare, hmarked]
  case size => rw [slots_noted, h.size]
  case count =>
    rw [(noted_amended _ _).count, ← h.count]
    rfl
  case types => rw [get?_noted, h.types]
  case deciders => exact h.deciders_noted hquestion
  case rest => rw [noted_rest, h.rest]

/-- The hook lets the atom go. -/
theorem SweptBelow.dropped (h : SweptBelow t n swept t₁) (hs : t₁.Sound buckets 0) (hle : t.builtin ≤ n)
    (hquestion : t₁.question? n = some (a, d)) (hanswer : (d.call 0 a).answer = true)
    (he : t₁.entryAt? n = some e) (hd : (t₁.noted d.asked).destroy n = .ok (e.payload.block?, t₂)) :
    SweptBelow t (n + 1) ((swept.ask (d.call 0 a)).destroy a e.payload.block?) t₂ := by
  have hverdict := h.verdict hquestion
  have hcondemned := (condemned_of_verdict hverdict).trans hanswer
  have hquestions := questions_of_verdict hverdict
  obtain ⟨-, -, hdestroyed⟩ := hs.destroyed_noted hquestion he hd
  obtain ⟨hcount, -⟩ := hs.accounted.figures he
  constructor
  case calls =>
    rw [hquestions, ← h.calls]
    simp [Swept.ask, Swept.destroy]
  case destroyed =>
    rw [hquestions, List.filter_append, List.map_append, ← h.destroyed]
    simp [Swept.ask, Swept.destroy, hanswer]
    rfl
  case freed =>
    rw [h.freed_of_condemned hcondemned he, ← h.freed]
    simp [Swept.ask, Swept.destroy]
  case slots =>
    refine h.slots_step hle ?_ fun i hi => ?_
    · rw [hdestroyed.slot, hcondemned, slots_noted, Option.map_map]
      rfl
    · rw [hdestroyed.others i hi, slots_noted]
  case size => rw [hdestroyed.size, slots_noted, h.size]
  case count =>
    have hsize : ((swept.ask (d.call 0 a)).destroy a e.payload.block?).destroyed.size =
        swept.destroyed.size + 1 := by simp [Swept.ask, Swept.destroy]
    have hless : t₂.count = t₁.count - 1 := by
      rw [hdestroyed.rest, (noted_amended t₁ d.asked).count]
    rw [hsize, hless, ← h.count]
    omega
  case types => rw [hdestroyed.rest, get?_noted, h.types]
  case deciders =>
    intro blob
    rw [← h.deciders_noted hquestion, hdestroyed.rest]
    rfl
  case rest => rw [hdestroyed.rest, noted_rest, h.rest]

/-- One more slot is visited. -/
theorem SweptBelow.step (h : SweptBelow t n swept t₁) (hs : t₁.Sound buckets 0) (hle : t.builtin ≤ n)
    (hv : Visited t₁ n swept swept' t₂) : SweptBelow t (n + 1) swept' t₂ := by
  cases hv with
  | passed hquestion hp => exact h.passed hle hquestion hp
  | spared hquestion hanswer => exact h.kept hle hquestion hanswer
  | destroyed hquestion hanswer he hd => exact h.dropped hs hle hquestion hanswer he hd

/-! ## The loop -/

/-- Before the first visit nothing is different. -/
theorem sweptBelow_builtin (t : Table) : SweptBelow t t.builtin {} t where
  calls := (questions_of_le (Nat.le_refl _)).symm
  destroyed := by
    rw [questions_of_le (Nat.le_refl _)]
    rfl
  freed := by
    symm
    rw [Array.toList_empty, List.filterMap_eq_nil_iff]
    intro i hi
    unfold forfeit?
    rw [condemned_of_lt (List.mem_range.1 hi)]
    rfl
  slots i := by
    have : t.visit t.builtin i = Slot.bare := by
      funext s
      unfold visit
      rw [if_pos (Nat.lt_or_ge i _).symm]
    rw [this]
  size := rfl
  count := rfl
  types := rfl
  deciders blob := by
    rw [questions_of_le (Nat.le_refl _)]
    exact Option.map_id'.symm
  rest := rfl

/-- The loop visits one slot after the other. -/
theorem SweptBelow.loop (h : SweptBelow t n swept t₁) (hs : t₁.Sound buckets 0) (hle : t.builtin ≤ n)
    (hk : n + k ≤ t.slots.size) :
    ∃ swept' t', t₁.sweepSlots swept (List.range' n k) = .ok (swept', t') ∧ SweptBelow t (n + k) swept' t' := by
  induction k generalizing n swept t₁ with
  | zero => exact ⟨swept, t₁, rfl, h⟩
  | succ k ih =>
    have hbuiltin : t₁.builtin = t.builtin := by rw [h.rest]
    obtain ⟨swept₂, t₂, hslot, hv⟩ := hs.visit (hbuiltin ▸ hle) (by rw [h.size]; omega) swept
    obtain ⟨gone, hswept, -⟩ := hv.swept hs fun _ => True
    obtain ⟨swept', t', hslots, h'⟩ := ih (h.step hs hle hv) (hs.changes hswept.changes) (Nat.le_succ_of_le hle)
      (by omega)
    refine ⟨swept', t', ?_, ?_⟩
    · rw [List.range'_succ]
      unfold Table.sweepSlots
      rw [hslot]
      exact hslots
    · rwa [Nat.add_right_comm, Nat.add_assoc] at h'

/-- A sweep that is over has visited every slot above the boundary. -/
theorem SweptBelow.slot (h : SweptBelow t t.slots.size swept t') (hs : t.slots[i]? = some s) :
    ∃ s', t'.slots[i]? = some s' ∧
      s'.bare = if i < t.builtin then s.bare else if t.condemned i then s.emptied else s.spared := by
  have hslot := h.slots i
  rw [hs, Option.map_some, Option.map_eq_some_iff] at hslot
  obtain ⟨s', hs', hbare⟩ := hslot
  refine ⟨s', hs', hbare.trans ?_⟩
  have hlt := (Array.getElem?_eq_some_iff.1 hs).1
  unfold visit
  simp only [Nat.not_le.2 hlt, false_or]

/-- It emptied the slots that were to be, and did no more than take marks back elsewhere. -/
theorem SweptBelow.slot_cases (h : SweptBelow t t.slots.size swept t') (hs : t.slots[i]? = some s) :
    ∃ s', t'.slots[i]? = some s' ∧ ((t.condemned i = true ∧ s'.bare = s.emptied) ∨
      (t.condemned i = false ∧ (s'.bare = s.bare ∨ s'.bare = s.spared))) := by
  obtain ⟨s', hs', hbare⟩ := h.slot hs
  refine ⟨s', hs', ?_⟩
  by_cases hlt : i < t.builtin
  · rw [if_pos hlt] at hbare
    exact .inr ⟨condemned_of_lt hlt, .inl hbare⟩
  · rw [if_neg hlt] at hbare
    cases hcondemned : t.condemned i with
    | true => exact .inl ⟨rfl, hbare.trans (if_pos hcondemned)⟩
    | false => exact .inr ⟨rfl, .inr (hbare.trans (if_neg (Bool.eq_false_iff.1 hcondemned)))⟩

/-- A sweep ends, with the effect that could be foreseen. -/
theorem Sound.sweep_below (h : t.Sound buckets 0) :
    ∃ swept t', t.sweep = .ok (swept, { t' with marking := false, nonGarbage := t'.count }) ∧
      SweptBelow t t.slots.size swept t' := by
  have hb := h.accounted.boundary
  obtain ⟨swept, t', hslots, h'⟩ := (sweptBelow_builtin t).loop h (Nat.le_refl _)
    (k := t.slots.size - t.builtin) (by omega)
  refine ⟨swept, t', ?_, ?_⟩
  · unfold Table.sweep
    rw [hslots]
    rfl
  · rwa [Nat.add_sub_cancel' hb] at h'

end AtomHeap.Table
