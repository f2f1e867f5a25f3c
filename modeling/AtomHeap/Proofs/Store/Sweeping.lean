import AtomHeap.Proofs.Store.Blocks
import AtomHeap.Proofs.Store.Interning
/-!
# The exact effect of a sweep

In every state that a store comes to, among any other users of its heap, a sweep ends, and does what the
questions that it puts to hooks are answered with, no more and no less (`Tenancy.sweep_exact`).
`Table.Cleared` says so of slots, and `Table.Sifted` of atoms where the table has fewer than `2 ^ 32`
slots.
-/

namespace AtomHeap

namespace Table

variable {static : StaticMemory} {t t' : Table} {buckets n i : Nat} {e e' : Entry} {s : Slot} {a : Atom}
  {c : ReleaseCall} {calls before after : List ReleaseCall} {swept : Swept} {span : Span} {blob : BlobId}
  {type : BlobType}

/-! ## Questions -/

theorem verdict?_eq_some_iff : t.verdict? i = some c ↔ ∃ s e d, t.slots[i]? = some s ∧ s.entry = some e ∧
    t.builtin ≤ i ∧ e.refs = 0 ∧ e.marked = false ∧ t.decider? e.blob = some d ∧
      c = (d.later (t.questions i)).call 0 (s.atom i) := by
  unfold verdict?
  rw [Option.map_eq_some_iff]
  constructor
  · rintro ⟨⟨a, d⟩, hquestion, rfl⟩
    obtain ⟨s, e, hs, he, hle, hrefs, hmarked, hd, rfl⟩ := question?_eq_some_iff.1 hquestion
    exact ⟨s, e, d, hs, he, hle, hrefs, hmarked, hd, rfl⟩
  · rintro ⟨s, e, d, hs, he, hle, hrefs, hmarked, hd, rfl⟩
    exact ⟨(s.atom i, d), question?_eq_some_iff.2 ⟨s, e, hs, he, hle, hrefs, hmarked, hd, rfl⟩, rfl⟩

theorem mem_questions_iff : c ∈ t.questions n ↔ ∃ i < n, t.verdict? i = some c := by
  simp only [questions_eq, List.mem_filterMap, List.mem_range]

/-- What was asked before a question are the questions about the slots before. -/
theorem questions_split (h : t.questions n = before ++ c :: after) :
    ∃ i < n, t.verdict? i = some c ∧ t.questions i = before := by
  induction n generalizing after with
  | zero => simp [questions] at h
  | succ n ih =>
    rw [questions_succ] at h
    cases hv : t.verdict? n with
    | none =>
      rw [hv, Option.toList_none, List.append_nil] at h
      obtain ⟨i, hi, hc⟩ := ih h
      exact ⟨i, Nat.lt_succ_of_lt hi, hc⟩
    | some c' =>
      rw [hv, Option.toList_some] at h
      rcases List.eq_nil_or_concat after with rfl | ⟨after', last, rfl⟩
      · obtain ⟨hbefore, hc⟩ := List.append_inj' h rfl
        cases hc
        exact ⟨n, Nat.lt_succ_self n, hv, hbefore⟩
      · rw [List.concat_eq_append, ← List.cons_append, ← List.append_assoc] at h
        obtain ⟨i, hi, hc⟩ := ih (List.append_inj' h rfl).1
        exact ⟨i, Nat.lt_succ_of_lt hi, hc⟩

/-- Questions go by ascending indices. -/
theorem pairwise_questions (hn : n ≤ UInt32.size) :
    (t.questions n).Pairwise fun c c' => c.atom.index.toNat < c'.atom.index.toNat := by
  rw [questions_eq, List.pairwise_filterMap]
  refine List.pairwise_lt_range.imp_of_mem ?_
  intro i j hi hj hij c hc c' hc'
  rwa [verdict?_index (Nat.lt_of_lt_of_le (List.mem_range.1 hi) hn) hc,
    verdict?_index (Nat.lt_of_lt_of_le (List.mem_range.1 hj) hn) hc']

/-! ## Slots -/

/-- What a sweep that put these questions does to the slots and figures of a table. -/
structure Cleared (t : Table) (calls : List ReleaseCall) (t' : Table) : Prop where
  /-- The questions are those about the slots, in order. -/
  asked : calls = (List.range t.slots.size).filterMap t.verdict?
  /-- Slots of atoms that are to go are emptied, other slots above the boundary lose their marks, and those
  below it stay as they are. -/
  slot : ∀ i s, t.slots[i]? = some s → ∃ s', t'.slots[i]? = some s' ∧
    s'.bare = if i < t.builtin then s.bare else if t.condemned i then s.emptied else s.spared
  size : t'.slots.size = t.slots.size
  types : t'.blobs.get? = t.blobs.get?

theorem SweptBelow.cleared (h : SweptBelow t t.slots.size swept t') :
    Cleared t swept.calls.toList { t' with marking := false, nonGarbage := t'.count } where
  asked := h.calls.trans (questions_eq t _)
  slot _ _ hs := h.slot hs
  size := h.size
  types := h.types

/-! ## Atoms -/

/-- One of some questions was about the atom, and was answered with yes. -/
def Agreed (calls : List ReleaseCall) (a : Atom) : Prop := ∃ c ∈ calls, c.atom = a ∧ c.answer = true

/-- What a sweep that put these questions does to the atoms of a table. -/
structure Sifted (static : StaticMemory) (t : Table) (calls : List ReleaseCall) (t' : Table) : Prop where
  /-- Hooks are asked about the atoms above the boundary that are neither referenced nor marked, where there
  is a hook to ask, and about no others. -/
  candidates : ∀ a, (∃ c ∈ calls, c.atom = a) ↔ ∃ e d, t.entry a = .ok e ∧ t.builtin ≤ a.index.toNat ∧
    e.refs = 0 ∧ e.marked = false ∧ t.decider? e.blob = some d
  /-- They are asked once about each, in the order of indices. -/
  ascending : calls.Pairwise fun c c' => c.atom.index.toNat < c'.atom.index.toNat
  /-- The hook of the atom's type answers, or else the fallback hook, as it does after the questions so far. -/
  answers : ∀ before c after, calls = before ++ c :: after → ∃ e d, t.entry c.atom = .ok e ∧
    t.decider? e.blob = some d ∧ c = (d.later before).call 0 c.atom
  /-- Where the answer is yes, the atom is destroyed. -/
  destroyed : ∀ a, Agreed calls a → t'.entry a = .error .stale
  /-- All others stay as they are, but for marks above the boundary. -/
  kept : ∀ a e, t.entry a = .ok e → ¬ Agreed calls a → ∃ e', t'.entry a = .ok e' ∧ e'.payload = e.payload ∧
    e'.blob = e.blob ∧ e'.refs = e.refs ∧ e'.marked = (e.marked && decide (a.index.toNat < t.builtin))
  /-- No atom comes. -/
  live : ∀ a e', t'.entry a = .ok e' → ∃ e, t.entry a = .ok e
  /-- An atom of a unique type that stays is found by the lookups that found it before, and by no others. -/
  found : ∀ blob type span, t.blobs.get? blob = some type → type.flags.unique → span.Lies static → ∀ a,
    ¬ Agreed calls a → ((∃ t₁, t'.lookup span blob = .ok (some a, t₁)) ↔ ∃ t₁, t.lookup span blob = .ok (some a, t₁))
  /-- A destroyed atom is found by none. -/
  lost : ∀ a, Agreed calls a → ∀ span blob t₁, t'.lookup span blob ≠ .ok (some a, t₁)

/-- A lookup of a unique type finds the atom that stands for the span. -/
theorem lookup_iff_stands (hc : t.Canonical static) (hs : t.Sound buckets 0) (hsize : t.slots.size < UInt32.size)
    (hspan : span.Lies static) (htype : t.blobs.get? blob = some type) (hunique : type.flags.unique) :
    (∃ t₁, t.lookup span blob = .ok (some a, t₁)) ↔ t.Stands a blob span := by
  obtain ⟨found, t₁, hlookup, hsome, hnone⟩ := hc.lookup hs hsize hspan blob
  constructor
  · rintro ⟨t₂, h⟩
    rw [hlookup] at h
    cases h
    exact hsome a rfl
  · intro ha
    cases found with
    | none => exact absurd ha (hnone rfl a)
    | some a' =>
      rw [← hc.only hspan htype hunique (hsome a' rfl) ha]
      exact ⟨t₁, hlookup⟩

/-- A lookup finds live atoms only. -/
theorem live_of_lookup (hs : t.Sound buckets 0) (hsize : t.slots.size ≤ UInt32.size)
    (h : t.lookup span blob = .ok (some a, t')) : ∃ e, t.entry a = .ok e := by
  obtain ⟨index, s, e, hslot, hse, rfl, -⟩ := hs.lookup_found h
  have hlt := lt_of_entryAt? (entryAt?_eq_some_iff.2 ⟨s, hslot, hse⟩)
  exact ⟨e, entry_atom (Nat.lt_of_lt_of_le hlt hsize) hslot hse⟩

section Cleared

variable (h : Cleared t calls t') (hsize : t.slots.size < UInt32.size)

include h in
theorem Cleared.calls_eq : calls = t.questions t.slots.size := h.asked.trans (questions_eq t _).symm

include h hsize

theorem Cleared.mem_iff : c ∈ calls ↔ ∃ i < UInt32.size, t.verdict? i = some c := by
  rw [h.calls_eq, mem_questions_iff]
  constructor
  · rintro ⟨i, hi, hc⟩
    exact ⟨i, Nat.lt_trans hi hsize, hc⟩
  · rintro ⟨i, -, hc⟩
    obtain ⟨s, _, _, hs, -⟩ := verdict?_eq_some_iff.1 hc
    exact ⟨i, (Array.getElem?_eq_some_iff.1 hs).1, hc⟩

/-- The slots that are emptied are those of the atoms about which the answer was yes. -/
theorem Cleared.agreed_iff : Agreed calls a ↔
    ∃ e, t.entry a = .ok e ∧ t.builtin ≤ a.index.toNat ∧ t.condemned a.index.toNat = true := by
  unfold Agreed condemned
  constructor
  · rintro ⟨c, hc, rfl, hanswer⟩
    obtain ⟨i, hi, hverdict⟩ := (h.mem_iff hsize).1 hc
    obtain ⟨s, e, d, hs, he, hle, -, -, -, rfl⟩ := verdict?_eq_some_iff.1 hverdict
    refine ⟨e, entry_atom hi hs he, ?_⟩
    change t.builtin ≤ (s.atom i).index.toNat ∧ (t.verdict? (s.atom i).index.toNat).any (·.answer) = true
    rw [toNat_index_atom hi, hverdict]
    exact ⟨hle, hanswer⟩
  · rintro ⟨e, ha, -, hcondemned⟩
    obtain ⟨c, hverdict, hanswer⟩ := (Option.any_eq_true _ _).1 hcondemned
    obtain ⟨s, _, _, hs, _, _, _, _, _, hc⟩ := verdict?_eq_some_iff.1 hverdict
    obtain ⟨s', hs', -, hatom⟩ := slot_of_entry ha
    rw [hs, Option.some.injEq] at hs'
    subst hs'
    refine ⟨c, (h.mem_iff hsize).2 ⟨_, a.index.toNat_lt, hverdict⟩, ?_, hanswer⟩
    rw [hc]
    exact hatom

theorem Cleared.candidates : (∃ c ∈ calls, c.atom = a) ↔ ∃ e d, t.entry a = .ok e ∧ t.builtin ≤ a.index.toNat ∧
    e.refs = 0 ∧ e.marked = false ∧ t.decider? e.blob = some d := by
  constructor
  · rintro ⟨c, hc, rfl⟩
    obtain ⟨i, hi, hverdict⟩ := (h.mem_iff hsize).1 hc
    obtain ⟨s, e, d, hs, he, hle, hrefs, hmarked, hd, rfl⟩ := verdict?_eq_some_iff.1 hverdict
    refine ⟨e, d, entry_atom hi hs he, ?_, hrefs, hmarked, hd⟩
    change t.builtin ≤ (s.atom i).index.toNat
    rwa [toNat_index_atom hi]
  · rintro ⟨e, d, ha, hle, hrefs, hmarked, hd⟩
    obtain ⟨s, hs, he, hatom⟩ := slot_of_entry ha
    exact ⟨_, (h.mem_iff hsize).2 ⟨_, a.index.toNat_lt,
      verdict?_eq_some_iff.2 ⟨s, e, d, hs, he, hle, hrefs, hmarked, hd, rfl⟩⟩, hatom⟩

theorem Cleared.answers (hcalls : calls = before ++ c :: after) : ∃ e d, t.entry c.atom = .ok e ∧
    t.decider? e.blob = some d ∧ c = (d.later before).call 0 c.atom := by
  obtain ⟨i, hi, hverdict, rfl⟩ := questions_split (h.calls_eq.symm.trans hcalls)
  obtain ⟨s, e, d, hs, he, -, -, -, hd, rfl⟩ := verdict?_eq_some_iff.1 hverdict
  exact ⟨e, d, entry_atom (Nat.lt_trans hi hsize) hs he, hd, rfl⟩

theorem Cleared.destroyed (ha : Agreed calls a) : t'.entry a = .error .stale := by
  obtain ⟨e, he, hle, hcondemned⟩ := (h.agreed_iff hsize).1 ha
  obtain ⟨s, hs, -, -⟩ := slot_of_entry he
  obtain ⟨s', hs', hbare⟩ := h.slot _ s hs
  rw [if_neg (Nat.not_lt.2 hle), if_pos hcondemned] at hbare
  have hentry := congrArg (·.entry) hbare
  simp only [Slot.bare, Slot.emptied, Option.map_eq_none_iff] at hentry
  unfold entry
  simp only [hs', hentry]
  split <;> rfl

theorem Cleared.kept (ha : t.entry a = .ok e) (hnot : ¬ Agreed calls a) :
    ∃ e', t'.entry a = .ok e' ∧ e'.payload = e.payload ∧ e'.blob = e.blob ∧ e'.refs = e.refs ∧
      e'.marked = (e.marked && decide (a.index.toNat < t.builtin)) := by
  obtain ⟨s, hs, he, hatom⟩ := slot_of_entry ha
  obtain ⟨s', hs', hbare⟩ := h.slot _ s hs
  have hcase : s'.bare = if a.index.toNat < t.builtin then s.bare else s.spared := by
    rw [hbare]
    split
    · rfl
    · rename_i hle
      exact if_neg fun hcondemned => hnot ((h.agreed_iff hsize).2 ⟨e, ha, Nat.le_of_not_lt hle, hcondemned⟩)
  -- The entry that is left is the one from before, up to its mark and its link.
  obtain ⟨e', he', hgeneration, hbare'⟩ : ∃ e', s'.entry = some e' ∧ s'.generation = s.generation ∧
      e'.bare = { e.bare with marked := e.marked && decide (a.index.toNat < t.builtin) } := by
    split at hcase
    all_goals
      rename_i hbuiltin
      have hentry := congrArg (·.entry) hcase
      simp only [Slot.bare, Slot.spared, he, Option.map_some, Option.map_eq_some_iff] at hentry
      obtain ⟨e', he', hbare'⟩ := hentry
      refine ⟨e', he', congrArg (·.generation) hcase, hbare'.trans ?_⟩
      simp [hbuiltin, Entry.bare]
  have hatom' : s'.atom a.index.toNat = a := by
    refine Eq.trans ?_ hatom
    unfold Slot.atom
    rw [hgeneration]
  refine ⟨e', ?_, congrArg (·.payload) hbare', congrArg (·.blob) hbare', congrArg (·.refs) hbare',
    congrArg (·.marked) hbare'⟩
  have := entry_atom a.index.toNat_lt hs' he'
  rwa [hatom'] at this

omit hsize in
theorem Cleared.live (ha : t'.entry a = .ok e') : ∃ e, t.entry a = .ok e := by
  obtain ⟨s', hs', he', hatom⟩ := slot_of_entry ha
  have hlt : a.index.toNat < t.slots.size := by
    rw [← h.size]
    exact (Array.getElem?_eq_some_iff.1 hs').1
  obtain ⟨s₁, hs₁, hbare⟩ := h.slot _ _ (Array.getElem?_eq_getElem hlt)
  rw [hs', Option.some.injEq] at hs₁
  subst hs₁
  generalize hs : t.slots[a.index.toNat] = s at hbare
  have hslot : t.slots[a.index.toNat]? = some s := by rw [← hs, Array.getElem?_eq_getElem hlt]
  have hcases : s'.bare = s.bare ∨ s'.bare = s.emptied ∨ s'.bare = s.spared := by
    rw [hbare]
    split
    · exact .inl rfl
    · split
      · exact .inr (.inl rfl)
      · exact .inr (.inr rfl)
  -- The slot was in use, with the generation that it has now, or it would be empty.
  obtain ⟨e, he, hgeneration⟩ : ∃ e, s.entry = some e ∧ s'.generation = s.generation := by
    rcases hcases with hbare | hbare | hbare
    · have hentry := congrArg (·.entry) hbare.symm
      simp only [Slot.bare, he', Option.map_some, Option.map_eq_some_iff] at hentry
      obtain ⟨e, he, -⟩ := hentry
      exact ⟨e, he, congrArg (·.generation) hbare⟩
    · have hentry := congrArg (·.entry) hbare
      simp [Slot.bare, Slot.emptied, he'] at hentry
    · have hentry := congrArg (·.entry) hbare.symm
      simp only [Slot.bare, Slot.spared, he', Option.map_some, Option.map_eq_some_iff] at hentry
      obtain ⟨e, he, -⟩ := hentry
      exact ⟨e, he, congrArg (·.generation) hbare⟩
  have hatom' : s.atom a.index.toNat = a := by
    refine Eq.trans ?_ hatom
    unfold Slot.atom
    rw [hgeneration]
  refine ⟨e, ?_⟩
  have := entry_atom a.index.toNat_lt hslot he
  rwa [hatom'] at this

/-- The atom stands for a span after the sweep if it did before, unless it was destroyed. -/
theorem Cleared.stands_iff (hnot : ¬ Agreed calls a) : t'.Stands a blob span ↔ t.Stands a blob span := by
  constructor
  · rintro ⟨e', type, he', hblob, htype, hfor⟩
    obtain ⟨e, he⟩ := h.live he'
    obtain ⟨e₁, he₁, hpayload₁, hblob₁, -⟩ := h.kept hsize he hnot
    rw [he', Except.ok.injEq] at he₁
    subst he₁
    exact ⟨e, type, he, hblob₁ ▸ hblob, h.types ▸ htype, hpayload₁ ▸ hfor⟩
  · rintro ⟨e, type, he, hblob, htype, hfor⟩
    obtain ⟨e', he', hpayload', hblob', -⟩ := h.kept hsize he hnot
    exact ⟨e', type, he', hblob'.trans hblob, h.types ▸ htype, hpayload' ▸ hfor⟩

theorem Cleared.sifted (hs : t.Sound buckets 0) (hc : t.Canonical static) (hs' : t'.Sound buckets 0)
    (hc' : t'.Canonical static) : Sifted static t calls t' where
  candidates _ := h.candidates hsize
  ascending := h.calls_eq ▸ pairwise_questions (Nat.le_of_lt hsize)
  answers _ _ _ := h.answers hsize
  destroyed _ := h.destroyed hsize
  kept _ _ := h.kept hsize
  live _ _ := h.live
  found blob type span htype hunique hspan a hnot := by
    rw [lookup_iff_stands hc' hs' (h.size ▸ hsize) hspan (h.types ▸ htype) hunique,
      lookup_iff_stands hc hs hsize hspan htype hunique]
    exact h.stands_iff hsize hnot
  lost a ha span blob t₁ hlookup := by
    obtain ⟨e, he⟩ := live_of_lookup hs' (h.size ▸ Nat.le_of_lt hsize) hlookup
    rw [h.destroyed hsize ha] at he
    cases he

end Cleared

/-- Whatever sweep a table goes through, this is its effect; the atoms that it lists as destroyed are those about
which the answer was yes. -/
theorem Sound.sweep_cleared (hs : t.Sound buckets 0) (h : t.sweep = .ok (swept, t')) :
    Cleared t swept.calls.toList t' ∧ ∀ a, a ∈ swept.destroyed.toList ↔ Agreed swept.calls.toList a := by
  obtain ⟨swept', t₁, hsweep, hbelow⟩ := hs.sweep_below
  rw [h, Except.ok.injEq, Prod.mk.injEq] at hsweep
  obtain ⟨rfl, rfl⟩ := hsweep
  refine ⟨hbelow.cleared, fun a => ?_⟩
  rw [hbelow.destroyed, hbelow.calls]
  simp only [Agreed, List.mem_map, List.mem_filter]
  exact exists_congr fun c => by rw [and_assoc, and_comm (a := c.answer = true)]

end Table

namespace Tenancy

open Store

variable {static : StaticMemory} {config : Config} {grants : Nat → Nat → Bool} {heap : Heap} {x : Tenancy}
  {others : List Region} {memory : Memory} {events : List Event}

/-- In every state that a store comes to, a sweep ends, with as many atoms fewer as it answers, and the table is
not marking any more. It asks the hooks about just the atoms that may go, once each and in order; the atoms
about which they agree are destroyed, and all others stay as they are but for their marks. -/
theorem sweep_exact (hcheck : config.check = .ok ()) (hr : Heap.Run config.limits grants heap others)
    (h : Run (Span.Lies static) ⟨.empty heap config, others, memory⟩ events x) :
    ∃ n s' calls, x.store.sweep = .ok (n, s') ∧ s'.calls = x.store.calls ++ (calls.map HookCall.released).toArray ∧
      n = calls.countP (·.answer) ∧ s'.table.count + n = x.store.table.count ∧
      s'.table.nonGarbage = s'.table.count ∧ s'.table.marking = false ∧ x.store.table.Cleared calls s'.table ∧
      (x.store.table.slots.size < UInt32.size → x.store.table.Sifted static calls s'.table) := by
  have hempty := sound_empty hcheck hr memory
  have hx := h.sound hempty
  have hc := h.canonical hempty.table (Table.canonical_empty static config _)
  obtain ⟨swept, t, s', htable, hbelow, hsweep, hs', hcalls, hx'⟩ := hx.sweep
  have hcleared := hbelow.cleared
  rw [← hs'] at hcleared
  have hc' : s'.table.Canonical static := by
    have hmove : Move x.store _ s' := .sweep htable hsweep
    exact hc.changes hx.table (hmove.changes hx.table)
  refine ⟨swept.destroyed.size, s', swept.calls.toList, hsweep, ?_, ?_, ?_, ?_, ?_, hcleared, fun hsize =>
    hcleared.sifted hsize hx.table hc hx'.table hc'⟩
  · rw [hcalls, ← List.map_toArray, Array.toArray_toList]
  · rw [← Array.length_toList, hbelow.destroyed, List.length_map, ← List.countP_eq_length_filter, ← hbelow.calls]
  · rw [hs']
    exact hbelow.count
  · rw [hs']
  · rw [hs']

/-- Two atoms without references, one of them marked: the sweep destroys the other and leaves this one
without its mark. -/
theorem sweep_exact_marked :
    ∃ x n s' calls,
      Run (Span.Lies fun _ => [])
        ⟨.empty (.empty ⟨32, 64, 2⟩ fun _ _ => true)
          { allocFast := 32, chunkSize := 64, localFreeMax := 2, atomBuckets := 1, agcEnabled := false }, [], fun _ => 0⟩
        [.dropped ⟨1, 0⟩, .dropped ⟨0, 0⟩, .made ⟨1, 0⟩, .made ⟨0, 0⟩] x ∧
      x.store.sweep = .ok (n, s') ∧ n = 1 ∧ s'.table.count = 1 ∧ s'.table.marking = false ∧
      Table.Agreed calls ⟨0, 0⟩ ∧ s'.table.entry ⟨0, 0⟩ = .error .stale ∧
      ∃ e, s'.table.entry ⟨1, 0⟩ = .ok e ∧ e.payload.bytes = [98] ∧ e.marked = false := by
  have hcheck : Config.check
      { allocFast := 32, chunkSize := 64, localFreeMax := 2, atomBuckets := 1, agcEnabled := false } = .ok () := rfl
  have hlies := Span.lies_of_bytes fun _ => []
  have hr := @Heap.Run.start ⟨32, 64, 2⟩ fun _ _ => true
  have hempty := sound_empty hcheck hr fun _ => 0
  obtain ⟨memory₁, -, h₁⟩ := hempty.interns .start { bytes := [97] } (hlies _) BlobId.text rfl
  obtain ⟨memory₂, -, h₂⟩ := (h₁.sound hempty).interns h₁ { bytes := [98] } (hlies _) BlobId.text rfl
  have h₃ := h₂.step (.called (.unregister ⟨0, 0⟩) rfl fun b => made_notMem_dropEvents _ b _ _)
  have h₄ := h₃.step (.called (.unregister ⟨1, 0⟩) rfl fun b => made_notMem_dropEvents _ b _ _)
  have h₅ := (h₄.step (.moved .beginMarking)).step (.moved (.applyMarks [⟨1, 0⟩]))
  obtain ⟨n, s', calls, hsweep, -, hn, hcount, -, hmarking, hcleared, hsifted⟩ := sweep_exact hcheck hr h₅
  have hcalls : calls = [⟨some (0, "text"), ⟨0, 0⟩, true⟩] := hcleared.asked.trans rfl
  have hsifted := hsifted (by decide : 2 < UInt32.size)
  have hagreed : Table.Agreed calls ⟨0, 0⟩ := by
    rw [hcalls]
    exact ⟨_, .head _, rfl, rfl⟩
  have hnot : ¬ Table.Agreed calls ⟨1, 0⟩ := by
    rw [hcalls]
    rintro ⟨c, hc, ha, -⟩
    cases List.mem_singleton.1 hc
    cases ha
  obtain ⟨e, he, hpayload, -, -, hmarked⟩ := hsifted.kept ⟨1, 0⟩ _ rfl hnot
  have hone : n = 1 := by
    rw [hn, hcalls]
    rfl
  rw [hone] at hcount
  refine ⟨_, n, s', calls, h₅, hsweep, hone, Nat.succ.inj hcount, hmarking, hagreed, hsifted.destroyed _ hagreed, e, he,
    ?_, hmarked⟩
  rw [hpayload]
  rfl

end Tenancy

end AtomHeap
