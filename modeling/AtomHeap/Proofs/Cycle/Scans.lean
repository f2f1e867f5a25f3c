import AtomHeap.Proofs.Cycle.Operations
import AtomHeap.Proofs.Store.Sweeping
import AtomHeap.Proofs.Table.Scans
/-!
# Conservative roots

Threads may report words from anywhere as their roots. A cycle whose roots were reported so marks the atoms whose
words are among them, however they are mixed with other words, and changes nothing else before it sweeps; and of the
atoms that only the sweep could take, the sweep leaves those (`Tenancy.scan_exact`).
-/

namespace AtomHeap

/-! ## The roots of a cycle -/

/-- The reports on a queue that a cycle marks the roots of: those with its epoch, until nobody is waited for. -/
def Collector.heeded (c : Collector) : List Report → List Report
  | [] => []
  | r :: reports =>
    if c.pending.isEmpty then []
    else if r.epoch = c.epoch then r :: (c.excuse r.mutator).heeded reports
    else c.heeded reports

namespace System

variable {s s' : System} {n : Nat} {store : Store}

/-- The roots that the end of a cycle marks, in order: those of the mutator that runs it, and those in reports. -/
def roots (s : System) : Option (MutatorId × List Atom) → List (List Atom)
  | none => (s.collector.heeded s.collector.reports).map (·.atoms)
  | some (id, atoms) => atoms :: ((s.collector.excuse id).heeded s.collector.reports).map (·.atoms)

theorem awaitReports_store (s : System) (reports : List Report) : (s.awaitReports reports).store =
    { s.store with table := s.store.table.applyMarks ((s.collector.heeded reports).map (·.atoms)).flatten } := by
  induction reports generalizing s with
  | nil => rfl
  | cons r reports ih =>
    unfold awaitReports Collector.heeded
    split
    · rfl
    · rw [ih]
      unfold receive
      split
      · rw [List.map_cons, List.flatten_cons, Table.applyMarks_append]
        rfl
      · rfl

/-- A cycle marks its roots, and then concludes. -/
theorem complete_eq_roots (s : System) (own : Option (MutatorId × List Atom)) :
    ∃ s₁ : System, s.complete own = s₁.conclude ∧
      s₁.store = { s.store with table := s.store.table.applyMarks (s.roots own).flatten } := by
  cases own with
  | none => exact ⟨_, rfl, awaitReports_store s _⟩
  | some own =>
    obtain ⟨id, atoms⟩ := own
    refine ⟨_, rfl, (awaitReports_store _ _).trans ?_⟩
    unfold roots
    rw [List.flatten_cons, Table.applyMarks_append]
    rfl

/-- A cycle comes to an end if the sweep does. If it sweeps, it answers and leaves what the sweep did. -/
theorem conclude_of_sweep (h : s.store.sweep = .ok (n, store)) : ∃ outcome s', s.conclude = .ok (outcome, s') ∧
    ∀ m, outcome = .collected m → m = n ∧ s'.store = store := by
  unfold conclude
  split
  · refine ⟨_, _, bind_eq_ok_iff.2 ⟨_, bind_eq_ok_iff.2 ⟨_, bind_eq_ok_iff.2 ⟨_, h, rfl⟩, rfl⟩, rfl⟩, ?_⟩
    rintro _ ⟨⟩
    exact ⟨rfl, rfl⟩
  · exact ⟨_, _, rfl, nofun⟩

end System

/-! ## What the sweep leaves -/

namespace Table

variable {t t' : Table} {a : Atom} {e : Entry} {words : List UInt64} {calls : List ReleaseCall}

/-- An atom from the boundary on without references and marks. -/
def Adrift (t : Table) (a : Atom) (e : Entry) : Prop :=
  t.entry a = .ok e ∧ t.builtin ≤ a.index.toNat ∧ e.refs = 0 ∧ e.marked = false

/-- What is left of a table after words were scanned and a sweep put these questions. -/
structure Sieved (t : Table) (words : List UInt64) (calls : List ReleaseCall) (t' : Table) : Prop where
  /-- An atom that is adrift stays if its word was among them, and no hook is asked about it. -/
  named : ∀ a e, t.Adrift a e → a.toWord ∈ words → (∀ c ∈ calls, c.atom ≠ a) ∧ t'.isLive a = true
  /-- If not, the hook is asked if there is one, and the atom stays just if the answer is no. -/
  unnamed : ∀ a e, t.Adrift a e → a.toWord ∉ words →
    ((∃ c ∈ calls, c.atom = a) ↔ ∃ d, t.decider? e.blob = some d) ∧ (t'.isLive a = true ↔ ¬ Agreed calls a)
  /-- So where the hook agrees in any case, an atom that is adrift stays just if its word was there. -/
  agreeing : ∀ a e d, t.Adrift a e → t.decider? e.blob = some d → (∀ asked, d.hook asked a = true) →
    (t'.isLive a = true ↔ a.toWord ∈ words)
  /-- All other atoms stay, and none comes. -/
  others : ∀ a, (∀ e, ¬ t.Adrift a e) → t'.isLive a = t.isLive a

/-- An atom stays live in a sweep unless the answer about it was yes. -/
theorem Cleared.live_iff (h : Cleared t calls t') (hsize : t.slots.size < UInt32.size) :
    t'.isLive a = true ↔ t.isLive a = true ∧ ¬ Agreed calls a := by
  rw [isLive_iff, isLive_iff]
  constructor
  · rintro ⟨e', he'⟩
    refine ⟨h.live he', fun hagreed => ?_⟩
    rw [h.destroyed hsize hagreed] at he'
    cases he'
  · rintro ⟨⟨e, he⟩, hnot⟩
    obtain ⟨e', he', -⟩ := h.kept hsize he hnot
    exact ⟨e', he'⟩

theorem isLive_scanned (t : Table) (words : List UInt64) (a : Atom) : (t.scanned words).isLive a = t.isLive a := by
  unfold isLive
  rw [entry_scanned]
  cases t.entry a <;> rfl

section

variable (h : Cleared (t.scanned words) calls t') (hsize : t.slots.size < UInt32.size)

include h hsize

/-- Hooks are asked about the atoms that are adrift and whose words were not among those scanned. -/
theorem Cleared.asked_iff : (∃ c ∈ calls, c.atom = a) ↔
    ∃ e, t.Adrift a e ∧ a.toWord ∉ words ∧ ∃ d, t.decider? e.blob = some d := by
  rw [h.candidates (size_scanned t words ▸ hsize), entry_scanned]
  constructor
  · rintro ⟨e', d, he', hle, hrefs, hmarked, hd⟩
    cases he : t.entry a with
    | error error =>
      rw [he] at he'
      cases he'
    | ok e =>
      rw [he] at he'
      cases he'
      obtain ⟨hmarked, hnot⟩ := Bool.or_eq_false_iff.1 hmarked
      exact ⟨e, ⟨he, hle, hrefs, hmarked⟩, fun hw => of_decide_eq_false hnot ⟨hle, hw⟩, d, hd⟩
  · rintro ⟨e, ⟨he, hle, hrefs, hmarked⟩, hw, d, hd⟩
    rw [he]
    exact ⟨_, d, rfl, hle, hrefs, Bool.or_eq_false_iff.2 ⟨hmarked, decide_eq_false fun hboth => hw hboth.2⟩, hd⟩

theorem Cleared.stays_iff : t'.isLive a = true ↔ t.isLive a = true ∧ ¬ Agreed calls a := by
  rw [h.live_iff (size_scanned t words ▸ hsize), isLive_scanned]

/-- A hook that agrees in any case agrees when it is asked. -/
theorem Cleared.agreed_of_agreeing {d : Decider} (ha : t.Adrift a e) (hw : a.toWord ∉ words)
    (hd : t.decider? e.blob = some d) (hyes : ∀ asked, d.hook asked a = true) : Agreed calls a := by
  obtain ⟨c, hc, rfl⟩ := (h.asked_iff hsize).2 ⟨e, ha, hw, d, hd⟩
  obtain ⟨before, after, hsplit⟩ := List.append_of_mem hc
  obtain ⟨e', d', he', hd', heq⟩ := h.answers (size_scanned t words ▸ hsize) hsplit
  rw [entry_scanned, ha.1] at he'
  cases he'
  obtain rfl : d = d' := Option.some.inj (hd.symm.trans hd')
  refine ⟨c, hc, rfl, ?_⟩
  rw [heq]
  exact hyes _

theorem Cleared.named (ha : t.Adrift a e) (hw : a.toWord ∈ words) :
    (∀ c ∈ calls, c.atom ≠ a) ∧ t'.isLive a = true := by
  have hnot : ∀ c ∈ calls, c.atom ≠ a := by
    intro c hc hatom
    obtain ⟨_, -, hnw, -⟩ := (h.asked_iff hsize).1 ⟨c, hc, hatom⟩
    exact hnw hw
  refine ⟨hnot, (h.stays_iff hsize).2 ⟨isLive_iff.2 ⟨e, ha.1⟩, ?_⟩⟩
  rintro ⟨c, hc, hatom, -⟩
  exact hnot c hc hatom

theorem Cleared.unnamed (ha : t.Adrift a e) (hw : a.toWord ∉ words) :
    ((∃ c ∈ calls, c.atom = a) ↔ ∃ d, t.decider? e.blob = some d) ∧ (t'.isLive a = true ↔ ¬ Agreed calls a) := by
  refine ⟨(h.asked_iff hsize).trans ⟨?_, fun hd => ⟨e, ha, hw, hd⟩⟩,
    (h.stays_iff hsize).trans (and_iff_right (isLive_iff.2 ⟨e, ha.1⟩))⟩
  rintro ⟨e', ha', -, hd⟩
  have heq := ha.1.symm.trans ha'.1
  cases heq
  exact hd

theorem Cleared.sieved : Sieved t words calls t' where
  named _ _ := h.named hsize
  unnamed _ _ := h.unnamed hsize
  agreeing a e d ha hd hyes := by
    refine ⟨fun hlive => Decidable.byContradiction fun hw => ?_, fun hw => (h.named hsize ha hw).2⟩
    exact (h.unnamed hsize ha hw).2.1 hlive (h.agreed_of_agreeing hsize ha hw hd hyes)
  others a ha := by
    refine Bool.eq_iff_iff.2 ((h.stays_iff hsize).trans (and_iff_left ?_))
    rintro ⟨c, hc, hatom, -⟩
    obtain ⟨e, he, -⟩ := (h.asked_iff hsize).1 ⟨c, hc, hatom⟩
    exact ha e he

end

end Table

namespace Tenancy

open Store

variable {static : StaticMemory} {config : Config} {grants : Nat → Nat → Bool} {heap : Heap} {x : Tenancy}
  {others : List Region} {memory : Memory} {events : List Event}

/-- In every state that a store comes to, whatever words are reported as the roots of a cycle: marking them marks
the live atoms from the boundary on whose words are there, and changes nothing else. Neither the reports that they
are split among nor their order nor repetitions make a difference. The cycle comes to an end. If it sweeps, it comes
to a sweep of the table so marked, and of the atoms that could go it leaves those, and asks hooks about the others
only. -/
theorem scan_exact (hcheck : config.check = .ok ()) (hr : Heap.Run config.limits grants heap others)
    (h : Run (Span.Lies static) ⟨.empty heap config, others, memory⟩ events x) (reports : List (List UInt64)) :
    reports.foldl (fun t words => t.applyMarks (wordRoots words)) x.store.table =
        x.store.table.scanned reports.flatten ∧
      (∀ a, (x.store.table.scanned reports.flatten).entry a = (x.store.table.entry a).map fun e =>
        { e with
          marked := e.marked || decide (x.store.table.builtin ≤ a.index.toNat ∧ a.toWord ∈ reports.flatten) }) ∧
      (∀ words, (∀ w, w ∈ words ↔ w ∈ reports.flatten) →
        x.store.table.scanned words = x.store.table.scanned reports.flatten) ∧
      ∀ (s : System) (own : Option (MutatorId × List Atom)), s.store = x.store →
        s.roots own = reports.map wordRoots → ∃ outcome s', s.complete own = .ok (outcome, s') ∧
          ∀ n, outcome = .collected n →
            { x.store with table := x.store.table.scanned reports.flatten }.sweep = .ok (n, s'.store) ∧
            ∃ calls, (x.store.table.scanned reports.flatten).Cleared calls s'.store.table ∧
              (x.store.table.slots.size < UInt32.size →
                x.store.table.Sieved reports.flatten calls s'.store.table) := by
  refine ⟨Table.scanned_flatten _ _, Table.entry_scanned _ _, fun words => Table.scanned_congr _, ?_⟩
  intro s own hs hroots
  obtain ⟨s₁, hcomplete, hstore⟩ := s.complete_eq_roots own
  rw [hs, hroots, flatten_wordRoots, Table.applyMarks_wordRoots] at hstore
  -- The marks come upon a store that is in order, and leave it so.
  have hmarked := h.step (.moved (.applyMarks (wordRoots reports.flatten)))
  rw [Table.applyMarks_wordRoots] at hmarked
  obtain ⟨swept, t, store, -, hbelow, hsweep, htable, -⟩ := (hmarked.sound (sound_empty hcheck hr memory)).sweep
  obtain ⟨outcome, s', hconclude, hleft⟩ := System.conclude_of_sweep (hstore ▸ hsweep)
  refine ⟨outcome, s', hcomplete.trans hconclude, fun n hn => ?_⟩
  obtain ⟨rfl, rfl⟩ := hleft n hn
  have hcleared := hbelow.cleared
  rw [← htable] at hcleared
  exact ⟨hsweep, swept.calls.toList, hcleared, hcleared.sieved⟩

/-- Behind a builtin there are two atoms without references. The mutator that runs the cycle reports what names
nothing, the builtin and the first of the two; the other reports the first again, a stale handle of the second, and
handles past the table. -/
theorem scan_exact_two_reports :
    ∃ (x : Tenancy) (s : System) (own : Option (MutatorId × List Atom)) (n : Nat) (s' : System),
      Run (Span.Lies fun _ => [])
        ⟨.empty (.empty ⟨32, 64, 2⟩ fun _ _ => true)
          { allocFast := 32, chunkSize := 64, localFreeMax := 2, atomBuckets := 1 }, [], fun _ => 0⟩
        [.dropped ⟨2, 0⟩, .dropped ⟨1, 0⟩, .made ⟨2, 0⟩, .made ⟨1, 0⟩, .made ⟨0, 0⟩] x ∧
      s.store = x.store ∧
      s.roots own = [[0, 7, Atom.toWord ⟨0, 0⟩, Atom.toWord ⟨1, 0⟩],
        [Atom.toWord ⟨1, 0⟩, Atom.toWord ⟨2, 1⟩, Atom.toWord ⟨9, 0⟩, 0x8000000005]].map wordRoots ∧
      s.complete own = .ok (.collected n, s') ∧ s'.store.table.isLive ⟨0, 0⟩ = true ∧
      s'.store.table.isLive ⟨1, 0⟩ = true ∧ s'.store.table.isLive ⟨2, 0⟩ = false := by
  have hcheck : Config.check { allocFast := 32, chunkSize := 64, localFreeMax := 2, atomBuckets := 1 } = .ok () := rfl
  have hlies := Span.lies_of_bytes fun _ => []
  have hr := @Heap.Run.start ⟨32, 64, 2⟩ fun _ _ => true
  have hempty := sound_empty hcheck hr fun _ => 0
  obtain ⟨memory₁, -, h₁⟩ := hempty.interns .start { bytes := [97] } (hlies _) BlobId.text
    (internLocked_of_insert rfl rfl rfl rfl (Table.insert_of_no_holes rfl rfl rfl rfl rfl) rfl)
  have h₂ := h₁.step (.called .lockAtoms rfl nofun)
  obtain ⟨memory₂, -, h₃⟩ := (h₂.sound hempty).interns h₂ { bytes := [98] } (hlies _) BlobId.text
    (internLocked_of_insert rfl rfl rfl rfl (Table.insert_of_no_holes rfl rfl rfl rfl rfl) rfl)
  obtain ⟨memory₃, -, h₄⟩ := (h₃.sound hempty).interns h₃ { bytes := [99] } (hlies _) BlobId.text
    (internLocked_of_insert rfl rfl rfl rfl (Table.insert_of_no_holes rfl rfl rfl rfl rfl) rfl)
  have h₅ := h₄.step (.called (.unregister ⟨1, 0⟩) rfl fun b => made_notMem_dropEvents _ b _ _)
  have h₆ := h₅.step (.called (.unregister ⟨2, 0⟩) rfl fun b => made_notMem_dropEvents _ b _ _)
  have h₇ := h₆.step (.moved .beginMarking)
  obtain ⟨-, -, -, hcycle⟩ := scan_exact hcheck hr h₇ [[0, 7, Atom.toWord ⟨0, 0⟩, Atom.toWord ⟨1, 0⟩],
    [Atom.toWord ⟨1, 0⟩, Atom.toWord ⟨2, 1⟩, Atom.toWord ⟨9, 0⟩, 0x8000000005]]
  obtain ⟨outcome, s', hcomplete, hleft⟩ := hcycle
    ⟨{}, _, { epoch := 1, pending := [2, 1], reports := [⟨2, 1,
      wordRoots [Atom.toWord ⟨1, 0⟩, Atom.toWord ⟨2, 1⟩, Atom.toWord ⟨9, 0⟩, 0x8000000005]⟩] }, [], {}⟩
    (some (1, wordRoots [0, 7, Atom.toWord ⟨0, 0⟩, Atom.toWord ⟨1, 0⟩])) rfl rfl
  rcases System.conclude_cases hcomplete with ⟨-, n, _, -, rfl, -⟩ | ⟨hpending, -⟩
  · obtain ⟨-, calls, -, hsieved⟩ := hleft n rfl
    have hsieved := hsieved (by decide : 3 < UInt32.size)
    refine ⟨_, _, _, n, s', h₇, rfl, rfl, hcomplete, ?_, ?_, ?_⟩
    · refine (hsieved.others ⟨0, 0⟩ ?_).trans rfl
      rintro e ⟨-, hle, -⟩
      exact absurd hle (by decide : ¬ 1 ≤ 0)
    · exact (hsieved.agreeing ⟨1, 0⟩ _ _ ⟨rfl, (by decide : 1 ≤ 1), rfl, rfl⟩ rfl fun _ => rfl).2 (by decide)
    · refine Bool.eq_false_iff.2 fun hlive => ?_
      exact absurd
        ((hsieved.agreeing ⟨2, 0⟩ _ _ ⟨rfl, (by decide : 1 ≤ 2), rfl, rfl⟩ rfl fun _ => rfl).1 hlive) (by decide)
  · exact absurd rfl hpending

end Tenancy

end AtomHeap
