import AtomHeap.Proofs.Store.Run
/-!
# The representation of a table

What holds of the slots, chains and figures of a table after any run (`table_represented`): each slot
in use is once on the chain of its hash and nowhere else, so walks along chains end, and the figures
say what is in the slots.
-/

namespace AtomHeap

namespace Table

variable {spans : Span → Prop} {t t' : Table} {buckets : Nat}

/-- The representation of a table that had `buckets` chains at first. -/
structure Represented (buckets : Nat) (t : Table) : Prop where
  /-- A chain is finite, comes to no slot twice, and goes through just the slots in use that have a
  hash that selects it. -/
  chain : ∀ n < t.chains.size, ∃ first l, t.chains[n]? = some first ∧ Path t.entryAt? first l ∧ l.Nodup ∧
    ∀ i, i ∈ l ↔ ∃ e, t.entryAt? i = some e ∧ Hash.chain e.hash t.chains.size = .ok n
  /-- The hash of each slot in use is that of its bytes, and selects a chain. -/
  hash : ∀ i e, t.entryAt? i = some e →
    e.hash = Hash.ofBytes e.payload.bytes ∧ ∃ n < t.chains.size, Hash.chain e.hash t.chains.size = .ok n
  count : t.count = t.slots.toList.countP (·.entry.isSome)
  holes : ∀ i, i ∈ t.holes ↔ t.builtin ≤ i ∧ ∃ s, t.slots[i]? = some s ∧ s.entry = none
  boundary : t.builtin ≤ t.slots.size
  bytes : t.bytes = (t.slots.toList.map Slot.copied).sum
  chains : ∃ k, t.chains.size = buckets * 2 ^ k
  load : t.count ≤ 2 * t.chains.size
  /-- A search walks along a chain, all of whose slots are in use, and gives the first that passes. -/
  find : ∀ hash span blob nocopy, ∃ n first l, Hash.chain hash t.chains.size = .ok n ∧ t.chains[n]? = some first ∧
    Path t.entryAt? first l ∧ l.Nodup ∧
    t.find hash span blob nocopy = .ok (l.find? fun i => (t.entryAt? i).any (isFor · hash span blob nocopy))
  /-- A slot in use is found on its chain. -/
  unlink : ∀ i e, t.entryAt? i = some e → ∃ t', t.unlink i e = .ok t'

theorem chain_eq_ok_iff (hpower : isPowerOfTwo t.chains.size = true) {hash : UInt64} {n : Nat} :
    Hash.chain hash t.chains.size = .ok n ↔ t.number hash = n := by
  unfold Hash.chain number
  rw [if_pos hpower, Except.ok.injEq]

theorem Sound.represented (h : t.Sound buckets 0) : t.Represented buckets where
  chain n hn := by
    obtain ⟨first, l, hfirst, hpath, hnodup, hl⟩ := h.linked.chain n hn
    refine ⟨first, l, hfirst, hpath, hnodup, fun i => ?_⟩
    rw [hl i]
    unfold chainAt?
    simp only [true_and, Option.map_eq_some_iff, chain_eq_ok_iff h.linked.power]
  hash i e he := ⟨h.accounted.hash i e he, t.number e.hash, number_lt h.linked.power _,
    (chain_eq_ok_iff h.linked.power).2 rfl⟩
  count := h.accounted.count
  holes := h.accounted.holes
  boundary := h.accounted.boundary
  bytes := h.accounted.bytes
  chains := h.chains
  load := h.load
  find hash span blob nocopy := by
    obtain ⟨first, l, hc, hfirst, hpath, hnodup, -⟩ := h.linked.walk hash
    refine ⟨_, first, l, (chain_eq_ok_iff h.linked.power).2 rfl, hfirst, hpath, hnodup, ?_⟩
    unfold Table.find
    rw [hc]
    exact search_of_path hpath _ (hpath.length_le hnodup)
  unlink i e he := by
    obtain ⟨t', hunlink, -⟩ := h.linked.unlink trivial he
    exact ⟨t', hunlink⟩

theorem Sound.chains_change (h : t.Sound buckets 0) (hc : Change spans t t') :
    ∃ k, t'.chains.size = t.chains.size * 2 ^ k := by
  cases hc with
  | amended ha => exact ⟨0, by rw [ha.chains]; simp⟩
  | made _ hw hi =>
    obtain ⟨_, _, _, hinserted, _⟩ := h.made hw hi
    exact hinserted.chains
  | destroyed he hle hd =>
    obtain ⟨t₁, hd', hdestroyed, -⟩ := h.destroy he hle
    rw [hd'] at hd
    cases hd
    exact ⟨0, by rw [hdestroyed.chains]; simp⟩
  | relabelled hu =>
    obtain ⟨blobs, -, rfl⟩ := unregisterBlob_eq hu
    exact ⟨0, by simp⟩
  | locked => exact ⟨0, (Nat.mul_one _).symm⟩

theorem Sound.chains_changes (h : t.Sound buckets 0) (hc : Changes spans t t') :
    ∃ k, t'.chains.size = t.chains.size * 2 ^ k := by
  induction hc with
  | refl => exact ⟨0, by simp⟩
  | tail hcs hc ih =>
    obtain ⟨k, hk⟩ := ih
    obtain ⟨j, hj⟩ := (h.changes hcs).chains_change hc
    exact ⟨k + j, by rw [hj, hk, Nat.pow_add, Nat.mul_assoc]⟩

theorem atomBuckets_power {config : Config} (hc : config.check = .ok ()) :
    isPowerOfTwo config.atomBuckets.toNat = true := (Config.check_eq_ok_iff.1 hc).atomBuckets

/-- A table without slots is sound if it has a power of two of chains. -/
theorem sound_empty {config : Config} (hpower : isPowerOfTwo config.atomBuckets.toNat = true)
    (pool : PoolId) :
    (empty config pool).Sound config.atomBuckets.toNat 0 where
  linked := by
    refine ⟨by simpa [empty] using hpower, fun n hn => ⟨none, [], ?_, .nil, .nil, ?_⟩⟩
    · simp only [empty, Array.size_replicate] at hn
      simp only [empty, Array.getElem?_replicate, if_pos hn]
    · intro i
      simp [chainAt?, entryAt?, empty]
  accounted :=
    { hash := fun i e he => by simp [entryAt?, empty] at he
      count := rfl
      holes := fun i => by simp [empty, IsEmpty]
      boundary := Nat.le_refl _
      bytes := rfl }
  chains := ⟨0, by simp [empty]⟩
  room := by simp [empty]
  load := Nat.zero_le _

end Table

namespace Store

theorem Run.sound_of_empty {config : Config} (hc : config.check = .ok ()) {heap : Heap} {spans : Span → Prop}
    {events : List Event} {s : Store} (h : Run spans (.empty heap config) events s) :
    s.table.Sound config.atomBuckets.toNat 0 :=
  h.sound (Table.sound_empty (Table.atomBuckets_power hc) _)

/-- After any run from a store without atoms, the table is represented as it has to be, and it has
at least as many chains after every further run. -/
theorem table_represented {config : Config} (hc : config.check = .ok ()) {heap : Heap} {spans : Span → Prop}
    {events : List Event} {s : Store} (h : Run spans (.empty heap config) events s) :
    s.table.Represented config.atomBuckets.toNat ∧
      ∀ events' s', Run spans s events' s' → ∃ k, s'.table.chains.size = s.table.chains.size * 2 ^ k := by
  have hs := h.sound (Table.sound_empty (Table.atomBuckets_power hc) _)
  exact ⟨hs.represented, fun events' s' h' => hs.chains_changes (h'.changes hs)⟩

/-- Three atoms are too many for one chain; one of them is given back and swept. -/
theorem table_represented_grown :
    ∃ s, Run (fun _ => True)
        (.empty (.empty ⟨32, 64, 2⟩ fun _ _ => true) { atomBuckets := 1, agcEnabled := false })
        [.destroyed ⟨1, 0⟩, .dropped ⟨1, 0⟩, .made ⟨2, 0⟩, .found ⟨0, 0⟩, .made ⟨1, 0⟩, .made ⟨0, 0⟩] s ∧
      s.table.chains.size = 2 ∧ s.table.count = 2 ∧ s.table.Represented 1 := by
  have none := @Run.start (fun _ => True)
    (.empty (.empty ⟨32, 64, 2⟩ fun _ _ => true) { atomBuckets := 1, agcEnabled := false })
  have first := none.intern { bytes := [97] } trivial BlobId.text rfl
  have second := first.intern { bytes := [98] } trivial BlobId.text rfl
  have again := second.intern { bytes := [97] } trivial BlobId.text rfl
  have third := again.intern { bytes := [] } trivial BlobId.text rfl
  have dropped := third.call (.unregister ⟨1, 0⟩)
  have swept := dropped.move (.sweep rfl rfl)
  exact ⟨_, swept, rfl, rfl, (table_represented rfl swept).1⟩

end Store

end AtomHeap
