import AtomHeap.Proofs.Store.Interning
import AtomHeap.Proofs.Store.Tuning
/-!
# A store on its heap

`Housed` says that a table is sound and that its blocks and those of the other users are all the blocks that
its heap has handed out. Then interning goes wrong for want of memory only (`Housed.internLocked_ends`): the
bytes of copies lie in the bytes that the heap has reserved, and those are a word.

`Grows k` is what all operations of a store keep to: they make at most `k` atoms, and take a request of the
heap or two for each atom that they make or destroy.
-/

namespace AtomHeap

open Heap (Solvent Requests SamePools HasPool)

namespace Store

variable {buckets k l size : Nat} {limits : Limits} {others : List Region} {s s' s'' : Store} {span : Span}
  {lasting : Bool} {blob : BlobId} {type : BlobType} {bytes : List UInt8} {index : Nat}

/-- The blocks of a sound table and those of the other users are all that its heap has handed out. -/
structure Housed (buckets : Nat) (limits : Limits) (others : List Region) (s : Store) : Prop where
  table : s.table.Sound buckets 0
  heap : Solvent limits s.heap (s.table.regions ++ others)
  pool : s.heap.HasPool (some s.table.pool)

/-- At most `k` atoms are made, and nothing else but live atoms, marks and when to collect is different. -/
structure Grows (k : Nat) (others : List Region) (s s' : Store) : Prop where
  requests : ∃ n, Requests n s.heap (s.table.regions ++ others) s'.heap (s'.table.regions ++ others) ∧
    n + s'.table.regions.length ≤ s.table.regions.length + 3 * k
  pools : SamePools s.heap s'.heap
  pool : s'.table.pool = s.table.pool
  enabled : s'.table.agcEnabled = s.table.agcEnabled
  margin : s'.table.margin = s.table.margin
  nonGarbage : s'.table.nonGarbage = s.table.nonGarbage ∨ s'.table.nonGarbage ≤ s'.table.slots.size
  slots : s.table.slots.size ≤ s'.table.slots.size
  slots_le : s'.table.slots.size ≤ s.table.slots.size + k
  count : s'.table.count ≤ s.table.count + k

namespace Grows

theorem trans (h : Grows k others s s') (h' : Grows l others s' s'') : Grows (k + l) others s s'' where
  requests := by
    obtain ⟨m, hm, hle⟩ := h.requests
    obtain ⟨n, hn, hle'⟩ := h'.requests
    exact ⟨n + m, hm.trans hn, by omega⟩
  pools := h.pools.trans h'.pools
  pool := h'.pool.trans h.pool
  enabled := h'.enabled.trans h.enabled
  margin := h'.margin.trans h.margin
  nonGarbage := by
    have := h'.slots
    rcases h'.nonGarbage with heq | hle
    · rw [heq]
      exact h.nonGarbage.imp_right fun hle => by omega
    · exact .inr hle
  slots := Nat.le_trans h.slots h'.slots
  slots_le := by
    have := h.slots_le
    have := h'.slots_le
    omega
  count := by
    have := h.count
    have := h'.count
    omega

theorem mono (h : Grows k others s s') (hle : k ≤ l) : Grows l others s s' :=
  { h with
    requests := by
      obtain ⟨n, hn, hle'⟩ := h.requests
      exact ⟨n, hn, by omega⟩
    slots_le := by
      have := h.slots_le
      omega
    count := by
      have := h.count
      omega }

theorem of_resettled {t : Table} (h : s.table.Resettled t) (hs : s'.table = t) (hheap : s'.heap = s.heap)
    (ht : t.Sound buckets 0) : Grows 0 others s s' := by
  subst hs
  have hregions : s'.table.regions = s.table.regions := congrArg (List.map Region.ofBlock) h.payloads.blocks
  refine ⟨⟨0, ?_, ?_⟩, ?_, h.pool, h.enabled, h.margin, ?_, Nat.le_of_eq h.payloads.size.symm,
    Nat.le_of_eq h.payloads.size, Nat.le_of_eq h.count⟩
  · rw [hheap, hregions]
    exact .refl _ _
  · rw [hregions]
    omega
  · rw [hheap]
    exact .refl _
  · refine h.nonGarbage.imp_right fun hcount => ?_
    rw [hcount]
    exact ht.accounted.count_le

theorem refl (others : List Region) (s : Store) : Grows 0 others s s :=
  ⟨⟨0, .refl _ _, by omega⟩, .refl _, rfl, rfl, rfl, .inl rfl, Nat.le_refl _, Nat.le_refl _, Nat.le_refl _⟩

end Grows

theorem Housed.grows (hh : Housed buckets limits others s) (hg : Grows k others s s')
    (htable : s'.table.Sound buckets 0) : Housed buckets limits others s' where
  table := htable
  heap := by
    obtain ⟨n, hrequests, -⟩ := hg.requests
    exact hrequests.solvent hh.heap
  pool := by
    rw [hg.pool]
    exact hg.pools.hasPool hh.pool

/-! ## Interning -/

/-- The bytes of copies lie in the bytes reserved. -/
theorem Housed.bytes_le (hh : Housed buckets limits others s) : s.table.bytes ≤ Heap.total s.table.regions := by
  rw [hh.table.accounted.bytes]
  exact Table.copied_le fun r hr => (hh.heap.settled.owned.handed r (List.mem_append_left _ hr)).pos

theorem Housed.alloc_ends (hh : Housed buckets limits others s) (size : Nat) :
    Ends (s.alloc (some s.table.pool) size) True fun p => ∃ heap,
      s.heap.alloc (some s.table.pool) size = .ok (p.1, heap) ∧ p.2 = logRefusals ⟨heap, s.table, s.calls⟩ := by
  rcases hh.heap.settled.owned.alloc_ends hh.pool size with ⟨⟨answer, heap⟩, halloc, -⟩ | ⟨halloc, -⟩
  · refine .inl ⟨(answer, logRefusals ⟨heap, s.table, s.calls⟩), ?_, heap, halloc, rfl⟩
    unfold Store.alloc onHeap
    simp only [halloc, bind, Except.bind]
    rfl
  · refine .inr ⟨?_, trivial⟩
    unfold Store.alloc onHeap
    simp only [halloc, bind, Except.bind]

theorem Housed.copyBytes_ends (hh : Housed buckets limits others s) (bytes : List UInt8) :
    Ends (s.copyBytes bytes) True fun _ => True := by
  unfold copyBytes
  split
  · exact .ok trivial
  · refine (hh.alloc_ends bytes.length).bind ?_
    rintro ⟨e | b, s₁⟩ ⟨heap, hserved, hs₁⟩
    · exact .ok trivial
    · -- The block that was served is as long as the bytes at least, and is counted with the others.
      obtain ⟨length, hround⟩ := Heap.exists_length hserved
      have hlt := (hh.heap.request (.served hh.pool hserved hround)).total_lt
      have hbytes := hh.bytes_le
      have hle := le_of_roundUp hround
      rw [Heap.total_cons, Heap.total_append] at hlt
      have hadd : checkedAdd s₁.table.bytes bytes.length = .ok (s.table.bytes + bytes.length) := by
        rw [show s₁ = _ from hs₁, logRefusals_table, checkedAdd_eq_ok_iff]
        simp only at hlt
        exact ⟨Nat.lt_of_le_of_lt (Nat.add_le_add hbytes hle) (by omega), rfl⟩
      obtain ⟨heap₁, table₁, calls₁⟩ := s₁
      simp only [hadd, bind, Except.bind]
      exact .ok trivial

theorem Housed.payloadFor_ends (hh : Housed buckets limits others s) (type : BlobType) (span : Span) (lasting : Bool) :
    Ends (s.payloadFor type span lasting) True fun _ => True := by
  unfold payloadFor
  split
  · split
    · split <;> exact .ok trivial
    · exact .ok trivial
  · exact hh.copyBytes_ends span.bytes

theorem existing?_ends (hs : s.table.Sound buckets 0) (type : BlobType) (blob : BlobId) (hash : UInt64)
    (span : Span) :
    Ends (s.existing? type blob hash span) False fun found => ∀ i ∈ found, ∃ slot, s.table.slot i = .ok slot := by
  unfold existing?
  split
  · obtain ⟨found, hfound, hsome, -⟩ := hs.linked.find hash span blob type.flags.nocopy
    rw [hfound]
    refine .ok fun i hi => ?_
    obtain ⟨e, he, -⟩ := hsome i hi
    obtain ⟨slot, hslot, -⟩ := Table.entryAt?_eq_some_iff.1 he
    exact ⟨slot, Table.slot_eq_ok_iff.2 hslot⟩
  · exact .ok nofun

/-- What interning came to is one atom more at most, with its block. -/
theorem Outcome.one (hs : s.table.Sound buckets 0) {r : Except AtomError Interned} (h : Outcome s span blob r s') :
    s'.table.gauge = s.table.gauge ∧ s.table.slots.size ≤ s'.table.slots.size ∧
      s'.table.slots.size ≤ s.table.slots.size + 1 ∧ s'.table.count ≤ s.table.count + 1 ∧
      s'.table.regions.length ≤ s.table.regions.length + 1 := by
  cases h with
  | refused e htable =>
    rw [htable]
    exact ⟨rfl, Nat.le_refl _, Nat.le_succ _, Nat.le_succ _, Nat.le_succ _⟩
  | found _ _ _ hreuse =>
    have hsteady := Table.reuse_steady hreuse
    have hsame := (Table.reuse_amended hreuse).samePayloads
    have hregions : s'.table.regions = s.table.regions := congrArg (List.map Region.ofBlock) hsame.blocks
    rw [hsame.size, hsteady.count, hregions]
    exact ⟨hsteady.gauge, Nat.le_refl _, Nat.le_succ _, Nat.le_succ _, Nat.le_succ _⟩
  | @made _ _ payload _ _ hwanted hinsert =>
    obtain ⟨hgauge, hcount⟩ := Table.insert_gauge hinsert
    obtain ⟨index, g, -, hinserted, -⟩ := hs.made hwanted hinsert
    have hsize : s'.table.slots.size = max s.table.slots.size (index + 1) := hinserted.size
    have hle : index ≤ s.table.slots.size := hinserted.le
    have hblocks : s'.table.blocks.length = (payload.block?.toList ++ s.table.blocks).length :=
      hinserted.blocks.length_eq
    have hone : payload.block?.toList.length ≤ 1 := by cases payload.block? <;> simp
    rw [List.length_append] at hblocks
    refine ⟨hgauge, by omega, by omega, Nat.le_of_eq hcount, ?_⟩
    simp only [Table.regions, List.length_map]
    omega

theorem internLocked_grows (hs : s.table.Sound buckets 0) {r : Except AtomError Interned}
    (h : s.internLocked span lasting blob = .ok (r, s')) :
    s'.table.Sound buckets 0 ∧ s'.table.gauge = s.table.gauge ∧ Grows 1 others s s' := by
  have houtcome := internLocked_outcome hs h
  obtain ⟨n, hn, hrequests, hsame⟩ := internLocked_requests hs h others
  obtain ⟨hgauge, hslots, hslots_le, hcount, hregions⟩ := houtcome.one hs
  obtain ⟨henabled, hmargin, hnonGarbage, -⟩ := Table.gauge_eq_iff.1 hgauge
  exact ⟨hs.changes (@Outcome.changes (fun _ => True) _ _ _ _ _ trivial houtcome), hgauge,
    ⟨n, hrequests, by omega⟩, hsame, houtcome.pool hs, henabled, hmargin, .inl hnonGarbage, hslots, hslots_le, hcount⟩

/-- Interning goes wrong for want of memory only, where there is room for one more slot. -/
theorem Housed.internLocked_ends (hh : Housed buckets limits others s) (hbuckets : buckets < 2 ^ 62)
    (hslots : s.table.slots.size < 2 ^ 62) (hweigh : s.table.Weighable) (span : Span) (lasting : Bool)
    (blob : BlobId) :
    Ends (s.internLocked span lasting blob) True fun p =>
      Housed buckets limits others p.2 ∧ p.2.table.gauge = s.table.gauge ∧ Grows 1 others s p.2 := by
  have hends : Ends (s.internLocked span lasting blob) True fun _ => True := by
    unfold internLocked
    split
    · rename_i type hreg htype
      refine ((existing?_ends hh.table type blob (Hash.ofBytes span.bytes) span).starve False.elim).bind ?_
      rintro (_ | index) hfound
      · refine (hh.payloadFor_ends type span lasting).and_eq.bind ?_
        rintro ⟨e | payload, s₁⟩ ⟨hpayload, -⟩
        · exact .ok trivial
        · obtain ⟨hbytes, -, -, htable⟩ := payloadFor_table hpayload
          rcases (hh.table.withSpare payload.copied).insert (congrArg Hash.ofBytes hbytes.symm) blob with
            ⟨hnot, -⟩ | ⟨-, i, g, t', hinsert, hinserted, -⟩
          · exact absurd (hh.table.fits hbuckets hslots) hnot
          have hweigh' : t'.Weighable := by
            unfold Table.Weighable
            rw [hinserted.rest]
            exact hweigh
          obtain ⟨due, hdue⟩ := hweigh'.shouldCollect
          rw [← htable] at hinsert
          obtain ⟨heap₁, table₁, calls₁⟩ := s₁
          simp only [hinsert, hdue, bind, Except.bind]
          exact .ok trivial
      · obtain ⟨slot, hslot⟩ := hfound index rfl
        obtain ⟨t', hreuse⟩ := Table.reuse_of_slot hslot
        unfold Store.reuse
        simp only [hreuse, bind, Except.bind]
        exact .ok trivial
    · exact .ok trivial
  refine hends.and_eq.mono ?_
  rintro ⟨r, s'⟩ ⟨h, -⟩
  obtain ⟨htable, hgauge, hgrows⟩ := internLocked_grows hh.table h
  exact ⟨hh.grows hgrows htable, hgauge, hgrows⟩

/-! ## Interning with its hook -/

theorem Housed.resettled (hh : Housed buckets limits others s) {t : Table} (ht : t.Sound buckets 0)
    (h : s.table.Resettled t) (hs : s'.table = t) (hheap : s'.heap = s.heap) :
    Housed buckets limits others s' ∧ Grows 0 others s s' :=
  have hgrows : Grows 0 others s s' := .of_resettled h hs hheap ht
  ⟨hh.grows hgrows (hs ▸ ht), hgrows⟩

/-- Tuning the table leaves the heap alone. -/
theorem Housed.tuned (hh : Housed buckets limits others s) {α : Type} {f : Table → α × Table}
    (hf : Table.Tuning f) (hs : s'.table = (f s.table).2) (hheap : s'.heap = s.heap) :
    Housed buckets limits others s' ∧ Grows 0 others s s' := by
  obtain ⟨ht, hresettled⟩ := hf.sound hh.table
  exact hh.resettled ht hresettled hs hheap

theorem Housed.heed (hh : Housed buckets limits others s) (i : Interned) :
    Housed buckets limits others (s.heed i) ∧ Grows 0 others s (s.heed i) := by
  unfold Store.heed
  split
  · exact hh.tuned .requestCollection rfl rfl
  · exact ⟨hh, .refl _ _⟩

theorem Housed.internLocked (hh : Housed buckets limits others s) {r : Except AtomError Interned}
    (h : s.internLocked span lasting blob = .ok (r, s')) : Housed buckets limits others s' ∧ Grows 1 others s s' := by
  obtain ⟨htable, -, hgrows⟩ := internLocked_grows hh.table h
  exact ⟨hh.grows hgrows htable, hgrows⟩

/-- A hook for a new atom makes one more atom at most. -/
theorem Housed.runAcquire (hh : Housed buckets limits others s) {a : Atom} {hook : AcquireHook}
    {answer : AcquireAnswer} (h : s.runAcquire hook a = .ok (answer, s')) :
    Housed buckets limits others s' ∧ Grows 1 others s s' := by
  have hmore {s' : Store} (h : Housed buckets limits others s' ∧ Grows 0 others s s') :
      Housed buckets limits others s' ∧ Grows 1 others s s' := ⟨h.1, h.2.mono (Nat.zero_le _)⟩
  cases runAcquire_cases h with
  | observe => exact hmore ⟨hh, .refl _ _⟩
  | register => exact hmore (hh.tuned (.register a) rfl rfl)
  | unregister => exact hmore (hh.tuned (.unregister a) rfl rfl)
  | refused hintern => exact hh.internLocked hintern
  | interned hintern =>
    obtain ⟨hh₁, hgrows₁⟩ := hh.internLocked hintern
    obtain ⟨hh₂, hgrows₂⟩ := hh₁.heed _
    exact ⟨hh₂, hgrows₁.trans hgrows₂⟩

theorem Housed.acquire (hh : Housed buckets limits others s) {a : Atom} (h : s.acquire blob a = .ok s') :
    Housed buckets limits others s' ∧ Grows 1 others s s' := by
  cases acquire_cases h with
  | passed => exact ⟨hh, (Grows.refl others s).mono (Nat.zero_le _)⟩
  | called _ _ hrun =>
    -- The log is neither the heap nor the table.
    obtain ⟨hh₁, hgrows₁⟩ := hh.runAcquire hrun
    exact ⟨⟨hh₁.table, hh₁.heap, hh₁.pool⟩, ⟨hgrows₁.requests, hgrows₁.pools, hgrows₁.pool, hgrows₁.enabled,
      hgrows₁.margin, hgrows₁.nonGarbage, hgrows₁.slots, hgrows₁.slots_le, hgrows₁.count⟩⟩

theorem Housed.acquire_ends (hh : Housed buckets limits others s) (hbuckets : buckets < 2 ^ 62)
    (hslots : s.table.slots.size < 2 ^ 62) (hweigh : s.table.Weighable) (blob : BlobId) (a : Atom) :
    Ends (s.acquire blob a) True fun _ => True := by
  unfold Store.acquire
  split
  · exact .ok trivial
  · split
    · exact .ok trivial
    · rename_i hook _
      have hrun : Ends (s.runAcquire hook a) True fun _ => True := by
        cases hook with
        | internText bytes =>
          refine (hh.internLocked_ends hbuckets hslots hweigh { bytes } false BlobId.text).bind ?_
          rintro ⟨e | i, s₁⟩ -
          all_goals exact .ok trivial
        | _ => exact .ok trivial
      exact hrun.bind fun _ _ => .ok trivial

/-- Interning makes an atom at most, and its hook one more. -/
theorem Housed.internSpan (hh : Housed buckets limits others s) {r : Except AtomError Interned}
    (h : s.internSpan span lasting blob = .ok (r, s')) : Housed buckets limits others s' ∧ Grows 2 others s s' := by
  cases internSpan_cases h with
  | refused hintern =>
    obtain ⟨hh₁, hgrows₁⟩ := hh.internLocked hintern
    exact ⟨hh₁, hgrows₁.mono (Nat.le_succ _)⟩
  | found hintern =>
    obtain ⟨hh₁, hgrows₁⟩ := hh.internLocked hintern
    obtain ⟨hh₂, hgrows₂⟩ := hh₁.heed _
    exact ⟨hh₂, (hgrows₁.trans hgrows₂).mono (Nat.le_succ _)⟩
  | made hintern _ hacquire =>
    obtain ⟨hh₁, hgrows₁⟩ := hh.internLocked hintern
    obtain ⟨hh₂, hgrows₂⟩ := hh₁.acquire hacquire
    obtain ⟨hh₃, hgrows₃⟩ := hh₂.heed _
    exact ⟨hh₃, (hgrows₁.trans hgrows₂).trans hgrows₃⟩

theorem Housed.internSpan_ends (hh : Housed buckets limits others s) (hbuckets : buckets < 2 ^ 62)
    (hslots : s.table.slots.size + 1 < 2 ^ 62) (hweigh : s.table.Weighable) (span : Span) (lasting : Bool)
    (blob : BlobId) :
    Ends (s.internSpan span lasting blob) True fun p => Housed buckets limits others p.2 ∧ Grows 2 others s p.2 := by
  have hends : Ends (s.internSpan span lasting blob) True fun _ => True := by
    refine (hh.internLocked_ends hbuckets (Nat.lt_of_succ_lt hslots) hweigh span lasting blob).bind ?_
    rintro ⟨e | i, s₁⟩ ⟨hh₁, hgauge₁, hgrows₁⟩
    · exact .ok trivial
    · have hslots₁ := hgrows₁.slots_le
      simp only
      split
      · exact (hh₁.acquire_ends hbuckets (by omega) (hweigh.congr hgauge₁) blob i.atom).bind fun _ _ => .ok trivial
      · exact .ok trivial
  exact hends.and_eq.mono fun p hp => hh.internSpan hp.1

/-! ## Looking up, sweeping, and what the others do -/

theorem Housed.lookup_ends (hh : Housed buckets limits others s) (span : Span) (blob : BlobId) :
    Ends (s.lookup span blob) False fun p => Housed buckets limits others p.2 ∧ Grows 0 others s p.2 := by
  obtain ⟨⟨found, t⟩, h⟩ := hh.table.lookup_answers span blob
  have ha := Table.lookup_amended h
  refine .inl ⟨(found, ⟨s.heap, t, s.calls⟩), ?_, hh.resettled (hh.table.amended ha)
    (.of_steady (Table.lookup_steady h) ha.samePayloads (lookup_pool h)) rfl rfl⟩
  unfold Store.lookup
  simp only [h, bind, Except.bind]
  rfl

/-- A sweep always ends, and gives up a block at most for each atom that it destroys. -/
theorem Housed.sweep_ends (hh : Housed buckets limits others s) :
    Ends s.sweep False fun p =>
      Housed buckets limits others p.2 ∧ Grows 0 others s p.2 ∧ p.2.table.count + p.1 = s.table.count := by
  obtain ⟨swept, t, s', -, hbelow, hsweep, htable, -, hsound, hrequests, hsame⟩ :=
    sweep_requests hh.table hh.heap.settled hh.pool
  have hblocks := hbelow.blocks.length_eq
  have hcount := hbelow.count
  have hregions : swept.freed.size + s'.table.regions.length = s.table.regions.length := by
    simp only [List.length_append, Array.length_toList] at hblocks
    simp only [htable, Table.regions, List.length_map]
    exact hblocks.symm
  have hgrows : Grows 0 others s s' := by
    refine ⟨⟨_, hrequests, Nat.le_of_eq hregions⟩, hsame, ?_, ?_, ?_, .inr ?_, ?_, ?_, ?_⟩
    · rw [htable, hbelow.rest]
    · rw [htable, hbelow.rest]
    · rw [htable, hbelow.rest]
    · have := hsound.accounted.count_le
      rw [htable] at this ⊢
      exact this
    · rw [htable]
      exact Nat.le_of_eq hbelow.size.symm
    · rw [htable]
      exact Nat.le_of_eq hbelow.size
    · rw [htable]
      exact Nat.le_trans (Nat.le_add_right _ _) (Nat.le_of_eq hcount)
  exact .inl ⟨_, hsweep, hh.grows hgrows hsound, hgrows, by rw [htable]; exact hcount⟩

/-- What the others ask of the heap, as long as the pool of the table stays open. -/
theorem Housed.request (hh : Housed buckets limits others s) {heap : Heap} {others' : List Region}
    (hq : Heap.Request s.heap others heap others') (hpool : heap.HasPool (some s.table.pool))
    (calls : Array HookCall) : Housed buckets limits others' { s with heap, calls } := by
  obtain ⟨all, hall, hperm⟩ := hq.frame s.table.regions
  exact ⟨hh.table, (hh.heap.request hall).perm hperm, hpool⟩

/-- A store without atoms is housed in any heap. -/
theorem housed_empty {config : Config} (hc : config.check = .ok ()) {heap : Heap} {out : List Region}
    (hs : Solvent config.limits heap out) :
    Housed config.atomBuckets.toNat config.limits out (.empty heap config) :=
  ⟨Table.sound_empty (Table.atomBuckets_power hc) _, hs.request .openPool, fun _ hid => by
    cases hid
    exact List.mem_cons_self⟩

end Store

end AtomHeap
