import AtomHeap.Proofs.Table.Gauge
/-!
# How many chains there are

A table doubles its chains only when the atoms are more than twice as many. So as long as no atom is
destroyed, how many chains there are depends on how many there were at first and on the atoms alone
(`Snug.chains_eq`).
-/

namespace AtomHeap.Table

variable {t t' : Table} {buckets : Nat} {payload : Payload} {span : Span} {blob : BlobId} {type : BlobType}
  {hash : UInt64} {a : Atom}

/-- There are as many chains as at first, or fewer than atoms. -/
def Snug (buckets : Nat) (t : Table) : Prop := t.chains.size = buckets ∨ t.chains.size < t.count

/-- Tables with equally many atoms have equally many chains. -/
theorem Snug.chains_eq (h : t.Snug buckets) (h' : t'.Snug buckets) (hs : t.Sound buckets 0) (hs' : t'.Sound buckets 0)
    (hcount : t'.count = t.count) : t'.chains.size = t.chains.size := by
  -- One more doubling than another would have been one without need.
  have hmore {t t' : Table} (h' : t'.Snug buckets) (hs : t.Sound buckets 0) (hcount : t'.count = t.count)
      {j k : Nat} (hj : t.chains.size = buckets * 2 ^ j) (hk : t'.chains.size = buckets * 2 ^ k) : ¬ j < k := by
    intro hlt
    have hdouble : 2 * t.chains.size ≤ t'.chains.size := by
      rw [hj, hk, Nat.mul_left_comm, ← Nat.pow_succ']
      exact Nat.mul_le_mul_left _ (Nat.pow_le_pow_right (by decide) hlt)
    have hload := hs.load
    have hpos := Nat.zero_lt_of_lt (number_lt hs.linked.power 0)
    have hfirst : buckets ≤ t.chains.size := by
      rw [hj]
      exact Nat.le_mul_of_pos_right _ (Nat.two_pow_pos j)
    rcases h' with heq | hless <;> omega
  obtain ⟨j, hj⟩ := hs.chains
  obtain ⟨k, hk⟩ := hs'.chains
  have heq : j = k := Nat.le_antisymm (Nat.le_of_not_lt (hmore h hs' hcount.symm hk hj))
    (Nat.le_of_not_lt (hmore h' hs hcount hj hk))
  rw [hj, hk, heq]

/-- The chains stay, or there are fewer of them than atoms. -/
theorem Sound.insert_chains (hs : t.Sound buckets payload.copied) (hhash : hash = Hash.ofBytes payload.bytes)
    (hi : t.insert payload blob hash = .ok (a, t')) :
    t'.chains.size = t.chains.size ∨ t'.chains.size < t'.count := by
  obtain ⟨g, t₁, hp, hinsert⟩ := hs.place hhash blob
  have hcount : t₁.count = t.count + 1 := by rw [hp.inserted.rest]
  rw [hinsert] at hi
  obtain ⟨count, -, hi⟩ := bind_eq_ok_iff.1 hi
  obtain ⟨t₂, hgrow, hi⟩ := bind_eq_ok_iff.1 hi
  cases hi
  have hfits : 2 * t₁.chains.size < wordCount := by
    refine Decidable.byContradiction fun hover => ?_
    rw [growIfFull_overflow hover] at hgrow
    cases hgrow
  obtain ⟨t₂, hgrow', hre, ⟨k, hk⟩, -, -, hroom⟩ := growIfFull_spec hp.linked hfits
    (by rw [hcount, hp.chains]; exact Nat.succ_le_succ hs.load)
  rw [hgrow] at hgrow'
  cases hgrow'
  have hcount' : t'.count = t₁.count := by rw [hre.rest]
  rcases hroom with hle | hless
  · rw [← hp.chains]
    exact .inl (Nat.le_antisymm hle (hk ▸ Nat.le_mul_of_pos_right _ (Nat.two_pow_pos k)))
  · exact .inr (hcount' ▸ hless)

theorem Snug.insert (h : t.Snug buckets) (hs : t.Sound buckets payload.copied)
    (hhash : hash = Hash.ofBytes payload.bytes) (hi : t.insert payload blob hash = .ok (a, t')) :
    t'.Snug buckets := by
  rcases hs.insert_chains hhash hi with hsame | hless
  · have hmore := (insert_gauge hi).2
    unfold Snug at h ⊢
    omega
  · exact .inr hless

theorem Snug.made (h : t.Snug buckets) (hs : t.Sound buckets 0) (hw : Wanted t span blob payload type)
    (hi : { t with bytes := t.bytes + payload.copied }.insert payload blob (Hash.ofBytes span.bytes) = .ok (a, t')) :
    t'.Snug buckets :=
  Snug.insert (t := { t with bytes := t.bytes + payload.copied }) h (hs.withSpare payload.copied)
    (congrArg Hash.ofBytes hw.bytes.symm) hi

end AtomHeap.Table
