import AtomHeap.Proofs.Table.Accounts
import AtomHeap.Proofs.Table.Chain
import AtomHeap.Table.Reference
/-!
# Sound tables

`Table.Sound buckets spare t`: the chains of `t` go through all its slots in use, its figures are
right, and it has not outgrown its chains, of which there were `buckets` at first. Making an atom and
destroying one keep a table sound; so does everything that leaves links, data and figures alone.
-/

namespace AtomHeap.Table

/-- The representation is as it has to be. -/
structure Sound (buckets spare : Nat) (t : Table) : Prop where
  linked : t.Linked fun _ => True
  accounted : t.Accounted spare
  chains : ∃ k, t.chains.size = buckets * 2 ^ k
  /-- There never are more chains than there were at first or are slots. -/
  room : t.chains.size ≤ max buckets t.slots.size
  load : t.count ≤ 2 * t.chains.size

variable {t t' : Table} {buckets spare index : Nat} {g : BitVec 24} {e : Entry} {s : Slot} {payload : Payload}
  {blob : BlobId} {hash : UInt64}

/-- Counting one more atom and doubling the chains are possible. -/
def Fits (t : Table) : Prop := t.count + 1 < wordCount ∧ 2 * t.chains.size < wordCount

/-! ## A new atom -/

/-- What making an atom changes: an entry comes into an empty slot, and nothing else but links, the
holes and the count is different. -/
structure Inserted (t : Table) (e : Entry) (index : Nat) (g : BitVec 24) (t' : Table) : Prop where
  vacant : t.entryAt? index = none
  boundary : t.builtin ≤ index
  le : index ≤ t.slots.size
  generation : g = (t.slots[index]?.map (·.generation)).getD 0
  slot : t'.slots[index]?.map Slot.bare = some ⟨g, some e.bare⟩
  others : ∀ i ≠ index, t'.slots[i]?.map Slot.bare = t.slots[i]?.map Slot.bare
  size : t'.slots.size = max t.slots.size (index + 1)
  chains : ∃ k, t'.chains.size = t.chains.size * 2 ^ k
  rest : t' = { t with slots := t'.slots, chains := t'.chains, holes := t'.holes, count := t.count + 1 }

/-- The slot that was taken is in use, with the generation of the new atom. -/
theorem Inserted.exists_slot (h : Inserted t e index g t') :
    ∃ s e', t'.slots[index]? = some s ∧ s.generation = g ∧ s.entry = some e' ∧ e'.bare = e.bare := by
  obtain ⟨s, hs, hbare⟩ := Option.map_eq_some_iff.1 h.slot
  have hentry : s.entry.map Entry.bare = some e.bare := congrArg (·.entry) hbare
  obtain ⟨e', he', hbare'⟩ := Option.map_eq_some_iff.1 hentry
  exact ⟨s, e', hs, congrArg (·.generation) hbare, he', hbare'⟩

theorem Inserted.of_some {i : Nat} {e' : Entry} (h : Inserted t e index g t') (he : t'.entryAt? i = some e') :
    (i = index ∧ e.bare = e'.bare) ∨ (i ≠ index ∧ ∃ e₀, t.entryAt? i = some e₀ ∧ e₀.bare = e'.bare) := by
  by_cases hi : i = index
  · subst hi
    have := map_bare_entryAt? t' i
    rw [h.slot, he] at this
    exact .inl ⟨rfl, (Option.some.inj this).symm⟩
  · exact .inr ⟨hi, of_bare_slot (h.others i hi) he⟩

theorem growIfFull_spec (hlinked : t.Linked fun _ => True) (hfits : 2 * t.chains.size < wordCount)
    (hload : t.count ≤ 2 * t.chains.size + 1) :
    ∃ t', t.growIfFull = .ok t' ∧ Relinked t t' ∧ (∃ k, t'.chains.size = t.chains.size * 2 ^ k) ∧
      t'.Linked (fun _ => True) ∧ t.count ≤ 2 * t'.chains.size ∧
      (t'.chains.size ≤ t.chains.size ∨ t'.chains.size < t.count) := by
  unfold growIfFull
  rw [checkedDouble_eq_ok_iff.2 ⟨hfits, rfl⟩]
  simp only [bind, Except.bind]
  split
  · rename_i hmore
    obtain ⟨t', hgrow, hre, hsize, hlinked'⟩ := Linked.grow hlinked.power hfits
    refine ⟨t', hgrow, hre, ⟨1, ?_⟩, hlinked', ?_, .inr ?_⟩
    · rw [hsize, Nat.pow_one, Nat.mul_comm]
    · have hpos := Nat.zero_lt_of_lt (number_lt hlinked.power 0)
      omega
    · rw [hsize]
      exact hmore
  · rename_i hless
    exact ⟨t, rfl, .refl t, ⟨0, by simp⟩, hlinked, Nat.le_of_not_lt hless, .inl (Nat.le_refl _)⟩

theorem growIfFull_overflow (h : ¬ 2 * t.chains.size < wordCount) : t.growIfFull = .error .overflow := by
  unfold growIfFull checkedDouble
  rw [if_neg h]
  rfl

/-- A slot that was set aside changes no entry. -/
theorem SetAside.entries {t₁ : Table} (h : SetAside t t₁ index s) : t₁.entryAt? = t.entryAt? := by
  funext i
  by_cases hi : i = index
  · rw [hi, h.vacant]
    exact IsEmpty.entryAt? ⟨s, h.slot, h.empty⟩
  · unfold entryAt?
    rw [h.others i hi]

theorem SetAside.linked {t₁ : Table} (h : SetAside t t₁ index s) (hl : t.Linked fun _ => True) :
    t₁.Linked fun i => i ≠ index := by
  have hchains : t₁.chains = t.chains := by rw [h.rest]
  refine (hl.congr hchains (fun i _ => by rw [h.entries]) (fun i _ => by rw [h.entries])).mono ?_
  intro i e he
  apply iff_true_intro
  rintro rfl
  rw [h.entries, h.vacant] at he
  cases he

/-- A table with a new entry in its slot, on its chain and counted, which still has its old chains. -/
structure Placed (t : Table) (e : Entry) (index : Nat) (g : BitVec 24) (t₁ : Table) : Prop where
  inserted : Inserted t e index g t₁
  linked : t₁.Linked fun _ => True
  accounted : t₁.Accounted 0
  chains : t₁.chains.size = t.chains.size

theorem Inserted.relinked {t₁ : Table} (h : Inserted t e index g t₁) (hre : Relinked t₁ t')
    (hchains : ∃ k, t'.chains.size = t₁.chains.size * 2 ^ k) : Inserted t e index g t' where
  vacant := h.vacant
  boundary := h.boundary
  le := h.le
  generation := h.generation
  slot := (hre.slots index).trans h.slot
  others i hi := (hre.slots i).trans (h.others i hi)
  size := hre.size.trans h.size
  chains := by
    obtain ⟨j, hj⟩ := h.chains
    obtain ⟨k, hk⟩ := hchains
    exact ⟨j + k, by rw [hk, hj, Nat.pow_add, Nat.mul_assoc]⟩
  rest := by
    rw [hre.rest, h.rest]

/-- Making an atom comes down to counting it and to doubling the chains if they are too few. -/
theorem Sound.place (h : t.Sound buckets payload.copied) (hhash : hash = Hash.ofBytes payload.bytes)
    (blob : BlobId) :
    ∃ g t₁, Placed t { payload, blob, hash, marked := t.marking } t.takeSlot.1 g t₁ ∧
      t.insert payload blob hash = do
        let _ ← checkedAdd t.count 1
        return (⟨.ofNat t.takeSlot.1, g⟩, ← t₁.growIfFull) := by
  obtain ⟨index, t₁, s, htake, hv⟩ :=
    takeSlot_setAside (fun i hi => (h.accounted.holes i).1 hi) h.accounted.boundary
  have hindex : t.takeSlot.1 = index := congrArg Prod.fst htake
  rw [hindex]
  have hlt : index < t₁.slots.size := (Array.getElem?_eq_some_iff.1 hv.slot).1
  obtain ⟨next, hlink, hlinked⟩ :=
    (hv.linked h.linked).link (fun h => h rfl) hlt { payload, blob, hash, marked := t₁.marking }
  generalize ht₂ : (t₁.setEntry index _).setFirst _ _ = t₂ at hlink hlinked
  have hcount : t₂.count = t.count := by
    rw [← ht₂, hv.rest]
    rfl
  have hchains : t₂.chains.size = t.chains.size := by
    rw [← ht₂, size_setFirst, chains_setEntry, hv.rest]
  have hslots : ∀ i, t₂.slots[i]? =
      if index = i then
        t₁.slots[i]?.map ({ · with entry := some { payload, blob, hash, next, marked := t₁.marking } })
      else t₁.slots[i]? := by
    intro i
    rw [← ht₂, slots_setFirst, slots_setEntry]
  refine ⟨s.generation, { t₂ with count := t.count + 1 }, ⟨⟨hv.vacant, hv.boundary, hv.le, hv.generation,
    ?_, ?_, ?_, ⟨0, ?_⟩, ?_⟩, ?_, ?_, hchains⟩, ?_⟩
  · rw [hslots, if_pos rfl, hv.slot, hv.rest]
    rfl
  · intro i hi
    rw [hslots, if_neg (Ne.symm hi), hv.others i hi]
  · rw [← ht₂, slots_setFirst, size_setEntry, hv.size]
  · rw [hchains, Nat.pow_zero, Nat.mul_one]
  · rw [← ht₂, hv.rest]
    rfl
  · refine (hlinked.mono ?_).congr rfl (fun _ _ => rfl) fun _ _ => rfl
    intro i _ _
    simp [em']
  · apply h.accounted.fill (e := { payload, blob, hash, next, marked := t₁.marking }) hv hhash
    all_goals rw [← ht₂]
    · rfl
    · rfl
    · rw [hv.rest]
      rfl
    · rw [hv.rest]
      rfl
  · unfold Table.insert
    rw [htake]
    simp only [bind, Except.bind, slot_eq_ok_iff.2 hv.slot, hlink, hcount]
    cases hadd : checkedAdd t.count 1 with
    | error e => rfl
    | ok count =>
      obtain ⟨-, rfl⟩ := checkedAdd_eq_ok_iff.1 hadd
      rfl

/-- Making an atom succeeds unless a figure outgrows its word. -/
theorem Sound.insert_taken (h : t.Sound buckets payload.copied) (hhash : hash = Hash.ofBytes payload.bytes)
    (blob : BlobId) :
    (¬ t.Fits ∧ t.insert payload blob hash = .error .overflow) ∨
    (t.Fits ∧ ∃ g t', t.insert payload blob hash = .ok (⟨.ofNat t.takeSlot.1, g⟩, t') ∧
      Inserted t { payload, blob, hash, marked := t.marking } t.takeSlot.1 g t' ∧ t'.Sound buckets 0) := by
  obtain ⟨g, t₁, hp, hinsert⟩ := h.place hhash blob
  have hcount : t₁.count = t.count + 1 := by rw [hp.inserted.rest]
  by_cases hfits : t.Fits
  case neg =>
    refine .inl ⟨hfits, ?_⟩
    rw [hinsert]
    unfold checkedAdd
    split
    · rename_i hcount
      -- If the count fits then it is the number of chains that does not.
      have hgrow : t₁.growIfFull = .error .overflow := by
        apply growIfFull_overflow
        rw [hp.chains]
        exact fun hsize => hfits ⟨hcount, hsize⟩
      simp only [bind, Except.bind, hgrow]
    · rfl
  obtain ⟨t', hgrow, hre, hchains, hlinked, hload, hroom⟩ := growIfFull_spec hp.linked (hp.chains ▸ hfits.2)
    (by rw [hcount, hp.chains]; exact Nat.succ_le_succ h.load)
  have hinserted := hp.inserted.relinked hre hchains
  refine .inr ⟨hfits, g, t', ?_, hinserted, hlinked, ?_, ?_, ?_, ?_⟩
  · rw [hinsert, checkedAdd_eq_ok_iff.2 ⟨hfits.1, rfl⟩]
    simp only [bind, Except.bind, hgrow]
    rfl
  · exact hp.accounted.congr hre.sameData (by rw [hre.rest]) (by rw [hre.rest]) (by rw [hre.rest])
      (by rw [hre.rest])
  · obtain ⟨j, hj⟩ := h.chains
    obtain ⟨k, hk⟩ := hinserted.chains
    exact ⟨j + k, by rw [hk, hj, Nat.pow_add, Nat.mul_assoc]⟩
  · -- There are more chains than before only if atoms outnumbered them, and each atom has a slot.
    have hroom₀ := h.room
    have hle := hp.accounted.count_le
    have hsize := hp.inserted.size
    have hchains₀ := hp.chains
    rw [hre.size]
    omega
  · rw [hre.rest]
    exact hload

theorem Sound.insert (h : t.Sound buckets payload.copied) (hhash : hash = Hash.ofBytes payload.bytes)
    (blob : BlobId) :
    (¬ t.Fits ∧ t.insert payload blob hash = .error .overflow) ∨
    (t.Fits ∧ ∃ index g t', t.insert payload blob hash = .ok (⟨.ofNat index, g⟩, t') ∧
      Inserted t { payload, blob, hash, marked := t.marking } index g t' ∧ t'.Sound buckets 0) :=
  (h.insert_taken hhash blob).imp_right fun ⟨hfits, hinsert⟩ => ⟨hfits, _, hinsert⟩

theorem takeSlot_fst (t : Table) :
    t.takeSlot.1 = (if t.agcEnabled then t.holes.min? else none).getD t.slots.size := by
  unfold takeSlot
  cases (if t.agcEnabled then t.holes.min? else none) <;> rfl

theorem takeSlot_of_no_holes (h : t.holes = ∅) :
    t.takeSlot = (t.slots.size, { t with slots := t.slots.push {} }) := by
  unfold takeSlot
  rw [h]
  cases t.agcEnabled <;> simp

theorem insert_of_no_holes {t₁ : Table} {count : Nat} (h : t.holes = ∅)
    (hs : { t with slots := t.slots.push {} }.slot t.slots.size = .ok s)
    (hl : { t with slots := t.slots.push {} }.link t.slots.size
      { payload, blob, hash, marked := t.marking } = .ok t₁)
    (hc : checkedAdd t₁.count 1 = .ok count) (hg : { t₁ with count }.growIfFull = .ok t') :
    t.insert payload blob hash = .ok (s.atom t.slots.size, t') := by
  unfold insert
  rw [takeSlot_of_no_holes h]
  simp only [hs, bind, Except.bind, hl, hc, hg]
  rfl

/-! ## An atom less -/

/-- What destroying an atom changes: its slot is emptied, and nothing else but links, the holes and
the figures is different. -/
structure Destroyed (t : Table) (index : Nat) (e : Entry) (t' : Table) : Prop where
  slot : t'.slots[index]? = t.slots[index]?.map fun s => ⟨s.generation + 1, none⟩
  others : ∀ i ≠ index, t'.slots[i]?.map Slot.bare = t.slots[i]?.map Slot.bare
  size : t'.slots.size = t.slots.size
  chains : t'.chains.size = t.chains.size
  rest : t' = { t with
    slots := t'.slots, chains := t'.chains, holes := t'.holes
    count := t.count - 1, bytes := t.bytes - e.payload.copied }

theorem Destroyed.of_some {i : Nat} {e' : Entry} (h : Destroyed t index e t') (he : t'.entryAt? i = some e') :
    i ≠ index ∧ ∃ e₀, t.entryAt? i = some e₀ ∧ e₀.bare = e'.bare := by
  have hi : i ≠ index := by
    rintro rfl
    unfold entryAt? at he
    rw [h.slot] at he
    cases hs : t.slots[i]? with
    | none =>
      rw [hs] at he
      cases he
    | some s =>
      rw [hs] at he
      cases he
  exact ⟨hi, of_bare_slot (h.others i hi) he⟩

theorem Sound.destroy (h : t.Sound buckets spare) (he : t.entryAt? index = some e) (hle : t.builtin ≤ index) :
    ∃ t', t.destroy index = .ok (e.payload.block?, t') ∧ Destroyed t index e t' ∧ t'.Sound buckets spare := by
  obtain ⟨s, hs, hse⟩ := slot_of_entryAt? he
  obtain ⟨hcount, hbytes⟩ := h.accounted.figures he
  obtain ⟨t₁, hunlink, hre, hsize, hlinked⟩ := h.linked.unlink trivial he
  obtain ⟨s₁, e₁, hs₁, hg, he₁, hpayload⟩ := hre.of_slot (slot_eq_ok_iff.1 hs) hse
  generalize ht' : ({ t₁ with
    slots := t₁.slots.modify index fun s => { generation := s.generation + 1, entry := none }
    holes := t₁.holes.insert index
    count := t.count - 1
    bytes := t.bytes - e.payload.copied } : Table) = t'
  have hslots : ∀ i, t'.slots[i]? =
      if index = i then t₁.slots[i]?.map (fun s => ⟨s.generation + 1, none⟩) else t₁.slots[i]? := by
    intro i
    rw [← ht', Array.getElem?_modify]
  refine ⟨t', ?_, ⟨?_, ?_, ?_, ?_, ?_⟩, ⟨?_, ?_, ?_, ?_, ?_⟩⟩
  · have hcount₁ : checkedSub t₁.count 1 = .ok (t.count - 1) := by
      rw [hre.rest, checkedSub_eq_ok_iff]
      exact ⟨hcount, rfl⟩
    have hbytes₁ : checkedSub t₁.bytes e.payload.copied = .ok (t.bytes - e.payload.copied) := by
      rw [hre.rest, checkedSub_eq_ok_iff]
      exact ⟨hbytes, rfl⟩
    unfold Table.destroy
    simp only [bind, Except.bind, hs, hse, hunlink, hcount₁, hbytes₁, ht']
    rfl
  · rw [hslots, if_pos rfl, hs₁, slot_eq_ok_iff.1 hs]
    rw [Option.map_some, Option.map_some, hg]
  · intro i hi
    rw [hslots, if_neg (Ne.symm hi), hre.slots]
  · rw [← ht', Array.size_modify, hre.size]
  · rw [← ht', hsize]
  · rw [← ht', hre.rest]
  · refine hlinked.vacate (by rw [← ht']) ?_ ?_
    · unfold entryAt?
      rw [hslots, if_pos rfl, hs₁]
      rfl
    · intro i hi
      unfold entryAt?
      rw [hslots, if_neg (Ne.symm hi)]
  · have h₁ : t₁.Accounted spare :=
      h.accounted.congr hre.sameData (by rw [hre.rest]) (by rw [hre.rest]) (by rw [hre.rest]) (by rw [hre.rest])
    refine h₁.vacate hs₁ he₁ ?_ (f := fun s => ⟨s.generation + 1, none⟩) rfl ?_ ?_ ?_ ?_ ?_
    · rw [hre.rest]
      exact hle
    all_goals rw [← ht']
    · rw [hre.rest]
      exact Nat.sub_add_cancel hcount
    · rw [hpayload, hre.rest]
      exact Nat.sub_add_cancel hbytes
  · rw [← ht', hsize]
    exact h.chains
  · rw [← ht', hsize, Array.size_modify, hre.size]
    exact h.room
  · rw [← ht', hsize]
    exact Nat.le_trans (Nat.sub_le _ _) h.load

end AtomHeap.Table
