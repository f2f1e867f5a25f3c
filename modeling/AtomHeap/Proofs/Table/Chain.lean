import AtomHeap.Proofs.Table.Slots
import Mathlib.Data.List.Perm.Subperm
/-!
# Chains

`Path read first l`: going on from slot to slot, from `first`, leads through the slots `l` and then
ends. A path is settled by the links of the slots on it, so it stays as it is when others change.

`Table.Linked t on`: each chain of `t` is a path through just those slots in use, of the ones in
`on`, whose hash selects it. Linking a slot puts it into `on` and unlinking takes it out. Both
succeed, because a walk along a path never comes to a slot twice.
-/

namespace AtomHeap.Table

variable {t : Table} {on : Nat → Prop} {read read' : Nat → Option Entry} {first next : Option Nat}
  {l : List Nat}
  {index i k steps : Nat} {e : Entry}

/-! ## Paths -/

/-- Going on from a slot leads through these slots, all of them in use, and ends. -/
inductive Path (read : Nat → Option Entry) : Option Nat → List Nat → Prop
  | nil : Path read none []
  | cons {i : Nat} {e : Entry} {l : List Nat} :
      read i = some e → Path read e.next l → Path read (some i) (i :: l)

namespace Path

theorem congr (h : Path read first l) (hl : ∀ i ∈ l, (read' i).map (·.next) = (read i).map (·.next)) :
    Path read' first l := by
  induction h with
  | nil => exact .nil
  | @cons i e l hi _ ih =>
    have hnext := hl i (.head _)
    rw [hi, Option.map_some, Option.map_eq_some_iff] at hnext
    obtain ⟨e', hi', hnext⟩ := hnext
    refine .cons hi' ?_
    rw [hnext]
    exact ih fun j hj => hl j (.tail _ hj)

theorem in_use (h : Path read first l) (hi : i ∈ l) : ∃ e, read i = some e := by
  induction h with
  | nil => cases hi
  | cons he _ ih =>
    rcases List.mem_cons.1 hi with rfl | hi
    · exact ⟨_, he⟩
    · exact ih hi

theorem length_le (h : Path t.entryAt? first l) (hn : l.Nodup) : l.length ≤ t.slots.size := by
  have hsub : l ⊆ List.range t.slots.size := by
    intro i hi
    obtain ⟨e, he⟩ := h.in_use hi
    exact List.mem_range.2 (lt_of_entryAt? he)
  simpa using (List.subperm_of_subset hn hsub).length_le

end Path

/-! ## Searching and bypassing -/

/-- What a search passes has the hash and the type that are searched for. -/
theorem key_of_isFor {hash : UInt64} {span : Span} {blob : BlobId} {nocopy : Bool}
    (h : isFor e hash span blob nocopy = true) : e.hash = hash ∧ e.blob = blob := by
  simp only [isFor, Bool.and_eq_true, beq_iff_eq] at h
  exact h.1

/-- A search that has a step for each slot of the path finds the first slot that passes. -/
theorem search_of_path (h : Path t.entryAt? first l) (pass : Entry → Bool) (hsteps : l.length ≤ steps) :
    t.search pass steps first = .ok (l.find? fun i => (t.entryAt? i).any pass) := by
  induction h generalizing steps with
  | nil => cases steps <;> rfl
  | @cons i e l hi _ ih =>
    cases steps with
    | zero => cases hsteps
    | succ steps =>
      obtain ⟨s, hs, he⟩ := slot_of_entryAt? hi
      unfold search
      rw [hs]
      simp only [bind, Except.bind, he, List.find?_cons, hi, Option.any_some]
      cases pass e with
      | true => rfl
      | false => exact ih (Nat.le_of_succ_le_succ hsteps)

/-- Bypassing a slot that is on a path, but not its first, takes it off that path and changes nothing
but the link of one other slot. -/
theorem bypass_of_path (h : Path t.entryAt? first l) (hn : l.Nodup) (hi : index ∈ l)
    (hfirst : first ≠ some index)
    (he : t.entryAt? index = some e) (hsteps : l.length ≤ steps) :
    ∃ p ep, t.entryAt? p = some ep ∧ p ∈ l ∧ p ≠ index ∧
      t.bypass index e.next steps first = .ok (t.setEntry p (some { ep with next := e.next })) ∧
      Path (t.setEntry p (some { ep with next := e.next })).entryAt? first (l.erase index) := by
  induction h generalizing steps with
  | nil => cases hi
  | @cons i ei l hei hl ih =>
    cases steps with
    | zero => cases hsteps
    | succ steps =>
      obtain ⟨hil, hn⟩ := List.nodup_cons.1 hn
      have hne : i ≠ index := fun h => hfirst (congrArg some h)
      have hi : index ∈ l := (List.mem_cons.1 hi).resolve_left hne.symm
      rw [List.erase_cons_tail (by simpa using hne)]
      obtain ⟨s, hs, hse⟩ := slot_of_entryAt? hei
      -- The slot comes next, or further on along the path.
      by_cases hnext : ei.next = some index
      · refine ⟨i, ei, hei, .head _, hne, ?_, ?_⟩
        · unfold bypass
          rw [hs]
          simp only [bind, Except.bind, hse, if_pos hnext]
          rfl
        · refine .cons (entryAt?_setEntry_self (lt_of_entryAt? hei) _) ?_
          rw [hnext] at hl
          cases hl with
          | cons hei' hl =>
            rw [he, Option.some.injEq] at hei'
            rw [List.erase_cons_head]
            subst hei'
            -- The path comes to no slot twice, so the changed link is not on the rest of it.
            apply hl.congr
            intro j hj
            rw [entryAt?_setEntry_ne]
            rintro rfl
            exact hil (.tail _ hj)
      · obtain ⟨p, ep, hep, hp, hpi, hby, hpath⟩ := ih hn hi hnext (Nat.le_of_succ_le_succ hsteps)
        have hip : i ≠ p := fun h => hil (h ▸ hp)
        refine ⟨p, ep, hep, .tail _ hp, hpi, ?_, .cons ?_ hpath⟩
        · unfold bypass
          rw [hs]
          simp only [bind, Except.bind, hse, if_neg hnext]
          exact hby
        · rw [entryAt?_setEntry_ne hip, hei]

/-! ## Tables whose chains are paths -/

/-- The number of the chain that a hash selects. -/
def number (t : Table) (hash : UInt64) : Nat := Hash.fold hash t.chains.size.log2

/-- The number of the chain that the slot of an index belongs on, if that slot is in use. -/
def chainAt? (t : Table) (i : Nat) : Option Nat := (t.entryAt? i).map fun e => t.number e.hash

/-- A chain is a path, without repetition, through just the slots in `on` that belong on it. -/
def IsChain (t : Table) (on : Nat → Prop) (n : Nat) : Prop :=
  ∃ first l, t.chains[n]? = some first ∧ Path t.entryAt? first l ∧ l.Nodup ∧
    ∀ i, i ∈ l ↔ on i ∧ t.chainAt? i = some n

/-- All chains are paths through the slots in `on` that belong on them. -/
structure Linked (t : Table) (on : Nat → Prop) : Prop where
  power : isPowerOfTwo t.chains.size = true
  chain : ∀ n < t.chains.size, t.IsChain on n

theorem number_lt (hpower : isPowerOfTwo t.chains.size = true) (hash : UInt64) :
    t.number hash < t.chains.size := by
  have h := Hash.fold_lt hash t.chains.size.log2
  rw [isPowerOfTwo, beq_iff_eq] at hpower
  rwa [hpower] at h

theorem number_congr {t' : Table} (h : t'.chains.size = t.chains.size) (hash : UInt64) :
    t'.number hash = t.number hash := by
  unfold number
  rw [h]

theorem chainAt?_congr {t' : Table} (h : t'.chains.size = t.chains.size)
    (hhash : (t'.entryAt? i).map (·.hash) = (t.entryAt? i).map (·.hash)) : t'.chainAt? i = t.chainAt? i := by
  have hnum : t'.number = t.number := funext (number_congr h)
  have := congrArg (Option.map t.number) hhash
  rw [Option.map_map, Option.map_map] at this
  unfold chainAt?
  rw [hnum]
  exact this

/-- The number and the first slot of the chain of a hash. -/
theorem chainOf_of_power (hpower : isPowerOfTwo t.chains.size = true) (hash : UInt64)
    (hfirst : t.chains[t.number hash]? = some first) : t.chainOf hash = .ok (t.number hash, first) := by
  unfold number at hfirst
  unfold chainOf Hash.chain
  rw [if_pos hpower]
  simp only [bind, Except.bind, hfirst]
  rfl

namespace Linked

/-- Linking does not depend on what else is in the entries, nor on slots that are not in `on`. -/
theorem congr (h : t.Linked on) {t' : Table} (hc : t'.chains = t.chains)
    (hnext : ∀ i, on i → (t'.entryAt? i).map (·.next) = (t.entryAt? i).map (·.next))
    (hhash : ∀ i, on i → (t'.entryAt? i).map (·.hash) = (t.entryAt? i).map (·.hash)) : t'.Linked on := by
  refine ⟨hc ▸ h.power, fun n hlt => ?_⟩
  obtain ⟨first, l, hfirst, hpath, hn, hl⟩ := h.chain n (hc ▸ hlt)
  refine ⟨first, l, hc ▸ hfirst, hpath.congr fun i hi => hnext i ((hl i).1 hi).1, hn, fun i => ?_⟩
  rw [hl i]
  apply and_congr_right
  intro hon
  rw [chainAt?_congr (congrArg Array.size hc) (hhash i hon)]

theorem mono (h : t.Linked on) {on' : Nat → Prop} (hon : ∀ i e, t.entryAt? i = some e → (on' i ↔ on i)) :
    t.Linked on' := by
  refine ⟨h.power, fun n hlt => ?_⟩
  obtain ⟨first, l, hfirst, hpath, hn, hl⟩ := h.chain n hlt
  refine ⟨first, l, hfirst, hpath, hn, fun i => ?_⟩
  rw [hl i]
  apply and_congr_left
  intro hi
  obtain ⟨e, he, -⟩ := Option.map_eq_some_iff.1 hi
  exact (hon i e he).symm

/-- The chain of a hash. The walk along it meets each slot on it once and ends. -/
theorem walk (h : t.Linked on) (hash : UInt64) :
    ∃ first l, t.chainOf hash = .ok (t.number hash, first) ∧ t.chains[t.number hash]? = some first ∧
      Path t.entryAt? first l ∧ l.Nodup ∧ (∀ i, i ∈ l ↔ on i ∧ t.chainAt? i = some (t.number hash)) := by
  obtain ⟨first, l, hfirst, hrest⟩ := h.chain _ (number_lt h.power hash)
  exact ⟨first, l, chainOf_of_power h.power hash hfirst, hfirst, hrest⟩

/-- A new chain in the place of one leaves all others alone, if no slot on them changed. -/
theorem replace (h : t.Linked on) {t' : Table} {on' : Nat → Prop} (n : Nat)
    (hsize : t'.chains.size = t.chains.size)
    (hchains : ∀ m ≠ n, t'.chains[m]? = t.chains[m]?)
    (hsame : ∀ i, on i → t.chainAt? i ≠ some n → t'.entryAt? i = t.entryAt? i)
    (hon : ∀ m ≠ n, ∀ i, on' i ∧ t'.chainAt? i = some m ↔ on i ∧ t.chainAt? i = some m)
    (hchain : t'.IsChain on' n) : t'.Linked on' := by
  refine ⟨hsize ▸ h.power, fun m hlt => ?_⟩
  by_cases hm : m = n
  · exact hm ▸ hchain
  · obtain ⟨first, l, hfirst, hpath, hn, hl⟩ := h.chain m (hsize ▸ hlt)
    refine ⟨first, l, (hchains m hm).trans hfirst, hpath.congr ?_, hn, ?_⟩
    · intro i hi
      obtain ⟨hi, him⟩ := (hl i).1 hi
      rw [hsame i hi]
      rw [him, ne_eq, Option.some.injEq]
      exact hm
    · intro i
      rw [hl i, hon m hm i]

/-- Linking a slot puts an entry into it and the slot on its chain. -/
theorem link (h : t.Linked on) (hon : ¬ on index) (hlt : index < t.slots.size) (e : Entry) :
    ∃ next, t.link index e =
        .ok ((t.setEntry index (some { e with next })).setFirst (t.number e.hash) (some index)) ∧
      ((t.setEntry index (some { e with next })).setFirst (t.number e.hash) (some index)).Linked
        fun i => on i ∨ i = index := by
  obtain ⟨next, l, hc, hfirst, hpath, hn, hl⟩ := h.walk e.hash
  refine ⟨next, ?_, ?_⟩
  · unfold Table.link
    rw [hc]
    rfl
  generalize ht' : (t.setEntry index (some { e with next })).setFirst (t.number e.hash) (some index) = t'
  have hsize : t'.chains.size = t.chains.size := by
    rw [← ht', size_setFirst, chains_setEntry]
  have hself : t'.entryAt? index = some { e with next } := by
    rw [← ht', entryAt?_setFirst, entryAt?_setEntry_self hlt]
  have hother : ∀ i ≠ index, t'.entryAt? i = t.entryAt? i := by
    intro i hi
    rw [← ht', entryAt?_setFirst, entryAt?_setEntry_ne hi]
  have hselfAt : t'.chainAt? index = some (t.number e.hash) := by
    unfold chainAt?
    rw [hself, Option.map_some, number_congr hsize]
  have hotherAt : ∀ i ≠ index, t'.chainAt? i = t.chainAt? i := fun i hi =>
    chainAt?_congr hsize (congrArg _ (hother i hi))
  have hne : ∀ i, on i → i ≠ index := fun i hi h => hon (h ▸ hi)
  -- The slot comes first on its chain. No other chain changes.
  refine h.replace (t.number e.hash) hsize ?_ (fun i hi _ => hother i (hne i hi)) ?_ ?_
  · intro m hm
    rw [← ht', chains_setFirst, chains_setEntry, if_neg (Ne.symm hm)]
  · intro m hm i
    by_cases hi : i = index
    · subst hi
      rw [hselfAt, Option.some.injEq]
      simp [hon, Ne.symm hm]
    · rw [hotherAt i hi]
      simp [hi]
  · refine ⟨some index, index :: l, ?_, .cons hself (hpath.congr ?_), ?_, ?_⟩
    · rw [← ht', chains_setFirst, if_pos rfl, chains_setEntry, hfirst, Option.map_some]
    · intro i hi
      rw [hother i (hne i ((hl i).1 hi).1)]
    · exact List.nodup_cons.2 ⟨fun hi => hon ((hl _).1 hi).1, hn⟩
    · intro i
      rw [List.mem_cons, hl i]
      by_cases hi : i = index
      · subst hi
        simp [hselfAt]
      · rw [hotherAt i hi]
        simp [hi]

/-- A slot is missed on its own chain only. -/
theorem without_iff {n : Nat} (hat : t.chainAt? index = some n) {m : Nat} (hm : m ≠ n) (i : Nat) :
    (on i ∧ i ≠ index) ∧ t.chainAt? i = some m ↔ on i ∧ t.chainAt? i = some m := by
  rw [and_right_comm]
  apply and_iff_left_of_imp
  rintro ⟨_, hi⟩ hindex
  rw [hindex, hat, Option.some.injEq] at hi
  exact hm hi.symm

theorem chainAt?_of_entryAt? (he : t.entryAt? index = some e) :
    t.chainAt? index = some (t.number e.hash) := by
  unfold chainAt?
  rw [he, Option.map_some]

/-- The first slot of a chain is taken off. -/
theorem unlinkFirst (h : t.Linked on) (he : t.entryAt? index = some e)
    (hfirst : t.chains[t.number e.hash]? = some (some index)) {l : List Nat}
    (hpath : Path t.entryAt? (some index) l)
    (hn : l.Nodup) (hl : ∀ i, i ∈ l ↔ on i ∧ t.chainAt? i = some (t.number e.hash)) :
    (t.setFirst (t.number e.hash) e.next).Linked fun i => on i ∧ i ≠ index := by
  have hchainAt : ∀ i, (t.setFirst (t.number e.hash) e.next).chainAt? i = t.chainAt? i := by
    intro i
    exact chainAt?_congr (size_setFirst _ _ _) rfl
  refine h.replace (t.number e.hash) (size_setFirst _ _ _) ?_ (fun _ _ _ => rfl) ?_ ?_
  · intro m hm
    rw [chains_setFirst, if_neg (Ne.symm hm)]
  · intro m hm i
    rw [hchainAt i]
    exact without_iff (chainAt?_of_entryAt? he) hm i
  · cases hpath with
    | @cons _ e' l he' hpath =>
      rw [he, Option.some.injEq] at he'
      subst he'
      obtain ⟨hnot, hn⟩ := List.nodup_cons.1 hn
      refine ⟨e.next, l, ?_, hpath, hn, ?_⟩
      · rw [chains_setFirst, if_pos rfl, hfirst, Option.map_some]
      · intro i
        rw [hchainAt, and_right_comm, ← hl i, List.mem_cons]
        constructor
        · intro hi
          exact ⟨.inr hi, fun h => hnot (h ▸ hi)⟩
        · rintro ⟨hi, hne⟩
          exact hi.resolve_left hne

/-- A slot that follows another is taken off. -/
theorem unlinkNext (h : t.Linked on) (he : t.entryAt? index = some e) {first : Option Nat} {l : List Nat}
    {p : Nat} {ep : Entry}
    (hfirst : t.chains[t.number e.hash]? = some first) (hn : l.Nodup)
    (hl : ∀ i, i ∈ l ↔ on i ∧ t.chainAt? i = some (t.number e.hash)) (hep : t.entryAt? p = some ep)
    (hp : p ∈ l)
    (hpath : Path (t.setEntry p (some { ep with next := e.next })).entryAt? first (l.erase index)) :
    (t.setEntry p (some { ep with next := e.next })).Linked fun i => on i ∧ i ≠ index := by
  have hchainAt : ∀ i, (t.setEntry p (some { ep with next := e.next })).chainAt? i = t.chainAt? i := by
    intro i
    refine chainAt?_congr rfl ?_
    by_cases hi : i = p
    · subst hi
      rw [entryAt?_setEntry_self (lt_of_entryAt? hep), hep, Option.map_some, Option.map_some]
    · rw [entryAt?_setEntry_ne hi]
  refine h.replace (t.number e.hash) rfl (fun _ _ => rfl) ?_ ?_
    ⟨first, l.erase index, hfirst, hpath, hn.erase index, ?_⟩
  · intro i _ hi
    rw [entryAt?_setEntry_ne]
    rintro rfl
    exact hi ((hl i).1 hp).2
  · intro m hm i
    rw [hchainAt i]
    exact without_iff (chainAt?_of_entryAt? he) hm i
  · intro i
    rw [hn.mem_erase_iff, hl i, hchainAt, and_comm, and_right_comm]

/-- Unlinking a slot takes it off its chain and changes links only. -/
theorem unlink (h : t.Linked on) (hon : on index) (he : t.entryAt? index = some e) :
    ∃ t', t.unlink index e = .ok t' ∧ Relinked t t' ∧ t'.chains.size = t.chains.size ∧
      t'.Linked fun i => on i ∧ i ≠ index := by
  obtain ⟨first, l, hc, hfirst, hpath, hn, hl⟩ := h.walk e.hash
  have hindex : index ∈ l := (hl index).2 ⟨hon, chainAt?_of_entryAt? he⟩
  unfold Table.unlink
  rw [hc]
  simp only [bind, Except.bind]
  by_cases hhead : first = some index
  · subst hhead
    rw [if_pos rfl]
    exact ⟨_, rfl, ⟨rfl, rfl⟩, size_setFirst _ _ _, h.unlinkFirst he hfirst hpath hn hl⟩
  · rw [if_neg hhead]
    obtain ⟨p, ep, hep, hp, -, hby, hpath'⟩ := bypass_of_path hpath hn hindex hhead he (hpath.length_le hn)
    exact ⟨_, hby, .setNext hep e.next, rfl, h.unlinkNext he hfirst hn hl hep hp hpath'⟩

/-- A slot that was unlinked may be emptied. -/
theorem vacate (h : t.Linked fun i => on i ∧ i ≠ index) {t' : Table} (hchains : t'.chains = t.chains)
    (hempty : t'.entryAt? index = none) (hsame : ∀ i ≠ index, t'.entryAt? i = t.entryAt? i) :
    t'.Linked on := by
  refine (h.congr hchains ?_ ?_).mono ?_
  · intro i hi
    rw [hsame i hi.2]
  · intro i hi
    rw [hsame i hi.2]
  · intro i e he
    refine (and_iff_left ?_).symm
    rintro rfl
    rw [hempty] at he
    cases he

/-- What `find` gives passes, and if it gives nothing then nothing passes. -/
theorem find (h : t.Linked fun _ => True) (hash : UInt64) (span : Span) (blob : BlobId) (nocopy : Bool) :
    ∃ found, t.find hash span blob nocopy = .ok found ∧
      (∀ i ∈ found, ∃ e, t.entryAt? i = some e ∧ isFor e hash span blob nocopy) ∧
      (found = none → ∀ i e, t.entryAt? i = some e → ¬ isFor e hash span blob nocopy) := by
  obtain ⟨first, l, hc, -, hpath, hn, hl⟩ := h.walk hash
  have hfound : t.find hash span blob nocopy =
      .ok (l.find? fun i => (t.entryAt? i).any (isFor · hash span blob nocopy)) := by
    unfold Table.find
    rw [hc]
    exact search_of_path hpath _ (hpath.length_le hn)
  refine ⟨_, hfound, ?_, ?_⟩
  · intro i hi
    simpa [Option.any_eq_true] using List.find?_some hi
  · intro hnone i e he hfor
    have hhash : e.hash = hash := (key_of_isFor hfor).1
    -- An entry that passes has the hash, so it is on the chain that was searched.
    have hi : i ∈ l := by
      refine (hl i).2 ⟨trivial, ?_⟩
      unfold chainAt?
      rw [he, Option.map_some, hhash]
    have := List.find?_eq_none.1 hnone i hi
    rw [he, Option.any_some] at this
    exact this hfor

/-- What a search comes upon is a slot in use, with an entry that passes. -/
theorem found {hash : UInt64} {span : Span} {blob : BlobId} {nocopy : Bool} (h : t.Linked fun _ => True)
    (hfind : t.find hash span blob nocopy = .ok (some index)) :
    ∃ e, t.entryAt? index = some e ∧ isFor e hash span blob nocopy := by
  obtain ⟨found, hfound, hsome, -⟩ := h.find hash span blob nocopy
  rw [hfind, Except.ok.injEq] at hfound
  exact hsome index hfound.symm

/-- Linking some slots, none of them linked before, changes links only. -/
theorem linkAll (h : t.Linked on) {indices : List Nat} (hn : indices.Nodup)
    (hi : ∀ i ∈ indices, ¬ on i ∧ i < t.slots.size) :
    ∃ t', t.linkAll indices = .ok t' ∧ Relinked t t' ∧ t'.chains.size = t.chains.size ∧
      t'.Linked fun i => on i ∨ i ∈ indices := by
  induction indices generalizing t on with
  | nil => exact ⟨t, rfl, .refl t, rfl, by simpa using h⟩
  | cons index rest ih =>
    obtain ⟨hnot, hn⟩ := List.nodup_cons.1 hn
    obtain ⟨hon, hlt⟩ := hi index (.head _)
    obtain ⟨s, hs, -⟩ := slot_of_lt hlt
    have he := entryAt?_of_slot hs
    unfold Table.linkAll
    rw [hs]
    simp only [bind, Except.bind]
    cases hse : s.entry with
    | none =>
      rw [hse] at he
      obtain ⟨t', hall, hre, hsize, hlinked⟩ := ih h hn fun i hi' => hi i (.tail _ hi')
      refine ⟨t', hall, hre, hsize, hlinked.mono fun i e hie => ?_⟩
      -- An empty slot is passed over, and stays empty.
      have hne : i ≠ index := by
        rintro rfl
        obtain ⟨e', he', -⟩ := hre.of_some hie
        rw [he] at he'
        cases he'
      simp [hne]
    | some e =>
      rw [hse] at he
      obtain ⟨next, hlink, hlinked⟩ := h.link hon hlt e
      obtain ⟨t', hall, hre, hsize, hlinked'⟩ := ih hlinked hn fun i hi' => by
        refine ⟨?_, by simpa using (hi i (.tail _ hi')).2⟩
        rintro (h | rfl)
        · exact (hi i (.tail _ hi')).1 h
        · exact hnot hi'
      refine ⟨t', ?_, ?_, by simpa using hsize, ?_⟩
      · simp only [hlink]
        exact hall
      · exact .trans (.trans (.setNext he next) (.setFirst _ _ _)) hre
      · simpa [or_assoc] using hlinked'

/-- Growing links all slots in use anew, on twice as many chains. -/
theorem grow (hpower : isPowerOfTwo t.chains.size = true) (hfits : 2 * t.chains.size < wordCount) :
    ∃ t', t.grow = .ok t' ∧ Relinked t t' ∧ t'.chains.size = 2 * t.chains.size ∧ t'.Linked fun _ => True := by
  have hpower' : isPowerOfTwo (2 * t.chains.size) = true := by
    obtain ⟨k, hk⟩ := isPowerOfTwo_iff.1 hpower
    refine isPowerOfTwo_iff.2 ⟨k + 1, ?_⟩
    rw [hk, Nat.one_shiftLeft, Nat.one_shiftLeft, Nat.pow_succ, Nat.mul_comm]
  -- At first there are the new chains, with nothing on them.
  have hbare : ({ t with chains := Array.replicate (2 * t.chains.size) none } : Table).Linked fun _ => False := by
    refine ⟨by simpa using hpower', fun n hlt => ⟨none, [], ?_, .nil, .nil, by simp⟩⟩
    rw [Array.size_replicate] at hlt
    rw [Array.getElem?_replicate, if_pos hlt]
  obtain ⟨t', hall, hre, hsize, hlinked⟩ := hbare.linkAll List.nodup_range fun i hi =>
    ⟨id, List.mem_range.1 hi⟩
  refine ⟨t', ?_, ⟨hre.bare, hre.rest⟩, by simpa using hsize, hlinked.mono ?_⟩
  · unfold Table.grow
    rw [checkedDouble_eq_ok_iff.2 ⟨hfits, rfl⟩]
    exact hall
  · intro i e he
    have hlt := lt_of_entryAt? he
    rw [hre.size] at hlt
    simpa using hlt

end Linked

end AtomHeap.Table
