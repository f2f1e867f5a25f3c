import AtomHeap.Proofs.Store.Builtins
import AtomHeap.Proofs.Store.Intact
import AtomHeap.Proofs.Store.Sweeping
/-!
# The ledger of references

A `Ledger` is a run with a list of what was done about references on the way, the latest deal first. The references
to an atom above the builtin boundary are the balance of the deals about it since it was made, so long as that
never came to more than can be counted (`references_exact`). Nothing else matters to them: no lookup, mark or
growth, no sweep that leaves the atom and no deal about another.
-/

namespace AtomHeap.Store

/-- What was done about the references to an atom, or about the atom itself. -/
inductive Deal
  /-- Interning made it, and gave out the first reference. -/
  | made (a : Atom)
  /-- Interning came upon it, and gave out another reference. -/
  | lent (a : Atom)
  /-- A caller took another reference. -/
  | taken (a : Atom)
  /-- A caller gave a reference back. -/
  | returned (a : Atom)
  /-- A sweep destroyed it. -/
  | destroyed (a : Atom)
  deriving DecidableEq

def Deal.atom : Deal → Atom
  | .made a | .lent a | .taken a | .returned a | .destroyed a => a

/-- A deal that was asked for, if it came about. -/
def granted (answer : Except AtomError Unit) (deal : Deal) : List Deal :=
  match answer with
  | .ok () => [deal]
  | .error _ => []

/-- The atoms destroyed on the way. -/
def losses (events : List Event) : List Deal := events.filterMap fun
  | .destroyed a => some (.destroyed a)
  | _ => none

/-- Steps of callers that give out no reference, take none back and withdraw no type. -/
inductive Aside (spans : Span → Prop) : Store → Store → Prop
  | internRefused {s s' : Store} {span : Span} {lasting : Bool} {blob : BlobId} {e : AtomError} :
      spans span → s.internLocked span lasting blob = .ok (.error e, s') → Aside spans s s'
  | lookup {s s' : Store} {span : Span} {blob : BlobId} {found : Option Atom} :
      spans span → s.lookup span blob = .ok (found, s') → Aside spans s s'
  | registerBlob {s : Store} {type : BlobType} {id : BlobId} {table : Table} :
      s.table.registerBlob type = .ok (id, table) → Aside spans s { s with table }
  | setFallback {s : Store} (hook : ReleaseHook) : Aside spans s { s with table := s.table.setFallback hook }
  | lockAtoms {s : Store} : Aside spans s { s with table := s.table.lockAtoms }
  | requestCollection {s : Store} : Aside spans s s.requestCollection.2
  | other {s : Store} (heap : Heap) (calls : Array HookCall) : Aside spans s { s with heap, calls }

/-- A step, with the deals that it comes down to. -/
inductive Posted (spans : Span → Prop) : Store → List Deal → Store → Prop
  | intern {s s' : Store} {span : Span} {lasting : Bool} {blob : BlobId} {i : Interned} :
      spans span → s.internLocked span lasting blob = .ok (.ok i, s') →
      Posted spans s [if i.isNew then .made i.atom else .lent i.atom] s'
  | register {s : Store} (a : Atom) :
      Posted spans s (granted (s.register a).1 (.taken a)) (s.register a).2
  | unregister {s : Store} (a : Atom) :
      Posted spans s (granted (s.unregister a).1 (.returned a)) (s.unregister a).2
  | withdraw {s : Store} {id : BlobId} {table : Table} :
      s.table.unregisterBlob id = .ok table → Posted spans s [] { s with table }
  | aside {s s' : Store} : Aside spans s s' → Posted spans s [] s'
  | moved {s s' : Store} {events : List Event} : Move s events s' → Posted spans s (losses events) s'

/-- Sequences of steps with their deals, the latest deal first. -/
inductive Ledger (spans : Span → Prop) (s₀ : Store) : List Deal → Store → Prop
  | start : Ledger spans s₀ [] s₀
  | step {s s' : Store} {deals deals' : List Deal} :
      Ledger spans s₀ deals s → Posted spans s deals' s' → Ledger spans s₀ (deals' ++ deals) s'

/-- The references to an atom that are out, by the deals since it was made. -/
def balance (a : Atom) (deals : List Deal) : Int :=
  1 + deals.count (.lent a) + deals.count (.taken a) - deals.count (.returned a)

/-- What a step does to the references to an atom. -/
inductive Booked (a : Atom) : List Deal → Nat → Nat → Prop
  | unmoved {deals : List Deal} (n : Nat) : (∀ deal ∈ deals, deal.atom ≠ a) → Booked a deals n n
  | lent (n : Nat) : Booked a [.lent a] n (min (n + 1) maxRefs)
  | taken (n : Nat) : Booked a [.taken a] n (min (n + 1) maxRefs)
  | returned (n : Nat) : Booked a [.returned a] (n + 1) n

variable {spans : Span → Prop} {s s' s₀ : Store} {events : List Event} {deals deals' since : List Deal} {buckets : Nat}
  {config : Config} {heap : Heap} {span : Span} {blob : BlobId} {a b : Atom} {e e' eb : Entry} {t t' : Table}
  {index m n : Nat}

/-! ## Ledgers are runs -/

theorem Aside.call (h : Aside spans s s') : ∃ events, Call spans s events s' := by
  cases h with
  | internRefused hspan h => exact ⟨_, .internRefused hspan h⟩
  | lookup hspan h => exact ⟨_, .lookup hspan h⟩
  | registerBlob h => exact ⟨_, .registerBlob h⟩
  | setFallback hook => exact ⟨_, .setFallback hook⟩
  | lockAtoms => exact ⟨_, .lockAtoms⟩
  | requestCollection => exact ⟨_, .requestCollection⟩
  | other heap calls => exact ⟨_, .other heap calls⟩

theorem Posted.step (h : Posted spans s deals s') : ∃ events, Call spans s events s' ∨ Move s events s' := by
  cases h with
  | intern hspan h => exact ⟨_, .inl (.intern hspan h)⟩
  | register a => exact ⟨_, .inl (.register a)⟩
  | unregister a => exact ⟨_, .inl (.unregister a)⟩
  | withdraw h => exact ⟨_, .inl (.unregisterBlob h)⟩
  | aside h =>
    obtain ⟨events, hcall⟩ := h.call
    exact ⟨events, .inl hcall⟩
  | moved h => exact ⟨_, .inr h⟩

theorem Ledger.run (h : Ledger spans s₀ deals s) : ∃ events, Run spans s₀ events s := by
  induction h with
  | start => exact ⟨[], .start⟩
  | step _ hstep ih =>
    obtain ⟨events, hrun⟩ := ih
    obtain ⟨events', hcall | hmove⟩ := hstep.step
    · exact ⟨_, .call hrun hcall⟩
    · exact ⟨_, .move hrun hmove⟩

theorem Call.posted (h : Call spans s events s') : ∃ deals, Posted spans s deals s' := by
  cases h with
  | intern hspan h => exact ⟨_, .intern hspan h⟩
  | internRefused hspan h => exact ⟨_, .aside (.internRefused hspan h)⟩
  | lookup hspan h => exact ⟨_, .aside (.lookup hspan h)⟩
  | register a => exact ⟨_, .register a⟩
  | unregister a => exact ⟨_, .unregister a⟩
  | registerBlob h => exact ⟨_, .aside (.registerBlob h)⟩
  | unregisterBlob h => exact ⟨_, .withdraw h⟩
  | setFallback hook => exact ⟨_, .aside (.setFallback hook)⟩
  | lockAtoms => exact ⟨_, .aside .lockAtoms⟩
  | requestCollection => exact ⟨_, .aside .requestCollection⟩
  | other heap calls => exact ⟨_, .aside (.other heap calls)⟩

/-- Every run has a ledger. -/
theorem Run.ledger (h : Run spans s₀ events s) : ∃ deals, Ledger spans s₀ deals s := by
  induction h with
  | start => exact ⟨[], .start⟩
  | call _ hcall ih =>
    obtain ⟨deals, hledger⟩ := ih
    obtain ⟨deals', hposted⟩ := hcall.posted
    exact ⟨_, .step hledger hposted⟩
  | move _ hmove ih =>
    obtain ⟨deals, hledger⟩ := ih
    exact ⟨_, .step hledger (.moved hmove)⟩

/-- The slots and the boundary never come down. -/
theorem Posted.grows (hs : s.table.Sound buckets 0) (h : Posted spans s deals s') :
    s.table.slots.size ≤ s'.table.slots.size ∧ s.table.builtin ≤ s'.table.builtin := by
  obtain ⟨events, hcall | hmove⟩ := h.step
  · exact ⟨hs.size_changes (hcall.changes hs), (hcall.immune hs).boundary⟩
  · have hchanges : Table.Changes spans _ _ := hmove.changes hs
    exact ⟨hs.size_changes hchanges, (hmove.immune hs).boundary⟩

theorem Ledger.sound (hs : s₀.table.Sound buckets 0) (h : Ledger spans s₀ deals s) : s.table.Sound buckets 0 := by
  obtain ⟨events, hrun⟩ := h.run
  exact hrun.sound hs

/-- What comes after the last time that something stands in a list. -/
theorem eq_of_split {α : Type} {x : α} {after after' before before' : List α}
    (h : after ++ x :: before = after' ++ x :: before') (hx : x ∉ after) (hx' : x ∉ after') : after = after' := by
  rcases List.append_eq_append_iff.1 h with ⟨_ | ⟨y, more⟩, rfl, hmore⟩ | ⟨_ | ⟨y, more⟩, rfl, hmore⟩
  · exact (List.append_nil _).symm
  · exact absurd (List.mem_append_right _ ((List.cons.inj hmore).1 ▸ List.mem_cons_self)) hx'
  · exact List.append_nil _
  · exact absurd (List.mem_append_right _ ((List.cons.inj hmore).1 ▸ List.mem_cons_self)) hx

/-! ## The balance -/

theorem count_of_others (deal : Deal) (h : ∀ deal' ∈ deals, deal'.atom ≠ a) (ha : deal.atom = a) :
    deals.count deal = 0 :=
  List.count_eq_zero.2 fun hmem => h deal hmem ha

theorem balance_of_others (h : ∀ deal ∈ deals, deal.atom ≠ a) : balance a (deals ++ since) = balance a since := by
  unfold balance
  simp only [List.count_append, count_of_others (.lent a) h rfl, count_of_others (.taken a) h rfl,
    count_of_others (.returned a) h rfl, Nat.zero_add]

theorem balance_lent (a : Atom) (since : List Deal) : balance a (.lent a :: since) = balance a since + 1 := by
  simp [balance]
  omega

theorem balance_taken (a : Atom) (since : List Deal) : balance a (.taken a :: since) = balance a since + 1 := by
  simp [balance]
  omega

theorem balance_returned (a : Atom) (since : List Deal) : balance a (.returned a :: since) = balance a since - 1 := by
  simp [balance]
  omega

/-- Deals that leave the references within what can be counted move them as they move the balance. -/
theorem Booked.balance (h : Booked a deals m n) (hm : (m : Int) = balance a since)
    (hbound : balance a (deals ++ since) ≤ maxRefs) : (n : Int) = balance a (deals ++ since) := by
  cases h with
  | unmoved _ hothers => rw [hm, balance_of_others hothers]
  | lent =>
    have hmore := balance_lent a since
    simp only [List.singleton_append] at hbound ⊢
    omega
  | taken =>
    have hmore := balance_taken a since
    simp only [List.singleton_append] at hbound ⊢
    omega
  | returned =>
    have hless := balance_returned a since
    simp only [List.singleton_append]
    omega

theorem Booked.notMem_made (h : Booked a deals m n) : .made a ∉ deals := by
  cases h with
  | unmoved _ hothers => exact fun hmem => hothers _ hmem rfl
  | _ => simp

theorem Booked.notMem_destroyed (h : Booked a deals m n) : .destroyed a ∉ deals := by
  cases h with
  | unmoved _ hothers => exact fun hmem => hothers _ hmem rfl
  | _ => simp

/-! ## What is done to references -/

theorem refsOf_eq (t : Table) (a : Atom) : t.refsOf a = (t.entry a).map (·.refs) := by
  unfold Table.refsOf
  cases t.entry a <;> rfl

/-- Marks are no references. -/
theorem refsOf_of_unmarked (h : (t'.entry a).map Entry.unmarked = (t.entry a).map Entry.unmarked) :
    t'.refsOf a = t.refsOf a := by
  have hrefs : ∀ t : Table, t.refsOf a = ((t.entry a).map Entry.unmarked).map (·.refs) := by
    intro t
    rw [refsOf_eq]
    cases t.entry a <;> rfl
  rw [hrefs, hrefs, h]

theorem refsOf_unregisterBlob {id : BlobId} (h : t.unregisterBlob id = .ok t') (a : Atom) :
    t'.refsOf a = t.refsOf a := by
  have hrefs (e : Entry) : (e.withdraw id).refs = e.refs := by
    unfold Entry.withdraw
    split <;> rfl
  rw [refsOf_eq, refsOf_eq, Table.entry_unregisterBlob h]
  cases t.entry a with
  | error error => rfl
  | ok e => exact congrArg Except.ok (hrefs e)

theorem Aside.refs (hs : s.table.Sound buckets 0) (h : Aside spans s s') (a : Atom) :
    s'.table.refsOf a = s.table.refsOf a := by
  cases h with
  | internRefused _ h =>
    cases internLocked_outcome hs h with
    | refused _ htable => rw [htable]
  | lookup _ h => exact refsOf_of_unmarked (Table.lookup_unmarked (lookup_table h) a)
  | registerBlob h =>
    obtain ⟨blobs, rfl⟩ := Table.registerBlob_eq h
    rfl
  | setFallback hook => rfl
  | lockAtoms => rfl
  | requestCollection => exact refsOf_of_unmarked ((Table.requestCollection_intact s.table).entry a)
  | other heap calls => rfl

theorem booked_of_refs (h : t'.refsOf a = t.refsOf a) (he' : t'.entry a = .ok e') :
    ∃ e, t.entry a = .ok e ∧ Booked a [] e.refs e'.refs := by
  rw [refsOf_eq, refsOf_eq, he'] at h
  cases he : t.entry a with
  | error error =>
    rw [he] at h
    cases h
  | ok e =>
    rw [he] at h
    have hrefs : e'.refs = e.refs := Except.ok.inj h
    exact ⟨e, rfl, hrefs ▸ .unmoved _ nofun⟩

/-- A deal about one atom moves the references to no other. -/
theorem Booked.other {deal : Deal} (n : Nat) (h : deal.atom ≠ a) : Booked a [deal] n n :=
  .unmoved n fun _ hdeal => List.mem_singleton.1 hdeal ▸ h

/-- A new entry for one atom is booked as what was done to its references. -/
theorem booked_setEntry (hb : t.entry b = .ok eb) (he' : (t.setEntry b.index.toNat (some e)).entry a = .ok e')
    (hown : a = b → Booked a deals eb.refs e.refs) (hothers : b ≠ a → ∀ n, Booked a deals n n) :
    ∃ e₀, t.entry a = .ok e₀ ∧ Booked a deals e₀.refs e'.refs := by
  rw [Table.entry_setEntry (Table.entry_eq_ok_iff.1 hb).1] at he'
  cases he : t.entry a with
  | error error =>
    rw [he] at he'
    cases he'
  | ok e₀ =>
    rw [he] at he'
    have hentry : (if a.index.toNat = b.index.toNat then e else e₀) = e' := Except.ok.inj he'
    refine ⟨e₀, rfl, ?_⟩
    by_cases hi : a.index.toNat = b.index.toNat
    · have hab := Table.eq_of_index_eq he hb hi
      subst hab
      rw [he, Except.ok.injEq] at hb
      rw [if_pos hi] at hentry
      rw [hb, ← hentry]
      exact hown rfl
    · rw [if_neg hi] at hentry
      rw [← hentry]
      exact hothers (fun hba => hi (hba ▸ rfl)) _

theorem booked_register (hle : t.builtin ≤ a.index.toNat) (he' : (t.register b).2.entry a = .ok e') :
    ∃ e, t.entry a = .ok e ∧ Booked a (granted (t.register b).1 (.taken b)) e.refs e'.refs := by
  unfold Table.register at he' ⊢
  cases hb : t.entry b with
  | error error =>
    simp only [hb] at he' ⊢
    exact ⟨e', he', .unmoved _ nofun⟩
  | ok eb =>
    simp only [hb] at he' ⊢
    split at he'
    · rename_i hlt
      rw [if_pos hlt]
      exact ⟨e', he', .other _ fun hatom : b = a => Nat.not_lt.2 hle (hatom ▸ hlt)⟩
    · rename_i hnot
      rw [if_neg hnot]
      refine booked_setEntry hb he' ?_ fun hne n => .other n hne
      rintro rfl
      exact .taken _

theorem booked_unregister (hle : t.builtin ≤ a.index.toNat) (he' : (t.unregister b).2.entry a = .ok e') :
    ∃ e, t.entry a = .ok e ∧ Booked a (granted (t.unregister b).1 (.returned b)) e.refs e'.refs := by
  unfold Table.unregister at he' ⊢
  cases hb : t.entry b with
  | error error =>
    simp only [hb] at he' ⊢
    exact ⟨e', he', .unmoved _ nofun⟩
  | ok eb =>
    simp only [hb] at he' ⊢
    split at he'
    · rename_i hlt
      rw [if_pos hlt]
      exact ⟨e', he', .other _ fun hatom : b = a => Nat.not_lt.2 hle (hatom ▸ hlt)⟩
    · rename_i hnot
      split at he'
      · rename_i hzero
        rw [if_neg hnot, if_pos hzero]
        exact ⟨e', he', .unmoved _ nofun⟩
      · rename_i hpos
        rw [if_neg hnot, if_neg hpos]
        refine booked_setEntry hb he' ?_ fun hne n => .other n hne
        rintro rfl
        have hrefs : eb.refs = eb.refs - 1 + 1 := by omega
        rw [hrefs]
        exact .returned _

theorem booked_reuse (hsize : t.slots.size ≤ UInt32.size) (hle : t.builtin ≤ a.index.toNat)
    (h : t.reuse index = .ok (b, t')) (he' : t'.entry a = .ok e') (hused : ∃ e, t.entryAt? index = some e) :
    ∃ e, t.entry a = .ok e ∧ Booked a [.lent b] e.refs e'.refs := by
  obtain ⟨e₁, hused⟩ := hused
  have hi : index < UInt32.size := Nat.lt_of_lt_of_le (Table.lt_of_entryAt? hused) hsize
  obtain ⟨slot, hslot, h⟩ := bind_eq_ok_iff.1 h
  have hslot' := Table.slot_eq_ok_iff.1 hslot
  have hse := (Table.entryAt?_of_slot hslot).symm.trans hused
  simp only [hse] at h
  cases h
  have hb := Table.entry_atom hi hslot' hse
  rw [← Table.toNat_index_atom hi slot] at he'
  refine booked_setEntry hb he' ?_ fun hne n => .other n hne
  rintro rfl
  rw [if_neg (by rw [Table.toNat_index_atom hi] at hle ⊢; exact Nat.not_lt.2 hle)]
  exact .lent _

/-- The references to an atom that is new come from nothing, and those to one that was there before are moved by
the deals about it. -/
theorem Outcome.booked (hs : s.table.Sound buckets 0) (hsize : s'.table.slots.size ≤ UInt32.size) {i : Interned}
    (h : Outcome s span blob (.ok i) s') (hle : s.table.builtin ≤ a.index.toNat)
    (he' : s'.table.entry a = .ok e') :
    (i.isNew = true ∧ i.atom = a ∧ e'.refs = 1) ∨
      ∃ e, s.table.entry a = .ok e ∧
        Booked a [if i.isNew then .made i.atom else .lent i.atom] e.refs e'.refs := by
  cases h with
  | @found _ type index b hblob hunique hfind hreuse =>
    obtain ⟨e, hused, -⟩ := hs.linked.found hfind
    rw [(Table.reuse_amended hreuse).size] at hsize
    exact .inr (booked_reuse hsize hle hreuse he' ⟨e, hused⟩)
  | @made _ type payload b due hwanted hinsert =>
    obtain ⟨index, g, rfl, hinserted, -⟩ := hs.made hwanted hinsert
    have hi : index < UInt32.size := by
      have := hinserted.size
      omega
    rcases hinserted.live he' with ⟨hindex, hbare⟩ | ⟨e, he, hbare⟩
    · obtain ⟨e, he, -⟩ := hinserted.entry hi
      have hnew := Table.eq_of_index_eq he he' ((UInt32.toNat_ofNat_of_lt hi).trans hindex.symm)
      exact .inl ⟨rfl, hnew, congrArg (·.refs) hbare⟩
    · have hrefs : e'.refs = e.refs := congrArg (·.refs) hbare
      have hne : a ≠ ⟨.ofNat index, g⟩ := hinserted.fresh hi (Table.isLive_iff.2 ⟨e, he⟩)
      exact .inr ⟨e, he, hrefs ▸ .other _ (Ne.symm hne)⟩

theorem mem_losses {deal : Deal} : deal ∈ losses events ↔ ∃ b, .destroyed b ∈ events ∧ deal = .destroyed b := by
  unfold losses
  rw [List.mem_filterMap]
  constructor
  · rintro ⟨event, hevent, hdeal⟩
    cases event with
    | destroyed b => exact ⟨b, hevent, (Option.some.inj hdeal).symm⟩
    | _ => cases hdeal
  · rintro ⟨b, hevent, rfl⟩
    exact ⟨_, hevent, rfl⟩

/-- A cycle moves no references: it destroys an atom or leaves them. -/
theorem Move.booked (hs : s.table.Sound buckets 0) (hsize : s.table.slots.size < UInt32.size)
    (h : Move s events s') (he' : s'.table.entry a = .ok e') :
    ∃ e, s.table.entry a = .ok e ∧ Booked a (losses events) e.refs e'.refs := by
  cases h with
  | clearRequest => exact ⟨e', he', .unmoved _ nofun⟩
  | beginMarking => exact ⟨e', he', .unmoved _ nofun⟩
  | applyMarks atoms => exact booked_of_refs (refsOf_of_unmarked ((Table.applyMarks_intact _ atoms).entry a)) he'
  | abortMarking => exact booked_of_refs (refsOf_of_unmarked ((Table.abortMarking_intact _).entry a)) he'
  | postpone => exact ⟨e', he', .unmoved _ nofun⟩
  | @sweep _ n swept table hswept h =>
    obtain rfl := sweep_table_eq hswept h
    obtain ⟨hcleared, hdestroyed⟩ := hs.sweep_cleared hswept
    have hnot : ¬ Table.Agreed swept.calls.toList a := by
      intro hagreed
      rw [hcleared.destroyed hsize hagreed] at he'
      cases he'
    obtain ⟨e, he⟩ := hcleared.live he'
    obtain ⟨e₁, he₁, -, -, hrefs, -⟩ := hcleared.kept hsize he hnot
    rw [he', Except.ok.injEq] at he₁
    subst he₁
    refine ⟨e, he, hrefs ▸ .unmoved _ fun deal hdeal hatom => ?_⟩
    obtain ⟨b, hb, rfl⟩ := mem_losses.1 hdeal
    obtain ⟨_, hmem, hb⟩ := List.mem_map.1 hb
    cases hb
    exact hnot ((hdestroyed a).1 (hatom ▸ hmem))

/-- What a step does to the references to an atom that is live after it, above the boundary. -/
theorem Posted.booked (hs : s.table.Sound buckets 0) (hsize : s'.table.slots.size < UInt32.size)
    (h : Posted spans s deals s') (hle : s'.table.builtin ≤ a.index.toNat) (he' : s'.table.entry a = .ok e') :
    (deals = [.made a] ∧ e'.refs = 1) ∨ ∃ e, s.table.entry a = .ok e ∧ Booked a deals e.refs e'.refs := by
  obtain ⟨hslots, hbuiltin⟩ := h.grows hs
  cases h with
  | @intern _ _ _ _ i _ h =>
    rcases (internLocked_outcome hs h).booked hs (Nat.le_of_lt hsize) (Nat.le_trans hbuiltin hle) he' with
      ⟨hnew, rfl, hrefs⟩ | hold
    · exact .inl ⟨by rw [if_pos hnew], hrefs⟩
    · exact .inr hold
  | register b => exact .inr (booked_register (Nat.le_trans hbuiltin hle) he')
  | unregister b => exact .inr (booked_unregister (Nat.le_trans hbuiltin hle) he')
  | withdraw h => exact .inr (booked_of_refs (refsOf_unregisterBlob h a) he')
  | aside h => exact .inr (booked_of_refs (h.refs hs a) he')
  | moved h => exact .inr (h.booked hs (Nat.lt_of_le_of_lt hslots hsize) he')

/-! ## Who stays -/

theorem mem_granted {answer : Except AtomError Unit} {deal deal' : Deal} (h : deal ∈ granted answer deal') :
    deal = deal' := by
  unfold granted at h
  split at h
  · exact List.mem_singleton.1 h
  · cases h

/-- A cycle destroys no atom that is builtin or has references. -/
theorem Move.spares (hs : s.table.Sound buckets 0) (hsize : s.table.slots.size < UInt32.size)
    (h : Move s events s') (he : s.table.entry a = .ok e) (hheld : a.index.toNat < s.table.builtin ∨ 0 < e.refs) :
    .destroyed a ∉ events ∧ ∃ e', s'.table.entry a = .ok e' := by
  cases h with
  | clearRequest => exact ⟨nofun, e, he⟩
  | beginMarking => exact ⟨nofun, e, he⟩
  | applyMarks atoms =>
    obtain ⟨e', he', -⟩ := (Table.applyMarks_intact s.table atoms).of_ok he
    exact ⟨nofun, e', he'⟩
  | abortMarking =>
    obtain ⟨e', he', -⟩ := (Table.abortMarking_intact s.table).of_ok he
    exact ⟨nofun, e', he'⟩
  | postpone => exact ⟨nofun, e, he⟩
  | @sweep _ n swept table hswept h =>
    obtain rfl := sweep_table_eq hswept h
    obtain ⟨hcleared, hdestroyed⟩ := hs.sweep_cleared hswept
    have hnot : ¬ Table.Agreed swept.calls.toList a := by
      rintro ⟨c, hc, hatom, -⟩
      obtain ⟨e₁, d, he₁, hle, hrefs, -⟩ := (hcleared.candidates hsize).1 ⟨c, hc, hatom⟩
      rw [he, Except.ok.injEq] at he₁
      subst he₁
      omega
    refine ⟨fun hmem => hnot ((hdestroyed a).1 ?_), ?_⟩
    · obtain ⟨b, hb, hba⟩ := List.mem_map.1 hmem
      cases hba
      exact hb
    · obtain ⟨e', he', -⟩ := hcleared.kept hsize he hnot
      exact ⟨e', he'⟩

/-- An atom that is builtin or has references is neither destroyed in a step nor made anew. -/
theorem Posted.spares (hs : s.table.Sound buckets 0) (hsize : s'.table.slots.size < UInt32.size)
    (h : Posted spans s deals s') (he : s.table.entry a = .ok e)
    (hheld : a.index.toNat < s.table.builtin ∨ 0 < e.refs) :
    .destroyed a ∉ deals ∧ .made a ∉ deals ∧ ∃ e', s'.table.entry a = .ok e' := by
  obtain ⟨hslots, -⟩ := h.grows hs
  cases h with
  | @intern _ _ _ _ i _ h =>
    have houtcome := internLocked_outcome hs h
    obtain ⟨e', he', -⟩ := (houtcome.keeps hs).entry a e he
    refine ⟨?_, ?_, e', he'⟩
    · rw [List.mem_singleton]
      split <;> nofun
    · rw [List.mem_singleton]
      intro hmade
      split at hmade
      · rename_i hnew
        cases hmade
        exact (houtcome.madeAbove hs hnew).fresh (Nat.le_of_lt hsize) he
      · cases hmade
  | register b =>
    obtain ⟨e', he', -⟩ := (Table.register_keeps s.table b).entry a e he
    exact ⟨fun h => (nomatch mem_granted h), fun h => (nomatch mem_granted h), e', he'⟩
  | unregister b =>
    obtain ⟨e', he', -⟩ := (Table.unregister_keeps s.table b).entry a e he
    exact ⟨fun h => (nomatch mem_granted h), fun h => (nomatch mem_granted h), e', he'⟩
  | withdraw h =>
    obtain ⟨e', he', -⟩ := (Table.unregisterBlob_keeps h).entry a e he
    exact ⟨nofun, nofun, e', he'⟩
  | aside h =>
    obtain ⟨events, hcall⟩ := h.call
    obtain ⟨e', he', -⟩ := (hcall.keeps hs).entry a e he
    exact ⟨nofun, nofun, e', he'⟩
  | moved h =>
    obtain ⟨hdestroyed, hlive⟩ := h.spares hs (Nat.lt_of_le_of_lt hslots hsize) he hheld
    refine ⟨fun hmem => ?_, fun hmem => ?_, hlive⟩
    · obtain ⟨b, hb, hba⟩ := mem_losses.1 hmem
      cases hba
      exact hdestroyed hb
    · obtain ⟨b, -, hba⟩ := mem_losses.1 hmem
      cases hba

/-! ## Whole ledgers -/

theorem Ledger.trans {s₁ : Store} (h : Ledger spans s₀ deals s) (h' : Ledger spans s deals' s₁) :
    Ledger spans s₀ (deals' ++ deals) s₁ := by
  induction h' with
  | start => exact h
  | step _ hstep ih =>
    rw [List.append_assoc]
    exact .step ih hstep

/-- What interning gave out, by its answer. -/
def dealt (r : Except AtomError Interned) : List Deal :=
  match r with
  | .ok i => [if i.isNew then .made i.atom else .lent i.atom]
  | .error _ => []

theorem Ledger.heed (h : Ledger spans s₀ deals s) (i : Interned) : Ledger spans s₀ deals (s.heed i) := by
  unfold Store.heed
  split
  · exact .step h (.aside .requestCollection)
  · exact h

/-- Interning posts what it gave out, and after that what the acquire hook does, if it made an atom. -/
theorem Ledger.internSpan (h : Ledger spans s₀ deals s) (hspans : ∀ bytes, spans { bytes }) (hspan : spans span)
    {lasting : Bool} {r : Except AtomError Interned} (hi : s.internSpan span lasting blob = .ok (r, s')) :
    ∃ more, Ledger spans s₀ (more ++ dealt r ++ deals) s' ∧ ((∀ i, r = .ok i → i.isNew = false) → more = []) := by
  obtain ⟨⟨error | i, s₁⟩, hintern, hi⟩ := bind_eq_ok_iff.1 hi
  · cases hi
    exact ⟨[], .step h (.aside (.internRefused hspan hintern)), fun _ => rfl⟩
  · have hposted := h.step (.intern hspan hintern)
    simp only at hi
    split at hi
    · rename_i hnew
      obtain ⟨s₂, hacquire, hi⟩ := bind_eq_ok_iff.1 hi
      cases hi
      obtain ⟨events, hrun⟩ := Calls.run ((acquire_calls hspans hacquire).trans (heed_calls s₂ i))
      obtain ⟨more, hmore⟩ := hrun.ledger
      refine ⟨more, ?_, fun hold => ?_⟩
      · rw [List.append_assoc]
        exact hposted.trans hmore
      · rw [hold i rfl] at hnew
        cases hnew
    · cases hi
      exact ⟨[], hposted.heed i, fun _ => rfl⟩

theorem Ledger.intern {i : Interned} (h : Ledger spans s₀ deals s) (span : Span) (hspan : spans span) (blob : BlobId)
    (hi : s.internLocked span false blob = .ok (.ok i, s')) :
    Ledger spans s₀ ((if i.isNew then .made i.atom else .lent i.atom) :: deals) s' := .step h (.intern hspan hi)

/-- The balance since an atom was made never came to more than can be counted. -/
def Countable (a : Atom) (since : List Deal) : Prop := ∀ earlier, earlier <:+ since → balance a earlier ≤ maxRefs

theorem Countable.earlier {earlier : List Deal} (h : Countable a since) (hsuffix : earlier <:+ since) :
    Countable a earlier := fun _ h' => h _ (h'.trans hsuffix)

/-- A live atom above the boundary was made, and not destroyed since; its references are the balance. -/
theorem Ledger.refs (hc : config.check = .ok ()) (h : Ledger spans (.empty heap config) deals s)
    (hsize : s.table.slots.size < UInt32.size) (he : s.table.entry a = .ok e)
    (hle : s.table.builtin ≤ a.index.toNat) :
    ∃ since before, deals = since ++ .made a :: before ∧ .made a ∉ since ∧ .destroyed a ∉ since ∧
      (Countable a since → (e.refs : Int) = balance a since) := by
  have hempty := Table.sound_empty (Table.atomBuckets_power hc) heap.openPool.1
  induction h generalizing e with
  | start => cases he
  | @step s s' deals deals' h hstep ih =>
    have hs := h.sound hempty
    obtain ⟨hslots, hbuiltin⟩ := hstep.grows hs
    rcases hstep.booked hs hsize hle he with ⟨rfl, hrefs⟩ | ⟨e₀, he₀, hbooked⟩
    · refine ⟨[], deals, rfl, nofun, nofun, fun _ => ?_⟩
      rw [hrefs]
      rfl
    · obtain ⟨since, before, rfl, hmade, hdestroyed, hrefs⟩ :=
        ih (Nat.lt_of_le_of_lt hslots hsize) he₀ (Nat.le_trans hbuiltin hle)
      refine ⟨deals' ++ since, before, (List.append_assoc _ _ _).symm, ?_, ?_, fun hcount => ?_⟩
      · exact List.not_mem_append hbooked.notMem_made hmade
      · exact List.not_mem_append hbooked.notMem_destroyed hdestroyed
      · exact hbooked.balance (hrefs (hcount.earlier (List.suffix_append _ _))) (hcount _ (List.suffix_refl _))

/-- While the balance is positive the atom stays. -/
theorem Ledger.spares {later before : List Deal} (hc : config.check = .ok ())
    (h : Ledger spans (.empty heap config) (since ++ .made a :: before) s) (hmade : .made a ∉ since)
    (he : s.table.entry a = .ok e) (hlater : Ledger spans s later s') (hsize : s'.table.slots.size < UInt32.size)
    (hcount : Countable a (later ++ since)) (hheld : ∀ earlier, earlier <:+ later → 0 < balance a (earlier ++ since)) :
    .destroyed a ∉ later ∧ .made a ∉ later ∧ ∃ e', s'.table.entry a = .ok e' := by
  have hempty := Table.sound_empty (Table.atomBuckets_power hc) heap.openPool.1
  induction hlater with
  | start => exact ⟨nofun, nofun, e, he⟩
  | @step s₁ s₂ later later' hlater hstep ih =>
    have hledger := h.trans hlater
    have hs₁ := hledger.sound hempty
    have hsize₁ := Nat.lt_of_le_of_lt (hstep.grows hs₁).1 hsize
    have hsuffix : later <:+ later' ++ later := List.suffix_append _ _
    have hcount₁ : Countable a (later ++ since) := by
      refine hcount.earlier ?_
      rw [List.append_assoc]
      exact List.suffix_append _ _
    obtain ⟨hdestroyed, hmade₁, e₁, he₁⟩ := ih hsize₁ hcount₁ fun earlier h => hheld earlier (h.trans hsuffix)
    have hstays : a.index.toNat < s₁.table.builtin ∨ 0 < e₁.refs := by
      refine or_iff_not_imp_left.2 fun hnot => ?_
      obtain ⟨since₁, before₁, heq, hmade₂, -, hrefs⟩ := hledger.refs hc hsize₁ he₁ (Nat.le_of_not_lt hnot)
      rw [← List.append_assoc] at heq
      obtain rfl := eq_of_split heq (List.not_mem_append hmade₁ hmade) hmade₂
      have := hheld later hsuffix
      have := hrefs hcount₁
      omega
    obtain ⟨hdestroyed', hmade', hlive⟩ := hstep.spares hs₁ hsize he₁ hstays
    exact ⟨List.not_mem_append hdestroyed' hdestroyed, List.not_mem_append hmade' hmade₁, hlive⟩

/-- What the deals about a live atom say about its references. -/
structure Counted (spans : Span → Prop) (s : Store) (a : Atom) (e : Entry) (since : List Deal) : Prop where
  /-- They are the balance. -/
  refs : (e.refs : Int) = balance a since
  /-- One can be given back unless the balance is zero, -/
  underflow : (s.unregister a).1 = .error .underflow ↔ balance a since = 0
  /-- and then nothing changes. -/
  refused : (s.unregister a).1 = .error .underflow → (s.unregister a).2 = s
  /-- While the balance is positive, no cycle destroys the atom, whatever roots are named and however hooks
  answer. -/
  spared : ∀ later s', Ledger spans s later s' → s'.table.slots.size < UInt32.size → Countable a (later ++ since) →
    (∀ earlier, earlier <:+ later → 0 < balance a (earlier ++ since)) →
      .destroyed a ∉ later ∧ ∃ e', s'.table.entry a = .ok e'

theorem Ledger.counted {before : List Deal} (hc : config.check = .ok ())
    (h : Ledger spans (.empty heap config) (since ++ .made a :: before) s)
    (hmade : .made a ∉ since) (he : s.table.entry a = .ok e) (hle : s.table.builtin ≤ a.index.toNat)
    (hrefs : (e.refs : Int) = balance a since) : Counted spans s a e since := by
  have hanswer := (honours_of_entry he).unregister
  have hunderflow : (s.unregister a).1 = .error .underflow ↔ e.refs = 0 := by
    rw [hanswer]
    split
    · rename_i hzero
      exact iff_of_true rfl hzero.1
    · rename_i hnot
      exact iff_of_false nofun fun hzero => hnot ⟨hzero, hle⟩
  refine ⟨hrefs, ?_, ?_, ?_⟩
  · rw [hunderflow]
    omega
  · intro hrefused
    have hzero := hunderflow.1 hrefused
    obtain ⟨heap, table, calls⟩ := s
    unfold Store.unregister Table.unregister
    simp only at he hle
    simp only [he, if_neg (Nat.not_lt.2 hle), if_pos hzero]
  · intro later s' hlater hsize' hcount' hheld
    obtain ⟨hdestroyed', -, hlive⟩ := h.spares hc hmade he hlater hsize' hcount' hheld
    exact ⟨hdestroyed', hlive⟩

/-- In every run, each live atom above the builtin boundary was made by interning and not destroyed since. If the
balance of what was done about it since then never came to more than can be counted, that is the number of its
references: one, and one for each time that interning came upon it or a caller took one, less those given back.
Interning goes on with the run, and gives out what its answer says. -/
theorem references_exact (hc : config.check = .ok ()) (h : Ledger spans (.empty heap config) deals s)
    (hsize : s.table.slots.size < UInt32.size) :
    (∀ a e, s.table.entry a = .ok e → s.table.builtin ≤ a.index.toNat →
      ∃ since before, deals = since ++ .made a :: before ∧ .made a ∉ since ∧ .destroyed a ∉ since ∧
        (Countable a since → Counted spans s a e since)) ∧
      ((∀ bytes, spans { bytes }) → ∀ span lasting blob r s', spans span →
        s.internSpan span lasting blob = .ok (r, s') →
        ∃ more, Ledger spans (.empty heap config) (more ++ dealt r ++ deals) s' ∧
          ((∀ i, r = .ok i → i.isNew = false) → more = [])) := by
  refine ⟨?_, ?_⟩
  · intro a e he hle
    obtain ⟨since, before, rfl, hmade, hdestroyed, hrefs⟩ := h.refs hc hsize he hle
    refine ⟨since, before, rfl, hmade, hdestroyed, fun hcount => ?_⟩
    exact h.counted hc hmade he hle (hrefs hcount)
  · intro hspans span lasting blob r s' hspan hi
    exact h.internSpan hspans hspan hi

/-- An atom that was interned twice, registered once and given back once has two references, and a cycle that
names no roots leaves it. Interning it once more lends it once more. -/
theorem references_exact_swept :
    ∃ s s' s'' e, Ledger (fun _ => True) s [] s' ∧ s.table.entry ⟨0, 0⟩ = .ok e ∧ e.refs = 2 ∧
      Counted (fun _ => True) s ⟨0, 0⟩ e [.returned ⟨0, 0⟩, .taken ⟨0, 0⟩, .lent ⟨0, 0⟩] ∧
        (∃ e', s'.table.entry ⟨0, 0⟩ = .ok e') ∧
        Ledger (fun _ => True) (.empty (.empty ⟨32, 64, 2⟩ fun _ _ => true) { atomBuckets := 1 })
          [.lent ⟨0, 0⟩, .returned ⟨0, 0⟩, .taken ⟨0, 0⟩, .lent ⟨0, 0⟩, .made ⟨0, 0⟩] s'' := by
  have none := @Ledger.start (fun _ => True) (.empty (.empty ⟨32, 64, 2⟩ fun _ _ => true) { atomBuckets := 1 })
  have made := none.intern { bytes := [97] } trivial BlobId.text (by cbv)
  have lent := made.intern { bytes := [97] } trivial BlobId.text (by cbv)
  have taken := lent.step (.register ⟨0, 0⟩)
  have returned := taken.step (.unregister ⟨0, 0⟩)
  have later {s₀ s : Store} {deals : List Deal} (_ : Ledger (fun _ => True) s₀ deals s) :
      Ledger (fun _ => True) s [] s := .start
  have marking := (later returned).step (.moved .beginMarking)
  have swept := marking.step (.moved (.sweep (by cbv) (by cbv)))
  obtain ⟨hcounted, hinterned⟩ := references_exact rfl returned (by decide)
  obtain ⟨since, before, heq, hmade, -, hcounted⟩ := hcounted ⟨0, 0⟩ _ rfl (by decide)
  have heq : [.returned ⟨0, 0⟩, .taken ⟨0, 0⟩, .lent ⟨0, 0⟩] ++ Deal.made ⟨0, 0⟩ :: [] =
      since ++ .made ⟨0, 0⟩ :: before := heq
  obtain rfl := eq_of_split heq (by decide) hmade
  have hcount : Countable ⟨0, 0⟩ [.returned ⟨0, 0⟩, .taken ⟨0, 0⟩, .lent ⟨0, 0⟩] := by
    intro earlier hearlier
    simp only [List.suffix_cons_iff, List.suffix_nil] at hearlier
    rcases hearlier with rfl | rfl | rfl | rfl <;> decide
  have hcounted := hcounted hcount
  obtain ⟨more, hmore, hnone⟩ :=
    hinterned (fun _ => trivial) { bytes := [97] } false BlobId.text _ _ trivial (by cbv)
  obtain rfl := hnone (by rintro _ ⟨⟩; rfl)
  refine ⟨_, _, _, _, swept, rfl, rfl, hcounted, (hcounted.spared _ _ swept (by decide) hcount ?_).2, hmore⟩
  intro earlier hearlier
  obtain rfl : earlier = [] := List.suffix_nil.1 hearlier
  decide

end AtomHeap.Store
