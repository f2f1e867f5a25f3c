import AtomHeap.Proofs.Table.Canonical
import AtomHeap.Proofs.Table.Growth
import AtomHeap.Proofs.Table.Sweep
import AtomHeap.Table.Stat
/-!
# What a table shows

Callers of a table cannot tell where its chains start and go on, where its copies lie, and which pool they come
from. `Table.shown` is a table apart from these. Tables that show the same answer the same and show the same
afterwards: this is so of what never looks at a chain because that commutes with `shown`, of making and destroying
atoms because these only move links about, and of searching for the atom of a unique type because there is no
second one that another order of the chain could bring up first.
-/

namespace AtomHeap

/-- A payload apart from where its copy lies. -/
def Payload.shown : Payload → Payload
  | .pooled _ bytes => .pooled .null bytes
  | p => p

namespace Payload

variable (p : Payload)

@[simp] theorem shown_bytes : p.shown.bytes = p.bytes := by cases p <;> rfl

@[simp] theorem shown_copied : p.shown.copied = p.copied := by cases p <;> rfl

@[simp] theorem shown_isAt (span : Span) : p.shown.isAt span = p.isAt span := by cases p <;> rfl

end Payload

/-- An entry apart from where its copy lies and from its place on a chain. -/
def Entry.shown (e : Entry) : Entry := { e with payload := e.payload.shown, next := none }

/-- A slot apart from where the copy in it lies and from its place on a chain. -/
def Slot.shown (s : Slot) : Slot := { s with entry := s.entry.map Entry.shown }

@[simp] theorem Slot.shown_atom (s : Slot) (index : Nat) : s.shown.atom index = s.atom index := rfl

namespace Table

/-- A table apart from its chains, from where its copies lie, and from their pool. -/
def shown (t : Table) : Table := { t with chains := #[], slots := t.slots.map Slot.shown, pool := 0 }

variable {t t' u u' : Table} {buckets buckets' i index : Nat} {e e' : Entry} {s : Slot} {a b : Atom}
  {p q : Payload} {blob : BlobId} {type : BlobType} {hash : UInt64} {span : Span} {memory : StaticMemory}

@[simp] theorem slots_shown (t : Table) (i : Nat) : t.shown.slots[i]? = t.slots[i]?.map Slot.shown :=
  Array.getElem?_map

@[simp] theorem size_shown (t : Table) : t.shown.slots.size = t.slots.size := Array.size_map

theorem size_of_shown (h : t.shown = u.shown) : t.slots.size = u.slots.size := by
  rw [← size_shown, h, size_shown]

theorem entryAt?_shown (t : Table) (i : Nat) : t.shown.entryAt? i = (t.entryAt? i).map Entry.shown := by
  unfold entryAt?
  rw [slots_shown]
  cases t.slots[i]? <;> rfl

theorem slot_shown (t : Table) (i : Nat) : t.shown.slot i = (t.slot i).map Slot.shown := by
  unfold slot
  rw [slots_shown]
  cases t.slots[i]? <;> rfl

theorem entry_shown (t : Table) (a : Atom) : t.shown.entry a = (t.entry a).map Entry.shown := by
  unfold entry
  rw [slots_shown]
  cases t.slots[a.index.toNat]? with
  | none => rfl
  | some s =>
    obtain ⟨g, _ | e⟩ := s
    all_goals
      by_cases hg : g = a.generation
      all_goals simp [Slot.shown, hg, Except.map]

theorem modify_shown (t : Table) (i : Nat) {f g : Slot → Slot} (hf : ∀ s, (f s).shown = g s.shown) :
    (t.slots.modify i f).map Slot.shown = t.shown.slots.modify i g := by
  refine Array.ext_getElem? fun j => ?_
  rw [Array.getElem?_map, Array.getElem?_modify, Array.getElem?_modify, slots_shown]
  split
  · cases t.slots[j]? with
    | none => rfl
    | some s => exact congrArg some (hf s)
  · rfl

theorem setEntry_shown (t : Table) (i : Nat) (o : Option Entry) :
    (t.setEntry i o).shown = t.shown.setEntry i (o.map Entry.shown) := by
  have hslots := modify_shown t i (f := ({ · with entry := o })) (g := ({ · with entry := o.map Entry.shown }))
    fun _ => rfl
  exact congrArg (fun slots => { t.shown with slots }) hslots

theorem setEntry_of_shown (t : Table) (i : Nat) (h : e'.shown = e) :
    t.shown.setEntry i (some e) = (t.setEntry i (some e')).shown := by
  rw [setEntry_shown, Option.map_some, h]

/-- Another link in a slot does not show. -/
theorem setEntry_link (he : t.entryAt? i = some e) (hsame : e'.shown = e.shown) :
    (t.setEntry i (some e')).shown = t.shown := by
  obtain ⟨s, hs, hse⟩ := entryAt?_eq_some_iff.1 he
  have hslots : (t.setEntry i (some e')).shown.slots = t.shown.slots := by
    refine Array.ext_getElem? fun j => ?_
    rw [slots_shown, slots_setEntry, slots_shown]
    split
    · rename_i hj
      rw [← hj, hs]
      simp [Slot.shown, hse, hsame]
    · rfl
  exact congrArg (fun slots => { t.shown with slots }) hslots

/-! ## Links -/

theorem link_shown (h : t.link i e = .ok t') : t'.shown = t.shown.setEntry i (some e.shown) := by
  obtain ⟨⟨number, first⟩, -, h⟩ := bind_eq_ok_iff.1 h
  cases h
  exact setEntry_shown t i _

theorem linkAll_shown {indices : List Nat} (h : t.linkAll indices = .ok t') : t'.shown = t.shown := by
  induction indices generalizing t with
  | nil =>
    cases h
    rfl
  | cons index rest ih =>
    obtain ⟨s, hs, h⟩ := bind_eq_ok_iff.1 h
    split at h
    · exact ih h
    · rename_i e he
      obtain ⟨t₁, hlink, h⟩ := bind_eq_ok_iff.1 h
      obtain ⟨⟨number, first⟩, -, hlink⟩ := bind_eq_ok_iff.1 hlink
      cases hlink
      exact (ih h).trans (setEntry_link ((entryAt?_of_slot hs).trans he) rfl)

theorem growIfFull_shown (h : t.growIfFull = .ok t') : t'.shown = t.shown := by
  obtain ⟨double, -, h⟩ := bind_eq_ok_iff.1 h
  split at h
  · obtain ⟨size, -, h⟩ := bind_eq_ok_iff.1 h
    exact linkAll_shown (t := { t with chains := Array.replicate size none }) h
  · cases h
    rfl

theorem bypass_shown {next first : Option Nat} {steps : Nat} (h : t.bypass index next steps first = .ok t') :
    t'.shown = t.shown := by
  induction steps generalizing first with
  | zero => cases first <;> cases h
  | succ steps ih =>
    cases first with
    | none => cases h
    | some i =>
      obtain ⟨s, hs, h⟩ := bind_eq_ok_iff.1 h
      split at h
      · cases h
      · rename_i e he
        split at h
        · cases h
          exact setEntry_link ((entryAt?_of_slot hs).trans he) rfl
        · exact ih h

theorem unlink_shown (h : t.unlink index e = .ok t') : t'.shown = t.shown := by
  obtain ⟨⟨number, first⟩, -, h⟩ := bind_eq_ok_iff.1 h
  dsimp only at h
  split at h
  · cases h
    rfl
  · exact bypass_shown h

/-! ## Making and destroying atoms -/

/-- Making an atom, as far as it shows. -/
def fill (t : Table) (payload : Payload) (blob : BlobId) (hash : UInt64) : Except Fault (Atom × Table) := do
  let (index, t) := t.takeSlot
  let s ← t.slot index
  return (s.atom index,
    { t.setEntry index (some { payload, blob, hash, marked := t.marking }) with count := t.count + 1 })

theorem takeSlot_shown (t : Table) : t.shown.takeSlot = (t.takeSlot.1, t.takeSlot.2.shown) := by
  have henabled : t.shown.agcEnabled = t.agcEnabled := rfl
  have hholes : t.shown.holes = t.holes := rfl
  unfold takeSlot
  rw [henabled, hholes, size_shown]
  split
  · rfl
  · have hslots : t.shown.slots.push {} = (t.slots.push {}).map Slot.shown := by
      rw [Array.map_push]
      rfl
    exact congrArg (fun slots => (t.slots.size, { t.shown with slots })) hslots

theorem insert_shown (h : t.insert p blob hash = .ok (a, t')) :
    t.shown.fill p.shown blob hash = .ok (a, t'.shown) := by
  obtain ⟨s, t₂, hs, hlink, rfl, hgrow⟩ := insert_inv h
  unfold fill
  rw [takeSlot_shown]
  generalize t.takeSlot = taken at hs hlink ⊢
  obtain ⟨index, t₁⟩ := taken
  have hlinked := link_shown hlink
  have hgrown : t'.shown = { t₂.shown with count := t₂.shown.count + 1 } := growIfFull_shown hgrow
  have hcount : t₂.shown.count = t₁.count := congrArg (·.count) hlinked
  dsimp only
  rw [slot_shown, hs, hgrown, hcount, hlinked]
  rfl

/-- Destroying an atom, as far as it shows. -/
def vacate (t : Table) (i : Nat) : Table :=
  { t with
    slots := t.slots.modify i Slot.emptied
    holes := t.holes.insert i
    count := t.count - 1
    bytes := t.bytes - ((t.entryAt? i).map (·.payload.copied)).getD 0 }

theorem destroy_shown (he : t.entryAt? i = some e) {block : Option (Address × Nat)}
    (h : t.destroy i = .ok (block, t')) : t'.shown = t.shown.vacate i := by
  cases destroy_cases h with
  | vacant hnone =>
    rw [he] at hnone
    cases hnone
  | @unlinked e' t₁ he' hunlink =>
    cases he.symm.trans he'
    have hcopied : ((t.shown.entryAt? i).map (·.payload.copied)).getD 0 = e.payload.copied := by
      rw [entryAt?_shown, he]
      exact e.payload.shown_copied
    have hslots := modify_shown t₁ i (g := Slot.emptied) (f := Slot.emptied) fun _ => rfl
    unfold vacate
    rw [hcopied, ← unlink_shown hunlink]
    exact congrArg (fun slots => { t₁.shown with
      slots, holes := t₁.holes.insert i, count := t₁.count - 1, bytes := t₁.bytes - e.payload.copied }) hslots

/-- The visit of a sweep to a slot, as far as it shows. -/
def sift (t : Table) (swept : Swept) (i : Nat) : Swept × Table :=
  match t.question? i with
  | none => (swept, { t with slots := t.slots.modify i Slot.spared })
  | some (a, d) =>
    let asked := swept.ask (d.call 0 a)
    if (d.call 0 a).answer then (asked.destroy a none, (t.noted d.asked).vacate i) else (asked, t.noted d.asked)

/-! ## What never looks at a chain -/

theorem shouldCollect_shown (t : Table) : t.shown.shouldCollect = t.shouldCollect := rfl

theorem refsOf_shown (t : Table) (a : Atom) : t.shown.refsOf a = t.refsOf a := by
  unfold refsOf
  rw [entry_shown]
  cases t.entry a <;> rfl

theorem bytesOf_shown (t : Table) (a : Atom) : t.shown.bytesOf a = t.bytesOf a := by
  unfold bytesOf
  rw [entry_shown]
  cases t.entry a with
  | error error => rfl
  | ok e => exact congrArg Except.ok e.payload.shown_bytes

theorem info_shown (t : Table) (a : Atom) : t.shown.info a = t.info a := by
  have hlive : t.shown.isLive a = t.isLive a := by
    unfold isLive
    rw [entry_shown]
    cases t.entry a <;> rfl
  have hblob : t.shown.blobOf a = t.blobOf a := by
    unfold blobOf
    rw [entry_shown]
    cases t.entry a <;> rfl
  unfold info
  rw [hlive, hblob, refsOf_shown, bytesOf_shown]

theorem register_shown (t : Table) (a : Atom) : t.shown.register a = ((t.register a).1, (t.register a).2.shown) := by
  have hbuiltin : t.shown.builtin = t.builtin := rfl
  unfold register
  rw [entry_shown, hbuiltin]
  cases t.entry a with
  | error e => rfl
  | ok e =>
    dsimp only [Except.map]
    split
    · rfl
    · exact congrArg (Except.ok (), ·) (setEntry_of_shown t _ rfl)

theorem unregister_shown (t : Table) (a : Atom) :
    t.shown.unregister a = ((t.unregister a).1, (t.unregister a).2.shown) := by
  have hbuiltin : t.shown.builtin = t.builtin := rfl
  unfold unregister
  rw [entry_shown, hbuiltin]
  cases t.entry a with
  | error e => rfl
  | ok e =>
    have hrefs : e.shown.refs = e.refs := rfl
    dsimp only [Except.map]
    rw [hrefs]
    split
    · rfl
    · split
      · rfl
      · exact congrArg (Except.ok (), ·) (setEntry_of_shown t _ rfl)

theorem applyMarks_shown (t : Table) (atoms : List Atom) : t.shown.applyMarks atoms = (t.applyMarks atoms).shown := by
  induction atoms generalizing t with
  | nil => rfl
  | cons a atoms ih =>
    have hmark : t.shown.mark a = (t.mark a).shown := by
      have hbuiltin : t.shown.builtin = t.builtin := rfl
      unfold mark
      rw [entry_shown, hbuiltin]
      split
      · rfl
      · cases t.entry a with
        | error e => rfl
        | ok e => exact setEntry_of_shown t _ rfl
    change (t.shown.mark a).applyMarks atoms = ((t.mark a).applyMarks atoms).shown
    rw [hmark, ih]

theorem map_shown (t : Table) {f : Slot → Slot} (hf : ∀ s, (f s).shown = f s.shown) :
    (t.slots.map f).map Slot.shown = t.shown.slots.map f := by
  refine Array.ext_getElem? fun j => ?_
  rw [Array.getElem?_map, Array.getElem?_map, Array.getElem?_map, slots_shown]
  cases t.slots[j]? with
  | none => rfl
  | some s => exact congrArg some (hf s)

theorem withdraw_shown (e : Entry) (id : BlobId) : (e.withdraw id).shown = e.shown.withdraw id := by
  unfold Entry.withdraw
  change _ = if e.blob = id then _ else _
  split <;> rfl

theorem noted_shown (t : Table) (asked : Option (BlobId × String)) : (t.noted asked).shown = t.shown.noted asked := by
  cases asked <;> rfl

theorem question?_shown (t : Table) (i : Nat) : t.shown.question? i = t.question? i := by
  unfold question?
  rw [slots_shown]
  cases t.slots[i]? with
  | none => rfl
  | some s =>
    obtain ⟨g, _ | e⟩ := s <;> rfl

theorem reuse_shown (h : t.reuse i = .ok (a, t')) : t.shown.reuse i = .ok (a, t'.shown) := by
  obtain ⟨s, hs, h⟩ := bind_eq_ok_iff.1 h
  cases h
  unfold reuse
  rw [slot_shown, hs]
  obtain ⟨g, _ | e⟩ := s
  · rfl
  · exact congrArg (fun t' => Except.ok (_, t')) (setEntry_of_shown t i rfl)

theorem notice_shown (t : Table) (i : Nat) (s : Slot) : t.shown.notice i s.shown = (t.notice i s).shown := by
  obtain ⟨g, _ | e⟩ := s
  · rfl
  · have hmarking : t.shown.marking = t.marking := rfl
    unfold notice Slot.shown
    simp only [Option.map_some, hmarking]
    split
    · exact setEntry_of_shown t i rfl
    · rfl

/-- What a sweep did so far, apart from where the blocks lie that it gives back. -/
def Swept.shown (swept : Swept) : Swept := { swept with freed := #[] }

theorem Passed.shown (h : Passed t i t') :
    t'.shown = { t.shown with slots := t.shown.slots.modify i Slot.spared } := by
  have hslots : t'.shown.slots = t.shown.slots.modify i Slot.spared := by
    refine Array.ext_getElem? fun j => ?_
    rw [Array.getElem?_modify, slots_shown, slots_shown]
    split
    · rename_i hj
      have hslot := congrArg (Option.map Slot.shown) (hj ▸ h.slot)
      rw [Option.map_map, Option.map_map] at hslot
      rw [Option.map_map]
      convert hslot using 2
      all_goals
        funext s
        obtain ⟨g, _ | e⟩ := s <;> rfl
    · rename_i hj
      rw [h.others j (Ne.symm hj)]
  rw [h.rest]
  exact congrArg (fun slots => { t.shown with slots }) hslots

theorem Visited.sift {swept swept' : Swept} (h : Visited t i swept swept' t') :
    t.shown.sift swept.shown i = (swept'.shown, t'.shown) := by
  unfold Table.sift
  rw [question?_shown]
  cases h with
  | passed hquestion hp =>
    rw [hquestion, hp.shown]
  | spared hquestion hanswer =>
    simp only [hquestion, hanswer, noted_shown]
    rfl
  | @destroyed a d e _ hquestion hanswer he hd =>
    have he' : (t.noted d.asked).entryAt? i = some e := by
      unfold entryAt?
      rw [slots_noted]
      exact he
    simp only [hquestion, hanswer, destroy_shown he' hd, noted_shown, if_true]
    simp [Swept.shown, Swept.ask, Swept.destroy]

theorem Visited.chains {swept swept' : Swept} (h : Visited t i swept swept' t') (hs : t.Sound buckets 0) :
    t'.chains.size = t.chains.size := by
  cases h with
  | passed _ hp => exact congrArg Array.size hp.amended.chains
  | @spared a d => exact congrArg Array.size (noted_amended t d.asked).chains
  | @destroyed a d e _ hquestion _ he hd =>
    exact (hs.destroyed_noted hquestion he hd).2.2.chains.trans (congrArg Array.size (noted_amended t d.asked).chains)

theorem isFor_shown (e : Entry) (hash : UInt64) (span : Span) (blob : BlobId) (nocopy : Bool) :
    isFor e.shown hash span blob nocopy = isFor e hash span blob nocopy := by
  unfold isFor Entry.shown
  simp

/-! ## Tables that show the same -/

theorem entryAt?_of_shown (h : u.shown = t.shown) (he : u.entryAt? i = some e) :
    ∃ e', t.entryAt? i = some e' ∧ e'.shown = e.shown := by
  have hi := entryAt?_shown u i
  rw [he, h, entryAt?_shown, Option.map_some, Option.map_eq_some_iff] at hi
  exact hi

theorem slot_of_shown (h : u.shown = t.shown) (hs : t.slot i = .ok s) :
    ∃ s', u.slot i = .ok s' ∧ s'.shown = s.shown := by
  have hslot := slot_shown u i
  rw [h, slot_shown, hs] at hslot
  cases hu : u.slot i with
  | error e =>
    rw [hu] at hslot
    cases hslot
  | ok s' =>
    rw [hu] at hslot
    exact ⟨s', rfl, (Except.ok.inj hslot).symm⟩

theorem isFor_of_shown (h : u.shown = t.shown) {nocopy : Bool} (he : u.entryAt? i = some e)
    (hfor : isFor e hash span blob nocopy = true) :
    ∃ e', t.entryAt? i = some e' ∧ isFor e' hash span blob nocopy = true := by
  obtain ⟨e', he', heq⟩ := entryAt?_of_shown h he
  exact ⟨e', he', by rw [← isFor_shown, heq, isFor_shown, hfor]⟩

/-- Tables that show the same. Where the one can double its chains, so can the other. -/
structure Alike (t u : Table) : Prop where
  shown : u.shown = t.shown
  room : 2 * t.chains.size < wordCount → 2 * u.chains.size < wordCount

namespace Alike

variable (h : Alike t u)

include h

theorem insert (hs : t.Sound buckets p.copied) (hu : u.Sound buckets' q.copied)
    (hhash : hash = Hash.ofBytes p.bytes) (hpayload : q.shown = p.shown) (hi : t.insert p blob hash = .ok (a, t')) :
    ∃ u', u.insert q blob hash = .ok (a, u') ∧ Alike t' u' := by
  have hcount : u.count = t.count := congrArg (·.count) h.shown
  rcases hs.insert hhash blob with ⟨-, hfault⟩ | ⟨hfits, index, g, t₁, hi', hinserted, hsound⟩
  · rw [hfault] at hi
    cases hi
  rw [hi'] at hi
  cases hi
  have hhash' : hash = Hash.ofBytes q.bytes := by rw [hhash, ← p.shown_bytes, ← hpayload, q.shown_bytes]
  rcases hu.insert hhash' blob with ⟨hnot, -⟩ | ⟨-, index', g', u', hiu, -, -⟩
  · exact absurd ⟨hcount ▸ hfits.1, h.room hfits.2⟩ hnot
  have hfill := insert_shown hiu
  rw [h.shown, hpayload, insert_shown hi', Except.ok.injEq, Prod.mk.injEq] at hfill
  obtain ⟨hatom, hshown⟩ := hfill
  refine ⟨u', hatom ▸ hiu, hshown.symm, fun hroom => ?_⟩
  rcases hu.insert_chains hhash' hiu with hsame | hless
  · rw [hsame]
    exact h.room hfits.2
  · -- The chains are powers of two, so there are at most half as many as there could be.
    have hcount' : u'.count = t'.count := congrArg (·.count) hshown.symm
    have hload := hsound.load
    obtain ⟨k, hk⟩ := isPowerOfTwo_iff.1 hsound.linked.power
    rw [Nat.one_shiftLeft] at hk
    have hword : wordCount = 2 ^ 64 := rfl
    have hpower : k + 1 < 64 := by
      rw [hk, ← Nat.pow_succ', hword] at hroom
      exact (Nat.pow_lt_pow_iff_right (by decide)).1 hroom
    have hhalf : t'.chains.size ≤ 2 ^ 62 := hk ▸ Nat.pow_le_pow_right (by decide) (by omega)
    omega

omit h in
/-- Nothing that a caller can tell is different, and the chains are as they were. -/
theorem congr {t' u' : Table} (h : Alike t u) (hshown : u'.shown = t'.shown) (ht : t'.chains.size = t.chains.size)
    (hu : u'.chains.size = u.chains.size) : Alike t' u' :=
  ⟨hshown, by rw [ht, hu]; exact h.room⟩

theorem reuse (hr : t.reuse i = .ok (a, t')) : ∃ u', u.reuse i = .ok (a, u') ∧ Alike t' u' := by
  obtain ⟨s, hs, -⟩ := bind_eq_ok_iff.1 hr
  obtain ⟨s', hs', -⟩ := slot_of_shown h.shown hs
  obtain ⟨⟨b, u'⟩, hu'⟩ : ∃ p, u.reuse i = .ok p := by
    unfold Table.reuse
    rw [hs']
    exact ⟨_, rfl⟩
  have heq := reuse_shown hu'
  rw [h.shown, reuse_shown hr, Except.ok.injEq, Prod.mk.injEq] at heq
  obtain ⟨rfl, hshown⟩ := heq
  exact ⟨u', hu', h.congr hshown.symm (congrArg Array.size (reuse_amended hr).chains)
    (congrArg Array.size (reuse_amended hu').chains)⟩

/-- There is no second atom of a unique type for a span that another order of the chain could bring up first. -/
theorem find (hs : t.Sound buckets 0) (hu : u.Sound buckets' 0) (hc : t.Canonical memory) (hspan : span.Lies memory)
    (htype : t.blobs.get? blob = some type) (hunique : type.flags.unique) :
    u.find (Hash.ofBytes span.bytes) span blob type.flags.nocopy =
      t.find (Hash.ofBytes span.bytes) span blob type.flags.nocopy := by
  obtain ⟨found, hfound, hsome, hnone⟩ := hs.linked.find (Hash.ofBytes span.bytes) span blob type.flags.nocopy
  obtain ⟨found', hfound', hsome', hnone'⟩ := hu.linked.find (Hash.ofBytes span.bytes) span blob type.flags.nocopy
  rw [hfound, hfound', Except.ok.injEq]
  cases found' with
  | none =>
    cases found with
    | none => rfl
    | some i =>
      obtain ⟨e, he, hfor⟩ := hsome i rfl
      obtain ⟨e', he', hfor'⟩ := isFor_of_shown h.shown.symm he hfor
      exact absurd hfor' (hnone' rfl i e' he')
  | some j =>
    obtain ⟨e, he, hfor⟩ := hsome' j rfl
    obtain ⟨e', he', hfor'⟩ := isFor_of_shown h.shown he hfor
    cases found with
    | none => exact absurd hfor' (hnone rfl j e' he')
    | some i =>
      obtain ⟨e₀, he₀, hfor₀⟩ := hsome i rfl
      have hblob := (key_of_isFor hfor').2
      rw [hc.unique j i e' e₀ type he' he₀ (hblob.trans (key_of_isFor hfor₀).2.symm) (hblob ▸ htype) hunique
        (same_of_isFor (payload_isFor hfor') (payload_isFor hfor₀) (hc.lies j e' he') (hc.lies i e₀ he₀) hspan)]

theorem lookup (hs : t.Sound buckets 0) (hu : u.Sound buckets' 0) (hc : t.Canonical memory) (hspan : span.Lies memory)
    (hunique : ∀ type, t.blobs.get? blob = some type → type.flags.unique) {found : Option Atom}
    (hl : t.lookup span blob = .ok (found, t')) : ∃ u', u.lookup span blob = .ok (found, u') ∧ Alike t' u' := by
  have hblobs : u.blobs = t.blobs := congrArg (·.blobs) h.shown
  unfold Table.lookup at hl ⊢
  rw [hblobs]
  split at hl
  · cases hl
    exact ⟨u, rfl, h⟩
  · rename_i type htype
    rw [h.find hs hu hc hspan htype (hunique type htype)]
    obtain ⟨_ | index, hfind, hl⟩ := bind_eq_ok_iff.1 hl
    · cases hl
      exact ⟨u, by rw [hfind]; rfl, h⟩
    · obtain ⟨s, hslot, hl⟩ := bind_eq_ok_iff.1 hl
      cases hl
      obtain ⟨s', hslot', hs'⟩ := slot_of_shown h.shown hslot
      have hatom : s'.atom index = s.atom index := by rw [← s'.shown_atom, hs', s.shown_atom]
      refine ⟨u.notice index s', by simp only [hfind, hslot', hatom, bind, Except.bind]; rfl, h.congr ?_ ?_ ?_⟩
      · rw [← notice_shown, hs', h.shown, notice_shown]
      · exact congrArg Array.size (notice_touched (slot_eq_ok_iff.1 hslot)).amended.chains
      · exact congrArg Array.size (notice_touched (slot_eq_ok_iff.1 hslot')).amended.chains

theorem sweepSlots (hs : t.Sound buckets 0) (hu : u.Sound buckets' 0) {indices : List Nat}
    (hindices : ∀ i ∈ indices, t.builtin ≤ i ∧ i < t.slots.size) {swept swept' swept₁ : Swept}
    (hswept : swept₁.shown = swept.shown) (ht : t.sweepSlots swept indices = .ok (swept', t')) :
    ∃ swept₂ u', u.sweepSlots swept₁ indices = .ok (swept₂, u') ∧ swept₂.shown = swept'.shown ∧ Alike t' u' := by
  induction indices generalizing t u swept swept₁ with
  | nil =>
    cases ht
    exact ⟨swept₁, u, rfl, hswept, h⟩
  | cons i rest ih =>
    obtain ⟨⟨swept₀, t₁⟩, hslot, ht⟩ := bind_eq_ok_iff.1 ht
    obtain ⟨hle, hlt⟩ := hindices i (.head _)
    obtain ⟨swept₀', t₁', hslot', hv⟩ := hs.visit hle hlt swept
    rw [hslot, Except.ok.injEq, Prod.mk.injEq] at hslot'
    obtain ⟨rfl, rfl⟩ := hslot'
    have hbuiltin : u.builtin = t.builtin := congrArg (·.builtin) h.shown
    obtain ⟨swept₂, u₁, hslotu, hvu⟩ := hu.visit (hbuiltin ▸ hle) (size_of_shown h.shown ▸ hlt) swept₁
    have hsift := hvu.sift
    rw [h.shown, hswept, hv.sift, Prod.mk.injEq] at hsift
    obtain ⟨gone, hone, -⟩ := hv.swept hs fun _ => True
    obtain ⟨gone', honeu, -⟩ := hvu.swept hu fun _ => True
    obtain ⟨swept₃, u₂, hrest, hresult⟩ := ih (h.congr hsift.2.symm (hv.chains hs) (hvu.chains hu))
      (hs.changes hone.changes) (hu.changes honeu.changes)
      (fun j hj => by
        rw [hone.builtin, hone.size]
        exact hindices j (.tail _ hj)) hsift.1.symm ht
    refine ⟨swept₃, u₂, ?_, hresult⟩
    unfold Table.sweepSlots
    rw [hslotu]
    exact hrest

theorem sweep (hs : t.Sound buckets 0) (hu : u.Sound buckets' 0) {swept : Swept} (ht : t.sweep = .ok (swept, t')) :
    ∃ swept' u', u.sweep = .ok (swept', u') ∧ swept'.shown = swept.shown ∧ Alike t' u' := by
  have hbuiltin : u.builtin = t.builtin := congrArg (·.builtin) h.shown
  obtain ⟨⟨swept₁, t₁⟩, hslots, ht⟩ := bind_eq_ok_iff.1 ht
  cases ht
  obtain ⟨swept', u', hslotsu, hswept, hshown, hroom⟩ := h.sweepSlots hs hu (fun i hi => by
    have := hs.accounted.boundary
    obtain ⟨hle, hlt⟩ := List.mem_range'_1.1 hi
    omega) (rfl : Swept.shown {} = Swept.shown {}) hslots
  refine ⟨swept', { u' with marking := false, nonGarbage := u'.count }, ?_, hswept, ?_, hroom⟩
  · unfold Table.sweep
    rw [hbuiltin, size_of_shown h.shown, hslotsu]
    rfl
  · exact congrArg (fun t => { t with marking := false, nonGarbage := t.count }) hshown

end Alike

end Table

end AtomHeap
