import AtomHeap.Blob.Registry
import Mathlib.Data.List.Permutation
/-!
# Histories of a registry

A registry is its history. Types are only ever put behind those that were registered before, and a withdrawal takes
a type out of use without taking it off the list. So the calls made on a registry with their answers, the log, say
all there is to know about it: which types were ever registered, in order (`everRegistered`), and which of them were
withdrawn (`withdrawn`). `Recorded` says how each call is answered by the log, and `history_recorded` that it is so
after any calls.

A search by name takes the first type in use that has it. It is the only one: `Tracks.names` is kept by each call.

What a registry holds is said by the places of types on the list. Numbers are places of 32 bits: no two types share
one, and a search gives the number of the very type that it found, while no more types were registered than there
are numbers (`Few`). The type after that would get the number of text (`register_comes_round`).
-/

namespace AtomHeap.BlobRegistry

variable {r r' : BlobRegistry} {id id' : BlobId} {i : Nat} {type type' : BlobType} {name : String} {b : Bool}

/-! ## What a registry holds -/

/-- Every type ever registered has a number of its own. -/
def Few (r : BlobRegistry) : Prop := r.types.size ≤ UInt32.size

/-- The type at a place, with whether it is still in use. -/
def standing (r : BlobRegistry) (i : Nat) : Option (BlobType × Bool) :=
  r.types[i]?.map fun t => (t.type, t.registered)

theorem standing_eq_some_iff :
    r.standing i = some (type, b) ↔ ∃ t, r.types[i]? = some t ∧ t.type = type ∧ t.registered = b := by
  unfold standing
  rw [Option.map_eq_some_iff]
  simp only [Prod.mk.injEq]

theorem get?_eq (r : BlobRegistry) (id : BlobId) : r.get? id = (r.standing id).map Prod.fst := by
  unfold get? standing
  rw [Option.map_map]
  rfl

theorem isRegistered_iff : r.isRegistered id = true ↔ ∃ type, r.standing id = some (type, true) := by
  unfold isRegistered standing
  cases r.types[id.toNat]? with
  | none => simp
  | some t => simp

theorem isRegistered_congr (h : r'.standing id = r.standing id) : r'.isRegistered id = r.isRegistered id := by
  rw [Bool.eq_iff_iff, isRegistered_iff, isRegistered_iff, h]

theorem standing_of_lt (h : i < r.types.size) : ∃ type b, r.standing i = some (type, b) := by
  unfold standing
  rw [Array.getElem?_eq_getElem h]
  exact ⟨_, _, rfl⟩

theorem lt_of_standing (h : r.standing i = some (type, b)) : i < r.types.size := by
  obtain ⟨t, ht, -⟩ := standing_eq_some_iff.1 h
  exact (Array.getElem?_eq_some_iff.1 ht).1

theorem find?_eq_none_iff :
    r.find? name = none ↔ ∀ i type, r.standing i = some (type, true) → type.name ≠ name := by
  unfold find?
  rw [Option.map_eq_none_iff, Array.findIdx?_eq_none_iff]
  constructor
  · intro h i type hi hname
    obtain ⟨t, ht, rfl, hreg⟩ := standing_eq_some_iff.1 hi
    have hpass := h t (Array.mem_of_getElem? ht)
    rw [hreg, hname, beq_self_eq_true] at hpass
    cases hpass
  · intro h t ht
    obtain ⟨i, hi⟩ := Array.mem_iff_getElem?.1 ht
    cases hreg : t.registered with
    | false => rfl
    | true => simpa using h i t.type (standing_eq_some_iff.2 ⟨t, hi, rfl, hreg⟩)

theorem of_find?_eq_some (h : r.find? name = some id) :
    ∃ i type, r.standing i = some (type, true) ∧ type.name = name ∧ id = .ofNat i := by
  obtain ⟨i, hfound, rfl⟩ := Option.map_eq_some_iff.1 h
  obtain ⟨hlt, hpass, -⟩ := Array.findIdx?_eq_some_iff_getElem.1 hfound
  rw [Bool.and_eq_true, beq_iff_eq] at hpass
  exact ⟨i, _, standing_eq_some_iff.2 ⟨_, Array.getElem?_eq_getElem hlt, rfl, hpass.1⟩, hpass.2, rfl⟩

theorem mem_registered_iff :
    (id, name) ∈ r.registered ↔ ∃ i type, r.standing i = some (type, true) ∧ type.name = name ∧ id = .ofNat i := by
  unfold registered
  simp only [List.mem_filterMap, Prod.exists, List.mem_zipIdx_iff_getElem?, Array.getElem?_toList,
    Option.ite_none_right_eq_some, Option.some.injEq, Prod.mk.injEq, standing_eq_some_iff]
  constructor
  · rintro ⟨t, i, ht, hreg, hid, hname⟩
    exact ⟨i, t.type, ⟨t, ht, rfl, hreg⟩, hname, hid.symm⟩
  · rintro ⟨i, _, ⟨t, ht, rfl, hreg⟩, hname, hid⟩
    exact ⟨t, i, ht, hreg, hid.symm, hname⟩

/-- The number of a type leads to its place. -/
theorem Few.toNat_ofNat (h : r.Few) (hi : r.standing i = some (type, b)) : (UInt32.ofNat i).toNat = i :=
  UInt32.toNat_ofNat_of_lt' (Nat.lt_of_lt_of_le (lt_of_standing hi) h)

theorem Few.registered_ascending (h : r.Few) : (r.registered.map Prod.fst).Pairwise (· < ·) := by
  have hplaces : (r.types.toList.zipIdx.map Prod.snd).Pairwise (· < ·) := by
    rw [List.zipIdx_map_snd]
    exact List.pairwise_lt_range'
  have hnumber {x : Registration × Nat} (hx : x ∈ r.types.toList.zipIdx) : (UInt32.ofNat x.2).toNat = x.2 := by
    rw [List.mem_zipIdx_iff_getElem?, Array.getElem?_toList] at hx
    exact UInt32.toNat_ofNat_of_lt' (Nat.lt_of_lt_of_le (Array.getElem?_eq_some_iff.1 hx).1 h)
  rw [List.pairwise_map] at hplaces ⊢
  unfold registered
  refine List.pairwise_filterMap.2 (hplaces.imp_of_mem ?_)
  rintro ⟨t, i⟩ ⟨t', i'⟩ hmem hmem' hlt x hx x' hx'
  simp only [Option.ite_none_right_eq_some, Option.some.injEq] at hx hx'
  rw [← hx.2, ← hx'.2, UInt32.lt_iff_toNat_lt, hnumber hmem, hnumber hmem']
  exact hlt

/-! ## What a call does -/

theorem register_eq_error_iff {e : AtomError} : r.register type = .error e ↔
    e = .blobExists type.name ∧ ∃ i type', r.standing i = some (type', true) ∧ type'.name = type.name := by
  unfold register
  cases hfind : r.find? type.name with
  | none =>
    simp only [Option.isSome_none, Bool.false_eq_true, if_false, reduceCtorEq, false_iff, not_and, not_exists]
    exact fun _ i type' hi => find?_eq_none_iff.1 hfind i type' hi
  | some id =>
    obtain ⟨i, type', hi, hname, -⟩ := of_find?_eq_some hfind
    simp only [Option.isSome_some, if_true, Except.error.injEq]
    exact ⟨fun h => ⟨h.symm, i, type', hi, hname⟩, fun h => h.1.symm⟩

theorem register_eq_ok_iff : r.register type = .ok (id, r') ↔
    r.find? type.name = none ∧ id = .ofNat r.types.size ∧ r' = ⟨r.types.push { type }⟩ := by
  unfold register
  cases r.find? type.name with
  | none => simp [eq_comm]
  | some _ => simp

theorem standing_register (h : r.register type = .ok (id, r')) (i : Nat) :
    r'.standing i = if i = r.types.size then some (type, true) else r.standing i := by
  obtain ⟨-, -, rfl⟩ := register_eq_ok_iff.1 h
  unfold standing
  rw [Array.getElem?_push]
  split <;> rfl

theorem Few.of_register (hr' : r'.Few) (h : r.register type = .ok (id, r')) : r.types.size < UInt32.size := by
  obtain ⟨-, -, rfl⟩ := register_eq_ok_iff.1 h
  unfold Few at hr'
  rwa [Array.size_push] at hr'

/-- The number of a type is the count of those before it. -/
theorem Few.toNat_register (hr' : r'.Few) (h : r.register type = .ok (id, r')) : id.toNat = r.types.size := by
  rw [(register_eq_ok_iff.1 h).2.1]
  exact UInt32.toNat_ofNat_of_lt' (hr'.of_register h)

/-- With as many types as there are numbers, the next gets the number of text, and that still stands for text. -/
theorem register_comes_round (h : r.register type = .ok (id, r')) (hsize : r.types.size = UInt32.size) :
    id = BlobId.text ∧ r'.standing id = r.standing id := by
  have hid : id = BlobId.text := by
    rw [(register_eq_ok_iff.1 h).2.1, hsize]
    rfl
  refine ⟨hid, ?_⟩
  rw [standing_register h, hid, if_neg]
  rw [hsize]
  exact nofun

theorem unregister_eq_ok_iff : r.unregister id = .ok r' ↔ id ≠ BlobId.discarded ∧ r.isRegistered id = true ∧
    r' = ⟨r.types.modify id.toNat fun t => { t with registered := false }⟩ := by
  unfold unregister
  split
  · rename_i h
    simp [h, eq_comm]
  · rename_i h
    simp only [reduceCtorEq, false_iff]
    exact fun h' => h ⟨h'.1, h'.2.1⟩

theorem unregister_eq_error_iff {e : AtomError} : r.unregister id = .error e ↔
    e = .unknownBlob ∧ (id = BlobId.discarded ∨ r.isRegistered id = false) := by
  unfold unregister
  split
  · rename_i h
    simp [h]
  · rename_i h
    rw [not_and_or, Bool.not_eq_true, not_ne_iff] at h
    simp only [Except.error.injEq]
    exact ⟨fun he => ⟨he.symm, h⟩, fun h' => h'.1.symm⟩

theorem standing_unregister (h : r.unregister id = .ok r') (i : Nat) :
    r'.standing i = if i = id.toNat then (r.standing i).map fun x => (x.1, false) else r.standing i := by
  obtain ⟨-, -, rfl⟩ := unregister_eq_ok_iff.1 h
  unfold standing
  rw [Array.getElem?_modify]
  by_cases heq : id.toNat = i
  · rw [if_pos heq, if_pos heq.symm, Option.map_map, Option.map_map]
    rfl
  · rw [if_neg heq, if_neg (Ne.symm heq)]

/-- The type that is withdrawn is out of use, and all others are what they were. -/
theorem isRegistered_unregister (h : r.unregister id = .ok r') (id' : BlobId) :
    r'.isRegistered id' = (decide (id' ≠ id) && r.isRegistered id') := by
  have hstanding := standing_unregister h id'
  simp only [UInt32.toNat_inj] at hstanding
  by_cases hid : id' = id
  · rw [if_pos hid] at hstanding
    rw [decide_eq_false (not_not.2 hid), Bool.false_and, ← Bool.not_eq_true, isRegistered_iff, hstanding]
    rintro ⟨type, htype⟩
    obtain ⟨x, -, hx⟩ := Option.map_eq_some_iff.1 htype
    cases hx
  · rw [if_neg hid] at hstanding
    rw [decide_eq_true hid, Bool.true_and, isRegistered_congr hstanding]

theorem askRelease_keeps {a : Atom} {answer : Bool} (h : r.askRelease id a = some (answer, r')) :
    r'.standing = r.standing ∧ r'.types.size = r.types.size := by
  unfold askRelease at h
  split at h
  · cases h
  · obtain ⟨hook, -, heq⟩ := Option.map_eq_some_iff.1 h
    cases heq
    refine ⟨funext fun i => ?_, Array.size_modify⟩
    unfold standing
    rw [Array.getElem?_modify]
    split
    · rw [Option.map_map]
      rfl
    · rfl

/-! ## Questions to release hooks -/

/-- No release hook was asked: types kept count of the questions put to theirs, and none was put to new ones. -/
structure Unasked (r r' : BlobRegistry) : Prop where
  kept : ∀ (i : Nat) t, r.types[i]? = some t → ∃ t', r'.types[i]? = some t' ∧ t'.asked = t.asked
  new : ∀ (i : Nat) t', r.types[i]? = none → r'.types[i]? = some t' → t'.asked = 0

theorem Unasked.refl (r : BlobRegistry) : Unasked r r where
  kept _ t ht := ⟨t, ht, rfl⟩
  new _ _ hnone ht' := nomatch hnone.symm.trans ht'

theorem Unasked.trans {r'' : BlobRegistry} (h : Unasked r r') (h' : Unasked r' r'') : Unasked r r'' where
  kept i t ht := by
    obtain ⟨t', ht', hasked⟩ := h.kept i t ht
    obtain ⟨t'', ht'', hasked'⟩ := h'.kept i t' ht'
    exact ⟨t'', ht'', hasked'.trans hasked⟩
  new i t'' hnone ht'' := by
    cases ht' : r'.types[i]? with
    | none => exact h'.new i t'' ht' ht''
    | some t' =>
      obtain ⟨t₁, ht₁, hasked⟩ := h'.kept i t' ht'
      cases ht''.symm.trans ht₁
      exact hasked.trans (h.new i t' hnone ht')

theorem unasked_register (h : r.register type = .ok (id, r')) : Unasked r r' := by
  obtain ⟨-, -, rfl⟩ := register_eq_ok_iff.1 h
  refine ⟨fun i t ht => ⟨t, ?_, rfl⟩, fun i t' hnone ht' => ?_⟩
  · obtain ⟨hlt, rfl⟩ := Array.getElem?_eq_some_iff.1 ht
    exact Array.getElem?_push_lt hlt
  · rw [Array.getElem?_push] at ht'
    split at ht'
    · cases ht'
      rfl
    · cases hnone.symm.trans ht'

theorem unasked_unregister (h : r.unregister id = .ok r') : Unasked r r' := by
  obtain ⟨-, -, rfl⟩ := unregister_eq_ok_iff.1 h
  refine ⟨fun i t ht => ?_, fun i t' hnone ht' => ?_⟩
  · rw [Array.getElem?_modify, ht]
    split
    · exact ⟨_, rfl, rfl⟩
    · exact ⟨t, rfl, rfl⟩
  · rw [Array.getElem?_modify, hnone] at ht'
    split at ht' <;> cases ht'

/-! ## Calls and their log -/

/-- What callers ask of a registry. -/
inductive Call
  | register (type : BlobType)
  | unregister (id : BlobId)
  | find (name : String)
  | get (id : BlobId)

/-- What they are answered. -/
inductive Answer
  /-- The type is in use under this number. -/
  | granted (id : BlobId)
  /-- The type is out of use. -/
  | withdrawn
  | refused (e : AtomError)
  | found (id? : Option BlobId)
  | described (type? : Option BlobType)

/-- Answers a call. One that is refused leaves the registry as it is. -/
def perform (r : BlobRegistry) : Call → Answer × BlobRegistry
  | .register type =>
    match r.register type with
    | .ok (id, r') => (.granted id, r')
    | .error e => (.refused e, r)
  | .unregister id =>
    match r.unregister id with
    | .ok r' => (.withdrawn, r')
    | .error e => (.refused e, r)
  | .find name => (.found (r.find? name), r)
  | .get id => (.described (r.get? id), r)

/-- How a call goes. -/
inductive Performed (r : BlobRegistry) : Call → Answer → BlobRegistry → Prop
  | granted {type : BlobType} {id : BlobId} {r' : BlobRegistry} :
      r.register type = .ok (id, r') → Performed r (.register type) (.granted id) r'
  | registerRefused {type : BlobType} {e : AtomError} :
      r.register type = .error e → Performed r (.register type) (.refused e) r
  | withdrawn {id : BlobId} {r' : BlobRegistry} :
      r.unregister id = .ok r' → Performed r (.unregister id) .withdrawn r'
  | unregisterRefused {id : BlobId} {e : AtomError} :
      r.unregister id = .error e → Performed r (.unregister id) (.refused e) r
  | found (name : String) : Performed r (.find name) (.found (r.find? name)) r
  | described (id : BlobId) : Performed r (.get id) (.described (r.get? id)) r

theorem performed (r : BlobRegistry) (c : Call) : Performed r c (r.perform c).1 (r.perform c).2 := by
  cases c with
  | register type =>
    cases hr : r.register type with
    | ok x =>
      simp only [perform, hr]
      exact .granted hr
    | error e =>
      simp only [perform, hr]
      exact .registerRefused hr
  | unregister id =>
    cases hr : r.unregister id with
    | ok r' =>
      simp only [perform, hr]
      exact .withdrawn hr
    | error e =>
      simp only [perform, hr]
      exact .unregisterRefused hr
  | find name => exact .found name
  | get id => exact .described id

/-- Calls with their answers, the latest first. -/
abbrev Log := List (Call × Answer)

/-- Calls on a registry. Meanwhile sweeps may ask the release hooks of its types. -/
inductive History (r₀ : BlobRegistry) : Log → BlobRegistry → Prop
  | start : History r₀ [] r₀
  | call {log : Log} {r : BlobRegistry} (c : Call) :
      History r₀ log r → History r₀ ((c, (r.perform c).1) :: log) (r.perform c).2
  | asked {log : Log} {r r' : BlobRegistry} {id : BlobId} {a : Atom} {answer : Bool} :
      History r₀ log r → r.askRelease id a = some (answer, r') → History r₀ log r'

/-- A call takes no type off the list and puts none back into use. -/
theorem Performed.standing {c : Call} {a : Answer} (hc : Performed r c a r') (hi : r.standing i = some (type, b)) :
    ∃ b', r'.standing i = some (type, b') ∧ (b' = true → b = true) := by
  cases hc with
  | granted hr =>
    rw [standing_register hr, if_neg (Nat.ne_of_lt (lt_of_standing hi))]
    exact ⟨b, hi, fun h => h⟩
  | withdrawn hr =>
    rw [standing_unregister hr]
    split
    · exact ⟨false, by rw [hi]; rfl, nofun⟩
    · exact ⟨b, hi, fun h => h⟩
  | _ => exact ⟨b, hi, fun h => h⟩

theorem History.standing {log : Log} (h : History r log r') (hi : r.standing i = some (type, b)) :
    ∃ b', r'.standing i = some (type, b') ∧ (b' = true → b = true) := by
  induction h with
  | start => exact ⟨b, hi, fun h => h⟩
  | call c _ ih =>
    obtain ⟨b₁, hi₁, hle⟩ := ih
    obtain ⟨b₂, hi₂, hle₂⟩ := (performed _ c).standing hi₁
    exact ⟨b₂, hi₂, fun h => hle (hle₂ h)⟩
  | asked _ ha ih => rwa [(askRelease_keeps ha).1]

theorem History.isRegistered {log : Log} (h : History r log r') (hlt : id.toNat < r.types.size)
    (hreg : r'.isRegistered id = true) : r.isRegistered id = true := by
  obtain ⟨type, b, hid⟩ := standing_of_lt hlt
  obtain ⟨b', hid', hle⟩ := h.standing hid
  obtain ⟨type', hreg⟩ := isRegistered_iff.1 hreg
  rw [hid', Option.some.injEq, Prod.mk.injEq] at hreg
  exact isRegistered_iff.2 ⟨type, by rw [hid, hle hreg.2]⟩

theorem History.lt_size {log : Log} (h : History r log r') (hlt : i < r.types.size) : i < r'.types.size := by
  obtain ⟨type, b, hi⟩ := standing_of_lt hlt
  obtain ⟨b', hi', -⟩ := h.standing hi
  exact lt_of_standing hi'

/-- Asking release hooks is nothing that a registry tells. -/
theorem History.silent (h : History r [] r') : r'.standing = r.standing := by
  generalize hlog : ([] : Log) = log at h
  induction h with
  | start => rfl
  | call => cases hlog
  | asked _ ha ih => exact (askRelease_keeps ha).1.trans (ih hlog)

theorem History.trans {r₀ : BlobRegistry} {log later : Log} (h : History r₀ log r) (h' : History r later r') :
    History r₀ (later ++ log) r' := by
  induction h' with
  | start => exact h
  | call c _ ih => exact .call c ih
  | asked _ ha ih => exact .asked ih ha

theorem History.register (h : r.register type = .ok (id, r')) : History r [(.register type, .granted id)] r' := by
  have hc := History.call (.register type) (@History.start r)
  simp only [perform, h] at hc
  exact hc

theorem History.unregister (h : r.unregister id = .ok r') : History r [(.unregister id, .withdrawn)] r' := by
  have hc := History.call (.unregister id) (@History.start r)
  simp only [perform, h] at hc
  exact hc

/-! ## What a log says -/

/-- All types ever registered, in order. -/
def everRegistered : Log → List BlobType
  | [] => initial.types.toList.map (·.type)
  | (.register type, .granted _) :: log => everRegistered log ++ [type]
  | _ :: log => everRegistered log

/-- The numbers given out, the latest first. -/
def granted : Log → List BlobId
  | [] => []
  | (_, .granted id) :: log => id :: granted log
  | _ :: log => granted log

/-- The places of the types that were withdrawn. -/
def withdrawn : Log → List Nat
  | [] => []
  | (.unregister id, .withdrawn) :: log => id.toNat :: withdrawn log
  | _ :: log => withdrawn log

/-- A type was registered at a place and not withdrawn since. -/
def InUse (log : Log) (i : Nat) (type : BlobType) : Prop :=
  (everRegistered log)[i]? = some type ∧ i ∉ withdrawn log

/-- A registry holds what its log says. -/
structure Tracks (log : Log) (r : BlobRegistry) : Prop where
  standing : ∀ i, r.standing i = (everRegistered log)[i]?.map fun type => (type, decide (i ∉ withdrawn log))
  size : r.types.size = (everRegistered log).length
  known : ∀ i ∈ withdrawn log, i < (everRegistered log).length
  names : ∀ {i i' type type'}, InUse log i type → InUse log i' type' → type.name = type'.name → i = i'
  discarded : BlobId.discarded.toNat ∉ withdrawn log
  length : (everRegistered log).length = 3 + (granted log).length
  granted : (granted log).reverse = (List.range' 3 (granted log).length).map UInt32.ofNat

variable {log later : Log}

theorem Tracks.standing_iff (h : Tracks log r) : r.standing i = some (type, true) ↔ InUse log i type := by
  rw [h.standing]
  unfold InUse
  cases (everRegistered log)[i]? <;> simp

theorem tracks_initial : Tracks [] initial where
  standing := by
    rintro (_ | _ | _ | i)
    all_goals rfl
  size := rfl
  known := nofun
  names := by
    rintro (_ | _ | _ | i) (_ | _ | _ | i') type type' ⟨hi, -⟩ ⟨hi', -⟩ hname
    all_goals cases hi
    all_goals cases hi'
    all_goals revert hname
    all_goals decide
  discarded := nofun
  length := rfl
  granted := rfl

/-- A type that is registered is put behind all others, and its name was not in use. -/
theorem Tracks.register (h : Tracks log r) (hr : r.register type = .ok (id, r')) :
    Tracks ((.register type, .granted id) :: log) r' := by
  obtain ⟨hfree, hid, hr'⟩ := register_eq_ok_iff.1 hr
  have hstanding := standing_register hr
  rw [h.size] at hid hstanding
  have hnew : ∀ {i type'}, InUse ((.register type, .granted id) :: log) i type' →
      i = (everRegistered log).length ∧ type' = type ∨ InUse log i type' ∧ type'.name ≠ type.name := by
    rintro i type' ⟨hi, hin⟩
    rw [everRegistered, List.getElem?_append] at hi
    split at hi
    · exact .inr ⟨⟨hi, hin⟩, find?_eq_none_iff.1 hfree i type' (h.standing_iff.2 ⟨hi, hin⟩)⟩
    · rename_i hge
      obtain ⟨hlt, htype⟩ := List.getElem?_eq_some_iff.1 hi
      rw [List.length_singleton] at hlt
      refine .inl ⟨?_, ?_⟩
      · exact Nat.le_antisymm (Nat.le_of_sub_eq_zero (Nat.lt_one_iff.1 hlt)) (Nat.le_of_not_lt hge)
      · rw [← htype, List.getElem_singleton]
  refine ⟨fun i => ?_, ?_, fun i hi => ?_, fun {i i' type₁ type₁'} hi hi' hname => ?_, h.discarded, ?_, ?_⟩
  · rw [hstanding, h.standing, everRegistered, List.getElem?_append]
    split
    · rename_i heq
      rw [heq, if_neg (Nat.lt_irrefl _), Nat.sub_self]
      have hfresh : (everRegistered log).length ∉ withdrawn log := fun hw => Nat.lt_irrefl _ (h.known _ hw)
      simp [withdrawn, hfresh]
    · rename_i hne
      split
      · rfl
      · rename_i hge
        have hlt := Nat.lt_of_le_of_ne (Nat.le_of_not_lt hge) (Ne.symm hne)
        rw [List.getElem?_eq_none (Nat.le_of_lt hlt), List.getElem?_eq_none (Nat.sub_pos_of_lt hlt)]
        rfl
  · rw [hr', everRegistered, List.length_append, Array.size_push, h.size, List.length_singleton]
  · rw [everRegistered, List.length_append]
    exact Nat.lt_add_right _ (h.known i hi)
  · rcases hnew hi with ⟨rfl, rfl⟩ | ⟨hold, hne⟩
    · rcases hnew hi' with ⟨rfl, -⟩ | ⟨-, hne'⟩
      · rfl
      · exact absurd hname.symm hne'
    · rcases hnew hi' with ⟨-, rfl⟩ | ⟨hold', -⟩
      · exact absurd hname hne
      · exact h.names hold hold' hname
  · rw [everRegistered, BlobRegistry.granted, List.length_append, List.length_singleton, List.length_cons, h.length]
    rfl
  · rw [BlobRegistry.granted, List.reverse_cons, List.length_cons, h.granted, List.range'_concat, List.map_append,
      hid, h.length, Nat.one_mul]
    rfl

/-- A type that is withdrawn stays on the list. -/
theorem Tracks.unregister (h : Tracks log r) (hr : r.unregister id = .ok r') :
    Tracks ((.unregister id, .withdrawn) :: log) r' := by
  obtain ⟨hdiscarded, hreg, hr'⟩ := unregister_eq_ok_iff.1 hr
  have hold : ∀ {i type'}, InUse ((.unregister id, .withdrawn) :: log) i type' → InUse log i type' :=
    fun hi => ⟨hi.1, fun hw => hi.2 (.tail _ hw)⟩
  refine ⟨fun i => ?_, ?_, fun i hi => ?_, fun hi hi' => h.names (hold hi) (hold hi'), fun hw => ?_, h.length,
    h.granted⟩
  · rw [standing_unregister hr, h.standing, everRegistered, withdrawn]
    · split
      · rename_i heq
        simp [heq, Option.map_map, Function.comp_def]
      · rename_i hne
        simp [hne]
    all_goals simp
  · rw [hr', Array.size_modify]
    exact h.size
  · rcases List.mem_cons.1 hi with rfl | hi
    · obtain ⟨type, hi⟩ := isRegistered_iff.1 hreg
      exact h.size ▸ lt_of_standing hi
    · exact h.known i hi
  · rcases List.mem_cons.1 hw with heq | hw
    · exact hdiscarded (UInt32.toNat_inj.1 heq).symm
    · exact h.discarded hw

theorem Tracks.of_log {log' : Log} (h : Tracks log r) (hever : everRegistered log' = everRegistered log)
    (hgranted : BlobRegistry.granted log' = BlobRegistry.granted log) (hwithdrawn : withdrawn log' = withdrawn log) :
    Tracks log' r := by
  have hin {i : Nat} {type' : BlobType} : InUse log' i type' ↔ InUse log i type' := by
    unfold InUse
    rw [hever, hwithdrawn]
  refine ⟨?_, ?_, ?_, fun hi hi' => h.names (hin.1 hi) (hin.1 hi'), ?_, ?_, ?_⟩
  · rw [hever, hwithdrawn]
    exact h.standing
  · rw [hever]
    exact h.size
  · rw [hever, hwithdrawn]
    exact h.known
  · rw [hwithdrawn]
    exact h.discarded
  · rw [hever, hgranted]
    exact h.length
  · rw [hgranted]
    exact h.granted

/-- A call is logged as it is answered; of one that changes nothing the log shows nothing that counts. -/
theorem Tracks.performed {c : Call} {a : Answer} (h : Tracks log r) (hc : Performed r c a r') :
    Tracks ((c, a) :: log) r' := by
  cases hc with
  | granted hr => exact h.register hr
  | withdrawn hr => exact h.unregister hr
  | registerRefused _ => exact h.of_log rfl rfl rfl
  | unregisterRefused _ => exact h.of_log rfl rfl rfl
  | found name => exact h.of_log rfl rfl rfl
  | described id => exact h.of_log rfl rfl rfl

theorem Tracks.asked {a : Atom} {answer : Bool} (h : Tracks log r) (ha : r.askRelease id a = some (answer, r')) :
    Tracks log r' := by
  obtain ⟨hstanding, hsize⟩ := askRelease_keeps ha
  refine ⟨fun i => ?_, hsize.trans h.size, h.known, h.names, h.discarded, h.length, h.granted⟩
  rw [hstanding]
  exact h.standing i

theorem History.tracks (h : History initial log r) : Tracks log r := by
  induction h with
  | start => exact tracks_initial
  | call c _ ih => exact ih.performed (BlobRegistry.performed _ c)
  | asked _ ha ih => exact ih.asked ha

/-- Nothing is taken off the list. -/
theorem prefix_everRegistered (later log : Log) : everRegistered log <+: everRegistered (later ++ log) := by
  induction later with
  | nil => exact List.prefix_refl _
  | cons x later ih =>
    obtain ⟨c, a⟩ := x
    cases c with
    | register type =>
      cases a with
      | granted id => exact ih.trans (List.prefix_append _ _)
      | withdrawn => exact ih
      | refused e => exact ih
      | found id? => exact ih
      | described type? => exact ih
    | unregister id => cases a <;> exact ih
    | find name => cases a <;> exact ih
    | get id => cases a <;> exact ih

theorem getElem?_everRegistered (h : (everRegistered log)[i]? = some type) (later : Log) :
    (everRegistered (later ++ log))[i]? = some type := by
  obtain ⟨hlt, rfl⟩ := List.getElem?_eq_some_iff.1 h
  exact List.prefix_iff_getElem?.1 (prefix_everRegistered later log) i hlt

/-! ## Answers -/

/-- What a registry answers, by its log. What it says of numbers holds while each type has its own. -/
structure Recorded (log : Log) (r : BlobRegistry) : Prop where
  /-- Numbers are given out one after the other, from that behind the built-in types. -/
  granted : r.Few → (granted log).reverse.map UInt32.toNat = List.range' 3 (granted log).length
  /-- A type gets the number of types ever registered, which no other got. -/
  register : ∀ {type id r'}, r.register type = .ok (id, r') → r'.Few →
    id.toNat = (everRegistered log).length ∧ id ∉ BlobRegistry.granted log
  /-- A type is refused just if another in use has its name. -/
  registerRefused : ∀ {type e}, r.register type = .error e ↔
    e = .blobExists type.name ∧ ∃ i type', InUse log i type' ∧ type'.name = type.name
  unregisterRefused : ∀ {id e}, r.unregister id = .error e ↔
    e = .unknownBlob ∧ ((everRegistered log).length ≤ id.toNat ∨ id.toNat ∈ withdrawn log ∨ id = BlobId.discarded)
  /-- Types in use have different names. -/
  names : ∀ {i i' type type'}, InUse log i type → InUse log i' type' → type.name = type'.name → i = i'
  find : r.Few → ∀ {name id}, r.find? name = some id ↔ ∃ type, InUse log id type ∧ type.name = name
  /-- Each number keeps its type, whether that is still in use or not. -/
  get : ∀ id, r.get? id = (everRegistered log)[id.toNat]?
  registered : r.Few → ∀ {id name}, (id, name) ∈ r.registered ↔ ∃ type, InUse log id type ∧ type.name = name
  ascending : r.Few → (r.registered.map Prod.fst).Pairwise (· < ·)
  discarded : (BlobId.discarded, "<discarded>") ∈ r.registered

theorem Tracks.find?_iff (h : Tracks log r) (hfew : r.Few) :
    r.find? name = some id ↔ ∃ type, InUse log id type ∧ type.name = name := by
  constructor
  · intro hfind
    obtain ⟨i, type, hi, hname, rfl⟩ := of_find?_eq_some hfind
    exact ⟨type, (hfew.toNat_ofNat hi).symm ▸ h.standing_iff.1 hi, hname⟩
  · rintro ⟨type, hid, hname⟩
    cases hfind : r.find? name with
    | none => exact absurd hname (find?_eq_none_iff.1 hfind id type (h.standing_iff.2 hid))
    | some id' =>
      -- The search may have come upon any type of the name, but there is no other.
      obtain ⟨i, type', hi, hname', rfl⟩ := of_find?_eq_some hfind
      rw [h.names (h.standing_iff.1 hi) hid (hname'.trans hname.symm), UInt32.ofNat_toNat]

theorem Tracks.mem_registered_iff (h : Tracks log r) (hfew : r.Few) :
    (id, name) ∈ r.registered ↔ ∃ type, InUse log id type ∧ type.name = name := by
  rw [BlobRegistry.mem_registered_iff]
  constructor
  · rintro ⟨i, type, hi, hname, rfl⟩
    exact ⟨type, (hfew.toNat_ofNat hi).symm ▸ h.standing_iff.1 hi, hname⟩
  · rintro ⟨type, hid, hname⟩
    exact ⟨id.toNat, type, h.standing_iff.2 hid, hname, UInt32.ofNat_toNat.symm⟩

theorem Tracks.discarded_inUse (h : Tracks log r) :
    ∃ type, InUse log BlobId.discarded type ∧ type.name = "<discarded>" := by
  have hfirst : (everRegistered [])[BlobId.discarded.toNat]? =
      some { name := "<discarded>", flags := {}, release := some fun _ _ => true } := rfl
  have hlast := getElem?_everRegistered hfirst log
  rw [List.append_nil] at hlast
  exact ⟨_, ⟨hlast, h.discarded⟩, rfl⟩

theorem Tracks.isRegistered_eq_false_iff (h : Tracks log r) :
    r.isRegistered id = false ↔ (everRegistered log).length ≤ id.toNat ∨ id.toNat ∈ withdrawn log := by
  rw [← Bool.not_eq_true, isRegistered_iff]
  simp only [h.standing_iff, InUse]
  rw [← List.getElem?_eq_none_iff]
  cases (everRegistered log)[id.toNat]? <;> simp

theorem Tracks.get?_eq (h : Tracks log r) (id : BlobId) : r.get? id = (everRegistered log)[id.toNat]? := by
  rw [BlobRegistry.get?_eq, h.standing]
  cases (everRegistered log)[id.toNat]? <;> rfl

/-- While types are few, the numbers given out are the places behind the built-in types. -/
theorem Tracks.granted_places (h : Tracks log r) (hfew : r.Few) :
    (BlobRegistry.granted log).reverse.map UInt32.toNat = List.range' 3 (BlobRegistry.granted log).length := by
  have hplace : ∀ i ∈ List.range' 3 (BlobRegistry.granted log).length, (UInt32.ofNat i).toNat = i := by
    intro i hi
    rw [List.mem_range'_1, ← h.length, ← h.size] at hi
    exact UInt32.toNat_ofNat_of_lt' (Nat.lt_of_lt_of_le hi.2 hfew)
  rw [h.granted, List.map_map]
  exact (List.map_congr_left hplace).trans (List.map_id' _)

theorem Tracks.recorded (h : Tracks log r) : Recorded log r where
  granted := h.granted_places
  register {type id r'} hr hfew := by
    have hid : id.toNat = (everRegistered log).length := (hfew.toNat_register hr).trans h.size
    refine ⟨hid, fun hmem => ?_⟩
    have hbefore := h.granted_places (Nat.le_of_lt (hfew.of_register hr))
    have hplace : id.toNat ∈ (BlobRegistry.granted log).reverse.map UInt32.toNat :=
      List.mem_map_of_mem (List.mem_reverse.2 hmem)
    rw [hbefore, List.mem_range'_1, hid, h.length] at hplace
    exact Nat.lt_irrefl _ hplace.2
  registerRefused {type e} := by
    rw [register_eq_error_iff]
    simp only [h.standing_iff]
  unregisterRefused {id e} := by
    rw [unregister_eq_error_iff, h.isRegistered_eq_false_iff, or_comm, or_assoc]
  names := h.names
  find hfew := h.find?_iff hfew
  get := h.get?_eq
  registered hfew := h.mem_registered_iff hfew
  ascending := Few.registered_ascending
  discarded := by
    obtain ⟨type, hin, hname⟩ := h.discarded_inUse
    exact BlobRegistry.mem_registered_iff.2 ⟨_, type, h.standing_iff.2 hin, hname, UInt32.ofNat_toNat.symm⟩

/-- A registry is the history of the calls made on it: it answers as their log says, whatever the calls and in
whatever order, and what it says of a number it says for good. -/
theorem history_recorded (h : History initial log r) :
    Recorded log r ∧
    (∀ later r', History r later r' → Recorded (later ++ log) r' ∧
      ∀ id type, r.get? id = some type → r'.get? id = some type) ∧
    ∀ c e, (r.perform c).1 = .refused e → (r.perform c).2 = r := by
  refine ⟨h.tracks.recorded, fun later r' hlater => ?_, fun c e hrefused => ?_⟩
  · have htracks := (h.trans hlater).tracks
    refine ⟨htracks.recorded, fun id type hid => ?_⟩
    rw [h.tracks.get?_eq] at hid
    rw [htracks.get?_eq]
    exact getElem?_everRegistered hid later
  · have hc := r.performed c
    rw [hrefused] at hc
    generalize (r.perform c).2 = r' at hc ⊢
    cases hc with
    | registerRefused _ => rfl
    | unregisterRefused _ => rfl

/-- Text is withdrawn, and another type takes its name under a number of its own. -/
theorem recorded_text_renewed : ∃ log r, History initial log r ∧ Recorded log r ∧ r.Few ∧ granted log = [4, 3] ∧
    withdrawn log = [0, 3] ∧ (r.perform (.find "text")).1 = .found (some 4) := by
  have clause := History.call (.unregister 3) <| .call (.register { name := "clause", flags := {} }) <|
    @History.start initial
  have h := clause.call (.unregister 0) |>.call (.register { name := "text", flags := {} })
  exact ⟨_, _, h, (history_recorded h).1, by cbv, by cbv, by cbv, by cbv⟩

end AtomHeap.BlobRegistry
