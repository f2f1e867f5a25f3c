import AtomHeap.Text.Wide
/-!
# Wide text reads back

Wide bytes are read one group of four after the other, and what is left at the end is no group (`ofWide_reads`). A
group reads as the character whose number it is, and as U+FFFD if there is none (`charOfNat_reads`). The groups of a
string are the numbers of its characters (`groups_wideBytes`), so the string reads back.
-/

namespace AtomHeap.Text

variable {bytes : List UInt8}

/-! ## Groups -/

/-- The little-endian number of four bytes. -/
def groupNumber (a b c d : UInt8) : Nat := a.toNat + 256 * (b.toNat + 256 * (c.toNat + 256 * d.toNat))

/-- The numbers of the complete groups of four bytes. -/
def groups : List UInt8 → List Nat
  | a :: b :: c :: d :: rest => groupNumber a b c d :: groups rest
  | _ => []

theorem exists_group (h : 4 ≤ bytes.length) : ∃ a b c d rest, bytes = a :: b :: c :: d :: rest := by
  rcases bytes with _ | ⟨a, _ | ⟨b, _ | ⟨c, _ | ⟨d, rest⟩⟩⟩⟩
  case cons.cons.cons.cons => exact ⟨a, b, c, d, rest, rfl⟩
  -- The others are too short.
  all_goals
    simp only [List.length_cons, List.length_nil] at h
    omega

theorem length_groups (bytes : List UInt8) : (groups bytes).length = bytes.length / 4 := by
  fun_induction groups bytes with
  | case1 a b c d rest ih =>
    simp only [List.length_cons, ih]
    omega
  | case2 bytes hshort =>
    have hlt : bytes.length < 4 := by
      refine Nat.lt_of_not_le fun hle => ?_
      obtain ⟨a, b, c, d, rest, rfl⟩ := exists_group hle
      exact hshort a b c d rest rfl
    rw [List.length_nil, Nat.div_eq_of_lt hlt]

/-- Group `k` is that of the four bytes from `4 * k` on. -/
theorem getElem?_groups {k : Nat} (h : 4 * k + 3 < bytes.length) :
    (groups bytes)[k]? = some (groupNumber bytes[4 * k] bytes[4 * k + 1] bytes[4 * k + 2] bytes[4 * k + 3]) := by
  induction k generalizing bytes with
  | zero =>
    obtain ⟨a, b, c, d, rest, rfl⟩ := exists_group (by omega : 4 ≤ bytes.length)
    rfl
  | succ k ih =>
    obtain ⟨a, b, c, d, rest, rfl⟩ := exists_group (by omega : 4 ≤ bytes.length)
    have hrest : 4 * k + 3 < rest.length := by
      simp only [List.length_cons] at h
      omega
    exact ih hrest

/-! ## Reading groups -/

/-- A character is what a number is read as. -/
def ReadsAs (n : Nat) (c : Char) : Prop := c.toNat = n ∨ ¬ n.isValidChar ∧ c = '\uFFFD'

/-- A string has one character for each complete group of four bytes, which is what the group is read as. -/
structure ReadsWide (bytes : List UInt8) (s : String) : Prop where
  length : s.toList.length = bytes.length / 4
  char : ∀ k (h : 4 * k + 3 < bytes.length), ∃ c, s.toList[k]? = some c ∧
    ReadsAs (groupNumber bytes[4 * k] bytes[4 * k + 1] bytes[4 * k + 2] bytes[4 * k + 3]) c

theorem charOfNat_reads (n : Nat) : ReadsAs n (charOfNat n) := by
  unfold charOfNat
  by_cases hvalid : n.isValidChar
  · rw [dif_pos hvalid]
    exact .inl rfl
  · rw [dif_neg hvalid]
    exact .inr ⟨hvalid, rfl⟩

theorem charOfNat_toNat (c : Char) : charOfNat c.toNat = c := by
  rcases charOfNat_reads c.toNat with heq | ⟨hnot, -⟩
  · exact Char.toNat_inj.1 heq
  · exact absurd c.valid hnot

theorem toList_readWide (before : Array Char) (bytes : List UInt8) :
    (readWide before bytes).toList = before.toList ++ (groups bytes).map charOfNat := by
  fun_induction readWide before bytes with
  | case1 before a b c d rest number ih =>
    rw [ih, Array.toList_push, List.append_assoc]
    rfl
  | case2 before bytes hshort =>
    rw [groups, List.map_nil, List.append_nil]
    exact hshort

theorem toList_ofWide (bytes : List UInt8) : (ofWide bytes).toList = (groups bytes).map charOfNat := by
  unfold ofWide
  rw [String.toList_ofList, toList_readWide]
  rfl

theorem ofWide_reads (bytes : List UInt8) : ReadsWide bytes (ofWide bytes) where
  length := by rw [toList_ofWide, List.length_map, length_groups]
  char k h := by
    refine ⟨_, ?_, charOfNat_reads _⟩
    rw [toList_ofWide, List.getElem?_map, getElem?_groups h]
    rfl

/-- A surrogate, a character beyond the basic plane, and a byte too many. -/
example : ofWide [0x00, 0xD8, 0x00, 0x00, 0x1E, 0xD1, 0x01, 0x00, 0x61] = "\uFFFD𝄞" := by decide

/-! ## Strings -/

/-- The bytes of a character are one group, that of its number. -/
theorem groups_wideChar (c : Char) (rest : List UInt8) : groups (wideChar c ++ rest) = c.toNat :: groups rest := by
  have hlt : c.toNat < 2 ^ 32 := c.val.toNat_lt
  have hnumber : groupNumber c.val.toUInt8 (c.val >>> 8).toUInt8 (c.val >>> 16).toUInt8 (c.val >>> 24).toUInt8 =
      c.toNat := by
    unfold groupNumber
    simp only [UInt32.toNat_toUInt8, UInt32.toNat_shiftRight, Nat.shiftRight_eq_div_pow, UInt32.reduceToNat,
      Nat.reduceMod, Nat.reducePow, Char.toNat_val]
    omega
  rw [← hnumber]
  rfl

theorem groups_wideBytes (s : String) : groups (wideBytes s) = s.toList.map Char.toNat := by
  unfold wideBytes
  induction s.toList with
  | nil => rfl
  | cons c chars ih => rw [List.flatMap_cons, groups_wideChar, ih, List.map_cons]

theorem ofWide_wideBytes (s : String) : ofWide (wideBytes s) = s := by
  have hread : charOfNat ∘ Char.toNat = id := funext charOfNat_toNat
  refine String.toList_inj.1 ?_
  rw [toList_ofWide, groups_wideBytes, List.map_map, hread, List.map_id]

theorem wideBytes_injective : Function.Injective wideBytes :=
  fun s s' h => by rw [← ofWide_wideBytes s, h, ofWide_wideBytes]

end AtomHeap.Text
