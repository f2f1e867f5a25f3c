import AtomHeap.Text.Utf8
/-!
# Text reads back

The bytes of a string read back as the string, so different strings have different bytes.
-/

namespace AtomHeap.Text

/-- Bytes that start with those of a character start with the character. -/
theorem firstChar?_utf8EncodeChar (c : Char) (rest : List UInt8) :
    firstChar? (String.utf8EncodeChar c ++ rest) = some c := by
  have htake : (String.utf8EncodeChar c ++ rest).take 4 =
      String.utf8EncodeChar c ++ rest.take (4 - c.utf8Size) := by
    rw [List.take_append, String.length_utf8EncodeChar, List.take_of_length_le]
    rw [String.length_utf8EncodeChar]
    exact c.utf8Size_le_four
  have hbytes : (⟨(String.utf8EncodeChar c ++ rest.take (4 - c.utf8Size)).toArray⟩ : ByteArray) =
      (String.utf8EncodeChar c).toByteArray ++ (rest.take (4 - c.utf8Size)).toByteArray := by
    apply ByteArray.ext
    simp [List.data_toByteArray]
  unfold firstChar?
  rw [htake, hbytes]
  exact ByteArray.utf8DecodeChar?_utf8EncodeChar_append

theorem readUtf8_utf8EncodeChar (before : Array Char) (c : Char) (rest : List UInt8) :
    readUtf8 before (String.utf8EncodeChar c ++ rest) = readUtf8 (before.push c) rest := by
  have hfirst := firstChar?_utf8EncodeChar c rest
  have hlength := String.length_utf8EncodeChar c
  cases hc : String.utf8EncodeChar c with
  | nil =>
    rw [hc] at hlength
    exact absurd hlength (Nat.ne_of_lt c.utf8Size_pos)
  | cons b bytes =>
    rw [hc] at hfirst hlength
    have hdrop : (bytes ++ rest).drop (c.utf8Size - 1) = rest := List.drop_left' (by simp [← hlength])
    rw [List.cons_append] at hfirst ⊢
    rw [readUtf8]
    simp only [hfirst, hdrop]

theorem toList_readUtf8 (before : Array Char) (chars : List Char) :
    (readUtf8 before (chars.flatMap String.utf8EncodeChar)).toList = before.toList ++ chars := by
  induction chars generalizing before with
  | nil => rw [List.flatMap_nil, readUtf8, List.append_nil]
  | cons c chars ih =>
    rw [List.flatMap_cons, readUtf8_utf8EncodeChar, ih, Array.toList_push, List.append_assoc]
    rfl

theorem ofUtf8_utf8Bytes (s : String) : ofUtf8 (utf8Bytes s) = s := by
  unfold ofUtf8 utf8Bytes
  rw [toList_readUtf8]
  exact String.ofList_toList

theorem utf8Bytes_injective : Function.Injective utf8Bytes :=
  fun s s' h => by rw [← ofUtf8_utf8Bytes s, h, ofUtf8_utf8Bytes]

end AtomHeap.Text
