import ShellFold.Terminal
import Mathlib.Data.List.Infix

/-!
# Texts as bytes

What the encoding of texts keeps of their structure. Only the first byte of a character looks like
one, so that the bytes of a text fall apart in front of such a byte as the text does
(`exists_of_bytes_eq_append`), and a text occurs in another wherever its bytes do
(`bytes_isPrefix`, `bytes_isInfix`).
-/

set_option autoImplicit false

namespace ShellFold.Text

/-! ## Encoding and decoding -/

theorem byteArray_get! (bytes : ByteArray) (i : Nat) (h : i < bytes.data.toList.length) :
    bytes.get! i = bytes.data.toList[i] := by
  rw [Array.length_toList] at h
  rw [ByteArray.get!, Array.getElem_toList, getElem!_pos bytes.data i h]

theorem byteArray_toList_loop (bytes : ByteArray) (i : Nat) (read : List UInt8) :
    ByteArray.toList.loop bytes i read = read.reverse ++ bytes.data.toList.drop i := by
  induction hn : bytes.size - i generalizing i read with
  | zero =>
    rw [ByteArray.toList.loop.eq_def, if_neg (by omega),
      List.drop_eq_nil_of_le (by rw [Array.length_toList, ByteArray.size_data]; omega),
      List.append_nil]
  | succ n ih =>
    have hi : i < bytes.data.toList.length := by
      rw [Array.length_toList, ByteArray.size_data]
      omega
    rw [ByteArray.toList.loop.eq_def, if_pos (by omega), ih (i + 1) _ (by omega),
      List.drop_eq_getElem_cons hi, List.reverse_cons, List.append_assoc, List.singleton_append,
      byteArray_get! bytes i hi]

theorem bytes_eq (s : Text) : s.bytes = s.flatMap String.utf8EncodeChar := by
  rw [bytes, ByteArray.toList, byteArray_toList_loop, List.reverse_nil, List.nil_append,
    List.drop_zero]
  exact List.toList_data_toByteArray

@[simp] theorem bytes_nil : bytes [] = [] := by rw [bytes_eq, List.flatMap_nil]

theorem bytes_cons (c : Char) (s : Text) : bytes (c :: s) = String.utf8EncodeChar c ++ s.bytes := by
  rw [bytes_eq, bytes_eq, List.flatMap_cons]

@[simp] theorem bytes_append (s t : Text) : bytes (s ++ t) = s.bytes ++ t.bytes := by
  rw [bytes_eq, bytes_eq, bytes_eq, List.flatMap_append]

@[simp] theorem bytes_eq_nil {s : Text} : s.bytes = [] ↔ s = [] := by
  cases s with
  | nil => simp
  | cons c s => simp [bytes_cons, String.utf8EncodeChar_ne_nil]

theorem toByteArray_eq (bytes : List UInt8) :
    (⟨bytes.toArray⟩ : ByteArray) = bytes.toByteArray := by
  apply ByteArray.ext
  apply Array.toList_inj.1
  rw [List.toList_data_toByteArray]

theorem toByteArray_bytes (s : Text) : s.bytes.toByteArray = s.utf8Encode := by
  rw [bytes_eq, List.utf8Encode]

/-- The bytes of a text are read as the text. -/
@[simp] theorem ofBytes?_bytes (s : Text) : ofBytes? s.bytes = some s := by
  have harray : (⟨s.bytes.toArray⟩ : ByteArray) = (String.ofList s).toByteArray := by
    rw [toByteArray_eq, toByteArray_bytes, String.toByteArray_ofList]
  rw [ofBytes?, harray, String.fromUTF8?, dif_pos (String.ofList s).isValidUTF8, Option.map_some,
    String.fromUTF8, String.toList_ofList]

/-! ## Where the bytes of a text can be cut -/

theorem isFirstByte_of_head? {s : Text} {b : UInt8} (h : b ∈ s.bytes.head?) :
    b.IsUTF8FirstByte := by
  cases s with
  | nil => simp at h
  | cons c s =>
    have hpos : 0 < (String.utf8EncodeChar c).length :=
      List.length_pos_of_ne_nil String.utf8EncodeChar_ne_nil
    rw [bytes_cons, List.head?_append_of_ne_nil _ String.utf8EncodeChar_ne_nil,
      List.head?_eq_getElem?, List.getElem?_eq_getElem hpos, Option.mem_some_iff] at h
    rw [← h]
    exact UInt8.isUTF8FirstByte_getElem_utf8EncodeChar.2 rfl

/-- Where the bytes of a text are cut in front of the first byte of a character, or at the end,
both parts are the bytes of texts. -/
theorem exists_of_bytes_eq_append {t : Text} {x y : List UInt8} (h : t.bytes = x ++ y)
    (hy : ∀ b ∈ y.head?, b.IsUTF8FirstByte) :
    ∃ u v : Text, t = u ++ v ∧ u.bytes = x ∧ v.bytes = y := by
  induction t generalizing x with
  | nil =>
    rw [bytes_nil, eq_comm, List.append_eq_nil_iff] at h
    exact ⟨[], [], rfl, by rw [h.1, bytes_nil], by rw [h.2, bytes_nil]⟩
  | cons c t ih =>
    rw [bytes_cons, List.append_eq_append_iff] at h
    rcases h with ⟨x', rfl, ht⟩ | ⟨rest, hc, rfl⟩
    · obtain ⟨u, v, rfl, rfl, hv⟩ := ih ht
      exact ⟨c :: u, v, rfl, bytes_cons c u, hv⟩
    · cases rest with
      | nil =>
        rw [List.append_nil] at hc
        exact ⟨[c], t, rfl, by rw [bytes_cons, hc, bytes_nil, List.append_nil], rfl⟩
      | cons b rest =>
        -- `b` is a first byte within the encoding of `c`, so it is the one in front
        have hb : b.IsUTF8FirstByte := hy b rfl
        have hlt : x.length < (String.utf8EncodeChar c).length := by simp [hc]
        have hat : (String.utf8EncodeChar c)[x.length] = b := by simp [hc]
        rw [← hat, UInt8.isUTF8FirstByte_getElem_utf8EncodeChar] at hb
        rw [List.length_eq_zero_iff.1 hb, List.nil_append] at hc
        exact ⟨[], c :: t, rfl, by rw [bytes_nil, List.length_eq_zero_iff.1 hb],
          by rw [bytes_cons, hc]⟩

/-! ## Occurrences -/

variable {s t : Text}

theorem bytes_isPrefix : s.bytes <+: t.bytes ↔ s <+: t := by
  constructor
  · rintro ⟨rest, h⟩
    apply List.isPrefix_of_utf8Encode_append_eq_utf8Encode rest.toByteArray
    rw [← toByteArray_bytes, ← List.toByteArray_append, h, toByteArray_bytes]
  · rintro ⟨rest, rfl⟩
    rw [bytes_append]
    exact List.prefix_append _ _

/-- A text occurs in another where its bytes do. -/
theorem bytes_isInfix : s.bytes <:+: t.bytes ↔ s <:+: t := by
  constructor
  · rintro ⟨before, after, h⟩
    rcases eq_or_ne s [] with rfl | hs
    · exact List.nil_infix
    · rw [List.append_assoc] at h
      obtain ⟨u, v, rfl, -, hv⟩ := exists_of_bytes_eq_append h.symm fun b hb => by
        rw [List.head?_append_of_ne_nil _ (mt bytes_eq_nil.1 hs)] at hb
        exact isFirstByte_of_head? hb
      have hprefix : s <+: v := bytes_isPrefix.1 (hv ▸ List.prefix_append _ _)
      exact hprefix.isInfix.trans (List.suffix_append u v).isInfix
  · rintro ⟨before, after, rfl⟩
    rw [bytes_append, bytes_append]
    exact List.infix_append _ _ _

theorem bytes_nul : bytes ['\x00'] = [0] := by
  rw [bytes_cons, bytes_nil]
  rfl

/-- Only a NUL is written with a byte that is zero. -/
theorem zero_mem_bytes {s : Text} : 0 ∈ s.bytes ↔ '\x00' ∈ s := by
  rw [← List.singleton_infix_iff, ← List.singleton_infix_iff, ← bytes_nul, bytes_isInfix]

end ShellFold.Text
