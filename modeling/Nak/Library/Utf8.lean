import Mathlib.Data.List.Basic

/-! Strings as their characters and as their bytes. An ASCII character is one byte, and the
bytes of every other character are no ASCII bytes. -/
namespace Nak.Library

def utf8 (chars : List Char) : List UInt8 := chars.flatMap String.utf8EncodeChar

@[simp] theorem utf8_nil : utf8 [] = [] := rfl

@[simp] theorem utf8_cons (char : Char) (chars : List Char) :
    utf8 (char :: chars) = String.utf8EncodeChar char ++ utf8 chars := rfl

@[simp] theorem utf8_append (first second : List Char) : utf8 (first ++ second) = utf8 first ++ utf8 second :=
  List.flatMap_append

theorem toByteArray_ofList (chars : List Char) : (String.ofList chars).toByteArray.data.toList = utf8 chars := by
  rw [String.toByteArray_ofList,List.utf8Encode,List.data_toByteArray]
  rfl

theorem fromUTF8_toByteArray (text : String) : String.fromUTF8? ⟨text.toByteArray.data.toList.toArray⟩ = some text := by
  rw [Array.toArray_toList,String.fromUTF8?,dif_pos text.isValidUTF8]
  rfl

theorem fromUTF8_utf8 (chars : List Char) : String.fromUTF8? ⟨(utf8 chars).toArray⟩ = some (String.ofList chars) := by
  rw [← toByteArray_ofList,fromUTF8_toByteArray]

def Ascii (char : Char) : Prop := char.val < 128

instance (char : Char) : Decidable (Ascii char) := inferInstanceAs (Decidable (_ < _))

theorem encode_ascii {char : Char} (ascii : Ascii char) : String.utf8EncodeChar char = [char.val.toUInt8] := by
  refine String.utf8EncodeChar_eq_singleton (Char.utf8Size_eq_one_iff.mpr ?_)
  have small := UInt32.lt_iff_toNat_lt.mp ascii
  exact UInt32.le_iff_toNat_le.mpr (Nat.le_of_lt_succ small)

private theorem high_or (byte mark : UInt8) (high : 128 ≤ mark) : 128 ≤ byte ||| mark := by
  rw [UInt8.le_iff_toNat_le] at high ⊢
  rw [UInt8.toNat_or]
  exact Nat.le_trans high Nat.right_le_or

theorem encode_high {char : Char} (wide : ¬Ascii char) : ∀ byte ∈ String.utf8EncodeChar char, 128 ≤ byte := by
  have larger : char.utf8Size ≠ 1 := by
    intro one
    have small := UInt32.le_iff_toNat_le.mp (Char.utf8Size_eq_one_iff.mp one)
    exact wide (UInt32.lt_iff_toNat_lt.mpr (Nat.lt_succ_of_le small))
  have sizes := Char.utf8Size_eq char
  intro byte member
  rcases sizes with one | two | three | four
  · exact absurd one larger
  · rw [String.utf8EncodeChar_eq_cons_cons two] at member
    simp only [List.mem_cons,List.not_mem_nil,or_false] at member
    rcases member with rfl | rfl
    · exact high_or _ _ (by decide)
    · exact high_or _ _ (by decide)
  · rw [String.utf8EncodeChar_eq_cons_cons_cons three] at member
    simp only [List.mem_cons,List.not_mem_nil,or_false] at member
    rcases member with rfl | rfl | rfl
    · exact high_or _ _ (by decide)
    · exact high_or _ _ (by decide)
    · exact high_or _ _ (by decide)
  · rw [String.utf8EncodeChar_eq_cons_cons_cons_cons four] at member
    simp only [List.mem_cons,List.not_mem_nil,or_false] at member
    rcases member with rfl | rfl | rfl | rfl
    · exact high_or _ _ (by decide)
    · exact high_or _ _ (by decide)
    · exact high_or _ _ (by decide)
    · exact high_or _ _ (by decide)

theorem encode_ne_nil (char : Char) : String.utf8EncodeChar char ≠ [] := by
  intro none
  have size := congrArg List.length none
  rw [String.length_utf8EncodeChar] at size
  exact absurd size (Nat.ne_of_gt (Char.utf8Size_pos char))

theorem mem_encode {mark char : Char} (ascii : Ascii mark) :
    mark.val.toUInt8 ∈ String.utf8EncodeChar char ↔ char = mark := by
  have low (one : Char) (small : Ascii one) : one.val.toUInt8.toNat = one.val.toNat := by
    rw [UInt32.toNat_toUInt8]
    exact Nat.mod_eq_of_lt (Nat.lt_trans (UInt32.lt_iff_toNat_lt.mp small) (by decide))
  constructor
  · intro member
    by_cases small : Ascii char
    · rw [encode_ascii small,List.mem_singleton] at member
      have same := congrArg UInt8.toNat member
      rw [low mark ascii,low char small] at same
      exact Char.ext (UInt32.toNat_inj.mp same.symm)
    · have high := UInt8.le_iff_toNat_le.mp (encode_high small _ member)
      rw [low mark ascii] at high
      exact absurd (UInt32.lt_iff_toNat_lt.mp ascii) (Nat.not_lt_of_le high)
  · intro same
    subst same
    rw [encode_ascii ascii]
    exact List.mem_singleton.mpr rfl

theorem mem_utf8 {mark : Char} (ascii : Ascii mark) (chars : List Char) :
    mark.val.toUInt8 ∈ utf8 chars ↔ mark ∈ chars := by
  induction chars with
  | nil => simp
  | cons char chars ih => rw [utf8_cons,List.mem_append,mem_encode ascii,ih,List.mem_cons,eq_comm]

theorem valid_between (before after : List Char) :
    (⟨(utf8 before).length⟩ : String.Pos.Raw).IsValid (String.ofList (before ++ after)) := by
  rw [String.Pos.Raw.isValid_iff_exists_append]
  refine ⟨String.ofList before,String.ofList after,String.ofList_append,?_⟩
  ext
  rw [String.byteIdx_rawEndPos,← String.size_toByteArray,← toByteArray_ofList]
  rfl

theorem extract_between (before middle after : List Char) {text : String}
    (shape : text = String.ofList (before ++ (middle ++ after))) (first last : text.Pos)
    (begins : first.offset.byteIdx = (utf8 before).length)
    (ends : last.offset.byteIdx = (utf8 before).length + (utf8 middle).length) :
    text.extract first last = String.ofList middle := by
  have size (chars : List Char) : chars.utf8Encode.size = (utf8 chars).length := by
    rw [← toByteArray_ofList,String.toByteArray_ofList]
    rfl
  apply String.toByteArray_inj.mp
  rw [String.toByteArray_extract,begins,ends]
  subst shape
  simp only [String.toByteArray_ofList,List.utf8Encode_append]
  rw [← size before,← size middle]
  refine (@ByteArray.extract_append_size_add _ _ 0 middle.utf8Encode.size).trans ?_
  exact ByteArray.extract_append_eq_left rfl

end Nak.Library
