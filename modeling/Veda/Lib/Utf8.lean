import Mathlib.Data.List.Basic
import Mathlib.Data.String.Basic

set_option autoImplicit false

/-!
# Text as bytes

Strings are stored as lists of bytes in UTF-8. A list of bytes that is not well formed is read by
replacing each ill-formed part with U+FFFD. A part is as long as it could begin a well-formed
character, but at least one byte.

## Main definitions

* `Lib.utf8`, `Lib.fromUtf8` — the bytes of a string and the strict way back.
* `Lib.fromUtf8Lossy` — the way back that replaces ill-formed parts.
* `Lib.textOf` — strict reading where it is possible, lossy reading elsewhere.

## Main results

* `Lib.textOf_utf8` — reading gives back what was written.
* `Lib.length_utf8_textOf_take` — reading the start of a written string adds at most nine
  bytes to it.
-/

namespace Veda.Lib

/-- The bytes of a string. -/
def utf8 (s : String) : List UInt8 := s.toByteArray.data.toList

/-- The string with the given bytes, if they are well formed. -/
def fromUtf8 (bytes : List UInt8) : Option String := String.fromUTF8? bytes.toByteArray

/-- The second byte continues the first one in a character of three or four bytes. -/
def secondFits (first second : UInt8) : Bool :=
  if first = 0xE0 then 0xA0 ≤ second && second ≤ 0xBF
  else if first = 0xED then 0x80 ≤ second && second ≤ 0x9F
  else if first = 0xF0 then 0x90 ≤ second && second ≤ 0xBF
  else if first = 0xF4 then 0x80 ≤ second && second ≤ 0x8F
  else 0xE1 ≤ first && first ≤ 0xF3 && 0x80 ≤ second && second ≤ 0xBF

/-- The length of the ill-formed part with which the bytes start, when they do not start with a
well-formed character. -/
def illFormedLength : List UInt8 → ℕ
  | first :: second :: third :: _ =>
    if secondFits first second then
      if 0xF0 ≤ first && 0x80 ≤ third && third ≤ 0xBF then 3 else 2
    else 1
  | [first, second] => if secondFits first second then 2 else 1
  | _ => 1

theorem illFormedLength_pos (bytes : List UInt8) : 0 < illFormedLength bytes := by
  unfold illFormedLength
  split
  · split_ifs <;> omega
  · split_ifs <;> omega
  · omega

/-- The characters of the bytes, with U+FFFD in the place of each ill-formed part. -/
def lossyChars : List UInt8 → List Char
  | [] => []
  | b :: bytes =>
    match (b :: bytes).toByteArray.utf8DecodeChar? 0 with
    | some c => c :: lossyChars ((b :: bytes).drop c.utf8Size)
    | none => '\uFFFD' :: lossyChars ((b :: bytes).drop (illFormedLength (b :: bytes)))
termination_by bytes => bytes.length
decreasing_by
  · have := c.utf8Size_pos
    simp only [List.length_drop, List.length_cons]
    omega
  · have := illFormedLength_pos (b :: bytes)
    simp only [List.length_drop, List.length_cons]
    omega

/-- The string of the bytes, with U+FFFD in the place of each ill-formed part
(`String::from_utf8_lossy`). -/
def fromUtf8Lossy (bytes : List UInt8) : String := String.ofList (lossyChars bytes)

/-- The string of the bytes, read strictly where they are well formed. -/
def textOf (bytes : List UInt8) : String := (fromUtf8 bytes).getD (fromUtf8Lossy bytes)

theorem toByteArray_utf8 (s : String) : (utf8 s).toByteArray = s.toByteArray := by
  apply ByteArray.ext
  rw [List.data_toByteArray, utf8, Array.toArray_toList]

theorem utf8_injective : Function.Injective utf8 := by
  intro s t h
  rw [← String.toByteArray_inj, ← toByteArray_utf8, ← toByteArray_utf8, h]

@[simp] theorem fromUtf8_utf8 (s : String) : fromUtf8 (utf8 s) = some s := by
  unfold fromUtf8 String.fromUTF8?
  rw [dif_pos (by rw [toByteArray_utf8]; exact s.isValidUTF8)]
  exact congrArg some (String.toByteArray_inj.mp (toByteArray_utf8 s))

@[simp] theorem textOf_utf8 (s : String) : textOf (utf8 s) = s := by
  rw [textOf, fromUtf8_utf8, Option.getD_some]

theorem utf8_ofList (cs : List Char) :
    utf8 (String.ofList cs) = cs.flatMap String.utf8EncodeChar := by
  rw [utf8, String.toByteArray_ofList, List.utf8Encode, List.data_toByteArray]

@[simp] theorem utf8_empty : utf8 "" = [] := rfl

theorem utf8_eq_nil {s : String} : utf8 s = [] ↔ s = "" := by
  constructor
  · intro h
    exact utf8_injective (h.trans utf8_empty.symm)
  · rintro rfl
    exact utf8_empty

/-! ## Which bytes a string has -/

theorem utf8_append (s t : String) : utf8 (s ++ t) = utf8 s ++ utf8 t := by
  rw [utf8, String.toByteArray_append, ByteArray.toList_data_append]
  rfl

theorem utf8_eq_flatMap (s : String) : utf8 s = s.toList.flatMap String.utf8EncodeChar := by
  rw [← utf8_ofList, String.ofList_toList]

theorem length_le_length_utf8 (s : String) : s.length ≤ (utf8 s).length := by
  rw [utf8_eq_flatMap, ← String.length_toList]
  induction s.toList with
  | nil => exact Nat.le_refl _
  | cons c cs ih =>
    have hpos : 0 < (String.utf8EncodeChar c).length := by
      rw [String.length_utf8EncodeChar]
      exact c.utf8Size_pos
    rw [List.flatMap_cons, List.length_append, List.length_cons]
    omega

theorem eq_or_le_of_mem_utf8EncodeChar {c : Char} {b : UInt8} (h : b ∈ String.utf8EncodeChar c) :
    b.toNat = c.toNat ∨ 128 ≤ b.toNat ∧ 128 ≤ c.toNat := by
  have hval : c.val.toNat = c.toNat := rfl
  unfold String.utf8EncodeChar at h
  simp only [hval] at h
  split_ifs at h with hone
  · rw [List.mem_singleton.mp h, UInt8.toNat_ofNat']
    exact .inl (Nat.mod_eq_of_lt (by omega))
  all_goals
    refine .inr ⟨?_, by omega⟩
    simp only [List.mem_cons, List.not_mem_nil, or_false] at h
    rcases h with rfl | rfl | rfl | rfl <;> rw [UInt8.toNat_ofNat'] <;> omega

theorem mem_of_toUInt8_mem_utf8 {c : Char} {s : String} (hc : c.toNat < 128)
    (h : c.toUInt8 ∈ utf8 s) : c ∈ s.toList := by
  have hbyte : c.toUInt8.toNat = c.toNat := by
    rw [Char.toUInt8, UInt32.toNat_toUInt8]
    exact Nat.mod_eq_of_lt (Nat.lt_trans hc (by decide))
  rw [utf8_eq_flatMap] at h
  obtain ⟨d, hd, hmem⟩ := List.mem_flatMap.mp h
  rcases eq_or_le_of_mem_utf8EncodeChar hmem with heq | hle
  · have hcd : c = d := Char.toNat_inj.mp (hbyte.symm.trans heq)
    exact hcd ▸ hd
  · omega

/-! ## The length of what is read -/

/-- The number of bytes of some characters. -/
def bytesOf (cs : List Char) : ℕ := (cs.flatMap String.utf8EncodeChar).length

theorem bytesOf_cons (c : Char) (cs : List Char) :
    bytesOf (c :: cs) = c.utf8Size + bytesOf cs := by
  rw [bytesOf, List.flatMap_cons, List.length_append, String.length_utf8EncodeChar, bytesOf]

theorem lossyChars_encode_append (c : Char) (bytes : List UInt8) :
    lossyChars (String.utf8EncodeChar c ++ bytes) = c :: lossyChars bytes := by
  have hlen : (String.utf8EncodeChar c).length = c.utf8Size := String.length_utf8EncodeChar c
  have hdecode : (String.utf8EncodeChar c ++ bytes).toByteArray.utf8DecodeChar? 0 = some c := by
    rw [List.toByteArray_append]
    exact ByteArray.utf8DecodeChar?_utf8EncodeChar_append
  cases hall : String.utf8EncodeChar c ++ bytes with
  | nil =>
    have := c.utf8Size_pos
    rw [List.append_eq_nil_iff] at hall
    rw [hall.1, List.length_nil] at hlen
    omega
  | cons b rest =>
    rw [hall] at hdecode
    rw [lossyChars, hdecode]
    dsimp only
    rw [← hall, ← hlen, List.drop_left]

theorem bytesOf_lossyChars_le (bytes : List UInt8) :
    bytesOf (lossyChars bytes) ≤ 3 * bytes.length := by
  induction bytes using lossyChars.induct with
  | case1 => rw [lossyChars]; exact Nat.zero_le _
  | case2 b bytes c hc ih =>
    have hsize : c.utf8Size ≤ (b :: bytes).length := by
      obtain ⟨l, hl⟩ := ByteArray.exists_of_utf8DecodeChar?_eq_some hc
      have := congrArg ByteArray.size hl
      rw [ByteArray.size_append, List.size_toByteArray, List.size_toByteArray,
        String.length_utf8EncodeChar] at this
      omega
    rw [lossyChars, hc]
    dsimp only
    rw [bytesOf_cons]
    rw [List.length_drop] at ih
    omega
  | case3 b bytes hc ih =>
    have hpos := illFormedLength_pos (b :: bytes)
    have hthree : ('\uFFFD' : Char).utf8Size = 3 := by decide
    rw [lossyChars, hc]
    dsimp only
    rw [bytesOf_cons, hthree]
    rw [List.length_drop] at ih
    rw [List.length_cons] at ih ⊢
    omega

theorem bytesOf_lossyChars_take_le (cs : List Char) (m : ℕ) :
    bytesOf (lossyChars ((cs.flatMap String.utf8EncodeChar).take m)) ≤ m + 9 := by
  induction cs generalizing m with
  | nil =>
    rw [List.flatMap_nil, List.take_nil, lossyChars]
    exact Nat.zero_le _
  | cons c cs ih =>
    have hlen : (String.utf8EncodeChar c).length = c.utf8Size := String.length_utf8EncodeChar c
    rw [List.flatMap_cons]
    by_cases hm : c.utf8Size ≤ m
    · obtain ⟨k, rfl⟩ := Nat.exists_eq_add_of_le hm
      rw [List.take_append, hlen, Nat.add_sub_cancel_left,
        List.take_of_length_le (by omega), lossyChars_encode_append, bytesOf_cons]
      have := ih k
      omega
    · have hfour := c.utf8Size_le_four
      refine (bytesOf_lossyChars_le _).trans ?_
      rw [List.length_take]
      omega

theorem utf8_of_fromUtf8 {bytes : List UInt8} {s : String} (h : fromUtf8 bytes = some s) :
    utf8 s = bytes := by
  unfold fromUtf8 String.fromUTF8? at h
  split_ifs at h with hvalid
  cases h
  rw [utf8, String.fromUTF8, List.data_toByteArray]

theorem length_utf8_textOf_take (s : String) (m : ℕ) :
    (utf8 (textOf ((utf8 s).take m))).length ≤ m + 9 := by
  unfold textOf
  cases h : fromUtf8 ((utf8 s).take m) with
  | some t =>
    rw [Option.getD_some, utf8_of_fromUtf8 h, List.length_take]
    omega
  | none =>
    have hs : utf8 s = s.toList.flatMap String.utf8EncodeChar := by
      rw [← utf8_ofList, String.ofList_toList]
    rw [Option.getD_none, fromUtf8Lossy, utf8_ofList, hs]
    exact bytesOf_lossyChars_take_le s.toList m

end Veda.Lib
