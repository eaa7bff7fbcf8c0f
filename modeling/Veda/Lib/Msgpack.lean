import Veda.Lib.Reader
import Veda.Lib.Utf8

set_option autoImplicit false

/-!
# MessagePack

The part of the MessagePack format that carries numbers, strings, booleans, arrays and maps. A
value starts with a marker byte. The marker of a short value contains the value or its length;
that of a longer one says how many bytes of it follow, the highest byte first. Writers choose the
shortest form. Lengths have at most 32 bits.

## Main definitions

* `Lib.Msgpack.Marker` — the markers, with `fromU8` and `toU8`.
* `Lib.Msgpack.readInt`, `Lib.Msgpack.readStr`, … — the readers.
* `Lib.Msgpack.writeSint`, `Lib.Msgpack.writeStrLen`, … — the writers.

## Main results

* `Lib.Msgpack.reads_int`, `Lib.Msgpack.reads_strLen`, … — what is written is read.
* `Lib.Msgpack.forward_readInt`, `Lib.Msgpack.leaves_readStr`, … — what the readers leave.
-/

namespace Veda.Lib.Msgpack

inductive Marker
  | fixPos (n : ℕ) | fixMap (size : ℕ) | fixArray (size : ℕ) | fixStr (size : ℕ)
  | null | reserved | false | true
  | bin8 | bin16 | bin32 | ext8 | ext16 | ext32 | f32 | f64
  | u8 | u16 | u32 | u64 | i8 | i16 | i32 | i64
  | fixExt1 | fixExt2 | fixExt4 | fixExt8 | fixExt16
  | str8 | str16 | str32 | array16 | array32 | map16 | map32
  | fixNeg (n : ℤ)
  deriving DecidableEq, Repr

/-- The marker with the given byte. -/
def Marker.fromU8 (b : UInt8) : Marker :=
  let n := b.toNat
  if n < 0x80 then .fixPos n
  else if n < 0x90 then .fixMap (n - 0x80)
  else if n < 0xa0 then .fixArray (n - 0x90)
  else if n < 0xc0 then .fixStr (n - 0xa0)
  else
    match n with
    | 0xc0 => .null
    | 0xc1 => .reserved
    | 0xc2 => .false
    | 0xc3 => .true
    | 0xc4 => .bin8
    | 0xc5 => .bin16
    | 0xc6 => .bin32
    | 0xc7 => .ext8
    | 0xc8 => .ext16
    | 0xc9 => .ext32
    | 0xca => .f32
    | 0xcb => .f64
    | 0xcc => .u8
    | 0xcd => .u16
    | 0xce => .u32
    | 0xcf => .u64
    | 0xd0 => .i8
    | 0xd1 => .i16
    | 0xd2 => .i32
    | 0xd3 => .i64
    | 0xd4 => .fixExt1
    | 0xd5 => .fixExt2
    | 0xd6 => .fixExt4
    | 0xd7 => .fixExt8
    | 0xd8 => .fixExt16
    | 0xd9 => .str8
    | 0xda => .str16
    | 0xdb => .str32
    | 0xdc => .array16
    | 0xdd => .array32
    | 0xde => .map16
    | 0xdf => .map32
    | _ => .fixNeg (n - 256)

/-- The byte of a marker. -/
def Marker.toU8 : Marker → UInt8
  | .fixPos n => UInt8.ofNat n
  | .fixMap size => UInt8.ofNat (0x80 + size)
  | .fixArray size => UInt8.ofNat (0x90 + size)
  | .fixStr size => UInt8.ofNat (0xa0 + size)
  | .null => 0xc0
  | .reserved => 0xc1
  | .false => 0xc2
  | .true => 0xc3
  | .bin8 => 0xc4
  | .bin16 => 0xc5
  | .bin32 => 0xc6
  | .ext8 => 0xc7
  | .ext16 => 0xc8
  | .ext32 => 0xc9
  | .f32 => 0xca
  | .f64 => 0xcb
  | .u8 => 0xcc
  | .u16 => 0xcd
  | .u32 => 0xce
  | .u64 => 0xcf
  | .i8 => 0xd0
  | .i16 => 0xd1
  | .i32 => 0xd2
  | .i64 => 0xd3
  | .fixExt1 => 0xd4
  | .fixExt2 => 0xd5
  | .fixExt4 => 0xd6
  | .fixExt8 => 0xd7
  | .fixExt16 => 0xd8
  | .str8 => 0xd9
  | .str16 => 0xda
  | .str32 => 0xdb
  | .array16 => 0xdc
  | .array32 => 0xdd
  | .map16 => 0xde
  | .map32 => 0xdf
  | .fixNeg n => UInt8.ofNat (n + 256).toNat

/-- The ways in which a read can fail. -/
inductive Error
  | endOfInput
  | typeMismatch (marker : Marker)
  | outOfRange
  | bufferSizeTooSmall
  | invalidUtf8 (bytes : List UInt8)
  deriving DecidableEq, Repr

/-! ## Readers -/

/-- Read `k` bytes, or nothing when there are fewer. -/
def readExact (k : ℕ) : Reader Error (List UInt8) := fun s =>
  if k ≤ s.length then .ok (s.take k) (s.drop k) else .error .endOfInput s

def readMarker : Reader Error Marker := fun s =>
  match s with
  | [] => .error .endOfInput []
  | b :: s => .ok (Marker.fromU8 b) s

/-- Read a number of `k` bytes without a sign. -/
def readUnsigned (k : ℕ) : Reader Error ℕ := ofBigEndian <$> readExact k

/-- The number of `k` bytes in two's complement. -/
def signed (k n : ℕ) : ℤ := if n < 256 ^ k / 2 then n else (n : ℤ) - 256 ^ k

/-- Read a number of `k` bytes with a sign. -/
def readSigned (k : ℕ) : Reader Error ℤ := signed k <$> readUnsigned k

def readInt : Reader Error ℤ := do
  match ← readMarker with
  | .fixPos n => return (n : ℤ)
  | .fixNeg n => return n
  | .u8 => (Nat.cast : ℕ → ℤ) <$> readUnsigned 1
  | .u16 => (Nat.cast : ℕ → ℤ) <$> readUnsigned 2
  | .u32 => (Nat.cast : ℕ → ℤ) <$> readUnsigned 4
  | .u64 => (Nat.cast : ℕ → ℤ) <$> readUnsigned 8
  | .i8 => readSigned 1
  | .i16 => readSigned 2
  | .i32 => readSigned 4
  | .i64 => readSigned 8
  | marker => throw (.typeMismatch marker)

/-- Read a number that must be a byte. -/
def readIntU8 : Reader Error UInt8 := do
  let i ← readInt
  if 0 ≤ i ∧ i < 256 then return UInt8.ofNat i.toNat else throw .outOfRange

/-- Read a number that must have at most 64 bits with its sign. -/
def readIntI64 : Reader Error Int64 := do
  let i ← readInt
  if -9223372036854775808 ≤ i ∧ i < 9223372036854775808 then return Int64.ofInt i
  else throw .outOfRange

def readBool : Reader Error Bool := do
  match ← readMarker with
  | .true => return Bool.true
  | .false => return Bool.false
  | marker => throw (.typeMismatch marker)

def readStrLen : Reader Error ℕ := do
  match ← readMarker with
  | .fixStr size => return size
  | .str8 => readUnsigned 1
  | .str16 => readUnsigned 2
  | .str32 => readUnsigned 4
  | marker => throw (.typeMismatch marker)

def readArrayLen : Reader Error ℕ := do
  match ← readMarker with
  | .fixArray size => return size
  | .array16 => readUnsigned 2
  | .array32 => readUnsigned 4
  | marker => throw (.typeMismatch marker)

def readMapLen : Reader Error ℕ := do
  match ← readMarker with
  | .fixMap size => return size
  | .map16 => readUnsigned 2
  | .map32 => readUnsigned 4
  | marker => throw (.typeMismatch marker)

/-- Read a string into a buffer of `size` bytes. -/
def readStr (size : ℕ) : Reader Error String := do
  let len ← readStrLen
  if size < len then
    throw .bufferSizeTooSmall
  else
    let bytes ← readExact len
    match fromUtf8 bytes with
    | some s => return s
    | none => throw (.invalidUtf8 bytes)

/-! ## What the readers leave -/

theorem forward_readExact (k : ℕ) : Forward (readExact k) := by
  intro s
  show Leaves s (if k ≤ s.length then _ else _)
  split_ifs
  · exact List.drop_suffix k s
  · exact List.suffix_rfl

theorem forward_readUnsigned (k : ℕ) : Forward (readUnsigned k) := (forward_readExact k).map _

theorem leaves_marker {α : Type} {f : Marker → Reader Error α} (hf : ∀ m, Forward (f m))
    (b : UInt8) (s : List UInt8) : Leaves s ((readMarker >>= f).run (b :: s)) :=
  hf (Marker.fromU8 b) s

theorem forward_marker {α : Type} {f : Marker → Reader Error α} (hf : ∀ m, Forward (f m)) :
    Forward (readMarker >>= f) := by
  intro s
  cases s with
  | nil => exact List.suffix_rfl
  | cons b s => exact (leaves_marker hf b s).mono (List.suffix_cons b s)

theorem forward_readMarker : Forward readMarker := by
  intro s
  cases s with
  | nil => exact List.suffix_rfl
  | cons b s => exact List.suffix_cons b s

theorem forward_readInt : Forward readInt := by
  refine forward_marker fun m => ?_
  cases m <;> first
    | exact .pure _
    | exact .throw _
    | exact (forward_readUnsigned _).map _

theorem forward_readIntU8 : Forward readIntU8 := by
  refine forward_readInt.bind fun i => ?_
  split_ifs
  · exact .pure _
  · exact .throw _

theorem forward_readIntI64 : Forward readIntI64 := by
  refine forward_readInt.bind fun i => ?_
  split_ifs
  · exact .pure _
  · exact .throw _

theorem forward_readBool : Forward readBool := by
  refine forward_marker fun m => ?_
  cases m <;> first | exact .pure _ | exact .throw _

theorem forward_readArrayLen : Forward readArrayLen := by
  refine forward_marker fun m => ?_
  cases m <;> first | exact .pure _ | exact .throw _ | exact forward_readUnsigned _

theorem leaves_readStrLen (b : UInt8) (s : List UInt8) : Leaves s (readStrLen.run (b :: s)) := by
  refine leaves_marker (fun m => ?_) b s
  cases m <;> first | exact .pure _ | exact .throw _ | exact forward_readUnsigned _

theorem leaves_readStr (size : ℕ) (b : UInt8) (s : List UInt8) :
    Leaves s ((readStr size).run (b :: s)) := by
  refine (leaves_readStrLen b s).bind fun len => ?_
  split_ifs
  · exact .throw _
  · refine (forward_readExact len).bind fun bytes => ?_
    cases fromUtf8 bytes with
    | some v => exact .pure _
    | none => exact .throw _

/-! ## Writers -/

def writeNil : List UInt8 := [Marker.null.toU8]

def writeBool (b : Bool) : List UInt8 :=
  [if b then Marker.true.toU8 else Marker.false.toU8]

/-- Write a byte, always in the form with a marker of its own. -/
def writeU8 (b : UInt8) : List UInt8 := [Marker.u8.toU8, b]

/-- Write a number with a sign in the shortest form. -/
def writeSint (i : ℤ) : List UInt8 :=
  if -32 ≤ i ∧ i < 0 then [(Marker.fixNeg i).toU8]
  else if -128 ≤ i ∧ i < 0 then Marker.i8.toU8 :: bigEndian 1 (i + 256 ^ 1).toNat
  else if -32768 ≤ i ∧ i < 0 then Marker.i16.toU8 :: bigEndian 2 (i + 256 ^ 2).toNat
  else if -2147483648 ≤ i ∧ i < 0 then Marker.i32.toU8 :: bigEndian 4 (i + 256 ^ 4).toNat
  else if i < 0 then Marker.i64.toU8 :: bigEndian 8 (i + 256 ^ 8).toNat
  else if i < 128 then [(Marker.fixPos i.toNat).toU8]
  else if i < 256 then Marker.u8.toU8 :: bigEndian 1 i.toNat
  else if i < 65536 then Marker.u16.toU8 :: bigEndian 2 i.toNat
  else if i < 4294967296 then Marker.u32.toU8 :: bigEndian 4 i.toNat
  else Marker.u64.toU8 :: bigEndian 8 i.toNat

def writeStrLen (len : ℕ) : List UInt8 :=
  if len < 32 then [(Marker.fixStr len).toU8]
  else if len < 256 then Marker.str8.toU8 :: bigEndian 1 len
  else if len < 65536 then Marker.str16.toU8 :: bigEndian 2 len
  else Marker.str32.toU8 :: bigEndian 4 len

def writeArrayLen (len : ℕ) : List UInt8 :=
  if len < 16 then [(Marker.fixArray len).toU8]
  else if len < 65536 then Marker.array16.toU8 :: bigEndian 2 len
  else Marker.array32.toU8 :: bigEndian 4 len

def writeMapLen (len : ℕ) : List UInt8 :=
  if len < 16 then [(Marker.fixMap len).toU8]
  else if len < 65536 then Marker.map16.toU8 :: bigEndian 2 len
  else Marker.map32.toU8 :: bigEndian 4 len

/-! ## What is written is read -/

theorem toNat_ofNat {n : ℕ} (h : n < 256) : (UInt8.ofNat n).toNat = n := by
  rw [UInt8.toNat_ofNat']
  omega

theorem fromU8_fixPos {n : ℕ} (h : n < 128) : Marker.fromU8 (Marker.fixPos n).toU8 = .fixPos n := by
  unfold Marker.fromU8 Marker.toU8
  dsimp only
  rw [toNat_ofNat (by omega), if_pos h]

theorem fromU8_fixMap {n : ℕ} (h : n < 16) : Marker.fromU8 (Marker.fixMap n).toU8 = .fixMap n := by
  unfold Marker.fromU8 Marker.toU8
  dsimp only
  rw [toNat_ofNat (by omega), if_neg (by omega), if_pos (by omega), Nat.add_sub_cancel_left]

theorem fromU8_fixArray {n : ℕ} (h : n < 16) :
    Marker.fromU8 (Marker.fixArray n).toU8 = .fixArray n := by
  unfold Marker.fromU8 Marker.toU8
  dsimp only
  rw [toNat_ofNat (by omega), if_neg (by omega), if_neg (by omega), if_pos (by omega),
    Nat.add_sub_cancel_left]

theorem fromU8_fixStr {n : ℕ} (h : n < 32) : Marker.fromU8 (Marker.fixStr n).toU8 = .fixStr n := by
  unfold Marker.fromU8 Marker.toU8
  dsimp only
  rw [toNat_ofNat (by omega), if_neg (by omega), if_neg (by omega), if_neg (by omega),
    if_pos (by omega), Nat.add_sub_cancel_left]

theorem fromU8_fixNeg {i : ℤ} (h : -32 ≤ i) (hneg : i < 0) :
    Marker.fromU8 (Marker.fixNeg i).toU8 = .fixNeg i := by
  obtain ⟨n, hn, rfl⟩ : ∃ n : ℕ, n < 32 ∧ i = (n : ℤ) - 32 := ⟨(i + 32).toNat, by omega, by omega⟩
  interval_cases n <;> rfl

theorem reads_marker {m : Marker} (h : Marker.fromU8 m.toU8 = m) : Reads readMarker [m.toU8] m := by
  intro rest
  show EStateM.Result.ok (Marker.fromU8 m.toU8) rest = .ok m rest
  rw [h]

theorem reads_cons {α : Type} {m : Marker} (h : Marker.fromU8 m.toU8 = m)
    {f : Marker → Reader Error α} {w : List UInt8} {a : α} (hf : Reads (f m) w a) :
    Reads (readMarker >>= f) (m.toU8 :: w) a :=
  (reads_marker h).bind hf

theorem reads_exact (w : List UInt8) : Reads (readExact w.length) w w := by
  intro rest
  show (if w.length ≤ (w ++ rest).length then
      EStateM.Result.ok ((w ++ rest).take w.length) ((w ++ rest).drop w.length)
    else .error Error.endOfInput (w ++ rest)) = _
  rw [if_pos (by rw [List.length_append]; omega), List.take_left, List.drop_left]

theorem reads_unsigned {k n : ℕ} (h : n < 256 ^ k) : Reads (readUnsigned k) (bigEndian k n) n := by
  have hexact := (reads_exact (bigEndian k n)).map ofBigEndian
  rwa [length_bigEndian, ofBigEndian_bigEndian k n h] at hexact

theorem reads_signed {k : ℕ} {i : ℤ} (hlow : -(256 ^ k / 2 : ℕ) ≤ i) (hneg : i < 0) :
    Reads (readSigned k) (bigEndian k (i + 256 ^ k).toNat) i := by
  have hpos : 0 < 256 ^ k := Nat.pow_pos (by omega)
  have hcast : ((256 ^ k : ℕ) : ℤ) = 256 ^ k := by norm_num
  have hlt : (i + 256 ^ k).toNat < 256 ^ k := by rw [← hcast]; omega
  have hread := (reads_unsigned hlt).map (signed k)
  have hsigned : signed k (i + 256 ^ k).toNat = i := by
    unfold signed
    rw [if_neg (by rw [← hcast]; omega), ← hcast]
    omega
  rwa [hsigned] at hread

theorem reads_int {i : ℤ} (hlow : -9223372036854775808 ≤ i) (hhigh : i < 9223372036854775808) :
    Reads readInt (writeSint i) i := by
  unfold writeSint readInt
  split_ifs with h₁ h₂ h₃ h₄ h₅ h₆ h₇ h₈ h₉
  · exact reads_cons (fromU8_fixNeg h₁.1 h₁.2) (Reads.pure i)
  · exact reads_cons rfl (reads_signed (by omega) h₂.2)
  · exact reads_cons rfl (reads_signed (by omega) h₃.2)
  · exact reads_cons rfl (reads_signed (by omega) h₄.2)
  · exact reads_cons rfl (reads_signed (by omega) h₅)
  all_goals
    obtain ⟨n, rfl⟩ := Int.eq_ofNat_of_zero_le (show 0 ≤ i by omega)
    rw [Int.toNat_natCast]
  · exact reads_cons (fromU8_fixPos (by omega)) (Reads.pure _)
  · exact reads_cons rfl ((reads_unsigned (by omega)).map _)
  · exact reads_cons rfl ((reads_unsigned (by omega)).map _)
  · exact reads_cons rfl ((reads_unsigned (by omega)).map _)
  · exact reads_cons rfl ((reads_unsigned (by omega)).map _)

theorem reads_int_u8 (b : UInt8) : Reads readInt (writeU8 b) b.toNat := by
  have hb : [b] = bigEndian 1 b.toNat := by
    rw [bigEndian, bigEndian, List.nil_append, UInt8.ofNat_toNat]
  unfold writeU8 readInt
  rw [hb]
  exact reads_cons rfl ((reads_unsigned (by have := b.toNat_lt; omega)).map _)

theorem reads_intU8 (b : UInt8) : Reads readIntU8 (writeU8 b) b := by
  have hb := b.toNat_lt
  unfold readIntU8
  rw [← List.append_nil (writeU8 b)]
  refine (reads_int_u8 b).bind ?_
  rw [if_pos ⟨by omega, by omega⟩, Int.toNat_natCast, UInt8.ofNat_toNat]
  exact Reads.pure b

theorem reads_intI64_u8 (b : UInt8) :
    Reads readIntI64 (writeU8 b) (Int64.ofInt b.toNat) := by
  have hb := b.toNat_lt
  unfold readIntI64
  rw [← List.append_nil (writeU8 b)]
  refine (reads_int_u8 b).bind ?_
  rw [if_pos ⟨by omega, by omega⟩]
  exact Reads.pure _

theorem reads_intI64 (i : Int64) : Reads readIntI64 (writeSint i.toInt) i := by
  have hlow := i.le_toInt
  have hhigh := i.toInt_lt
  unfold readIntI64
  rw [← List.append_nil (writeSint i.toInt)]
  refine (reads_int (by omega) (by omega)).bind ?_
  rw [if_pos ⟨by omega, by omega⟩, Int64.ofInt_toInt]
  exact Reads.pure i

theorem reads_bool (b : Bool) : Reads readBool (writeBool b) b := by
  cases b
  · exact reads_cons (m := .false) rfl (Reads.pure _)
  · exact reads_cons (m := .true) rfl (Reads.pure _)

theorem reads_strLen {len : ℕ} (h : len < 4294967296) :
    Reads readStrLen (writeStrLen len) len := by
  unfold writeStrLen readStrLen
  split_ifs with h₁ h₂ h₃
  · exact reads_cons (fromU8_fixStr h₁) (Reads.pure _)
  · exact reads_cons rfl (reads_unsigned (by omega))
  · exact reads_cons rfl (reads_unsigned (by omega))
  · exact reads_cons rfl (reads_unsigned (by omega))

theorem reads_arrayLen {len : ℕ} (h : len < 4294967296) :
    Reads readArrayLen (writeArrayLen len) len := by
  unfold writeArrayLen readArrayLen
  split_ifs with h₁ h₂
  · exact reads_cons (fromU8_fixArray h₁) (Reads.pure _)
  · exact reads_cons rfl (reads_unsigned (by omega))
  · exact reads_cons rfl (reads_unsigned (by omega))

theorem reads_mapLen {len : ℕ} (h : len < 4294967296) :
    Reads readMapLen (writeMapLen len) len := by
  unfold writeMapLen readMapLen
  split_ifs with h₁ h₂
  · exact reads_cons (fromU8_fixMap h₁) (Reads.pure _)
  · exact reads_cons rfl (reads_unsigned (by omega))
  · exact reads_cons rfl (reads_unsigned (by omega))

theorem readStr_written {len : ℕ} (h : len < 4294967296) (bytes : List UInt8)
    (hlen : len ≤ bytes.length) :
    (readStr len).run (writeStrLen len ++ bytes) =
      match fromUtf8 (bytes.take len) with
      | some s => .ok s (bytes.drop len)
      | none => .error (.invalidUtf8 (bytes.take len)) (bytes.drop len) := by
  have hexact : (readExact len).run bytes = .ok (bytes.take len) (bytes.drop len) := if_pos hlen
  rw [readStr, EStateM.run_bind, reads_strLen h]
  dsimp only
  rw [if_neg (Nat.lt_irrefl len), EStateM.run_bind, hexact]
  dsimp only
  cases fromUtf8 (bytes.take len) with
  | some s => rfl
  | none => rfl

end Veda.Lib.Msgpack
