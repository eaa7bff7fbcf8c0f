import Veda.Onto.Lossless

set_option autoImplicit false

/-!
# Stored records as Go values

The web server is written in Go. Its database client decodes a MessagePack record without knowing
its type: a number with a sign becomes an `int64`, one without a sign a `uint64`, and arrays and maps
become slices and maps of such values. A stored individual is a tuple of its uri and the map of its
predicates.

## Main definitions

* `GoWebserver.GoValue` — values with their dynamic types.
* `GoWebserver.decodeInterface` — the decoder.
* `GoWebserver.tupleOf` — the tuple of an individual.

## Main results

* `GoWebserver.decode_toMsgpack` — what is decoded of a stored individual.

## Design

The bytes of a string are well formed UTF-8; those of a binary value need not be, so that the
results are about individuals without binary values. Values are nested as deeply as the fuel of the
decoder allows, and the entries of a map are listed in the order in which they were written.
-/

namespace Veda.GoWebserver

open Veda.Lib Veda.Lib.Msgpack Veda.Onto

/-! ## The decoder -/

/-- A value with its dynamic type. -/
inductive GoValue
  | nil
  | uint64 (n : UInt64)
  | int64 (i : Int64)
  | string (s : String)
  | bool (b : Bool)
  | slice (items : List GoValue)
  | map (entries : List (GoValue × GoValue))

/-- A string of the given number of bytes. -/
def decodeString (len : ℕ) : Reader Error GoValue := do
  let bytes ← readExact len
  match fromUtf8 bytes with
  | some s => return .string s
  | none => throw (.invalidUtf8 bytes)

/-- A number of `k` bytes without a sign. -/
def decodeUint (k : ℕ) : Reader Error GoValue :=
  (fun n : ℕ => .uint64 (UInt64.ofNat n)) <$> readUnsigned k

/-- A number of `k` bytes with a sign. -/
def decodeInt (k : ℕ) : Reader Error GoValue := (fun i : ℤ => .int64 (Int64.ofInt i)) <$> readSigned k

/-- A slice of the given number of values. -/
def decodeSlice (value : Reader Error GoValue) (len : ℕ) : Reader Error GoValue :=
  .slice <$> times value len

/-- A key and its value. -/
def decodeEntry (value : Reader Error GoValue) : Reader Error (GoValue × GoValue) := do
  let k ← value
  let v ← value
  return (k, v)

/-- A map of the given number of entries. -/
def decodeMap (value : Reader Error GoValue) (len : ℕ) : Reader Error GoValue :=
  .map <$> times (decodeEntry value) len

/-- A value, and in it values that are nested less deeply. -/
def decodeInterface : ℕ → Reader Error GoValue
  | 0 => throw .outOfRange
  | depth + 1 => do
    match ← readMarker with
    | .fixPos n => return .uint64 (UInt64.ofNat n)
    | .fixNeg i => return .int64 (Int64.ofInt i)
    | .u8 => decodeUint 1
    | .u16 => decodeUint 2
    | .u32 => decodeUint 4
    | .u64 => decodeUint 8
    | .i8 => decodeInt 1
    | .i16 => decodeInt 2
    | .i32 => decodeInt 4
    | .i64 => decodeInt 8
    | .null => return .nil
    | .true => return .bool true
    | .false => return .bool false
    | .fixStr len => decodeString len
    | .str8 => readUnsigned 1 >>= decodeString
    | .str16 => readUnsigned 2 >>= decodeString
    | .str32 => readUnsigned 4 >>= decodeString
    | .fixArray len => decodeSlice (decodeInterface depth) len
    | .array16 => readUnsigned 2 >>= decodeSlice (decodeInterface depth)
    | .array32 => readUnsigned 4 >>= decodeSlice (decodeInterface depth)
    | .fixMap len => decodeMap (decodeInterface depth) len
    | .map16 => readUnsigned 2 >>= decodeMap (decodeInterface depth)
    | .map32 => readUnsigned 4 >>= decodeMap (decodeInterface depth)
    | marker => throw (.typeMismatch marker)

/-! ## What is decoded -/

/-- A number of 64 bits with a sign; without one it is a `uint64`. -/
def intValue (i : Int64) : GoValue :=
  if i.toInt < 0 then .int64 i else .uint64 (UInt64.ofNat i.toInt.toNat)

/-- A byte. -/
def byteValue (b : UInt8) : GoValue := .uint64 (UInt64.ofNat b.toNat)

/-- A text; an empty one is nil. -/
def textValue (s : String) : GoValue := if s.isEmpty then .nil else .string s

/-- The value of a resource. -/
def resourceValue (r : Resource) : GoValue :=
  match r.rtype with
  | .integer => .slice [byteValue r.rtype.toU8, intValue r.getInt]
  | .binary => .slice [byteValue r.rtype.toU8]
  | .boolean => .slice [byteValue r.rtype.toU8, .bool r.getBool]
  | .datetime => .slice [byteValue r.rtype.toU8, intValue r.getDatetime]
  | .decimal => .slice [byteValue r.rtype.toU8, intValue r.getNum.1, intValue r.getNum.2]
  | .string =>
    if r.getLang = .none then .slice [byteValue r.rtype.toU8, textValue r.getStr]
    else .slice [byteValue r.rtype.toU8, textValue r.getStr, byteValue r.getLang.toU8]
  | .uri => .slice [byteValue r.rtype.toU8, textValue r.getUri]

/-- The entry of a predicate. -/
def entryValue (entry : String × List Resource) : GoValue × GoValue :=
  (.string entry.1, .slice (entry.2.map resourceValue))

/-- The entries of the predicates. -/
def recordOf (π : IterOrder String) (obj : IndividualObj) : List (GoValue × GoValue) :=
  (obj.resources.iter π).map entryValue

/-- The tuple of an individual. -/
def tupleOf (π : IterOrder String) (obj : IndividualObj) : GoValue :=
  .slice [.string obj.uri, .map (recordOf π obj)]

section Reads

variable (depth : ℕ)

theorem reads_uint {k n : ℕ} (h : n < 256 ^ k) :
    Reads (decodeUint k) (bigEndian k n) (.uint64 (UInt64.ofNat n)) :=
  (reads_unsigned h).map _

theorem reads_decodeInt {k : ℕ} {i : ℤ} (hlow : -(256 ^ k / 2 : ℕ) ≤ i) (hneg : i < 0) :
    Reads (decodeInt k) (bigEndian k (i + 256 ^ k).toNat) (.int64 (Int64.ofInt i)) :=
  (reads_signed hlow hneg).map _

theorem reads_intValue (i : Int64) :
    Reads (decodeInterface (depth + 1)) (writeSint i.toInt) (intValue i) := by
  have hlow := i.le_toInt
  have hhigh := i.toInt_lt
  have hneg : i.toInt < 0 → intValue i = .int64 (Int64.ofInt i.toInt) := fun h => by
    rw [intValue, if_pos h, Int64.ofInt_toInt]
  have hpos : ¬i.toInt < 0 → intValue i = .uint64 (UInt64.ofNat i.toInt.toNat) := fun h => by
    rw [intValue, if_neg h]
  unfold writeSint decodeInterface
  split_ifs with h₁ h₂ h₃ h₄ h₅ h₆ h₇ h₈ h₉
  · rw [hneg h₁.2]
    exact reads_cons (fromU8_fixNeg h₁.1 h₁.2) (Reads.pure _)
  · rw [hneg h₂.2]
    exact reads_cons rfl (reads_decodeInt (by omega) h₂.2)
  · rw [hneg h₃.2]
    exact reads_cons rfl (reads_decodeInt (by omega) h₃.2)
  · rw [hneg h₄.2]
    exact reads_cons rfl (reads_decodeInt (by omega) h₄.2)
  · rw [hneg h₅]
    exact reads_cons rfl (reads_decodeInt (by omega) h₅)
  all_goals rw [hpos h₅]
  · exact reads_cons (fromU8_fixPos (by omega)) (Reads.pure _)
  · exact reads_cons rfl (reads_uint (by omega))
  · exact reads_cons rfl (reads_uint (by omega))
  · exact reads_cons rfl (reads_uint (by omega))
  · exact reads_cons rfl (reads_uint (by omega))

theorem reads_byteValue (b : UInt8) :
    Reads (decodeInterface (depth + 1)) (writeU8 b) (byteValue b) := by
  have hb : [b] = bigEndian 1 b.toNat := by
    rw [bigEndian, bigEndian, List.nil_append, UInt8.ofNat_toNat]
  unfold writeU8 decodeInterface
  rw [hb]
  exact reads_cons rfl (reads_uint (by have := b.toNat_lt; omega))

theorem reads_boolValue (b : Bool) :
    Reads (decodeInterface (depth + 1)) (writeBool b) (.bool b) := by
  cases b
  · exact reads_cons (m := .false) rfl (Reads.pure _)
  · exact reads_cons (m := .true) rfl (Reads.pure _)

theorem reads_decodeString (s : String) :
    Reads (decodeString (utf8 s).length) (utf8 s) (.string s) := by
  have hread : Reads (decodeString (utf8 s).length) (utf8 s ++ []) (.string s) := by
    unfold decodeString
    refine (reads_exact (utf8 s)).bind ?_
    rw [fromUtf8_utf8]
    exact Reads.pure _
  rwa [List.append_nil] at hread

theorem reads_str {s : String} (h : (utf8 s).length < 4294967296) :
    Reads (decodeInterface (depth + 1)) (writeStr s) (.string s) := by
  unfold writeStr
  rw [asU32_of_lt h]
  unfold writeStrLen decodeInterface
  split_ifs with h₁ h₂ h₃
  · exact reads_cons (fromU8_fixStr h₁) (reads_decodeString s)
  all_goals rw [List.cons_append]
  · exact reads_cons rfl ((reads_unsigned (by omega)).bind (reads_decodeString s))
  · exact reads_cons rfl ((reads_unsigned (by omega)).bind (reads_decodeString s))
  · exact reads_cons rfl ((reads_unsigned (by omega)).bind (reads_decodeString s))

theorem reads_textValue {s : String} (h : (utf8 s).length < 4294967296) :
    Reads (decodeInterface (depth + 1)) (writeText s) (textValue s) := by
  unfold writeText textValue
  split_ifs with hs
  · exact reads_cons (m := .null) rfl (Reads.pure _)
  · exact reads_str depth h

theorem reads_slice {β : Type} {w : β → List UInt8} {a : β → GoValue} {l : List β}
    (hlen : l.length < 4294967296) (h : ∀ b ∈ l, Reads (decodeInterface depth) (w b) (a b)) :
    Reads (decodeInterface (depth + 1)) (writeArrayLen l.length ++ l.flatMap w)
      (.slice (l.map a)) := by
  have hitems : Reads (decodeSlice (decodeInterface depth) l.length) (l.flatMap w)
      (.slice (l.map a)) := (Reads.times l h).map _
  unfold writeArrayLen decodeInterface
  split_ifs with h₁ h₂
  · exact reads_cons (fromU8_fixArray h₁) hitems
  · exact reads_cons rfl ((reads_unsigned (by omega)).bind hitems)
  · exact reads_cons rfl ((reads_unsigned (by omega)).bind hitems)

theorem reads_map {β : Type} {w : β → List UInt8} {a : β → GoValue × GoValue} {l : List β}
    (hlen : l.length < 4294967296)
    (h : ∀ b ∈ l, Reads (decodeEntry (decodeInterface depth)) (w b) (a b)) :
    Reads (decodeInterface (depth + 1)) (writeMapLen l.length ++ l.flatMap w)
      (.map (l.map a)) := by
  have hitems : Reads (decodeMap (decodeInterface depth) l.length) (l.flatMap w)
      (.map (l.map a)) := (Reads.times l h).map _
  unfold writeMapLen decodeInterface
  split_ifs with h₁ h₂
  · exact reads_cons (fromU8_fixMap h₁) hitems
  · exact reads_cons rfl ((reads_unsigned (by omega)).bind hitems)
  · exact reads_cons rfl ((reads_unsigned (by omega)).bind hitems)

theorem reads_pair {w₁ w₂ : List UInt8} {a₁ a₂ : GoValue}
    (h₁ : Reads (decodeInterface depth) w₁ a₁) (h₂ : Reads (decodeInterface depth) w₂ a₂) :
    Reads (decodeInterface (depth + 1)) (writeArrayLen 2 ++ (w₁ ++ w₂)) (.slice [a₁, a₂]) := by
  have h := reads_slice depth (w := Prod.fst) (a := Prod.snd) (l := [(w₁, a₁), (w₂, a₂)])
    (by simp) (by simpa using ⟨h₁, h₂⟩)
  simpa using h

theorem reads_triple {w₁ w₂ w₃ : List UInt8} {a₁ a₂ a₃ : GoValue}
    (h₁ : Reads (decodeInterface depth) w₁ a₁) (h₂ : Reads (decodeInterface depth) w₂ a₂)
    (h₃ : Reads (decodeInterface depth) w₃ a₃) :
    Reads (decodeInterface (depth + 1)) (writeArrayLen 3 ++ (w₁ ++ (w₂ ++ w₃)))
      (.slice [a₁, a₂, a₃]) := by
  have h := reads_slice depth (w := Prod.fst) (a := Prod.snd)
    (l := [(w₁, a₁), (w₂, a₂), (w₃, a₃)]) (by simp) (by simpa using ⟨h₁, h₂, h₃⟩)
  simpa using h

theorem reads_resource {r : Resource} (h : r.Fits) (hbinary : r.rtype ≠ .binary) :
    Reads (decodeInterface (depth + 2)) (writeResource r) (resourceValue r) := by
  unfold Resource.Fits at h
  unfold writeResource resourceValue
  have htype := reads_byteValue depth r.rtype.toU8
  cases hr : r.rtype <;> rw [hr] at h htype <;> dsimp only at h ⊢
  case binary => exact absurd hr hbinary
  case integer => exact reads_pair _ htype (reads_intValue depth _)
  case boolean => exact reads_pair _ htype (reads_boolValue depth _)
  case datetime => exact reads_pair _ htype (reads_intValue depth _)
  case decimal => exact reads_triple _ htype (reads_intValue depth _) (reads_intValue depth _)
  case uri => exact reads_pair _ htype (reads_textValue depth h)
  case string =>
    split_ifs with hlang
    · exact reads_pair _ htype (reads_textValue depth h)
    · exact reads_triple _ htype (reads_textValue depth h) (reads_byteValue depth _)

theorem reads_entry {e : String × List Resource} (h : EntryFits e)
    (hbinary : ∀ r ∈ e.2, r.rtype ≠ .binary) :
    Reads (decodeEntry (decodeInterface (depth + 3))) (writePredicate e) (entryValue e) := by
  unfold decodeEntry writePredicate
  rw [asU32_of_lt h.count]
  refine (reads_str _ h.name).bind ?_
  have hvalues := reads_slice (depth + 2) h.count fun r hr =>
    reads_resource depth (h.values r hr) (hbinary r hr)
  rw [← List.append_nil (writeArrayLen _ ++ _)]
  exact hvalues.bind (Reads.pure _)

end Reads

/-- No value is binary. -/
def NoBinary (obj : IndividualObj) : Prop :=
  ∀ p rs, obj.resources.lookup p = some rs → ∀ r ∈ rs, r.rtype ≠ .binary

/-- **A stored individual** whose lengths fit into 32 bits is decoded as its tuple. -/
theorem decode_toMsgpack (π : IterOrder String) {obj : IndividualObj} (hnames : obj.NamesFit)
    (hsizes : obj.SizesFit) (hcount : obj.resources.keys.length < 4294967296)
    (hbinary : NoBinary obj) :
    Reads (decodeInterface 5) (toMsgpack π obj) (tupleOf π obj) := by
  unfold toMsgpack tupleOf
  rw [asU32_of_lt hcount, ← length_iter π]
  refine reads_pair 4 (reads_str 3 hsizes.uri) (reads_map 3 ?_ fun e he => ?_)
  · rw [length_iter]
    exact hcount
  · have hlookup := (HashMap.mem_iter π obj.resources e.1 e.2).mp he
    exact reads_entry 0 (IndividualObj.entryFits_of_mem hnames hsizes he) (hbinary _ _ hlookup)

end Veda.GoWebserver
