import Veda.Onto.Msgpack

set_option autoImplicit false

/-!
# Reading what was written

The fields of a stored individual, one at a time: a string is read as its first bytes, as many as
the written length says, and so a field whose length fits into 32 bits is read back. A value of
a predicate is read as the value that was written for it; for a resource whose value has the
variant of its type this is its own value.

## Main definitions

* `Onto.Resource.written` — the value that is written for a resource.
* `Onto.Resource.Fits` — the length of the value fits into 32 bits.
* `Onto.IndividualObj.push` — append a resource to a predicate.
* `Onto.Decodes` — a decoder takes the given bytes and changes the individual.

## Main results

* `Onto.readStringFromMsgpack_written`, `Onto.readRaw_written` — strings and bytes.
* `Onto.decodes_value` — one value of a predicate.
* `Onto.decodes_predicate` — all values of a predicate.
-/

namespace Veda.Onto

open Veda.Lib Veda.Lib.Msgpack

theorem asU32_lt (n : ℕ) : asU32 n < 4294967296 := Nat.mod_lt _ (by omega)

theorem asU32_le (n : ℕ) : asU32 n ≤ n := Nat.mod_le _ _

theorem asU32_of_lt {n : ℕ} (h : n < 4294967296) : asU32 n = n := Nat.mod_eq_of_lt h

/-! ## Strings and bytes -/

theorem readTextInto_written {len : ℕ} (h : len < 4294967296) (bytes : List UInt8)
    (hlen : len ≤ bytes.length) :
    (readTextInto len).run (writeStrLen len ++ bytes) =
      .ok (textOf (bytes.take len)) (bytes.drop len) := by
  rw [readTextInto, EStateM.run_bind, run_attempt, readStr_written h bytes hlen, textOf]
  cases fromUtf8 (bytes.take len) with
  | some s => rfl
  | none => rfl

theorem readRawInto_written {len : ℕ} (h : len < 4294967296) (bytes : List UInt8)
    (hlen : len ≤ bytes.length) :
    (readRawInto len).run (writeStrLen len ++ bytes) =
      .ok (bytes.take len) (bytes.drop len) := by
  rw [readRawInto, EStateM.run_bind, run_attempt, readStr_written h bytes hlen]
  cases hs : fromUtf8 (bytes.take len) with
  | some s => exact congrArg (EStateM.Result.ok · _) (utf8_of_fromUtf8 hs)
  | none => rfl

theorem writeStrLen_eq_cons (len : ℕ) :
    ∃ m tail, writeStrLen len = Marker.toU8 m :: tail ∧ Marker.fromU8 m.toU8 = m ∧
      (m = .fixStr len ∨ m = .str8 ∨ m = .str16 ∨ m = .str32) := by
  unfold writeStrLen
  split_ifs with h₁ h₂ h₃
  · exact ⟨_, _, rfl, fromU8_fixStr h₁, .inl rfl⟩
  · exact ⟨_, _, rfl, rfl, .inr (.inl rfl)⟩
  · exact ⟨_, _, rfl, rfl, .inr (.inr (.inl rfl))⟩
  · exact ⟨_, _, rfl, rfl, .inr (.inr (.inr rfl))⟩

theorem readMarker_written (len : ℕ) (bytes : List UInt8) :
    ∃ m tail, readMarker.run (writeStrLen len ++ bytes) = .ok m (tail ++ bytes) ∧
      (m = .fixStr len ∨ m = .str8 ∨ m = .str16 ∨ m = .str32) := by
  obtain ⟨m, tail, hw, hm, hcase⟩ := writeStrLen_eq_cons len
  refine ⟨m, tail, ?_, hcase⟩
  rw [hw]
  exact reads_marker hm (tail ++ bytes)

theorem readStringFromMsgpack_written {len : ℕ} (h : len < 4294967296) (bytes : List UInt8)
    (hlen : len ≤ bytes.length) :
    readStringFromMsgpack.run (writeStrLen len ++ bytes) =
      .ok (textOf (bytes.take len)) (bytes.drop len) := by
  obtain ⟨m, tail, hmarker, hcase⟩ := readMarker_written len bytes
  have hsize := reads_strLen h bytes
  have htext := readTextInto_written h bytes hlen
  simp only [readStringFromMsgpack, EStateM.run_bind, EStateM.run_get, run_attempt, hmarker]
  rcases hcase with rfl | rfl | rfl | rfl
  · exact htext
  all_goals
    simp only [EStateM.run_bind, EStateM.run_set, run_attempt, hsize]
    exact htext

theorem readRaw_written {len : ℕ} (h : len < 4294967296) (bytes : List UInt8)
    (hlen : len ≤ bytes.length) :
    readRaw.run (writeStrLen len ++ bytes) = .ok (bytes.take len) (bytes.drop len) := by
  obtain ⟨m, tail, hmarker, hcase⟩ := readMarker_written len bytes
  have hsize := reads_strLen h bytes
  have hraw := readRawInto_written h bytes hlen
  simp only [readRaw, EStateM.run_bind, EStateM.run_get, run_attempt, hmarker]
  rcases hcase with rfl | rfl | rfl | rfl
  · exact hraw
  all_goals
    simp only [EStateM.run_bind, EStateM.run_set, run_attempt, hsize]
    exact hraw

theorem readStringFromMsgpack_writeStr (s : String) (rest : List UInt8) :
    readStringFromMsgpack.run (writeStr s ++ rest) =
      .ok (textOf ((utf8 s).take (asU32 (utf8 s).length)))
        ((utf8 s).drop (asU32 (utf8 s).length) ++ rest) := by
  have hle := asU32_le (utf8 s).length
  rw [writeStr, List.append_assoc,
    readStringFromMsgpack_written (asU32_lt _) _ (by rw [List.length_append]; omega),
    List.take_append_of_le_length hle, List.drop_append_of_le_length hle]

theorem reads_writeStr {s : String} (h : (utf8 s).length < 4294967296) :
    Reads readStringFromMsgpack (writeStr s) s := by
  intro rest
  rw [readStringFromMsgpack_writeStr, asU32_of_lt h, List.take_length, List.drop_length,
    textOf_utf8, List.nil_append]

theorem reads_writeText {s : String} (h : (utf8 s).length < 4294967296) :
    Reads readStringFromMsgpack (writeText s) s := by
  unfold writeText
  split_ifs with hs
  · intro rest
    rw [String.isEmpty_iff] at hs
    subst hs
    rfl
  · exact reads_writeStr h

theorem textOf_take_ne {s : String} (h : 4294967296 ≤ (utf8 s).length) :
    textOf ((utf8 s).take (asU32 (utf8 s).length)) ≠ s := by
  intro heq
  have hlen := length_utf8_textOf_take s (asU32 (utf8 s).length)
  rw [heq] at hlen
  have hlt : asU32 (utf8 s).length + 4294967296 ≤ (utf8 s).length := by
    unfold asU32
    omega
  omega

/-! ## Values -/

/-- The value that is written for a resource. -/
def Resource.written (r : Resource) : Value :=
  match r.rtype with
  | .integer => .int r.getInt
  | .binary => .binary r.getBinary
  | .boolean => .bool r.getBool
  | .datetime => .datetime r.getDatetime
  | .decimal => .num r.getNum.1 r.getNum.2
  | .string => .str r.getStr r.getLang
  | .uri => .uri r.getUri

/-- The length of the value fits into 32 bits. -/
def Resource.Fits (r : Resource) : Prop :=
  match r.rtype with
  | .binary => r.getBinary.length < 4294967296
  | .string => (utf8 r.getStr).length < 4294967296
  | .uri => (utf8 r.getUri).length < 4294967296
  | _ => True

instance : DecidablePred Resource.Fits := fun ⟨rtype, _, _⟩ =>
  match rtype with
  | .binary | .string | .uri => inferInstanceAs (Decidable (_ < _))
  | .integer | .datetime | .decimal | .boolean => inferInstanceAs (Decidable True)

/-- The resource that the decoder makes, as the value number `n` of its predicate. -/
def Resource.stored (n : ℕ) (r : Resource) : Resource :=
  ⟨r.rtype, r.written, if r.rtype = .binary then 0 else UInt16.ofNat n⟩

namespace IndividualObj

/-- The values of a predicate, none when it is missing. -/
def valuesOf (obj : IndividualObj) (predicate : String) : List Resource :=
  (obj.resources.lookup predicate).getD []

/-- Append a resource to a predicate. -/
def push (obj : IndividualObj) (predicate : String) (r : Resource) : IndividualObj :=
  { obj with resources := obj.resources.insert predicate (obj.valuesOf predicate ++ [r]) }

@[simp] theorem push_uri (obj : IndividualObj) (predicate : String) (r : Resource) :
    (obj.push predicate r).uri = obj.uri := rfl

theorem lookup_push (obj : IndividualObj) (predicate : String) (r : Resource) :
    (obj.push predicate r).resources.lookup predicate = some (obj.valuesOf predicate ++ [r]) :=
  AList.lookup_insert _

theorem lookup_push_ne (obj : IndividualObj) {predicate p : String} (r : Resource)
    (h : p ≠ predicate) :
    (obj.push predicate r).resources.lookup p = obj.resources.lookup p :=
  AList.lookup_insert_ne h

@[simp] theorem valuesOf_push (obj : IndividualObj) (predicate : String) (r : Resource) :
    (obj.push predicate r).valuesOf predicate = obj.valuesOf predicate ++ [r] := by
  rw [valuesOf, lookup_push, Option.getD_some]

theorem addValue_eq_push (obj : IndividualObj) (predicate : String) (rtype : DataType)
    (value : Value) :
    obj.addValue predicate rtype value =
      obj.push predicate ⟨rtype, value, UInt16.ofNat (obj.valuesOf predicate).length⟩ := rfl

theorem pushBinary_entryOrDefault (obj : IndividualObj) (predicate : String) (v : List UInt8) :
    (obj.entryOrDefault predicate).pushBinary predicate v =
      obj.push predicate ⟨.binary, .binary v, 0⟩ := by
  unfold entryOrDefault pushBinary push
  dsimp only
  rw [AList.insert_insert, AList.lookup_insert]
  rfl

/-- Append the values that are written for some resources. -/
def addStored (obj : IndividualObj) (predicate : String) : List Resource → IndividualObj
  | [] => obj
  | r :: rs =>
    (obj.push predicate (r.stored (obj.valuesOf predicate).length)).addStored predicate rs

end IndividualObj

/-! ## Decoders -/

/-- The decoder takes the bytes `w` and changes the individual by `f`, whatever follows. -/
def Decodes (x : Decoder Unit) (w : List UInt8) (f : IndividualObj → IndividualObj) : Prop :=
  ∀ rest obj, x.run ⟨w ++ rest, obj⟩ = .ok () ⟨rest, f obj⟩

theorem run_reading_bind {ε α β : Type} {x : Reader ε α} {toError : ε → ParseError}
    {f : α → Decoder β} {w : List UInt8} {a : α} (hx : Reads x w a) (rest : List UInt8)
    (obj : IndividualObj) :
    (reading x toError >>= f).run ⟨w ++ rest, obj⟩ = (f a).run ⟨rest, obj⟩ := by
  rw [EStateM.run_bind, run_reading, hx]

theorem Decodes.reading_bind {ε α : Type} {x : Reader ε α} {toError : ε → ParseError}
    {f : α → Decoder Unit} {w w' : List UInt8} {a : α} {g : IndividualObj → IndividualObj}
    (hx : Reads x w a) (hf : Decodes (f a) w' g) :
    Decodes (reading x toError >>= f) (w ++ w') g := by
  intro rest obj
  rw [List.append_assoc, run_reading_bind hx]
  exact hf rest obj

theorem Decodes.reading_adding {ε α : Type} {x : Reader ε α} {toError : ε → ParseError}
    {f : α → IndividualObj → IndividualObj} {w : List UInt8} {a : α} (hx : Reads x w a) :
    Decodes (do let res ← reading x toError; adding (f res)) w (f a) := by
  intro rest obj
  rw [run_reading_bind hx]
  rfl

theorem run_parseValue2 (predicate : String) (rtype : DataType) (w : List UInt8)
    (obj : IndividualObj) :
    (parseValue predicate).run ⟨writeArrayLen 2 ++ (writeU8 rtype.toU8 ++ w), obj⟩ =
      (parseValue2 predicate rtype.toU8).run ⟨w, obj⟩ :=
  (run_reading_bind (reads_marker (m := .fixArray 2) rfl) _ obj).trans
    (run_reading_bind (reads_intU8 _) w obj)

theorem run_parseValue3 (predicate : String) (rtype : DataType) (w : List UInt8)
    (obj : IndividualObj) :
    (parseValue predicate).run ⟨writeArrayLen 3 ++ (writeU8 rtype.toU8 ++ w), obj⟩ =
      (parseValue3 predicate rtype.toU8).run ⟨w, obj⟩ :=
  (run_reading_bind (reads_marker (m := .fixArray 3) rfl) _ obj).trans
    (run_reading_bind (reads_intU8 _) w obj)

theorem Decodes.value2 {predicate : String} {rtype : DataType} {w : List UInt8}
    {f : IndividualObj → IndividualObj} (h : Decodes (parseValue2 predicate rtype.toU8) w f) :
    Decodes (parseValue predicate) (writeArrayLen 2 ++ (writeU8 rtype.toU8 ++ w)) f := by
  intro rest obj
  rw [List.append_assoc, List.append_assoc, run_parseValue2]
  exact h rest obj

theorem Decodes.value3 {predicate : String} {rtype : DataType} {w : List UInt8}
    {f : IndividualObj → IndividualObj} (h : Decodes (parseValue3 predicate rtype.toU8) w f) :
    Decodes (parseValue predicate) (writeArrayLen 3 ++ (writeU8 rtype.toU8 ++ w)) f := by
  intro rest obj
  rw [List.append_assoc, List.append_assoc, run_parseValue3]
  exact h rest obj

theorem run_parseValue_binary (predicate : String) (data rest : List UInt8) (obj : IndividualObj) :
    (parseValue predicate).run
        ⟨writeArrayLen 2 ++ (writeU8 DataType.binary.toU8 ++
          (writeStrLen (asU32 data.length) ++ (data ++ rest))), obj⟩ =
      .ok () ⟨(data ++ rest).drop (asU32 data.length),
        obj.push predicate ⟨.binary, .binary (data.take (asU32 data.length)), 0⟩⟩ := by
  have hle := asU32_le data.length
  have hread := readRaw_written (asU32_lt data.length) (data ++ rest)
    (by rw [List.length_append]; omega)
  rw [List.take_append_of_le_length hle] at hread
  rw [run_parseValue2]
  show (reading readRaw (fun _ => .failReadRaw) >>= _).run ⟨_, obj.entryOrDefault predicate⟩ = _
  rw [EStateM.run_bind, run_reading, hread, ← obj.pushBinary_entryOrDefault predicate]
  rfl

theorem newFromI64_toU8 (l : Lang) : Lang.newFromI64 (Int64.ofInt l.toU8.toNat) = l := by
  cases l <;> rfl

/-- **One value**: a value whose length fits is read as the value that was written. -/
theorem decodes_value {predicate : String} {r : Resource} (h : r.Fits) :
    Decodes (parseValue predicate) (writeResource r)
      fun obj => obj.push predicate (r.stored (obj.valuesOf predicate).length) := by
  obtain ⟨rtype, value, order⟩ := r
  cases rtype with
  | uri => exact Decodes.value2 (Decodes.reading_adding (reads_writeText h))
  | integer => exact Decodes.value2 (Decodes.reading_adding (reads_intI64 _))
  | datetime => exact Decodes.value2 (Decodes.reading_adding (reads_intI64 _))
  | boolean => exact Decodes.value2 (Decodes.reading_adding (reads_bool _))
  | decimal =>
    exact Decodes.value3
      (Decodes.reading_bind (reads_intI64 _) (Decodes.reading_adding (reads_intI64 _)))
  | binary =>
    intro rest obj
    have hdata : (Resource.getBinary ⟨.binary, value, order⟩).length < 4294967296 := h
    have hrun := run_parseValue_binary predicate (Resource.getBinary ⟨.binary, value, order⟩) rest
      obj
    rw [asU32_of_lt hdata, List.drop_left, List.take_length, ← asU32_of_lt hdata] at hrun
    rw [writeResource, List.append_assoc, List.append_assoc, List.append_assoc]
    exact hrun
  | string =>
    unfold writeResource
    dsimp only
    split_ifs with hlang
    · have hstored : ∀ n, Resource.stored n ⟨.string, value, order⟩ =
          ⟨.string, .str (Resource.getStr ⟨.string, value, order⟩) .none, UInt16.ofNat n⟩ := by
        intro n
        rw [Resource.stored, Resource.written]
        dsimp only
        rw [hlang]
        rfl
      simp only [hstored]
      exact Decodes.value2 (Decodes.reading_adding (reads_writeText h))
    · refine Decodes.value3 (Decodes.reading_bind (reads_writeText h) fun rest obj => ?_)
      rw [run_reading_bind (reads_intI64_u8 _), newFromI64_toU8]
      rfl

theorem decodes_valueList {predicate : String} {rs : List Resource} (h : ∀ r ∈ rs, r.Fits) :
    Decodes (parseValueList predicate rs.length) (rs.flatMap writeResource)
      fun obj => obj.addStored predicate rs := by
  induction rs with
  | nil => exact fun rest obj => rfl
  | cons r rs ih =>
    intro rest obj
    rw [List.length_cons, parseValueList, List.flatMap_cons, List.append_assoc, EStateM.run_bind,
      decodes_value (h r List.mem_cons_self)]
    exact ih (fun r' hr' => h r' (List.mem_cons_of_mem _ hr')) rest _

/-- **All values of a predicate** are read back when the lengths fit. -/
theorem decodes_values {predicate : String} {rs : List Resource} (h : ∀ r ∈ rs, r.Fits)
    (hlen : rs.length < 4294967296) :
    Decodes (parseValues predicate) (writeArrayLen (asU32 rs.length) ++ rs.flatMap writeResource)
      fun obj => obj.addStored predicate rs := by
  rw [asU32_of_lt hlen]
  exact Decodes.reading_bind (reads_arrayLen hlen) (decodes_valueList h)

end Veda.Onto
