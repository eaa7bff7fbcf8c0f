import Veda.Onto.Msgpack

set_option autoImplicit false

/-!
# Individuals in CBOR

The older stored form of an individual, after `cbor2individual.rs` of the `v-onto` crate: a map
whose first key is `@`, with the uri, and whose other keys are the predicates. The bytes are read
by a crate that is a parameter here; its reads move forward, and a type info takes at least one
byte. The decoder adds a value to the individual when it has read it, and an array of values is
read by the function that reads one value.

## Main definitions

* `Onto.CborCrate` — the reads of the crate.
* `Onto.addValue` — one value of a predicate.
* `Onto.parseCbor`, `Onto.parseCborToPredicate` — the header, and a search.
* `Onto.CborCrate.parser` — the parser of this stored form.

## Design

`addValue` calls itself for the elements of an array, as deep as arrays are nested. Its fuel is the
number of the bytes, and `addValue_succ` says that more fuel changes nothing: every level has taken
a byte. A read that fails leaves the cursor where the crate has it then.
-/

namespace Veda.Onto

open Veda.Lib

/-! ## The crate -/

/-- The types of values that `add_value` tells apart. -/
inductive CborType
  | bool | bytes | text
  | uint8 | int8 | uint16 | int16 | uint32 | int32 | int64 | uint64
  | array | other
  deriving DecidableEq, Repr

/-- A type with the rest of the byte that it was read from. -/
structure TypeInfo where
  type : CborType
  info : UInt8
  deriving DecidableEq, Repr

/-- The input that a result leaves. -/
def leftOf {ε α : Type} : EStateM.Result ε (List UInt8) α → List UInt8
  | .ok _ cur => cur
  | .error _ cur => cur

/-- A reader that moves forward. -/
abbrev CborRead (α : Type) := { x : Reader Unit α // ∀ cur, leftOf (x.run cur) <:+ cur }

/-- The reads of the crate. The bound on the length of an array is that of its configuration, with
`none` for the default. -/
structure CborCrate where
  object : CborRead ℕ
  typeinfo : CborRead TypeInfo
  /-- a type info and the tag in front of it -/
  typeinfoAndTag : CborRead (TypeInfo × UInt64)
  text : TypeInfo → CborRead String
  bool : TypeInfo → CborRead Bool
  i64 : TypeInfo → CborRead Int64
  array : Option ℕ → TypeInfo → CborRead ℕ
  /-- the crate bounds the number of the pairs of a map -/
  object_lt : ∀ {cur len rest}, object.1.run cur = .ok len rest → len < 4294967296
  typeinfo_lt : ∀ {cur ti rest}, typeinfo.1.run cur = .ok ti rest → rest.length < cur.length
  typeinfoAndTag_lt : ∀ {cur ti rest},
    typeinfoAndTag.1.run cur = .ok ti rest → rest.length < cur.length

/-! ## Values -/

/-- The tags that the decoder knows. -/
inductive TagId
  | textRu | textEn | epochDateTime | decimalFraction | uri
  deriving DecidableEq, Repr

/-- The numeric value of a tag (`as u64`). -/
def TagId.toU64 : TagId → UInt64
  | .textRu => 42
  | .textEn => 43
  | .epochDateTime => 1
  | .decimalFraction => 4
  | .uri => 32

def langOfTag (tag : UInt64) : Lang :=
  if tag = TagId.textRu.toU64 then .ru else if tag = TagId.textEn.toU64 then .en else .none

/-- The crate reads a negative number as one that is smaller by one. -/
def correctNegative (i : Int64) : Int64 := if i < 0 then i + 1 else i

/-- Read from the cursor. -/
def tryRead {α : Type} (x : CborRead α) : StateM Decoding (Option α) := fun st =>
  match x.1.run st.cur with
  | .ok a cur => (some a, { st with cur })
  | .error _ cur => (none, { st with cur })

/-- Change the individual. -/
def changing (f : IndividualObj → IndividualObj) : StateM Decoding Unit := fun st =>
  ((), { st with obj := f st.obj })

/-- Do something so many times, whatever it answers. -/
def times (x : StateM Decoding Bool) : ℕ → StateM Decoding Unit
  | 0 => return ()
  | n + 1 => do
    let _ ← x
    times x n

section Decoder

variable (crate : CborCrate) (maxLenArray : Option ℕ) (predicate : String)

def addBool (ti : TypeInfo) : StateM Decoding Unit := do
  match ← tryRead (crate.bool ti) with
  | some b => changing (·.addBool predicate b)
  | none => return ()

def addText (ti : TypeInfo) (tag : UInt64) : StateM Decoding Unit := do
  match ← tryRead (crate.text ti) with
  | some t =>
    if tag = TagId.uri.toU64 then changing (·.addUri predicate t)
    else changing (·.addString predicate t (langOfTag tag))
  | none => return ()

def addNumber (ti : TypeInfo) (tag : UInt64) : StateM Decoding Unit := do
  match ← tryRead (crate.i64 ti) with
  | some i =>
    if tag = TagId.epochDateTime.toU64 then changing (·.addDatetime predicate (correctNegative i))
    else changing (·.addInteger predicate (correctNegative i))
  | none => return ()

/-- A number without a meaning of its tag, a part of a decimal fraction. -/
def readNumber : StateM Decoding (Option Int64) := do
  match ← tryRead crate.typeinfoAndTag with
  | some (ti, _) =>
    match ← tryRead (crate.i64 ti) with
    | some i => return some (correctNegative i)
    | none => return none
  | none => return none

def addDecimal : StateM Decoding Unit := do
  match ← readNumber crate with
  | some m =>
    match ← readNumber crate with
    | some e => changing (·.addDecimalD predicate m e)
    | none => return ()
  | none => return ()

/-- One value, or the values of an array. The answer is false for a type that is not known and for
an array whose length cannot be read; the answers for the elements of an array are ignored. -/
def addValue : ℕ → StateM Decoding Bool
  | 0 => return true
  | fuel + 1 => do
    match ← tryRead crate.typeinfoAndTag with
    | none => return true
    | some (ti, tag) =>
      match ti.type with
      | .bool => do
        addBool crate predicate ti
        return true
      | .bytes | .text => do
        addText crate predicate ti tag
        return true
      | .uint8 | .int8 | .uint16 | .int16 | .uint32 | .int32 | .int64 | .uint64 => do
        addNumber crate predicate ti tag
        return true
      | .array => do
        match ← tryRead (crate.array maxLenArray ti) with
        | some len =>
          if tag = TagId.decimalFraction.toU64 then addDecimal crate predicate
          else times (addValue fuel) len
          return true
        | none => return false
      | .other => return false

end Decoder

/-! ## The record -/

section Parser

variable (crate : CborCrate)

/-- The bound on the length of an array; large records have one of their own. -/
def maxLenArrayOf (data : List UInt8) : Option ℕ :=
  if 200000 < data.length then some 10000 else none

/-- The reads behind the number of the pairs: the first key and the uri. -/
def readCborUri : Reader Unit String := do
  let typeInfo ← crate.typeinfo.1
  let predicate ← (crate.text typeInfo).1
  if predicate = "@" then
    let typeInfo ← crate.typeinfo.1
    (crate.text typeInfo).1
  else throw ()

def parseCbor (raw : RawObj) : Except Int String × RawObj :=
  if raw.data.isEmpty ∨ raw.rawType ≠ .cbor then (.error (-1), raw)
  else
    match crate.object.1.run raw.data with
    | .error _ _ => (.error (-1), raw)
    | .ok len cur =>
      let raw := { raw with lenPredicates := asU32 len }
      match (readCborUri crate).run cur with
      | .error _ _ => (.error (-1), raw)
      | .ok uri cur => (.ok uri, { raw with cur := raw.data.length - cur.length })

/-- The loop over the predicates, with the rounds that are left. A key that cannot be read is passed
over. The place of the cursor is saved only behind the predicate that is asked for. -/
def cborLoop (expectPredicate : String) : ℕ → List UInt8 → Individual → Bool × Individual
  | 0, _, iraw => (false, iraw)
  | left + 1, cur, iraw =>
    match crate.typeinfo.1.run cur with
    | .error _ cur => cborLoop expectPredicate left cur iraw
    | .ok typeInfo cur =>
      match (crate.text typeInfo).1.run cur with
      | .error _ cur => cborLoop expectPredicate left cur iraw
      | .ok predicate cur =>
        match addValue crate (maxLenArrayOf iraw.raw.data) predicate iraw.raw.data.length
            ⟨cur, iraw.obj⟩ with
        | (false, st) => (false, { iraw with obj := st.obj })
        | (true, st) =>
          if predicate = expectPredicate then (true, Individual.setCur ⟨st.obj, iraw.raw⟩ st.cur)
          else cborLoop expectPredicate left st.cur { iraw with obj := st.obj }

def parseCborToPredicate (expectPredicate : String) (iraw : Individual) : Bool × Individual :=
  if iraw.raw.data.length ≤ iraw.raw.cur then (false, iraw)
  else
    cborLoop crate expectPredicate (iraw.raw.lenPredicates - iraw.raw.curPredicates)
      (iraw.raw.data.drop iraw.raw.cur) iraw

/-- The parser of this stored form. -/
def CborCrate.parser : CborParser where
  parseCbor := parseCbor crate
  parseCborToPredicate := parseCborToPredicate crate

end Parser

end Veda.Onto
