import Veda.Lib.Msgpack
import Veda.Onto.Individual

set_option autoImplicit false

/-!
# Individuals in MessagePack

The stored form of an individual, after `individual2msgpack.rs`, `msgpack2individual.rs` and
`parser.rs` of the `v-onto` crate: an array of the uri and a map from the predicates to arrays
of values, each value an array of its type, its value and, for a text in a language, the
language. The decoder reads predicate after predicate and can stop when it has found the one
that is asked for; the place where it stopped is kept in the individual.

## Main definitions

* `Onto.toMsgpack` — the encoder.
* `Onto.Individual` — an individual with the record it is decoded from.
* `Onto.parseMsgpackToPredicate` — the decoder, up to a predicate.
* `Onto.Individual.parseRaw`, `Onto.Individual.parseAll` — the header, and everything.

## Design

A cursor of the source is the list of the bytes that are left; its position is the number of bytes
before them. A read that fails for want of bytes takes none. The values are added to the
individual while they are read, so that those in front of an error stay, and a `Decoder` keeps its
state when it fails. The other stored form, CBOR, is decoded by functions that are parameters.
`Individual.parseAll` loops as long as bytes are left and has fuel.
-/

namespace Veda.Onto

open Veda.Lib Veda.Lib.Msgpack

/-! ## The encoder -/

/-- The conversion of a length to 32 bits (`as u32`). -/
def asU32 (n : ℕ) : ℕ := n % 4294967296

/-- A string with its length. -/
def writeStr (s : String) : List UInt8 := writeStrLen (asU32 (utf8 s).length) ++ utf8 s

/-- A text, with nil in the place of an empty one. -/
def writeText (s : String) : List UInt8 := if s.isEmpty then writeNil else writeStr s

def writeResource (r : Resource) : List UInt8 :=
  match r.rtype with
  | .integer => writeArrayLen 2 ++ (writeU8 r.rtype.toU8 ++ writeSint r.getInt.toInt)
  | .binary =>
    writeArrayLen 2 ++
      (writeU8 r.rtype.toU8 ++ (writeStrLen (asU32 r.getBinary.length) ++ r.getBinary))
  | .boolean => writeArrayLen 2 ++ (writeU8 r.rtype.toU8 ++ writeBool r.getBool)
  | .datetime => writeArrayLen 2 ++ (writeU8 r.rtype.toU8 ++ writeSint r.getDatetime.toInt)
  | .decimal =>
    writeArrayLen 3 ++
      (writeU8 r.rtype.toU8 ++ (writeSint r.getNum.1.toInt ++ writeSint r.getNum.2.toInt))
  | .string =>
    if r.getLang = .none then
      writeArrayLen 2 ++ (writeU8 r.rtype.toU8 ++ writeText r.getStr)
    else
      writeArrayLen 3 ++
        (writeU8 r.rtype.toU8 ++ (writeText r.getStr ++ writeU8 r.getLang.toU8))
  | .uri => writeArrayLen 2 ++ (writeU8 r.rtype.toU8 ++ writeText r.getUri)

/-- A predicate with its values. -/
def writePredicate (entry : String × List Resource) : List UInt8 :=
  writeStr entry.1 ++ (writeArrayLen (asU32 entry.2.length) ++ entry.2.flatMap writeResource)

/-- The stored form of an individual; the predicates come in the iteration order of their map. -/
def toMsgpack (π : IterOrder String) (obj : IndividualObj) : List UInt8 :=
  writeArrayLen 2 ++ (writeStr obj.uri ++ (writeMapLen (asU32 obj.resources.keys.length) ++
    (obj.resources.iter π).flatMap writePredicate))

/-! ## The decoder -/

inductive RawType
  | cbor | json | msgpack | unknown
  deriving DecidableEq, Repr

/-- A stored record and how far it has been decoded. -/
structure RawObj where
  data : List UInt8
  cur : ℕ
  lenPredicates : ℕ
  curPredicates : ℕ
  rawType : RawType
  deriving DecidableEq

def RawObj.new (buff : List UInt8) : RawObj := ⟨buff, 0, 0, 0, .unknown⟩

/-- An individual with the record it is decoded from. -/
structure Individual where
  obj : IndividualObj
  raw : RawObj
  deriving DecidableEq

def Individual.newRaw (raw : RawObj) : Individual := ⟨.empty, raw⟩

/-- Save the place of a cursor. -/
def Individual.setCur (iraw : Individual) (cur : List UInt8) : Individual :=
  { iraw with raw := { iraw.raw with cur := iraw.raw.data.length - cur.length } }

/-- What `read_string_from_msgpack` makes of a string of `size` bytes. -/
def readTextInto (size : ℕ) : Reader Int String := do
  match ← attempt (readStr size) with
  | .ok v => return v
  | .error (.invalidUtf8 buf) => return fromUtf8Lossy buf
  | .error _ => throw (-1)

def readStringFromMsgpack : Reader Int String := do
  let mPos ← get
  match ← attempt readMarker with
  | .error _ => throw (-2)
  | .ok (.fixStr size) =>
    set mPos
    readTextInto size
  | .ok .str8 | .ok .str16 | .ok .str32 =>
    set mPos
    match ← attempt readStrLen with
    | .ok size =>
      set mPos
      readTextInto size
    | .error _ => throw (-1)
  | .ok .null => return ""
  | .ok _ => throw (-1)

/-- What `read_raw_into_resources` makes of a string of `size` bytes. -/
def readRawInto (size : ℕ) : Reader Unit (List UInt8) := do
  match ← attempt (readStr size) with
  | .ok v => return utf8 v
  | .error (.invalidUtf8 buf) => return buf
  | .error _ => throw ()

/-- The bytes that `read_raw_into_resources` appends. -/
def readRaw : Reader Unit (List UInt8) := do
  let mPos ← get
  match ← attempt readMarker with
  | .error _ => throw ()
  | .ok (.fixStr size) =>
    set mPos
    readRawInto size
  | .ok .str8 | .ok .str16 | .ok .str32 =>
    set mPos
    match ← attempt readStrLen with
    | .ok size =>
      set mPos
      readRawInto size
    | .error _ => throw ()
  | .ok _ => throw ()

/-- The reads of `parse_msgpack`: the uri and the number of predicates. -/
def readHeader : Reader Int (String × ℕ) := do
  match ← attempt readMarker with
  | .ok (.fixArray size) =>
    if size ≠ 2 then throw (-1)
    else
      match ← attempt readStringFromMsgpack with
      | .error _ => throw (-1)
      | .ok uri =>
        match ← attempt readMapLen with
        | .ok size => return (uri, size)
        | .error _ => throw (-1)
  | _ => throw (-1)

def parseMsgpack (raw : RawObj) : Except Int (String × RawObj) :=
  if raw.data.isEmpty ∨ raw.rawType ≠ .msgpack then .error (-1)
  else
    match readHeader.run raw.data with
    | .ok (uri, size) cur =>
      .ok (uri, { raw with lenPredicates := size, cur := raw.data.length - cur.length })
    | .error e _ => .error e

/-- The errors of the decoder, named after their messages; the message of `endOfData` is empty. -/
inductive ParseError
  | failPositionOfCursor
  | failReadStringFromMsgpack
  | endOfData
  | parsing (e : Error)
  | parsingValues (e : Error)
  | unexpectedMarker (marker : Marker)
  | unexpectedArraySize (size : ℕ)
  | parsingType
  | value (vType : UInt8) (e : Error)
  | valueText (vType : UInt8) (e : Int)
  | failReadRaw
  | failReadMantissa (e : Error)
  | failReadExponent (e : Error)
  | failReadLang (e : Error)
  | unknownType (vType : UInt8)
  deriving DecidableEq, Repr

/-- The bytes that are left and the individual so far. -/
structure Decoding where
  cur : List UInt8
  obj : IndividualObj

/-- A step of the decoder. -/
abbrev Decoder (α : Type) := EStateM ParseError Decoding α

/-- Read from the cursor. -/
def reading {ε α : Type} (x : Reader ε α) (toError : ε → ParseError) : Decoder α := fun st =>
  match x.run st.cur with
  | .ok a cur => .ok a { st with cur }
  | .error e cur => .error (toError e) { st with cur }

theorem run_reading {ε α : Type} (x : Reader ε α) (toError : ε → ParseError) (st : Decoding) :
    (reading x toError).run st =
      match x.run st.cur with
      | .ok a cur => .ok a { st with cur }
      | .error e cur => .error (toError e) { st with cur } := rfl

/-- Change the individual. -/
def adding (f : IndividualObj → IndividualObj) : Decoder Unit := fun st =>
  .ok () { st with obj := f st.obj }

/-- The value list of a predicate, created when it is missing (`entry(..).or_default()`). -/
def IndividualObj.entryOrDefault (obj : IndividualObj) (predicate : String) : IndividualObj :=
  { obj with
    resources := obj.resources.insert predicate ((obj.resources.lookup predicate).getD []) }

/-- Append bytes to a predicate, with the order 0. -/
def IndividualObj.pushBinary (obj : IndividualObj) (predicate : String) (v : List UInt8) :
    IndividualObj :=
  { obj with
    resources := obj.resources.insert predicate
      ((obj.resources.lookup predicate).getD [] ++ [⟨.binary, .binary v, 0⟩]) }

/-- A value in an array of two. -/
def parseValue2 (predicate : String) (vType : UInt8) : Decoder Unit :=
  if vType = DataType.boolean.toU8 then do
    let res ← reading readBool (.value vType)
    adding (·.addBool predicate res)
  else if vType = DataType.datetime.toU8 then do
    let res ← reading readIntI64 (.value vType)
    adding (·.addDatetime predicate res)
  else if vType = DataType.integer.toU8 then do
    let res ← reading readIntI64 (.value vType)
    adding (·.addInteger predicate res)
  else if vType = DataType.uri.toU8 then do
    let res ← reading readStringFromMsgpack (.valueText vType)
    adding (·.addUri predicate res)
  else if vType = DataType.binary.toU8 then do
    adding (·.entryOrDefault predicate)
    let res ← reading readRaw fun _ => .failReadRaw
    adding (·.pushBinary predicate res)
  else if vType = DataType.string.toU8 then do
    let res ← reading readStringFromMsgpack (.valueText vType)
    adding (·.addString predicate res .none)
  else throw (.unknownType vType)

/-- A value in an array of three; one of another type is skipped without reading further. -/
def parseValue3 (predicate : String) (vType : UInt8) : Decoder Unit :=
  if vType = DataType.decimal.toU8 then do
    let mantissa ← reading readIntI64 .failReadMantissa
    let exponent ← reading readIntI64 .failReadExponent
    adding (·.addDecimalD predicate mantissa exponent)
  else if vType = DataType.string.toU8 then do
    let res ← reading readStringFromMsgpack (.valueText vType)
    let lang ← reading readIntI64 .failReadLang
    adding (·.addString predicate res (Lang.newFromI64 lang))
  else return ()

/-- One value of a predicate. -/
def parseValue (predicate : String) : Decoder Unit := do
  match ← reading readMarker .parsingValues with
  | .fixArray size =>
    if size ≠ 2 ∧ size ≠ 3 then throw (.unexpectedArraySize size)
    else
      let vType ← reading readIntU8 fun _ => .parsingType
      if size = 2 then parseValue2 predicate vType else parseValue3 predicate vType
  | marker => throw (.unexpectedMarker marker)

/-- The values of a predicate, one after another. -/
def parseValueList (predicate : String) : ℕ → Decoder Unit
  | 0 => return ()
  | size + 1 => do
    parseValue predicate
    parseValueList predicate size

/-- The array of the values of a predicate. -/
def parseValues (predicate : String) : Decoder Unit := do
  let size ← reading readArrayLen .parsing
  parseValueList predicate size

/-- The loop over the predicates: `left` rounds, the first of them with the index `i`. The place of
the cursor is saved when the loop ends and when no predicate can be read, but not when a value
cannot be read. -/
def predicateLoop (expectPredicate : String) :
    ℕ → ℕ → List UInt8 → Individual → Except ParseError Unit × Individual
  | 0, _, cur, iraw => (.ok (), iraw.setCur cur)
  | left + 1, i, cur, iraw =>
    match readStringFromMsgpack.run cur with
    | .error e cur =>
      (.error (if e = -1 then .failReadStringFromMsgpack else .endOfData), iraw.setCur cur)
    | .ok predicate cur =>
      match (parseValues predicate).run ⟨cur, iraw.obj⟩ with
      | .error e st =>
        (.error e, ⟨st.obj, { iraw.raw with curPredicates := i }⟩)
      | .ok () st =>
        if predicate = expectPredicate then
          (.ok (), Individual.setCur ⟨st.obj, { iraw.raw with curPredicates := i }⟩ st.cur)
        else
          predicateLoop expectPredicate left (i + 1) st.cur
            ⟨st.obj, { iraw.raw with curPredicates := i }⟩

def parseMsgpackToPredicate (expectPredicate : String) (iraw : Individual) :
    Except ParseError Unit × Individual :=
  if iraw.raw.data.length ≤ iraw.raw.cur then (.error .failPositionOfCursor, iraw)
  else
    predicateLoop expectPredicate (iraw.raw.lenPredicates - iraw.raw.curPredicates)
      iraw.raw.curPredicates (iraw.raw.data.drop iraw.raw.cur) iraw

/-! ## The parser -/

/-- The decoder of the other stored form. -/
structure CborParser where
  parseCbor : RawObj → Except Int String × RawObj
  parseCborToPredicate : String → Individual → Bool × Individual

section Parser

variable (cbor : CborParser)

def parseToPredicate (expectPredicate : String) (iraw : Individual) : Bool × Individual :=
  if iraw.raw.rawType = .msgpack then
    match parseMsgpackToPredicate expectPredicate iraw with
    | (.ok (), iraw) => (true, iraw)
    | (.error _, iraw) => (false, iraw)
  else if iraw.raw.rawType = .cbor then cbor.parseCborToPredicate expectPredicate iraw
  else (false, iraw)

def msgpackMagicHeader : UInt8 := 146

def Individual.parseRaw (iraw : Individual) : Except Int Unit × Individual :=
  match iraw.raw.data with
  | [] => (.error (-1), iraw)
  | first :: _ =>
    if first = msgpackMagicHeader then
      let raw := { iraw.raw with rawType := .msgpack }
      match parseMsgpack raw with
      | .ok (uri, raw) => (.ok (), ⟨{ iraw.obj with uri }, raw⟩)
      | .error _ => (.error (-1), { iraw with raw })
    else
      match cbor.parseCbor { iraw.raw with rawType := .cbor } with
      | (.ok uri, raw) => (.ok (), ⟨{ iraw.obj with uri }, raw⟩)
      | (.error _, raw) => (.error (-1), { iraw with raw })

/-- Decode what is left, with at most the given number of rounds. -/
def Individual.parseAll : ℕ → Individual → Option Individual
  | 0, _ => none
  | fuel + 1, iraw =>
    if iraw.raw.cur < iraw.raw.data.length then
      match parseToPredicate cbor "?" iraw with
      | (true, iraw) => Individual.parseAll fuel iraw
      | (false, iraw) => some iraw
    else some iraw

end Parser

end Veda.Onto
