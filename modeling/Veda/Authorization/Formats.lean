import Mathlib.Data.BitVec
import Veda.Authorization.Common
import Veda.Lib.Decimal

set_option autoImplicit false

/-!
# The text format of index records

A record of the access index is a text `id;value;id;value;…`. A value is written in one of two
forms: the *hex form* (the access byte in hexadecimal, then a marker) and the *letter form* (a
letter for each access bit with a reference count, then a marker).

## Main definitions

* `Authorization.updateCounters` — the reference counts after one grant or withdrawal.
* `Authorization.decodeIndexRecord` — the reader of records, with its two instances
  `decodeRecToRights` and `decodeRecToRightset`.
* `Authorization.encodeRightset` — the writer of records.

## Design

Arithmetic on counters is that of a release build, modulo `2 ^ 16`. The writer visits hash
maps in an arbitrary order, which is the argument `HashOrder` of the model.
-/

namespace Veda.Authorization

open Veda.Lib

def mIsExclusive : Char := 'X'
def mIgnoreExclusive : Char := 'N'

/-- The letters of the access bits. -/
def accessCFullList : List Char := ['M', 'R', 'U', 'P', 'm', 'r', 'u', 'p']

def accessFromChar : Char → Option Access
  | 'M' => some .canCreate
  | 'R' => some .canRead
  | 'U' => some .canUpdate
  | 'P' => some .canDelete
  | 'm' => some .cantCreate
  | 'r' => some .cantRead
  | 'u' => some .cantUpdate
  | 'p' => some .cantDelete
  | _ => none

def access8FromChar : Char → Option U8
  | 'M' => some 1
  | 'R' => some 2
  | 'U' => some 4
  | 'P' => some 8
  | 'm' => some 16
  | 'r' => some 32
  | 'u' => some 64
  | 'p' => some 128
  | _ => none

def access8ToChar (a : U8) : Option Char :=
  if a = 1 then some 'M'
  else if a = 2 then some 'R'
  else if a = 4 then some 'U'
  else if a = 8 then some 'P'
  else if a = 16 then some 'm'
  else if a = 32 then some 'r'
  else if a = 64 then some 'u'
  else if a = 128 then some 'p'
  else none

/-! ## Reference counts -/

/-- The body of the loop of `updateCounters` for one letter. -/
def updateCounter (prevAccess : U8) (isDeleted : Bool) (st : Counters × U8) (accessC : Char) :
    Counters × U8 :=
  let (counters, outAccess) := st
  match access8FromChar accessC with
  | none => st
  | some checkBit =>
    match counters.lookup accessC with
    | some cc =>
      if outAccess &&& checkBit ≠ 0 then
        if isDeleted then
          if prevAccess &&& checkBit ≠ 0 then
            (counters.insert accessC (cc - 1),
              if cc - 1 = 0 then outAccess &&& ~~~checkBit else outAccess)
          else st
        else (counters.insert accessC (cc + 1), outAccess ||| checkBit)
      else st
    | none =>
      if !isDeleted ∧ outAccess &&& checkBit ≠ 0 then
        (counters.insert accessC 1, outAccess ||| checkBit)
      else st

/-- Count one more or one fewer reference for each letter; the second component is the access
byte that results. -/
def updateCounters (counters : Counters) (prevAccess curAccess : U8) (isDeleted : Bool) :
    Counters × U8 :=
  accessCFullList.foldl (updateCounter prevAccess isDeleted) (counters, curAccess)

/-! ## Decoding -/

/-- The local variables of the loop of `decodeValueV2`. -/
structure V2State where
  access : U8
  marker : Char
  tag : Option Char
  val : List Char
  counters : Counters

/-- Store the number read so far under the last tag; a text that is no number counts as `1`. -/
def V2State.flush (st : V2State) : Counters :=
  match st.tag with
  | some t => st.counters.insert t (BitVec.ofNat 16 ((parseUnsigned 65535 st.val).getD 1))
  | none => st.counters

/-- The body of the loop of `decodeValueV2` for one character. -/
def decodeCharV2 (withCount : Bool) (st : V2State) (c : Char) : V2State :=
  if (accessFromChar c).isSome ∨ c = mIsExclusive ∨ c = mIgnoreExclusive then
    { access := match accessFromChar c with
        | some a => st.access ||| a.toU8
        | none => st.access
      marker := if c = mIsExclusive ∨ c = mIgnoreExclusive then c else st.marker
      counters := if withCount then st.flush else st.counters
      tag := some c
      val := [] }
  else { st with val := st.val ++ [c] }

/-- Read a value in the letter form. -/
def decodeValueV2 (value : List Char) (rr : Right) (withCount : Bool) : Right :=
  let st := value.foldl (decodeCharV2 withCount) ⟨0, rr.marker, none, [], rr.counters⟩
  { rr with
    access := st.access
    marker := st.marker
    counters := if withCount then st.flush else st.counters }

/-- The value of a hexadecimal digit (`char::to_digit(16)`). -/
def toDigit16 (c : Char) : Option ℕ :=
  if c.isDigit then some (c.toNat - '0'.toNat)
  else if 'a' ≤ c ∧ c ≤ 'f' then some (c.toNat - 'a'.toNat + 10)
  else if 'A' ≤ c ∧ c ≤ 'F' then some (c.toNat - 'A'.toNat + 10)
  else none

/-- The body of the loop of `decodeValueV1` for one character: access bits, marker, shift. A
shift past the word wraps around, as in a release build. -/
def decodeCharV1 (st : BitVec 32 × Char × ℕ) (c : Char) : BitVec 32 × Char × ℕ :=
  let (access, marker, shift) := st
  if c = mIsExclusive ∨ c = mIgnoreExclusive then (access, c, shift)
  else match toDigit16 c with
    | some v => (access ||| BitVec.ofNat 32 v <<< (shift % 32), marker, shift + 4)
    | none => st

/-- Read a value in the hex form; the first digit is the low one. -/
def decodeValueV1 (value : List Char) (rr : Right) (withCount : Bool) : Right :=
  let (access, marker, _) := value.foldl decodeCharV1 (0, noMarker, 0)
  let access := access.setWidth 8
  { rr with
    access := access
    marker := marker
    counters :=
      if withCount then
        access8FullList.foldl (fun counters a =>
          if a &&& access ≠ 0 then
            match access8ToChar a with
            | some ac => counters.insert ac 1
            | none => counters
          else counters) rr.counters
      else rr.counters }

/-- Read one value: the first character tells the form. -/
def decodeValue (key : String) (value : List Char) (withCounter : Bool) : Right :=
  match value.head? with
  | some c =>
    if (accessFromChar c).isNone then decodeValueV1 value (Right.new key) withCounter
    else decodeValueV2 value (Right.new key) withCounter
  | none => Right.new key

section Decode

variable {σ : Type}

/-- The loop of `decodeIndexRecord` over the tokens, two at a time; an empty value is passed
over. -/
def drainTokens (withCounter : Bool) (drain : σ → String → Right → σ) :
    List (List Char) → σ → σ
  | key :: value :: tokens, s =>
    drainTokens withCounter drain tokens
      (if value = [] then s
      else drain s (String.ofList key) (decodeValue (String.ofList key) value withCounter))
  | _, s => s

/-- Read a record and hand its entries to `drain`. -/
def decodeIndexRecord (src : String) (withCounter : Bool) (drain : σ → String → Right → σ)
    (s : σ) : Bool × σ :=
  if src.toList = [] then (false, s)
  else (true, drainTokens withCounter drain (src.toList.splitOn ';') s)

end Decode

/-- Append the entries of a record to a list. -/
def decodeRecToRights (src : String) (result : List Right) : Bool × List Right :=
  decodeIndexRecord src false (fun result _ right => result ++ [right]) result

/-- Insert the entries of a record into a right set. -/
def decodeRecToRightset (src : String) (newRights : RightSet) : Bool × RightSet :=
  decodeIndexRecord src true (fun newRights key right => newRights.insert key right) newRights

/-! ## Encoding -/

/-- The upper-case hexadecimal digit of a number below `16`. -/
def hexDigit (n : ℕ) : Char := Char.ofNat (if n < 10 then '0'.toNat + n else 'A'.toNat + (n - 10))

/-- The byte in upper-case hexadecimal without leading zeros (`{:X}`). -/
def formatHex (a : U8) : List Char :=
  if a.toNat < 16 then [hexDigit a.toNat] else [hexDigit (a.toNat / 16), hexDigit (a.toNat % 16)]

/-- The marker of an entry as it is written. -/
def encodeMarker (marker : Char) : List Char :=
  if marker = mIsExclusive ∨ marker = mIgnoreExclusive then [marker] else []

/-- A value in the hex form. -/
def encodeValueV1 (right : Right) : List Char :=
  formatHex right.access ++ encodeMarker right.marker

/-- The body of the first loop of `encodeValueV2`, on the local `set_access`. -/
def addSetAccess (setAccess : U8) (p : Char × BitVec 16) : U8 :=
  match accessFromChar p.1 with
  | some c => if p.2 ≠ 0 then setAccess ||| c.toU8 else setAccess
  | none => setAccess

/-- The bits of the counters with a positive count. -/
def setAccess (counters : List (Char × BitVec 16)) : U8 := counters.foldl addSetAccess 0

/-- A letter followed by its count, the count `1` being left out. -/
def encodeCount (tag : Char) (count : BitVec 16) : List Char :=
  tag :: if 1 < count.toNat then Nat.toDigits 10 count.toNat else []

/-- A value in the letter form, the counters being visited in the order `π`. -/
def encodeValueV2 (π : IterOrder Char) (right : Right) : List Char :=
  let counters := HashMap.iter π right.counters
  (counters.flatMap fun (tag, count) =>
    if (accessFromChar tag).isSome ∧ count ≠ 0 then encodeCount tag count else []) ++
  (access8FullList.flatMap fun a =>
    if a &&& right.access &&& setAccess counters = 0 then
      (access8ToChar (a &&& right.access)).toList
    else []) ++
  encodeMarker right.marker

/-- The order in which one call of the writer visits the hash maps it reads. -/
structure HashOrder where
  /-- the order of the entries of the record -/
  rights : IterOrder String
  /-- the order of the counters of each entry -/
  counters : String → IterOrder Char

/-- The order in which the entries are stored. -/
def HashOrder.stored : HashOrder := ⟨.stored _, fun _ => .stored _⟩

/-- The sum of the counters of an entry (`u16`). -/
def summCounters (right : Right) : BitVec 16 :=
  (right.counters.entries.map fun e => e.2).sum

/-- The entry is written in the hex form. -/
def hexForm (right : Right) (versionOfIndexFormat : U8) : Prop :=
  summCounters right < 2 ∨ versionOfIndexFormat = 1

instance (right : Right) (versionOfIndexFormat : U8) :
    Decidable (hexForm right versionOfIndexFormat) := by unfold hexForm; infer_instance

/-- The value of one entry. -/
def encodeValue (π : IterOrder Char) (right : Right) (versionOfIndexFormat : U8) : List Char :=
  if hexForm right versionOfIndexFormat then encodeValueV1 right else encodeValueV2 π right

/-- Write a record. -/
def encodeRightset (π : HashOrder) (newRights : RightSet) (versionOfIndexFormat : U8) : String :=
  String.ofList <| (HashMap.iter π.rights newRights).flatMap fun (key, right) =>
    if right.isDeleted then []
    else right.id.toList ++ ';' :: encodeValue (π.counters key) right versionOfIndexFormat ++ [';']

end Veda.Authorization
