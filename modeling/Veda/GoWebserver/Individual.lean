import Veda.GoWebserver.Values
import Veda.Lib.Calendar
import Veda.Onto.Json

set_option autoImplicit false

/-!
# Records as individuals of the web server

The web server makes an individual of a decoded record: under each predicate a list of values, each
with its type as a text, its data and, for a text in a language, the language. It takes the
elements of a value apart by their dynamic types; an element of another type than expected stops it.

## Main definitions

* `GoWebserver.decimalToString`, `GoWebserver.timeString` — decimals and points in time.
* `GoWebserver.resourceOf` — one value of a predicate.
* `GoWebserver.ttResordToMap` — the conversion of a record.

## Design

An individual is the list of its members, as they appear in JSON. The entries of a record come in
the order in which the loop visits them. `Stop.panic` is a run-time panic; `Stop.returnNil` is the
return of `nil` from the middle of the loops, which is no error for the caller.
-/

namespace Veda.GoWebserver

open Veda.Lib Veda.Onto

/-! ## Texts -/

inductive DataType
  | uri | string | integer | datetime | decimal | boolean
  deriving DecidableEq, Repr

def dataTypeToString : DataType → String
  | .uri => "Uri"
  | .string => "String"
  | .integer => "Integer"
  | .datetime => "Datetime"
  | .decimal => "Decimal"
  | .boolean => "Boolean"

/-- The data type with a number; the number is cut to eight bits. -/
def dataTypeOf (n : UInt64) : Option DataType :=
  if n.toUInt8 = 1 then some .uri
  else if n.toUInt8 = 2 then some .string
  else if n.toUInt8 = 4 then some .integer
  else if n.toUInt8 = 8 then some .datetime
  else if n.toUInt8 = 32 then some .decimal
  else if n.toUInt8 = 64 then some .boolean
  else none

def langToString (lang : UInt8) : String :=
  if lang = 1 then "RU" else if lang = 2 then "EN" else "NONE"

/-- The digits of a number with a minus sign for a negative one (`strconv.FormatInt`). -/
def formatInt (i : Int64) : List Char := signText i.toInt ++ Nat.toDigits 10 i.toInt.natAbs

/-- The decimal digits `res` with the point of the exponent. -/
def placePoint (res : List Char) (exponent : Int64) : List Char :=
  if 0 ≤ exponent then res ++ List.replicate exponent.toInt.toNat '0'
  else
    let exponent := (-exponent).toInt.toNat
    if exponent < res.length then
      res.take (res.length - exponent) ++ '.' :: res.drop (res.length - exponent)
    else '.' :: List.replicate (exponent - 1) '0' ++ res

def decimalToString (mantissa exponent : Int64) : List Char :=
  if mantissa < 0 then '-' :: placePoint (formatInt (-mantissa)) exponent
  else placePoint (formatInt mantissa) exponent

/-- The seconds from the beginning of the year -292277022399 to 1970. -/
def unixToAbsolute : Int := 9223372028715321600

/-- The seconds that are formatted for a point in time: they are counted from an early year in 64
bits without a sign. -/
def formattedSeconds (i : Int64) : Int :=
  (i.toInt + unixToAbsolute) % 18446744073709551616 - unixToAbsolute

/-- The year of a text, with a sign for a negative one only. -/
def yearString (year : Int) : List Char := signText year ++ padded 4 year.natAbs

/-- `time.Unix(i, 0).UTC().Format("2006-01-02T15:04:05Z")`. -/
def timeString (i : Int64) : List Char :=
  let t := formattedSeconds i
  let date := civilDate (t / 86400)
  yearString date.year ++ '-' :: (padded 2 date.month ++ '-' :: (padded 2 date.day ++
    'T' :: (padded 2 (daySecond t / 3600) ++ ':' :: (padded 2 (daySecond t / 60 % 60) ++
      ':' :: (padded 2 (daySecond t % 60) ++ ['Z'])))))

/-! ## Values -/

/-- The ways in which the conversion ends early. -/
inductive Stop
  | panic
  | returnNil
  deriving DecidableEq, Repr

/-- The length of a value (`reflect.Value.Len`). -/
def lenOf : GoValue → Except Stop ℕ
  | .slice items => .ok items.length
  | .string s => .ok (utf8 s).length
  | .map entries => .ok entries.length
  | _ => .error .panic

/-- An element of a slice (`reflect.Value.Index`). A byte of a string has a type that is nowhere
expected. -/
def index (val : GoValue) (i : ℕ) : Except Stop GoValue :=
  match val with
  | .slice items =>
    match items[i]? with
    | some item => .ok item
    | none => .error .panic
  | _ => .error .panic

def asUint64 : GoValue → Except Stop UInt64
  | .uint64 n => .ok n
  | _ => .error .panic

def asString : GoValue → Except Stop String
  | .string s => .ok s
  | _ => .error .panic

def asBool : GoValue → Except Stop Bool
  | .bool b => .ok b
  | _ => .error .panic

/-- A number of either type as an `int64`; a number that does not fit is wrapped. -/
def toInt64 : GoValue → Except Stop Int64
  | .uint64 n => .ok n.toInt64
  | .int64 i => .ok i
  | _ => .error .returnNil

/-- A number of either type. -/
def numberJson : GoValue → Except Stop Json
  | .uint64 n => .ok (.int n.toNat)
  | .int64 i => .ok (.int i.toInt)
  | _ => .error .returnNil

/-- A language by its number; the number is cut to eight bits. -/
def langJson : GoValue → Except Stop Json
  | .uint64 n => .ok (.str (langToString n.toUInt8))
  | .int64 i => .ok (.str (langToString i.toUInt64.toUInt8))
  | _ => .error .returnNil

/-- The members of a value with the given type and data. -/
def resource (vtype : DataType) (data : Json) : List (String × Json) :=
  [("type", .str (dataTypeToString vtype)), ("data", data)]

def uriResource (val : GoValue) : Except Stop (List (String × Json)) := do
  let s ← asString (← index val 1)
  return resource .uri (.str s)

def integerResource (val : GoValue) : Except Stop (List (String × Json)) := do
  let num ← numberJson (← index val 1)
  return resource .integer num

def datetimeResource (val : GoValue) : Except Stop (List (String × Json)) := do
  let dt ← toInt64 (← index val 1)
  return resource .datetime (.str (String.ofList (timeString dt)))

def decimalResource (val : GoValue) : Except Stop (List (String × Json)) := do
  let mantissa ← toInt64 (← index val 1)
  let exponent ← toInt64 (← index val 2)
  return resource .decimal (.str (String.ofList (decimalToString mantissa exponent)))

def booleanResource (val : GoValue) : Except Stop (List (String × Json)) := do
  let b ← asBool (← index val 1)
  return resource .boolean (.bool b)

/-- A text. An empty one was written as nil, and then its language is not looked at. -/
def stringResource (val : GoValue) (vSize : ℕ) : Except Stop (List (String × Json)) := do
  match ← index val 1 with
  | .string s =>
    if vSize = 3 then
      let lang ← langJson (← index val 2)
      return resource .string (.str s) ++ [("lang", lang)]
    else return resource .string (.str s)
  | .nil => return resource .string (.str "")
  | _ => throw .returnNil

/-- One value of a predicate; a value of another size is skipped. -/
def resourceOf (val : GoValue) : Except Stop (Option (List (String × Json))) := do
  let vSize ← lenOf val
  if vSize = 0 ∨ 3 < vSize then return none
  else
    let vtype ← asUint64 (← index val 0)
    match dataTypeOf vtype with
    | some .uri => some <$> uriResource val
    | some .integer => some <$> integerResource val
    | some .datetime => some <$> datetimeResource val
    | some .decimal => some <$> decimalResource val
    | some .boolean => some <$> booleanResource val
    | some .string => some <$> stringResource val vSize
    | none => throw .returnNil

/-- The values of a predicate. -/
def resourcesOf : List GoValue → Except Stop (List Json)
  | [] => return []
  | val :: vals => do
    match ← resourceOf val with
    | some members =>
      let resources ← resourcesOf vals
      return .obj members :: resources
    | none => resourcesOf vals

/-- The loop over the predicates; values that are no slices are left out. -/
def convert : List (GoValue × GoValue) → List (String × Json) → Except Stop (List (String × Json))
  | [], individual => return individual
  | (predicate, pp) :: record, individual => do
    match pp with
    | .nil => throw .panic
    | .slice items =>
      let resources ← resourcesOf items
      let name ← asString predicate
      convert record (Json.setMember individual (name, .arr resources))
    | _ => convert record individual

/-- An individual of the web server: its members, or `none` for `nil`. -/
abbrev Individual := Option (List (String × Json))

/-- The individual of a record; the outer `none` is a panic. -/
def ttResordToMap (uri : String) (ttRecord : List (GoValue × GoValue)) : Option Individual :=
  match convert ttRecord [("@", .str uri)] with
  | .ok individual => some (some individual)
  | .error .returnNil => some none
  | .error .panic => none

/-- The JSON of an individual (`json.Marshal`). -/
def marshal : Individual → Json
  | some members => .obj members
  | none => .null

end Veda.GoWebserver
