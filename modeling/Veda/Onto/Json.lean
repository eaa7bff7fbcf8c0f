import Veda.Lib.Calendar
import Veda.Lib.HashMap
import Veda.Lib.LastWriter
import Veda.Onto.Individual

set_option autoImplicit false

/-!
# Individuals as JSON

An individual becomes an object with its uri under `@` and an array of values under each predicate.
A value is an object with `data`, `type` and, for a text with a language, `lang`. The reader visits
the members of the object; a value that it cannot read is left out.

## Main definitions

* `Onto.Json` — JSON values.
* `Onto.IndividualObj.asJson` — the writer.
* `Onto.parseJsonToIndividual` — the reader.

## Main results

* `Onto.parseMembers_fst`, `Onto.contents_parseMembers`, `Onto.uri_parseMembers` — what
  the reader makes of the members of an object.

## Design

The orders in which the predicates are written and the members are read are inputs. The texts of
decimals and points in time are those of the libraries that the source uses. What these libraries
do with a date without zone, with a decimal text that is not plain or does not fit, and with a number
in floating point is given by `Libraries`. A member that is set twice has its last value.
-/

namespace Veda.Onto

open Veda.Lib

/-! ## Values -/

inductive Json
  | null
  | bool (b : Bool)
  | int (i : Int)
  | float (f : Float)
  | str (s : String)
  | arr (items : List Json)
  | obj (members : List (String × Json))

namespace Json

def asStr : Json → Option String
  | .str s => some s
  | _ => none

def asBool : Json → Option Bool
  | .bool b => some b
  | _ => none

def asI64 : Json → Option Int64
  | .int i => if -9223372036854775808 ≤ i ∧ i ≤ 9223372036854775807 then some (.ofInt i) else none
  | _ => none

/-- Set a member of an object. -/
def setMember (members : List (String × Json)) (member : String × Json) : List (String × Json) :=
  if member.1 ∈ members.map Prod.fst then
    members.map fun m => if m.1 = member.1 then member else m
  else members ++ [member]

end Json

/-- What is not determined here of the libraries for dates and decimals. -/
structure Libraries where
  /-- a date and a time in the local zone -/
  parseLocal : String → Option Int64
  /-- the scale of a decimal text that is not plain or does not fit -/
  otherScale : String → Option ℕ
  /-- the scale of a number in floating point -/
  scaleOfF64 : Float → Option ℕ

/-! ## The writer -/

def DataType.name : DataType → String
  | .uri => "Uri"
  | .string => "String"
  | .integer => "Integer"
  | .datetime => "Datetime"
  | .decimal => "Decimal"
  | .boolean => "Boolean"
  | .binary => "Binary"

def Lang.name : Lang → String
  | .none => "None"
  | .ru => "RU"
  | .en => "EN"

def exponentToScale (m e : Int64) : Int64 × UInt32 :=
  (if 0 < e then m * Int64.ofInt (10 ^ (e.toInt % 4294967296).toNat) else m,
    if e < 0 then UInt32.ofNat ((e * -1).toInt % 4294967296).toNat else 0)

/-- The text of a decimal number. -/
def decimalText (num : Int) (scale : ℕ) : List Char :=
  let digits := padded (scale + 1) num.natAbs
  signText num ++ if scale = 0 then digits
    else digits.take (digits.length - scale) ++ '.' :: digits.drop (digits.length - scale)

/-- The field `data` of a value; binary values have none. -/
def dataJson : Value → Option Json
  | .num m e =>
    let ns := exponentToScale m e
    some (.str (String.ofList (decimalText ns.1.toInt ns.2.toNat)))
  | .int i => some (.int i.toInt)
  | .datetime i => some (.str (String.ofList (timeText i.toInt)))
  | .bool b => some (.bool b)
  | .str s _ => some (.str s)
  | .uri s => some (.str s)
  | .binary _ => none

/-- The field `lang` of a text. -/
def langMembers (r : Resource) : List (String × Json) :=
  match r.value with
  | .str _ l => if r.rtype = .string ∧ l ≠ .none then [("lang", .str l.name)] else []
  | _ => []

def resourceMembers (r : Resource) : List (String × Json) :=
  (match dataJson r.value with
  | some d => [("data", d)]
  | none => []) ++ langMembers r ++ [("type", .str r.rtype.name)]

/-- The array of a predicate. -/
def predicateJson (rs : List Resource) : Json :=
  .arr (rs.map fun r => .obj (resourceMembers r))

def IndividualObj.members (π : IterOrder String) (obj : IndividualObj) : List (String × Json) :=
  (obj.resources.iter π).foldl (fun members e => Json.setMember members (e.1, predicateJson e.2))
    (Json.setMember [] ("@", .str obj.uri))

def IndividualObj.asJson (π : IterOrder String) (obj : IndividualObj) : Json :=
  .obj (obj.members π)

/-! ## The reader -/

def DataType.newFromStr (l : String) : Option DataType :=
  if l = "Uri" then some .uri
  else if l = "String" then some .string
  else if l = "Integer" then some .integer
  else if l = "Datetime" then some .datetime
  else if l = "Decimal" then some .decimal
  else if l = "Boolean" then some .boolean
  else if l = "Binary" then some .binary
  else none

def DataType.newFromU64 (l : Int) : Option DataType :=
  if l = 1 then some .uri
  else if l = 2 then some .string
  else if l = 4 then some .integer
  else if l = 8 then some .datetime
  else if l = 32 then some .decimal
  else if l = 64 then some .boolean
  else if l = 128 then some .binary
  else none

def Lang.newFromStr (l : String) : Lang :=
  if l = "ru" then .ru else if l = "en" then .en else .none

def getDatatypeFromJson : Option Json → Except String DataType
  | none => .error "not content field type"
  | some (.str v) =>
    match DataType.newFromStr v with
    | some d => .ok d
    | none => .error "invalid value of field [type]"
  | some (.int v) =>
    if 0 ≤ v then
      match DataType.newFromU64 v with
      | some d => .ok d
      | none => .error "invalid value of field [type]"
    else .error "expected string or integer for value of field [type]"
  | some _ => .error "expected string or integer for value of field [type]"

/-- The language of a text (in `add_string`). -/
def langOf (members : List (String × Json)) : Lang :=
  match members.lookup "lang" with
  | some (.str v) => .newFromStr v.toLower
  | some (.int v) => .newFromI64 ((Json.int v).asI64.getD 0)
  | some (.float _) => .newFromI64 0
  | _ => .none

/-- The point in time that `add_datetime_from_str` adds. -/
def datetimeFromStr (libs : Libraries) (value : String) : Option Int64 :=
  if 'Z' ∈ value.toList then (parseRfc3339 value.toList).map Int64.ofInt
  else libs.parseLocal (if value.utf8ByteSize = 10 then value ++ "T00:00:00" else value)

/-- A text without its sign. -/
def stripSign : List Char → List Char
  | '-' :: cs => cs
  | '+' :: cs => cs
  | cs => cs

/-- The scale of a decimal text (`Decimal::from_str` and `scale`). -/
def decimalScale (libs : Libraries) (value : String) : Option ℕ :=
  let body := stripSign value.toList
  let whole := body.takeWhile Char.isDigit
  let fraction := (body.dropWhile Char.isDigit).drop 1
  if whole ≠ [] ∧ (body = whole ∨ body = whole ++ '.' :: fraction ∧ fraction ≠ []) ∧
      fraction.all Char.isDigit ∧ fraction.length ≤ 28 ∧
      Nat.ofDigitChars 10 (whole ++ fraction) 0 < 79228162514264337593543950336 then
    some fraction.length
  else libs.otherScale value

/-- The decimal that `add_decimal_from_str` adds. -/
def decimalFromStr (libs : Libraries) (value : String) : Option (Int64 × Int64) :=
  match decimalScale libs value with
  | some scale =>
    (parseSigned 9223372036854775807 (value.toList.filter fun c => c ≠ '.')).map fun m : Int =>
      (Int64.ofInt m, Int64.ofInt (-(scale : Int)))
  | none => none

/-- The decimal that `add_decimal_from_f64` adds. -/
def decimalFromF64 (libs : Libraries) (value : Float) : Option (Int64 × Int64) :=
  (libs.scaleOfF64 value).map fun exp : ℕ =>
    ((value * (Int64.ofInt (10 ^ exp)).toFloat).toInt64, Int64.ofInt (-(exp : Int)))

/-- The value that is read of a `data` field with a type. -/
def readValue (libs : Libraries) (members : List (String × Json)) (vdata : Json) :
    DataType → Option (DataType × Value)
  | .uri => vdata.asStr.map fun v => (.uri, .uri v)
  | .string => vdata.asStr.map fun v => (.string, .str v (langOf members))
  | .integer => vdata.asI64.map fun v => (.integer, .int v)
  | .datetime =>
    match vdata with
    | .str v => (datetimeFromStr libs v).map fun i => (.datetime, .datetime i)
    | _ => vdata.asI64.map fun v => (.datetime, .datetime v)
  | .decimal =>
    match vdata with
    | .float v => (decimalFromF64 libs v).map fun d => (.decimal, .num d.1 d.2)
    | .str v => (decimalFromStr libs v).map fun d => (.decimal, .num d.1 d.2)
    | _ => vdata.asI64.map fun v => (.decimal, .num v 0)
  | .boolean => vdata.asBool.map fun v => (.boolean, .bool v)
  | .binary => vdata.asStr.map fun v => (.binary, .binary v.toUTF8.toList)

/-- What is read of one value of a predicate: `none` when it is refused, and otherwise the value if
it could be read. -/
def readJson (libs : Libraries) : Json → Option (Option (DataType × Value))
  | .obj members =>
    match members.lookup "data" with
    | none => none
    | some vdata =>
      match getDatatypeFromJson (members.lookup "type") with
      | .error _ => none
      | .ok ptype => some (readValue libs members vdata ptype)
  | _ => none

/-- Add a value that was read. -/
def IndividualObj.addContent (obj : IndividualObj) (predicate : String) :
    Option (DataType × Value) → IndividualObj
  | some c => obj.addValue predicate c.1 c.2
  | none => obj

def jsonToPredicate (libs : Libraries) (predicate : String) (values : List Json)
    (s : Bool × IndividualObj) : Bool × IndividualObj :=
  values.foldl (fun s val =>
    match readJson libs val with
    | some c => (s.1, s.2.addContent predicate c)
    | none => (false, s.2)) s

/-- One member of an object. -/
def parseMember (libs : Libraries) (s : Bool × IndividualObj) (m : String × Json) :
    Bool × IndividualObj :=
  if m.1 = "@" then
    match m.2.asStr with
    | some id => (s.1, { s.2 with uri := id })
    | none => (false, s.2)
  else
    match m.2 with
    | .arr values => jsonToPredicate libs m.1 values s
    | _ => (false, s.2)

def parseMembers (libs : Libraries) (members : List (String × Json)) (s : Bool × IndividualObj) :
    Bool × IndividualObj :=
  members.foldl (parseMember libs) s

def parseJsonToIndividual (libs : Libraries) (π : IterOrder (String × Json)) (src : Json)
    (dest : IndividualObj) : Bool × IndividualObj :=
  match src with
  | .obj members => parseMembers libs (π.order members) (true, dest)
  | _ => (true, dest)

/-! ## What is read of an object -/

/-- A member is read without errors. -/
def memberOk (libs : Libraries) (m : String × Json) : Bool :=
  if m.1 = "@" then m.2.asStr.isSome
  else
    match m.2 with
    | .arr values => values.all fun val => (readJson libs val).isSome
    | _ => false

/-- The values that are read of a member. -/
def memberContents (libs : Libraries) (m : String × Json) : List (DataType × Value) :=
  if m.1 = "@" then []
  else
    match m.2 with
    | .arr values => values.filterMap fun val => (readJson libs val).join
    | _ => []

section Members

variable (libs : Libraries)

theorem contents_addContent (obj : IndividualObj) (predicate p : String)
    (c : Option (DataType × Value)) :
    (((obj.addContent predicate c).resources.lookup p).getD []).map Resource.content =
      ((obj.resources.lookup p).getD []).map Resource.content ++
        if p = predicate then c.toList else [] := by
  cases c with
  | none => simp [IndividualObj.addContent]
  | some c =>
    rw [IndividualObj.addContent, IndividualObj.lookup_addValue]
    split_ifs with h
    · rw [h, Option.getD_some, List.map_append]
      rfl
    · rw [List.append_nil]

theorem uri_addContent (obj : IndividualObj) (predicate : String) (c : Option (DataType × Value)) :
    (obj.addContent predicate c).uri = obj.uri := by
  cases c <;> rfl

/-- **An array of values**: whether it is read without errors, and what is read. -/
theorem jsonToPredicate_spec (predicate p : String) (values : List Json)
    (s : Bool × IndividualObj) :
    (jsonToPredicate libs predicate values s).1 =
        (s.1 && values.all fun val => (readJson libs val).isSome) ∧
      (jsonToPredicate libs predicate values s).2.uri = s.2.uri ∧
      (((jsonToPredicate libs predicate values s).2.resources.lookup p).getD []).map
          Resource.content =
        ((s.2.resources.lookup p).getD []).map Resource.content ++
          if p = predicate then values.filterMap fun val => (readJson libs val).join
          else [] := by
  induction values generalizing s with
  | nil => simp [jsonToPredicate]
  | cons val values ih =>
    rw [jsonToPredicate, List.foldl_cons, ← jsonToPredicate]
    obtain ⟨hok, huri, hcontents⟩ := ih (match readJson libs val with
      | some c => (s.1, s.2.addContent predicate c)
      | none => (false, s.2))
    rw [hok, huri, hcontents, List.all_cons, List.filterMap_cons]
    cases hval : readJson libs val with
    | none => exact ⟨by simp, rfl, rfl⟩
    | some c =>
      refine ⟨by simp, uri_addContent _ _ _, ?_⟩
      dsimp only
      rw [contents_addContent, List.append_assoc, Option.join_some]
      split_ifs with h
      · cases c <;> rfl
      · rfl

theorem parseMember_spec (s : Bool × IndividualObj) (m : String × Json) (p : String) :
    (parseMember libs s m).1 = (s.1 && memberOk libs m) ∧
      (((parseMember libs s m).2.resources.lookup p).getD []).map Resource.content =
        ((s.2.resources.lookup p).getD []).map Resource.content ++
          if p = m.1 then memberContents libs m else [] := by
  unfold parseMember memberOk memberContents
  by_cases hm : m.1 = "@"
  · rw [if_pos hm, if_pos hm, if_pos hm]
    cases m.2.asStr <;> simp
  · rw [if_neg hm, if_neg hm, if_neg hm]
    cases m.2 with
    | arr values =>
      obtain ⟨hok, -, hcontents⟩ := jsonToPredicate_spec libs m.1 p values s
      exact ⟨hok, hcontents⟩
    | _ => simp

theorem uri_parseMember (s : Bool × IndividualObj) (m : String × Json) :
    some (parseMember libs s m).2.uri =
      (if m.1 = "@" then m.2.asStr else none).or (some s.2.uri) := by
  unfold parseMember
  by_cases hm : m.1 = "@"
  · rw [if_pos hm, if_pos hm]
    cases m.2.asStr <;> rfl
  · rw [if_neg hm, if_neg hm]
    cases m.2 with
    | arr values => exact congrArg some (jsonToPredicate_spec libs m.1 "" values s).2.1
    | _ => rfl

theorem parseMembers_fst (members : List (String × Json)) (s : Bool × IndividualObj) :
    (parseMembers libs members s).1 = (s.1 && members.all (memberOk libs)) := by
  induction members generalizing s with
  | nil => simp [parseMembers]
  | cons m members ih =>
    rw [parseMembers, List.foldl_cons, ← parseMembers, ih, (parseMember_spec libs s m "").1,
      List.all_cons, Bool.and_assoc]

theorem contents_parseMembers (members : List (String × Json)) (s : Bool × IndividualObj)
    (p : String) :
    (((parseMembers libs members s).2.resources.lookup p).getD []).map Resource.content =
      ((s.2.resources.lookup p).getD []).map Resource.content ++
        members.flatMap fun m => if p = m.1 then memberContents libs m else [] := by
  induction members generalizing s with
  | nil => simp [parseMembers]
  | cons m members ih =>
    rw [parseMembers, List.foldl_cons, ← parseMembers, ih, (parseMember_spec libs s m p).2,
      List.flatMap_cons, List.append_assoc]

theorem uri_parseMembers (members : List (String × Json)) (s : Bool × IndividualObj) :
    some (parseMembers libs members s).2.uri =
      (lastWritten (fun m : String × Json => if m.1 = "@" then m.2.asStr else none) members).or
        (some s.2.uri) :=
  foldl_lastWritten (fun s : Bool × IndividualObj => some s.2.uri) (parseMember libs)
    (uri_parseMember libs) members s

end Members

end Veda.Onto
