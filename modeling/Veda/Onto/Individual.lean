import Veda.Lib.HashMap

set_option autoImplicit false

/-!
# Individuals

The data model of the `v-onto` crate: an individual is a uri with a list of typed values for
each predicate. This file has the values, the mutators that append or replace them and what
each getter makes of the list it finds; the getters that decode a stored record on demand are
built from these in `Onto.Lazy`.

## Main definitions

* `Onto.Resource`, `Onto.IndividualObj` — values and individuals.
* `Onto.IndividualObj.addValue`, `Onto.IndividualObj.setValue` — the common form of
  the mutators.
* `Onto.Getter` — what a getter makes of a value list.
* `Onto.IndividualObj.read` — a getter on a fully decoded individual.

## Design

The getters that look at `v[0]` panic on an empty list, which is the outcome
`Panic.indexOutOfBounds` of the model. A getter visits its predicate at most twice; on a list
in which it finds nothing it either answers or goes on, and `Getter.inspect` keeps the two
apart.
-/

namespace Veda.Onto

open Veda.Lib

inductive DataType
  | uri | string | integer | datetime | decimal | boolean | binary
  deriving DecidableEq, Repr

/-- The numeric value of a data type (`as u8`). -/
def DataType.toU8 : DataType → UInt8
  | .uri => 1
  | .string => 2
  | .integer => 4
  | .datetime => 8
  | .decimal => 32
  | .boolean => 64
  | .binary => 128

inductive Lang
  | none | ru | en
  deriving DecidableEq, Repr

/-- The numeric value of a language (`as u8`). -/
def Lang.toU8 : Lang → UInt8
  | .none => 0
  | .ru => 1
  | .en => 2

def Lang.newFromI64 (l : Int64) : Lang :=
  if l = 1 then .ru else if l = 2 then .en else .none

inductive Value
  | int (i : Int64)
  | str (s : String) (l : Lang)
  | uri (s : String)
  | bool (b : Bool)
  | num (mantissa exponent : Int64)
  | binary (data : List UInt8)
  | datetime (i : Int64)
  deriving DecidableEq

/-- A typed value of a predicate. -/
structure Resource where
  rtype : DataType
  value : Value
  order : UInt16
  deriving DecidableEq

namespace Resource

def getBinary (r : Resource) : List UInt8 :=
  match r.value with
  | .binary v => v
  | _ => []

def getStr (r : Resource) : String :=
  match r.value with
  | .str s _ => s
  | _ => ""

def getUri (r : Resource) : String :=
  match r.value with
  | .uri s => s
  | _ => ""

def getLang (r : Resource) : Lang :=
  match r.value with
  | .str _ l => l
  | _ => .none

def getInt (r : Resource) : Int64 :=
  match r.value with
  | .int t => t
  | _ => 0

def getDatetime (r : Resource) : Int64 :=
  match r.value with
  | .datetime t => t
  | _ => 0

def getBool (r : Resource) : Bool :=
  match r.value with
  | .bool t => t
  | _ => false

def getNum (r : Resource) : Int64 × Int64 :=
  match r.value with
  | .num m e => (m, e)
  | _ => (0, 0)

def getFloat (r : Resource) : Float :=
  match r.value with
  | .num m e => m.toFloat * Float.pow 10 e.toFloat
  | _ => 0

/-- The type and the value of a resource; its order is ignored when resources are compared. -/
def content (r : Resource) : DataType × Value := (r.rtype, r.value)

end Resource

/-- An individual: its uri and the values of its predicates. -/
structure IndividualObj where
  uri : String
  resources : HashMap String (List Resource)
  deriving DecidableEq

namespace IndividualObj

/-- The individual without uri and predicates (`IndividualObj::default`). -/
def empty : IndividualObj := ⟨"", ∅⟩

/-- Append a value to a predicate; its order is its place in the list. -/
def addValue (obj : IndividualObj) (predicate : String) (rtype : DataType) (value : Value) :
    IndividualObj :=
  let values := (obj.resources.lookup predicate).getD []
  { obj with
    resources := obj.resources.insert predicate
      (values ++ [⟨rtype, value, UInt16.ofNat values.length⟩]) }

/-- Make a value the only one of a predicate. -/
def setValue (obj : IndividualObj) (predicate : String) (rtype : DataType) (value : Value) :
    IndividualObj :=
  { obj with resources := obj.resources.insert predicate [⟨rtype, value, 0⟩] }

def addBool (obj : IndividualObj) (predicate : String) (b : Bool) : IndividualObj :=
  obj.addValue predicate .boolean (.bool b)

def setBool (obj : IndividualObj) (predicate : String) (b : Bool) : IndividualObj :=
  obj.setValue predicate .boolean (.bool b)

def addDatetime (obj : IndividualObj) (predicate : String) (i : Int64) : IndividualObj :=
  obj.addValue predicate .datetime (.datetime i)

def addBinary (obj : IndividualObj) (predicate : String) (v : List UInt8) : IndividualObj :=
  obj.addValue predicate .binary (.binary v)

def addInteger (obj : IndividualObj) (predicate : String) (i : Int64) : IndividualObj :=
  obj.addValue predicate .integer (.int i)

def setInteger (obj : IndividualObj) (predicate : String) (i : Int64) : IndividualObj :=
  obj.setValue predicate .integer (.int i)

def addDecimalD (obj : IndividualObj) (predicate : String) (mantissa exponent : Int64) :
    IndividualObj :=
  obj.addValue predicate .decimal (.num mantissa exponent)

def addUri (obj : IndividualObj) (predicate s : String) : IndividualObj :=
  obj.addValue predicate .uri (.uri s)

def addString (obj : IndividualObj) (predicate s : String) (lang : Lang) : IndividualObj :=
  obj.addValue predicate .string (.str s lang)

def setBinary (obj : IndividualObj) (predicate : String) (v : List UInt8) : IndividualObj :=
  obj.setValue predicate .binary (.binary v)

def setUri (obj : IndividualObj) (predicate s : String) : IndividualObj :=
  obj.setValue predicate .uri (.uri s)

def setString (obj : IndividualObj) (predicate s : String) (lang : Lang) : IndividualObj :=
  obj.setValue predicate .string (.str s lang)

@[simp] theorem uri_setValue (obj : IndividualObj) (predicate : String) (rtype : DataType)
    (value : Value) : (obj.setValue predicate rtype value).uri = obj.uri := rfl

@[simp] theorem uri_addValue (obj : IndividualObj) (predicate : String) (rtype : DataType)
    (value : Value) : (obj.addValue predicate rtype value).uri = obj.uri := rfl

theorem lookup_setValue (obj : IndividualObj) (predicate : String) (rtype : DataType)
    (value : Value) (p : String) :
    (obj.setValue predicate rtype value).resources.lookup p =
      if p = predicate then some [⟨rtype, value, 0⟩] else obj.resources.lookup p := by
  split_ifs with h
  · rw [h, setValue, AList.lookup_insert]
  · rw [setValue, AList.lookup_insert_ne h]

theorem lookup_addValue (obj : IndividualObj) (predicate : String) (rtype : DataType)
    (value : Value) (p : String) :
    (obj.addValue predicate rtype value).resources.lookup p =
      if p = predicate then
        some ((obj.resources.lookup predicate).getD [] ++
          [⟨rtype, value, UInt16.ofNat ((obj.resources.lookup predicate).getD []).length⟩])
      else obj.resources.lookup p := by
  split_ifs with h
  · rw [h, addValue, AList.lookup_insert]
  · rw [addValue, AList.lookup_insert_ne h]

def isEmpty (obj : IndividualObj) : Bool := obj.resources.keys.isEmpty

/-- The values with those of `b` that are not among them, one after another. -/
def pushUnique (values b : List Resource) : List Resource :=
  b.foldl (fun values el =>
    if values.any fun v => v.content = el.content then values else values ++ [el]) values

def addUniqueResources (obj : IndividualObj) (predicate : String) (b : List Resource) :
    IndividualObj :=
  { obj with
    resources := obj.resources.insert predicate
      (pushUnique ((obj.resources.lookup predicate).getD []) b) }

def setResources (obj : IndividualObj) (predicate : String) (b : List Resource) : IndividualObj :=
  { obj with resources := obj.resources.insert predicate b }

def excludeAndSetResources (obj : IndividualObj) (predicate : String) (exclude : List Resource) :
    IndividualObj :=
  let newValues := ((obj.resources.lookup predicate).getD []).filter fun el =>
    !exclude.any fun v => v.content = el.content
  if newValues.isEmpty then { obj with resources := obj.resources.erase predicate }
  else { obj with resources := obj.resources.insert predicate newValues }

end IndividualObj

/-! ## Getters -/

/-- The ways in which a getter can panic. -/
inductive Panic
  | indexOutOfBounds
  deriving DecidableEq, Repr

/-- What a getter makes of the value list of its predicate. -/
structure Getter (ρ : Type) where
  /-- the answer for a list, or `none` to visit the predicate again -/
  inspect : List Resource → Except Panic (Option ρ)
  /-- the answer when nothing was found -/
  notFound : ρ

/-- The value at `v[0]`. -/
def firstValue : List Resource → Except Panic Value
  | [] => .error .indexOutOfBounds
  | r :: _ => .ok r.value

/-- The text of a string or uri. -/
def literalOf : Value → String
  | .str s _ => s
  | .uri s => s
  | _ => ""

/-- The value is a string or uri with one of the given texts. -/
def isAnyOf (values : List String) : Value → Bool
  | .str s _ => s ∈ values
  | .uri s => s ∈ values
  | _ => false

namespace Getter

def isExists : Getter Bool where
  inspect v := .ok (some !v.isEmpty)
  notFound := false

def anyExists (values : List String) : Getter Bool where
  inspect v := .ok (if v.any fun el => isAnyOf values el.value then some true else none)
  notFound := false

def isExistsBool (value : Bool) : Getter Bool where
  inspect v := .ok (if v.any fun el => el.value = .bool value then some true else none)
  notFound := false

def getResources : Getter (Option (List Resource)) where
  inspect v := .ok (some (some v))
  notFound := none

def getLiterals : Getter (Option (List String)) where
  inspect v := .ok (some (some (v.map fun el => literalOf el.value)))
  notFound := none

def getFirstLiteral : Getter (Option String) where
  inspect v := do
    match ← firstValue v with
    | .str s _ => return some (some s)
    | .uri s => return some (some s)
    | _ => return some none
  notFound := none

/-- The loop of `getFirstLiteralWithLang` over the values. -/
def firstWithLang (lang : List Lang) : List Resource → Option (Option String)
  | [] => none
  | r :: v =>
    match r.value with
    | .str s l => if l ∈ lang then some (some s) else firstWithLang lang v
    | .uri s => some (some s)
    | _ => some none

def getFirstLiteralWithLang (lang : List Lang) : Getter (Option String) where
  inspect v := .ok (firstWithLang lang v)
  notFound := none

def getFirstBool : Getter (Option Bool) where
  inspect v := do
    match ← firstValue v with
    | .bool s => return some (some s)
    | _ => return some none
  notFound := none

def getFirstBinobj : Getter (Option (List UInt8)) where
  inspect v := do
    match ← firstValue v with
    | .binary s => return some (some s)
    | _ => return some none
  notFound := none

def getFirstInteger : Getter (Option Int64) where
  inspect v := do
    match ← firstValue v with
    | .int i => return some (some i)
    | _ => return none
  notFound := none

def getFirstNumber : Getter (Option (Int64 × Int64)) where
  inspect v := do
    match ← firstValue v with
    | .num m e => return some (some (m, e))
    | _ => return none
  notFound := none

def getFirstDatetime : Getter (Option Int64) where
  inspect v := do
    match ← firstValue v with
    | .datetime i => return some (some i)
    | _ => return none
  notFound := none

def getFirstFloat : Getter (Option Float) where
  inspect v :=
    match v with
    | [] => .error .indexOutOfBounds
    | r :: _ => .ok (some (some r.getFloat))
  notFound := none

end Getter

/-- A getter on a decoded individual: a second visit finds what the first one found. -/
def IndividualObj.read {ρ : Type} (obj : IndividualObj) (g : Getter ρ) (predicate : String) :
    Except Panic ρ :=
  match obj.resources.lookup predicate with
  | some v => (g.inspect v).map fun answer => answer.getD g.notFound
  | none => .ok g.notFound

end Veda.Onto
