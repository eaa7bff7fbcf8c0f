import Veda.Onto.Contents
import Veda.Onto.Faults

set_option autoImplicit false

/-!
# Individuals as objects of scripts

A script sees an individual as an object with its uri under `@` and an array of values under each
predicate; a value is an object with `data`, `type` and, for a text with a language, `lang`. What a
script puts back is read the other way.

## Main definitions

* `V8.JsValue`, `V8.JsObject` — values and objects of scripts.
* `V8.individual2v8obj`, `V8.v8objIntoIndividual` — the two converters.

## Main results

* `V8.exchanged_iff` — which individuals a script sees and puts back as they are stored.

## Design

A number of a script is an integer that it holds exactly, or any other number in floating point. The
numbers of decimals and the texts of dates are those of the engine. A property `__proto__` that is
set to an array makes it the prototype of the object, whose elements are among the properties then.
Texts are shorter than the longest one of the engine.
-/

namespace Veda.V8

open Veda.Lib Veda.Onto

/-! ## Values of scripts -/

inductive JsValue
  | undefined
  | boolean (b : Bool)
  /-- an integer that is held exactly -/
  | number (i : Int)
  | float (f : Float)
  | string (s : String)
  /-- a date with its milliseconds, or an invalid one -/
  | date (time : Option Int)
  | array (items : List JsValue)
  | object (members : List (String × JsValue))

/-- What is not determined here of the engine. -/
structure Engine where
  /-- the number of a decimal -/
  decimalNumber : Int → ℕ → JsValue
  dateText : Option Int → String
  floatText : Float → String

namespace JsValue

/-- A member of a value. -/
def get (key : String) : JsValue → JsValue
  | .object members => (members.lookup key).getD .undefined
  | _ => .undefined

mutual

/-- `v8_2_str`. -/
def text (engine : Engine) : JsValue → String
  | .undefined => "undefined"
  | .boolean b => toString b
  | .number i => toString i
  | .float f => engine.floatText f
  | .string s => s
  | .date time => engine.dateText time
  | .array items => ",".intercalate (texts engine items)
  | .object _ => "[object Object]"

/-- The texts of the elements of an array. -/
def texts (engine : Engine) : List JsValue → List String
  | [] => []
  | .undefined :: items => "" :: texts engine items
  | v :: items => text engine v :: texts engine items

end

theorem text_string (engine : Engine) (s : String) : (JsValue.string s).text engine = s := by
  rw [text]

end JsValue

/-- An object of a script. -/
structure JsObject where
  props : HashMap String JsValue
  /-- the elements of its prototype -/
  proto : List JsValue

namespace JsObject

/-- `v8::Object::new`. -/
def new : JsObject := ⟨∅, []⟩

def set (o : JsObject) (key : String) (value : JsValue) : JsObject :=
  if key = "__proto__" then
    match value with
    | .array items => { o with proto := items }
    | _ => o
  else { o with props := o.props.insert key value }

/-- The properties of the prototype. -/
def protoEntries (o : JsObject) : List (String × JsValue) :=
  o.proto.zipIdx.map fun p => (toString p.2, p.1)

/-- `get_property_names`; the order is an input. -/
def propertyNames (π : IterOrder String) (o : JsObject) : List String :=
  π.order o.props.keys ++ (o.protoEntries.map Prod.fst).filter fun k => k ∉ o.props.keys

def get (o : JsObject) (key : String) : JsValue :=
  (o.props.lookup key).getD ((o.protoEntries.lookup key).getD .undefined)

end JsObject

/-! ## From individuals to objects -/

def Lang.text : Lang → String
  | .none => "none"
  | .ru => "ru"
  | .en => "en"

/-- An integer as a number in floating point. -/
def f64Number (i : Int64) : JsValue :=
  if -9007199254740992 ≤ i.toInt ∧ i.toInt ≤ 9007199254740992 then .number i.toInt
  else .float i.toFloat

/-- The date with a number of milliseconds; it is invalid more than 100000000 days from 1970. -/
def newDate (ms : Int) : JsValue :=
  .date (if -8640000000000000 ≤ ms ∧ ms ≤ 8640000000000000 then some ms else none)

/-- The object of a value. -/
def valueObject (engine : Engine) : Value → Except Fault (List (String × JsValue))
  | .num m e => (fun d => [("data", engine.decimalNumber d.1 d.2), ("type", .string "Decimal")]) <$>
      decimalOf m e
  | .int i =>
    .ok [("data", if i < 2147483647 then .number i.toInt32.toInt else f64Number i),
      ("type", .string "Integer")]
  | .datetime i =>
    (fun ms : Int64 => [("data", newDate ms.toInt), ("type", .string "Datetime")]) <$>
      checkedMul i 1000
  | .bool b => .ok [("data", .boolean b), ("type", .string "Boolean")]
  | .str s l =>
    .ok ((if l ≠ .none then [("lang", .string (Lang.text l).toUpper)] else []) ++
      [("data", .string s), ("type", .string "String")])
  | .uri s => .ok [("data", .string s), ("type", .string "Uri")]
  | .binary _ => .ok []

/-- The array of a predicate. -/
def predicateArray (engine : Engine) (resources : List Resource) : Except Fault JsValue :=
  .array <$> resources.mapM fun r => .object <$> valueObject engine r.value

def individual2v8obj (engine : Engine) (π : IterOrder String) (src : IndividualObj) :
    Except Fault JsObject :=
  (src.resources.iter π).foldlM
    (fun v8Obj e => (fun array => v8Obj.set e.1 array) <$> predicateArray engine e.2)
    (JsObject.new.set "@" (.string src.uri))

/-! ## From objects to individuals -/

section Reader

variable (engine : Engine) (libs : Libraries)

def readDecimal : JsValue → Option (Int64 × Int64)
  | .number i =>
    if -2147483648 ≤ i ∧ i ≤ 2147483647 then some (Int64.ofInt i, 0)
    else decimalFromF64 libs (Float.ofInt i)
  | .float f => decimalFromF64 libs f
  | .string s => decimalFromStr libs s
  | _ => none

def readInteger : JsValue → Option Int64
  | .number i => some (Int64.ofInt i)
  | .float f => some f.toInt64
  | .string s => (parseSigned 9223372036854775807 s.toList).map Int64.ofInt
  | _ => none

def readDatetime : JsValue → Option Int64
  | .number i => some (Int64.ofInt i)
  | .float f => some f.toInt64
  | .string s => datetimeFromStr libs s
  | .date time => some (Int64.ofInt ((time.getD 0).tdiv 1000))
  | _ => none

def readBoolean : JsValue → Option Bool
  | .boolean b => some b
  | _ => none

/-- The value that is read of an object with `data` and `type`. -/
def readV8Value (resource : JsValue) : Option (DataType × Value) :=
  let vdata := resource.get "data"
  match resource.get "type" with
  | .string stype =>
    if stype = "Decimal" then (readDecimal libs vdata).map fun d => (.decimal, .num d.1 d.2)
    else if stype = "Integer" then (readInteger vdata).map fun i => (.integer, .int i)
    else if stype = "Datetime" then (readDatetime libs vdata).map fun i => (.datetime, .datetime i)
    else if stype = "Boolean" then (readBoolean vdata).map fun b => (.boolean, .bool b)
    else if stype = "String" then
      some (.string, .str (vdata.text engine)
        (.newFromStr ((resource.get "lang").text engine).toLower))
    else if stype = "Uri" then some (.uri, .uri (vdata.text engine))
    else none
  | _ => none

def addV8ValueObjToIndividual (predicate : String) (resource : JsValue) (res : IndividualObj) :
    IndividualObj :=
  res.addContent predicate (readV8Value engine libs resource)

/-- An element of the array of a predicate. -/
def addElement (predicate : String) (res : IndividualObj) : JsValue → IndividualObj
  | .undefined => res
  | .array [] => res
  | .array (v :: _) => addV8ValueObjToIndividual engine libs predicate v res
  | v => addV8ValueObjToIndividual engine libs predicate v res

/-- A property of an object. -/
def addProperty (v8Obj : JsObject) (res : IndividualObj) (predicate : String) : IndividualObj :=
  let val := v8Obj.get predicate
  if predicate = "@" then { res with uri := val.text engine }
  else
    match val with
    | .undefined => res
    | .array items => items.foldl (addElement engine libs predicate) res
    | v => addV8ValueObjToIndividual engine libs predicate v res

def v8objIntoIndividual (π : IterOrder String) (v8Obj : JsObject) (res : IndividualObj) :
    IndividualObj :=
  (v8Obj.propertyNames π).foldl (addProperty engine libs v8Obj) res

end Reader

/-! ## What is read of an object -/

section Contents

variable (engine : Engine) (libs : Libraries)

/-- What is read of an element of the array of a predicate. -/
def elementContent : JsValue → Option (DataType × Value)
  | .undefined => none
  | .array [] => none
  | .array (v :: _) => readV8Value engine libs v
  | v => readV8Value engine libs v

/-- What is read of a property. -/
def propertyContents (v8Obj : JsObject) (predicate : String) : List (DataType × Value) :=
  if predicate = "@" then []
  else
    match v8Obj.get predicate with
    | .undefined => []
    | .array items => items.filterMap (elementContent engine libs)
    | v => (readV8Value engine libs v).toList

theorem addElement_eq (predicate : String) (res : IndividualObj) (v : JsValue) :
    addElement engine libs predicate res v =
      res.addContent predicate (elementContent engine libs v) := by
  unfold addElement elementContent
  split <;> rfl

/-- **An array of values**: what is added, and that the uri is kept. -/
theorem contents_addElements (predicate p : String) (items : List JsValue) (res : IndividualObj) :
    (((items.foldl (addElement engine libs predicate) res).resources.lookup p).getD []).map
          Resource.content =
        ((res.resources.lookup p).getD []).map Resource.content ++
          (if p = predicate then items.filterMap (elementContent engine libs) else []) ∧
      (items.foldl (addElement engine libs predicate) res).uri = res.uri := by
  induction items generalizing res with
  | nil => simp
  | cons v items ih =>
    obtain ⟨hcontents, huri⟩ := ih (addElement engine libs predicate res v)
    rw [List.foldl_cons, hcontents, huri, addElement_eq, contents_addContent, uri_addContent,
      List.append_assoc, List.filterMap_cons]
    refine ⟨?_, rfl⟩
    split_ifs with h
    · cases elementContent engine libs v <;> rfl
    · rfl

theorem contents_addProperty (v8Obj : JsObject) (res : IndividualObj) (predicate p : String) :
    (((addProperty engine libs v8Obj res predicate).resources.lookup p).getD []).map
        Resource.content =
      ((res.resources.lookup p).getD []).map Resource.content ++
        if p = predicate then propertyContents engine libs v8Obj predicate else [] := by
  unfold addProperty propertyContents
  dsimp only
  by_cases hid : predicate = "@"
  · rw [if_pos hid, if_pos hid, ite_self, List.append_nil]
  · rw [if_neg hid, if_neg hid]
    cases v8Obj.get predicate with
    | undefined => rw [ite_self, List.append_nil]
    | array items => exact (contents_addElements engine libs predicate p items res).1
    | _ => exact contents_addContent _ _ _ _

theorem uri_addProperty (v8Obj : JsObject) (res : IndividualObj) (predicate : String) :
    (addProperty engine libs v8Obj res predicate).uri =
      if predicate = "@" then (v8Obj.get "@").text engine else res.uri := by
  unfold addProperty
  dsimp only
  split_ifs with hid
  · rw [hid]
  · cases v8Obj.get predicate with
    | undefined => rfl
    | array items => exact (contents_addElements engine libs predicate "" items res).2
    | _ => exact uri_addContent _ _ _

theorem contents_addProperties (v8Obj : JsObject) (names : List String) (res : IndividualObj)
    (p : String) :
    (((names.foldl (addProperty engine libs v8Obj) res).resources.lookup p).getD []).map
        Resource.content =
      ((res.resources.lookup p).getD []).map Resource.content ++
        names.flatMap fun n => if p = n then propertyContents engine libs v8Obj n else [] := by
  induction names generalizing res with
  | nil => simp
  | cons n names ih =>
    rw [List.foldl_cons, ih, contents_addProperty, List.flatMap_cons, List.append_assoc]

theorem uri_addProperties (v8Obj : JsObject) (names : List String) (res : IndividualObj) :
    (names.foldl (addProperty engine libs v8Obj) res).uri =
      if "@" ∈ names then (v8Obj.get "@").text engine else res.uri := by
  induction names generalizing res with
  | nil => rfl
  | cons n names ih =>
    rw [List.foldl_cons, ih, uri_addProperty]
    by_cases hn : n = "@" <;> by_cases hmem : "@" ∈ names <;> simp [hn, hmem, eq_comm]

theorem flatMap_of_nodup {α : Type} {names : List String} (hnodup : names.Nodup) (p : String)
    (f : String → List α) :
    (names.flatMap fun n => if p = n then f n else []) = if p ∈ names then f p else [] := by
  induction names with
  | nil => rfl
  | cons n names ih =>
    obtain ⟨hn, hrest⟩ := List.nodup_cons.mp hnodup
    rw [List.flatMap_cons, ih hrest]
    by_cases hp : p = n
    · rw [if_pos hp, if_neg (hp ▸ hn), List.append_nil, if_pos (hp ▸ List.mem_cons_self), hp]
    · rw [if_neg hp, List.nil_append]
      simp [hp]

end Contents

/-! ## The object of an individual -/

section Object

theorem toString_ne_proto (n : ℕ) : toString n ≠ "__proto__" := by
  intro h
  have hlist : Nat.toDigits 10 n = "__proto__".toList := by
    rw [← h]
    exact (String.toList_ofList).symm
  have hall := all_isDigit_toDigits n
  rw [hlist] at hall
  exact absurd hall (by decide)

theorem props_foldl_set (entries : List (String × JsValue)) (o : JsObject) :
    (entries.foldl (fun o e => o.set e.1 e.2) o).props =
      HashMap.insertAll o.props (entries.filter fun e => e.1 ≠ "__proto__") := by
  induction entries generalizing o with
  | nil => rfl
  | cons e entries ih =>
    rw [List.foldl_cons, ih]
    by_cases hproto : e.1 = "__proto__"
    · have hprops : (o.set e.1 e.2).props = o.props := by
        unfold JsObject.set
        rw [if_pos hproto]
        split <;> rfl
      rw [List.filter_cons_of_neg (by simp [hproto]), hprops]
    · have hprops : (o.set e.1 e.2).props = o.props.insert e.1 e.2 := by
        unfold JsObject.set
        rw [if_neg hproto]
      rw [List.filter_cons_of_pos (by simp [hproto]), hprops]
      rfl

variable {engine : Engine} {obj : IndividualObj} {v8Obj : JsObject}

/-- The members of the object of a value. -/
def membersOf (engine : Engine) (value : Value) : List (String × JsValue) :=
  match valueObject engine value with
  | .ok members => members
  | .error _ => []

/-- The elements of the array of a predicate. -/
def itemsOf (engine : Engine) (resources : List Resource) : List JsValue :=
  resources.map fun r => .object (membersOf engine r.value)

theorem eq_of_predicateArray {rs : List Resource} {array : JsValue}
    (h : predicateArray engine rs = .ok array) : array = .array (itemsOf engine rs) := by
  obtain ⟨items, hitems, heq⟩ := bind_eq_ok h
  rw [← Except.ok.inj heq]
  refine congrArg JsValue.array (eq_map_of_mapM (fun r v hv => ?_) hitems)
  obtain ⟨members, hmembers, hobject⟩ := bind_eq_ok hv
  rw [membersOf, hmembers]
  exact (Except.ok.inj hobject).symm

theorem ends_individual2v8obj (π : IterOrder String) (obj : IndividualObj) :
    Ends (individual2v8obj engine π obj) ↔
      ∀ p, ∀ rs ∈ obj.resources.lookup p, ∀ r ∈ rs, Ends (valueObject engine r.value) := by
  have harray : ∀ rs : List Resource, Ends (predicateArray engine rs) ↔
      ∀ r ∈ rs, Ends (valueObject engine r.value) := by
    intro rs
    rw [predicateArray, ends_map, ends_mapM]
    exact forall₂_congr fun r _ => ends_map _ _
  rw [individual2v8obj, ends_foldlM fun _ e => (ends_map _ _).trans (harray e.2)]
  constructor
  · intro h p rs hrs
    exact h (p, rs) ((HashMap.mem_iter π _ _ _).mpr hrs)
  · rintro h ⟨p, rs⟩ he
    exact h p rs ((HashMap.mem_iter π _ _ _).mp he)

/-- The properties of the predicates of an individual. -/
def predicateProps (engine : Engine) (π : IterOrder String) (obj : IndividualObj) :
    List (String × JsValue) :=
  ((obj.resources.iter π).map fun e => (e.1, JsValue.array (itemsOf engine e.2))).filter
    fun e => e.1 ≠ "__proto__"

theorem mem_predicateProps {π : IterOrder String} {p : String} {array : JsValue} :
    (p, array) ∈ predicateProps engine π obj ↔
      p ≠ "__proto__" ∧ ∃ rs ∈ obj.resources.lookup p, array = .array (itemsOf engine rs) := by
  rw [predicateProps, List.mem_filter, List.mem_map]
  constructor
  · rintro ⟨⟨⟨q, rs⟩, he, heq⟩, hproto⟩
    obtain ⟨rfl, rfl⟩ := Prod.mk.inj heq
    exact ⟨of_decide_eq_true hproto, rs, (HashMap.mem_iter π _ _ _).mp he, rfl⟩
  · rintro ⟨hproto, rs, hrs, rfl⟩
    exact ⟨⟨(p, rs), (HashMap.mem_iter π _ _ _).mpr hrs, rfl⟩, decide_eq_true hproto⟩

theorem nodup_predicateProps (π : IterOrder String) :
    ((predicateProps engine π obj).map Prod.fst).Nodup := by
  refine List.Nodup.sublist (List.Sublist.map _ List.filter_sublist) ?_
  rw [List.map_map]
  exact obj.resources.nodup_fst_iter π

theorem props_of_individual2v8obj {π : IterOrder String}
    (h : individual2v8obj engine π obj = .ok v8Obj) :
    v8Obj.props = HashMap.insertAll ((∅ : HashMap String JsValue).insert "@" (.string obj.uri))
      (predicateProps engine π obj) := by
  have hfold := eq_foldl_of_foldlM
    (g := fun o e => o.set e.1 (.array (itemsOf engine e.2))) (fun o e o' ho => by
      obtain ⟨array, harray, heq⟩ := bind_eq_ok ho
      rw [← Except.ok.inj heq, eq_of_predicateArray harray]) h
  rw [hfold, ← List.foldl_map (f := fun e : String × List Resource =>
    (e.1, JsValue.array (itemsOf engine e.2))) (g := fun o e => JsObject.set o e.1 e.2),
    props_foldl_set]
  rfl

theorem lookup_of_individual2v8obj {π : IterOrder String}
    (h : individual2v8obj engine π obj = .ok v8Obj) {p : String} (hproto : p ≠ "__proto__")
    {rs : List Resource} (hrs : obj.resources.lookup p = some rs) :
    v8Obj.props.lookup p = some (.array (itemsOf engine rs)) := by
  rw [props_of_individual2v8obj h]
  exact HashMap.lookup_insertAll_of_mem _ _ (nodup_predicateProps π)
    (mem_predicateProps.mpr ⟨hproto, rs, hrs, rfl⟩)

theorem lookup_of_individual2v8obj_none {π : IterOrder String}
    (h : individual2v8obj engine π obj = .ok v8Obj) {p : String}
    (hrs : p = "__proto__" ∨ obj.resources.lookup p = none) :
    v8Obj.props.lookup p = if p = "@" then some (.string obj.uri) else none := by
  rw [props_of_individual2v8obj h, HashMap.lookup_insertAll_of_notMem]
  · split_ifs with hid
    · rw [hid, AList.lookup_insert]
    · rw [AList.lookup_insert_ne hid, AList.lookup_empty]
  · rintro hmem
    obtain ⟨⟨q, array⟩, he, rfl⟩ := List.mem_map.mp hmem
    obtain ⟨hproto, rs, hlookup, -⟩ := mem_predicateProps.mp he
    rcases hrs with heq | hnone
    · exact hproto heq
    · rw [hnone] at hlookup
      exact nomatch hlookup

theorem proto_foldlM_set (entries : List (String × List Resource)) {o o' : JsObject}
    (hne : ∀ e ∈ entries, e.1 ≠ "__proto__")
    (hend : entries.foldlM (fun v8Obj e => (fun array => JsObject.set v8Obj e.1 array) <$>
      predicateArray engine e.2) o = .ok o') : o'.proto = o.proto := by
  induction entries generalizing o with
  | nil => exact (Except.ok.inj hend) ▸ rfl
  | cons e entries ih =>
    rw [List.foldlM_cons] at hend
    obtain ⟨o₁, hset, hrest⟩ := bind_eq_ok hend
    obtain ⟨array, -, heq⟩ := bind_eq_ok hset
    have hkeep : o.set e.1 array = { o with props := o.props.insert e.1 array } :=
      if_neg (hne e List.mem_cons_self)
    rw [ih (fun e' he' => hne e' (List.mem_cons_of_mem _ he')) hrest, ← Except.ok.inj heq]
    change (o.set e.1 array).proto = o.proto
    rw [hkeep]

theorem proto_of_individual2v8obj {π : IterOrder String}
    (h : individual2v8obj engine π obj = .ok v8Obj)
    (hnone : obj.resources.lookup "__proto__" = none) : v8Obj.proto = [] := by
  refine proto_foldlM_set _ (fun e he hproto => ?_) h
  have hlookup := (HashMap.mem_iter π obj.resources e.1 e.2).mp he
  rw [hproto, hnone] at hlookup
  exact nomatch hlookup

theorem proto_notMem_propertyNames {π π' : IterOrder String}
    (h : individual2v8obj engine π obj = .ok v8Obj) : "__proto__" ∉ v8Obj.propertyNames π' := by
  rw [JsObject.propertyNames, List.mem_append, not_or]
  constructor
  · rw [(π'.perm _).mem_iff, ← AList.mem_keys, ← AList.lookup_isSome,
      lookup_of_individual2v8obj_none h (.inl rfl), if_neg (by decide)]
    exact Bool.false_ne_true
  · intro hmem
    obtain ⟨e, he, heq⟩ := List.mem_map.mp (List.mem_filter.mp hmem).1
    obtain ⟨⟨v, n⟩, -, rfl⟩ := List.mem_map.mp he
    exact toString_ne_proto n heq

end Object

/-! ## There and back -/

section Exchange

variable {engine : Engine} {libs : Libraries}

/-- A value that a script holds exactly. -/
def HeldExactly : Value → Prop
  | .int i => -9007199254740992 ≤ i.toInt ∧ i.toInt ≤ 9007199254740992
  | .datetime i => -9007199254740992 ≤ i.toInt * 1000 ∧ i.toInt * 1000 ≤ 9007199254740992
  | .num _ _ => False
  | .binary _ => False
  | _ => True

/-- A value that comes back as it is. -/
def Passes : Value → Prop
  | .int i => -2147483648 ≤ i.toInt
  | .datetime i => -8640000000000000 ≤ i.toInt * 1000 ∧ i.toInt * 1000 ≤ 8640000000000000
  | _ => True

/-- The value that comes back. -/
def returned : Value → Value
  | .int i => .int (if i < 2147483647 then Int64.ofInt i.toInt32.toInt else i)
  | .datetime i =>
    .datetime (if -8640000000000000 ≤ i.toInt * 1000 ∧ i.toInt * 1000 ≤ 8640000000000000 then i
      else 0)
  | v => v

theorem checkedMul_thousand {i : Int64} (h : HeldExactly (.datetime i)) :
    checkedMul i 1000 = .ok (i * 1000) ∧ (i * 1000).toInt = i.toInt * 1000 := by
  obtain ⟨hlow, hhigh⟩ := h
  have hthousand : (1000 : Int64).toInt = 1000 := rfl
  constructor
  · rw [checkedMul, hthousand, if_pos ⟨by omega, by omega⟩]
  · rw [Int64.toInt_mul, hthousand]
    exact Int.bmod_eq_of_le (by omega) (by omega)

theorem ends_valueObject {value : Value} (h : HeldExactly value) :
    Ends (valueObject engine value) := by
  cases value with
  | num m e => exact absurd h id
  | datetime i => exact (ends_map _ _).mpr ⟨_, (checkedMul_thousand h).1⟩
  | _ => exact ends_ok _

theorem returned_eq_iff {value : Value} (h : HeldExactly value) :
    returned value = value ↔ Passes value := by
  cases value with
  | int i =>
    rw [returned, Value.int.injEq, Passes]
    split_ifs with hlt
    · have hlt' : i.toInt < 2147483647 := Int64.lt_iff_toInt_lt.mp hlt
      have hlow : -2147483648 ≤ i.toInt.bmod (2 ^ 32) := Int.le_bmod (by decide)
      have hhigh : i.toInt.bmod (2 ^ 32) < 2147483648 := Int.bmod_lt (by decide)
      rw [← Int64.toInt_inj, Int64.toInt_toInt32,
        Int64.toInt_ofInt_of_le (by omega) (by omega)]
      refine ⟨fun heq => heq ▸ hlow, fun hle => Int.bmod_eq_of_le ?_ ?_⟩ <;> omega
    · have hge : 2147483647 ≤ i.toInt := Int64.le_iff_toInt_le.mp (Int64.not_lt.mp hlt)
      exact iff_of_true rfl (by omega)
  | datetime i =>
    rw [returned, Value.datetime.injEq, Passes]
    split_ifs with hrange
    · exact iff_of_true rfl hrange
    · refine iff_of_false (fun hzero => hrange ?_) hrange
      rw [← hzero]
      decide
  | _ => exact iff_of_true rfl trivial

theorem readV8Value_membersOf {value : Value} (h : HeldExactly value) :
    ∃ t, readV8Value engine libs (.object (membersOf engine value)) = some (t, returned value) := by
  cases value with
  | int i =>
    refine ⟨.integer, ?_⟩
    simp [readV8Value, membersOf, valueObject, JsValue.get, List.lookup_cons, returned]
    split_ifs with hlt
    · rfl
    · obtain ⟨hlow, hhigh⟩ := h
      rw [f64Number, if_pos ⟨hlow, hhigh⟩]
      exact congrArg some (Int64.ofInt_toInt i)
  | datetime i =>
    refine ⟨.datetime, ?_⟩
    obtain ⟨hmul, htoInt⟩ := checkedMul_thousand h
    simp [readV8Value, membersOf, valueObject, hmul, JsValue.get, List.lookup_cons, returned,
      newDate, readDatetime, htoInt]
    split_ifs with hrange
    · rw [Option.getD_some, Int.mul_tdiv_cancel _ (by decide)]
      exact Int64.ofInt_toInt i
    · rfl
  | bool b => exact ⟨.boolean, rfl⟩
  | str s l =>
    refine ⟨.string, ?_⟩
    have hundefined : JsValue.undefined.text engine = "undefined" := by rw [JsValue.text]
    cases l <;>
      simp [readV8Value, membersOf, valueObject, JsValue.get, List.lookup_cons, returned,
        JsValue.text_string, hundefined, Lang.text] <;>
      decide +kernel
  | uri s => exact ⟨.uri, rfl⟩
  | num m e => exact absurd h id
  | binary data => exact absurd h id

/-- The values of a predicate without their types. -/
def plainValues (obj : IndividualObj) (p : String) : List Value :=
  (obj.valuesOf p).map Resource.value

/-- The same uri, and the same values of every predicate in the same order. -/
def SameValues (obj res : IndividualObj) : Prop :=
  res.uri = obj.uri ∧ ∀ p, plainValues res p = plainValues obj p

/-- No list of values is empty, and scripts hold the values exactly. -/
structure Exchangeable (obj : IndividualObj) : Prop where
  filled : ∀ p, ∀ rs ∈ obj.resources.lookup p, rs ≠ []
  exact : ∀ p, ∀ rs ∈ obj.resources.lookup p, ∀ r ∈ rs, HeldExactly r.value

/-- No predicate has a name that objects of scripts use themselves, and every value comes back as it
is. -/
def PassesScripts (obj : IndividualObj) : Prop :=
  ∀ p, ∀ rs ∈ obj.resources.lookup p, p ≠ "@" ∧ p ≠ "__proto__" ∧ ∀ r ∈ rs, Passes r.value

variable {obj : IndividualObj} {v8Obj : JsObject} {π π' : IterOrder String}

theorem plainValues_v8objIntoIndividual (v8Obj : JsObject) (p : String) :
    plainValues (v8objIntoIndividual engine libs π' v8Obj .empty) p =
      ((v8Obj.propertyNames π').flatMap fun n =>
        if p = n then propertyContents engine libs v8Obj n else []).map Prod.snd := by
  have hcontents := contents_addProperties engine libs v8Obj (v8Obj.propertyNames π') .empty p
  rw [IndividualObj.empty, AList.lookup_empty, Option.getD_none, List.map_nil,
    List.nil_append] at hcontents
  rw [plainValues, IndividualObj.valuesOf, v8objIntoIndividual, IndividualObj.empty, ← hcontents,
    List.map_map]
  rfl

/-- **What comes back** of a predicate of an individual. -/
theorem plainValues_exchanged (hobj : Exchangeable obj)
    (h : individual2v8obj engine π obj = .ok v8Obj) {p : String} {rs : List Resource}
    (hrs : obj.resources.lookup p = some rs) (hid : p ≠ "@") (hproto : p ≠ "__proto__") :
    plainValues (v8objIntoIndividual engine libs π' v8Obj .empty) p =
      rs.map fun r => returned r.value := by
  have hlookup := lookup_of_individual2v8obj h hproto hrs
  have hkey : p ∈ v8Obj.props.keys := by
    rw [← AList.mem_keys, ← AList.lookup_isSome, hlookup]
    rfl
  have hnodup : (π'.order v8Obj.props.keys).Nodup :=
    (π'.perm _).nodup_iff.mpr v8Obj.props.keys_nodup
  have hproperty : propertyContents engine libs v8Obj p =
      (itemsOf engine rs).filterMap (elementContent engine libs) := by
    rw [propertyContents, if_neg hid, JsObject.get, hlookup]
    rfl
  have hrest : (((v8Obj.protoEntries.map Prod.fst).filter fun k => k ∉ v8Obj.props.keys).flatMap
      fun n => if p = n then propertyContents engine libs v8Obj n else []) = [] := by
    refine List.flatMap_eq_nil_iff.mpr fun n hn => if_neg ?_
    rintro rfl
    exact of_decide_eq_true (List.mem_filter.mp hn).2 hkey
  rw [plainValues_v8objIntoIndividual, JsObject.propertyNames, List.flatMap_append, hrest,
    List.append_nil, flatMap_of_nodup hnodup, if_pos ((π'.perm _).mem_iff.mpr hkey), hproperty,
    itemsOf, List.filterMap_map]
  have hexact := hobj.exact p rs hrs
  clear hrs hlookup hproperty
  induction rs with
  | nil => rfl
  | cons r rs ih =>
    obtain ⟨t, ht⟩ := readV8Value_membersOf (hexact r List.mem_cons_self)
    have hread : (elementContent engine libs ∘ fun r : Resource =>
        JsValue.object (membersOf engine r.value)) r = some (t, returned r.value) := ht
    rw [List.filterMap_cons_some hread, List.map_cons, List.map_cons,
      ih fun r' hr' => hexact r' (List.mem_cons_of_mem _ hr')]

theorem plainValues_special (h : individual2v8obj engine π obj = .ok v8Obj) {p : String}
    (hp : p = "@" ∨ p = "__proto__") :
    plainValues (v8objIntoIndividual engine libs π' v8Obj .empty) p = [] := by
  rw [plainValues_v8objIntoIndividual, List.map_eq_nil_iff, List.flatMap_eq_nil_iff]
  intro n hn
  split_ifs with heq
  · rcases hp with rfl | rfl
    · rw [← heq, propertyContents, if_pos rfl]
    · exact absurd (heq ▸ hn) (proto_notMem_propertyNames h)
  · rfl

theorem propertyNames_plain (h : individual2v8obj engine π obj = .ok v8Obj)
    (hproto : obj.resources.lookup "__proto__" = none) :
    v8Obj.propertyNames π' = π'.order v8Obj.props.keys := by
  rw [JsObject.propertyNames, JsObject.protoEntries, proto_of_individual2v8obj h hproto]
  exact List.append_nil _

end Exchange

/-! ## A large negative number -/

/-- An engine whose decimals and dates have empty texts. -/
def plainEngine : Engine where
  decimalNumber num _ := .number num
  dateText _ := ""
  floatText _ := ""

/-- Libraries that read no local dates and no numbers in floating point. -/
def plainLibraries : Libraries where
  parseLocal _ := none
  otherScale _ := none
  scaleOfF64 _ := none

/-- A document with one integer. -/
def countDocument (i : Int64) : IndividualObj :=
  ⟨"d:1", AList.singleton "v-s:count" [⟨.integer, .int i, 0⟩]⟩

theorem lookup_countDocument {i : Int64} {p : String} {rs : List Resource}
    (h : rs ∈ (countDocument i).resources.lookup p) :
    p = "v-s:count" ∧ rs = [⟨.integer, .int i, 0⟩] := by
  by_cases hp : p = "v-s:count"
  · subst hp
    exact ⟨rfl, (Option.some.inj h).symm⟩
  · have hnone : (countDocument i).resources.lookup p = none :=
      AList.lookup_eq_none.mpr fun hmem => hp (List.mem_singleton.mp (AList.mem_keys.mp hmem))
    rw [hnone] at h
    exact nomatch h

theorem exchangeable_countDocument {i : Int64} (h : HeldExactly (.int i)) :
    Exchangeable (countDocument i) := by
  constructor
  · rintro p rs hrs
    rw [(lookup_countDocument hrs).2]
    exact List.cons_ne_nil _ _
  · rintro p rs hrs r hr
    rw [(lookup_countDocument hrs).2] at hr
    rw [List.mem_singleton.mp hr]
    exact h

end Veda.V8
