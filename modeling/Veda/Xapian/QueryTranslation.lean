import Veda.Xapian.Key2Slot
import Veda.Xapian.ResultLoop
import Veda.Xapian.Vql
import Veda.Onto.Hierarchy

set_option autoImplicit false

/-!
# Queries of the search engine

`transform_vql_to_xapian` translates the tree of a query string into a query of the search engine.
A comparison with `<` or `>` has no query of its own: its bound is handed upwards, beside the query,
and only an `&&` of two such comparisons makes a query of it, with the slot of the right field.

## Main definitions

* `Xapian.SearchEngine` — the queries of the search engine and what they match.
* `Xapian.getTokenType`, `Xapian.isGoodToken` — what an operand looks like.
* `Xapian.Translator.equalityQuery` — the query of an equality.
* `Xapian.Translator.transform` — the translation.
* `Xapian.Conditions` — trees of equalities and bounds, with what they ask for.
* `Xapian.Translator.Paired` — the condition on a tree.

## Main results

* `Xapian.Translator.translated_of_paired` — when no condition is lost.

## Design

Floating point numbers are any type with an order. The parser of the search engine is any function
of its text, flags and prefix.
-/

namespace Veda.Xapian

open Veda.Lib (HashMap IterOrder utf8 parseSigned)
open Veda.Onto (Onto)

/-! ## The search engine -/

/-- The flags of the query parser. -/
inductive FeatureFlag
  | default
  | wildcard
  | phrase
  | lovehate
  | pureNot
  deriving DecidableEq

/-- The operators that join two queries. -/
inductive XapianOp
  | and
  | or
  deriving DecidableEq

/-- Queries, documents with a value in some of their slots, and which documents a query matches. A
range matches the documents with a value in it. -/
structure SearchEngine (F : Type) [LE F] where
  Query : Type
  Doc : Type
  new : Query
  isEmpty : Query → Bool
  newRange : ℕ → F → F → Query
  newDoubleWithPrefix : String → F → Query
  addRight : XapianOp → Query → Query → Query
  parseQuery : String → List FeatureFlag → Except XError Query
  parseQueryWithPrefix : String → List FeatureFlag → String → Except XError Query
  value : Doc → ℕ → Option F
  Matches : Query → Doc → Prop
  isEmpty_new : isEmpty new = true
  isEmpty_newRange : ∀ {slot a b}, a ≤ b → isEmpty (newRange slot a b) = false
  isEmpty_addRight : ∀ {op q q'}, isEmpty q = false → isEmpty q' = false →
    isEmpty (addRight op q q') = false
  matches_newRange : ∀ {slot a b d},
    Matches (newRange slot a b) d ↔ ∃ v, value d slot = some v ∧ a ≤ v ∧ v ≤ b
  matches_and : ∀ {q q' d}, Matches (addRight .and q q') d ↔ Matches q d ∧ Matches q' d
  matches_or : ∀ {q q' d}, Matches (addRight .or q q') d ↔ Matches q d ∨ Matches q' d

/-- Numbers, dates and letters: `parse::<f64>`, `as f64`, `parse_from_str` with its format,
`is_alphabetic` and `is_numeric`. -/
structure TextCrates (F : Type) where
  parseFloat : String → Option F
  ofInt : ℤ → F
  timestamp : String → String → Option ℤ
  isAlphabetic : Char → Bool
  isNumeric : Char → Bool

/-- What ends a translation before its end. -/
inductive VqlFault
  | error (e : XError)
  | panic
  deriving DecidableEq

/-! ## Operands -/

inductive TokenType
  | text
  | number
  | date
  | boolean
  deriving DecidableEq

/-- The text without white space around it (`trim`). -/
def trim (text : String) : List Char :=
  ((text.toList.dropWhile isWhiteSpace).reverse.dropWhile isWhiteSpace).reverse

/-- The places of the separators of a date. -/
def dateLike (token : List UInt8) : Bool :=
  token[4]? = some '-'.toUInt8 && token[7]? = some '-'.toUInt8 && token[10]? = some 'T'.toUInt8 &&
    token[13]? = some ':'.toUInt8 && token[16]? = some ':'.toUInt8

/-- All but the last byte, which must be a character (`split_at`). -/
def splitLast (text : String) : Except VqlFault String :=
  match text.toList.getLast? with
  | some c => if c.utf8Size = 1 then .ok (String.ofList text.toList.dropLast) else .error .panic
  | none => .error .panic

/-- How the operand at the root was written. -/
def TTA.decor : TTA → Decor
  | .new _ _ _ decor => decor

section Operands

variable {F : Type} [Zero F] [One F] (crates : TextCrates F)

/-- The date that an operand is, if it is one. -/
def dateOf (tokenIn : String) : Except VqlFault (Option ℤ) :=
  let token := utf8 (String.ofList (trim tokenIn))
  if token.length = 19 ∧ dateLike token then
    .ok (crates.timestamp "%Y-%m-%dT%H:%M:%S" tokenIn)
  else if token.length = 24 ∧ dateLike token ∧ token[19]? = some '.'.toUInt8 then
    match splitLast tokenIn with
    | .ok token => .ok (crates.timestamp "%Y-%m-%dT%H:%M:%S%.f" token)
    | .error e => .error e
  else .ok none

/-- `get_token_type`: what an operand is, and its value. -/
def getTokenType (tokenIn : String) : Except VqlFault (TokenType × F) :=
  if trim tokenIn = "true".toList then .ok (.boolean, 1)
  else if trim tokenIn = "false".toList then .ok (.boolean, 0)
  else
    match dateOf crates tokenIn with
    | .error e => .error e
    | .ok (some t) => .ok (.date, crates.ofInt t)
    | .ok none =>
      match parseSigned (2 ^ 63 - 1) tokenIn.toList with
      | some v => .ok (.number, crates.ofInt v)
      | none =>
        match crates.parseFloat tokenIn with
        | some v => .ok (.number, v)
        | none => .ok (.text, 0)

/-- `is_good_token`: at least three letters and digits, and more than three digits alone. -/
def isGoodToken (str : String) : Bool :=
  let countAlpha := str.toList.countP crates.isAlphabetic
  let countNumber := str.toList.countP crates.isNumeric
  !(countAlpha + countNumber < 3 || (countAlpha + countNumber < 4 && countNumber = 3))

end Operands

def toLowerAndReplaceDelimiters (src : String) : String :=
  src.map fun x => if x = '-' ∨ x = ':' then '_' else x.toLower

/-- The characters of a prefix or a local name. -/
def uriChar (c : Char) : Bool := c.isAlphanum || c = '_' || c = '-'

/-- `normalize_if_uri`: a prefix, a colon and a local name. -/
def normalizeIfUri (str : String) : Option String :=
  match str.toList.splitOn ':' with
  | [front, name] =>
    if front ≠ [] ∧ front.all uriChar ∧ name.all uriChar then
      some (toLowerAndReplaceDelimiters str)
    else none
  | _ => none

/-! ## The translation -/

/-- What the translation works with: the search engine, the slots, the ontology and the order in
which sets are visited. -/
structure Translator (F : Type) [LE F] where
  engine : SearchEngine F
  crates : TextCrates F
  key2slot : Key2Slot
  onto : Onto
  order : IterOrder String

/-- What a call of the translation gives: the text that it returns, and what it writes through its
references: the query, the field, the operator and the bound. -/
structure Translation (Query F : Type) where
  text : String
  query : Query
  lToken : String
  op : String
  rd : F

namespace Translator

variable {F : Type} [LE F] [Zero F] [One F] [DecidableEq F] (tr : Translator F)

/-- Nothing is returned and nothing is written. -/
def nothing : Translation tr.engine.Query F := ⟨"", tr.engine.new, "", "", 0⟩

/-- `parse_query_with_prefix`: a text that cannot be parsed is parsed in quotes, without the
prefix. -/
def parseQueryWithPrefix (queryStr : String) (flags : List FeatureFlag) ( xtr : String) :
    Except VqlFault tr.engine.Query :=
  match tr.engine.parseQueryWithPrefix queryStr flags xtr with
  | .ok q => .ok q
  | .error _ => (tr.engine.parseQuery ("\"" ++ queryStr ++ "\"") flags).mapError .error

/-- `parse_query`. -/
def parseQuery (queryStr : String) (flags : List FeatureFlag) :
    Except VqlFault tr.engine.Query :=
  match tr.engine.parseQuery queryStr flags with
  | .ok q => .ok q
  | .error _ => (tr.engine.parseQuery ("\"" ++ queryStr ++ "\"") flags).mapError .error

/-- `add_subclasses_to_query`: a uri, or one of its subclasses. -/
def addSubclassesToQuery (rs : String) : Option String :=
  if ':' ∈ rs.toList ∧ ',' ∉ rs.toList then
    some (toLowerAndReplaceDelimiters
      ((tr.order.order (tr.onto.getSubs tr.order rs [])).foldl (fun s cs => s ++ " OR " ++ cs) rs))
  else none

/-- A text to be found, negated for `!=`. -/
def negated (op : String) (flags : List FeatureFlag) (queryStr : String) :
    List FeatureFlag × String :=
  if op = "!=" then (flags ++ [.pureNot], "NOT " ++ queryStr) else (flags, queryStr)

/-- The query for a text in the terms of a slot. -/
def textQuery (op : String) (slot : ℕ) (rs : String) : Except VqlFault tr.engine.Query :=
  let rsFirst := rs.toList.head?
  let rs :=
    if '*' ∈ rs.toList ∧ rsFirst = some '+' ∧ !isGoodToken tr.crates rs then
      String.ofList (rs.toList.filter (· ≠ '*'))
    else rs
  let queryStr := if rsFirst = some '*' then String.ofList rs.toList.reverse else rs
  let queryStr := (normalizeIfUri queryStr).getD queryStr
  let (flags, queryStr) := negated op [.default, .wildcard, .phrase, .lovehate] queryStr
  tr.parseQueryWithPrefix queryStr flags s!"X{slot}X"

/-- The query for an operand in brackets: two bounds, a text, or a number. -/
def rangeQuery (isStrictEquality : Bool) (slot : ℕ) (rs : String) :
    Except VqlFault tr.engine.Query :=
  match (rs.toList.splitOn ',').map String.ofList with
  | [low, high] => do
    let (tt, cFrom) ← getTokenType tr.crates low
    if tt = .date ∨ tt = .number then
      let (tt, cTo) ← getTokenType tr.crates high
      if tt = .date ∨ tt = .number then .ok (tr.engine.newRange slot cFrom cTo)
      else .ok tr.engine.new
    else .ok tr.engine.new
  | [_] =>
    let el :=
      if rs.toList.head? = some '\'' ∧ 2 < rs.toList.length ∧ rs.toList.getLast? = some '\'' then
        String.ofList rs.toList.tail.dropLast
      else rs
    let queryStr := if isStrictEquality then el else (tr.addSubclassesToQuery rs).getD el
    tr.parseQueryWithPrefix queryStr [.default, .wildcard, .phrase, .lovehate] s!"X{slot}X"
  | _ =>
    match tr.crates.parseFloat rs with
    | some d => .ok (tr.engine.newDoubleWithPrefix s!"X{slot}X" d)
    | none => .error (.error .io)

/-- The query for a value of a field that has a slot. -/
def slotQuery (op : String) (isStrictEquality : Bool) (decor : Decor) (slot : ℕ) (rs : String) :
    Except VqlFault tr.engine.Query := do
  let (rsType, value) ← getTokenType tr.crates rs
  if rsType = .boolean then
    tr.parseQueryWithPrefix (if value = 0 then "F" else "T") [.default, .phrase, .lovehate]
      s!"X{slot}D"
  else if decor = .quoted ∨ ('*' ∈ rs.toList ∧ isGoodToken tr.crates rs) then
    tr.textQuery op slot rs
  else if decor = .range then tr.rangeQuery isStrictEquality slot rs
  else .ok tr.engine.new

/-- The query for a text in any field. -/
def anyFieldQuery (op rs : String) : Except VqlFault tr.engine.Query :=
  let queryStr := (normalizeIfUri rs).getD rs
  if '*' ∈ queryStr.toList ∧ isGoodToken tr.crates queryStr then
    let (flags, queryStr) := negated op [.default, .wildcard, .phrase] queryStr
    tr.parseQuery queryStr flags
  else tr.parseQuery queryStr [.default]

/-- The query of an equality: for any field, for the uri of the document, or for a field. -/
def equalityQuery (op : String) (isStrictEquality : Bool) (decor : Decor) (ls rs : String) :
    Except VqlFault tr.engine.Query :=
  let rs := if isStrictEquality then rs else (tr.addSubclassesToQuery rs).getD rs
  if ls = "*" then tr.anyFieldQuery op rs
  else if ls = "@" then
    let (flags, queryStr) :=
      negated op [.default, .wildcard] ("uid_" ++ toLowerAndReplaceDelimiters rs)
    tr.parseQuery queryStr flags
  else
    let wslot :=
      if rs.toList.head? = some '*' ∧ isGoodToken tr.crates rs then
        tr.key2slot.getSlot (ls ++ "#F")
      else tr.key2slot.getSlot ls
    match wslot with
    | some slot => tr.slotQuery op isStrictEquality decor slot rs
    | none => .ok tr.engine.new

/-- `<` and `>`: the bound is handed upwards, if the right operand is a date or a number. -/
def bound (op : String) (left right : Translation tr.engine.Query F) :
    Except VqlFault (Translation tr.engine.Query F) := do
  let (rsType, value) ← getTokenType tr.crates right.text
  if rsType = .date ∨ rsType = .number then
    .ok ⟨right.text, tr.engine.new, left.text, op, value⟩
  else .ok tr.nothing

/-- `==`, `!=` and `===`: a query, if the operands have none. -/
def equality (op : String) (decor : Decor) (left right : Translation tr.engine.Query F) :
    Except VqlFault (Translation tr.engine.Query F) :=
  if tr.engine.isEmpty left.query && tr.engine.isEmpty right.query then do
    let isStrictEquality := op = "==="
    let q ← tr.equalityQuery (if isStrictEquality then "==" else op) isStrictEquality decor
      left.text right.text
    .ok { tr.nothing with query := q }
  else .ok tr.nothing

/-- Two queries for an `&&`, where an empty one is left out. -/
def andQuery (queryL queryR : tr.engine.Query) : tr.engine.Query :=
  if tr.engine.isEmpty queryL then queryR
  else if !tr.engine.isEmpty queryR then tr.engine.addRight .and queryL queryR
  else tr.engine.new

/-- Two bounds: the left one is preferred, a missing one is zero, and the slot is that of the right
field. -/
def mergedQuery (left right : Translation tr.engine.Query F) : tr.engine.Query :=
  let cFrom := if right.op = ">" then right.rd else 0
  let cTo := if right.op = "<" then right.rd else 0
  let cFrom := if left.op = ">" then left.rd else cFrom
  let cTo := if left.op = "<" then left.rd else cTo
  match tr.key2slot.getSlot right.lToken with
  | some slot => tr.andQuery left.query (tr.engine.newRange slot cFrom cTo)
  | none => tr.engine.new

/-- `&&`: two bounds, or what there is of the two queries. -/
def both (left right : Translation tr.engine.Query F) :
    Except VqlFault (Translation tr.engine.Query F) :=
  if right.lToken ≠ "" ∧ left.text ≠ "" then
    let query := tr.mergedQuery left right
    if tr.engine.isEmpty query then .error (.error .io)
    else .ok { tr.nothing with query := query, op := right.op }
  else if !tr.engine.isEmpty right.query then
    let query := tr.andQuery left.query right.query
    if tr.engine.isEmpty query then .error (.error .io)
    else .ok { tr.nothing with query := query, op := right.op }
  else .ok { tr.nothing with query := left.query, op := right.op }

/-- `||`: two queries. -/
def either (left right : Translation tr.engine.Query F) :
    Except VqlFault (Translation tr.engine.Query F) :=
  let query :=
    if !tr.engine.isEmpty left.query && !tr.engine.isEmpty right.query then
      tr.engine.addRight .or left.query right.query
    else tr.engine.new
  if tr.engine.isEmpty query then .error (.error .io)
  else .ok { tr.nothing with query := query }

/-- `transform_vql_to_xapian`. The right operand of `&&` and `||` comes first, the left one of a
comparison. -/
def transform : TTA → Except VqlFault (Translation tr.engine.Query F)
  | .new op l r _ =>
    if op = ">" ∨ op = "<" then
      match l, r with
      | some l, some r => do
        let left ← transform l
        let right ← transform r
        tr.bound op left right
      | _, _ => .error (.error .io)
    else if op = "==" ∨ op = "!=" ∨ op = "===" then
      match l, r with
      | some l, some r => do
        let left ← transform l
        let right ← transform r
        tr.equality op r.decor left right
      | _, _ => .error (.error .io)
    else if op = "&&" ∨ op = "||" then do
      let right ← (match r with | some r => transform r | none => .ok tr.nothing)
      let left ← (match l with | some l => transform l | none => .ok tr.nothing)
      if op = "&&" then tr.both left right else tr.either left right
    else .ok { tr.nothing with text := op }

end Translator

/-! ## Trees of conditions -/

/-- The texts that the translation takes for operators. -/
def operatorTexts : List String := [">", "<", "==", "!=", "===", "&&", "||"]

/-- The two kinds of bounds. -/
inductive Direction
  | atLeast
  | atMost
  deriving DecidableEq

/-- How a bound is written. -/
def Direction.text : Direction → String
  | atLeast => ">"
  | atMost => "<"

/-- A value is within a bound. -/
def Direction.Holds {F : Type} [LE F] (d : Direction) (c v : F) : Prop :=
  match d with
  | atLeast => c ≤ v
  | atMost => v ≤ c

/-- Trees of conditions: comparisons of a field with a text in quotes or with a bound, `&&` and
`||`. -/
inductive Conditions
  | equality (field : String) (fieldDecor : Decor) (unequal : Bool) (text : String)
  | bound (field : String) (fieldDecor : Decor) (direction : Direction) (number : String)
    (numberDecor : Decor)
  | both (l r : Conditions)
  | either (l r : Conditions)

namespace Conditions

/-- The operator of an equality. -/
def equalityText (unequal : Bool) : String := if unequal then "!=" else "=="

/-- The tree of a query string. -/
def tta : Conditions → TTA
  | equality field fieldDecor unequal text =>
    .new (equalityText unequal) (some (.new field none none fieldDecor))
      (some (.new text none none .quoted)) .none
  | bound field fieldDecor direction number numberDecor =>
    .new direction.text (some (.new field none none fieldDecor))
      (some (.new number none none numberDecor)) .none
  | both l r => .new "&&" (some l.tta) (some r.tta) .none
  | either l r => .new "||" (some l.tta) (some r.tta) .none

/-- The field, the direction and the number of a bound. -/
def asBound : Conditions → Option (String × Direction × String)
  | bound field _ direction number _ => some (field, direction, number)
  | _ => none

end Conditions

namespace Translator

variable {F : Type} [LE F] [Zero F] [One F] [DecidableEq F] (tr : Translator F)

/-- The number or date of a bound. -/
def boundValue (number : String) : Option F :=
  match getTokenType tr.crates number with
  | .ok (.number, c) => some c
  | .ok (.date, c) => some c
  | _ => none

/-- A field that has a slot. -/
def IsField (field : String) : Prop :=
  field ∉ operatorTexts ∧ (tr.key2slot.getSlot field).isSome

/-- The fields have slots, and bounds are numbers or dates. -/
def WellFormed : Conditions → Prop
  | .equality field _ _ _ => tr.IsField field
  | .bound field _ _ number _ =>
    tr.IsField field ∧ number ≠ "" ∧ number ∉ operatorTexts ∧ (tr.boundValue number).isSome
  | .both l r => WellFormed l ∧ WellFormed r
  | .either l r => WellFormed l ∧ WellFormed r

/-- A document satisfies the conditions: an equality as its own query says, and a bound with the
value in the slot of its field. -/
def Satisfied (doc : tr.engine.Doc) : Conditions → Prop
  | .equality field fieldDecor unequal text =>
    ∃ out, tr.transform (Conditions.equality field fieldDecor unequal text).tta = .ok out ∧
      tr.engine.Matches out.query doc
  | .bound field _ direction number _ =>
    ∃ slot v c, tr.key2slot.getSlot field = some slot ∧ tr.engine.value doc slot = some v ∧
      tr.boundValue number = some c ∧ direction.Holds c v
  | .both l r => Satisfied doc l ∧ Satisfied doc r
  | .either l r => Satisfied doc l ∨ Satisfied doc r

/-- There is a query, and it matches the documents that satisfy the conditions. -/
def Translated (t : Conditions) : Prop :=
  ∃ out, tr.transform t.tta = .ok out ∧
    ∀ doc, tr.engine.Matches out.query doc ↔ tr.Satisfied doc t

/-- Two bounds make a range: they are for one slot, one is a lower bound and one an upper bound, and
they do not exclude each other. -/
def MakeRange (l r : String × Direction × String) : Prop :=
  tr.key2slot.getSlot l.1 = tr.key2slot.getSlot r.1 ∧ l.2.1 ≠ r.2.1 ∧
    ∀ c c', tr.boundValue l.2.2 = some c → tr.boundValue r.2.2 = some c' → r.2.1.Holds c' c

/-- Bounds stand in pairs that make a range, and the parser finds something in the text of each
equality. -/
def Paired : Conditions → Prop
  | .equality field _ unequal text =>
    text ∉ operatorTexts ∧
      ∃ q, tr.equalityQuery (Conditions.equalityText unequal) false .quoted field text = .ok q ∧
        tr.engine.isEmpty q = false
  | .bound .. => False
  | .both l r =>
    match l.asBound, r.asBound with
    | some b, some b' => tr.MakeRange b b'
    | _, _ => Paired l ∧ Paired r
  | .either l r => Paired l ∧ Paired r

end Translator

/-! ## One call -/

namespace Translator

section Calls

variable {F : Type} [LE F] [Zero F] [One F] [DecidableEq F] {tr : Translator F}

theorem transform_operand {text : String} (h : text ∉ operatorTexts) (decor : Decor) :
    tr.transform (.new text none none decor) = .ok { tr.nothing with text := text } := by
  simp only [operatorTexts, List.mem_cons, List.not_mem_nil, or_false, not_or] at h
  obtain ⟨h1, h2, h3, h4, h5, h6, h7⟩ := h
  rw [transform, if_neg (not_or.mpr ⟨h1, h2⟩), if_neg (not_or.mpr ⟨h3, not_or.mpr ⟨h4, h5⟩⟩),
    if_neg (not_or.mpr ⟨h6, h7⟩)]

theorem transform_bound {field number : String} {direction : Direction} {c : F}
    (hfield : field ∉ operatorTexts) (hnumber : number ∉ operatorTexts)
    (hvalue : tr.boundValue number = some c) (fieldDecor numberDecor : Decor) :
    tr.transform (Conditions.bound field fieldDecor direction number numberDecor).tta =
      .ok ⟨number, tr.engine.new, field, direction.text, c⟩ := by
  have hop : direction.text = ">" ∨ direction.text = "<" := by
    cases direction with
    | atLeast => exact .inl rfl
    | atMost => exact .inr rfl
  rw [Conditions.tta, transform, if_pos hop, transform_operand hfield, transform_operand hnumber]
  simp only [bind, Except.bind, Translator.bound]
  rw [boundValue] at hvalue
  split at hvalue
  · rename_i htoken
    rw [htoken, Option.some.inj hvalue]
    rfl
  · rename_i htoken
    rw [htoken, Option.some.inj hvalue]
    rfl
  · exact nomatch hvalue

theorem transform_equality {field text : String} {q : tr.engine.Query} {unequal : Bool}
    (hfield : field ∉ operatorTexts) (htext : text ∉ operatorTexts)
    (hq : tr.equalityQuery (Conditions.equalityText unequal) false .quoted field text = .ok q)
    (fieldDecor : Decor) :
    tr.transform (Conditions.equality field fieldDecor unequal text).tta =
      .ok { tr.nothing with query := q } := by
  have hempty : tr.engine.isEmpty tr.nothing.query = true := tr.engine.isEmpty_new
  have hstrict : Conditions.equalityText unequal ≠ "===" := by
    cases unequal <;> decide
  rw [Conditions.tta, transform, if_neg (by cases unequal <;> decide),
    if_pos (by cases unequal <;> decide), transform_operand hfield, transform_operand htext]
  simp only [bind, Except.bind, equality, TTA.decor, hempty, Bool.and_self, if_true, hstrict,
    if_false, decide_false, hq]

variable {l r : Conditions} {left right : Translation tr.engine.Query F}

theorem transform_both (hl : tr.transform l.tta = .ok left) (hr : tr.transform r.tta = .ok right) :
    tr.transform (Conditions.both l r).tta = tr.both left right := by
  rw [Conditions.tta, transform, if_neg (by decide), if_neg (by decide), if_pos (.inl rfl)]
  simp only [hl, hr, bind, Except.bind, if_true]

theorem transform_either (hl : tr.transform l.tta = .ok left)
    (hr : tr.transform r.tta = .ok right) :
    tr.transform (Conditions.either l r).tta = tr.either left right := by
  rw [Conditions.tta, transform, if_neg (by decide), if_neg (by decide), if_pos (.inr rfl)]
  simp only [hl, hr, bind, Except.bind]
  rw [if_neg (by decide)]

/-- What a tree gives that is translated without loss: a query that is not empty, and nothing to
hand upwards but an operator. -/
structure Whole (out : Translation tr.engine.Query F) (t : Conditions) : Prop where
  text : out.text = ""
  lToken : out.lToken = ""
  isEmpty : tr.engine.isEmpty out.query = false
  sound : ∀ doc, tr.engine.Matches out.query doc ↔ tr.Satisfied doc t

theorem Whole.both (hl : tr.Whole left l) (hr : tr.Whole right r) :
    ∃ out, tr.both left right = .ok out ∧ tr.Whole out (.both l r) := by
  have hquery : tr.andQuery left.query right.query =
      tr.engine.addRight .and left.query right.query := by
    rw [andQuery, hl.isEmpty, hr.isEmpty]
    rfl
  have hempty : tr.engine.isEmpty (tr.engine.addRight .and left.query right.query) = false :=
    tr.engine.isEmpty_addRight hl.isEmpty hr.isEmpty
  refine ⟨{ tr.nothing with
    query := tr.engine.addRight .and left.query right.query, op := right.op }, ?_, rfl, rfl, hempty,
    fun doc => ?_⟩
  · rw [Translator.both, if_neg (fun h => h.1 hr.lToken), hr.isEmpty]
    dsimp only
    rw [hquery, hempty]
    rfl
  · rw [Satisfied, ← hl.sound, ← hr.sound]
    exact tr.engine.matches_and

theorem Whole.either (hl : tr.Whole left l) (hr : tr.Whole right r) :
    ∃ out, tr.either left right = .ok out ∧ tr.Whole out (.either l r) := by
  have hempty : tr.engine.isEmpty (tr.engine.addRight .or left.query right.query) = false :=
    tr.engine.isEmpty_addRight hl.isEmpty hr.isEmpty
  refine ⟨{ tr.nothing with query := tr.engine.addRight .or left.query right.query }, ?_, rfl, rfl,
    hempty, fun doc => ?_⟩
  · rw [Translator.either, hl.isEmpty, hr.isEmpty]
    dsimp only
    rw [Bool.not_false, Bool.and_self, if_pos rfl, hempty]
    rfl
  · rw [Satisfied, ← hl.sound, ← hr.sound]
    exact tr.engine.matches_or

/-! ## Two bounds -/

variable {field field' number number' : String} {d d' : Direction} {c c' : F} {slot : ℕ}

theorem ne_empty_of_getSlot {k : Key2Slot} (h : k.getSlot field = some slot) : field ≠ "" := by
  rintro rfl
  exact nomatch h

theorem satisfied_bound (hslot : tr.key2slot.getSlot field = some slot)
    (hvalue : tr.boundValue number = some c) (fieldDecor numberDecor : Decor)
    (doc : tr.engine.Doc) :
    tr.Satisfied doc (.bound field fieldDecor d number numberDecor) ↔
      ∃ v, tr.engine.value doc slot = some v ∧ d.Holds c v := by
  rw [Satisfied]
  constructor
  · rintro ⟨slot', v, c', hslot', hv, hc, hholds⟩
    obtain rfl := Option.some.inj (hslot.symm.trans hslot')
    obtain rfl := Option.some.inj (hvalue.symm.trans hc)
    exact ⟨v, hv, hholds⟩
  · rintro ⟨v, hv, hholds⟩
    exact ⟨slot, v, c, hslot, hv, hvalue, hholds⟩

omit [One F] [DecidableEq F] in
theorem mergedQuery_eq (hslot : tr.key2slot.getSlot field' = some slot) (hne : d ≠ d')
    (hholds : d'.Holds c' c) :
    let query := tr.mergedQuery ⟨number, tr.engine.new, field, d.text, c⟩
      ⟨number', tr.engine.new, field', d'.text, c'⟩
    tr.engine.isEmpty query = false ∧ ∀ doc, tr.engine.Matches query doc ↔
      ∃ v, tr.engine.value doc slot = some v ∧ d.Holds c v ∧ d'.Holds c' v := by
  have hnew := tr.engine.isEmpty_new
  cases d with
  | atLeast =>
    cases d' with
    | atLeast => exact absurd rfl hne
    | atMost =>
      have hquery : tr.mergedQuery ⟨number, tr.engine.new, field, ">", c⟩
          ⟨number', tr.engine.new, field', "<", c'⟩ = tr.engine.newRange slot c c' := by
        simp [mergedQuery, hslot, andQuery, hnew]
      dsimp only [Direction.text]
      rw [hquery]
      exact ⟨tr.engine.isEmpty_newRange hholds, fun doc => tr.engine.matches_newRange⟩
  | atMost =>
    cases d' with
    | atMost => exact absurd rfl hne
    | atLeast =>
      have hquery : tr.mergedQuery ⟨number, tr.engine.new, field, "<", c⟩
          ⟨number', tr.engine.new, field', ">", c'⟩ = tr.engine.newRange slot c' c := by
        simp [mergedQuery, hslot, andQuery, hnew]
      dsimp only [Direction.text]
      rw [hquery]
      refine ⟨tr.engine.isEmpty_newRange hholds, fun doc => tr.engine.matches_newRange.trans ?_⟩
      exact exists_congr fun v => and_congr_right fun _ => and_comm

omit [One F] [DecidableEq F] in
theorem both_of_merged (htoken : right.lToken ≠ "") (htext : left.text ≠ "")
    (hempty : tr.engine.isEmpty (tr.mergedQuery left right) = false) :
    tr.both left right =
      .ok { tr.nothing with query := tr.mergedQuery left right, op := right.op } := by
  rw [Translator.both, if_pos ⟨htoken, htext⟩]
  dsimp only
  rw [hempty]
  rfl

theorem exists_both_of_makeRange {l r : Conditions} {b b' : String × Direction × String}
    (hl : l.asBound = some b) (hr : r.asBound = some b') (hlok : tr.WellFormed l)
    (hrok : tr.WellFormed r) (h : tr.MakeRange b b') :
    ∃ out, tr.transform (Conditions.both l r).tta = .ok out ∧ tr.Whole out (.both l r) := by
  obtain ⟨field, d, number⟩ := b
  obtain ⟨field', d', number'⟩ := b'
  cases l with
  | bound _ fieldDecor _ _ numberDecor =>
    cases r with
    | bound _ fieldDecor' _ _ numberDecor' =>
      obtain ⟨rfl, rfl, rfl⟩ := hl
      obtain ⟨rfl, rfl, rfl⟩ := hr
      obtain ⟨⟨hfield, hsome⟩, hne, hnumber, hvalue⟩ := hlok
      obtain ⟨⟨hfield', hsome'⟩, -, hnumber', hvalue'⟩ := hrok
      obtain ⟨slot, hslot⟩ := Option.isSome_iff_exists.mp hsome
      obtain ⟨c, hc⟩ := Option.isSome_iff_exists.mp hvalue
      obtain ⟨c', hc'⟩ := Option.isSome_iff_exists.mp hvalue'
      obtain ⟨hsame, hopposite, hrange⟩ := h
      have hslot' := hsame.symm.trans hslot
      have htoken := ne_empty_of_getSlot hslot'
      obtain ⟨hempty, hmatches⟩ := mergedQuery_eq hslot' hopposite (hrange c c' hc hc')
      refine ⟨_, (transform_both (transform_bound hfield hnumber hc _ _)
        (transform_bound hfield' hnumber' hc' _ _)).trans (both_of_merged htoken hne hempty),
        rfl, rfl, hempty, fun doc => (hmatches doc).trans ?_⟩
      rw [Satisfied, satisfied_bound hslot hc, satisfied_bound hslot' hc']
      constructor
      · rintro ⟨v, hv, hleft, hright⟩
        exact ⟨⟨v, hv, hleft⟩, v, hv, hright⟩
      · rintro ⟨⟨v, hv, hleft⟩, v', hv', hright⟩
        obtain rfl := Option.some.inj (hv.symm.trans hv')
        exact ⟨v, hv, hleft, hright⟩
    | _ => exact nomatch hr
  | _ => exact nomatch hl

/-! ## Whole trees -/

theorem exists_equality {fieldDecor : Decor} {unequal : Bool} {text : String}
    (hok : tr.WellFormed (.equality field fieldDecor unequal text))
    (h : tr.Paired (.equality field fieldDecor unequal text)) :
    ∃ out, tr.transform (Conditions.equality field fieldDecor unequal text).tta = .ok out ∧
      tr.Whole out (.equality field fieldDecor unequal text) := by
  obtain ⟨htext, q, hq, hempty⟩ := h
  have heq := transform_equality hok.1 htext hq fieldDecor
  refine ⟨_, heq, rfl, rfl, hempty, fun doc => ?_⟩
  rw [Satisfied, heq]
  exact ⟨fun hmatch => ⟨_, rfl, hmatch⟩, fun ⟨_, hout, hmatch⟩ => Except.ok.inj hout ▸ hmatch⟩

/-- **A paired tree** is translated without loss.

**Proof sketch.** By induction on the tree. An `&&` is either of two bounds, which become one range,
or of two trees that have a query each; an `||` is always of two such trees. -/
theorem exists_whole {t : Conditions} (hok : tr.WellFormed t) (h : tr.Paired t) :
    ∃ out, tr.transform t.tta = .ok out ∧ tr.Whole out t := by
  induction t with
  | equality field fieldDecor unequal text => exact exists_equality hok h
  | bound => exact h.elim
  | both l r ihl ihr =>
    rw [Paired] at h
    split at h
    · rename_i b b' hl hr
      exact exists_both_of_makeRange hl hr hok.1 hok.2 h
    · obtain ⟨left, hleft, hl⟩ := ihl hok.1 h.1
      obtain ⟨right, hright, hr⟩ := ihr hok.2 h.2
      rw [transform_both hleft hright]
      exact hl.both hr
  | either l r ihl ihr =>
    obtain ⟨left, hleft, hl⟩ := ihl hok.1 h.1
    obtain ⟨right, hright, hr⟩ := ihr hok.2 h.2
    rw [transform_either hleft hright]
    exact hl.either hr

/-- **No condition is lost**: if bounds stand in pairs that make a range, and the parser finds
something in the text of each equality, the query matches the documents that satisfy the
conditions. -/
theorem translated_of_paired {t : Conditions} (hok : tr.WellFormed t) (h : tr.Paired t) :
    tr.Translated t := by
  obtain ⟨out, hout, hwhole⟩ := exists_whole hok h
  exact ⟨out, hout, hwhole.sound⟩

end Calls

end Translator

/-! ## Queries over terms and whole numbers -/

/-- A query for a term of a prefix, a range, or two queries together. -/
inductive PlainQuery
  | nothing
  | term (front word : String)
  | range (slot : ℕ) (a b : ℤ)
  | join (op : XapianOp) (q q' : PlainQuery)

/-- A document: its terms, each with its prefix, and its values. -/
structure PlainDoc where
  terms : List (String × String)
  value : ℕ → Option ℤ

/-- A range that ends before it starts matches nothing. -/
def PlainQuery.isEmpty : PlainQuery → Bool
  | nothing => true
  | range _ a b => b < a
  | term .. | join .. => false

/-- The documents that a query matches. -/
def PlainQuery.Matches (d : PlainDoc) : PlainQuery → Prop
  | nothing => False
  | term front word => (front, word) ∈ d.terms
  | range slot a b => ∃ v, d.value slot = some v ∧ a ≤ v ∧ v ≤ b
  | join .and q q' => q.Matches d ∧ q'.Matches d
  | join .or q q' => q.Matches d ∨ q'.Matches d

/-- A search engine whose parser takes a text for one term. -/
def plainEngine : SearchEngine ℤ where
  Query := PlainQuery
  Doc := PlainDoc
  new := .nothing
  isEmpty := PlainQuery.isEmpty
  newRange := .range
  newDoubleWithPrefix front d := .term front (toString d)
  addRight := .join
  parseQuery text _ := .ok (if text = "" then .nothing else .term "" text)
  parseQueryWithPrefix text _ front := .ok (if text = "" then .nothing else .term front text)
  value := PlainDoc.value
  Matches q d := q.Matches d
  isEmpty_new := rfl
  isEmpty_newRange h := decide_eq_false (not_lt.mpr h)
  isEmpty_addRight _ _ := rfl
  matches_newRange := Iff.rfl
  matches_and := Iff.rfl
  matches_or := Iff.rfl

/-- Two fields with slots. -/
def plainTranslator : Translator ℤ where
  engine := plainEngine
  crates :=
    { parseFloat := fun _ => none
      ofInt := id
      timestamp := fun _ _ => none
      isAlphabetic := Char.isAlpha
      isNumeric := Char.isDigit }
  key2slot := ⟨((∅ : HashMap String ℕ).insert "rdfs:label" 1).insert "v-s:price" 2, 0⟩
  onto := ⟨∅, ∅⟩
  order := .stored String

/-- A label with a price between two bounds. -/
def pricedBetween : Conditions :=
  .both (.equality "rdfs:label" .quoted false "chair")
    (.both (.bound "v-s:price" .quoted .atLeast "10" .none)
      (.bound "v-s:price" .quoted .atMost "20" .none))

/-- A label with a price above a bound. -/
def pricedAbove : Conditions :=
  .both (.equality "rdfs:label" .quoted false "chair")
    (.bound "v-s:price" .quoted .atLeast "10" .none)

theorem translated_pricedBetween : plainTranslator.Translated pricedBetween := by
  have hten : plainTranslator.boundValue "10" = some 10 := rfl
  have htwenty : plainTranslator.boundValue "20" = some 20 := rfl
  refine Translator.translated_of_paired ⟨⟨by decide, rfl⟩, ⟨⟨by decide, rfl⟩, ?_⟩,
    ⟨by decide, rfl⟩, ?_⟩ ⟨⟨by decide, .term "X1X" "chair", rfl, rfl⟩, rfl, by decide, ?_⟩
  · exact ⟨by decide, by decide, hten ▸ rfl⟩
  · exact ⟨by decide, by decide, htwenty ▸ rfl⟩
  · intro c c' hc hc'
    obtain rfl := Option.some.inj (hten.symm.trans hc)
    obtain rfl := Option.some.inj (htwenty.symm.trans hc')
    exact (by decide : (10 : ℤ) ≤ 20)

/-- A bound beside a query is dropped: every document with the label is found. -/
theorem not_translated_pricedAbove :
    plainTranslator.WellFormed pricedAbove ∧ ¬ plainTranslator.Translated pricedAbove := by
  refine ⟨⟨⟨by decide, rfl⟩, ⟨by decide, rfl⟩, by decide, by decide, rfl⟩, ?_⟩
  rintro ⟨out, hout, hmatches⟩
  have hquery : plainTranslator.transform pricedAbove.tta =
      .ok ⟨"", PlainQuery.term "X1X" "chair", "", ">", (0 : ℤ)⟩ := rfl
  obtain rfl := Except.ok.inj (hquery.symm.trans hout)
  have hfound := (hmatches ⟨[("X1X", "chair")], fun _ => none⟩).mp List.mem_cons_self
  obtain ⟨-, slot, v, c, -, hv, -⟩ := hfound
  exact nomatch hv

end Veda.Xapian
