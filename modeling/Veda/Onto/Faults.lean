import Veda.Lib.Outcome
import Veda.Onto.Json

set_option autoImplicit false

/-!
# Faults of the readers and writers

The functions that read an individual of JSON and that write it as JSON, with the places at which
they can stop: an operation on integers that overflows, and a function of a library that panics on
its argument.

## Main definitions

* `Onto.Fault` — what stops a program.
* `Onto.ChronoDecimal` — the libraries for dates and decimals.
* `Onto.parseJsonToIndividualChecked`, `Onto.IndividualObj.asJsonChecked` — the reader
  and the writer.

## Main results

* `Onto.ends_parseMembersChecked`, `Onto.ends_asJsonChecked` — when they end.
* `Onto.parseJsonToIndividualChecked_eq_ok_iff`, `Onto.asJsonChecked_eq_ok_iff` — what they give.

## Design

The range of points in time is a part of the library, as it depends on the version; all years of
four digits are in it, and the thousandfold of its points fits in 64 bits. A `Decimal` has at most
28 digits behind the point.
-/

namespace Veda.Onto

open Veda.Lib

/-- What stops a program. -/
inductive Fault
  /-- an operation on integers overflows -/
  | overflow
  /-- a function of a library panics on its argument -/
  | badArgument
  deriving DecidableEq, Repr

/-! ## Integers -/

/-- The product of two integers of 64 bits. -/
def checkedMul (a b : Int64) : Except Fault Int64 :=
  if -9223372036854775808 ≤ a.toInt * b.toInt ∧ a.toInt * b.toInt ≤ 9223372036854775807 then
    .ok (a * b)
  else .error .overflow

/-- A power of ten in 64 bits. -/
def checkedPow10 (n : ℕ) : Except Fault Int64 :=
  if n ≤ 18 then .ok (Int64.ofInt (10 ^ n)) else .error .overflow

/-- An integer of 64 bits as one of 32 (`as u32`). -/
def lowWord (i : Int64) : UInt32 := UInt32.ofNat (i.toInt % 4294967296).toNat

/-- The digits behind the point. -/
def scaleOfExponent (e : Int64) : Except Fault UInt32 :=
  if e < 0 then lowWord <$> checkedMul e (-1) else .ok 0

/-- The digits of a number with an exponent. -/
def numOfExponent (m e : Int64) : Except Fault Int64 :=
  if 0 < e then checkedPow10 (lowWord e).toNat >>= checkedMul m else .ok m

def exponentToScaleChecked (m e : Int64) : Except Fault (Int64 × UInt32) := do
  let scale ← scaleOfExponent e
  let num ← numOfExponent m e
  return (num, scale)

/-- `Decimal::new`. -/
def decimalNew (num : Int64) (scale : UInt32) : Except Fault (Int × ℕ) :=
  if scale.toNat ≤ 28 then .ok (num.toInt, scale.toNat) else .error .badArgument

/-- The decimal of a value. -/
def decimalOf (m e : Int64) : Except Fault (Int × ℕ) := do
  let (num, scale) ← exponentToScaleChecked m e
  decimalNew num scale

/-! ## The libraries -/

/-- The libraries for dates and decimals. -/
structure ChronoDecimal where
  /-- the first point in time -/
  minTime : Int
  /-- the last point in time -/
  maxTime : Int
  years : minTime ≤ -1000000000000 ∧ 1000000000000 ≤ maxTime
  thousandfold : -9223372036854775 ≤ minTime ∧ maxTime ≤ 9223372036854775
  /-- a date and a time without zone, `%Y-%m-%dT%H:%M:%S` -/
  parseNaive : String → Option { t : Int // minTime ≤ t ∧ t ≤ maxTime }
  /-- the offset of the local zone at a date and a time, if it is the only one -/
  offset : Int → Except Fault (Option Int)
  /-- the scale of a decimal text that is not plain or does not fit -/
  otherScale : String → Option (Fin 29)
  /-- the scale of a number in floating point -/
  scaleOfF64 : Float → Option (Fin 29)

namespace ChronoDecimal

variable (crates : ChronoDecimal)

/-- A number of seconds is a point in time. -/
def InRange (t : Int) : Prop := crates.minTime ≤ t ∧ t ≤ crates.maxTime

instance (t : Int) : Decidable (crates.InRange t) := inferInstanceAs (Decidable (_ ∧ _))

/-- `Utc.timestamp`, and the difference of a point in time and an offset. -/
def timestamp (t : Int) : Except Fault Int :=
  if crates.InRange t then .ok t else .error .badArgument

/-- The same libraries without faults. -/
def libraries : Libraries where
  parseLocal value := (crates.parseNaive value).map fun t => Int64.ofInt <|
    match crates.offset t.1 with
    | .ok (some offset) => t.1 - offset
    | _ => t.1
  otherScale value := (crates.otherScale value).map Fin.val
  scaleOfF64 value := (crates.scaleOfF64 value).map Fin.val

end ChronoDecimal

/-! ## The reader -/

/-- The point in time that `add_datetime_from_str` adds. -/
def datetimeFromStrChecked (crates : ChronoDecimal) (value : String) : Except Fault (Option Int64) :=
  if 'Z' ∈ value.toList then .ok ((parseRfc3339 value.toList).map Int64.ofInt)
  else
    match crates.parseNaive (if value.utf8ByteSize = 10 then value ++ "T00:00:00" else value) with
    | none => .ok none
    | some v => do
      match ← crates.offset v.1 with
      | some offset => (fun t => some (Int64.ofInt t)) <$> crates.timestamp (v.1 - offset)
      | none => .ok (some (Int64.ofInt v.1))

/-- The decimal that `add_decimal_from_f64` adds. -/
def decimalFromF64Checked (crates : ChronoDecimal) (value : Float) :
    Except Fault (Option (Int64 × Int64)) :=
  match crates.scaleOfF64 value with
  | none => .ok none
  | some exp =>
    (fun p : Int64 => some ((value * p.toFloat).toInt64, Int64.ofInt (-(exp.val : Int)))) <$>
      checkedPow10 exp.val

/-- The value that is read of a `data` field with a type. -/
def readValueChecked (crates : ChronoDecimal) (members : List (String × Json)) (vdata : Json)
    (ptype : DataType) : Except Fault (Option (DataType × Value)) :=
  match ptype, vdata with
  | .datetime, .str v =>
    (fun i => i.map fun i => (.datetime, .datetime i)) <$> datetimeFromStrChecked crates v
  | .decimal, .float v =>
    (fun d => d.map fun d => (.decimal, .num d.1 d.2)) <$> decimalFromF64Checked crates v
  | _, _ => .ok (readValue crates.libraries members vdata ptype)

def readJsonChecked (crates : ChronoDecimal) : Json → Except Fault (Option (Option (DataType × Value)))
  | .obj members =>
    match members.lookup "data" with
    | none => .ok none
    | some vdata =>
      match getDatatypeFromJson (members.lookup "type") with
      | .error _ => .ok none
      | .ok ptype => some <$> readValueChecked crates members vdata ptype
  | _ => .ok none

/-- What a value adds to the individual. -/
def addRead (predicate : String) (s : Bool × IndividualObj) :
    Option (Option (DataType × Value)) → Bool × IndividualObj
  | some c => (s.1, s.2.addContent predicate c)
  | none => (false, s.2)

def jsonToPredicateChecked (crates : ChronoDecimal) (predicate : String) (values : List Json)
    (s : Bool × IndividualObj) : Except Fault (Bool × IndividualObj) :=
  values.foldlM (fun s val => addRead predicate s <$> readJsonChecked crates val) s

def parseMemberChecked (crates : ChronoDecimal) (s : Bool × IndividualObj) (m : String × Json) :
    Except Fault (Bool × IndividualObj) :=
  if m.1 = "@" then
    match m.2.asStr with
    | some id => .ok (s.1, { s.2 with uri := id })
    | none => .ok (false, s.2)
  else
    match m.2 with
    | .arr values => jsonToPredicateChecked crates m.1 values s
    | _ => .ok (false, s.2)

def parseMembersChecked (crates : ChronoDecimal) (members : List (String × Json))
    (s : Bool × IndividualObj) : Except Fault (Bool × IndividualObj) :=
  members.foldlM (parseMemberChecked crates) s

def parseJsonToIndividualChecked (crates : ChronoDecimal) (π : IterOrder (String × Json)) (src : Json)
    (dest : IndividualObj) : Except Fault (Bool × IndividualObj) :=
  match src with
  | .obj members => parseMembersChecked crates (π.order members) (true, dest)
  | _ => .ok (true, dest)

/-! ## The writer -/

/-- The field `data` of a value; binary values have none. -/
def dataJsonChecked (crates : ChronoDecimal) : Value → Except Fault (Option Json)
  | .num m e => (fun d => some (.str (String.ofList (decimalText d.1 d.2)))) <$> decimalOf m e
  | .datetime i => (fun t => some (.str (String.ofList (timeText t)))) <$> crates.timestamp i.toInt
  | v => .ok (dataJson v)

def resourceMembersChecked (crates : ChronoDecimal) (r : Resource) :
    Except Fault (List (String × Json)) :=
  (fun d : Option Json => (d.map fun d => ("data", d)).toList ++ langMembers r ++
    [("type", .str r.rtype.name)]) <$> dataJsonChecked crates r.value

def predicateJsonChecked (crates : ChronoDecimal) (rs : List Resource) : Except Fault Json :=
  (fun members => .arr (members.map .obj)) <$> rs.mapM (resourceMembersChecked crates)

def IndividualObj.asJsonChecked (crates : ChronoDecimal) (π : IterOrder String) (obj : IndividualObj) :
    Except Fault Json :=
  .obj <$> (obj.resources.iter π).foldlM (fun members e =>
    (fun json => Json.setMember members (e.1, json)) <$> predicateJsonChecked crates e.2)
    (Json.setMember [] ("@", .str obj.uri))

/-! ## Decimals -/

theorem scaleOfExponent_neg : ∀ n : Fin 29,
    scaleOfExponent (Int64.ofInt (-(n.val : Int))) = .ok (UInt32.ofNat n.val) ∧
      ¬ 0 < Int64.ofInt (-(n.val : Int)) ∧ (UInt32.ofNat n.val).toNat ≤ 28 := by
  decide +kernel

theorem ends_decimalOf (m : Int64) {n : ℕ} (hn : n ≤ 28) :
    Ends (decimalOf m (Int64.ofInt (-(n : Int)))) := by
  obtain ⟨hscale, hpos, hle⟩ := scaleOfExponent_neg ⟨n, Nat.lt_succ_of_le hn⟩
  dsimp only at hscale hpos hle
  have hnum : numOfExponent m (Int64.ofInt (-(n : Int))) = .ok m := if_neg hpos
  refine ⟨(m.toInt, (UInt32.ofNat n).toNat), ?_⟩
  rw [decimalOf, exponentToScaleChecked, hscale, hnum]
  exact if_pos hle

theorem eq_of_checkedMul {a b c : Int64} (h : checkedMul a b = .ok c) : c = a * b := by
  unfold checkedMul at h
  split_ifs at h
  exact (Except.ok.inj h).symm

theorem eq_of_checkedPow10 {n : ℕ} {p : Int64} (h : checkedPow10 n = .ok p) :
    p = Int64.ofInt (10 ^ n) := by
  unfold checkedPow10 at h
  split_ifs at h
  exact (Except.ok.inj h).symm

/-! ## When the reader ends -/

section Reader

variable {crates : ChronoDecimal} {members : List (String × Json)} {vdata : Json} {ptype : DataType}

/-- The zone can be looked up at a date and a time, and its offset does not leave the range. -/
def ChronoDecimal.KeepsRange (crates : ChronoDecimal) (t : Int) : Prop :=
  ∃ offset, crates.offset t = .ok offset ∧ ∀ o ∈ offset, crates.InRange (t - o)

/-- A text of a date does not stop the reader. -/
def SafeText (crates : ChronoDecimal) (value : String) : Prop :=
  'Z' ∉ value.toList →
    ∀ t ∈ crates.parseNaive (if value.utf8ByteSize = 10 then value ++ "T00:00:00" else value),
      crates.KeepsRange t.1

/-- A number in floating point has at most 18 digits behind the point. -/
def SafeFloat (crates : ChronoDecimal) (value : Float) : Prop :=
  ∀ exp ∈ crates.scaleOfF64 value, exp.val ≤ 18

/-- A `data` field with a type does not stop the reader. -/
def SafeRead (crates : ChronoDecimal) (vdata : Json) (ptype : DataType) : Prop :=
  match ptype, vdata with
  | .datetime, .str v => SafeText crates v
  | .decimal, .float v => SafeFloat crates v
  | _, _ => True

theorem ends_timestamp (t : Int) : Ends (crates.timestamp t) ↔ crates.InRange t := ends_ite _ _ _

theorem eq_of_timestamp {t t' : Int} (h : crates.timestamp t = .ok t') : t' = t := by
  unfold ChronoDecimal.timestamp at h
  split_ifs at h
  exact (Except.ok.inj h).symm

theorem ends_datetimeFromStrChecked (value : String) :
    Ends (datetimeFromStrChecked crates value) ↔ SafeText crates value := by
  unfold datetimeFromStrChecked SafeText
  by_cases hz : 'Z' ∈ value.toList
  · rw [if_pos hz]
    exact iff_of_true (ends_ok _) fun h => absurd hz h
  · rw [if_neg hz]
    cases crates.parseNaive (if value.utf8ByteSize = 10 then value ++ "T00:00:00" else value) with
    | none => exact iff_of_true (ends_ok _) fun _ t ht => nomatch ht
    | some v =>
      have hshift : ∀ offset : Option Int,
          Ends (match offset with
            | some offset => (fun t => some (Int64.ofInt t)) <$> crates.timestamp (v.1 - offset)
            | none => .ok (some (Int64.ofInt v.1))) ↔ ∀ o ∈ offset, crates.InRange (v.1 - o) := by
        intro offset
        cases offset with
        | none => exact iff_of_true (ends_ok _) fun o ho => nomatch ho
        | some o =>
          rw [ends_map, ends_timestamp]
          simp
      dsimp only
      rw [ends_bind]
      simp only [hshift, Option.mem_def, Option.some.injEq, forall_eq', ChronoDecimal.KeepsRange, hz,
        not_false_eq_true, forall_const]

theorem eq_of_datetimeFromStrChecked {value : String} {i : Option Int64}
    (h : datetimeFromStrChecked crates value = .ok i) :
    i = datetimeFromStr crates.libraries value := by
  unfold datetimeFromStrChecked at h
  unfold datetimeFromStr ChronoDecimal.libraries
  split_ifs at h ⊢ with hz
  · exact (Except.ok.inj h).symm
  all_goals
    dsimp only
    cases hnaive : crates.parseNaive _ with
    | none =>
      rw [hnaive] at h
      exact (Except.ok.inj h).symm
    | some v =>
      rw [hnaive] at h
      obtain ⟨offset, hoffset, hrest⟩ := bind_eq_ok h
      rw [Option.map_some, hoffset]
      cases offset with
      | none => exact (Except.ok.inj hrest).symm
      | some o =>
        obtain ⟨t, ht, heq⟩ := bind_eq_ok hrest
        rw [eq_of_timestamp ht] at heq
        exact (Except.ok.inj heq).symm

theorem ends_decimalFromF64Checked (value : Float) :
    Ends (decimalFromF64Checked crates value) ↔ SafeFloat crates value := by
  unfold decimalFromF64Checked SafeFloat
  cases crates.scaleOfF64 value with
  | none => exact iff_of_true (ends_ok _) fun exp hexp => nomatch hexp
  | some exp =>
    dsimp only
    rw [ends_map, checkedPow10, ends_ite]
    simp

theorem eq_of_decimalFromF64Checked {value : Float} {d : Option (Int64 × Int64)}
    (h : decimalFromF64Checked crates value = .ok d) :
    d = decimalFromF64 crates.libraries value := by
  unfold decimalFromF64Checked at h
  unfold decimalFromF64 ChronoDecimal.libraries
  dsimp only
  cases hscale : crates.scaleOfF64 value with
  | none =>
    rw [hscale] at h
    exact (Except.ok.inj h).symm
  | some exp =>
    rw [hscale] at h
    obtain ⟨p, hp, heq⟩ := bind_eq_ok h
    rw [eq_of_checkedPow10 hp] at heq
    exact (Except.ok.inj heq).symm

theorem ends_readValueChecked :
    Ends (readValueChecked crates members vdata ptype) ↔ SafeRead crates vdata ptype := by
  cases ptype <;> cases vdata <;>
    first
      | exact iff_of_true (ends_ok _) trivial
      | exact (ends_map _ _).trans (ends_datetimeFromStrChecked _)
      | exact (ends_map _ _).trans (ends_decimalFromF64Checked _)

theorem eq_of_readValueChecked {c : Option (DataType × Value)}
    (h : readValueChecked crates members vdata ptype = .ok c) :
    c = readValue crates.libraries members vdata ptype := by
  cases ptype <;> cases vdata <;> try exact (Except.ok.inj h).symm
  case datetime.str v =>
    obtain ⟨i, hi, heq⟩ := bind_eq_ok h
    rw [eq_of_datetimeFromStrChecked hi] at heq
    exact (Except.ok.inj heq).symm
  case decimal.float v =>
    obtain ⟨d, hd, heq⟩ := bind_eq_ok h
    rw [eq_of_decimalFromF64Checked hd] at heq
    exact (Except.ok.inj heq).symm

/-- A value does not stop the reader. -/
def SafeReadJson (crates : ChronoDecimal) : Json → Prop
  | .obj members => ∀ vdata ∈ members.lookup "data", ∀ ptype,
      getDatatypeFromJson (members.lookup "type") = .ok ptype → SafeRead crates vdata ptype
  | _ => True

/-- A member does not stop the reader. -/
def SafeReadMember (crates : ChronoDecimal) (m : String × Json) : Prop :=
  m.1 ≠ "@" → ∀ values, m.2 = .arr values → ∀ val ∈ values, SafeReadJson crates val

theorem ends_readJsonChecked (val : Json) :
    Ends (readJsonChecked crates val) ↔ SafeReadJson crates val := by
  cases val with
  | obj members =>
    unfold readJsonChecked SafeReadJson
    dsimp only
    cases members.lookup "data" with
    | none => exact iff_of_true (ends_ok _) fun vdata hvdata => nomatch hvdata
    | some vdata =>
      dsimp only
      cases getDatatypeFromJson (members.lookup "type") with
      | error e => exact iff_of_true (ends_ok _) fun _ _ ptype hptype => nomatch hptype
      | ok ptype =>
        dsimp only
        rw [ends_map, ends_readValueChecked]
        simp
  | _ => exact iff_of_true (ends_ok _) trivial

theorem eq_of_readJsonChecked {val : Json} {c : Option (Option (DataType × Value))}
    (h : readJsonChecked crates val = .ok c) : c = readJson crates.libraries val := by
  cases val with
  | obj members =>
    unfold readJsonChecked at h
    unfold readJson
    dsimp only at h ⊢
    cases hdata : members.lookup "data" with
    | none =>
      rw [hdata] at h
      exact (Except.ok.inj h).symm
    | some vdata =>
      rw [hdata] at h
      dsimp only at h ⊢
      cases htype : getDatatypeFromJson (members.lookup "type") with
      | error e =>
        rw [htype] at h
        exact (Except.ok.inj h).symm
      | ok ptype =>
        rw [htype] at h
        obtain ⟨c', hc', heq⟩ := bind_eq_ok h
        rw [eq_of_readValueChecked hc'] at heq
        exact (Except.ok.inj heq).symm
  | _ => exact (Except.ok.inj h).symm

theorem ends_jsonToPredicateChecked (predicate : String) (values : List Json)
    (s : Bool × IndividualObj) :
    Ends (jsonToPredicateChecked crates predicate values s) ↔
      ∀ val ∈ values, SafeReadJson crates val :=
  ends_foldlM (fun _ val => (ends_map _ _).trans (ends_readJsonChecked val)) values s

theorem eq_of_jsonToPredicateChecked {predicate : String} {values : List Json}
    {s s' : Bool × IndividualObj}
    (h : jsonToPredicateChecked crates predicate values s = .ok s') :
    s' = jsonToPredicate crates.libraries predicate values s := by
  refine (eq_foldl_of_foldlM (g := fun s val => addRead predicate s (readJson crates.libraries val))
    ?_ h).trans ?_
  · intro s val s' hval
    obtain ⟨c, hc, heq⟩ := bind_eq_ok hval
    rw [eq_of_readJsonChecked hc] at heq
    exact (Except.ok.inj heq).symm
  · unfold jsonToPredicate
    congr 1

theorem ends_parseMemberChecked (s : Bool × IndividualObj) (m : String × Json) :
    Ends (parseMemberChecked crates s m) ↔ SafeReadMember crates m := by
  unfold parseMemberChecked SafeReadMember
  by_cases hm : m.1 = "@"
  · rw [if_pos hm]
    cases m.2.asStr <;> exact iff_of_true (ends_ok _) fun hne => absurd hm hne
  · rw [if_neg hm]
    cases m.2 with
    | arr values =>
      refine (ends_jsonToPredicateChecked m.1 values s).trans ?_
      simp [hm]
    | _ => exact iff_of_true (ends_ok _) fun _ values hvalues => nomatch hvalues

theorem eq_of_parseMemberChecked {s s' : Bool × IndividualObj} {m : String × Json}
    (h : parseMemberChecked crates s m = .ok s') : s' = parseMember crates.libraries s m := by
  unfold parseMemberChecked at h
  unfold parseMember
  by_cases hm : m.1 = "@"
  · rw [if_pos hm] at h ⊢
    cases hid : m.2.asStr <;> rw [hid] at h <;> exact (Except.ok.inj h).symm
  · rw [if_neg hm] at h ⊢
    cases hvalues : m.2 <;> rw [hvalues] at h <;>
      first
        | exact eq_of_jsonToPredicateChecked h
        | exact (Except.ok.inj h).symm

/-- **The reader ends** when no value stops it. -/
theorem ends_parseMembersChecked (members : List (String × Json)) (s : Bool × IndividualObj) :
    Ends (parseMembersChecked crates members s) ↔ ∀ m ∈ members, SafeReadMember crates m :=
  ends_foldlM ends_parseMemberChecked members s

theorem eq_of_parseMembersChecked {s s' : Bool × IndividualObj}
    (h : parseMembersChecked crates members s = .ok s') :
    s' = parseMembers crates.libraries members s :=
  eq_foldl_of_foldlM (fun _ _ _ => eq_of_parseMemberChecked) h

end Reader

/-! ## When the writer ends -/

section Writer

variable {crates : ChronoDecimal}

/-- A value does not stop the writer. -/
def Writable (crates : ChronoDecimal) : Value → Prop
  | .num m e => Ends (decimalOf m e)
  | .datetime i => crates.InRange i.toInt
  | _ => True

theorem ends_dataJsonChecked (value : Value) :
    Ends (dataJsonChecked crates value) ↔ Writable crates value := by
  cases value with
  | num m e => exact ends_map _ _
  | datetime i => exact (ends_map _ _).trans (ends_timestamp _)
  | _ => exact iff_of_true (ends_ok _) trivial

theorem toNat_lowWord (i : Int64) : (lowWord i).toNat = (i.toInt % 4294967296).toNat := by
  rw [lowWord, UInt32.toNat_ofNat']
  exact Nat.mod_eq_of_lt (by omega)

theorem eq_of_decimalOf {m e : Int64} {d : Int × ℕ} (h : decimalOf m e = .ok d) :
    d = ((exponentToScale m e).1.toInt, (exponentToScale m e).2.toNat) := by
  obtain ⟨⟨num, scale⟩, hexponent, hnew⟩ := bind_eq_ok h
  obtain ⟨scale', hscale, hrest⟩ := bind_eq_ok hexponent
  obtain ⟨num', hnum, hpair⟩ := bind_eq_ok hrest
  obtain ⟨rfl, rfl⟩ := Prod.mk.inj (Except.ok.inj hpair)
  have hscale' : scale' = (exponentToScale m e).2 := by
    change scale' = if e < 0 then UInt32.ofNat ((e * -1).toInt % 4294967296).toNat else 0
    unfold scaleOfExponent at hscale
    split_ifs at hscale ⊢ with hneg
    · obtain ⟨product, hproduct, heq⟩ := bind_eq_ok hscale
      rw [eq_of_checkedMul hproduct] at heq
      exact (Except.ok.inj heq).symm
    · exact (Except.ok.inj hscale).symm
  have hnum' : num' = (exponentToScale m e).1 := by
    change num' =
      if 0 < e then m * Int64.ofInt (10 ^ (e.toInt % 4294967296).toNat) else m
    unfold numOfExponent at hnum
    split_ifs at hnum ⊢ with hpos
    · obtain ⟨p, hp, hmul⟩ := bind_eq_ok hnum
      rw [eq_of_checkedMul hmul, eq_of_checkedPow10 hp, toNat_lowWord]
    · exact (Except.ok.inj hnum).symm
  dsimp only at hnew
  unfold decimalNew at hnew
  split_ifs at hnew
  rw [← hscale', ← hnum']
  exact (Except.ok.inj hnew).symm

theorem eq_of_dataJsonChecked {value : Value} {d : Option Json}
    (h : dataJsonChecked crates value = .ok d) : d = dataJson value := by
  cases value with
  | num m e =>
    obtain ⟨decimal, hdecimal, heq⟩ := bind_eq_ok h
    rw [eq_of_decimalOf hdecimal] at heq
    exact (Except.ok.inj heq).symm
  | datetime i =>
    obtain ⟨t, ht, heq⟩ := bind_eq_ok h
    rw [eq_of_timestamp ht] at heq
    exact (Except.ok.inj heq).symm
  | _ => exact (Except.ok.inj h).symm

theorem ends_predicateJsonChecked (rs : List Resource) :
    Ends (predicateJsonChecked crates rs) ↔ ∀ r ∈ rs, Writable crates r.value := by
  rw [predicateJsonChecked, ends_map, ends_mapM]
  exact forall₂_congr fun r _ => (ends_map _ _).trans (ends_dataJsonChecked r.value)

theorem eq_of_predicateJsonChecked {rs : List Resource} {json : Json}
    (h : predicateJsonChecked crates rs = .ok json) : json = predicateJson rs := by
  obtain ⟨members, hmembers, heq⟩ := bind_eq_ok h
  have hmap : members = rs.map resourceMembers := by
    refine eq_map_of_mapM (fun r ms hr => ?_) hmembers
    obtain ⟨d, hd, hms⟩ := bind_eq_ok hr
    rw [eq_of_dataJsonChecked hd] at hms
    rw [← Except.ok.inj hms, resourceMembers]
    cases dataJson r.value <;> rfl
  rw [hmap] at heq
  rw [← Except.ok.inj heq]
  exact congrArg Json.arr List.map_map

/-- **The writer ends** when no value stops it. -/
theorem ends_asJsonChecked (π : IterOrder String) (obj : IndividualObj) :
    Ends (obj.asJsonChecked crates π) ↔
      ∀ p, ∀ rs ∈ obj.resources.lookup p, ∀ r ∈ rs, Writable crates r.value := by
  rw [IndividualObj.asJsonChecked, ends_map,
    ends_foldlM fun _ e => (ends_map _ _).trans (ends_predicateJsonChecked e.2)]
  constructor
  · intro h p rs hrs
    exact h (p, rs) ((HashMap.mem_iter π _ _ _).mpr hrs)
  · rintro h ⟨p, rs⟩ he
    exact h p rs ((HashMap.mem_iter π _ _ _).mp he)

theorem eq_of_asJsonChecked {π : IterOrder String} {obj : IndividualObj} {json : Json}
    (h : obj.asJsonChecked crates π = .ok json) : json = obj.asJson π := by
  obtain ⟨members, hmembers, heq⟩ := bind_eq_ok h
  rw [← Except.ok.inj heq, IndividualObj.asJson, IndividualObj.members]
  refine congrArg Json.obj (eq_foldl_of_foldlM (fun ms e ms' hms => ?_) hmembers)
  obtain ⟨value, hvalue, hset⟩ := bind_eq_ok hms
  rw [← Except.ok.inj hset, eq_of_predicateJsonChecked hvalue]

end Writer

/-! ## What is read -/

section Read

variable {crates : ChronoDecimal} {members : List (String × Json)} {vdata : Json} {ptype : DataType}

/-- The number of a date is a point in time. -/
def SafeNumber (crates : ChronoDecimal) (vdata : Json) (ptype : DataType) : Prop :=
  match ptype, vdata with
  | .datetime, .int i => ∀ t ∈ (Json.int i).asI64, crates.InRange t.toInt
  | _, _ => True

theorem toInt_ofInt_of_inRange {t : Int} (h : crates.InRange t) : (Int64.ofInt t).toInt = t := by
  obtain ⟨hlow, hhigh⟩ := crates.thousandfold
  exact Int64.toInt_ofInt_of_le (by have := h.1; omega) (by have := h.2; omega)

theorem inRange_of_datetimeFromStr {value : String} (hsafe : SafeText crates value) {i : Int64}
    (h : datetimeFromStr crates.libraries value = some i) : crates.InRange i.toInt := by
  unfold datetimeFromStr at h
  by_cases hz : 'Z' ∈ value.toList
  · rw [if_pos hz] at h
    obtain ⟨t, ht, rfl⟩ := Option.map_eq_some_iff.mp h
    obtain ⟨hlow, hhigh⟩ := parseRfc3339_bounds ht
    have hrange : crates.InRange t := ⟨crates.years.1.trans hlow, hhigh.trans crates.years.2⟩
    rwa [toInt_ofInt_of_inRange hrange]
  · rw [if_neg hz] at h
    obtain ⟨t, ht, rfl⟩ := Option.map_eq_some_iff.mp h
    obtain ⟨offset, hoffset, hkeeps⟩ := hsafe hz t ht
    rw [hoffset]
    cases offset with
    | none => exact (toInt_ofInt_of_inRange t.2).symm ▸ t.2
    | some o =>
      have hrange := hkeeps o rfl
      exact (toInt_ofInt_of_inRange hrange).symm ▸ hrange

theorem scale_le_of_decimalScale {value : String} {scale : ℕ}
    (h : decimalScale crates.libraries value = some scale) : scale ≤ 28 := by
  unfold decimalScale at h
  dsimp only at h
  split_ifs at h with hplain
  · rw [← Option.some.inj h]
    exact hplain.2.2.2.1
  · obtain ⟨n, -, rfl⟩ := Option.map_eq_some_iff.mp h
    exact Nat.lt_succ_iff.mp n.2

/-- **What is read** of a value is written when its number is a point in time. -/
theorem writable_readValue (hsafe : SafeRead crates vdata ptype) :
    (∀ c ∈ readValue crates.libraries members vdata ptype, Writable crates c.2) ↔
      SafeNumber crates vdata ptype := by
  have hdecimal : ∀ {m : Int64} {n : ℕ} {c : DataType × Value}, n ≤ 28 →
      (.decimal, .num m (Int64.ofInt (-(n : Int)))) = c → Writable crates c.2 := by
    rintro m n c hn rfl
    exact ends_decimalOf m hn
  cases ptype with
  | datetime =>
    cases vdata with
    | int i =>
      refine ⟨fun h t ht => ?_, fun h c hc => ?_⟩
      · exact h (.datetime, .datetime t) (Option.map_eq_some_iff.mpr ⟨t, ht, rfl⟩)
      · obtain ⟨t, ht, rfl⟩ := Option.map_eq_some_iff.mp hc
        exact h t ht
    | str v =>
      refine iff_of_true (fun c hc => ?_) trivial
      obtain ⟨i, hi, rfl⟩ := Option.map_eq_some_iff.mp hc
      exact inRange_of_datetimeFromStr hsafe hi
    | _ => exact iff_of_true (fun c hc => nomatch hc) trivial
  | decimal =>
    cases vdata with
    | int i =>
      refine iff_of_true (fun c hc => ?_) trivial
      obtain ⟨v, -, hv⟩ := Option.map_eq_some_iff.mp hc
      exact hdecimal (Nat.zero_le 28) hv
    | float v =>
      refine iff_of_true (fun c hc => ?_) trivial
      obtain ⟨d, hd, hv⟩ := Option.map_eq_some_iff.mp hc
      obtain ⟨n, hn, rfl⟩ := Option.map_eq_some_iff.mp hd
      obtain ⟨scale, -, rfl⟩ := Option.map_eq_some_iff.mp hn
      exact hdecimal (Nat.lt_succ_iff.mp scale.2) hv
    | str v =>
      refine iff_of_true (fun c hc => ?_) trivial
      obtain ⟨d, hd, hv⟩ := Option.map_eq_some_iff.mp hc
      unfold decimalFromStr at hd
      cases hscale : decimalScale crates.libraries v with
      | none =>
        rw [hscale] at hd
        exact nomatch hd
      | some scale =>
        rw [hscale] at hd
        obtain ⟨m, -, rfl⟩ := Option.map_eq_some_iff.mp hd
        exact hdecimal (scale_le_of_decimalScale hscale) hv
    | _ => exact iff_of_true (fun c hc => nomatch hc) trivial
  | _ =>
    refine iff_of_true (fun c hc => ?_) trivial
    obtain ⟨v, -, rfl⟩ := Option.map_eq_some_iff.mp hc
    trivial

end Read

end Veda.Onto
