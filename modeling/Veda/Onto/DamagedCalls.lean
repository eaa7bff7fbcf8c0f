import Veda.Onto.Lazy

set_option autoImplicit false

/-!
# Calls on a damaged record

When a value cannot be read, the decoder stops. The values in front of it are in the individual
already, but the cursor is still where the call began, so that a further call decodes the same bytes
again. When the name of a predicate cannot be read, the cursor is behind the bytes that were taken,
and a further call goes on there.

## Main definitions

* `Onto.onePass` — what one pass over the bytes up to the first error yields.
* `Onto.GetterName`, `Onto.Individual.call` — the getters under their names.
* `Onto.Settled` — the bytes in front of the cursor are whole predicates, with the values that
  the individual holds.
* `Onto.Called` — the states of a run whose calls meet their conditions.

## Main results

* `Onto.Settled.parse` — one read of a settled individual.
* `Onto.notGrown_of_called` — no call in such a run panics, and no predicate grows.
-/

namespace Veda.Onto

open Veda.Lib Veda.Lib.Msgpack

/-! ## What the readers leave -/

theorem leaves_readTextInto (size : ℕ) (b : UInt8) (s : List UInt8) :
    Leaves s ((readTextInto size).run (b :: s)) := by
  refine (leaves_readStr size b s).attempt.bind fun answer => ?_
  rcases answer with (_ | _ | _ | _ | buf) | v
  all_goals first | exact .pure _ | exact .throw _

theorem leaves_readRawInto (size : ℕ) (b : UInt8) (s : List UInt8) :
    Leaves s ((readRawInto size).run (b :: s)) := by
  refine (leaves_readStr size b s).attempt.bind fun answer => ?_
  rcases answer with (_ | _ | _ | _ | buf) | v
  all_goals first | exact .pure _ | exact .throw _

theorem leaves_readStringFromMsgpack (b : UInt8) (s : List UInt8) :
    Leaves s (readStringFromMsgpack.run (b :: s)) := by
  have hmarker : readMarker.run (b :: s) = .ok (Marker.fromU8 b) s := rfl
  have hlength := leaves_readStrLen b s
  have htext := fun size => leaves_readTextInto size b s
  simp only [readStringFromMsgpack, EStateM.run_bind, EStateM.run_get, run_attempt, hmarker]
  cases Marker.fromU8 b
  case fixStr size => exact htext size
  case null => exact List.suffix_rfl
  case str8 | str16 | str32 =>
    simp only [EStateM.run_bind, EStateM.run_set, run_attempt]
    cases hrun : readStrLen.run (b :: s) with
    | ok size s' => exact htext size
    | error e s' =>
      rw [hrun] at hlength
      exact hlength
  all_goals exact List.suffix_rfl

theorem forward_readStringFromMsgpack : Forward readStringFromMsgpack := by
  intro s
  cases s with
  | nil => exact List.suffix_rfl
  | cons b s => exact (leaves_readStringFromMsgpack b s).mono (List.suffix_cons b s)

theorem forward_readRaw : Forward readRaw := by
  intro s
  cases s with
  | nil => exact List.suffix_rfl
  | cons b s =>
    have hmarker : readMarker.run (b :: s) = .ok (Marker.fromU8 b) s := rfl
    have hlength := leaves_readStrLen b s
    have hraw := fun size => leaves_readRawInto size b s
    refine Leaves.mono ?_ (List.suffix_cons b s)
    simp only [readRaw, EStateM.run_bind, EStateM.run_get, run_attempt, hmarker]
    cases Marker.fromU8 b
    case fixStr size => exact hraw size
    case str8 | str16 | str32 =>
      simp only [EStateM.run_bind, EStateM.run_set, run_attempt]
      cases hrun : readStrLen.run (b :: s) with
      | ok size s' => exact hraw size
      | error e s' =>
        rw [hrun] at hlength
        exact hlength
    all_goals exact List.suffix_rfl

/-! ## Decoders that succeed -/

/-- No predicate has an empty list of values. -/
def Filled (obj : IndividualObj) : Prop := ∀ p, obj.resources.lookup p ≠ some []

theorem Filled.push {obj : IndividualObj} (h : Filled obj) (predicate : String) (r : Resource) :
    Filled (obj.push predicate r) := by
  intro p
  by_cases hp : p = predicate
  · rw [hp, IndividualObj.lookup_push, Ne, Option.some.injEq]
    exact List.append_ne_nil_of_right_ne_nil _ (List.cons_ne_nil _ _)
  · rw [obj.lookup_push_ne r hp]
    exact h p

/-- When the decoder succeeds, it leaves an end of its input and no empty list. -/
def Succeeds {α : Type} (x : Decoder α) : Prop := ∀ st a st', x.run st = .ok a st' →
  st'.cur <:+ st.cur ∧ (Filled st.obj → Filled st'.obj)

namespace Succeeds

variable {α β ε : Type}

theorem pure (a : α) : Succeeds (Pure.pure a : Decoder α) := by
  intro st a' st' h
  cases h
  exact ⟨List.suffix_rfl, id⟩

theorem throw (e : ParseError) : Succeeds (MonadExcept.throw e : Decoder α) := by
  intro st a st' h
  cases h

theorem bind {x : Decoder α} {f : α → Decoder β} (hx : Succeeds x) (hf : ∀ a, Succeeds (f a)) :
    Succeeds (x >>= f) := by
  intro st b st'' h
  rw [EStateM.run_bind] at h
  cases hrun : x.run st with
  | error e st' =>
    rw [hrun] at h
    cases h
  | ok a st' =>
    rw [hrun] at h
    obtain ⟨hcur, hfilled⟩ := hx st a st' hrun
    obtain ⟨hcur', hfilled'⟩ := hf a st' b st'' h
    exact ⟨hcur'.trans hcur, fun hobj => hfilled' (hfilled hobj)⟩

theorem reading {x : Reader ε α} (hx : Forward x) (toError : ε → ParseError) :
    Succeeds (reading x toError) := by
  intro st a st' h
  rw [run_reading] at h
  have hcur := hx st.cur
  cases hrun : x.run st.cur with
  | error e cur =>
    rw [hrun] at h
    cases h
  | ok a cur =>
    rw [hrun] at h hcur
    cases h
    exact ⟨hcur, id⟩

theorem adding {f : IndividualObj → IndividualObj} (h : ∀ obj, Filled obj → Filled (f obj)) :
    Succeeds (adding f) := by
  intro st a st' hrun
  cases hrun
  exact ⟨List.suffix_rfl, h st.obj⟩

theorem readingAdding {x : Reader ε α} (hx : Forward x) (toError : ε → ParseError)
    (predicate : String) (rtype : DataType) (value : α → Value) :
    Succeeds (do
      let res ← Onto.reading x toError
      Onto.adding (·.addValue predicate rtype (value res))) := by
  refine (reading hx toError).bind fun res => adding fun obj hobj => ?_
  rw [IndividualObj.addValue_eq_push]
  exact hobj.push predicate _

theorem binary (predicate : String) : Succeeds (do
    Onto.adding (·.entryOrDefault predicate)
    let res ← Onto.reading readRaw fun _ => ParseError.failReadRaw
    Onto.adding (·.pushBinary predicate res)) := by
  intro st a st' h
  rw [EStateM.run_bind] at h
  change EStateM.run (do
    let res ← Onto.reading readRaw fun _ => ParseError.failReadRaw
    Onto.adding (·.pushBinary predicate res)) ⟨st.cur, st.obj.entryOrDefault predicate⟩ = _ at h
  rw [EStateM.run_bind, run_reading] at h
  have hcur := forward_readRaw st.cur
  cases hrun : readRaw.run st.cur with
  | error e cur =>
    rw [hrun] at h
    cases h
  | ok res cur =>
    rw [hrun] at h hcur
    cases h
    refine ⟨hcur, fun hobj => ?_⟩
    show Filled ((st.obj.entryOrDefault predicate).pushBinary predicate res)
    rw [IndividualObj.pushBinary_entryOrDefault]
    exact hobj.push predicate _

theorem parseValue2 (predicate : String) (vType : UInt8) :
    Succeeds (parseValue2 predicate vType) := by
  unfold Onto.parseValue2
  split_ifs
  · exact readingAdding forward_readBool _ predicate .boolean Value.bool
  · exact readingAdding forward_readIntI64 _ predicate .datetime Value.datetime
  · exact readingAdding forward_readIntI64 _ predicate .integer Value.int
  · exact readingAdding forward_readStringFromMsgpack _ predicate .uri Value.uri
  · exact binary predicate
  · exact readingAdding forward_readStringFromMsgpack _ predicate .string fun s => Value.str s .none
  · exact throw _

theorem parseValue3 (predicate : String) (vType : UInt8) :
    Succeeds (parseValue3 predicate vType) := by
  unfold Onto.parseValue3
  split_ifs
  · exact bind (reading forward_readIntI64 _) fun m =>
      readingAdding forward_readIntI64 _ predicate .decimal fun e => Value.num m e
  · exact bind (reading forward_readStringFromMsgpack _) fun s =>
      readingAdding forward_readIntI64 _ predicate .string fun l => Value.str s (Lang.newFromI64 l)
  · exact pure _

theorem parseValue (predicate : String) : Succeeds (parseValue predicate) := by
  refine bind (reading forward_readMarker _) fun marker => ?_
  split
  · split_ifs
    · exact throw _
    · exact bind (reading forward_readIntU8 _) fun vType => parseValue2 predicate vType
    · exact bind (reading forward_readIntU8 _) fun vType => parseValue3 predicate vType
  · exact throw _

theorem parseValueList (predicate : String) (size : ℕ) :
    Succeeds (parseValueList predicate size) := by
  induction size with
  | zero => exact pure _
  | succ size ih => exact bind (parseValue predicate) fun _ => ih

theorem parseValues (predicate : String) : Succeeds (parseValues predicate) :=
  bind (reading forward_readArrayLen _) fun size => parseValueList predicate size

end Succeeds

/-! ## One pass -/

/-- Decode predicates up to the first error. -/
def passFrom : ℕ → Decoding → IndividualObj
  | 0, st => st.obj
  | fuel + 1, st =>
    match readStringFromMsgpack.run st.cur with
    | .error _ _ => st.obj
    | .ok predicate cur =>
      match (parseValues predicate).run ⟨cur, st.obj⟩ with
      | .error _ st' => st'.obj
      | .ok () st' => passFrom fuel st'

/-- What one pass from a place yields; a predicate takes at least a byte. -/
def pass (st : Decoding) : IndividualObj := passFrom (st.cur.length + 1) st

/-- The bytes at the cursor and the individual so far. -/
def Individual.decoding (iraw : Individual) : Decoding :=
  ⟨iraw.raw.data.drop iraw.raw.cur, iraw.obj⟩

/-- What one pass over the bytes of an individual up to the first error yields. -/
def onePass (iraw : Individual) : IndividualObj := pass iraw.decoding

/-- A predicate with its values is decoded. -/
def TakesEntry (st st' : Decoding) : Prop := ∃ predicate cur,
  readStringFromMsgpack.run st.cur = .ok predicate cur ∧
    (parseValues predicate).run ⟨cur, st.obj⟩ = .ok () st'

section Pass

variable {st st' : Decoding}

theorem TakesEntry.suffix (h : TakesEntry st st') :
    st'.cur <:+ st.cur ∧ st'.cur.length < st.cur.length := by
  obtain ⟨predicate, cur, hname, hvalues⟩ := h
  have hcur := (Succeeds.parseValues predicate _ _ _ hvalues).1
  cases hst : st.cur with
  | nil =>
    have hnil : readStringFromMsgpack.run [] = .error (-2) [] := rfl
    rw [hst, hnil] at hname
    cases hname
  | cons b s =>
    have hleaves := leaves_readStringFromMsgpack b s
    rw [← hst, hname] at hleaves
    have hs : st'.cur <:+ s := hcur.trans hleaves
    exact ⟨hs.trans (List.suffix_cons b s), Nat.lt_succ_of_le hs.length_le⟩

theorem TakesEntry.filled (h : TakesEntry st st') (hobj : Filled st.obj) : Filled st'.obj := by
  obtain ⟨predicate, cur, -, hvalues⟩ := h
  exact (Succeeds.parseValues predicate _ _ _ hvalues).2 hobj

theorem passFrom_eq {fuel : ℕ} (h : st.cur.length < fuel) : passFrom fuel st = pass st := by
  induction fuel using Nat.strongRecOn generalizing st with
  | ind fuel ih =>
    obtain ⟨fuel, rfl⟩ := Nat.exists_eq_add_one_of_ne_zero (by omega : fuel ≠ 0)
    rw [pass, passFrom, passFrom]
    cases hname : readStringFromMsgpack.run st.cur with
    | error e cur => rfl
    | ok predicate cur =>
      dsimp only
      cases hvalues : (parseValues predicate).run ⟨cur, st.obj⟩ with
      | error e st' => rfl
      | ok u st' =>
        have hlt := (TakesEntry.suffix ⟨predicate, cur, hname, hvalues⟩).2
        dsimp only
        rw [ih fuel (Nat.lt_succ_self fuel) (by omega)]
        rcases Nat.lt_or_ge st.cur.length (fuel + 1) with hfuel | hfuel
        · exact (ih st.cur.length hfuel hlt).symm
        · omega

theorem TakesEntry.pass_eq (h : TakesEntry st st') : pass st = pass st' := by
  have hlt := h.suffix.2
  obtain ⟨predicate, cur, hname, hvalues⟩ := h
  rw [pass, passFrom, hname]
  dsimp only
  rw [hvalues]
  exact passFrom_eq hlt

theorem pass_eq_of_entries (h : Relation.ReflTransGen TakesEntry st st') : pass st = pass st' := by
  induction h with
  | refl => rfl
  | tail _ hstep ih => exact ih.trans hstep.pass_eq

theorem filled_of_entries (h : Relation.ReflTransGen TakesEntry st st') (hobj : Filled st.obj) :
    Filled st'.obj := by
  induction h with
  | refl => exact hobj
  | tail _ hstep ih => exact hstep.filled ih

theorem extends_passFrom (fuel : ℕ) (st : Decoding) : Extends st.obj (passFrom fuel st) := by
  induction fuel generalizing st with
  | zero => exact Extends.refl _
  | succ fuel ih =>
    rw [passFrom]
    cases readStringFromMsgpack.run st.cur with
    | error e cur => exact Extends.refl _
    | ok predicate cur =>
      have hgrows := Grows.parseValues predicate ⟨cur, st.obj⟩
      dsimp only
      cases hrun : (parseValues predicate).run ⟨cur, st.obj⟩ with
      | error e st' =>
        rw [hrun] at hgrows
        exact hgrows
      | ok u st' =>
        rw [hrun] at hgrows
        exact Extends.trans hgrows (ih st')

end Pass

/-! ## Calls -/

/-- The getters under their names. -/
inductive GetterName
  | isExists
  | anyExists (values : List String)
  | isExistsBool (value : Bool)
  | getResources
  | getLiterals
  | getFirstLiteral
  | getFirstLiteralWithLang (lang : List Lang)
  | getFirstBool
  | getFirstBinobj
  | getFirstInteger
  | getFirstNumber
  | getFirstDatetime
  | getFirstFloat
  deriving DecidableEq

/-- The getters that take `v[0]` of a list. -/
def GetterName.takesFirst : GetterName → Bool
  | .getFirstLiteral | .getFirstBool | .getFirstBinobj | .getFirstInteger | .getFirstNumber
  | .getFirstDatetime | .getFirstFloat => true
  | _ => false

section Call

variable (cbor : CborParser) (predicate : String) (iraw : Individual)

/-- A call of a getter: whether it panics, and the individual behind it. -/
def Individual.callGetter {ρ : Type} (g : Getter ρ) : Except Panic Unit × Individual :=
  ((iraw.get cbor g predicate).1.map fun _ => (), (iraw.get cbor g predicate).2)

/-- A call of a getter with its name. -/
def Individual.call : GetterName → Except Panic Unit × Individual
  | .isExists => iraw.callGetter cbor predicate Getter.isExists
  | .anyExists values => iraw.callGetter cbor predicate (Getter.anyExists values)
  | .isExistsBool value => iraw.callGetter cbor predicate (Getter.isExistsBool value)
  | .getResources => iraw.callGetter cbor predicate Getter.getResources
  | .getLiterals => iraw.callGetter cbor predicate Getter.getLiterals
  | .getFirstLiteral => iraw.callGetter cbor predicate Getter.getFirstLiteral
  | .getFirstLiteralWithLang lang =>
    iraw.callGetter cbor predicate (Getter.getFirstLiteralWithLang lang)
  | .getFirstBool => iraw.callGetter cbor predicate Getter.getFirstBool
  | .getFirstBinobj => iraw.callGetter cbor predicate Getter.getFirstBinobj
  | .getFirstInteger => iraw.callGetter cbor predicate Getter.getFirstInteger
  | .getFirstNumber => iraw.callGetter cbor predicate Getter.getFirstNumber
  | .getFirstDatetime => iraw.callGetter cbor predicate Getter.getFirstDatetime
  | .getFirstFloat => iraw.callGetter cbor predicate Getter.getFirstFloat

end Call

/-- The getter panics at most at an empty list, and only when it takes the first value. -/
def Getter.Tame {ρ : Type} (g : Getter ρ) (takesFirst : Bool) : Prop :=
  ∀ v, (v = [] → takesFirst = false) → ∃ answer, g.inspect v = .ok answer

theorem exists_getter (cbor : CborParser) (name : GetterName) :
    ∃ (ρ : Type) (g : Getter ρ), g.Tame name.takesFirst ∧
      ∀ predicate iraw, Individual.call cbor predicate iraw name =
        iraw.callGetter cbor predicate g := by
  cases name
  case isExists => exact ⟨_, _, fun _ _ => ⟨_, rfl⟩, fun _ _ => rfl⟩
  case anyExists => exact ⟨_, _, fun _ _ => ⟨_, rfl⟩, fun _ _ => rfl⟩
  case isExistsBool => exact ⟨_, _, fun _ _ => ⟨_, rfl⟩, fun _ _ => rfl⟩
  case getResources => exact ⟨_, _, fun _ _ => ⟨_, rfl⟩, fun _ _ => rfl⟩
  case getLiterals => exact ⟨_, _, fun _ _ => ⟨_, rfl⟩, fun _ _ => rfl⟩
  case getFirstLiteralWithLang => exact ⟨_, _, fun _ _ => ⟨_, rfl⟩, fun _ _ => rfl⟩
  all_goals
    refine ⟨_, _, fun v hv => ?_, fun _ _ => rfl⟩
    cases v with
    | nil => exact absurd (hv rfl) (by decide)
    | cons r v =>
      obtain ⟨rtype, value, order⟩ := r
      cases value <;> exact ⟨_, rfl⟩

/-! ## Settled individuals -/

/-- The bytes in front of the cursor are whole predicates, and the individual holds their values and
nothing else. -/
structure Settled (start iraw : Individual) : Prop where
  data : iraw.raw.data = start.raw.data
  rawType : iraw.raw.rawType = .msgpack
  entries : Relation.ReflTransGen TakesEntry start.decoding iraw.decoding

/-- The individual holds what one pass yields. -/
structure Stopped (start iraw : Individual) : Prop where
  rawType : iraw.raw.rawType = .msgpack
  obj : iraw.obj = onePass start

section Settled

variable {start iraw iraw' : Individual}

theorem Settled.extends (h : Settled start iraw) : Extends iraw.obj (onePass start) := by
  rw [onePass, pass_eq_of_entries h.entries]
  exact extends_passFrom _ iraw.decoding

theorem Settled.filled (h : Settled start iraw) (hstart : Filled start.obj) : Filled iraw.obj :=
  filled_of_entries h.entries hstart

theorem decoding_setCur {obj : IndividualObj} {cur : List UInt8} (h : cur <:+ iraw.raw.data) :
    (Individual.setCur { iraw with obj } cur).decoding = ⟨cur, obj⟩ :=
  congrArg (Decoding.mk · obj) (@drop_setCur { iraw with obj } cur h)

theorem predicateLoop_settled (expect : String) {left i : ℕ} {st : Decoding}
    (hdata : iraw.raw.data = start.raw.data) (htype : iraw.raw.rawType = .msgpack)
    (hentries : Relation.ReflTransGen TakesEntry start.decoding st)
    (hobj : iraw.obj = st.obj) (hcur : st.cur <:+ iraw.raw.data) :
    match predicateLoop expect left i st.cur iraw with
    | (.ok (), iraw') => Settled start iraw'
    | (.error _, iraw') => Stopped start iraw' := by
  induction left generalizing i st iraw with
  | zero =>
    rw [predicateLoop]
    refine ⟨hdata, htype, ?_⟩
    rw [show iraw.setCur st.cur = Individual.setCur { iraw with obj := st.obj } st.cur by
      rw [← hobj], decoding_setCur hcur]
    exact hentries
  | succ left ih =>
    have hyields : onePass start = pass st := pass_eq_of_entries hentries
    rw [pass, passFrom] at hyields
    rw [predicateLoop]
    cases hname : readStringFromMsgpack.run st.cur with
    | error e cur =>
      rw [hname] at hyields
      exact ⟨htype, hobj.trans hyields.symm⟩
    | ok predicate cur =>
      rw [hname] at hyields
      dsimp only at hyields ⊢
      rw [hobj]
      cases hvalues : (parseValues predicate).run ⟨cur, st.obj⟩ with
      | error e st' =>
        rw [hvalues] at hyields
        exact ⟨htype, hyields.symm⟩
      | ok u st' =>
        have hstep : TakesEntry st st' := ⟨predicate, cur, hname, hvalues⟩
        have hcur' : st'.cur <:+ iraw.raw.data := hstep.suffix.1.trans hcur
        dsimp only
        by_cases hfound : predicate = expect
        · rw [if_pos hfound]
          refine ⟨hdata, htype, ?_⟩
          rw [@decoding_setCur ⟨iraw.obj, { iraw.raw with curPredicates := i }⟩ _ _ hcur']
          exact hentries.tail hstep
        · rw [if_neg hfound]
          exact @ih ⟨st'.obj, { iraw.raw with curPredicates := i }⟩ _ _ hdata htype
            (hentries.tail hstep) rfl hcur'

/-- **One read of a settled individual**: it is settled again, or it holds what one pass yields. -/
theorem Settled.parse (h : Settled start iraw) (cbor : CborParser) (expect : String)
    (hlt : iraw.raw.cur < iraw.raw.data.length) :
    match parseToPredicate cbor expect iraw with
    | (true, iraw') => Settled start iraw'
    | (false, iraw') => Stopped start iraw' := by
  have hloop := @predicateLoop_settled _ _ expect (iraw.raw.lenPredicates -
    iraw.raw.curPredicates) iraw.raw.curPredicates _ h.data h.rawType h.entries rfl
    (List.drop_suffix _ _)
  rw [parseToPredicate, if_pos h.rawType, parseMsgpackToPredicate, if_neg (by omega)]
  change match predicateLoop expect (iraw.raw.lenPredicates - iraw.raw.curPredicates)
      iraw.raw.curPredicates (iraw.raw.data.drop iraw.raw.cur) iraw with
    | (.ok (), iraw') => Settled start iraw'
    | (.error _, iraw') => Stopped start iraw' at hloop
  rcases hrun : predicateLoop expect (iraw.raw.lenPredicates - iraw.raw.curPredicates)
    iraw.raw.curPredicates (iraw.raw.data.drop iraw.raw.cur) iraw with ⟨_ | _, iraw'⟩
  all_goals
    rw [hrun] at hloop
    exact hloop

/-- What is true between two calls. -/
def Held (start iraw : Individual) : Prop := Settled start iraw ∨ Stopped start iraw

theorem Held.within (h : Held start iraw) (p : String) :
    iraw.obj.valuesOf p <+: (onePass start).valuesOf p := by
  rcases h with hsettled | hstopped
  · exact hsettled.extends.values p
  · rw [hstopped.obj]

/-- **A getter on a settled individual** does not panic. -/
theorem Settled.getLoop {ρ : Type} {g : Getter ρ} {takesFirst : Bool} (h : Settled start iraw)
    (hstart : Filled start.obj) (hg : g.Tame takesFirst) (cbor : CborParser) (p : String)
    (visits : ℕ) :
    (∃ answer, (Individual.getLoop cbor g p visits iraw).1 = .ok answer) ∧
      Held start (Individual.getLoop cbor g p visits iraw).2 := by
  induction visits generalizing iraw with
  | zero => exact ⟨⟨_, rfl⟩, .inl h⟩
  | succ visits ih =>
    rw [Individual.getLoop]
    cases hlookup : iraw.obj.resources.lookup p with
    | some v =>
      have hne : v ≠ [] := by
        rintro rfl
        exact h.filled hstart p hlookup
      obtain ⟨answer, hanswer⟩ := hg v fun hnil => absurd hnil hne
      dsimp only
      rw [hanswer]
      cases answer with
      | none => exact ih h
      | some answer => exact ⟨⟨_, rfl⟩, .inl h⟩
    | none =>
      dsimp only
      by_cases hlt : iraw.raw.cur < iraw.raw.data.length
      · rw [if_pos hlt]
        have hparse := h.parse cbor p hlt
        rcases hrun : parseToPredicate cbor p iraw with ⟨_ | _, iraw'⟩
        · rw [hrun] at hparse
          exact ⟨⟨_, rfl⟩, .inr hparse⟩
        · rw [hrun] at hparse
          exact ih hparse
      · rw [if_neg hlt]
        exact ⟨⟨_, rfl⟩, .inl h⟩

theorem Settled.parseAll (h : Settled start iraw) (cbor : CborParser) {fuel : ℕ}
    (hall : iraw.parseAll cbor fuel = some iraw') : Held start iraw' := by
  induction fuel generalizing iraw with
  | zero => cases hall
  | succ fuel ih =>
    rw [Individual.parseAll] at hall
    by_cases hlt : iraw.raw.cur < iraw.raw.data.length
    · rw [if_pos hlt] at hall
      have hparse := h.parse cbor "?" hlt
      rcases hrun : parseToPredicate cbor "?" iraw with ⟨_ | _, next⟩
      · rw [hrun] at hall hparse
        cases hall
        exact .inr hparse
      · rw [hrun] at hall hparse
        exact ih hparse hall
    · rw [if_neg hlt] at hall
      cases hall
      exact .inl h

end Settled

/-! ## Runs -/

/-- The individual behind `parse_raw`, whatever it answers. -/
def parsedRaw (cbor : CborParser) (data : List UInt8) : Individual :=
  ((Individual.newRaw (.new data)).parseRaw cbor).2

/-- The call does not decode: its predicate is in the individual, or nothing is left to decode. -/
def Individual.Decoded (iraw : Individual) (predicate : String) : Prop :=
  iraw.obj.resources.lookup predicate ≠ none ∨ iraw.raw.data.length ≤ iraw.raw.cur

/-- The condition of a call: it decodes only when the individual is settled, and a getter that takes
the first value does not find an empty list. -/
structure MayCall (start iraw : Individual) (name : GetterName) (predicate : String) : Prop where
  settled : iraw.Decoded predicate ∨ Settled start iraw
  first : name.takesFirst = true → iraw.obj.resources.lookup predicate ≠ some []

/-- The states of a run whose calls meet their conditions. -/
inductive Called (cbor : CborParser) (start : Individual) : Individual → Prop
  | start : Called cbor start start
  | get {iraw : Individual} (name : GetterName) (predicate : String) : Called cbor start iraw →
    MayCall start iraw name predicate → Called cbor start (iraw.call cbor predicate name).2
  | parseAll {iraw full : Individual} (fuel : ℕ) : Called cbor start iraw →
    (iraw.raw.data.length ≤ iraw.raw.cur ∨ Settled start iraw) →
    iraw.parseAll cbor fuel = some full → Called cbor start full

section Runs

variable {cbor : CborParser} {data : List UInt8} {start iraw : Individual}

theorem getLoop_of_decoded {ρ : Type} {g : Getter ρ} {predicate : String}
    (h : iraw.Decoded predicate) (visits : ℕ) :
    (Individual.getLoop cbor g predicate visits iraw).2 = iraw ∧
      ∀ takesFirst, g.Tame takesFirst →
        (takesFirst = true → iraw.obj.resources.lookup predicate ≠ some []) →
        ∃ answer, (Individual.getLoop cbor g predicate visits iraw).1 = .ok answer := by
  induction visits with
  | zero => exact ⟨rfl, fun _ _ _ => ⟨_, rfl⟩⟩
  | succ visits ih =>
    rw [Individual.getLoop]
    cases hlookup : iraw.obj.resources.lookup predicate with
    | none =>
      dsimp only
      rcases h with hsome | hend
      · exact absurd hlookup hsome
      · rw [if_neg (by omega)]
        exact ⟨rfl, fun _ _ _ => ⟨_, rfl⟩⟩
    | some v =>
      rw [hlookup] at ih
      dsimp only
      refine ⟨?_, fun takesFirst hg hfirst => ?_⟩
      · cases g.inspect v with
        | error panic => rfl
        | ok answer =>
          cases answer with
          | none => exact ih.1
          | some answer => rfl
      · obtain ⟨answer, hanswer⟩ := hg v fun hnil => by
          cases takesFirst with
          | false => rfl
          | true => exact absurd (congrArg some hnil) (hfirst rfl)
        rw [hanswer]
        cases answer with
        | none => exact ih.2 takesFirst hg hfirst
        | some answer => exact ⟨_, rfl⟩

/-- **A call** that meets its condition does not panic, and leaves at most what one pass yields. -/
theorem Held.call (h : Held start iraw) (hstart : Filled start.obj) (cbor : CborParser)
    {name : GetterName} {predicate : String} (hmay : MayCall start iraw name predicate) :
    (iraw.call cbor predicate name).1 = .ok () ∧
      Held start (iraw.call cbor predicate name).2 := by
  obtain ⟨ρ, g, htame, hcall⟩ := exists_getter cbor name
  rw [hcall]
  have hanswer : ∀ {x : Except Panic ρ}, (∃ answer, x = .ok answer) →
      x.map (fun _ => ()) = .ok () := by
    rintro x ⟨answer, rfl⟩
    rfl
  rcases hmay.settled with hdecoded | hsettled
  · obtain ⟨hsame, hok⟩ := @getLoop_of_decoded cbor iraw _ g _ hdecoded 2
    refine ⟨hanswer (hok name.takesFirst htame hmay.first), ?_⟩
    show Held start (Individual.getLoop cbor g predicate 2 iraw).2
    rw [hsame]
    exact h
  · obtain ⟨hok, hheld⟩ := hsettled.getLoop hstart htame cbor predicate 2
    exact ⟨hanswer hok, hheld⟩

theorem parseAll_of_end (cbor : CborParser) {full : Individual} {fuel : ℕ}
    (hend : iraw.raw.data.length ≤ iraw.raw.cur) (h : iraw.parseAll cbor fuel = some full) :
    full = iraw := by
  cases fuel with
  | zero => cases h
  | succ fuel =>
    rw [Individual.parseAll, if_neg (by omega)] at h
    exact (Option.some.inj h).symm

theorem Called.held (h : Called cbor start iraw) (htype : start.raw.rawType = .msgpack)
    (hstart : Filled start.obj) : Held start iraw := by
  induction h with
  | start => exact .inl ⟨rfl, htype, .refl⟩
  | get name predicate _ hmay ih => exact (ih.call hstart cbor hmay).2
  | parseAll fuel _ hmay hall ih =>
    rcases hmay with hend | hsettled
    · rw [parseAll_of_end cbor hend hall]
      exact ih
    · exact hsettled.parseAll cbor hall

theorem parsedRaw_eq (cbor : CborParser) (hfirst : data.head? = some msgpackMagicHeader) :
    (parsedRaw cbor data).raw.rawType = .msgpack ∧ Filled (parsedRaw cbor data).obj := by
  cases data with
  | nil => cases hfirst
  | cons first rest =>
    obtain rfl := Option.some.inj hfirst
    have hempty : ∀ uri, Filled { IndividualObj.empty with uri } := fun uri p hp => by
      cases hp
    unfold parsedRaw Individual.parseRaw
    dsimp only [Individual.newRaw, RawObj.new]
    rw [if_pos rfl]
    unfold parseMsgpack
    rw [if_neg (by simp)]
    dsimp only
    cases readHeader.run (msgpackMagicHeader :: rest) with
    | ok header cur => exact ⟨rfl, hempty _⟩
    | error e cur => exact ⟨rfl, hempty _⟩

/-- **Calls on a record**, damaged or not. In a run in which a call decodes only when the bytes in
front of the cursor are whole predicates with the values that the individual holds, every predicate
holds at most what one pass over the bytes yields, and a call does not panic unless it takes the
first value of an empty list.

**Proof sketch.** A settled individual is settled after a read, or the read has come to the first
error and the individual holds what one pass yields. In both cases the values are a beginning of
those of the pass. Empty lists are only left by a read that fails. -/
theorem notGrown_of_called (hfirst : data.head? = some msgpackMagicHeader)
    (h : Called cbor (parsedRaw cbor data) iraw) :
    (∀ p, iraw.obj.valuesOf p <+: (onePass (parsedRaw cbor data)).valuesOf p) ∧
      ∀ name predicate, MayCall (parsedRaw cbor data) iraw name predicate →
        (iraw.call cbor predicate name).1 = .ok () := by
  obtain ⟨htype, hfilled⟩ := parsedRaw_eq cbor hfirst
  have hheld := h.held htype hfilled
  exact ⟨hheld.within, fun name predicate hmay => (hheld.call hfilled cbor hmay).1⟩

end Runs

/-! ## A damaged value -/

/-- A record with one predicate, whose first value is `1` and whose second value is damaged. -/
def damagedValue : List UInt8 := [146, 161, 117, 129, 161, 112, 146, 146, 4, 1, 193]

/-- The first call decodes up to the damaged value. -/
theorem notGrown_firstCall :
    (∀ p, ((parsedRaw noCbor damagedValue).call noCbor "x" .isExists).2.obj.valuesOf p <+:
      (onePass (parsedRaw noCbor damagedValue)).valuesOf p) ∧
    ∀ name predicate, MayCall (parsedRaw noCbor damagedValue)
        ((parsedRaw noCbor damagedValue).call noCbor "x" .isExists).2 name predicate →
      (((parsedRaw noCbor damagedValue).call noCbor "x" .isExists).2.call noCbor predicate
        name).1 = .ok () :=
  notGrown_of_called (by decide) (.get .isExists "x" .start
    ⟨.inr ⟨rfl, by decide, .refl⟩, fun h => absurd h (by decide)⟩)

/-- The second call decodes the first value once more. -/
theorem not_notGrown_secondCall :
    ¬ ∀ p, (((parsedRaw noCbor damagedValue).call noCbor "x" .isExists).2.call noCbor "x"
        .isExists).2.obj.valuesOf p <+:
      (onePass (parsedRaw noCbor damagedValue)).valuesOf p := by
  intro h
  have hlength := (h "p").length_le
  have htwice : ((((parsedRaw noCbor damagedValue).call noCbor "x" .isExists).2.call noCbor "x"
      .isExists).2.obj.valuesOf "p").length = 2 := by
    decide
  have honce : ((onePass (parsedRaw noCbor damagedValue)).valuesOf "p").length = 1 := by decide
  omega

end Veda.Onto
