import Veda.Onto.Cbor
import Veda.Onto.Damage

set_option autoImplicit false

/-!
# The entries of a CBOR record

What the decoder appends for a predicate depends on the bytes alone and not on the individual, so
that one can say which entries the bytes hold: a key, the values that are appended for it, and the
next key where these values end. A search takes the entries up to its predicate. When the predicate
is not among them it takes all of them, and the cursor stays where it was.

## Main definitions

* `Onto.Appends` — a step of the decoder appends values that depend on the bytes alone.
* `Onto.Holds` — the entries that are left in some bytes of a record.

## Main results

* `Onto.Appends.addValue` — one value of a predicate.
* `Onto.addValue_succ` — more fuel than bytes changes nothing.
* `Onto.Holds.loop_found`, `Onto.Holds.loop_missed` — the ways in which a search ends.
-/

namespace Veda.Onto

open Veda.Lib

/-! ## What a decoder step does to the individual -/

/-- The step moves forward and appends values to the predicate; what it appends and where it stops
depend on the bytes alone. -/
def Appends {α : Type} (predicate : String) (x : StateM Decoding α) : Prop :=
  ∀ cur, ∃ a rs cur', cur' <:+ cur ∧
    ∀ obj : IndividualObj, x ⟨cur, obj⟩ = (a, ⟨cur', obj.addStored predicate rs⟩)

theorem IndividualObj.addStored_append (obj : IndividualObj) (predicate : String)
    (rs rs' : List Resource) :
    obj.addStored predicate (rs ++ rs') = (obj.addStored predicate rs).addStored predicate rs' := by
  induction rs generalizing obj with
  | nil => rfl
  | cons r rs ih => exact ih _

namespace Appends

variable {α β : Type} {predicate : String}

theorem pure (a : α) : Appends predicate (Pure.pure a : StateM Decoding α) :=
  fun cur => ⟨a, [], cur, List.suffix_rfl, fun _ => rfl⟩

theorem bind {x : StateM Decoding α} {f : α → StateM Decoding β} (hx : Appends predicate x)
    (hf : ∀ a, Appends predicate (f a)) : Appends predicate (x >>= f) := by
  intro cur
  obtain ⟨a, rs, cur₁, hcur₁, hrun⟩ := hx cur
  obtain ⟨b, rs', cur₂, hcur₂, hrun'⟩ := hf a cur₁
  refine ⟨b, rs ++ rs', cur₂, hcur₂.trans hcur₁, fun obj => ?_⟩
  show f (x ⟨cur, obj⟩).1 (x ⟨cur, obj⟩).2 = _
  rw [hrun obj, IndividualObj.addStored_append]
  exact hrun' _

theorem tryRead (x : CborRead α) : Appends predicate (tryRead x) := by
  intro cur
  have hforward := x.2 cur
  cases hrun : x.1.run cur with
  | ok a rest =>
    rw [hrun] at hforward
    refine ⟨some a, [], rest, hforward, fun obj => ?_⟩
    unfold Onto.tryRead
    rw [hrun]
    rfl
  | error e rest =>
    rw [hrun] at hforward
    refine ⟨none, [], rest, hforward, fun obj => ?_⟩
    unfold Onto.tryRead
    rw [hrun]
    rfl

theorem changing {f : IndividualObj → IndividualObj} (r : Resource)
    (h : ∀ obj, f obj = obj.addStored predicate [r]) : Appends predicate (changing f) := by
  refine fun cur => ⟨(), [r], cur, List.suffix_rfl, fun obj => ?_⟩
  rw [← h obj]
  rfl

theorem times {x : StateM Decoding Bool} (hx : Appends predicate x) (n : ℕ) :
    Appends predicate (times x n) := by
  induction n with
  | zero => exact pure ()
  | succ n ih => exact hx.bind fun _ => ih

variable (crate : CborCrate)

theorem addBool (ti : TypeInfo) : Appends predicate (addBool crate predicate ti) := by
  refine (tryRead _).bind fun b => ?_
  cases b with
  | none => exact pure ()
  | some b => exact changing ⟨.boolean, .bool b, 0⟩ fun obj => rfl

theorem addText (ti : TypeInfo) (tag : UInt64) :
    Appends predicate (addText crate predicate ti tag) := by
  refine (tryRead _).bind fun t => ?_
  cases t with
  | none => exact pure ()
  | some t =>
    dsimp only
    split_ifs
    · exact changing ⟨.uri, .uri t, 0⟩ fun obj => rfl
    · exact changing ⟨.string, .str t (langOfTag tag), 0⟩ fun obj => rfl

theorem addNumber (ti : TypeInfo) (tag : UInt64) :
    Appends predicate (addNumber crate predicate ti tag) := by
  refine (tryRead _).bind fun i => ?_
  cases i with
  | none => exact pure ()
  | some i =>
    dsimp only
    split_ifs
    · exact changing ⟨.datetime, .datetime (correctNegative i), 0⟩ fun obj => rfl
    · exact changing ⟨.integer, .int (correctNegative i), 0⟩ fun obj => rfl

theorem readNumber : Appends predicate (readNumber crate) := by
  refine (tryRead _).bind fun ti => ?_
  cases ti with
  | none => exact pure none
  | some ti =>
    refine (tryRead _).bind fun i => ?_
    cases i with
    | none => exact pure none
    | some i => exact pure (some (correctNegative i))

theorem addDecimal : Appends predicate (addDecimal crate predicate) := by
  refine (readNumber crate).bind fun m => ?_
  cases m with
  | none => exact pure ()
  | some m =>
    refine (readNumber crate).bind fun e => ?_
    cases e with
    | none => exact pure ()
    | some e => exact changing ⟨.decimal, .num m e, 0⟩ fun obj => rfl

/-- **One value**: what is appended depends on the bytes alone. -/
theorem addValue (maxLenArray : Option ℕ) (fuel : ℕ) :
    Appends predicate (addValue crate maxLenArray predicate fuel) := by
  induction fuel with
  | zero => exact pure true
  | succ fuel ih =>
    refine (tryRead _).bind fun read => ?_
    cases read with
    | none => exact pure true
    | some read =>
      obtain ⟨⟨type, info⟩, tag⟩ := read
      cases type with
      | bool => exact (addBool crate _).bind fun _ => pure true
      | bytes | text => exact (addText crate _ tag).bind fun _ => pure true
      | uint8 | int8 | uint16 | int16 | uint32 | int32 | int64 | uint64 =>
        exact (addNumber crate _ tag).bind fun _ => pure true
      | array =>
        refine (tryRead _).bind fun len => ?_
        cases len with
        | none => exact pure false
        | some len =>
          dsimp only
          split_ifs
          · exact (addDecimal crate).bind fun _ => pure true
          · exact (ih.times len).bind fun _ => pure true
      | other => exact pure false

end Appends

/-! ## Fuel -/

section Fuel

variable (crate : CborCrate)

theorem tryRead_bind_ok {α β : Type} {x : CborRead α} {cur rest : List UInt8} {a : α}
    (h : x.1.run cur = .ok a rest) (f : Option α → StateM Decoding β) (obj : IndividualObj) :
    (tryRead x >>= f) ⟨cur, obj⟩ = f (some a) ⟨rest, obj⟩ := by
  show f (tryRead x ⟨cur, obj⟩).1 (tryRead x ⟨cur, obj⟩).2 = _
  rw [tryRead, h]

theorem tryRead_bind_error {α β : Type} {x : CborRead α} {cur rest : List UInt8} {e : Unit}
    (h : x.1.run cur = .error e rest) (f : Option α → StateM Decoding β) (obj : IndividualObj) :
    (tryRead x >>= f) ⟨cur, obj⟩ = f none ⟨rest, obj⟩ := by
  show f (tryRead x ⟨cur, obj⟩).1 (tryRead x ⟨cur, obj⟩).2 = _
  rw [tryRead, h]

theorem times_congr {predicate : String} {x y : StateM Decoding Bool} {n : ℕ}
    (hx : Appends predicate x)
    (hxy : ∀ cur obj, cur.length ≤ n → x ⟨cur, obj⟩ = y ⟨cur, obj⟩) (k : ℕ) (cur : List UInt8)
    (hcur : cur.length ≤ n) (obj : IndividualObj) : times x k ⟨cur, obj⟩ = times y k ⟨cur, obj⟩ := by
  induction k generalizing cur obj with
  | zero => rfl
  | succ k ih =>
    obtain ⟨a, rs, rest, hrest, hrun⟩ := hx cur
    show times x k (x ⟨cur, obj⟩).2 = times y k (y ⟨cur, obj⟩).2
    rw [← hxy cur obj hcur, hrun obj]
    exact ih rest (hrest.length_le.trans hcur) _

/-- **More fuel than bytes changes nothing.** Every level of the recursion takes a byte. -/
theorem addValue_succ (maxLenArray : Option ℕ) (predicate : String) (fuel : ℕ) (cur : List UInt8)
    (hcur : cur.length ≤ fuel) (obj : IndividualObj) :
    addValue crate maxLenArray predicate (fuel + 1) ⟨cur, obj⟩ =
      addValue crate maxLenArray predicate fuel ⟨cur, obj⟩ := by
  induction fuel generalizing cur obj with
  | zero =>
    obtain rfl := List.length_eq_zero_iff.mp (Nat.le_zero.mp hcur)
    have hforward := crate.typeinfoAndTag.2 []
    unfold addValue
    cases hrun : crate.typeinfoAndTag.1.run [] with
    | ok read rest => exact absurd (crate.typeinfoAndTag_lt hrun) (Nat.not_lt_zero _)
    | error e rest =>
      rw [hrun] at hforward
      have hnil : rest = [] := List.suffix_nil.mp hforward
      rw [tryRead_bind_error hrun, hnil]
  | succ fuel ih =>
    conv_lhs => unfold addValue
    conv_rhs => unfold addValue
    cases hrun : crate.typeinfoAndTag.1.run cur with
    | error e rest => rw [tryRead_bind_error hrun, tryRead_bind_error hrun]
    | ok read rest =>
      have hrest : rest.length ≤ fuel := by
        have hlt := crate.typeinfoAndTag_lt hrun
        omega
      rw [tryRead_bind_ok hrun, tryRead_bind_ok hrun]
      obtain ⟨⟨type, info⟩, tag⟩ := read
      cases type with
      | array =>
        dsimp only
        cases hlen : (crate.array maxLenArray ⟨.array, info⟩).1.run rest with
        | error e rest' => rw [tryRead_bind_error hlen, tryRead_bind_error hlen]
        | ok len rest' =>
          have hforward := (crate.array maxLenArray ⟨.array, info⟩).2 rest
          rw [hlen] at hforward
          rw [tryRead_bind_ok hlen, tryRead_bind_ok hlen]
          dsimp only
          split_ifs
          · rfl
          · have htimes := times_congr (Appends.addValue crate maxLenArray (fuel + 1))
              (fun cur obj hcur => ih cur hcur obj) len rest'
              (hforward.length_le.trans hrest) obj
            show (true, (times _ len ⟨rest', obj⟩).2) = (true, (times _ len ⟨rest', obj⟩).2)
            rw [htimes]
      | _ => rfl

theorem addValue_false {maxLenArray : Option ℕ} {predicate : String} {fuel : ℕ}
    {cur : List UInt8} {obj : IndividualObj}
    (h : (addValue crate maxLenArray predicate fuel ⟨cur, obj⟩).1 = false) :
    (addValue crate maxLenArray predicate fuel ⟨cur, obj⟩).2.obj = obj := by
  cases fuel with
  | zero => rfl
  | succ fuel =>
    unfold addValue at h ⊢
    cases hrun : crate.typeinfoAndTag.1.run cur with
    | error e rest =>
      rw [tryRead_bind_error hrun]
      rfl
    | ok read rest =>
      rw [tryRead_bind_ok hrun] at h ⊢
      obtain ⟨⟨type, info⟩, tag⟩ := read
      cases type with
      | array =>
        dsimp only at h ⊢
        cases hlen : (crate.array maxLenArray ⟨.array, info⟩).1.run rest with
        | error e rest' =>
          rw [tryRead_bind_error hlen]
          rfl
        | ok len rest' =>
          rw [tryRead_bind_ok hlen] at h
          dsimp only at h
          split_ifs at h <;> cases h
      | other => rfl
      | _ => cases h

end Fuel

/-! ## Entries -/

section Entries

variable (crate : CborCrate) (data : List UInt8)

/-- The decoder's reading of one value in the record `data`. -/
def valueAt (predicate : String) : StateM Decoding Bool :=
  addValue crate (maxLenArrayOf data) predicate data.length

/-- The entries that are left at a place of the record: a key, the values that are appended for it,
and the next entries where they end. The last key can have a value that is not taken; nothing is
read behind it. -/
inductive Holds : List UInt8 → List (String × List Resource) → Prop
  | done : Holds [] []
  | notTaken {cur cur₁ cur₂ : List UInt8} {ti : TypeInfo} {predicate : String} :
    crate.typeinfo.1.run cur = .ok ti cur₁ → (crate.text ti).1.run cur₁ = .ok predicate cur₂ →
    (∀ obj, (valueAt crate data predicate ⟨cur₂, obj⟩).1 = false) → Holds cur []
  | entry {cur cur₁ cur₂ rest : List UInt8} {ti : TypeInfo} {predicate : String}
    {rs : List Resource} {es : List (String × List Resource)} :
    crate.typeinfo.1.run cur = .ok ti cur₁ → (crate.text ti).1.run cur₁ = .ok predicate cur₂ →
    (∀ obj, valueAt crate data predicate ⟨cur₂, obj⟩ =
      (true, ⟨rest, obj.addStored predicate rs⟩)) →
    Holds rest es → Holds cur ((predicate, rs) :: es)

end Entries

/-! ## A search -/

section Search

variable {crate : CborCrate} {data : List UInt8} {p : String}

theorem typeinfo_nil (crate : CborCrate) : ∃ e, crate.typeinfo.1.run [] = .error e [] := by
  have hforward := crate.typeinfo.2 []
  cases hrun : crate.typeinfo.1.run [] with
  | ok ti rest => exact absurd (crate.typeinfo_lt hrun) (Nat.not_lt_zero _)
  | error e rest =>
    rw [hrun] at hforward
    have hnil : rest = [] := List.suffix_nil.mp hforward
    exact ⟨e, by rw [hnil]⟩

theorem cborLoop_nil (crate : CborCrate) (p : String) (rounds : ℕ) (iraw : Individual) :
    cborLoop crate p rounds [] iraw = (false, iraw) := by
  obtain ⟨e, hnil⟩ := typeinfo_nil crate
  induction rounds with
  | zero => rfl
  | succ rounds ih =>
    rw [cborLoop, hnil]
    exact ih

theorem cborLoop_entry {cur cur₁ cur₂ rest : List UInt8} {ti : TypeInfo} {q : String}
    {rs : List Resource} {iraw : Individual}
    (hti : crate.typeinfo.1.run cur = .ok ti cur₁)
    (hkey : (crate.text ti).1.run cur₁ = .ok q cur₂)
    (hvalue : valueAt crate iraw.raw.data q ⟨cur₂, iraw.obj⟩ =
      (true, ⟨rest, iraw.obj.addStored q rs⟩)) (p : String) (rounds : ℕ) :
    cborLoop crate p (rounds + 1) cur iraw =
      if q = p then (true, Individual.setCur ⟨iraw.obj.addStored q rs, iraw.raw⟩ rest)
      else cborLoop crate p rounds rest ⟨iraw.obj.addStored q rs, iraw.raw⟩ := by
  unfold valueAt at hvalue
  rw [cborLoop, hti]
  dsimp only
  rw [hkey]
  dsimp only
  rw [hvalue]

namespace Holds

theorem rest_suffix {cur cur₁ cur₂ rest : List UInt8} {ti : TypeInfo} {q : String}
    {rs : List Resource} (hti : crate.typeinfo.1.run cur = .ok ti cur₁)
    (hkey : (crate.text ti).1.run cur₁ = .ok q cur₂)
    (hvalue : ∀ obj, valueAt crate data q ⟨cur₂, obj⟩ = (true, ⟨rest, obj.addStored q rs⟩)) :
    rest <:+ cur := by
  have hfirst := crate.typeinfo.2 cur
  have hsecond := (crate.text ti).2 cur₁
  rw [hti] at hfirst
  rw [hkey] at hsecond
  have hadd : Appends q (addValue crate (maxLenArrayOf data) q data.length) :=
    Appends.addValue crate (maxLenArrayOf data) data.length
  obtain ⟨a, rs', cur', hthird, hrun⟩ := hadd cur₂
  have hsame := (hrun .empty).symm.trans (hvalue .empty)
  have hcur : cur' = rest := congrArg (fun x => Decoding.cur x.2) hsame
  rw [← hcur]
  exact (hthird.trans hsecond).trans hfirst

theorem ne_nil {cur : List UInt8} {e : String × List Resource}
    {es : List (String × List Resource)} (h : Holds crate data cur (e :: es)) : cur ≠ [] := by
  cases h with
  | entry hti hkey hvalue hrest =>
    rintro rfl
    exact absurd (crate.typeinfo_lt hti) (Nat.not_lt_zero _)

theorem keys_eq {cur : List UInt8} {es es' : List (String × List Resource)}
    (h : Holds crate data cur es) (h' : Holds crate data cur es') :
    es.map Prod.fst = es'.map Prod.fst := by
  induction h generalizing es' with
  | done =>
    cases es' with
    | nil => rfl
    | cons e es' => exact absurd rfl h'.ne_nil
  | notTaken hti hkey hvalue =>
    cases h' with
    | done => rfl
    | notTaken => rfl
    | entry hti' hkey' hvalue' =>
      cases hti.symm.trans hti'
      cases hkey.symm.trans hkey'
      have hfalse := hvalue .empty
      rw [hvalue'] at hfalse
      cases hfalse
  | entry hti hkey hvalue hrest ih =>
    cases h' with
    | done => exact absurd rfl (Holds.entry hti hkey hvalue hrest).ne_nil
    | notTaken hti' hkey' hvalue' =>
      cases hti.symm.trans hti'
      cases hkey.symm.trans hkey'
      have hfalse := hvalue' .empty
      rw [hvalue] at hfalse
      cases hfalse
    | entry hti' hkey' hvalue' hrest' =>
      cases hti.symm.trans hti'
      cases hkey.symm.trans hkey'
      have hplace := congrArg (fun x => Decoding.cur x.2)
        ((hvalue .empty).symm.trans (hvalue' .empty))
      dsimp only at hplace
      rw [← hplace] at hrest'
      rw [List.map_cons, List.map_cons, ih hrest']

/-- **A search that finds its predicate** takes the entries up to it. -/
theorem loop_found {es left : List (String × List Resource)} {e : String × List Resource}
    {cur : List UInt8} (h : Holds crate data cur (es ++ e :: left)) (hes : ∀ x ∈ es, x.1 ≠ e.1)
    (rounds : ℕ) (hrounds : es.length < rounds) (iraw : Individual) (hdata : iraw.raw.data = data) :
    ∃ rest, Holds crate data rest left ∧ rest <:+ cur ∧
      cborLoop crate e.1 rounds cur iraw =
        (true, Individual.setCur ⟨iraw.obj.addEntries (es ++ [e]), iraw.raw⟩ rest) := by
  induction es generalizing cur rounds iraw with
  | nil =>
    obtain ⟨rounds, rfl⟩ := Nat.exists_eq_succ_of_ne_zero (Nat.ne_zero_of_lt hrounds)
    cases h with
    | entry hti hkey hvalue hrest =>
      refine ⟨_, hrest, rest_suffix hti hkey hvalue, ?_⟩
      rw [cborLoop_entry hti hkey (by rw [hdata]; exact hvalue _), if_pos rfl]
      rfl
  | cons x es ih =>
    cases h with
    | entry hti hkey hvalue hrest =>
      have hx := hes _ List.mem_cons_self
      rw [List.length_cons] at hrounds
      obtain ⟨rounds, rfl⟩ := Nat.exists_eq_succ_of_ne_zero (n := rounds) (by omega)
      obtain ⟨rest', hleft, hsuffix, hloop⟩ := ih hrest
        (fun y hy => hes y (List.mem_cons_of_mem _ hy)) rounds (by omega)
        ⟨iraw.obj.addStored _ _, iraw.raw⟩ hdata
      refine ⟨rest', hleft, hsuffix.trans (rest_suffix hti hkey hvalue), ?_⟩
      rw [cborLoop_entry hti hkey (by rw [hdata]; exact hvalue _), if_neg hx, hloop]
      rfl

/-- **A search that does not find its predicate** takes all entries and stays where it was. -/
theorem loop_missed {es : List (String × List Resource)} {cur : List UInt8}
    (h : Holds crate data cur es) (hes : ∀ x ∈ es, x.1 ≠ p) (rounds : ℕ)
    (hrounds : es.length ≤ rounds) (iraw : Individual) (hdata : iraw.raw.data = data) :
    cborLoop crate p rounds cur iraw = (false, ⟨iraw.obj.addEntries es, iraw.raw⟩) := by
  induction h generalizing rounds iraw with
  | done => exact cborLoop_nil crate p rounds iraw
  | notTaken hti hkey hvalue =>
    cases rounds with
    | zero => rfl
    | succ rounds =>
      have hfalse := hvalue iraw.obj
      rw [valueAt, ← hdata] at hfalse
      have hobj := addValue_false crate hfalse
      rw [cborLoop, hti]
      dsimp only
      rw [hkey]
      dsimp only
      generalize addValue crate (maxLenArrayOf iraw.raw.data) _ iraw.raw.data.length _ = result
        at hfalse hobj
      obtain ⟨answer, st⟩ := result
      dsimp only at hfalse hobj
      subst hfalse
      dsimp only
      rw [hobj]
      rfl
  | entry hti hkey hvalue hrest ih =>
    rw [List.length_cons] at hrounds
    obtain ⟨rounds, rfl⟩ := Nat.exists_eq_succ_of_ne_zero (n := rounds) (by omega)
    rw [cborLoop_entry hti hkey (by rw [hdata]; exact hvalue _),
      if_neg (hes _ List.mem_cons_self)]
    exact ih (fun x hx => hes x (List.mem_cons_of_mem _ hx)) rounds (by omega)
      ⟨iraw.obj.addStored _ _, iraw.raw⟩ hdata

end Holds

end Search

end Veda.Onto
