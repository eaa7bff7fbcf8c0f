import Mathlib.Algebra.Field.Rat
import Veda.Onto.Json
import Veda.Onto.Lossless

set_option autoImplicit false

/-!
# What the exchange as JSON keeps

An individual is written as JSON and read back. Its uri and its values come back when the years of
its points in time have four digits, its values have the variants that their types name, and no
predicate is called `@`: the writer gives a year with more digits a sign, which the reader does not
take, and a predicate `@` is written in the place of the uri.

## Main definitions

* `Onto.JsonLossless` — reading gives back the uri and the values of every predicate.
* `Onto.JsonFits` — the condition on an individual.

## Main results

* `Onto.decimalFromStr_decimalText` — a decimal is read back.
* `Onto.readBack_same_iff` — which values are read back.
* `Onto.jsonLossless_iff` — the exchange is lossless exactly when the individual fits.

## Design

A point in time that the library for dates cannot represent stops the writer. Here it has a text
like the others, with a year that does not have four digits.
-/

namespace Veda.Onto

open Veda.Lib

/-! ## Individuals that are exchanged -/

/-- A value that is exchanged: it is not binary, and the exponent of a decimal is the negation of a
scale. -/
def Value.Exchangeable : Value → Prop
  | .binary _ => False
  | .num _ e => -28 ≤ e.toInt ∧ e.toInt ≤ 0
  | _ => True

def IndividualObj.Exchangeable (obj : IndividualObj) : Prop :=
  ∀ p rs, obj.resources.lookup p = some rs → ∀ r ∈ rs, r.value.Exchangeable

/-- Two values are the same; decimals are compared as numbers. -/
def Value.Same : Value → Value → Prop
  | .num m e, .num m' e' => (m.toInt : ℚ) * 10 ^ e.toInt = m'.toInt * 10 ^ e'.toInt
  | v, v' => v = v'

/-- A value is kept with its type. -/
def SameContent (r : Resource) (c : DataType × Value) : Prop :=
  r.rtype = c.1 ∧ r.value.Same c.2

/-- **Losslessness**: what is written as JSON is read without errors, with the same uri and the same
values under every predicate that has values. -/
def JsonLossless (libs : Libraries) (π : IterOrder String) (π' : IterOrder (String × Json))
    (obj : IndividualObj) : Prop :=
  let result := parseJsonToIndividual libs π' (obj.asJson π) .empty
  result.1 = true ∧ result.2.uri = obj.uri ∧
    ∀ p rs, obj.resources.lookup p = some rs → rs ≠ [] →
      List.Forall₂ SameContent rs
        (((result.2.resources.lookup p).getD []).map Resource.content)

/-- The year of a point in time has four digits. -/
def Value.YearFits : Value → Prop
  | .datetime i => 0 ≤ yearOf i.toInt ∧ yearOf i.toInt ≤ 9999
  | _ => True

/-- The condition on an individual. -/
structure JsonFits (obj : IndividualObj) : Prop where
  uri : "@" ∉ obj.resources
  values : ∀ p rs, obj.resources.lookup p = some rs →
    ∀ r ∈ rs, r.WellTyped ∧ r.value.YearFits

/-! ## Decimals -/

section Decimals

variable {num : Int} {scale : ℕ} {cs : List Char}

theorem stripSign_signText (hcs : ∀ c ∈ cs.head?, c.isDigit = true) :
    stripSign (signText num ++ cs) = cs := by
  unfold signText
  split_ifs
  · rfl
  · rw [List.nil_append]
    unfold stripSign
    split
    · exact absurd (hcs '-' rfl) (by decide)
    · exact absurd (hcs '+' rfl) (by decide)
    · rfl

theorem decimalText_eq (num : Int) (scale : ℕ) : ∃ whole fraction,
    whole ≠ [] ∧ (∀ c ∈ whole, c.isDigit = true) ∧ (∀ c ∈ fraction, c.isDigit = true) ∧
      fraction.length = scale ∧ whole ++ fraction = padded (scale + 1) num.natAbs ∧
        decimalText num scale = signText num ++
          if scale = 0 then whole else whole ++ '.' :: fraction := by
  have hlength := le_length_padded (scale + 1) num.natAbs
  obtain ⟨digits, hdigits⟩ : ∃ digits, padded (scale + 1) num.natAbs = digits := ⟨_, rfl⟩
  rw [hdigits] at hlength
  have hall : ∀ c ∈ digits, c.isDigit = true := hdigits ▸ all_isDigit_padded _ _
  refine ⟨digits.take (digits.length - scale), digits.drop (digits.length - scale), ?_,
    fun c hc => hall c (List.mem_of_mem_take hc), fun c hc => hall c (List.mem_of_mem_drop hc),
    ?_, ?_, ?_⟩
  · apply List.ne_nil_of_length_pos
    rw [List.length_take]
    omega
  · rw [List.length_drop]
    omega
  · rw [List.take_append_drop, hdigits]
  · rw [decimalText, hdigits]
    split_ifs with h
    · rw [h, Nat.sub_zero, List.take_length]
    · rfl

theorem decimalScale_decimalText (libs : Libraries) (hscale : scale ≤ 28)
    (hnum : num.natAbs < 79228162514264337593543950336) :
    decimalScale libs (String.ofList (decimalText num scale)) = some scale := by
  obtain ⟨whole, fraction, hwhole, hwholeDigits, hfractionDigits, hfraction, happend, htext⟩ :=
    decimalText_eq num scale
  have hhead : ∀ rest, ∀ c ∈ (whole ++ rest).head?, c.isDigit = true := by
    intro rest c hc
    rw [List.head?_append_of_ne_nil _ hwhole] at hc
    exact hwholeDigits c (List.mem_of_mem_head? hc)
  have hfits : Nat.ofDigitChars 10 (whole ++ fraction) 0 < 79228162514264337593543950336 := by
    rw [happend, ofDigitChars_padded]
    exact hnum
  rw [decimalScale, String.toList_ofList, htext]
  by_cases hzero : scale = 0
  · subst hzero
    obtain rfl := List.length_eq_zero_iff.mp hfraction
    have hbody : stripSign (signText num ++ (whole ++ [])) = whole ++ [] :=
      stripSign_signText (hhead [])
    obtain ⟨htake, hdrop⟩ := takeWhile_isDigit hwholeDigits [] (by simp)
    rw [List.append_nil] at hbody htake hdrop
    rw [if_pos rfl, hbody]
    rw [htake, hdrop]
    exact if_pos ⟨hwhole, .inl rfl, rfl, Nat.zero_le _, hfits⟩
  · have hbody : stripSign (signText num ++ (whole ++ '.' :: fraction)) = whole ++ '.' :: fraction :=
      stripSign_signText (hhead ('.' :: fraction))
    obtain ⟨htake, hdrop⟩ := takeWhile_isDigit hwholeDigits ('.' :: fraction) (by
      intro c hc
      obtain rfl : '.' = c := Option.some.inj hc
      rfl)
    rw [if_neg hzero, hbody]
    rw [htake, hdrop, List.drop_one, List.tail_cons, hfraction]
    have hne : fraction ≠ [] := fun hnil => hzero (by rw [← hfraction, hnil, List.length_nil])
    exact if_pos ⟨hwhole, .inr ⟨rfl, hne⟩,
      List.all_eq_true.mpr hfractionDigits, hscale, hfits⟩

theorem filter_decimalText (num : Int) (scale : ℕ) :
    (decimalText num scale).filter (fun c => c ≠ '.') =
      signText num ++ padded (scale + 1) num.natAbs := by
  obtain ⟨whole, fraction, -, hwholeDigits, hfractionDigits, hfraction, happend, htext⟩ :=
    decimalText_eq num scale
  have hkeep : ∀ cs : List Char, (∀ c ∈ cs, c.isDigit = true) →
      cs.filter (fun c => c ≠ '.') = cs := by
    intro cs hcs
    refine List.filter_eq_self.mpr fun c hc => decide_eq_true ?_
    rintro rfl
    exact absurd (hcs _ hc) (by decide)
  have hsign : (signText num).filter (fun c => c ≠ '.') = signText num := by
    unfold signText
    split_ifs <;> rfl
  rw [htext, List.filter_append, hsign, ← happend]
  congr 1
  have hwhole := hkeep whole hwholeDigits
  split_ifs with hzero
  · rw [hwhole, List.length_eq_zero_iff.mp (hfraction.trans hzero), List.append_nil]
  · rw [List.filter_append, hwhole, List.filter_cons_of_neg (by decide),
      hkeep fraction hfractionDigits]

theorem toNat_scale {m e : Int64} (hlow : -28 ≤ e.toInt) (hhigh : e.toInt ≤ 0) :
    (exponentToScale m e).1 = m ∧ ((exponentToScale m e).2.toNat : Int) = -e.toInt := by
  have hneg : (e * -1).toInt = -e.toInt := by
    rw [Int64.toInt_mul, show (-1 : Int64).toInt = -1 by decide, Int.bmod_eq_of_le] <;> omega
  unfold exponentToScale
  constructor
  · exact if_neg fun h => by
      have := Int64.lt_iff_toInt_lt.mp h
      rw [show (0 : Int64).toInt = 0 by decide] at this
      omega
  · dsimp only
    split_ifs with h
    · rw [hneg, UInt32.toNat_ofNat']
      omega
    · have : ¬ e.toInt < 0 := fun hlt => h (Int64.lt_iff_toInt_lt.mpr hlt)
      rw [show (0 : UInt32).toNat = 0 by decide]
      omega

theorem decimalFromStr_decimalText (libs : Libraries) {m e : Int64} (hlow : -28 ≤ e.toInt)
    (hhigh : e.toInt ≤ 0) :
    decimalFromStr libs (String.ofList (decimalText (exponentToScale m e).1.toInt
      (exponentToScale m e).2.toNat)) = some (m, e) := by
  obtain ⟨hm, hscale⟩ := toNat_scale (m := m) hlow hhigh
  have hrange := m.toInt_lt
  have hrange' := m.le_toInt
  rw [hm, decimalFromStr, decimalScale_decimalText libs (by omega) (by omega)]
  dsimp only
  rw [String.toList_ofList, filter_decimalText, parseSigned_signed _ (by omega) (by omega),
    Option.map_some, hscale, Int.neg_neg, Int64.ofInt_toInt, Int64.ofInt_toInt]

end Decimals

/-! ## One value -/

/-- What is read of the JSON of a value. -/
def readBack (libs : Libraries) (r : Resource) : Option (DataType × Value) :=
  (readJson libs (.obj (resourceMembers r))).join

theorem lookup_data (r : Resource) : (resourceMembers r).lookup "data" = dataJson r.value := by
  obtain ⟨rtype, value, order⟩ := r
  cases value with
  | binary data => rfl
  | _ => rfl

theorem lookup_type (r : Resource) :
    (resourceMembers r).lookup "type" = some (.str r.rtype.name) := by
  obtain ⟨rtype, value, order⟩ := r
  cases value with
  | str s l =>
    by_cases h : rtype = .string ∧ l ≠ .none
    · simp [resourceMembers, langMembers, dataJson, h, List.lookup_cons]
    · simp [resourceMembers, langMembers, dataJson, h, List.lookup_cons]
  | _ => rfl

theorem newFromStr_name (t : DataType) : DataType.newFromStr t.name = some t := by
  cases t <;> rfl

theorem langOf_resourceMembers {r : Resource} (htype : r.rtype = .string) {s : String} {l : Lang}
    (hvalue : r.value = .str s l) : langOf (resourceMembers r) = l := by
  obtain ⟨rtype, value, order⟩ := r
  cases htype
  cases hvalue
  cases l with
  | none => rfl
  | ru =>
    show Lang.newFromStr ("RU".toLower) = .ru
    decide +kernel
  | en =>
    show Lang.newFromStr ("EN".toLower) = .en
    decide +kernel

theorem readJson_resourceMembers (libs : Libraries) (r : Resource) :
    readJson libs (.obj (resourceMembers r)) =
      (dataJson r.value).map fun d => readValue libs (resourceMembers r) d r.rtype := by
  rw [readJson, lookup_data, lookup_type, getDatatypeFromJson, newFromStr_name]
  cases dataJson r.value <;> rfl

theorem dataJson_isSome {v : Value} (h : v.Exchangeable) : (dataJson v).isSome = true := by
  cases v with
  | binary data => exact h.elim
  | _ => rfl

/-- The type that a variant belongs to. -/
def Value.variant : Value → DataType
  | .int _ => .integer
  | .str _ _ => .string
  | .uri _ => .uri
  | .bool _ => .boolean
  | .num _ _ => .decimal
  | .binary _ => .binary
  | .datetime _ => .datetime

theorem wellTyped_iff (r : Resource) : r.WellTyped ↔ r.rtype = r.value.variant := by
  obtain ⟨rtype, value, order⟩ := r
  cases rtype <;> cases value <;> simp [Resource.WellTyped, Value.variant]

theorem Value.Same.variant_eq {v v' : Value} (h : v.Same v') : v.variant = v'.variant := by
  unfold Value.Same at h
  split at h
  · rfl
  · rw [h]

theorem variant_readValue {libs : Libraries} {members : List (String × Json)} {d : Json}
    {t : DataType} {c : DataType × Value} (h : readValue libs members d t = some c) :
    c.1 = c.2.variant := by
  cases t with
  | datetime =>
    cases d <;>
    · dsimp only [readValue] at h
      obtain ⟨i, -, rfl⟩ := Option.map_eq_some_iff.mp h
      rfl
  | decimal =>
    cases d <;>
    · dsimp only [readValue] at h
      obtain ⟨i, -, rfl⟩ := Option.map_eq_some_iff.mp h
      rfl
  | _ =>
    obtain ⟨i, -, rfl⟩ := Option.map_eq_some_iff.mp h
    rfl

theorem Value.Same.refl (v : Value) : v.Same v := by
  cases v <;> rfl

/-- **One value** is read back exactly when it fits. -/
theorem readBack_same_iff (libs : Libraries) {r : Resource} (h : r.value.Exchangeable) :
    (∃ c, readBack libs r = some c ∧ SameContent r c) ↔ r.WellTyped ∧ r.value.YearFits := by
  have hdatetime : ∀ i : Int64, datetimeFromStr libs (String.ofList (timeText i.toInt)) =
      if 0 ≤ yearOf i.toInt ∧ yearOf i.toInt ≤ 9999 then some i else none := by
    intro i
    rw [datetimeFromStr, String.toList_ofList, if_pos (mem_timeText _), parseRfc3339_timeText]
    split_ifs
    · rw [Option.map_some, Int64.ofInt_toInt]
    · rfl
  rw [readBack, readJson_resourceMembers]
  constructor
  · rintro ⟨c, hc, hsame⟩
    obtain ⟨d, hd⟩ := Option.isSome_iff_exists.mp (dataJson_isSome h)
    rw [hd, Option.map_some, Option.join_some] at hc
    have hwell : r.WellTyped := (wellTyped_iff r).mpr
      (hsame.1.trans ((variant_readValue hc).trans hsame.2.variant_eq.symm))
    refine ⟨hwell, ?_⟩
    obtain ⟨rtype, value, order⟩ := r
    cases value with
    | datetime i =>
      cases rtype <;> first | exact hwell.elim | skip
      obtain rfl := Option.some.inj hd
      rw [readValue, hdatetime] at hc
      split_ifs at hc with hyear
      · exact hyear
      · cases hc
    | _ => trivial
  · rintro ⟨hwell, hyear⟩
    refine ⟨(r.rtype, r.value), ?_, rfl, .refl _⟩
    obtain ⟨rtype, value, order⟩ := r
    cases value with
    | int i =>
      cases rtype <;> first | exact hwell.elim | skip
      have hlow := i.le_toInt
      have hhigh := i.toInt_lt
      show (Json.asI64 (.int i.toInt)).map _ = _
      rw [Json.asI64, if_pos ⟨hlow, Int.le_of_lt_add_one hhigh⟩, Option.map_some, Int64.ofInt_toInt]
    | str s l =>
      cases rtype <;> first | exact hwell.elim | skip
      show some (DataType.string, Value.str s (langOf (resourceMembers _))) = _
      rw [langOf_resourceMembers rfl rfl]
    | num m e =>
      cases rtype <;> first | exact hwell.elim | skip
      dsimp only [dataJson, Option.map_some, Option.join_some, readValue]
      rw [decimalFromStr_decimalText libs h.1 h.2, Option.map_some]
    | datetime i =>
      cases rtype <;> first | exact hwell.elim | skip
      dsimp only [dataJson, Option.map_some, Option.join_some, readValue]
      rw [hdatetime, if_pos (show 0 ≤ yearOf i.toInt ∧ yearOf i.toInt ≤ 9999 from hyear),
        Option.map_some]
    | uri s =>
      cases rtype <;> first | exact hwell.elim | rfl
    | bool b =>
      cases rtype <;> first | exact hwell.elim | rfl
    | binary data => exact h.elim

/-! ## The members of an object -/

theorem map_fst_setMember {members : List (String × Json)} {m : String × Json}
    (h : m.1 ∉ members.map Prod.fst) : Json.setMember members m = members ++ [m] :=
  if_neg h

theorem mem_setMember (members : List (String × Json)) (m : String × Json) :
    m ∈ Json.setMember members m := by
  unfold Json.setMember
  split_ifs with h
  · obtain ⟨m', hm', heq⟩ := List.mem_map.mp h
    exact List.mem_map.mpr ⟨m', hm', if_pos heq⟩
  · exact List.mem_append_right _ (List.mem_singleton_self m)

theorem mem_setMember_of_ne {members : List (String × Json)} {m m' : String × Json}
    (h : m' ∈ members) (hne : m'.1 ≠ m.1) : m' ∈ Json.setMember members m := by
  unfold Json.setMember
  split_ifs
  · exact List.mem_map.mpr ⟨m', h, if_neg hne⟩
  · exact List.mem_append_left _ h

theorem foldl_setMember (l members : List (String × Json)) (hnodup : (l.map Prod.fst).Nodup)
    (hnew : ∀ m ∈ l, m.1 ∉ members.map Prod.fst) :
    l.foldl Json.setMember members = members ++ l := by
  induction l generalizing members with
  | nil => exact (List.append_nil members).symm
  | cons m l ih =>
    rw [List.map_cons, List.nodup_cons] at hnodup
    rw [List.foldl_cons, map_fst_setMember (hnew m List.mem_cons_self), ih _ hnodup.2,
      List.append_assoc, List.singleton_append]
    intro m' hm'
    rw [List.map_append, List.mem_append, not_or]
    refine ⟨hnew m' (List.mem_cons_of_mem _ hm'), fun heq => ?_⟩
    rw [List.map_singleton, List.mem_singleton] at heq
    exact hnodup.1 (List.mem_map.mpr ⟨m', hm', heq⟩)

theorem mem_foldl_setMember (l members : List (String × Json)) {m : String × Json}
    (hnodup : (l.map Prod.fst).Nodup) (hm : m ∈ l) : m ∈ l.foldl Json.setMember members := by
  have hkeep : ∀ (l members : List (String × Json)), m ∈ members → m.1 ∉ l.map Prod.fst →
      m ∈ l.foldl Json.setMember members := by
    intro l
    induction l with
    | nil => exact fun _ h _ => h
    | cons m' l ih =>
      intro members h hnot
      rw [List.map_cons, List.mem_cons, not_or] at hnot
      exact ih _ (mem_setMember_of_ne h hnot.1) hnot.2
  induction l generalizing members with
  | nil => cases hm
  | cons m' l ih =>
    rw [List.map_cons, List.nodup_cons] at hnodup
    rw [List.foldl_cons]
    rcases List.mem_cons.mp hm with rfl | hm
    · exact hkeep l _ (mem_setMember members m) hnodup.1
    · exact ih _ hnodup.2 hm

theorem flatMap_of_mem {β : Type} {l : List (String × Json)} {m : String × Json}
    (hnodup : (l.map Prod.fst).Nodup) (hm : m ∈ l) (f : String × Json → List β) :
    (l.flatMap fun m' => if m.1 = m'.1 then f m' else []) = f m := by
  induction l with
  | nil => cases hm
  | cons m' l ih =>
    rw [List.map_cons, List.nodup_cons] at hnodup
    rw [List.flatMap_cons]
    rcases List.mem_cons.mp hm with rfl | hm
    · rw [if_pos rfl, List.flatMap_eq_nil_iff.mpr, List.append_nil]
      intro m' hm'
      exact if_neg fun heq => hnodup.1 (List.mem_map.mpr ⟨m', hm', heq.symm⟩)
    · have hne : m.1 ≠ m'.1 := fun heq => hnodup.1 (List.mem_map.mpr ⟨m, hm, heq⟩)
      rw [if_neg hne, List.nil_append, ih hnodup.2 hm]

theorem forall₂_filterMap_iff {libs : Libraries} (rs : List Resource) :
    List.Forall₂ SameContent rs (rs.filterMap (readBack libs)) ↔
      ∀ r ∈ rs, ∃ c, readBack libs r = some c ∧ SameContent r c := by
  constructor
  · intro h
    induction rs with
    | nil => exact fun r hr => nomatch hr
    | cons r rs ih =>
      cases hc : readBack libs r with
      | none =>
        -- a value was dropped
        rw [List.filterMap_cons_none hc] at h
        have hlength := h.length_eq
        have hle := List.length_filterMap_le (readBack libs) rs
        rw [List.length_cons] at hlength
        omega
      | some c =>
        rw [List.filterMap_cons_some hc, List.forall₂_cons] at h
        intro r' hr'
        rcases List.mem_cons.mp hr' with rfl | hr'
        · exact ⟨c, hc, h.1⟩
        · exact ih h.2 r' hr'
  · intro h
    induction rs with
    | nil => exact .nil
    | cons r rs ih =>
      obtain ⟨c, hc, hsame⟩ := h r List.mem_cons_self
      rw [List.filterMap_cons_some hc]
      exact .cons hsame (ih fun r' hr' => h r' (List.mem_cons_of_mem _ hr'))

/-! ## Individuals -/

section Exchange

variable {libs : Libraries} {π : IterOrder String} {π' : IterOrder (String × Json)}
  {obj : IndividualObj}

/-- The members of the predicates. -/
def predicateMembers (π : IterOrder String) (obj : IndividualObj) : List (String × Json) :=
  (obj.resources.iter π).map fun e => (e.1, predicateJson e.2)

theorem members_eq (π : IterOrder String) (obj : IndividualObj) :
    obj.members π = (predicateMembers π obj).foldl Json.setMember [("@", .str obj.uri)] := by
  rw [IndividualObj.members, predicateMembers, List.foldl_map]
  rfl

theorem mem_predicateMembers {p : String} {j : Json} :
    (p, j) ∈ predicateMembers π obj ↔
      ∃ rs, obj.resources.lookup p = some rs ∧ predicateJson rs = j := by
  simp only [predicateMembers, List.mem_map, Prod.exists, Prod.mk.injEq, HashMap.mem_iter]
  constructor
  · rintro ⟨_, rs, hrs, rfl, hj⟩
    exact ⟨rs, hrs, hj⟩
  · rintro ⟨rs, hrs, hj⟩
    exact ⟨p, rs, hrs, rfl, hj⟩

theorem nodup_predicateMembers (π : IterOrder String) (obj : IndividualObj) :
    ((predicateMembers π obj).map Prod.fst).Nodup := by
  have hmap : (predicateMembers π obj).map Prod.fst = (obj.resources.iter π).map Prod.fst := by
    rw [predicateMembers, List.map_map]
    rfl
  rw [hmap]
  exact HashMap.nodup_fst_iter π obj.resources

theorem members_eq_cons (π : IterOrder String) (huri : "@" ∉ obj.resources) :
    obj.members π = ("@", .str obj.uri) :: predicateMembers π obj := by
  rw [members_eq, foldl_setMember _ _ (nodup_predicateMembers π obj)]
  · rfl
  · rintro ⟨p, j⟩ hm hmem
    obtain ⟨rs, hrs, -⟩ := mem_predicateMembers.mp hm
    rw [List.map_singleton, List.mem_singleton] at hmem
    obtain rfl : p = "@" := hmem
    exact huri (AList.lookup_isSome.mp (Option.isSome_of_eq_some hrs))

theorem nodup_members (π : IterOrder String) (huri : "@" ∉ obj.resources) :
    ((obj.members π).map Prod.fst).Nodup := by
  rw [members_eq_cons π huri, List.map_cons, List.nodup_cons]
  refine ⟨fun hmem => ?_, nodup_predicateMembers π obj⟩
  obtain ⟨⟨p, j⟩, hm, rfl⟩ := List.mem_map.mp hmem
  obtain ⟨rs, hrs, -⟩ := mem_predicateMembers.mp hm
  exact huri (AList.lookup_isSome.mp (Option.isSome_of_eq_some hrs))

theorem memberOk_predicateJson (libs : Libraries) {p : String} {rs : List Resource}
    (hp : p ≠ "@") (hrs : ∀ r ∈ rs, r.value.Exchangeable) :
    memberOk libs (p, predicateJson rs) = true := by
  rw [memberOk, if_neg hp]
  refine List.all_eq_true.mpr fun j hj => ?_
  obtain ⟨r, hr, rfl⟩ := List.mem_map.mp hj
  rw [readJson_resourceMembers, Option.isSome_map]
  exact dataJson_isSome (hrs r hr)

theorem memberContents_predicateJson (libs : Libraries) {p : String} (hp : p ≠ "@")
    (rs : List Resource) :
    memberContents libs (p, predicateJson rs) = rs.filterMap (readBack libs) := by
  rw [memberContents, if_neg hp]
  exact List.filterMap_map

theorem parse_asJson (huri : "@" ∉ obj.resources) (h : obj.Exchangeable) :
    (parseJsonToIndividual libs π' (obj.asJson π) .empty).1 = true ∧
      (parseJsonToIndividual libs π' (obj.asJson π) .empty).2.uri = obj.uri ∧
      ∀ p rs, obj.resources.lookup p = some rs →
        (((parseJsonToIndividual libs π' (obj.asJson π) .empty).2.resources.lookup p).getD []).map
          Resource.content = rs.filterMap (readBack libs) := by
  have hperm := π'.perm (obj.members π)
  have hname : ∀ p rs, obj.resources.lookup p = some rs → p ≠ "@" := by
    rintro p rs hrs rfl
    exact huri (AList.lookup_isSome.mp (Option.isSome_of_eq_some hrs))
  have hnodup : ((π'.order (obj.members π)).map Prod.fst).Nodup :=
    (hperm.map Prod.fst).nodup_iff.mpr (nodup_members π huri)
  have hmem : ∀ m, m ∈ π'.order (obj.members π) ↔
      m = ("@", .str obj.uri) ∨ m ∈ predicateMembers π obj := by
    intro m
    rw [hperm.mem_iff, members_eq_cons π huri, List.mem_cons]
  rw [IndividualObj.asJson, parseJsonToIndividual]
  refine ⟨?_, ?_, fun p rs hrs => ?_⟩
  · rw [parseMembers_fst, Bool.true_and]
    refine List.all_eq_true.mpr fun m hm => ?_
    rcases (hmem m).mp hm with rfl | hm
    · rfl
    · obtain ⟨p, j⟩ := m
      obtain ⟨rs, hrs, rfl⟩ := mem_predicateMembers.mp hm
      exact memberOk_predicateJson libs (hname p rs hrs) (h p rs hrs)
  · have hlast : lastWritten (fun m : String × Json => if m.1 = "@" then m.2.asStr else none)
        (π'.order (obj.members π)) = some obj.uri := by
      cases hlast : lastWritten (fun m : String × Json => if m.1 = "@" then m.2.asStr else none)
          (π'.order (obj.members π)) with
      | none =>
        have hnone := lastWritten_eq_none.mp hlast _ ((hmem _).mpr (.inl rfl))
        cases hnone
      | some uri =>
        obtain ⟨m, hm, hvalue⟩ := lastWritten_eq_some hlast
        rcases (hmem m).mp hm with rfl | hm
        · exact hvalue.symm
        · obtain ⟨p, j⟩ := m
          obtain ⟨rs, hrs, -⟩ := mem_predicateMembers.mp hm
          rw [if_neg (hname p rs hrs)] at hvalue
          cases hvalue
    have huri' := uri_parseMembers libs (π'.order (obj.members π)) (true, .empty)
    rw [hlast, Option.some_or] at huri'
    exact Option.some.inj huri'
  · have hm : (p, predicateJson rs) ∈ π'.order (obj.members π) :=
      (hmem _).mpr (.inr (mem_predicateMembers.mpr ⟨rs, hrs, rfl⟩))
    rw [contents_parseMembers]
    have hempty : ((IndividualObj.empty.resources.lookup p).getD []).map Resource.content = [] := by
      rw [IndividualObj.empty, AList.lookup_empty]
      rfl
    dsimp only
    rw [hempty, List.nil_append, flatMap_of_mem hnodup hm,
      memberContents_predicateJson libs (hname p rs hrs)]

theorem parse_asJson_fst (h : "@" ∈ obj.resources) :
    (parseJsonToIndividual libs π' (obj.asJson π) .empty).1 = false := by
  obtain ⟨rs, hrs⟩ := Option.isSome_iff_exists.mp (AList.lookup_isSome.mpr h)
  have hm : ("@", predicateJson rs) ∈ π'.order (obj.members π) := by
    rw [(π'.perm _).mem_iff, members_eq]
    exact mem_foldl_setMember _ _ (nodup_predicateMembers π obj)
      (mem_predicateMembers.mpr ⟨rs, hrs, rfl⟩)
  rw [IndividualObj.asJson, parseJsonToIndividual, parseMembers_fst, Bool.true_and]
  exact List.all_eq_false.mpr ⟨_, hm, Bool.false_ne_true⟩

/-- **The exchange as JSON** is lossless exactly when the individual fits. -/
theorem jsonLossless_iff (libs : Libraries) (π : IterOrder String)
    (π' : IterOrder (String × Json)) (h : obj.Exchangeable) :
    JsonLossless libs π π' obj ↔ JsonFits obj := by
  constructor
  · rintro ⟨hok, -, hvalues⟩
    have huri : "@" ∉ obj.resources := by
      intro hmem
      rw [parse_asJson_fst hmem] at hok
      cases hok
    refine ⟨huri, fun p rs hrs r hr => ?_⟩
    have hsame := hvalues p rs hrs (List.ne_nil_of_mem hr)
    rw [(parse_asJson huri h).2.2 p rs hrs, forall₂_filterMap_iff] at hsame
    exact (readBack_same_iff libs (h p rs hrs r hr)).mp (hsame r hr)
  · intro hfits
    obtain ⟨hok, huri, hcontents⟩ := parse_asJson hfits.uri h
    refine ⟨hok, huri, fun p rs hrs _ => ?_⟩
    rw [hcontents p rs hrs, forall₂_filterMap_iff]
    exact fun r hr => (readBack_same_iff libs (h p rs hrs r hr)).mpr (hfits.values p rs hrs r hr)

end Exchange

/-! ## Single values -/

/-- An individual with one value. -/
def oneValue (predicate : String) (rtype : DataType) (value : Value) : IndividualObj :=
  ⟨"d:1", AList.singleton predicate [⟨rtype, value, 0⟩]⟩

theorem lookup_oneValue {predicate p : String} {rtype : DataType} {value : Value}
    {rs : List Resource} (h : (oneValue predicate rtype value).resources.lookup p = some rs) :
    rs = [⟨rtype, value, 0⟩] := by
  obtain ⟨-, rfl⟩ := HashMap.lookup_insert_empty.mp h
  rfl

theorem exchangeable_oneValue {predicate : String} {rtype : DataType} {value : Value}
    (h : value.Exchangeable) : (oneValue predicate rtype value).Exchangeable := by
  intro p rs hrs r hr
  rw [lookup_oneValue hrs, List.mem_singleton] at hr
  rw [hr]
  exact h

/-- Libraries for plain texts. -/
def plainLibraries : Libraries := ⟨fun _ => none, fun _ => none, fun _ => none⟩

/-- The price of 2.50 is kept. -/
theorem jsonLossless_price :
    JsonLossless plainLibraries (.stored String) (.stored _)
      (oneValue "v-s:price" .decimal (.num 250 (-2))) := by
  have hprice : (Value.num 250 (-2)).Exchangeable :=
    show -28 ≤ (-2 : Int64).toInt ∧ (-2 : Int64).toInt ≤ 0 by decide
  refine (jsonLossless_iff plainLibraries _ _ (exchangeable_oneValue hprice)).mpr
    ⟨by decide +kernel, fun p rs hrs r hr => ?_⟩
  rw [lookup_oneValue hrs, List.mem_singleton] at hr
  rw [hr]
  exact ⟨trivial, trivial⟩

/-- A point in time in the year 10000 is dropped, and a predicate `@` is an error. -/
theorem not_jsonLossless_year :
    ¬ JsonLossless plainLibraries (.stored String) (.stored _)
        (oneValue "v-s:dateTo" .datetime (.datetime 253402300800)) ∧
      ¬ JsonLossless plainLibraries (.stored String) (.stored _)
        (oneValue "@" .integer (.int 1)) := by
  constructor
  · rintro ⟨-, -, hvalues⟩
    have hlookup : (oneValue "v-s:dateTo" .datetime (.datetime 253402300800)).resources.lookup
        "v-s:dateTo" = some [⟨.datetime, .datetime 253402300800, 0⟩] :=
      HashMap.lookup_insert_empty.mpr ⟨rfl, rfl⟩
    have hdate : (Value.datetime 253402300800).Exchangeable := trivial
    have hsame := hvalues _ _ hlookup (List.cons_ne_nil _ _)
    rw [(parse_asJson (by decide +kernel) (exchangeable_oneValue hdate)).2.2 _ _ hlookup,
      forall₂_filterMap_iff] at hsame
    have hyear := ((readBack_same_iff plainLibraries hdate).mp
      (hsame _ (List.mem_singleton_self _))).2
    exact absurd (show yearOf 253402300800 ≤ 9999 from hyear.2) (by decide +kernel)
  · rintro ⟨hok, -⟩
    rw [parse_asJson_fst (by decide +kernel)] at hok
    cases hok

end Veda.Onto
