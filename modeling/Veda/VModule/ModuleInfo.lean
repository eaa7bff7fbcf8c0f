import Veda.VQueue.Lines
import Mathlib.Data.List.TakeWhile

set_option autoImplicit false

/-!
# The position of a module

A module keeps its position, the number of the operation that it has handled and the number of the
one that it has committed, in a file with one line. `put_info` writes the line over the beginning of
the file, and `read_info` reads the numbers of the first line. The line ends with a checksum, which
`read_info` scans and does not compare, so that a line whose write was cut off is read with the rest
of an older one.

## Main definitions

* `VModule.InfoCrates` — the crates that compute checksums and scan lines.
* `VModule.putInfo`, `VModule.readInfo` — writing and reading a position.
* `VModule.NeverInvented` — a position that is read has been written.
* `VModule.CutFits` — the condition on the place where a write is cut off.

## Main results

* `VModule.neverInvented_iff` — no position is invented exactly when the cut fits.

## Design

Names of modules are plain and consist of ASCII characters, so that a character is a byte. The
scan is given by its documented behaviour on lines without blanks: a field goes up to the next
semicolon of the format.
-/

namespace Veda.VModule

open Veda.Lib Veda.VQueue

/-! ## Lines -/

/-- A number as it is printed. -/
def i64Text (i : Int64) : List Char := signText i.toInt ++ padded 0 i.toInt.natAbs

/-- A number as it is parsed. -/
def parseI64 (cs : List Char) : Option Int64 :=
  (parseSigned (2 ^ 63 - 1) cs).map Int64.ofInt

/-- The numbers of a line. -/
def parsedNumbers (fields : List (List Char)) : Option (Int64 × Int64) :=
  match fields[0]?.bind parseI64, fields[1]?.bind parseI64 with
  | some opId, some committedOpId => some (opId, committedOpId)
  | _, _ => none

/-- The crates that compute checksums and scan the lines of modules. -/
structure InfoCrates where
  crc32 : List UInt8 → UInt32
  scanInfo : List Char → Option (List Char) × Option Int64 × Option Int64
  scan_iff : ∀ {line name p}, name ≠ [] → (∀ c ∈ line, ¬ c.isWhitespace) →
    (scanInfo line = (some name, some p.1, some p.2) ↔
      ∃ fields, fieldsOf line = name :: fields ∧ parsedNumbers fields = some p)

section Info

variable (crates : InfoCrates) (name : List Char)

/-- The numbers of a line, each with its semicolon. -/
def numbersText (p : Int64 × Int64) : List Char :=
  i64Text p.1 ++ ';' :: (i64Text p.2 ++ [';'])

/-- A checksum as it is printed. -/
def crcText (crc : UInt32) : List Char := (Nat.toDigits 16 crc.toNat).map Char.toUpper

/-- The text in front of the checksum. -/
def infoText (p : Int64 × Int64) : List Char := name ++ ';' :: numbersText p

/-- The line of a position. -/
def infoLine (p : Int64 × Int64) : List Char :=
  infoText name p ++ (crcText (crates.crc32 (utf8 (String.ofList (infoText name p)))) ++ ['\n'])

/-- Write a position; no more than `cut` bytes are written. -/
def putInfo (file : List Char) (p : Int64 × Int64) (cut : ℕ) : List Char :=
  writeAt file 0 ((infoLine crates name p).take cut)

/-- The position of a file. -/
def readInfo (file : List Char) : Option (Int64 × Int64) :=
  match firstLine file with
  | none => none
  | some ll =>
    match crates.scanInfo ll with
    | (some q, some opId, some committedOpId) =>
      if q = name then some (opId, committedOpId) else none
    | _ => none

/-- The file after calls that were not cut off. -/
def contents (calls : List (Int64 × Int64)) : List Char :=
  calls.foldl (fun file p => putInfo crates name file p (infoLine crates name p).length) []

/-- No position is invented: after the calls and a last one that is cut off, nothing is read or a
pair that was given, and the pair of the last call when it is complete. -/
def NeverInvented (calls : List (Int64 × Int64)) (last : Int64 × Int64) (cut : ℕ) : Prop :=
  (∀ p, readInfo crates name (putInfo crates name (contents crates name calls) last cut) = some p →
    p ∈ calls ∨ p = last) ∧
  ((infoLine crates name last).length ≤ cut →
    readInfo crates name (putInfo crates name (contents crates name calls) last cut) = some last)

/-- The numbers that the beginning of a text spells. -/
def spelled (text : List Char) : Option (Int64 × Int64) :=
  parsedNumbers (fieldsOf (text.takeWhile fun c => c ≠ '\n'))

/-- The cut is in front of the numbers or behind them; or the digits in front of it spell, with what
the file has behind it, no numbers or a pair that was given. -/
def CutFits (calls : List (Int64 × Int64)) (last : Int64 × Int64) (cut : ℕ) : Prop :=
  cut ≤ name.length + 1 ∨ name.length + 1 + (numbersText last).length ≤ cut ∨
    ∀ p, spelled ((numbersText last).take (cut - (name.length + 1)) ++
      (contents crates name calls).drop cut) = some p → p ∈ calls ∨ p = last

/-! ## Characters -/

variable {crates name}

/-- A character of a file. -/
def IsInfoChar (c : Char) : Prop := c = '\n' ∨ ¬ c.isWhitespace

theorem parseI64_i64Text (i : Int64) : parseI64 (i64Text i) = some i := by
  have hlow := i.le_toInt
  have hhigh := i.toInt_lt
  rw [parseI64, i64Text, parseSigned_signed 0 (by push_cast; omega) (by push_cast; omega)]
  simp

theorem mem_i64Text {i : Int64} {c : Char} (h : c ∈ i64Text i) : c = '-' ∨ c.isDigit = true := by
  rcases List.mem_append.mp h with hsign | hdigit
  · unfold signText at hsign
    split_ifs at hsign
    · exact .inl (List.mem_singleton.mp hsign)
    · cases hsign
  · exact .inr (all_isDigit_padded 0 _ c hdigit)

theorem not_isWhitespace_of_isDigit {c : Char} (h : c.isDigit = true) : ¬ c.isWhitespace := by
  intro hwhite
  simp only [Char.isWhitespace, Bool.or_eq_true, decide_eq_true_eq] at hwhite
  rcases hwhite with ((rfl | rfl) | rfl) | rfl <;> exact absurd h (by decide)

theorem semicolon_notMem_i64Text (i : Int64) : ';' ∉ i64Text i := fun h => by
  rcases mem_i64Text h with hsign | hdigit
  · exact absurd hsign (by decide)
  · exact absurd hdigit (by decide)

theorem isInfoChar_i64Text {i : Int64} {c : Char} (h : c ∈ i64Text i) : IsInfoChar c := by
  right
  rcases mem_i64Text h with rfl | hdigit
  · decide
  · exact not_isWhitespace_of_isDigit hdigit

theorem exists_of_mem_toDigits {n : ℕ} {c : Char} (h : c ∈ Nat.toDigits 16 n) :
    ∃ d < 16, c = d.digitChar := by
  induction n using Nat.strongRecOn with
  | ind n ih =>
    by_cases hsmall : n < 16
    · rw [Nat.toDigits_of_lt_base hsmall, List.mem_singleton] at h
      exact ⟨n, hsmall, h⟩
    · rw [Nat.toDigits_of_base_le (by decide) (Nat.le_of_not_lt hsmall), List.mem_append,
        List.mem_singleton] at h
      rcases h with hhigh | hlow
      · exact ih (n / 16) (Nat.div_lt_self (by omega) (by decide)) hhigh
      · exact ⟨n % 16, Nat.mod_lt n (by decide), hlow⟩

theorem isInfoChar_crcText {crc : UInt32} {c : Char} (h : c ∈ crcText crc) : IsInfoChar c := by
  obtain ⟨c, hc, rfl⟩ := List.mem_map.mp h
  obtain ⟨d, hd, rfl⟩ := exists_of_mem_toDigits hc
  have hall : ∀ d < 16, ¬ (d.digitChar.toUpper).isWhitespace := by decide
  exact .inr (hall d hd)

theorem isInfoChar_numbersText {p : Int64 × Int64} {c : Char} (h : c ∈ numbersText p) :
    IsInfoChar c := by
  rcases List.mem_append.mp h with hop | h
  · exact isInfoChar_i64Text hop
  · rcases List.mem_cons.mp h with rfl | h
    · exact .inr (by decide)
    · rcases List.mem_append.mp h with hcommitted | h
      · exact isInfoChar_i64Text hcommitted
      · obtain rfl := List.mem_singleton.mp h
        exact .inr (by decide)

theorem isInfoChar_infoLine (hname : PlainName name) {p : Int64 × Int64} {c : Char}
    (h : c ∈ infoLine crates name p) : IsInfoChar c := by
  rcases List.mem_append.mp h with htext | h
  · rcases List.mem_append.mp htext with hmem | h
    · exact .inr (hname.2 c hmem).2
    · rcases List.mem_cons.mp h with rfl | h
      · exact .inr (by decide)
      · exact isInfoChar_numbersText h
  · rcases List.mem_append.mp h with hcrc | h
    · exact isInfoChar_crcText hcrc
    · exact .inl (List.mem_singleton.mp h)

/-! ## Files -/

theorem putInfo_eq (file : List Char) (p : Int64 × Int64) (cut : ℕ) :
    putInfo crates name file p cut = (infoLine crates name p).take cut ++
      file.drop (min cut (infoLine crates name p).length) := by
  simp [putInfo, writeAt]

theorem contents_append (calls : List (Int64 × Int64)) (p : Int64 × Int64) :
    contents crates name (calls ++ [p]) = infoLine crates name p ++
      (contents crates name calls).drop (infoLine crates name p).length := by
  unfold contents
  rw [List.foldl_append, List.foldl_cons, List.foldl_nil, putInfo_eq, List.take_length,
    Nat.min_self]

theorem isInfoChar_contents (hname : PlainName name) (calls : List (Int64 × Int64)) :
    ∀ c ∈ contents crates name calls, IsInfoChar c := by
  induction calls using List.reverseRecOn with
  | nil => exact fun c hc => absurd hc List.not_mem_nil
  | append_singleton calls p ih =>
    intro c hc
    rw [contents_append] at hc
    rcases List.mem_append.mp hc with hline | hrest
    · exact isInfoChar_infoLine hname hline
    · exact ih c (List.mem_of_mem_drop hrest)

theorem infoLine_eq (p : Int64 × Int64) : infoLine crates name p =
    name ++ ';' :: (numbersText p ++
      (crcText (crates.crc32 (utf8 (String.ofList (infoText name p)))) ++ ['\n'])) := by
  simp [infoLine, infoText]

/-! ## Reading -/

theorem readInfo_eq_some_iff {file : List Char} {p : Int64 × Int64} :
    readInfo crates name file = some p ↔
      ∃ ll, firstLine file = some ll ∧ crates.scanInfo ll = (some name, some p.1, some p.2) := by
  unfold readInfo
  cases firstLine file with
  | none => simp
  | some ll =>
    generalize hscan : crates.scanInfo ll = scanned
    obtain ⟨q, opId, committedOpId⟩ := scanned
    cases q <;> cases opId <;> cases committedOpId <;> simp [hscan, Prod.ext_iff]

/-- **What is read behind the name** is what the text spells. -/
theorem readInfo_name (hname : PlainName name) {text : List Char} (h : ∀ c ∈ text, IsInfoChar c) :
    readInfo crates name (name ++ ';' :: text) = spelled text := by
  have hline : firstLine (name ++ ';' :: text) =
      some (name ++ ';' :: text.takeWhile fun c => c ≠ '\n') := by
    have hnewline : ∀ c ∈ name, decide (c ≠ '\n') = true := by
      intro c hc
      rw [decide_eq_true_eq]
      rintro rfl
      exact hname.newline_notMem hc
    rw [firstLine, if_neg (by simp), List.takeWhile_append_of_pos hnewline,
      List.takeWhile_cons_of_pos (by decide)]
  have hwhite : ∀ c ∈ name ++ ';' :: text.takeWhile fun c => c ≠ '\n', ¬ c.isWhitespace := by
    intro c hc
    rcases List.mem_append.mp hc with hmem | hmem
    · exact (hname.2 c hmem).2
    · rcases List.mem_cons.mp hmem with rfl | hmem
      · decide
      · have hne := List.mem_takeWhile_imp hmem
        exact (h c ((List.takeWhile_sublist _).subset hmem)).resolve_left (of_decide_eq_true hne)
  refine Option.ext fun p => ?_
  rw [readInfo_eq_some_iff, hline]
  constructor
  · rintro ⟨ll, hll, hscan⟩
    rw [← Option.some.inj hll, crates.scan_iff hname.1 hwhite,
      fieldsOf_append hname.semicolon_notMem] at hscan
    obtain ⟨fields, hfields, hp⟩ := hscan
    rw [spelled, (List.cons.inj hfields).2]
    exact hp
  · intro hp
    refine ⟨_, rfl, (crates.scan_iff hname.1 hwhite).mpr ⟨_, ?_, hp⟩⟩
    exact fieldsOf_append hname.semicolon_notMem _

theorem spelled_numbersText (p : Int64 × Int64) (rest : List Char) :
    spelled (numbersText p ++ rest) = some p := by
  have hline : ∀ c ∈ numbersText p, decide (c ≠ '\n') = true := by
    intro c hc
    rw [decide_eq_true_eq]
    rintro rfl
    have hmem : '\n' ∈ i64Text p.1 ∨ '\n' ∈ i64Text p.2 := by
      simpa [numbersText] using hc
    rcases hmem with h | h <;> rcases mem_i64Text h with hsign | hdigit
    · exact absurd hsign (by decide)
    · exact absurd hdigit (by decide)
    · exact absurd hsign (by decide)
    · exact absurd hdigit (by decide)
  have hfields : ∀ text, fieldsOf (numbersText p ++ text) =
      i64Text p.1 :: i64Text p.2 :: fieldsOf text := by
    intro text
    have htext : numbersText p ++ text = i64Text p.1 ++ ';' :: (i64Text p.2 ++ ';' :: text) := by
      simp [numbersText]
    rw [htext, fieldsOf_append (semicolon_notMem_i64Text _),
      fieldsOf_append (semicolon_notMem_i64Text _)]
  rw [spelled, List.takeWhile_append_of_pos hline, hfields, parsedNumbers]
  simp [parseI64_i64Text]

theorem readInfo_take (hname : PlainName name) (cut : ℕ) :
    readInfo crates name (name.take cut) = none := by
  refine Option.eq_none_iff_forall_ne_some.mpr fun p hp => ?_
  obtain ⟨ll, hll, hscan⟩ := readInfo_eq_some_iff.mp hp
  have hplain : ∀ c ∈ name.take cut, c ≠ ';' ∧ ¬ c.isWhitespace := fun c hc =>
    hname.2 c (List.mem_of_mem_take hc)
  have hline : ll = name.take cut := by
    unfold firstLine at hll
    split_ifs at hll
    rw [← Option.some.inj hll]
    refine List.takeWhile_eq_self_iff.mpr fun c hc => ?_
    rw [decide_eq_true_eq]
    rintro rfl
    exact (hplain _ hc).2 (by decide)
  rw [hline, crates.scan_iff hname.1 fun c hc => (hplain c hc).2,
    fieldsOf_last fun hc => (hplain _ hc).1 rfl] at hscan
  obtain ⟨fields, hfields, hnumbers⟩ := hscan
  rw [← (List.cons.inj hfields).2] at hnumbers
  cases hnumbers

theorem putInfo_name {last : Int64 × Int64} {cut : ℕ} (hcut : name.length + 1 ≤ cut)
    (file : List Char) : ∃ checked, (∀ c ∈ checked, IsInfoChar c) ∧
      (infoLine crates name last).length = name.length + 1 + (numbersText last).length +
        checked.length ∧
      putInfo crates name file last cut = name ++ ';' ::
        (((numbersText last ++ checked).take (cut - (name.length + 1))) ++
          file.drop (min cut (infoLine crates name last).length)) := by
  refine ⟨crcText (crates.crc32 (utf8 (String.ofList (infoText name last)))) ++ ['\n'],
    fun c hc => ?_, ?_, ?_⟩
  · rcases List.mem_append.mp hc with hcrc | hnewline
    · exact isInfoChar_crcText hcrc
    · exact .inl (List.mem_singleton.mp hnewline)
  · rw [infoLine_eq]
    simp only [List.length_append, List.length_cons]
    omega
  · obtain ⟨k, rfl⟩ := Nat.exists_eq_add_of_le hcut
    have htake : (infoLine crates name last).take (name.length + 1 + k) = name ++ ';' ::
        ((numbersText last ++
          (crcText (crates.crc32 (utf8 (String.ofList (infoText name last)))) ++ ['\n'])).take k) := by
      rw [infoLine_eq, Nat.add_assoc, List.take_length_add_append, Nat.add_comm 1 k,
        List.take_succ_cons]
    rw [putInfo_eq, htake, Nat.add_sub_cancel_left, List.append_assoc, List.cons_append]

theorem readInfo_putInfo (hname : PlainName name) {last : Int64 × Int64} {cut : ℕ}
    (hcut : name.length + 1 + (numbersText last).length ≤ cut) {file : List Char}
    (hfile : ∀ c ∈ file, IsInfoChar c) :
    readInfo crates name (putInfo crates name file last cut) = some last := by
  obtain ⟨checked, hchecked, -, hput⟩ :=
    @putInfo_name crates name last cut (by omega) file
  rw [hput, List.take_append, List.take_of_length_le (by omega), List.append_assoc,
    readInfo_name hname, spelled_numbersText]
  intro c hc
  rcases List.mem_append.mp hc with hnumber | hc
  · exact isInfoChar_numbersText hnumber
  · rcases List.mem_append.mp hc with hnew | hold
    · exact hchecked c (List.mem_of_mem_take hnew)
    · exact hfile c (List.mem_of_mem_drop hold)

theorem readInfo_contents (hname : PlainName name) (calls : List (Int64 × Int64))
    (p : Int64 × Int64) :
    readInfo crates name (contents crates name (calls ++ [p])) = some p := by
  have hcontents : contents crates name (calls ++ [p]) = putInfo crates name
      (contents crates name calls) p (infoLine crates name p).length := by
    rw [contents, List.foldl_append]
    rfl
  rw [hcontents]
  refine readInfo_putInfo hname ?_ (isInfoChar_contents hname calls)
  rw [infoLine_eq]
  simp only [List.length_append, List.length_cons]
  omega

theorem putInfo_contents {last p : Int64 × Int64} {cut : ℕ} (hcut : cut ≤ name.length + 1)
    (calls : List (Int64 × Int64)) :
    putInfo crates name (contents crates name (calls ++ [p])) last cut =
      contents crates name (calls ++ [p]) := by
  have htake : ∀ text, (name ++ ';' :: text).take cut = (name ++ [';']).take cut := by
    intro text
    rw [← List.singleton_append, ← List.append_assoc, List.take_append_of_le_length]
    rw [List.length_append, List.length_singleton]
    exact hcut
  have hlength : cut ≤ (infoLine crates name last).length := by
    rw [infoLine_eq]
    simp only [List.length_append, List.length_cons]
    omega
  rw [putInfo_eq, Nat.min_eq_left hlength, infoLine_eq, htake]
  have hbefore : (contents crates name (calls ++ [p])).take cut = (name ++ [';']).take cut := by
    rw [contents_append, infoLine_eq, List.append_assoc, List.cons_append, htake]
  rw [← hbefore, List.take_append_drop]

theorem readInfo_of_le (hname : PlainName name) {last : Int64 × Int64} {cut : ℕ}
    (hcut : cut ≤ name.length + 1) {calls : List (Int64 × Int64)} {p : Int64 × Int64}
    (h : readInfo crates name (putInfo crates name (contents crates name calls) last cut) =
      some p) : p ∈ calls := by
  cases calls using List.reverseRecOn with
  | nil =>
    exfalso
    have hfile : putInfo crates name (contents crates name []) last cut =
        (infoLine crates name last).take cut := by
      rw [putInfo_eq, show contents crates name [] = [] from rfl, List.drop_nil, List.append_nil]
    rw [hfile, infoLine_eq] at h
    rcases Nat.lt_or_ge name.length cut with hlt | hle
    · obtain rfl : cut = name.length + 1 := by omega
      rw [List.take_length_add_append, List.take_succ_cons, List.take_zero,
        readInfo_name hname fun c hc => absurd hc List.not_mem_nil] at h
      cases h
    · rw [List.take_append_of_le_length hle, readInfo_take hname] at h
      cases h
  | append_singleton calls q =>
    rw [putInfo_contents hcut, readInfo_contents hname] at h
    rw [← Option.some.inj h]
    exact List.mem_append_right _ (List.mem_singleton_self _)

/-- **No position is invented** exactly when the cut fits.

**Proof sketch.** A call that is cut off in the name leaves the file as it is, or without numbers,
and behind the numbers the first line has the new ones. In between, the first line is the name with
what the digits that were written spell together with the rest of the file. -/
theorem neverInvented_iff (crates : InfoCrates) {name : List Char} (hname : PlainName name)
    (calls : List (Int64 × Int64)) (last : Int64 × Int64) (cut : ℕ) :
    NeverInvented crates name calls last cut ↔ CutFits crates name calls last cut := by
  have hchars : ∀ c ∈ contents crates name calls, IsInfoChar c := isInfoChar_contents hname calls
  have hline : name.length + 1 + (numbersText last).length ≤ (infoLine crates name last).length := by
    rw [infoLine_eq]
    simp only [List.length_append, List.length_cons]
    omega
  rcases Nat.lt_or_ge (name.length + 1) cut with hname' | hbefore
  · rcases Nat.lt_or_ge cut (name.length + 1 + (numbersText last).length) with hcut | hbehind
    · obtain ⟨checked, -, -, hput⟩ :=
        @putInfo_name crates name last cut (by omega) (contents crates name calls)
      rw [List.take_append_of_le_length (by omega), Nat.min_eq_left (by omega)] at hput
      have hread : readInfo crates name (putInfo crates name (contents crates name calls) last cut) =
          spelled ((numbersText last).take (cut - (name.length + 1)) ++
            (contents crates name calls).drop cut) := by
        rw [hput, readInfo_name hname]
        intro c hc
        rcases List.mem_append.mp hc with hnumber | hold
        · exact isInfoChar_numbersText (List.mem_of_mem_take hnumber)
        · exact hchars c (List.mem_of_mem_drop hold)
      unfold NeverInvented CutFits
      rw [hread]
      constructor
      · rintro ⟨hgiven, -⟩
        exact .inr (.inr hgiven)
      · rintro (hle | hle | hgiven)
        · omega
        · omega
        · exact ⟨hgiven, fun hle => by omega⟩
    · have hread : readInfo crates name (putInfo crates name (contents crates name calls) last cut) =
          some last := readInfo_putInfo hname hbehind hchars
      refine iff_of_true ⟨fun p hp => .inr ?_, fun _ => hread⟩ (.inr (.inl hbehind))
      rw [hread] at hp
      exact (Option.some.inj hp).symm
  · refine iff_of_true ⟨fun p hp => .inl (readInfo_of_le hname hbefore hp), fun hle => ?_⟩
      (.inl hbefore)
    have hnumbers : (numbersText last).length ≠ 0 := by simp [numbersText]
    omega

end Info

/-! ## Two positions in one line -/

/-- The scan of the lines of modules. -/
def lineInfoCrates : InfoCrates where
  crc32 := crc32Of
  scanInfo line :=
    let fields := fieldsOf line
    (fields[0]?, fields[1]?.bind parseI64, fields[2]?.bind parseI64)
  scan_iff := by
    intro line name p _ _
    cases hfields : fieldsOf line with
    | nil => simp
    | cons field fields =>
      simp only [List.getElem?_cons_zero, List.getElem?_cons_succ, parsedNumbers, Prod.mk.injEq,
        Option.some.injEq, List.cons.injEq]
      constructor
      · rintro ⟨rfl, hop, hcommitted⟩
        exact ⟨fields, ⟨rfl, rfl⟩, by rw [hop, hcommitted]⟩
      · rintro ⟨fields, ⟨rfl, rfl⟩, hp⟩
        split at hp
        · rename_i opId committedOpId hop hcommitted
          obtain rfl := Option.some.inj hp
          exact ⟨rfl, hop, hcommitted⟩
        · cases hp

/-- A first position is written, and the write of the second one is cut off behind its first
digit. -/
theorem not_neverInvented_digit :
    ¬ NeverInvented lineInfoCrates ['m'] [(12, 34)] (5, 6) 3 := by
  intro h
  have hread : readInfo lineInfoCrates ['m']
      (putInfo lineInfoCrates ['m'] (contents lineInfoCrates ['m'] [(12, 34)]) (5, 6) 3) =
        some (52, 34) := by decide +kernel
  exact absurd (h.1 _ hread) (by decide)

/-- A write that is cut off behind the numbers. -/
theorem neverInvented_checksum : NeverInvented lineInfoCrates ['m'] [(12, 34)] (5, 6) 6 :=
  (neverInvented_iff lineInfoCrates (by decide) [(12, 34)] (5, 6) 6).mpr
    (.inr (.inl (by decide +kernel)))

end Veda.VModule
