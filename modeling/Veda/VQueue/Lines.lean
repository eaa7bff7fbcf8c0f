import Veda.VQueue.Files

set_option autoImplicit false

/-!
# Checksums and scans

Functions that compute the checksums and scan the lines of a queue. A line is divided at its
semicolons; names are taken as they are and numbers are parsed.

## Main definitions

* `VQueue.crc32Of` — the checksum of bytes.
* `VQueue.fieldsOf` — the fields of a line.
* `VQueue.lineCrates` — both, with their laws.
-/

namespace Veda.VQueue

open Veda.Lib

/-! ## Checksums -/

/-- One bit of the cyclic redundancy check, in reflected order. -/
def crcBit (crc : UInt32) : UInt32 :=
  if crc &&& 1 = 1 then (crc >>> 1) ^^^ 0xEDB88320 else crc >>> 1

def crcByte (crc : UInt32) (b : UInt8) : UInt32 := crcBit^[8] (crc ^^^ b.toUInt32)

def crc32Of (bytes : List UInt8) : UInt32 := bytes.foldl crcByte 0xFFFFFFFF ^^^ 0xFFFFFFFF

example : crc32Of [49, 50, 51, 52, 53, 54, 55, 56, 57] = 0xCBF43926 := by decide +kernel

/-! ## Fields -/

/-- The fields of a line between its semicolons. -/
def fieldsOf : List Char → List (List Char)
  | [] => [[]]
  | c :: cs =>
    if c = ';' then [] :: fieldsOf cs
    else
      match fieldsOf cs with
      | [] => [[c]]
      | field :: fields => (c :: field) :: fields

theorem fieldsOf_append {field : List Char} (h : ';' ∉ field) (rest : List Char) :
    fieldsOf (field ++ ';' :: rest) = field :: fieldsOf rest := by
  induction field with
  | nil => rfl
  | cons c cs ih =>
    rw [List.mem_cons, not_or] at h
    rw [List.cons_append, fieldsOf, if_neg (Ne.symm h.1), ih h.2]

theorem fieldsOf_last {field : List Char} (h : ';' ∉ field) : fieldsOf field = [field] := by
  induction field with
  | nil => rfl
  | cons c cs ih =>
    rw [List.mem_cons, not_or] at h
    rw [fieldsOf, if_neg (Ne.symm h.1), ih h.2]

theorem semicolon_notMem_digits (n : ℕ) : ';' ∉ digits n := by
  intro hmem
  have hdigit := List.all_eq_true.mp (all_isDigit_toDigits n) _ hmem
  exact absurd hdigit (by decide)

theorem PlainName.semicolon_notMem {name : List Char} (h : PlainName name) : ';' ∉ name :=
  fun hmem => (h.2 _ hmem).1 rfl

/-- A number of 32 bits. -/
def parseU32 (cs : List Char) : Option ℕ := parseUnsigned (2 ^ 32 - 1) cs

/-- A number of 64 bits. -/
def parseU64 (cs : List Char) : Option ℕ := parseUnsigned (2 ^ 64 - 1) cs

theorem parseU32_digits {n : ℕ} (h : n < 2 ^ 32) : parseU32 (digits n) = some n :=
  parseUnsigned_toDigits (Nat.le_pred_of_lt h)

theorem parseU64_digits {n : ℕ} (h : n < 2 ^ 64) : parseU64 (digits n) = some n :=
  parseUnsigned_toDigits (Nat.le_pred_of_lt h)

/-- The checksums and scans of lines. -/
def lineCrates : Crates where
  crc32 := crc32Of
  scanQueueInfo line :=
    let fields := fieldsOf line
    (fields[0]?, fields[1]?.bind parseU32)
  scanPushInfo line :=
    let fields := fieldsOf line
    (fields[0]?, fields[1]?.bind parseU64, fields[2]?.bind parseU32)
  scanPopInfo line :=
    let fields := fieldsOf line
    (fields[0]?, fields[1]?, fields[2]?.bind parseU64, fields[3]?.bind parseU32,
      fields[4]?.bind parseU32)
  scan_queueText := by
    intro name id hname hid
    have hline : withCrc crc32Of (queueText name id) = name ++ ';' :: (digits id ++
        ';' :: digits (crc32Of (utf8 (String.ofList (queueText name id)))).toNat) := by
      simp [withCrc, queueText]
    rw [hline, fieldsOf_append hname.semicolon_notMem, fieldsOf_append (semicolon_notMem_digits id),
      fieldsOf_last (semicolon_notMem_digits _)]
    simp [parseU32_digits hid]
  scan_pushText := by
    intro name rightEdge countPushed hname hedge hcount
    have hline : withCrc crc32Of (pushText name rightEdge countPushed) =
        name ++ ';' :: (digits rightEdge ++ ';' :: (digits countPushed ++ ';' ::
          digits (crc32Of (utf8 (String.ofList (pushText name rightEdge countPushed)))).toNat)) := by
      simp [withCrc, pushText]
    rw [hline, fieldsOf_append hname.semicolon_notMem,
      fieldsOf_append (semicolon_notMem_digits rightEdge),
      fieldsOf_append (semicolon_notMem_digits countPushed),
      fieldsOf_last (semicolon_notMem_digits _)]
    simp [parseU64_digits hedge, parseU32_digits hcount]
  scan_popLine := by
    intro name consumerName position countPopped id hname hconsumer hposition hcount hid
    rw [popLine, fieldsOf_append hname.semicolon_notMem,
      fieldsOf_append hconsumer.semicolon_notMem,
      fieldsOf_append (semicolon_notMem_digits position),
      fieldsOf_append (semicolon_notMem_digits countPopped),
      fieldsOf_last (semicolon_notMem_digits id)]
    simp [parseU64_digits hposition, parseU32_digits hcount, parseU32_digits hid]

end Veda.VQueue
