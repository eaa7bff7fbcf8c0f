import Veda.Lib.HashMap
import Veda.VQueue.Lines
import Mathlib.Data.Nat.Digits.Defs

set_option autoImplicit false

/-!
# The slots of fields

The values of a field stand in a numbered slot of the documents. The numbers are given to fields
when they are first seen, one more than the entries of the map of fields, and the map is written to
a file, a line for each entry behind a line with a checksum and the length of the text. When the
file is loaded, the first line is read as an entry, too. So the map grows with restarts, and the new
numbers stay above the old ones as long as they fit into 32 bits.

## Main definitions

* `Xapian.Key2Slot` — the map, with `getSlot`, `getSlotAndSetIfNotFound`, `store` and `load`.
* `Xapian.SlotCrates` — the checksum and the scan of a line.
* `Xapian.FieldName` — the names of fields.
* `Xapian.SlotRun` — calls, commits and restarts one after another.
* `Xapian.Settled` — slots are stable and unique.
* `Xapian.SlotRun.HasRoom` — the condition on a call.

## Main results

* `Xapian.lookup_load_store` — what is loaded of a file that was stored.
* `Xapian.settled_of_hasRoom` — when slots are stable and unique.
-/

namespace Veda.Xapian

open Veda.Lib

/-! ## Lines -/

/-- The white space of Unicode. -/
def isWhiteSpace (c : Char) : Bool :=
  c.toNat ∈ [9, 10, 11, 12, 13, 32, 133, 160, 5760, 8192, 8193, 8194, 8195, 8196, 8197, 8198, 8199,
    8200, 8201, 8202, 8232, 8233, 8239, 8287, 12288]

/-- A text that is scanned as it was printed: not empty, without quotes and white space. -/
def PlainField (field : List Char) : Prop :=
  field ≠ [] ∧ ∀ c ∈ field, c ≠ '"' ∧ isWhiteSpace c = false

instance (field : List Char) : Decidable (PlainField field) :=
  have : Decidable (∀ c ∈ field, c ≠ '"' ∧ isWhiteSpace c = false) := List.decidableBAll _ field
  inferInstanceAs (Decidable (_ ∧ _))

/-- The line of an entry. -/
def slotLine (field : List Char) (slot : ℕ) : List Char :=
  '"' :: (field ++ '"' :: ',' :: Nat.toDigits 10 slot)

/-- The checksum, and the scan of a line as a text and a number of 32 bits: a line that was printed
is scanned as its text and its number, or without a number that does not fit. -/
structure SlotCrates where
  crc32 : List UInt8 → UInt32
  scanLine : List Char → Option (List Char) × Option ℕ
  scan_slotLine : ∀ {field slot}, PlainField field → slot < 2 ^ 32 →
    scanLine (slotLine field slot) = (some field, some slot)
  scan_tooLarge : ∀ {field slot}, PlainField field → 2 ^ 32 ≤ slot →
    (scanLine (slotLine field slot)).2 = none

/-- The lines of a file (`lines`): the last one may lack its end, and the end may have a carriage
return. -/
def fileLines (text : List Char) : List (List Char) :=
  let pieces := text.splitOn '\n'
  (if pieces.getLast? = some [] then pieces.dropLast else pieces).map fun line =>
    if line.getLast? = some '\r' then line.dropLast else line

/-- The digits of hexadecimal numbers. -/
def hexDigits : List Char := "0123456789ABCDEF".toList

/-- A number in hexadecimal digits (`{:X}`). -/
def upperHex (n : ℕ) : List Char :=
  if n = 0 then ['0'] else (Nat.digits 16 n).reverse.map fun d => hexDigits.getD d '0'

/-! ## The map -/

structure Key2Slot where
  data : HashMap String ℕ
  lastSizeKey2slot : ℕ

namespace Key2Slot

/-- `Key2Slot::default`. -/
def default : Key2Slot := ⟨∅, 0⟩

def getSlot (k : Key2Slot) (key : String) : Option ℕ :=
  match key.toList with
  | [] => none
  | c :: number => if c = '#' then parseUnsigned (2 ^ 32 - 1) number else k.data.lookup key

/-- The lines of the entries (`serialize`). -/
def serialize (k : Key2Slot) (π : IterOrder String) : List Char :=
  (k.data.iter π).flatMap fun entry => slotLine entry.1.toList entry.2 ++ ['\n']

variable (crates : SlotCrates)

/-- The checksum of the lines. -/
def hashHex (text : List Char) : List Char :=
  upperHex (crates.crc32 (utf8 (String.ofList text))).toNat

/-- The first line, with the checksum of the others and their length. -/
def header (data : List Char) : List Char :=
  slotLine (hashHex crates data) (utf8 (String.ofList data)).length

/-- `store`: what the file holds afterwards. The size that is compared with the length of the text
is never set. -/
def store (k : Key2Slot) (π : IterOrder String) (file : Option (List Char)) : Option (List Char) :=
  let data := k.serialize π
  if (utf8 (String.ofList data)).length = k.lastSizeKey2slot then file
  else some (header crates data ++ '\n' :: data)

/-- A line of the file that is loaded. -/
def loadLine (data : HashMap String ℕ) (line : List Char) : HashMap String ℕ :=
  match crates.scanLine line with
  | (some field, some slot) => data.insert (String.ofList field) slot
  | _ => data

/-- `load`, if there is a file. -/
def load (file : Option (List Char)) : Option Key2Slot :=
  file.map fun text => ⟨(fileLines text).foldl (loadLine crates) ∅, 0⟩

/-- The slot of a field, which is given to it if it has none, with the map and the file after the
call. -/
def getSlotAndSetIfNotFound (k : Key2Slot) (π : IterOrder String) (file : Option (List Char))
    (field : String) : ℕ × Key2Slot × Option (List Char) :=
  match k.getSlot field with
  | some slot => (slot, k, file)
  | none =>
    let slot := (k.data.keys.length + 1) % 2 ^ 32
    let k := { k with data := k.data.insert field slot }
    (slot, k, k.store crates π file)

end Key2Slot

/-! ## Calls and restarts -/

/-- The characters of hexadecimal numbers, of either case. -/
def isHexChar (c : Char) : Bool := c ∈ hexDigits || c ∈ "abcdef".toList

/-- The names of fields. -/
structure FieldName (field : String) : Prop where
  plain : PlainField field.toList
  notNumber : field.toList.head? ≠ some '#'
  notHex : ¬ ∀ c ∈ field.toList, isHexChar c = true

/-- The program with its file, and the slots that were given as answers. -/
structure SlotRun where
  key2slot : Key2Slot
  file : Option (List Char)
  given : List (String × ℕ)

/-- A call, a commit of the index, at which the map is stored again, or a restart. -/
inductive SlotEvent
  | call (π : IterOrder String) (field : String)
  | commit (π : IterOrder String)
  | restart

namespace SlotRun

/-- Before the first start there is no file. -/
def start : SlotRun := ⟨.default, none, []⟩

/-- At a restart the file is loaded, if it can be. -/
def step (crates : SlotCrates) (r : SlotRun) : SlotEvent → SlotRun
  | .call π field =>
    let (slot, key2slot, file) := r.key2slot.getSlotAndSetIfNotFound crates π r.file field
    ⟨key2slot, file, r.given ++ [(field, slot)]⟩
  | .commit π =>
    if r.key2slot.data.keys.isEmpty then r
    else { r with file := r.key2slot.store crates π r.file }
  | .restart => { r with key2slot := (Key2Slot.load crates r.file).getD .default }

/-- The condition on a call: the field has a slot, or the next number fits into 32 bits. -/
def HasRoom (r : SlotRun) : SlotEvent → Prop
  | .call _ field => r.key2slot.getSlot field ≠ none ∨ r.key2slot.data.keys.length + 1 < 2 ^ 32
  | .commit _ => True
  | .restart => True

/-- The condition on events one after another. -/
def AllHaveRoom (crates : SlotCrates) : SlotRun → List SlotEvent → Prop
  | _, [] => True
  | r, e :: events => r.HasRoom e ∧ (r.step crates e).AllHaveRoom crates events

end SlotRun

/-- The fields of the calls are names of fields. -/
def FieldCalls (events : List SlotEvent) : Prop :=
  ∀ π field, .call π field ∈ events → FieldName field

/-- A field has the same slot in all answers, and two fields never have the same one. -/
def Settled (given : List (String × ℕ)) : Prop :=
  ∀ a ∈ given, ∀ b ∈ given, a.1 = b.1 ↔ a.2 = b.2

/-! ## Lines that are read back -/

section Lines

variable {field : List Char} {slot n : ℕ}

theorem mem_upperHex {c : Char} (h : c ∈ upperHex n) : c ∈ hexDigits := by
  unfold upperHex at h
  split_ifs at h with hn
  · rw [List.mem_singleton.mp h]
    decide
  · obtain ⟨d, hd, rfl⟩ := List.mem_map.mp h
    have hlt : d < 16 := Nat.digits_lt_base (by decide) (List.mem_reverse.mp hd)
    have hall : ∀ d < 16, hexDigits.getD d '0' ∈ hexDigits := by decide
    exact hall d hlt

theorem isHexChar_upperHex : ∀ c ∈ upperHex n, isHexChar c = true := by
  intro c hc
  rw [isHexChar, decide_eq_true (mem_upperHex hc), Bool.true_or]

theorem plainField_upperHex (n : ℕ) : PlainField (upperHex n) := by
  have hplain : PlainField hexDigits := by decide +kernel
  refine ⟨?_, fun c hc => hplain.2 c (mem_upperHex hc)⟩
  unfold upperHex
  split_ifs with hn
  · exact List.cons_ne_nil _ _
  · rw [ne_eq, List.map_eq_nil_iff, List.reverse_eq_nil_iff, Nat.digits_eq_nil_iff_eq_zero]
    exact hn

theorem ne_of_mem_toDigits {c : Char} (h : c ∈ Nat.toDigits 10 n) : c ≠ '\n' ∧ c ≠ '\r' := by
  have hdigit := List.all_eq_true.mp (all_isDigit_toDigits n) c h
  constructor
  · rintro rfl
    exact absurd hdigit (by decide)
  · rintro rfl
    exact absurd hdigit (by decide)

theorem slotLine_spec (h : PlainField field) :
    '\n' ∉ slotLine field slot ∧ (slotLine field slot).getLast? ≠ some '\r' := by
  constructor
  · intro hmem
    rw [slotLine, List.mem_cons, List.mem_append, List.mem_cons, List.mem_cons] at hmem
    rcases hmem with hquote | hfield | hquote | hcomma | hdigits
    · exact absurd hquote (by decide)
    · exact absurd (h.2 _ hfield).2 (by decide)
    · exact absurd hquote (by decide)
    · exact absurd hcomma (by decide)
    · exact (ne_of_mem_toDigits hdigits).1 rfl
  · intro hlast
    have hdigits : (slotLine field slot).getLast? = (Nat.toDigits 10 slot).getLast? := by
      rw [slotLine, show '"' :: (field ++ '"' :: ',' :: Nat.toDigits 10 slot) =
        ('"' :: (field ++ ['"', ','])) ++ Nat.toDigits 10 slot by simp,
        List.getLast?_append_of_ne_nil _ Nat.toDigits_ne_nil]
    rw [hdigits] at hlast
    exact (ne_of_mem_toDigits (List.mem_of_getLast? hlast)).2 rfl

theorem fileLines_flatMap {lines : List (List Char)}
    (h : ∀ line ∈ lines, '\n' ∉ line ∧ line.getLast? ≠ some '\r') :
    fileLines (lines.flatMap fun line => line ++ ['\n']) = lines := by
  have hpieces : (lines.flatMap fun line => line ++ ['\n']).splitOn '\n' = lines ++ [[]] := by
    induction lines with
    | nil => exact List.splitOn_nil _
    | cons line lines ih =>
      rw [List.flatMap_cons, List.append_assoc, List.singleton_append,
        List.splitOn_append_cons_self_of_not_mem (h line List.mem_cons_self).1,
        ih fun line hline => h line (List.mem_cons_of_mem _ hline)]
      rfl
  rw [fileLines, hpieces, if_pos (by simp), List.dropLast_concat]
  refine (List.map_congr_left fun line hline => if_neg (h line hline).2).trans ?_
  exact List.map_id _

end Lines

/-! ## What is loaded -/

/-- The slots of fields are in the map and not above its size; its other entries are checksums. -/
structure HoldsSlots (given : List (String × ℕ)) (data : HashMap String ℕ) : Prop where
  fields : ∀ a ∈ given, data.lookup a.1 = some a.2 ∧ a.2 ≤ data.keys.length
  entries : ∀ key slot, data.lookup key = some slot → slot < 2 ^ 32 ∧ PlainField key.toList ∧
    ((key, slot) ∈ given ∨ ∀ c ∈ key.toList, isHexChar c = true)

section Loading

variable {crates : SlotCrates} {given : List (String × ℕ)} {k : Key2Slot}
  {data data' : HashMap String ℕ} {file : Option (List Char)}

theorem length_keys_le (h : ∀ key, key ∈ data → key ∈ data') :
    data.keys.length ≤ data'.keys.length :=
  (List.subperm_of_subset data.keys_nodup fun key hkey =>
    AList.mem_keys.mp (h key (AList.mem_keys.mpr hkey))).length_le

theorem foldl_loadLine (crates : SlotCrates) {entries : List (String × ℕ)}
    (h : ∀ entry ∈ entries, PlainField entry.1.toList ∧ entry.2 < 2 ^ 32)
    (data : HashMap String ℕ) :
    (entries.map fun entry => slotLine entry.1.toList entry.2).foldl
        (Key2Slot.loadLine crates) data = HashMap.insertAll data entries := by
  induction entries generalizing data with
  | nil => rfl
  | cons entry entries ih =>
    obtain ⟨hplain, hslot⟩ := h entry List.mem_cons_self
    rw [List.map_cons, List.foldl_cons, HashMap.insertAll_cons,
      ← ih fun entry hentry => h entry (List.mem_cons_of_mem _ hentry), Key2Slot.loadLine,
      crates.scan_slotLine hplain hslot]
    dsimp only
    rw [String.ofList_toList]

theorem loadLine_header (crates : SlotCrates) {field : List Char} (h : PlainField field)
    (size : ℕ) :
    Key2Slot.loadLine crates ∅ (slotLine field size) =
      if size < 2 ^ 32 then AList.insert (String.ofList field) size ∅ else ∅ := by
  rw [Key2Slot.loadLine]
  split_ifs with hsize
  · rw [crates.scan_slotLine h hsize]
  · have hnone := crates.scan_tooLarge h (not_lt.mp hsize)
    rcases hscan : crates.scanLine (slotLine field size) with ⟨scanned, number⟩
    rw [hscan] at hnone
    obtain rfl : number = none := hnone
    cases scanned <;> rfl

/-- Every entry can be scanned. -/
def Scannable (data : HashMap String ℕ) : Prop :=
  ∀ key slot, data.lookup key = some slot → PlainField key.toList ∧ slot < 2 ^ 32

theorem Scannable.entries (h : Scannable k.data) (π : IterOrder String) :
    ∀ entry ∈ k.data.iter π, PlainField entry.1.toList ∧ entry.2 < 2 ^ 32 :=
  fun entry hentry => h entry.1 entry.2 ((HashMap.mem_iter π k.data _ _).mp hentry)

theorem Scannable.fileLines_eq (h : Scannable k.data) (crates : SlotCrates) (π : IterOrder String) :
    fileLines (Key2Slot.header crates (k.serialize π) ++ '\n' :: k.serialize π) =
      Key2Slot.header crates (k.serialize π) ::
        (k.data.iter π).map fun entry => slotLine entry.1.toList entry.2 := by
  have htext : Key2Slot.header crates (k.serialize π) ++ '\n' :: k.serialize π =
      (Key2Slot.header crates (k.serialize π) ::
        (k.data.iter π).map fun entry => slotLine entry.1.toList entry.2).flatMap
          fun line => line ++ ['\n'] := by
    rw [List.flatMap_cons, List.flatMap_map, List.append_assoc]
    rfl
  rw [htext]
  refine fileLines_flatMap fun line hline => ?_
  rcases List.mem_cons.mp hline with rfl | hline
  · exact slotLine_spec (plainField_upperHex _)
  · obtain ⟨entry, hentry, rfl⟩ := List.mem_map.mp hline
    exact slotLine_spec (h.entries π entry hentry).1

theorem serialize_ne_nil (hsome : k.data.keys ≠ []) (π : IterOrder String) :
    (utf8 (String.ofList (k.serialize π))).length ≠ 0 := by
  have hfilled : k.data.iter π ≠ [] := by
    intro hnil
    have hkeys := HashMap.map_fst_iter π k.data
    rw [hnil, List.map_nil] at hkeys
    exact hsome (List.Perm.nil_eq (hkeys ▸ π.perm k.data.keys)).symm
  obtain ⟨entry, entries, hiter⟩ := List.exists_cons_of_ne_nil hfilled
  rw [ne_eq, List.length_eq_zero_iff, utf8_eq_nil]
  intro hempty
  have hnil := congrArg String.toList hempty
  rw [String.toList_ofList, Key2Slot.serialize, hiter, List.flatMap_cons, slotLine] at hnil
  cases hnil

/-- **A stored map is loaded** with all its entries, and perhaps one of a checksum. -/
theorem lookup_load_store (hscan : Scannable k.data) (hlast : k.lastSizeKey2slot = 0)
    (hsome : k.data.keys ≠ []) (crates : SlotCrates) (π : IterOrder String)
    (file : Option (List Char)) :
    ∃ text k', k.store crates π file = some text ∧ Key2Slot.load crates (some text) = some k' ∧
      k'.lastSizeKey2slot = 0 ∧
      (∀ key slot, k.data.lookup key = some slot → k'.data.lookup key = some slot) ∧
      ∀ key slot, k'.data.lookup key = some slot → k.data.lookup key = some slot ∨
        slot < 2 ^ 32 ∧ ∃ n, key.toList = upperHex n := by
  refine ⟨Key2Slot.header crates (k.serialize π) ++ '\n' :: k.serialize π,
    ⟨HashMap.insertAll (Key2Slot.loadLine crates ∅ (Key2Slot.header crates (k.serialize π)))
      (k.data.iter π), 0⟩, ?_, ?_, rfl, fun key slot hlookup => ?_, fun key slot hlookup => ?_⟩
  · rw [Key2Slot.store, hlast]
    exact if_neg (serialize_ne_nil hsome π)
  · rw [Key2Slot.load, Option.map_some, hscan.fileLines_eq, List.foldl_cons,
      foldl_loadLine crates (hscan.entries π)]
  · exact HashMap.lookup_insertAll_of_mem _ _ (HashMap.nodup_fst_iter π k.data)
      ((HashMap.mem_iter π k.data key slot).mpr hlookup)
  · dsimp only at hlookup
    by_cases hkey : key ∈ (k.data.iter π).map Prod.fst
    · obtain ⟨⟨key', slot'⟩, hmem, rfl⟩ := List.mem_map.mp hkey
      rw [HashMap.lookup_insertAll_of_mem _ _ (HashMap.nodup_fst_iter π k.data) hmem] at hlookup
      rw [← hlookup]
      exact .inl ((HashMap.mem_iter π k.data key' slot').mp hmem)
    · rw [HashMap.lookup_insertAll_of_notMem _ _ hkey, Key2Slot.header, Key2Slot.hashHex,
        loadLine_header crates (plainField_upperHex _)] at hlookup
      split_ifs at hlookup with hfits
      · obtain ⟨rfl, rfl⟩ := HashMap.lookup_insert_empty.mp hlookup
        exact .inr ⟨hfits, _, String.toList_ofList⟩
      · cases hlookup

variable (crates file) in
theorem HoldsSlots.store (h : HoldsSlots given k.data) (hlast : k.lastSizeKey2slot = 0)
    (hsome : k.data.keys ≠ []) (π : IterOrder String) :
    k.store crates π file ≠ none ∧ ∀ k', Key2Slot.load crates (k.store crates π file) = some k' →
      k'.lastSizeKey2slot = 0 ∧ HoldsSlots given k'.data := by
  obtain ⟨text, k', hstore, hload, hlast', hkept, hnew⟩ :=
    lookup_load_store (fun key slot hlookup => ⟨(h.entries key slot hlookup).2.1,
      (h.entries key slot hlookup).1⟩) hlast hsome crates π file
  rw [hstore]
  refine ⟨Option.some_ne_none _, fun k'' hload' => ?_⟩
  rw [hload] at hload'
  obtain rfl := Option.some.inj hload'
  have hsize : k.data.keys.length ≤ k'.data.keys.length := by
    refine length_keys_le fun key hkey => ?_
    obtain ⟨slot, hslot⟩ := Option.isSome_iff_exists.mp (AList.lookup_isSome.mpr hkey)
    exact AList.lookup_isSome.mp (Option.isSome_iff_exists.mpr ⟨slot, hkept key slot hslot⟩)
  refine ⟨hlast', fun a ha => ?_, fun key slot hlookup => ?_⟩
  · obtain ⟨hlookup, hle⟩ := h.fields a ha
    exact ⟨hkept _ _ hlookup, hle.trans hsize⟩
  · rcases hnew key slot hlookup with hold | ⟨hslot, n, hn⟩
    · exact h.entries key slot hold
    · rw [hn]
      exact ⟨hslot, plainField_upperHex n, .inr isHexChar_upperHex⟩

end Loading

/-! ## Runs -/

/-- The invariant: the fields that were given slots have them in the map and in the file. -/
structure SlotsKept (crates : SlotCrates) (r : SlotRun) : Prop where
  names : ∀ a ∈ r.given, FieldName a.1
  last : r.key2slot.lastSizeKey2slot = 0
  held : HoldsSlots r.given r.key2slot.data
  loaded : ∀ k, Key2Slot.load crates r.file = some k →
    k.lastSizeKey2slot = 0 ∧ HoldsSlots r.given k.data
  missing : r.file = none → r.given = []
  unique : ∀ a ∈ r.given, ∀ b ∈ r.given, a.2 = b.2 → a.1 = b.1

section Runs

variable {crates : SlotCrates} {r : SlotRun} {e : SlotEvent} {events : List SlotEvent}
  {given : List (String × ℕ)} {data : HashMap String ℕ} {field : String} {slot : ℕ}

theorem holdsSlots_empty : HoldsSlots [] ∅ :=
  ⟨fun _ ha => (nomatch ha), fun _ _ hlookup => (nomatch hlookup)⟩

theorem slotsKept_start (crates : SlotCrates) : SlotsKept crates .start :=
  ⟨fun _ ha => (nomatch ha), rfl, holdsSlots_empty, fun _ hload => (nomatch hload), fun _ => rfl,
    fun _ ha => (nomatch ha)⟩

theorem FieldName.getSlot_eq (h : FieldName field) (k : Key2Slot) :
    k.getSlot field = k.data.lookup field := by
  rw [Key2Slot.getSlot]
  have hplain := h.plain.1
  have hnumber := h.notNumber
  cases hchars : field.toList with
  | nil => exact absurd hchars hplain
  | cons c number =>
    rw [hchars, List.head?_cons] at hnumber
    exact if_neg fun hc => hnumber (congrArg some hc)

theorem HoldsSlots.given_of_lookup (h : HoldsSlots given data) (hname : FieldName field)
    (hlookup : data.lookup field = some slot) : (field, slot) ∈ given :=
  (h.entries field slot hlookup).2.2.resolve_right hname.notHex

theorem HoldsSlots.insert (h : HoldsSlots given data) (hname : FieldName field)
    (hnone : data.lookup field = none) (hroom : data.keys.length + 1 < 2 ^ 32) :
    HoldsSlots (given ++ [(field, data.keys.length + 1)])
      (data.insert field (data.keys.length + 1)) := by
  have hsize : (data.insert field (data.keys.length + 1)).keys.length = data.keys.length + 1 := by
    rw [AList.keys_insert, List.length_cons, List.erase_of_not_mem]
    exact fun hmem => AList.lookup_eq_none.mp hnone (AList.mem_keys.mpr hmem)
  constructor
  · intro a ha
    rw [hsize]
    rcases List.mem_append.mp ha with ha | ha
    · obtain ⟨hlookup, hle⟩ := h.fields a ha
      have hne : a.1 ≠ field := by
        intro heq
        rw [heq, hnone] at hlookup
        cases hlookup
      rw [AList.lookup_insert_ne hne]
      exact ⟨hlookup, hle.trans (Nat.le_succ _)⟩
    · rw [List.mem_singleton.mp ha]
      exact ⟨AList.lookup_insert _, le_rfl⟩
  · intro key slot hlookup
    by_cases hkey : key = field
    · subst hkey
      rw [AList.lookup_insert] at hlookup
      obtain rfl := Option.some.inj hlookup
      exact ⟨hroom, hname.plain, .inl (List.mem_append_right _ List.mem_cons_self)⟩
    · rw [AList.lookup_insert_ne hkey] at hlookup
      obtain ⟨hslot, hplain, horigin⟩ := h.entries key slot hlookup
      exact ⟨hslot, hplain, horigin.imp_left fun hmem => List.mem_append_left _ hmem⟩

theorem SlotsKept.again (h : SlotsKept crates r) (hmem : (field, slot) ∈ r.given) :
    SlotsKept crates { r with given := r.given ++ [(field, slot)] } := by
  have hsame : ∀ a, a ∈ r.given ++ [(field, slot)] ↔ a ∈ r.given := by
    intro a
    rw [List.mem_append, List.mem_singleton]
    exact ⟨fun ha => ha.elim id fun heq => heq ▸ hmem, .inl⟩
  have hheld : ∀ {data : HashMap String ℕ}, HoldsSlots r.given data →
      HoldsSlots (r.given ++ [(field, slot)]) data := by
    intro data hdata
    refine ⟨fun a ha => hdata.fields a ((hsame a).mp ha), fun key slot hlookup => ?_⟩
    obtain ⟨hslot, hplain, horigin⟩ := hdata.entries key slot hlookup
    exact ⟨hslot, hplain, horigin.imp_left (hsame _).mpr⟩
  refine ⟨fun a ha => h.names a ((hsame a).mp ha), h.last, hheld h.held, fun k hload => ?_,
    fun hfile => ?_, fun a ha b hb => h.unique a ((hsame a).mp ha) b ((hsame b).mp hb)⟩
  · obtain ⟨hlast, hdata⟩ := h.loaded k hload
    exact ⟨hlast, hheld hdata⟩
  · rw [h.missing hfile] at hmem
    cases hmem

theorem SlotsKept.new (h : SlotsKept crates r) (hname : FieldName field)
    (hnone : r.key2slot.data.lookup field = none)
    (hroom : r.key2slot.data.keys.length + 1 < 2 ^ 32) (π : IterOrder String) :
    SlotsKept crates
      ⟨{ r.key2slot with data := r.key2slot.data.insert field (r.key2slot.data.keys.length + 1) },
        Key2Slot.store crates
          { r.key2slot with data := r.key2slot.data.insert field (r.key2slot.data.keys.length + 1) }
          π r.file,
        r.given ++ [(field, r.key2slot.data.keys.length + 1)]⟩ := by
  have hheld := h.held.insert hname hnone hroom
  have hsome : (r.key2slot.data.insert field (r.key2slot.data.keys.length + 1)).keys ≠ [] := by
    rw [AList.keys_insert]
    exact List.cons_ne_nil _ _
  obtain ⟨hfile, hloaded⟩ := HoldsSlots.store crates r.file
    (k := { r.key2slot with
      data := r.key2slot.data.insert field (r.key2slot.data.keys.length + 1) }) hheld h.last hsome π
  refine ⟨fun a ha => ?_, h.last, hheld, hloaded, fun hnone => absurd hnone hfile,
    fun a ha b hb heq => ?_⟩
  · rcases List.mem_append.mp ha with ha | ha
    · exact h.names a ha
    · rw [List.mem_singleton.mp ha]
      exact hname
  · -- the new slot is above the old ones
    rcases List.mem_append.mp ha with ha | ha <;> rcases List.mem_append.mp hb with hb | hb
    · exact h.unique a ha b hb heq
    · have hle := (h.held.fields a ha).2
      rw [heq, List.mem_singleton.mp hb] at hle
      exact absurd hle (Nat.not_succ_le_self _)
    · have hle := (h.held.fields b hb).2
      rw [← heq, List.mem_singleton.mp ha] at hle
      exact absurd hle (Nat.not_succ_le_self _)
    · rw [List.mem_singleton.mp ha, List.mem_singleton.mp hb]

/-- **One event** keeps the slots. -/
theorem SlotsKept.step (h : SlotsKept crates r) (hname : ∀ π field, e = .call π field →
    FieldName field) (hroom : r.HasRoom e) : SlotsKept crates (r.step crates e) := by
  cases e with
  | call π field =>
    have hfield := hname π field rfl
    rw [SlotRun.step, Key2Slot.getSlotAndSetIfNotFound]
    cases hslot : r.key2slot.getSlot field with
    | some slot =>
      refine h.again (h.held.given_of_lookup hfield ?_)
      rw [← hfield.getSlot_eq, hslot]
    | none =>
      have hnone : r.key2slot.data.lookup field = none := by rw [← hfield.getSlot_eq, hslot]
      have hfits := hroom.resolve_left fun hne => hne hslot
      dsimp only
      rw [Nat.mod_eq_of_lt hfits]
      exact h.new hfield hnone hfits π
  | commit π =>
    rw [SlotRun.step]
    split_ifs with hempty
    · exact h
    · obtain ⟨hfile, hloaded⟩ := h.held.store crates r.file h.last
        (fun hnil => hempty (by rw [hnil]; rfl)) π
      exact ⟨h.names, h.last, h.held, hloaded, fun hnone => absurd hnone hfile, h.unique⟩
  | restart =>
    rw [SlotRun.step]
    cases hload : Key2Slot.load crates r.file with
    | some k =>
      obtain ⟨hlast, hdata⟩ := h.loaded k hload
      exact ⟨h.names, hlast, hdata, h.loaded, h.missing, h.unique⟩
    | none =>
      have hgiven : r.given = [] := h.missing (Option.map_eq_none_iff.mp hload)
      refine ⟨h.names, rfl, ?_, h.loaded, h.missing, h.unique⟩
      rw [hgiven]
      exact holdsSlots_empty

theorem SlotsKept.run (h : SlotsKept crates r) (hnames : FieldCalls events)
    (hroom : r.AllHaveRoom crates events) :
    SlotsKept crates (events.foldl (SlotRun.step crates) r) := by
  induction events generalizing r with
  | nil => exact h
  | cons e events ih =>
    refine ih (h.step (fun π field he => hnames π field (he ▸ List.mem_cons_self)) hroom.1)
      (fun π field hmem => hnames π field (List.mem_cons_of_mem _ hmem)) hroom.2

theorem SlotsKept.settled (h : SlotsKept crates r) : Settled r.given := by
  intro a ha b hb
  refine ⟨fun heq => ?_, h.unique a ha b hb⟩
  have hlookup := (h.held.fields a ha).1
  rw [heq, (h.held.fields b hb).1] at hlookup
  exact (Option.some.inj hlookup).symm

/-- **When slots are stable and unique**: as long as the numbers fit.

**Proof sketch.** The slots of fields are at most the size of the map, and the next one is above
it (`SlotsKept.new`). What is loaded has all the entries that were stored and perhaps that of a
checksum (`lookup_load_store`), which is the name of no field; so the map is not smaller. -/
theorem settled_of_hasRoom (crates : SlotCrates) (hnames : FieldCalls events)
    (hroom : SlotRun.start.AllHaveRoom crates events) :
    Settled (events.foldl (SlotRun.step crates) .start).given :=
  ((slotsKept_start crates).run hnames hroom).settled

end Runs

/-! ## Scanning -/

section Scan

variable {field : List Char} {slot n : ℕ}

/-- The text and the number of a line: the text goes to a quote or white space, the number to white
space. -/
def scanSlotLine : List Char → Option (List Char) × Option ℕ
  | '"' :: line =>
    let field := line.takeWhile fun c => c ≠ '"' && !isWhiteSpace c
    match line.drop field.length with
    | '"' :: ',' :: number =>
      (some field, parseUnsigned (2 ^ 32 - 1) (number.takeWhile fun c => !isWhiteSpace c))
    | _ => (some field, none)
  | _ => (none, none)

theorem isWhiteSpace_of_isDigit {c : Char} (h : c.isDigit = true) : isWhiteSpace c = false := by
  simp only [Char.isDigit, Bool.and_eq_true, decide_eq_true_eq] at h
  have hlow : 48 ≤ c.toNat := h.1
  have hhigh : c.toNat ≤ 57 := h.2
  rw [isWhiteSpace, decide_eq_false_iff_not]
  intro hmem
  simp only [List.mem_cons, List.not_mem_nil, or_false] at hmem
  omega

theorem scanSlotLine_slotLine (h : PlainField field) (slot : ℕ) :
    scanSlotLine (slotLine field slot) =
      (some field, parseUnsigned (2 ^ 32 - 1) (Nat.toDigits 10 slot)) := by
  have hfield : (field ++ '"' :: ',' :: Nat.toDigits 10 slot).takeWhile
      (fun c => c ≠ '"' && !isWhiteSpace c) = field := by
    rw [List.takeWhile_append_of_pos, List.takeWhile_cons_of_neg (by decide), List.append_nil]
    intro c hc
    obtain ⟨hquote, hspace⟩ := h.2 c hc
    simp [hquote, hspace]
  have hnumber : (Nat.toDigits 10 slot).takeWhile (fun c => !isWhiteSpace c) =
      Nat.toDigits 10 slot := by
    have hall : ∀ c ∈ Nat.toDigits 10 slot, (!isWhiteSpace c) = true := by
      intro c hc
      rw [isWhiteSpace_of_isDigit (List.all_eq_true.mp (all_isDigit_toDigits slot) c hc)]
      rfl
    rw [← List.append_nil (Nat.toDigits 10 slot), List.takeWhile_append_of_pos hall,
      List.takeWhile_nil]
  rw [slotLine, scanSlotLine, hfield, List.drop_left]
  exact congrArg (fun number => (some field, parseUnsigned (2 ^ 32 - 1) number)) hnumber

/-- The checksum and the scan of a line. -/
def slotCrates : SlotCrates where
  crc32 := VQueue.crc32Of
  scanLine := scanSlotLine
  scan_slotLine h hslot := by
    rw [scanSlotLine_slotLine h, parseUnsigned_toDigits (by omega)]
  scan_tooLarge h hslot := by
    rw [scanSlotLine_slotLine h, parseUnsigned_toDigits_of_lt (by omega)]

end Scan

theorem fieldName_of_mem {field : String} (hplain : PlainField field.toList)
    (hnumber : field.toList.head? ≠ some '#') {c : Char} (hc : c ∈ field.toList)
    (hhex : isHexChar c = false) : FieldName field := by
  refine ⟨hplain, hnumber, fun hall => ?_⟩
  rw [hall c hc] at hhex
  cases hhex

/-- Two fields, with a restart between them and after them. -/
theorem settled_twoFields :
    Settled ([SlotEvent.call (.stored String) "rdf:type", .restart,
      .call (.stored String) "rdfs:label", .restart,
      .call (.stored String) "rdf:type"].foldl (SlotRun.step slotCrates) .start).given := by
  refine settled_of_hasRoom slotCrates (fun π field hmem => ?_) ?_
  · simp only [List.mem_cons, SlotEvent.call.injEq, reduceCtorEq, List.not_mem_nil, or_false,
      false_or] at hmem
    have hcolon : isHexChar ':' = false := by decide +kernel
    have htype : FieldName "rdf:type" :=
      fieldName_of_mem (by decide +kernel) (by decide +kernel) (by decide +kernel) hcolon
    have hlabel : FieldName "rdfs:label" :=
      fieldName_of_mem (by decide +kernel) (by decide +kernel) (by decide +kernel) hcolon
    rcases hmem with ⟨-, rfl⟩ | ⟨-, rfl⟩ | ⟨-, rfl⟩
    · exact htype
    · exact hlabel
    · exact htype
  · refine ⟨.inr (by decide +kernel), trivial, .inr ?_, trivial, .inr ?_, trivial⟩
    · decide +kernel
    · decide +kernel

/-! ## Too many fields -/

section TooMany

variable {crates : SlotCrates} {r : SlotRun} {π : IterOrder String} {fields : List String}

/-- All slots have 32 bits. -/
structure SmallSlots (r : SlotRun) : Prop where
  given : ∀ a ∈ r.given, a.2 < 2 ^ 32
  data : ∀ key slot, r.key2slot.data.lookup key = some slot → slot < 2 ^ 32

variable (crates π) in
theorem SmallSlots.call (h : SmallSlots r) {field : String} (hname : FieldName field) :
    SmallSlots (r.step crates (.call π field)) ∧
      (r.step crates (.call π field)).given.map Prod.fst = r.given.map Prod.fst ++ [field] := by
  rw [SlotRun.step, Key2Slot.getSlotAndSetIfNotFound, hname.getSlot_eq]
  cases hslot : r.key2slot.data.lookup field with
  | some slot =>
    refine ⟨⟨fun a ha => ?_, h.data⟩, List.map_append⟩
    rcases List.mem_append.mp ha with ha | ha
    · exact h.given a ha
    · rw [List.mem_singleton.mp ha]
      exact h.data field slot hslot
  | none =>
    have hlt : (r.key2slot.data.keys.length + 1) % 2 ^ 32 < 2 ^ 32 := Nat.mod_lt _ (by decide)
    refine ⟨⟨fun a ha => ?_, fun key slot hlookup => ?_⟩, List.map_append⟩
    · rcases List.mem_append.mp ha with ha | ha
      · exact h.given a ha
      · rw [List.mem_singleton.mp ha]
        exact hlt
    · by_cases hkey : key = field
      · subst hkey
        rw [AList.lookup_insert] at hlookup
        rw [← Option.some.inj hlookup]
        exact hlt
      · rw [AList.lookup_insert_ne hkey] at hlookup
        exact h.data key slot hlookup

variable (crates π) in
theorem SmallSlots.calls (h : SmallSlots r) (hnames : ∀ field ∈ fields, FieldName field) :
    SmallSlots ((fields.map (SlotEvent.call π)).foldl (SlotRun.step crates) r) ∧
      ((fields.map (SlotEvent.call π)).foldl (SlotRun.step crates) r).given.map Prod.fst =
        r.given.map Prod.fst ++ fields := by
  induction fields generalizing r with
  | nil => exact ⟨h, (List.append_nil _).symm⟩
  | cons field fields ih =>
    obtain ⟨hsmall, hgiven⟩ := h.call crates π (hnames field List.mem_cons_self)
    obtain ⟨hall, hfields⟩ := ih hsmall fun f hf => hnames f (List.mem_cons_of_mem _ hf)
    refine ⟨hall, hfields.trans ?_⟩
    rw [hgiven, List.append_assoc]
    rfl

theorem not_settled_of_lt (hnames : ∀ field ∈ fields, FieldName field) (hnodup : fields.Nodup)
    (hmany : 2 ^ 32 < fields.length) (crates : SlotCrates) (π : IterOrder String) :
    ¬ Settled ((fields.map (SlotEvent.call π)).foldl (SlotRun.step crates) .start).given := by
  intro hsettled
  have hstart : SmallSlots .start := ⟨fun _ ha => (nomatch ha), fun _ _ hlookup => (nomatch hlookup)⟩
  obtain ⟨hsmall, hfields⟩ := hstart.calls crates π hnames
  generalize ((fields.map (SlotEvent.call π)).foldl (SlotRun.step crates) .start) = r at *
  have hfst : r.given.map Prod.fst = fields := hfields
  have hslots : (r.given.map Prod.snd).Nodup := by
    rw [← hfst] at hnodup
    refine List.pairwise_map.mpr ((List.pairwise_map.mp hnodup).imp_of_mem ?_)
    exact fun ha hb hne heq => hne ((hsettled _ ha _ hb).mpr heq)
  have hsubset : r.given.map Prod.snd ⊆ List.range (2 ^ 32) := by
    intro slot hslot
    obtain ⟨a, ha, rfl⟩ := List.mem_map.mp hslot
    exact List.mem_range.mpr (hsmall.given a ha)
  have hle := (List.subperm_of_subset hslots hsubset).length_le
  have hlen := congrArg List.length hfst
  rw [List.length_map] at hle hlen
  rw [List.length_range] at hle
  omega

/-- The field whose name is a number of letters. -/
def letters (n : ℕ) : String := String.ofList (List.replicate (n + 1) 'z')

theorem fieldName_letters (n : ℕ) : FieldName (letters n) := by
  have hchars : (letters n).toList = List.replicate (n + 1) 'z' := String.toList_ofList
  refine fieldName_of_mem ?_ ?_ (c := 'z') ?_ (by decide)
  · rw [hchars]
    refine ⟨List.cons_ne_nil _ _, fun c hc => ?_⟩
    rw [List.eq_of_mem_replicate hc]
    decide
  · rw [hchars, List.replicate_succ, List.head?_cons]
    decide
  · rw [hchars]
    exact List.mem_cons_self

theorem nodup_letters (n : ℕ) : ((List.range n).map letters).Nodup := by
  refine List.nodup_range.map fun a b heq => ?_
  have hlen := congrArg (fun s => s.toList.length) heq
  simp only [letters, String.toList_ofList, List.length_replicate] at hlen
  omega

/-- With one field more than there are numbers, two fields have the same slot. -/
theorem not_settled_tooMany :
    ∃ events, FieldCalls events ∧
      ¬ Settled (events.foldl (SlotRun.step slotCrates) .start).given := by
  refine ⟨((List.range (2 ^ 32 + 1)).map letters).map (SlotEvent.call (.stored String)), ?_, ?_⟩
  · intro π field hmem
    obtain ⟨name, hname, heq⟩ := List.mem_map.mp hmem
    obtain ⟨n, -, rfl⟩ := List.mem_map.mp hname
    obtain ⟨-, rfl⟩ := SlotEvent.call.inj heq
    exact fieldName_letters n
  · refine not_settled_of_lt (fun field hfield => ?_) (nodup_letters _) ?_ slotCrates _
    · obtain ⟨n, -, rfl⟩ := List.mem_map.mp hfield
      exact fieldName_letters n
    · rw [List.length_map, List.length_range]
      exact Nat.lt_succ_self _

end TooMany

end Veda.Xapian
