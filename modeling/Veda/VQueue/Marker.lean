import Veda.VQueue.Lines

set_option autoImplicit false

/-!
# The marker of a header

A header that is pushed comes back from the disk with all its numbers, its type and its checksum,
and the checksum is right. The marker is an exception: it is written with the highest byte first and
read in the byte order of the machine.

## Main definitions

* `VQueue.headerOfIn` — the bytes of a pushed header on a machine with a byte order.
* `VQueue.SurvivesDisk` — a header comes back as it was pushed.

## Main results

* `VQueue.createFromBufIn_headerOfIn` — what comes back.
* `VQueue.survivesDisk_iff` — the marker survives with the highest byte first only.
-/

namespace Veda.VQueue

variable {start count : ℕ} {m : Message}

/-- `headerOf` on a machine with a byte order. -/
def headerOfIn (e : ByteOrder) (crc32 : List UInt8 → UInt32) (start count : ℕ) (m : Message) :
    List UInt8 :=
  let bheader := (pushedHeader start count m).toBufIn e
  setCrcIn e bheader (crc32 (bheader ++ m.body))

theorem headerOfIn_little (crc32 : List UInt8 → UInt32) :
    headerOfIn .little crc32 = headerOf crc32 ∧ createFromBufIn .little = createFromBuf :=
  ⟨rfl, rfl⟩

/-- A header comes back with its marker, and the consumer computes the checksum that it has. -/
structure SurvivesDisk (e : ByteOrder) (crc32 : List UInt8 → UInt32) (start count : ℕ)
    (m : Message) : Prop where
  fields : createFromBufIn e (headerOfIn e crc32 start count m) =
    { pushedHeader start count m with
      crc := crc32 ((pushedHeader start count m).toBufIn e ++ m.body) }
  checksum : crc32 (clearCrc (headerOfIn e crc32 start count m) ++ m.body) =
    (createFromBufIn e (headerOfIn e crc32 start count m)).crc

/-- **What comes back**: the header with its checksum, except for its marker. -/
theorem createFromBufIn_headerOfIn (e : ByteOrder) (crc32 : List UInt8 → UInt32)
    (hstart : start < 2 ^ 64) (hcount : count < 2 ^ 32) (hbody : m.body.length < 2 ^ 32) :
    createFromBufIn e (headerOfIn e crc32 start count m) =
      { pushedHeader start count m with
        magicMarker := e.fromNeBytes markerBytes
        crc := crc32 ((pushedHeader start count m).toBufIn e ++ m.body) } := by
  rw [headerOfIn, createFromBufIn_setCrcIn]
  simp only [pushedHeader, Header.mk.injEq, true_and, and_true]
  exact ⟨Nat.mod_eq_of_lt hstart, Nat.mod_eq_of_lt hbody, Nat.mod_eq_of_lt hcount⟩

theorem crc_headerOfIn (e : ByteOrder) (crc32 : List UInt8 → UInt32) (start count : ℕ)
    (m : Message) :
    crc32 (clearCrc (headerOfIn e crc32 start count m) ++ m.body) =
      (createFromBufIn e (headerOfIn e crc32 start count m)).crc := by
  rw [headerOfIn, clearCrc_setCrcIn, createFromBufIn_setCrcIn]

/-- **A pushed header survives the disk** on a machine with the highest byte first, and on no
other. -/
theorem survivesDisk_iff (e : ByteOrder) (crc32 : List UInt8 → UInt32) (start : UInt64)
    (count : UInt32) (m : Message) (hbody : m.body.length ≤ 2147483647) :
    SurvivesDisk e crc32 start.toNat count.toNat m ↔ e = .big := by
  have hback := createFromBufIn_headerOfIn (m := m) e crc32 start.toNat_lt count.toNat_lt
    (by omega)
  constructor
  · rintro ⟨hfields, -⟩
    have hmarker : e.fromNeBytes markerBytes = 0xEEFEEFEE :=
      congrArg Header.magicMarker (hback.symm.trans hfields)
    cases e with
    | little => exact absurd hmarker (by decide)
    | big => rfl
  · rintro rfl
    exact ⟨hback, crc_headerOfIn _ _ _ _ _⟩

theorem survivesDisk_big : SurvivesDisk .big crc32Of 0 1 ⟨.string, [104, 105]⟩ :=
  (survivesDisk_iff .big crc32Of 0 1 ⟨.string, [104, 105]⟩ (by decide)).mpr rfl

/-- The marker 0xEEFEEFEE comes back as 0xEEEFFEEE. -/
theorem not_survivesDisk_little : ¬ SurvivesDisk .little crc32Of 0 1 ⟨.string, [104, 105]⟩ := by
  rintro ⟨hfields, -⟩
  rw [createFromBufIn_headerOfIn _ _ (by decide) (by decide) (by decide)] at hfields
  have hmarker : ByteOrder.little.fromNeBytes markerBytes = 0xEEFEEFEE :=
    congrArg Header.magicMarker hfields
  exact absurd hmarker (by decide)

end Veda.VQueue
