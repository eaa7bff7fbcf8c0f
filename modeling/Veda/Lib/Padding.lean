import Mathlib.Data.List.Basic

set_option autoImplicit false

/-!
# Columns that are filled up late

The columns of a table that is written row by row, where a row has values for some of the columns
only. A column is not touched by the other rows; it is filled up when it gets its next value, and
at the end of the table.

## Main definitions

* `Lib.fillTo` — a column is filled up.
* `Lib.rowAt` — what a column has in a row, now or after it is filled up.

## Main results

* `Lib.rowAt_fillTo`, `Lib.rowAt_append` — what is in the rows does not depend on when
  a column is filled up.
-/

namespace Veda.Lib

section Padding

variable {α : Type} (filler : α)

/-- The column with `filler` up to a number of rows. -/
def fillTo (rows : ℕ) (column : List α) : List α :=
  column ++ List.replicate (rows - column.length) filler

/-- What a column has in row `k`, or will have when it is filled up. -/
def rowAt (column : List α) (k : ℕ) : α := column[k]?.getD filler

variable {filler} {rows k : ℕ} {column : List α}

theorem length_fillTo (h : column.length ≤ rows) : (fillTo filler rows column).length = rows := by
  rw [fillTo, List.length_append, List.length_replicate]
  omega

theorem rowAt_of_length_le (h : column.length ≤ k) : rowAt filler column k = filler := by
  rw [rowAt, List.getElem?_eq_none h, Option.getD_none]

@[simp] theorem rowAt_nil : rowAt filler [] k = filler := rfl

theorem rowAt_fillTo : rowAt filler (fillTo filler rows column) k = rowAt filler column k := by
  unfold rowAt fillTo
  by_cases hk : k < column.length
  · rw [List.getElem?_append_left hk]
  · rw [List.getElem?_append_right (Nat.le_of_not_lt hk), List.getElem?_replicate,
      List.getElem?_eq_none (Nat.le_of_not_lt hk)]
    split_ifs <;> rfl

theorem rowAt_append (h : column.length ≤ rows) (x : α) :
    rowAt filler (fillTo filler rows column ++ [x]) k =
      if k = rows then x else rowAt filler column k := by
  have hlength : (fillTo filler rows column).length = rows := length_fillTo h
  split_ifs with hk
  · rw [rowAt, hk, List.getElem?_append_right (Nat.le_of_eq hlength), hlength, Nat.sub_self]
    rfl
  · rcases Nat.lt_or_gt_of_ne hk with hlt | hgt
    · rw [rowAt, List.getElem?_append_left (by rwa [hlength])]
      exact rowAt_fillTo
    · rw [rowAt_of_length_le, rowAt_of_length_le (Nat.le_trans h (Nat.le_of_lt hgt))]
      rw [List.length_append, hlength]
      exact hgt

end Padding

end Veda.Lib
