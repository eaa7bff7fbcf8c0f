import Mathlib.Data.List.Basic

set_option autoImplicit false

/-!
# Doubly linked lists

A doubly linked list in a memory whose nodes hold a link to the node in front of them and a link to
the node behind them. The list is read from its last node towards the first one.

## Main definitions

* `Lib.DoublyLinked` — the nodes in front of a node, the nearest first.

## Main results

* `Lib.DoublyLinked.congr` — a change outside of the list.
* `Lib.DoublyLinked.insert` — a new node directly in front of the last one.
-/

namespace Veda.Lib

variable {α : Type} {prev next prev' next' : α → Option α} {last v : α} {vs ws : List α}

/-- The nodes `vs` are those in front of `last`, the nearest first: every link back is answered by a
link forth, and the first node has nothing in front of it. -/
def DoublyLinked (prev next : α → Option α) (last : α) : List α → Prop
  | [] => prev last = none
  | v :: vs => prev last = some v ∧ next v = some last ∧ DoublyLinked prev next v vs

namespace DoublyLinked

theorem prev_last (h : DoublyLinked prev next last vs) : prev last = vs.head? := by
  cases vs with
  | nil => exact h
  | cons v vs => exact h.1

theorem congr (h : DoublyLinked prev next last vs)
    (hprev : ∀ u ∈ last :: vs, prev' u = prev u) (hnext : ∀ u ∈ vs, next' u = next u) :
    DoublyLinked prev' next' last vs := by
  induction vs generalizing last with
  | nil => exact (hprev last List.mem_cons_self).trans h
  | cons v vs ih =>
    obtain ⟨hback, hforth, hrest⟩ := h
    refine ⟨(hprev last List.mem_cons_self).trans hback,
      (hnext v List.mem_cons_self).trans hforth, ih hrest ?_ ?_⟩
    · exact fun u hu => hprev u (List.mem_cons_of_mem last hu)
    · exact fun u hu => hnext u (List.mem_cons_of_mem v hu)

theorem insert (h : DoublyLinked prev next last vs) (hlast : prev' last = some v)
    (hforth : next' v = some last) (hback : prev' v = prev last)
    (hhead : ∀ u ∈ vs.head?, next' u = some v) (hprev : ∀ u ∈ vs, prev' u = prev u)
    (hnext : ∀ u ∈ vs.tail, next' u = next u) :
    DoublyLinked prev' next' last (v :: vs) := by
  refine ⟨hlast, hforth, ?_⟩
  cases vs with
  | nil => exact hback.trans h
  | cons u us =>
    obtain ⟨hu, -, hrest⟩ := h
    exact ⟨hback.trans hu, hhead u rfl, hrest.congr hprev hnext⟩

end DoublyLinked

end Veda.Lib
