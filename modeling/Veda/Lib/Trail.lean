import Mathlib.Logic.Relation
import Mathlib.Data.List.Nodup
import Mathlib.Data.List.Perm.Subperm

set_option autoImplicit false

/-!
# Trails

The nodes that a depth-first walk is inside of form a trail: each is a successor of the one before,
and none is entered twice. A relation is shallow below a root when its trails from there are not
longer than a bound, so that a walk which is cut at that depth is not cut at all.

## Main definitions

* `Lib.Trail` — a trail from a root, the last node first.
* `Lib.ShallowBelow` — no trail from a root is longer than a bound.

## Main results

* `Lib.Trail.reaches`, `Lib.Trail.mem_reaches` — what a trail passes reaches its end.
* `Lib.shallowBelow_of_mem` — few successors make short trails.
-/

namespace Veda.Lib

variable {α : Type} {E : α → α → Prop} {root : α}

/-- A trail from a root to a node: the nodes that were entered, the last one first. The root itself
counts when it is entered again. -/
inductive Trail (E : α → α → Prop) (root : α) : α → List α → Prop
  | nil : Trail E root root []
  | cons {u v : α} {l : List α} : Trail E root u l → E u v → v ∉ l → Trail E root v (v :: l)

/-- No trail from the root enters more than `n` nodes. -/
def ShallowBelow (E : α → α → Prop) (root : α) (n : ℕ) : Prop :=
  ∀ u l, Trail E root u l → l.length ≤ n

namespace Trail

theorem reaches {u : α} {l : List α} (h : Trail E root u l) : Relation.ReflTransGen E root u := by
  induction h with
  | nil => exact .refl
  | cons _ hedge _ ih => exact ih.tail hedge

theorem mem_reaches {u : α} {l : List α} (h : Trail E root u l) {v : α} (hv : v ∈ l) :
    Relation.ReflTransGen E v u := by
  induction h with
  | nil => cases hv
  | cons _ hedge _ ih =>
    rcases List.mem_cons.mp hv with rfl | hv
    · exact .refl
    · exact (ih hv).tail hedge

theorem nodup {u : α} {l : List α} (h : Trail E root u l) : l.Nodup := by
  induction h with
  | nil => exact List.nodup_nil
  | cons _ _ hnew ih => exact List.nodup_cons.mpr ⟨hnew, ih⟩

theorem mem_of_succ {u : α} {l : List α} (h : Trail E root u l) {names : List α}
    (hE : ∀ u v, E u v → v ∈ names) : ∀ v ∈ l, v ∈ names := by
  induction h with
  | nil => exact fun v hv => by cases hv
  | cons _ hedge _ ih =>
    intro v hv
    rcases List.mem_cons.mp hv with rfl | hv
    · exact hE _ _ hedge
    · exact ih v hv

theorem imp {F : α → α → Prop} (hEF : ∀ u v, E u v → F u v) {u : α} {l : List α}
    (h : Trail E root u l) : Trail F root u l := by
  induction h with
  | nil => exact .nil
  | cons _ hedge hnew ih => exact .cons ih (hEF _ _ hedge) hnew

end Trail

theorem shallowBelow_of_mem {names : List α} (hE : ∀ u v, E u v → v ∈ names) :
    ShallowBelow E root names.length := fun _ _ h =>
  (h.nodup.subperm (h.mem_of_succ hE)).length_le

theorem ShallowBelow.mono {F : α → α → Prop} {m n : ℕ} (h : ShallowBelow F root m)
    (hEF : ∀ u v, E u v → F u v) (hle : m ≤ n) : ShallowBelow E root n :=
  fun u l htrail => Nat.le_trans (h u l (htrail.imp hEF)) hle

end Veda.Lib
