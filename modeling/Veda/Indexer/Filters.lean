import Veda.Indexer.KeyCounts

set_option autoImplicit false

/-!
# Filtered rights

A statement with a filter is indexed under the filter and the object together. What a change takes
back is looked for under the filter of its new state; a change that keeps the filter of the
previous state leaves no right of that state behind.

## Main definitions

* `Indexer.Statement.GrantsUnder` — the bits that a statement gives under a filter.
* `Indexer.OnlyCurrent` — the rights under a filter are those of statements in force.

## Main results

* `Indexer.onlyCurrent_of_runFits` — a history that keeps the filters.
-/

namespace Veda.Indexer

open Veda.Lib Veda.Onto Veda.Authorization

/-- The statement is in force, uses the filter and gives a bit to a subject on an object. -/
def Statement.GrantsUnder (st : Statement) (f o s : String) (a : Access) : Prop :=
  st.deleted = false ∧ st.useFilter = f ∧ o ∈ st.objects ∧ s ∈ st.subjects ∧ st.Sets a

/-- The record under a filter and an object gives a subject only bits of statements in force that
use this filter and list both. -/
def OnlyCurrent (w : World) (f o s : String) : Prop :=
  ∀ a, has (accessAt w.ctx (permissionPrefix ++ f ++ o) s) a = true →
    ∃ id, (w.latest id).GrantsUnder f o s a

/-- No statement in force has another filter and object with the same text. -/
def Unambiguous (w : World) (f o : String) : Prop :=
  ∀ id, (w.latest id).deleted = false → ∀ o' ∈ (w.latest id).objects,
    (w.latest id).useFilter ++ o' = f ++ o → (w.latest id).useFilter = f ∧ o' = o

theorem deliver_permissionStatement : Kind.permissionStatement.deliver = deliver := rfl

theorem access_permissionStatement (st : Statement) :
    Kind.permissionStatement.access st = st.access := by
  unfold Kind.access
  split_ifs with h
  · exact h.symm
  · rfl

theorem grantsUnder_of_contribution {w : World} {f o s : String} {a : Access} {id : String}
    (hdist : Unambiguous w f o)
    (h : Kind.permissionStatement.contribution (w.latest id) (permissionPrefix ++ f ++ o) s a ≠ 0) :
    (w.latest id).GrantsUnder f o s a := by
  obtain ⟨hlive, hkey, hs, ha⟩ := (Kind.contribution_ne_zero _ _ _ _ _).mp h
  obtain ⟨o', ho', hkey⟩ := List.mem_map.mp hkey
  have htext : (w.latest id).useFilter ++ o' = f ++ o := by
    change permissionPrefix ++ (w.latest id).useFilter ++ o' = _ at hkey
    rw [String.append_assoc, String.append_assoc] at hkey
    exact (String.append_right_inj _).mp hkey
  obtain ⟨hf, rfl⟩ := hdist id hlive o' ho' htext
  rw [access_permissionStatement, Statement.has_access] at ha
  exact ⟨hlive, hf, ho', hs, ha⟩

/-- **Withdrawn rights are gone**, also those under filters, in a history each of whose changes
takes back what its previous state granted, under the same filter, and fits the records it meets.

**Proof sketch.** The index counts under each key the references of the latest states
(`CountsLatest.run`). A bit of an entry has a reference, so a statement in force names the key, the
subject and the bit; the key tells its filter and its object. -/
theorem onlyCurrent_of_runFits (hist : List (String × Statement)) (orders : ℕ → HashOrder)
    (hf : Kind.permissionStatement.RunFits hist (.initial orders)) :
    ∃ w, hist.foldlM deliver (.initial orders) = .ok w ∧
      ∀ f o, Unambiguous w f o → ∀ s, OnlyCurrent w f o s := by
  have hcounts := (countsLatest_initial .permissionStatement (hist.map Prod.fst).toFinset
    orders).run hist (fun c hc => List.mem_toFinset.mpr (List.mem_map_of_mem hc)) hf
  refine ⟨_, Kind.permissionStatement.deliver_run hist _, fun f o hdist s a ha => ?_⟩
  rw [hcounts.counts.has_accessAt, hcounts.ne_zero_iff] at ha
  obtain ⟨id, hid⟩ := ha
  exact ⟨id, grantsUnder_of_contribution hdist hid⟩

/-- A statement about reading a document, with a filter and some flags. -/
def filteredStatement (filter : Option String) (flags : List (String × Bool)) : Statement :=
  let st := simpleStatement (("v-s:canRead", true) :: flags)
  match filter with
  | some f => st.addValue "v-s:useFilter" .uri (.uri f)
  | none => st

/-- A statement with a filter that is deleted with its filter. -/
theorem onlyCurrent_deleted :
    ∃ w, [("d:r1", filteredStatement (some "d:flt") []),
        ("d:r1", filteredStatement (some "d:flt") [("v-s:deleted", true)])].foldlM deliver
          (.initial fun _ => .stored) = .ok w ∧
      ∀ f o, Unambiguous w f o → ∀ s, OnlyCurrent w f o s :=
  onlyCurrent_of_runFits _ _ (by decide)

/-- A statement that drops its filter leaves its right under the filter behind. -/
theorem not_onlyCurrent_dropped :
    ¬ ∀ (hist : List (String × Statement)) (orders : ℕ → HashOrder) (w : World),
      hist.foldlM deliver (.initial orders) = .ok w →
        ∀ f o, Unambiguous w f o → ∀ s, OnlyCurrent w f o s := by
  intro h
  have hrun := Kind.permissionStatement.deliver_run
    [("d:r1", filteredStatement (some "d:flt") []), ("d:r1", filteredStatement none [])]
    (.initial fun _ => .stored)
  have hlatest : ∀ id, ((([("d:r1", filteredStatement (some "d:flt") []),
      ("d:r1", filteredStatement none [])]).foldl Kind.permissionStatement.after
        (.initial fun _ => .stored)).latest id) =
      if id = "d:r1" then filteredStatement none [] else .empty := by
    intro id
    simp only [List.foldl_cons, List.foldl_nil, Kind.latest_after]
    split_ifs with hid
    · rw [hid, Function.update_self]
    · rw [Function.update_of_ne hid, Function.update_of_ne hid]
      rfl
  obtain ⟨id, -, hf, -⟩ := h _ _ _ hrun "d:flt" "d:doc" (by
    intro id _ o' ho' heq
    rw [hlatest] at ho' heq
    split_ifs at ho' heq
    · have ho : o' ∈ ["d:doc"] := ho'
      rw [List.mem_singleton.mp ho] at heq
      exact absurd heq (by decide)
    · cases (show o' ∈ [] from ho')) "d:user" .canRead (by decide)
  rw [hlatest] at hf
  split_ifs at hf <;> exact absurd hf (by decide)

end Veda.Indexer
