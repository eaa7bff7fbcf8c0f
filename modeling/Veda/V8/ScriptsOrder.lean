import Mathlib.Algebra.GroupWithZero.Nat
import Veda.Lib.HashMap

set_option autoImplicit false

/-!
# The order of the scripts

Event scripts are run in an order that is built while they are loaded. A script that is loaded is
put in front of a listed one, or at the end; a place that it had before is given up. The walk along
the list counts how often the listed scripts name the new one as a dependency, and stops when there
are as many as the new script has dependencies. What it should find is the place behind the
dependencies of the new script and in front of the scripts that depend on it.

## Main definitions

* `V8.Loading.ScriptsWorkPlace.addToOrder` — the new order.
* `V8.Loading.ScriptsWorkPlace.add` — a script is loaded.
* `V8.Loading.ScriptsWorkPlace.Ordered` — every script stands once, behind its dependencies.
* `V8.Loading.ScriptsWorkPlace.Admits` — the condition on a script that is loaded.

## Main results

* `V8.Loading.exists_place` — where the new script is put.
* `V8.Loading.ScriptsWorkPlace.Ordered.add_iff` — when one step keeps the order.
* `V8.Loading.allOrdered_iff` — when the order is right all the time.
-/

namespace Veda.V8.Loading

open Veda.Lib

/-- A script with the scripts that it names as dependencies. -/
structure ScriptInfo where
  id : String
  dependency : List String
  deriving DecidableEq

structure ScriptsWorkPlace where
  scripts : HashMap String ScriptInfo
  scriptsOrder : List String

namespace ScriptsWorkPlace

/-- A work place without scripts. -/
def new : ScriptsWorkPlace := ⟨∅, []⟩

/-- The dependencies of a script that is known. -/
def dependencyOf (wp : ScriptsWorkPlace) (id : String) : List String :=
  ((wp.scripts.lookup id).map ScriptInfo.dependency).getD []

/-- How often a listed script names another one. -/
def named (wp : ScriptsWorkPlace) (id oo : String) : ℕ := (wp.dependencyOf oo).count id

/-- The loop of `add_to_order`, with the rest of the old order, the count of what has been found,
whether the script has been inserted, and the new order. -/
def orderLoop (wp : ScriptsWorkPlace) (scr : ScriptInfo) :
    List String → ℕ → Bool → List String → List String
  | [], _, inserted, newOrder => if inserted then newOrder else newOrder ++ [scr.id]
  | oo :: rest, countFind, inserted, newOrder =>
    let countFind :=
      if countFind < scr.dependency.length then countFind + wp.named scr.id oo else countFind
    let inserts := !inserted && decide (scr.dependency.length ≤ countFind)
    let newOrder := if inserts then newOrder ++ [scr.id] else newOrder
    let newOrder := if oo ≠ scr.id then newOrder ++ [oo] else newOrder
    orderLoop wp scr rest countFind (inserted || inserts) newOrder

def addToOrder (wp : ScriptsWorkPlace) (scr : ScriptInfo) : ScriptsWorkPlace :=
  { wp with scriptsOrder := wp.orderLoop scr wp.scriptsOrder 0 false [] }

/-- The end of `prepare_script`: the script is put into the order and becomes known. -/
def add (wp : ScriptsWorkPlace) (scr : ScriptInfo) : ScriptsWorkPlace :=
  let wp := wp.addToOrder scr
  { wp with scripts := wp.scripts.insert scr.id scr }

/-- Scripts are loaded one after another. -/
def addAll (wp : ScriptsWorkPlace) (scrs : List ScriptInfo) : ScriptsWorkPlace :=
  scrs.foldl add wp

/-! ## What the order should be -/

/-- A script that is known names another one as a dependency. -/
def DependsOn (wp : ScriptsWorkPlace) (id d : String) : Prop := d ∈ wp.dependencyOf id

instance (wp : ScriptsWorkPlace) (id d : String) : Decidable (wp.DependsOn id d) :=
  inferInstanceAs (Decidable (_ ∈ _))

/-- Every script that is known is listed once, and behind the listed scripts that it depends on. -/
structure Ordered (wp : ScriptsWorkPlace) : Prop where
  once : wp.scriptsOrder.Nodup
  listed : ∀ id, id ∈ wp.scriptsOrder ↔ id ∈ wp.scripts
  behind : ∀ before id after, wp.scriptsOrder = before ++ id :: after →
    ∀ d ∈ wp.scriptsOrder, wp.DependsOn id d → d ∈ before

/-- The condition on a script that is loaded: it has no dependencies, or no listed script depends on
it, or the first one that does names it as often as it has dependencies, and those of them that are
listed stand in front of that one. -/
def Admits (wp : ScriptsWorkPlace) (scr : ScriptInfo) : Prop :=
  scr.dependency = [] ∨ (∀ oo ∈ wp.scriptsOrder, ¬ wp.DependsOn oo scr.id) ∨
    ∃ before oo after, wp.scriptsOrder = before ++ oo :: after ∧
      (∀ id ∈ before, ¬ wp.DependsOn id scr.id) ∧
      scr.dependency.length ≤ wp.named scr.id oo ∧
      ∀ d ∈ scr.dependency, d ∈ wp.scriptsOrder → d ∈ before

/-- The condition on scripts that are loaded one after another. -/
def AdmitsAll : ScriptsWorkPlace → List ScriptInfo → Prop
  | _, [] => True
  | wp, scr :: scrs => wp.Admits scr ∧ (wp.add scr).AdmitsAll scrs

end ScriptsWorkPlace

/-- The dependencies among some scripts have no cycle: each stands on a level above those of its
dependencies. -/
def Acyclic (scrs : List ScriptInfo) : Prop :=
  ∃ level : String → ℕ, ∀ scr ∈ scrs, ∀ d ∈ scr.dependency, d ∈ scrs.map ScriptInfo.id →
    level d < level scr.id

/-! ## The place of a script -/

section Place

variable {wp : ScriptsWorkPlace} {scr : ScriptInfo}

/-- How often some listed scripts name another one. -/
def total (wp : ScriptsWorkPlace) (id : String) (order : List String) : ℕ :=
  (order.map (wp.named id)).sum

theorem named_eq_zero_iff {id oo : String} : wp.named id oo = 0 ↔ ¬ wp.DependsOn oo id :=
  List.count_eq_zero

theorem total_eq_zero_iff {id : String} {order : List String} :
    total wp id order = 0 ↔ ∀ oo ∈ order, ¬ wp.DependsOn oo id := by
  rw [total, List.sum_eq_zero_iff_forall_eq_nat, List.forall_mem_map]
  exact forall₂_congr fun oo _ => named_eq_zero_iff

theorem copied_append (id oo : String) (newOrder rest : List String) :
    (if oo ≠ id then newOrder ++ [oo] else newOrder) ++ rest.filter (· ≠ id) =
      newOrder ++ (oo :: rest).filter (· ≠ id) := by
  by_cases hoo : oo = id
  · rw [if_neg (not_not.mpr hoo), List.filter_cons_of_neg (by simpa using hoo)]
  · rw [if_pos hoo, List.filter_cons_of_pos (by simpa using hoo), List.append_assoc]
    rfl

theorem orderLoop_inserted (rest : List String) (count : ℕ) (newOrder : List String) :
    wp.orderLoop scr rest count true newOrder = newOrder ++ rest.filter (· ≠ scr.id) := by
  induction rest generalizing count newOrder with
  | nil => simp [ScriptsWorkPlace.orderLoop]
  | cons oo rest ih =>
    rw [ScriptsWorkPlace.orderLoop]
    simp only [Bool.not_true, Bool.false_and, Bool.true_or]
    rw [ih, if_neg Bool.false_ne_true]
    exact copied_append scr.id oo newOrder rest

variable (wp scr) in
/-- **Where the script is put**: in front of the listed script with which enough are found. -/
theorem exists_place (rest : List String) (count : ℕ) (newOrder : List String) :
    ∃ before after, rest = before ++ after ∧
      (before ≠ [] → count + total wp scr.id before < scr.dependency.length) ∧
      (∀ oo after', after = oo :: after' →
        scr.dependency.length ≤ count + total wp scr.id before + wp.named scr.id oo) ∧
      wp.orderLoop scr rest count false newOrder =
        newOrder ++ (before.filter (· ≠ scr.id) ++ scr.id :: after.filter (· ≠ scr.id)) := by
  induction rest generalizing count newOrder with
  | nil => exact ⟨[], [], rfl, fun h => absurd rfl h, fun _ _ h => (nomatch h), rfl⟩
  | cons oo rest ih =>
    rw [ScriptsWorkPlace.orderLoop]
    simp only [Bool.not_false, Bool.true_and, Bool.false_or]
    by_cases hfound : scr.dependency.length ≤ count + wp.named scr.id oo
    · have hcount : scr.dependency.length ≤
          if count < scr.dependency.length then count + wp.named scr.id oo else count := by
        split_ifs with hlt
        · exact hfound
        · omega
      refine ⟨[], oo :: rest, rfl, fun h => absurd rfl h, ?_, ?_⟩
      · rintro _ _ ⟨rfl, rfl⟩
        exact hfound
      · rw [decide_eq_true hcount, if_pos rfl, orderLoop_inserted, copied_append,
          List.append_assoc]
        rfl
    · have hcount : (if count < scr.dependency.length then count + wp.named scr.id oo else count) =
          count + wp.named scr.id oo := if_pos (by omega)
      obtain ⟨before, after, hrest, hbefore, hafter, hloop⟩ := ih (count + wp.named scr.id oo)
        (if oo ≠ scr.id then newOrder ++ [oo] else newOrder)
      have htotal : count + total wp scr.id (oo :: before) =
          count + wp.named scr.id oo + total wp scr.id before := by
        rw [total, List.map_cons, List.sum_cons, ← Nat.add_assoc]
        rfl
      refine ⟨oo :: before, after, by rw [hrest]; rfl, fun _ => ?_, fun x rest' hx => ?_, ?_⟩
      · rw [htotal]
        by_cases hnil : before = []
        · rw [hnil]
          exact not_le.mp hfound
        · exact hbefore hnil
      · rw [htotal]
        exact hafter x rest' hx
      · rw [hcount, decide_eq_false hfound, if_neg Bool.false_ne_true, hloop, ← List.append_assoc,
          copied_append, List.append_assoc]

end Place

/-! ## What stands behind its dependencies -/

section Behind

variable {α : Type} {dependsOn : α → α → Prop} {order : List α}

theorem behind_iff_pairwise (h : order.Nodup) :
    (∀ before id after, order = before ++ id :: after →
      ∀ d ∈ order, dependsOn id d → d ∈ before) ↔
    (∀ id ∈ order, ¬ dependsOn id id) ∧ order.Pairwise fun a b => ¬ dependsOn a b := by
  constructor
  · intro hbehind
    have hapart : ∀ before id after, order = before ++ id :: after →
        ∀ d ∈ id :: after, ¬ dependsOn id d := by
      intro before id after heq d hd hdep
      have hmem := hbehind before id after heq d (heq ▸ List.mem_append_right _ hd) hdep
      rw [heq] at h
      exact (List.disjoint_of_nodup_append h) hmem hd
    refine ⟨fun id hid => ?_, ?_⟩
    · obtain ⟨before, after, heq⟩ := List.append_of_mem hid
      exact hapart before id after heq id List.mem_cons_self
    · rw [List.pairwise_iff_forall_sublist]
      intro a b hab
      obtain ⟨front, back, heq, ha, hb⟩ := List.cons_sublist_iff.mp hab
      obtain ⟨before, after, rfl⟩ := List.append_of_mem ha
      refine hapart before a (after ++ back) (by rw [heq, List.append_assoc]; rfl) b ?_
      exact List.mem_cons_of_mem _ (List.mem_append_right _ (List.singleton_sublist.mp hb))
  · rintro ⟨hself, hpairwise⟩ before id after rfl d hd hdep
    rw [List.pairwise_append, List.pairwise_cons] at hpairwise
    rcases List.mem_append.mp hd with hd | hd
    · exact hd
    · rcases List.mem_cons.mp hd with rfl | hd
      · exact absurd hdep (hself d (by simp))
      · exact absurd hdep (hpairwise.2.1.1 d hd)

end Behind

/-! ## One script -/

section Step

open ScriptsWorkPlace

variable {wp : ScriptsWorkPlace} {scr : ScriptInfo}

theorem dependencyOf_add_self : (wp.add scr).dependencyOf scr.id = scr.dependency := by
  rw [dependencyOf, add]
  dsimp only
  rw [AList.lookup_insert]
  rfl

theorem dependencyOf_add_ne {id : String} (h : id ≠ scr.id) :
    (wp.add scr).dependencyOf id = wp.dependencyOf id := by
  rw [dependencyOf, add]
  dsimp only
  rw [AList.lookup_insert_ne h]
  rfl

theorem mem_insertion {before after : List String} {id x : String} :
    x ∈ before.filter (· ≠ id) ++ id :: after.filter (· ≠ id) ↔ x = id ∨ x ∈ before ++ after := by
  by_cases hx : x = id
  · simp [hx]
  · simp [hx]

theorem nodup_insertion {before after : List String} (h : (before ++ after).Nodup) (id : String) :
    (before.filter (· ≠ id) ++ id :: after.filter (· ≠ id)).Nodup := by
  rw [List.nodup_middle, ← List.filter_append, List.nodup_cons]
  exact ⟨by simp, h.filter _⟩

/-- **A script is put in the right place** when none of its dependencies stands behind the place and
no script that depends on it in front. -/
theorem ScriptsWorkPlace.Ordered.place_iff (h : wp.Ordered) (hself : scr.id ∉ scr.dependency)
    {before after : List String} (hsplit : wp.scriptsOrder = before ++ after)
    (horder : (wp.add scr).scriptsOrder =
      before.filter (· ≠ scr.id) ++ scr.id :: after.filter (· ≠ scr.id)) :
    (wp.add scr).Ordered ↔
      (∀ id ∈ before, ¬ wp.DependsOn id scr.id) ∧ ∀ d ∈ after, d ∉ scr.dependency := by
  have honce : (wp.add scr).scriptsOrder.Nodup := by
    rw [horder]
    exact nodup_insertion (hsplit ▸ h.once) scr.id
  have hlisted : ∀ id, id ∈ (wp.add scr).scriptsOrder ↔ id ∈ (wp.add scr).scripts := by
    intro id
    rw [horder, mem_insertion, ← hsplit, h.listed]
    exact (AList.mem_insert _).symm
  have hold := (behind_iff_pairwise h.once).mp h.behind
  rw [hsplit, List.pairwise_append] at hold
  obtain ⟨hnotSelf, hbefore, hafter, hcross⟩ := hold
  have hdepends : ∀ {id d : String}, id ≠ scr.id →
      ((wp.add scr).DependsOn id d ↔ wp.DependsOn id d) := by
    intro id d hne
    rw [DependsOn, dependencyOf_add_ne hne]
    rfl
  have hnew : ∀ {d : String}, (wp.add scr).DependsOn scr.id d ↔ d ∈ scr.dependency := by
    intro d
    rw [DependsOn, dependencyOf_add_self]
  have hkept : ∀ {l : List String}, (l.Pairwise fun a b => ¬ wp.DependsOn a b) →
      (l.filter (· ≠ scr.id)).Pairwise fun a b => ¬ (wp.add scr).DependsOn a b := by
    intro l hl
    refine (hl.filter _).imp_of_mem fun ha _ hab => ?_
    rw [hdepends (by simpa using (List.mem_filter.mp ha).2)]
    exact hab
  constructor
  · intro hordered
    have hpairwise := ((behind_iff_pairwise honce).mp hordered.behind).2
    rw [horder, List.pairwise_append, List.pairwise_cons] at hpairwise
    obtain ⟨-, ⟨hlater, -⟩, hearlier⟩ := hpairwise
    constructor
    · intro id hid hdep
      by_cases hne : id = scr.id
      · exact hnotSelf id (List.mem_append_left _ hid) (hne ▸ hdep)
      · exact hearlier id (List.mem_filter.mpr ⟨hid, by simpa using hne⟩) scr.id
          List.mem_cons_self ((hdepends hne).mpr hdep)
    · intro d hd hdep
      have hne : d ≠ scr.id := fun heq => hself (heq ▸ hdep)
      exact hlater d (List.mem_filter.mpr ⟨hd, by simpa using hne⟩) (hnew.mpr hdep)
  · rintro ⟨hearlier, hlater⟩
    refine ⟨honce, hlisted, (behind_iff_pairwise honce).mpr ⟨fun id hid => ?_, ?_⟩⟩
    · by_cases hne : id = scr.id
      · rw [hne, hnew]
        exact hself
      · rw [hdepends hne]
        refine hnotSelf id ?_
        rw [horder, mem_insertion] at hid
        exact hid.resolve_left hne
    · rw [horder, List.pairwise_append, List.pairwise_cons]
      refine ⟨hkept hbefore, ⟨fun d hd => ?_, hkept hafter⟩, fun id hid d hd => ?_⟩
      · rw [hnew]
        exact hlater d (List.mem_of_mem_filter hd)
      · have hne : id ≠ scr.id := by simpa using (List.mem_filter.mp hid).2
        have hid := List.mem_of_mem_filter hid
        rw [hdepends hne]
        rcases List.mem_cons.mp hd with rfl | hd
        · exact hearlier id hid
        · exact hcross id hid d (List.mem_of_mem_filter hd)

/-- **When one step keeps the order.**

**Proof sketch.** The script is put behind `before`, the listed scripts with which less than enough
is found (`exists_place`), and this place is right when no script of `before` depends on the new one
and no dependency of the new one comes later (`place_iff`). If scripts depend on the new one, then
the first of them must be the one with which enough is found. -/
theorem ScriptsWorkPlace.Ordered.add_iff (h : wp.Ordered) (hself : scr.id ∉ scr.dependency) :
    (wp.add scr).Ordered ↔ wp.Admits scr := by
  obtain ⟨before, after, hsplit, hbefore, hafter, hloop⟩ :=
    exists_place wp scr wp.scriptsOrder 0 []
  rw [h.place_iff hself hsplit hloop]
  simp only [Nat.zero_add] at hbefore hafter
  constructor
  · rintro ⟨hearlier, hlater⟩
    cases after with
    | nil =>
      -- the end of the list: no listed script depends on the new one
      refine .inr (.inl fun oo hoo => hearlier oo ?_)
      rwa [hsplit, List.append_nil] at hoo
    | cons oo after =>
      have hfound := hafter oo after rfl
      rw [total_eq_zero_iff.mpr hearlier, Nat.zero_add] at hfound
      refine .inr (.inr ⟨before, oo, after, hsplit, hearlier, hfound, fun d hd hlisted => ?_⟩)
      rw [hsplit] at hlisted
      exact (List.mem_append.mp hlisted).resolve_right fun hd' => hlater d hd' hd
  · rintro (hnone | hfree | ⟨front, oo, back, hfront, hearlier, hfound, hlisted⟩)
    · -- no dependencies: the front of the list
      rw [hnone] at hbefore ⊢
      have hnil : before = [] := by
        by_contra hne
        exact absurd (hbefore hne) (Nat.not_lt_zero _)
      rw [hnil]
      exact ⟨fun id hid => (List.not_mem_nil hid).elim, fun d _ => List.not_mem_nil⟩
    · refine ⟨fun id hid => hfree id (hsplit ▸ List.mem_append_left _ hid), fun d hd hdep => ?_⟩
      obtain ⟨oo, after, rfl⟩ := List.exists_cons_of_ne_nil (List.ne_nil_of_mem hd)
      have hfound := hafter oo after rfl
      rw [total_eq_zero_iff.mpr fun id hid => hfree id (hsplit ▸ List.mem_append_left _ hid),
        named_eq_zero_iff.mpr (hfree oo (hsplit ▸ by simp))] at hfound
      exact absurd (List.length_pos_of_mem hdep) (by omega)
    · by_cases hnone : scr.dependency = []
      · have hnil : before = [] := by
          by_contra hne
          have hlt := hbefore hne
          rw [hnone] at hlt
          exact absurd hlt (Nat.not_lt_zero _)
        rw [hnil, hnone]
        exact ⟨fun id hid => (List.not_mem_nil hid).elim, fun d _ => List.not_mem_nil⟩
      have hpos := List.length_pos_iff.mpr hnone
      -- the place is in front of the first script that depends on the new one
      obtain rfl : before = front := by
        rcases List.append_eq_append_iff.mp (hsplit.symm.trans hfront) with
          ⟨between, hfront', hafter'⟩ | ⟨between, hbefore', hback⟩
        · cases between with
          | nil => rw [hfront', List.append_nil]
          | cons x between =>
            have hle := hafter x (between ++ oo :: back) hafter'
            rw [total_eq_zero_iff.mpr fun id hid => hearlier id
                (hfront' ▸ List.mem_append_left _ hid),
              named_eq_zero_iff.mpr (hearlier x (hfront' ▸ by simp))] at hle
            omega
        · cases between with
          | nil => rw [hbefore', List.append_nil]
          | cons x between =>
            obtain ⟨rfl, -⟩ := List.cons_eq_cons.mp hback
            have hlt := hbefore (hbefore' ▸ by simp)
            rw [hbefore', total, List.map_append, List.sum_append, List.map_cons,
              List.sum_cons] at hlt
            omega
      refine ⟨hearlier, fun d hd hdep => ?_⟩
      have hmem := hlisted d hdep (hsplit ▸ List.mem_append_right _ hd)
      have honce := h.once
      rw [hsplit] at honce
      exact (List.disjoint_of_nodup_append honce) hmem hd

end Step

/-! ## All scripts -/

section Run

open ScriptsWorkPlace

variable {scrs : List ScriptInfo}

theorem ordered_new : ScriptsWorkPlace.new.Ordered :=
  ⟨List.nodup_nil, fun _ => Iff.rfl, fun _ _ _ heq => (by simp [ScriptsWorkPlace.new] at heq)⟩

theorem Acyclic.not_self (h : Acyclic scrs) {scr : ScriptInfo} (hscr : scr ∈ scrs) :
    scr.id ∉ scr.dependency := by
  obtain ⟨level, hlevel⟩ := h
  exact fun hdep => lt_irrefl _ (hlevel scr hscr _ hdep (List.mem_map_of_mem hscr))

theorem ScriptsWorkPlace.Ordered.addAll_iff {wp : ScriptsWorkPlace} (h : wp.Ordered)
    (hself : ∀ scr ∈ scrs, scr.id ∉ scr.dependency) :
    (∀ done, done <+: scrs → (wp.addAll done).Ordered) ↔ wp.AdmitsAll scrs := by
  induction scrs generalizing wp with
  | nil =>
    refine iff_of_true (fun done hdone => ?_) trivial
    rw [List.prefix_nil.mp hdone]
    exact h
  | cons scr scrs ih =>
    have hstep := h.add_iff (hself scr List.mem_cons_self)
    have hrest := fun hordered : (wp.add scr).Ordered =>
      ih hordered fun s hs => hself s (List.mem_cons_of_mem _ hs)
    constructor
    · intro hall
      have hordered : (wp.add scr).Ordered := hall [scr] ⟨scrs, rfl⟩
      refine ⟨hstep.mp hordered, (hrest hordered).mp fun done hdone => ?_⟩
      exact hall (scr :: done) (List.cons_prefix_cons.mpr ⟨rfl, hdone⟩)
    · rintro ⟨hadmits, hall⟩ done hdone
      have hordered := hstep.mpr hadmits
      cases done with
      | nil => exact h
      | cons s done =>
        obtain ⟨rfl, hdone'⟩ := List.cons_prefix_cons.mp hdone
        exact (hrest hordered).mpr hall done hdone'

/-- **When the order is right** after every script that is loaded.

**Proof sketch.** Induction on the scripts; one step is `Ordered.add_iff`, and without cycles no
script names itself. -/
theorem allOrdered_iff (h : Acyclic scrs) :
    (∀ done, done <+: scrs → (ScriptsWorkPlace.new.addAll done).Ordered) ↔
      ScriptsWorkPlace.new.AdmitsAll scrs :=
  ordered_new.addAll_iff fun _ hscr => h.not_self hscr

/-- A script that comes late is put in front of the one that depends on it. -/
theorem allOrdered_late :
    (ScriptsWorkPlace.new.addAll [⟨"s:a", ["s:b"]⟩, ⟨"s:b", []⟩]).Ordered ∧
      (ScriptsWorkPlace.new.addAll
        [⟨"s:a", ["s:b"]⟩, ⟨"s:b", []⟩, ⟨"s:c", ["s:a", "s:b"]⟩]).Ordered := by
  have hall := (@allOrdered_iff [⟨"s:a", ["s:b"]⟩, ⟨"s:b", []⟩, ⟨"s:c", ["s:a", "s:b"]⟩]
    ⟨fun id => if id = "s:c" then 2 else if id = "s:a" then 1 else 0, by decide⟩).mpr
    ⟨.inr (.inl (by decide)), .inl rfl, .inr (.inl (by decide)), trivial⟩
  exact ⟨hall _ ⟨[⟨"s:c", ["s:a", "s:b"]⟩], rfl⟩, hall _ (List.prefix_refl _)⟩

/-- With two dependencies of its own it is put behind that one. -/
theorem not_ordered_twoDependencies :
    Acyclic [⟨"s:a", ["s:b"]⟩, ⟨"s:b", ["s:c", "s:d"]⟩] ∧
      (ScriptsWorkPlace.new.addAll
        [⟨"s:a", ["s:b"]⟩, ⟨"s:b", ["s:c", "s:d"]⟩]).scriptsOrder = ["s:a", "s:b"] ∧
      ¬ (ScriptsWorkPlace.new.addAll [⟨"s:a", ["s:b"]⟩, ⟨"s:b", ["s:c", "s:d"]⟩]).Ordered := by
  refine ⟨⟨fun id => if id = "s:a" then 1 else 0, by decide⟩, by decide, fun h => ?_⟩
  exact List.not_mem_nil (h.behind [] "s:a" ["s:b"] (by decide) "s:b" (by decide) (by decide))

end Run

end Veda.V8.Loading
