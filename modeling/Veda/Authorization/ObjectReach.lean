import Veda.Authorization.Soundness
import Veda.Lib.Trail

set_option autoImplicit false

/-!
# The walk over the groups of an object is complete for a bit

The walk remembers for each group the bits it was entered with, and enters it again for others. For
one bit this is a depth-first walk over the groups that list the bit: below an object whose trails
are not longer than the levels of the walk, everything that the bit reaches is visited with it.

## Main definitions

* `Authorization.NamedObjectEdge` — a group lists a bit for an object.
* `Authorization.ObjWalk.Knows`, `Authorization.Expanded` — what a walk has entered.
* `Authorization.Explores` — what a walk does for a bit.

## Main results

* `Authorization.explores_plainWalk` — the walk expands its group.
* `Authorization.exists_visit` — what an object reaches with a bit is visited with it.
-/

namespace Veda.Authorization

open Veda.Lib

/-! ## What the walk knows -/

/-- A group lists a bit for an object, is not exclusive and has a name. -/
def NamedObjectEdge (db : Storage) (b : Access) (uri g : String) : Prop :=
  ObjectEdge db b uri g ∧ g ≠ ""

/-- The walk has entered a group with a bit. -/
def ObjWalk.Knows (w : ObjWalk) (b : Access) (g : String) : Prop :=
  ∃ x, w.walked.lookup g = some x ∧ has x b = true

/-- The walk has entered the groups that a group lists for a bit. -/
def Expanded (db : Storage) (b : Access) (w : ObjWalk) (g : String) : Prop :=
  ∀ h, NamedObjectEdge db b g h → w.Knows b h

section ObjectWalk

variable {subjectGroups : HashMap String Right}

theorem walked_judge (uri : String) (level : U8) (len idx : ℕ) (suffix : Bool) (group : Right)
    (w : ObjWalk) : (judge subjectGroups uri level len idx suffix group w).2.walked = w.walked := by
  unfold judge
  split_ifs <;> rfl

theorem ObjWalk.knows_congr {w w' : ObjWalk} (h : w'.walked = w.walked) (b : Access) (g : String) :
    w'.Knows b g ↔ w.Knows b g := by
  unfold ObjWalk.Knows
  rw [h]

theorem ObjWalk.knows_enter (w : ObjWalk) (id : String) (newAccess : U8) (b : Access)
    (g : String) :
    (w.enter id (newAccess ||| (w.walked.lookup id).getD 0)).Knows b g ↔
      w.Knows b g ∨ g = id ∧ has newAccess b = true := by
  unfold ObjWalk.Knows ObjWalk.enter
  dsimp only
  by_cases hg : g = id
  · subst hg
    rw [AList.lookup_insert]
    cases hl : w.walked.lookup g with
    | none => simp
    | some x => simp [has_or, or_comm]
  · rw [AList.lookup_insert_ne hg]
    simp [hg]

theorem ObjWalk.knows_of_enteredBefore {w : ObjWalk} {id : String} {newAccess : U8}
    (h : enteredBefore (w.walked.lookup id) newAccess = true) {b : Access}
    (hb : has newAccess b = true) : w.Knows b id := by
  obtain ⟨x, hx, heq⟩ := (Option.any_eq_true _ _).mp h
  exact ⟨x, hx, (covers_iff _ _).mp heq b hb⟩

theorem ObjWalk.enteredBefore_of_knows {w : ObjWalk} {id : String} {newAccess : U8} {b : Access}
    (hb : has newAccess b = true) (h : ∀ c, has newAccess c = true → w.Knows c id) :
    enteredBefore (w.walked.lookup id) newAccess = true := by
  obtain ⟨x, hx, -⟩ := h b hb
  refine (Option.any_eq_true _ _).mpr ⟨x, hx, (covers_iff _ _).mpr fun c hc => ?_⟩
  obtain ⟨y, hy, hyc⟩ := h c hc
  rw [hx] at hy
  rwa [Option.some.inj hy]

/-! ## What the walk keeps and learns -/

theorem knows_plainGroups {walk : String → U8 → ObjWalk → List Visit × ObjWalk} {b : Access}
    {g : String} (hwalk : ∀ id access w, w.Knows b g → (walk id access w).2.Knows b g)
    (uri : String) (access level : U8) (len : ℕ) (groups : List Right) (idx : ℕ) (suffix : Bool)
    (w : ObjWalk) (h : w.Knows b g) :
    (plainGroups subjectGroups walk uri access level len idx groups suffix w).2.Knows b g := by
  induction groups generalizing idx suffix w with
  | nil => exact h
  | cons group groups ih =>
    have hj : (judge subjectGroups uri level len idx suffix group w).2.Knows b g :=
      (ObjWalk.knows_congr (walked_judge _ _ _ _ _ _ _) b g).mpr h
    have he := (ObjWalk.knows_enter _ group.id (group.access &&& access) b g).mpr (.inl hj)
    rw [plainGroups]
    dsimp only
    split_ifs
    · exact ih _ _ _ h
    · exact ih _ _ _ hj
    · exact ih _ _ _ hj
    · exact ih _ _ _ he
    · exact ih _ _ _ (hwalk _ _ _ he)

/-- **Nothing is forgotten.** -/
theorem knows_plainWalk {db : Storage} {b : Access} {g : String} (left : ℕ) (uri : String)
    (access : U8) (w : ObjWalk) (h : w.Knows b g) :
    (plainWalk db subjectGroups left uri access w).2.Knows b g := by
  induction left generalizing uri access w with
  | zero => exact h
  | succ left ih =>
    rw [plainWalk]
    cases db.get (membershipPrefix ++ uri) with
    | error e => exact h
    | ok str => exact knows_plainGroups (fun id access w hw => ih id access w hw) _ _ _ _ _ _ _ _ h

theorem knows_of_plainGroups {walk : String → U8 → ObjWalk → List Visit × ObjWalk} {b : Access}
    {g : String} (hwalk : ∀ id access w, has access b = false → (walk id access w).2.Knows b g →
      w.Knows b g) (uri : String) {access : U8} (hb : has access b = false) (level : U8) (len : ℕ)
    (groups : List Right) (idx : ℕ) (suffix : Bool) (w : ObjWalk)
    (h : (plainGroups subjectGroups walk uri access level len idx groups suffix w).2.Knows b g) :
    w.Knows b g := by
  induction groups generalizing idx suffix w with
  | nil => exact h
  | cons group groups ih =>
    have hnew : has (group.access &&& access) b = false := by rw [has_and, hb, Bool.and_false]
    have hj : (judge subjectGroups uri level len idx suffix group w).2.Knows b g → w.Knows b g :=
      (ObjWalk.knows_congr (walked_judge _ _ _ _ _ _ _) b g).mp
    have he : ∀ w : ObjWalk, (w.enter group.id
        (group.access &&& access ||| (w.walked.lookup group.id).getD 0)).Knows b g →
        w.Knows b g := by
      intro w hw
      rcases (ObjWalk.knows_enter w group.id _ b g).mp hw with hw | ⟨-, hw⟩
      · exact hw
      · rw [hnew] at hw
        cases hw
    rw [plainGroups] at h
    dsimp only at h
    split_ifs at h
    · exact ih _ _ _ h
    · exact hj (ih _ _ _ h)
    · exact hj (ih _ _ _ h)
    · exact hj (he _ (ih _ _ _ h))
    · exact hj (he _ (hwalk _ _ _ hnew (ih _ _ _ h)))

theorem knows_of_plainWalk {db : Storage} {b : Access} {g : String} (left : ℕ) (uri : String)
    {access : U8} (hb : has access b = false) (w : ObjWalk)
    (h : (plainWalk db subjectGroups left uri access w).2.Knows b g) : w.Knows b g := by
  induction left generalizing uri access w with
  | zero => exact h
  | succ left ih =>
    rw [plainWalk] at h
    cases hget : db.get (membershipPrefix ++ uri) with
    | error e =>
      rw [hget] at h
      exact h
    | ok str =>
      rw [hget] at h
      exact knows_of_plainGroups (fun id access w hb hw => ih id hb w hw) _ hb _ _ _ _ _ _ h

/-- What a walk with a bit does: what it learns is expanded and visited, apart from its own
group. -/
structure Explores (db : Storage) (b : Access) (uri : String) (w : ObjWalk)
    (out : List Visit × ObjWalk) : Prop where
  keeps : ∀ c g, w.Knows c g → out.2.Knows c g
  learns : ∀ g, out.2.Knows b g → w.Knows b g ∨ g = uri ∨
    (Expanded db b out.2 g ∧ ∃ v ∈ out.1, v.group = g ∧ has v.access b = true)

/-- The groups that the walk is inside of are known with its bits. -/
def Inside (l : List String) (access : U8) (w : ObjWalk) : Prop :=
  ∀ g ∈ l, ∀ c, has access c = true → w.Knows c g

theorem Expanded.mono {db : Storage} {b : Access} {w w' : ObjWalk} {g : String}
    (h : Expanded db b w g) (hkeep : ∀ c g, w.Knows c g → w'.Knows c g) : Expanded db b w' g :=
  fun h' hedge => hkeep b h' (h h' hedge)

theorem Inside.mono {l : List String} {access : U8} {w w' : ObjWalk} (h : Inside l access w)
    (hkeep : ∀ c g, w.Knows c g → w'.Knows c g) : Inside l access w' :=
  fun g hg c hc => hkeep c g (h g hg c hc)

theorem Explores.skip {db : Storage} {b : Access} {uri : String} {w w' : ObjWalk}
    {out : List Visit × ObjWalk} (h : Explores db b uri w' out)
    (hkeep : ∀ c g, w.Knows c g → w'.Knows c g)
    (hlearn : ∀ g, w'.Knows b g → w.Knows b g ∨ g = uri) : Explores db b uri w out where
  keeps c g hw := h.keeps c g (hkeep c g hw)
  learns g hg := by
    rcases h.learns g hg with hw | huri | hexp
    · exact (hlearn g hw).imp_right .inl
    · exact .inr (.inl huri)
    · exact .inr (.inr hexp)

variable (subjectGroups) in
/-- The groups of one record are known afterwards, and what else is learnt is expanded. -/
theorem explores_plainGroups {db : Storage} {b : Access} {uri : String} {l : List String}
    {access : U8} {walk : String → U8 → ObjWalk → List Visit × ObjWalk}
    (hkeep : ∀ id access w c g, w.Knows c g → (walk id access w).2.Knows c g)
    (hnot : ∀ id access w g, has access b = false → (walk id access w).2.Knows b g → w.Knows b g)
    (hwalk : ∀ id access w, has access b = true → NamedObjectEdge db b uri id → id ∉ l →
      Inside (id :: l) access w →
      Explores db b id w (walk id access w) ∧ Expanded db b (walk id access w).2 id)
    (hb : has access b = true) (level : U8) (len : ℕ) (groups : List Right)
    (hgroups : groups ⊆ memberGroups db uri) (idx : ℕ) (suffix : Bool) (w : ObjWalk)
    (hinside : Inside l access w) :
    Explores db b uri w
        (plainGroups subjectGroups walk uri access level len idx groups suffix w) ∧
      ∀ group ∈ groups, group.id ≠ "" → group.marker ≠ mIsExclusive → has group.access b = true →
        (plainGroups subjectGroups walk uri access level len idx groups suffix w).2.Knows
          b group.id := by
  induction groups generalizing idx suffix w with
  | nil => exact ⟨⟨fun _ _ h => h, fun _ h => .inl h⟩, fun _ h => by cases h⟩
  | cons group groups ih =>
    have hrest := ih fun g hg => hgroups (List.mem_cons_of_mem _ hg)
    set judged := judge subjectGroups uri level len idx suffix group w with hjudged
    have hj : ∀ c g, judged.2.Knows c g ↔ w.Knows c g :=
      ObjWalk.knows_congr (walked_judge _ _ _ _ _ _ _)
    have hjkeep : ∀ c g, w.Knows c g → judged.2.Knows c g := fun c g => (hj c g).mpr
    have hjlearn : ∀ g, judged.2.Knows b g → w.Knows b g ∨ g = uri := fun g h =>
      .inl ((hj b g).mp h)
    rw [plainGroups]
    dsimp only
    rw [← hjudged]
    split_ifs with hempty hmarker hbefore hself
    · -- an entry without a name
      obtain ⟨hexp, hknown⟩ := hrest (idx + 1) suffix w hinside
      refine ⟨hexp, fun g hg hname hmark hbit => ?_⟩
      rcases List.mem_cons.mp hg with rfl | hg
      · exact absurd (String.isEmpty_iff.mp hempty) hname
      · exact hknown g hg hname hmark hbit
    · -- an exclusive entry
      obtain ⟨hexp, hknown⟩ := hrest (idx + 1) judged.1 judged.2 (hinside.mono hjkeep)
      refine ⟨hexp.skip hjkeep hjlearn, fun g hg hname hmark hbit => ?_⟩
      rcases List.mem_cons.mp hg with rfl | hg
      · exact absurd hmarker hmark
      · exact hknown g hg hname hmark hbit
    · -- a group that was entered before with all of these bits
      obtain ⟨hexp, hknown⟩ := hrest (idx + 1) judged.1 judged.2 (hinside.mono hjkeep)
      refine ⟨hexp.skip hjkeep hjlearn, fun g hg hname hmark hbit => ?_⟩
      rcases List.mem_cons.mp hg with rfl | hg
      · refine hexp.keeps b _ (ObjWalk.knows_of_enteredBefore hbefore ?_)
        rw [has_and, hbit, hb, Bool.and_true]
      · exact hknown g hg hname hmark hbit
    all_goals
      set entered := judged.2.enter group.id
        (group.access &&& access ||| (judged.2.walked.lookup group.id).getD 0) with hentered
      have he : ∀ c g, entered.Knows c g ↔
          judged.2.Knows c g ∨ g = group.id ∧ has (group.access &&& access) c = true :=
        ObjWalk.knows_enter _ _ _
      have hekeep : ∀ c g, w.Knows c g → entered.Knows c g := fun c g h =>
        (he c g).mpr (.inl (hjkeep c g h))
      have hown : has group.access b = true → entered.Knows b group.id := fun hbit =>
        (he b _).mpr (.inr ⟨rfl, by rw [has_and, hbit, hb, Bool.and_true]⟩)
    · -- a group that lists itself
      obtain ⟨hexp, hknown⟩ := hrest (idx + 1) judged.1 entered (hinside.mono hekeep)
      refine ⟨hexp.skip hekeep fun g h => ?_, fun g hg hname hmark hbit => ?_⟩
      · rcases (he b g).mp h with h | ⟨h, -⟩
        · exact hjlearn g h
        · exact .inr (h.trans hself.symm)
      · rcases List.mem_cons.mp hg with rfl | hg
        · exact hexp.keeps b _ (hown hbit)
        · exact hknown g hg hname hmark hbit
    · -- a group that is entered and walked
      set inner := walk group.id (group.access &&& access) entered with hinner
      have hikeep : ∀ c g, entered.Knows c g → inner.2.Knows c g :=
        fun c g => hkeep group.id _ entered c g
      obtain ⟨hexp, hknown⟩ := hrest (idx + 1) judged.1 inner.2
        (hinside.mono fun c g h => hikeep c g (hekeep c g h))
      refine ⟨⟨fun c g h => hexp.keeps c g (hikeep c g (hekeep c g h)), fun g h => ?_⟩,
        fun g hg hname hmark hbit => ?_⟩
      · rcases hexp.learns g h with h | huri | ⟨hg, v, hv, hvg⟩
        · cases hbit : has (group.access &&& access) b with
          | false =>
            -- the walk behind the group learns nothing about the bit
            rcases (he b g).mp (hnot _ _ _ g hbit h) with h | ⟨-, h⟩
            · exact .inl ((hj b g).mp h)
            · rw [hbit] at h
              cases h
          | true =>
            have hbits : ∀ c, has (group.access &&& access) c = true → has access c = true := by
              intro c hc
              rw [has_and, Bool.and_eq_true] at hc
              exact hc.2
            have hedge : NamedObjectEdge db b uri group.id := by
              rw [has_and, Bool.and_eq_true] at hbit
              exact ⟨⟨group, hgroups List.mem_cons_self, rfl, hmarker, hbit.1⟩,
                fun h => hempty (String.isEmpty_iff.mpr h)⟩
            have hnew : group.id ∉ l := fun hmem => hbefore <|
              ObjWalk.enteredBefore_of_knows hbit fun c hc =>
                hjkeep c _ (hinside _ hmem c (hbits c hc))
            have hinside' : Inside (group.id :: l) (group.access &&& access) entered := by
              intro g hg c hc
              rcases List.mem_cons.mp hg with rfl | hg
              · exact (he c _).mpr (.inr ⟨rfl, hc⟩)
              · exact hekeep c g (hinside g hg c (hbits c hc))
            obtain ⟨hin, hexpand⟩ := hwalk group.id _ entered hbit hedge hnew hinside'
            have hgroup : g = group.id → Expanded db b (plainGroups subjectGroups walk uri access
                level len (idx + 1) groups judged.1 inner.2).2 g ∧
                ∃ v ∈ (⟨group.id, group.access &&& access, level, judged.2.pass⟩ : Visit) ::
                  (inner.1 ++ (plainGroups subjectGroups walk uri access level len (idx + 1) groups
                    judged.1 inner.2).1), v.group = g ∧ has v.access b = true := by
              rintro rfl
              exact ⟨hexpand.mono hexp.keeps, _, List.mem_cons_self, rfl, hbit⟩
            rcases hin.learns g h with h | h | ⟨hg, v, hv, hvg⟩
            · rcases (he b g).mp h with h | ⟨h, -⟩
              · exact .inl ((hj b g).mp h)
              · exact .inr (.inr (hgroup h))
            · exact .inr (.inr (hgroup h))
            · exact .inr (.inr ⟨hg.mono hexp.keeps, v,
                List.mem_cons_of_mem _ (List.mem_append_left _ hv), hvg⟩)
        · exact .inr (.inl huri)
        · exact .inr (.inr ⟨hg, v, List.mem_cons_of_mem _ (List.mem_append_right _ hv), hvg⟩)
      · rcases List.mem_cons.mp hg with rfl | hg
        · exact hexp.keeps b _ (hikeep b _ (hown hbit))
        · exact hknown g hg hname hmark hbit

variable (subjectGroups) in
/-- **The walk expands its group**: below a group from which the trails are not longer than the
levels that are left, everything that a bit reaches is entered with it and visited. -/
theorem explores_plainWalk {db : Storage} {b : Access} {id : String}
    (hshallow : ShallowBelow (NamedObjectEdge db b) id 32) (left : ℕ) (uri : String) (access : U8)
    (w : ObjWalk) {l : List String} (htrail : Trail (NamedObjectEdge db b) id uri l)
    (hleft : l.length + left = maxLevels) (hb : has access b = true) (hinside : Inside l access w) :
    Explores db b uri w (plainWalk db subjectGroups left uri access w) ∧
      Expanded db b (plainWalk db subjectGroups left uri access w).2 uri := by
  induction left generalizing uri access w l with
  | zero =>
    have hlen := hshallow _ _ htrail
    unfold maxLevels at hleft
    omega
  | succ left ih =>
    rw [plainWalk]
    cases hget : db.get (membershipPrefix ++ uri) with
    | error e =>
      refine ⟨⟨fun _ _ h => h, fun _ h => .inl h⟩, ?_⟩
      rintro h ⟨⟨group, hmem, -⟩, -⟩
      rw [memberGroups, hget] at hmem
      cases hmem
    | ok str =>
      have hgroups : memberGroups db uri = groupsOf str := by rw [memberGroups, hget]
      obtain ⟨⟨hkeeps, hlearns⟩, hknown⟩ := explores_plainGroups subjectGroups
        (fun id access w c g h => knows_plainWalk left id access w h)
        (fun id access w g hb h => knows_of_plainWalk left id hb w h)
        (fun id access w hb hedge hnew hinside => ih id access w (htrail.cons hedge hnew)
          (by rw [List.length_cons]; omega) hb hinside)
        hb (BitVec.ofNat 8 (32 - left)) (groupsOf str).length (groupsOf str)
        (hgroups ▸ List.Subset.refl _) 0 false w hinside
      refine ⟨⟨hkeeps, hlearns⟩, ?_⟩
      rintro h ⟨⟨group, hmem, rfl, hmark, hbit⟩, hname⟩
      exact hknown group (hgroups ▸ hmem) hname hmark hbit

end ObjectWalk

/-- **A group that the object reaches with a bit is visited with it.** -/
theorem exists_visit {db : Storage} (subjectGroups : HashMap String Right) {id : String}
    {b : Access} (hb : b ∈ allowBits) (hshallow : ShallowBelow (NamedObjectEdge db b) id 32)
    (pass : Bool) {g : String}
    (hg : g = allResourcesGroup ∨ Relation.ReflTransGen (NamedObjectEdge db b) id g) :
    ∃ v ∈ (objectVisits db subjectGroups id pass).1, v.group = g ∧ has v.access b = true := by
  have hbit : has (15 : U8) b = true := by rw [has_fifteen, decide_eq_true hb]
  have hfirst : ∀ g ∈ [allResourcesGroup, id],
      ∃ v ∈ (objectVisits db subjectGroups id pass).1, v.group = g ∧ has v.access b = true :=
    fun g hg => ⟨_, List.mem_append_left _ (List.mem_map.mpr ⟨g, hg, rfl⟩), rfl, hbit⟩
  rcases hg with rfl | hg
  · exact hfirst _ List.mem_cons_self
  obtain ⟨⟨-, hlearns⟩, hexpand⟩ := explores_plainWalk subjectGroups hshallow
    maxLevels id 15 ⟨∅, pass⟩ .nil (by simp) hbit (fun g hg => by cases hg)
  -- everything that is reached is expanded, and visited unless it is the object
  have hreached : Expanded db b (plainWalk db subjectGroups maxLevels id 15 ⟨∅, pass⟩).2 g ∧
      (g = id ∨ ∃ v ∈ (plainWalk db subjectGroups maxLevels id 15 ⟨∅, pass⟩).1,
        v.group = g ∧ has v.access b = true) := by
    induction hg with
    | refl => exact ⟨hexpand, .inl rfl⟩
    | tail _ hedge ih =>
      rcases hlearns _ (ih.1 _ hedge) with ⟨x, hx, -⟩ | rfl | ⟨hexp, hv⟩
      · rw [AList.lookup_empty] at hx
        cases hx
      · exact ⟨hexpand, .inl rfl⟩
      · exact ⟨hexp, .inr hv⟩
  rcases hreached.2 with rfl | ⟨v, hv, hvg⟩
  · exact hfirst _ (List.mem_cons_of_mem _ List.mem_cons_self)
  · exact ⟨v, List.mem_append_right _ hv, hvg⟩

end Veda.Authorization
