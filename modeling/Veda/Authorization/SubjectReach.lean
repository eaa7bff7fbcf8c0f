import Veda.Authorization.Soundness
import Veda.Lib.Trail

set_option autoImplicit false

/-!
# The walk over the groups of a subject

Where no membership record carries a marker and the records that a user reaches agree about the
bits of each group, the walk over the groups of the user collects every group that the user
reaches, with all bits that some record lists for it.

## Main definitions

* `Authorization.Storage.NoMarkers` — no membership record carries a marker.
* `Authorization.Agreeing` — the records that a user reaches agree about the bits of a group.
* `Authorization.Gathers` — what the walk does.

## Main results

* `Authorization.gathers_plainSubjects` — the walk gathers what its group reaches.
* `Authorization.exists_subject` — a listed group is a subject with the listed bits.

## Design

The walk keeps for a group the bits of the entry it was met with last, while it remembers the bits
of all entries. The two are the same when the entries are nested, so that one which is not passed
over has all bits so far, and when a group that reaches itself, and so is met again before it is
kept, is always listed with the same bits.
-/

namespace Veda.Authorization

open Veda.Lib

/-! ## Markers -/

/-- A marker that an entry has once it is decoded. -/
def DecodedMarker (c : Char) : Prop := c = noMarker ∨ c = mIsExclusive ∨ c = mIgnoreExclusive

theorem decodedMarker_decodeCharV1 {st : BitVec 32 × Char × ℕ} (c : Char)
    (h : DecodedMarker st.2.1) : DecodedMarker (decodeCharV1 st c).2.1 := by
  unfold decodeCharV1
  dsimp only
  split_ifs with hc
  · exact .inr hc
  · cases toDigit16 c <;> exact h

theorem decodedMarker_decodeCharV2 {withCount : Bool} {st : V2State} (c : Char)
    (h : DecodedMarker st.marker) : DecodedMarker (decodeCharV2 withCount st c).marker := by
  unfold decodeCharV2
  split_ifs with h1 h2
  all_goals first | exact h | exact .inr h2

theorem decodedMarker_decodeValue (key : String) (value : List Char) (withCounter : Bool) :
    DecodedMarker (decodeValue key value withCounter).marker := by
  unfold decodeValue
  cases value.head? with
  | none => exact .inl rfl
  | some c =>
    dsimp only
    split_ifs
    · refine List.foldlRecOn (motive := fun st => DecodedMarker st.2.1) value decodeCharV1 ?_
        fun st h c _ => decodedMarker_decodeCharV1 c h
      exact .inl rfl
    · refine List.foldlRecOn (motive := fun st => DecodedMarker st.marker) value
        (decodeCharV2 withCounter) ?_ fun st h c _ => decodedMarker_decodeCharV2 c h
      exact .inl rfl

theorem mem_drainTokens {group : Right} : ∀ (tokens : List (List Char)) (l : List Right),
    group ∈ drainTokens false (fun result _ right => result ++ [right]) tokens l →
      group ∈ l ∨ DecodedMarker group.marker
  | [], _, h => .inl h
  | [_], _, h => .inl h
  | key :: value :: tokens, l, h => by
    rw [drainTokens] at h
    rcases mem_drainTokens tokens _ h with h | h
    · split_ifs at h
      · exact .inl h
      · rw [List.mem_append, List.mem_singleton] at h
        refine h.imp_right ?_
        rintro rfl
        exact decodedMarker_decodeValue _ _ _
    · exact .inr h

theorem decodedMarker_of_mem_groupsOf {src : String} {group : Right} (h : group ∈ groupsOf src) :
    DecodedMarker group.marker := by
  rw [groupsOf, decodeRecToRights, decodeIndexRecord] at h
  split_ifs at h
  · cases h
  · exact (mem_drainTokens _ _ h).resolve_left (by simp)

/-- No membership record carries a marker. -/
def Storage.NoMarkers (db : Storage) : Prop :=
  ∀ uri, ∀ group ∈ memberGroups db uri, group.marker ≠ mIsExclusive ∧
    group.marker ≠ mIgnoreExclusive

theorem Storage.NoMarkers.marker_eq {db : Storage} (h : db.NoMarkers) {uri : String}
    {group : Right} (hgroup : group ∈ memberGroups db uri) : group.marker = noMarker := by
  obtain ⟨h1, h2⟩ := h uri group hgroup
  unfold memberGroups at hgroup
  split at hgroup
  · exact (decodedMarker_of_mem_groupsOf hgroup).resolve_right fun hor => hor.elim h1 h2
  · cases hgroup

/-! ## What the records list -/

/-- A group lists a subject, which has a name. -/
def NamedSubjectEdge (db : Storage) (uri g : String) : Prop := SubjectEdge db uri g ∧ g ≠ ""

/-- A record that the user reaches lists a group with some allow bits. -/
def Listed (db : Storage) (userId g : String) (x : U8) : Prop :=
  ∃ uri, Relation.ReflTransGen (NamedSubjectEdge db) userId uri ∧
    ∃ group ∈ memberGroups db uri, group.id = g ∧ group.access &&& 15 = x

/-- The records that a user reaches agree about the bits of each group: of two entries for it one
has the bits of the other, and for a group that reaches itself they have the same. -/
structure Agreeing (db : Storage) (userId : String) : Prop where
  nested : ∀ g x y, g ≠ "" → Listed db userId g x → Listed db userId g y →
    x &&& y = x ∨ x &&& y = y
  cyclic : ∀ g x y, Relation.TransGen (NamedSubjectEdge db) g g → Listed db userId g x →
    Listed db userId g y → x = y

/-- The walk remembers bits that some record lists. -/
def Subjects.Sound (db : Storage) (userId : String) (w : Subjects) : Prop :=
  ∀ g x c, w.walked.lookup g = some (x, c) → c = noMarker ∧ Listed db userId g x

/-- A group is kept with the bits that the walk remembers for it. -/
def Subjects.Settled (w : Subjects) (g : String) : Prop :=
  ∃ r c, w.results.lookup g = some r ∧ w.walked.lookup g = some (r.access, c)

/-- The walk remembers a group with these bits. -/
def Subjects.Covers (w : Subjects) (g : String) (x : U8) : Prop :=
  ∃ y c, w.walked.lookup g = some (y, c) ∧ ∀ a, has x a = true → has y a = true

/-- The walk remembers what the record of a group lists. -/
def Followed (db : Storage) (w : Subjects) (g : String) : Prop :=
  ∀ group ∈ memberGroups db g, group.id ≠ "" → w.Covers group.id (group.access &&& 15)

/-- What a walk from a group does: it forgets nothing, touches only what the group reaches, and
settles and follows what it touches. -/
structure Gathers (db : Storage) (userId uri : String) (w w' : Subjects) : Prop where
  sound : w'.Sound db userId
  keeps : ∀ g x, w.Covers g x → w'.Covers g x
  touches : ∀ g, w'.walked.lookup g ≠ w.walked.lookup g →
    Relation.TransGen (NamedSubjectEdge db) uri g
  settles : ∀ g, g ≠ userId →
    (w'.walked.lookup g = w.walked.lookup g ∧ w'.results.lookup g = w.results.lookup g) ∨
      (w'.Settled g ∧ Followed db w' g)
  isExclusive : w'.isExclusive = w.isExclusive

section Gathers

variable {db : Storage} {userId uri : String} {w w' w'' : Subjects}

theorem Followed.mono {g : String} (h : Followed db w g)
    (hkeep : ∀ g x, w.Covers g x → w'.Covers g x) : Followed db w' g :=
  fun group hgroup hname => hkeep _ _ (h group hgroup hname)

theorem Gathers.refl (h : w.Sound db userId) : Gathers db userId uri w w where
  sound := h
  keeps _ _ h := h
  touches _ h := absurd rfl h
  settles _ _ := .inl ⟨rfl, rfl⟩
  isExclusive := rfl

theorem Gathers.trans (h : Gathers db userId uri w w') (h' : Gathers db userId uri w' w'') :
    Gathers db userId uri w w'' where
  sound := h'.sound
  keeps g x hw := h'.keeps g x (h.keeps g x hw)
  touches g hne := by
    by_cases hg : w''.walked.lookup g = w'.walked.lookup g
    · exact h.touches g (hg ▸ hne)
    · exact h'.touches g hg
  settles g hg := by
    rcases h'.settles g hg with ⟨hw, hr⟩ | hsettled
    · rcases h.settles g hg with ⟨hw', hr'⟩ | ⟨⟨r, c, hr', hw'⟩, hfollowed⟩
      · exact .inl ⟨hw.trans hw', hr.trans hr'⟩
      · exact .inr ⟨⟨r, c, hr.trans hr', hw.trans hw'⟩, hfollowed.mono h'.keeps⟩
    · exact .inr hsettled
  isExclusive := h'.isExclusive.trans h.isExclusive

theorem covers_of_walkedBefore {g : String} {x : U8} {m : Char}
    (h : walkedBefore (w.walked.lookup g) x m = true) : w.Covers g x := by
  unfold walkedBefore at h
  cases hl : w.walked.lookup g with
  | none => simp [hl] at h
  | some p =>
    obtain ⟨y, c⟩ := p
    rw [hl] at h
    exact ⟨y, c, hl, (covers_iff _ _).mp (Bool.and_eq_true_iff.mp h).1⟩

theorem entered_eq (hagree : Agreeing db userId) (hsound : w.Sound db userId) {group : Right}
    {x : U8} (hname : group.id ≠ "") (hmarker : group.marker = noMarker)
    (hlisted : Listed db userId group.id x)
    (hnew : ¬ walkedBefore (w.walked.lookup group.id) x group.marker = true) :
    x ||| ((w.walked.lookup group.id).map Prod.fst).getD 0 = x := by
  cases hl : w.walked.lookup group.id with
  | none => exact BitVec.or_zero
  | some p =>
    obtain ⟨y, c⟩ := p
    obtain ⟨rfl, hy⟩ := hsound _ _ _ hl
    show x ||| y = x
    rcases hagree.nested _ _ _ hname hlisted hy with h | h
    · refine absurd ?_ hnew
      rw [hl, walkedBefore, hmarker, Bool.and_eq_true, beq_iff_eq, beq_self_eq_true]
      exact ⟨by rw [BitVec.and_comm, h], rfl⟩
    · refine ext_has fun a => ?_
      rw [← h, has_or, has_and]
      cases has x a <;> simp

theorem notMem_of_not_walkedBefore (hagree : Agreeing db userId) (hsound : w.Sound db userId)
    {l : List String} (htrail : Trail (NamedSubjectEdge db) userId uri l)
    (hinside : ∀ g ∈ l, (w.walked.lookup g).isSome = true) {group : Right} {x : U8}
    (hedge : NamedSubjectEdge db uri group.id) (hmarker : group.marker = noMarker)
    (hlisted : Listed db userId group.id x)
    (hnew : ¬ walkedBefore (w.walked.lookup group.id) x group.marker = true) :
    group.id ∉ l := by
  intro hmem
  obtain ⟨⟨y, c⟩, hl⟩ := Option.isSome_iff_exists.mp (hinside _ hmem)
  obtain ⟨rfl, hy⟩ := hsound _ _ _ hl
  have hcycle : Relation.TransGen (NamedSubjectEdge db) group.id group.id :=
    Relation.TransGen.tail' (htrail.mem_reaches hmem) hedge
  obtain rfl := hagree.cyclic _ _ _ hcycle hlisted hy
  refine hnew ?_
  rw [hl, walkedBefore, hmarker, Bool.and_eq_true, beq_iff_eq, beq_self_eq_true]
  exact ⟨BitVec.and_self, rfl⟩

theorem covers_enter {group : Right} {x : U8}
    (hx : x ||| ((w.walked.lookup group.id).map Prod.fst).getD 0 = x) {g : String} {y : U8}
    (h : w.Covers g y) :
    Subjects.Covers { w with walked := w.walked.insert group.id (x, group.marker) } g y := by
  obtain ⟨z, c, hz, hyz⟩ := h
  by_cases hg : g = group.id
  · subst hg
    refine ⟨x, group.marker, AList.lookup_insert _, fun a ha => ?_⟩
    rw [hz] at hx
    rw [← hx, has_or, show has ((Option.map Prod.fst (some (z, c))).getD 0) a = true from hyz a ha,
      Bool.or_true]
  · exact ⟨z, c, by rw [AList.lookup_insert_ne hg, hz], hyz⟩

section Walk

variable (hmarkers : db.NoMarkers) (hagree : Agreeing db userId)
  (walk : String → Bool → Subjects → Subjects) {l : List String}
  (htrail : Trail (NamedSubjectEdge db) userId uri l)
  (hwalk : ∀ id w, NamedSubjectEdge db uri id → id ∉ l → w.Sound db userId →
    (∀ g ∈ id :: l, (w.walked.lookup g).isSome = true) →
    Gathers db userId id w (walk id false w) ∧ Followed db (walk id false w) id)

include hmarkers hagree htrail hwalk

/-- **One group of a record**: it is remembered with the bits of its entry. -/
theorem gathers_plainSubject (level : U8) {group : Right} (hgroup : group ∈ memberGroups db uri)
    (hsound : w.Sound db userId) (hinside : ∀ g ∈ l, (w.walked.lookup g).isSome = true) :
    Gathers db userId uri w (plainSubject walk uri 15 level false w group) ∧
      (group.id ≠ "" →
        (plainSubject walk uri 15 level false w group).Covers group.id (group.access &&& 15)) := by
  have hmarker := hmarkers.marker_eq hgroup
  have hignore : (if !false && group.marker == mIgnoreExclusive then true else false) = false := by
    rw [hmarker]
    decide
  have hexclusive : (!false && group.marker == mIsExclusive) = false := by
    rw [hmarker]
    decide
  unfold plainSubject
  dsimp only
  rw [hignore, hexclusive]
  split_ifs with hempty hbefore hself
  · exact ⟨.refl hsound, fun h => absurd (String.isEmpty_iff.mp hempty) h⟩
  · exact ⟨.refl hsound, fun _ => covers_of_walkedBefore hbefore⟩
  all_goals
    have hname : group.id ≠ "" := fun h => hempty (String.isEmpty_iff.mpr h)
    have hedge : NamedSubjectEdge db uri group.id := ⟨⟨group, hgroup, rfl⟩, hname⟩
    have hlisted : Listed db userId group.id (group.access &&& 15) :=
      ⟨uri, htrail.reaches, group, hgroup, rfl, rfl⟩
    have hnew := notMem_of_not_walkedBefore hagree hsound htrail hinside hedge hmarker hlisted
      hbefore
    have hx := entered_eq hagree hsound hname hmarker hlisted hbefore
    rw [hx]
    set entered : Subjects :=
      { w with walked := w.walked.insert group.id (group.access &&& 15, group.marker) }
      with hentered
    have hlookup : entered.walked.lookup group.id = some (group.access &&& 15, group.marker) :=
      AList.lookup_insert _
    have hother : ∀ g, g ≠ group.id → entered.walked.lookup g = w.walked.lookup g :=
      fun g hg => AList.lookup_insert_ne hg
    have hekeep : ∀ g x, w.Covers g x → entered.Covers g x := fun g x h => covers_enter hx h
    have hesound : entered.Sound db userId := by
      intro g x c hg
      by_cases heq : g = group.id
      · subst heq
        rw [hlookup, Option.some.injEq, Prod.mk.injEq] at hg
        obtain ⟨rfl, rfl⟩ := hg
        exact ⟨hmarker, hlisted⟩
      · rw [hother g heq] at hg
        exact hsound g x c hg
  · -- a user that lists itself
    have huser : group.id = userId := by
      cases htrail with
      | nil => exact hself.symm
      | cons _ _ _ => exact absurd (hself ▸ List.mem_cons_self) hnew
    refine ⟨⟨hesound, hekeep, fun g hg => ?_, fun g hg => ?_, rfl⟩, fun _ => ?_⟩
    · obtain rfl : g = group.id := by_contra fun h => hg (hother g h)
      exact .single hedge
    · exact .inl ⟨hother g (huser ▸ hg), rfl⟩
    · exact ⟨_, _, hlookup, fun _ h => h⟩
  · -- a group that is walked and kept
    have hinside' : ∀ g ∈ group.id :: l, (entered.walked.lookup g).isSome = true := by
      intro g hg
      by_cases heq : g = group.id
      · rw [heq, hlookup]
        rfl
      · rw [hother g heq]
        exact hinside g ((List.mem_cons.mp hg).resolve_left heq)
    obtain ⟨hinner, hfollowed⟩ := hwalk group.id entered hedge hnew hesound hinside'
    set inner := walk group.id false entered with hinner_def
    -- the walk does not meet the group again with other bits
    have hkept : ∃ c, inner.walked.lookup group.id = some (group.access &&& 15, c) := by
      obtain ⟨y, c, hy, -⟩ := hinner.keeps group.id _ ⟨_, _, hlookup, fun _ h => h⟩
      by_cases hsame : inner.walked.lookup group.id = entered.walked.lookup group.id
      · exact ⟨_, hsame.trans hlookup⟩
      · obtain rfl := hagree.cyclic _ _ _ (hinner.touches _ hsame) hlisted
          (hinner.sound _ _ _ hy).2
        exact ⟨c, hy⟩
    obtain ⟨c, hkept⟩ := hkept
    refine ⟨⟨hinner.sound, fun g x h => hinner.keeps g x (hekeep g x h), fun g hg => ?_,
      fun g hg => ?_, ?_⟩, fun _ => ⟨_, c, hkept, fun _ h => h⟩⟩
    · by_cases hg' : inner.walked.lookup g = entered.walked.lookup g
      · obtain rfl : g = group.id := by_contra fun h => hg (hg'.trans (hother g h))
        exact .single hedge
      · exact .head hedge (hinner.touches g hg')
    · by_cases heq : g = group.id
      · subst heq
        exact .inr ⟨⟨_, c, AList.lookup_insert _, hkept⟩, hfollowed⟩
      · have hresults : ∀ r, (inner.results.insert group.id r).lookup g = inner.results.lookup g :=
          fun r => AList.lookup_insert_ne heq
        rcases hinner.settles g hg with ⟨hw, hr⟩ | ⟨⟨r, c, hr, hw⟩, hf⟩
        · exact .inl ⟨hw.trans (hother g heq), (hresults _).trans hr⟩
        · exact .inr ⟨⟨r, c, (hresults _).trans hr, hw⟩, hf⟩
    · exact (Bool.or_false _).trans hinner.isExclusive

theorem gathers_foldl_plainSubject (level : U8) (groups : List Right)
    (hgroups : groups ⊆ memberGroups db uri) (w : Subjects)
    (hsound : w.Sound db userId) (hinside : ∀ g ∈ l, (w.walked.lookup g).isSome = true) :
    Gathers db userId uri w (groups.foldl (plainSubject walk uri 15 level false) w) ∧
      ∀ group ∈ groups, group.id ≠ "" →
        (groups.foldl (plainSubject walk uri 15 level false) w).Covers group.id
          (group.access &&& 15) := by
  induction groups generalizing w with
  | nil => exact ⟨.refl hsound, fun _ h => by cases h⟩
  | cons group groups ih =>
    obtain ⟨hfirst, hcovers⟩ := gathers_plainSubject hmarkers hagree walk htrail hwalk level
      (hgroups List.mem_cons_self) hsound hinside
    have hinside' : ∀ g ∈ l,
        ((plainSubject walk uri 15 level false w group).walked.lookup g).isSome = true := by
      intro g hg
      obtain ⟨⟨x, c⟩, hl⟩ := Option.isSome_iff_exists.mp (hinside g hg)
      obtain ⟨y, c, hy, -⟩ := hfirst.keeps g x ⟨x, c, hl, fun _ h => h⟩
      rw [hy]
      rfl
    obtain ⟨hrest, hcovers'⟩ := ih (fun g hg => hgroups (List.mem_cons_of_mem _ hg)) _ hfirst.sound
      hinside'
    refine ⟨hfirst.trans hrest, fun g hg hname => ?_⟩
    rcases List.mem_cons.mp hg with rfl | hg
    · exact hrest.keeps _ _ (hcovers hname)
    · exact hcovers' g hg hname

end Walk

/-- **The walk gathers what its group reaches**, when no trail from the user is longer than the
levels of the walk. -/
theorem gathers_plainSubjects (hmarkers : db.NoMarkers) (hagree : Agreeing db userId)
    (hshallow : ShallowBelow (NamedSubjectEdge db) userId 32) (left : ℕ) (uri : String)
    (w : Subjects) {l : List String} (htrail : Trail (NamedSubjectEdge db) userId uri l)
    (hleft : l.length + left = maxLevels) (hsound : w.Sound db userId)
    (hinside : ∀ g ∈ l, (w.walked.lookup g).isSome = true) :
    Gathers db userId uri w (plainSubjects db left uri 15 false w) ∧
      Followed db (plainSubjects db left uri 15 false w) uri := by
  induction left generalizing uri w l with
  | zero =>
    have hlen := hshallow _ _ htrail
    unfold maxLevels at hleft
    omega
  | succ left ih =>
    rw [plainSubjects]
    cases hget : db.get (membershipPrefix ++ uri) with
    | error e =>
      refine ⟨.refl hsound, fun group hgroup => ?_⟩
      rw [memberGroups, hget] at hgroup
      cases hgroup
    | ok str =>
      have hgroups : memberGroups db uri = groupsOf str := by rw [memberGroups, hget]
      obtain ⟨hgathers, hcovers⟩ := gathers_foldl_plainSubject hmarkers hagree
        (fun id ignore w => plainSubjects db left id 15 ignore w) htrail
        (fun id w hedge hnew hsound hinside => ih id w (htrail.cons hedge hnew)
          (by rw [List.length_cons]; omega) hsound hinside)
        (BitVec.ofNat 8 (32 - left)) (groupsOf str) (fun _ h => hgroups ▸ h) w hsound hinside
      exact ⟨hgathers, fun group hgroup hname => hcovers group (hgroups ▸ hgroup) hname⟩

theorem gathers_subjectsOf (hmarkers : db.NoMarkers) (hagree : Agreeing db userId)
    (hshallow : ShallowBelow (NamedSubjectEdge db) userId 32) :
    Gathers db userId userId ⟨∅, ∅, false⟩ (subjectsOf db userId) ∧
      Followed db (subjectsOf db userId) userId :=
  gathers_plainSubjects hmarkers hagree hshallow maxLevels userId _ .nil (by simp)
    (fun g x c h => by rw [AList.lookup_empty] at h; cases h) (fun g hg => by cases hg)

theorem isExclusive_subjectsOf (hmarkers : db.NoMarkers) (hagree : Agreeing db userId)
    (hshallow : ShallowBelow (NamedSubjectEdge db) userId 32) :
    (subjectsOf db userId).isExclusive = false :=
  (gathers_subjectsOf hmarkers hagree hshallow).1.isExclusive

/-- **A listed group is a subject** with the bits that it is listed with. -/
theorem exists_subject (hmarkers : db.NoMarkers) (hagree : Agreeing db userId)
    (hshallow : ShallowBelow (NamedSubjectEdge db) userId 32) {s : String} {b : Access}
    (hb : b ∈ allowBits)
    (hs : s = userId ∨ s ≠ "" ∧ ∃ x, Listed db userId s x ∧ has x b = true) :
    ∃ r, (subjectGroupsOf db userId).lookup s = some r ∧ has r.access b = true := by
  by_cases huser : s = userId
  · subst huser
    refine ⟨_, AList.lookup_insert _, ?_⟩
    rw [Right.new, has_fifteen, decide_eq_true hb]
  obtain ⟨hname, x, ⟨uri, hreach, group, hgroup, rfl, rfl⟩, hbit⟩ := hs.resolve_left huser
  obtain ⟨hgathers, hfollowed⟩ := gathers_subjectsOf hmarkers hagree hshallow
  have hsettled : ∀ g x, g ≠ userId → (subjectsOf db userId).Covers g x →
      (subjectsOf db userId).Settled g ∧ Followed db (subjectsOf db userId) g := by
    rintro g x hg ⟨y, c, hy, -⟩
    rcases hgathers.settles g hg with ⟨hw, -⟩ | h
    · rw [hy, AList.lookup_empty] at hw
      cases hw
    · exact h
  -- every group that is reached is followed
  have hall : ∀ u, Relation.ReflTransGen (NamedSubjectEdge db) userId u →
      Followed db (subjectsOf db userId) u := by
    intro u hu
    induction hu with
    | refl => exact hfollowed
    | @tail u v _ hedge ih =>
      obtain ⟨⟨group, hgroup, rfl⟩, hname⟩ := hedge
      by_cases huser : group.id = userId
      · exact huser ▸ hfollowed
      · exact (hsettled _ _ huser (ih group hgroup hname)).2
  have hcovers := hall uri hreach group hgroup hname
  obtain ⟨⟨r, c, hr, hw⟩, -⟩ := hsettled _ _ huser hcovers
  obtain ⟨y, c', hy, hxy⟩ := hcovers
  rw [hw, Option.some.injEq, Prod.mk.injEq] at hy
  refine ⟨r, ?_, hy.1 ▸ hxy b hbit⟩
  rw [subjectGroupsOf, AList.lookup_insert_ne huser, hr]

end Gathers

end Veda.Authorization
