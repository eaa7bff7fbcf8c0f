import Veda.VApi.ApiClient

set_option autoImplicit false

/-!
# The loop over the matches of a query

A query is answered with a window of its matches: `from` is where the window starts and `limit` its
length. The loop looks at the document data of one match after another, which is the uri of an
individual, asks whether the user may read it, and stops when `top` of them have passed. The
iterator is advanced at the end of a round, and a round for a match without document data is left
before that.

## Main definitions

* `Xapian.Enquire`, `Xapian.MSet` — what the search engine gives.
* `Xapian.queueRound`, `Xapian.queueLoop` — the loop.
* `Xapian.exec`, `Xapian.execXapianQueryAndQueueAuthorize` — the answer to a query.
* `Xapian.EndsOnce` — the loop ends and looks at no match twice.
* `Xapian.Leaves` — the condition on the matches.
* `Xapian.pages` — a query is repeated with the cursor of its answer.

## Main results

* `Xapian.endsOnce_iff` — when the loop ends.
* `Xapian.pages_eq` — the pages together.

## Design

The counters are integers. The loop has fuel, and its state has the places of the matches that were
looked at. The answers of the access check are any function of the uri and of the number of checks
before.
-/

namespace Veda.Xapian

open Veda.VApi (ResultCode)

/-! ## The search engine -/

/-- The errors of the search engine (`XError`). -/
inductive XError
  | xapian (errCode : ℤ)
  | io
  deriving DecidableEq

/-- The data of a matching document, if they can be read. -/
abbrev Document := Except XError String

/-- A window of the matches; each of its parts may fail. -/
structure MSet where
  matchesEstimated : Except XError ℤ
  iterator : Except XError (List Document)

/-- A query that is ready. -/
structure Enquire where
  getMset : ℤ → ℤ → Except XError MSet

/-! ## Requests and answers -/

inductive OptAuthorize
  | no
  | yes
  deriving DecidableEq

/-- `Access::CanRead`. -/
def canRead : UInt8 := 2

/-- The user of a query and whether the rights are checked, with the answers of the check. -/
structure Asking where
  userUri : String
  opAuth : OptAuthorize
  /-- `_authorize`, after so many calls, for an individual; nothing for an error -/
  authorize : ℕ → String → Option UInt8

/-- An individual is handed out. -/
def Asking.isPassed (asking : Asking) (calls : ℕ) (subjectId : String) : Bool :=
  asking.opAuth ≠ .yes || (asking.authorize calls subjectId).getD 0 = canRead

/-- The answer to a query, without the individuals (`QueryResult`). -/
structure QueryResult where
  count : ℤ
  estimated : ℤ
  processed : ℤ
  cursor : ℤ
  resultCode : ResultCode
  deriving DecidableEq

/-- `QueryResult::default`. -/
def QueryResult.default : QueryResult := ⟨0, 0, 0, 0, .notReady⟩

/-! ## The loop -/

/-- The variables of the loop, the individuals that were handed out, and the places of the matches
that were looked at. -/
structure Walk where
  it : ℕ
  processed : ℕ
  readCount : ℕ
  out : List String
  looked : List ℕ
  deriving DecidableEq

def Walk.start : Walk := ⟨0, 0, 0, [], []⟩

/-- The match at the iterator is looked at. -/
def Walk.look (w : Walk) : Walk := { w with looked := w.looked ++ [w.it] }

/-- An individual is processed. -/
def Walk.process (w : Walk) (isPassed : Bool) (subjectId : String) : Walk :=
  if isPassed then
    { w with
      processed := w.processed + 1, readCount := w.readCount + 1, out := w.out ++ [subjectId] }
  else { w with processed := w.processed + 1 }

/-- `it.next()`. -/
def Walk.next (w : Walk) : Walk := { w with it := w.it + 1 }

/-- What a round of the loop leads to. -/
inductive Round
  | again (w : Walk)
  | left (w : Walk)
  | failed (e : XError) (w : Walk)

/-- One round of the loop. A match without document data leaves the iterator where it is. -/
def queueRound (asking : Asking) (docs : List Document) (top : ℤ) (w : Walk) : Round :=
  match docs[w.it]? with
  | none => .left w
  | some (.error e) => .failed e w.look
  | some (.ok subjectId) =>
    if subjectId.isEmpty then .again w.look
    else
      let isPassed := asking.isPassed w.processed subjectId
      let w := w.look.process isPassed subjectId
      if isPassed && decide (top ≤ w.readCount) then .left w else .again w.next

/-- The loop, for at most so many rounds. -/
def queueLoop (asking : Asking) (docs : List Document) (top : ℤ) :
    ℕ → Walk → Option (Except XError Unit × Walk)
  | 0, _ => none
  | fuel + 1, w =>
    match queueRound asking docs top w with
    | .again w => queueLoop asking docs top fuel w
    | .left w => some (.ok (), w)
    | .failed e w => some (.error e, w)

/-- What `top` and `limit` mean. -/
def orMaximum (n : ℤ) : ℤ := if n = 0 then 10000 else n

/-- The function `exec`: the answer, the individuals that were handed out and the places of the
matches that were looked at. -/
def exec (fuel : ℕ) (asking : Asking) (enquire : Enquire) (from' inTop inLimit : ℤ) :
    Option (Except XError QueryResult × Walk) :=
  if asking.userUri.isEmpty then
    some (.ok { QueryResult.default with resultCode := .ticketNotFound }, .start)
  else
    match enquire.getMset from' (orMaximum inLimit) with
    | .error e => some (.error e, .start)
    | .ok mset =>
      match mset.matchesEstimated, mset.iterator with
      | .error e, _ => some (.error e, .start)
      | .ok _, .error e => some (.error e, .start)
      | .ok estimated, .ok docs =>
        (queueLoop asking docs (orMaximum inTop) fuel .start).map fun (answer, w) =>
          (answer.map fun _ =>
            ⟨w.readCount, estimated, w.processed, from' + w.processed, .ok⟩, w)

/-- The answer for what `exec` gives; an error becomes a result code. -/
def resultOf : Except XError QueryResult → QueryResult
  | .ok res => res
  | .error (.xapian errCode) =>
    { QueryResult.default with
      resultCode := if errCode = -1 then .databaseModifiedError else .internalServerError }
  | .error .io => { QueryResult.default with resultCode := .internalServerError }

/-- The answer to a query, with the state in which the loop was left. -/
def execXapianQueryAndQueueAuthorize (fuel : ℕ) (asking : Asking) (enquire : Enquire)
    (from' top limit : ℤ) : Option (QueryResult × Walk) :=
  (exec fuel asking enquire from' top limit).map fun (answer, w) => (resultOf answer, w)

/-! ## When the loop ends -/

/-- The call ends, and has looked at no match twice. -/
def EndsOnce (asking : Asking) (enquire : Enquire) (from' top limit : ℤ) : Prop :=
  ∃ fuel res w, execXapianQueryAndQueueAuthorize fuel asking enquire from' top limit =
    some (res, w) ∧ w.looked.Nodup

/-- How many of some matches are handed out, after so many checks. -/
def handedOut (asking : Asking) : ℕ → List Document → ℕ
  | _, [] => 0
  | calls, .error _ :: docs => handedOut asking calls docs
  | calls, .ok subjectId :: docs =>
    if subjectId.isEmpty then handedOut asking calls docs
    else (if asking.isPassed calls subjectId then 1 else 0) + handedOut asking (calls + 1) docs

/-- The condition on the matches in the window: before each one without document data stands one
whose data cannot be read, or so many that are handed out that the loop is left with the last of
them. -/
def Leaves (asking : Asking) (docs : List Document) (top : ℤ) : Prop :=
  ∀ before after, docs = before ++ .ok "" :: after →
    (∃ e, .error e ∈ before) ∨ 0 < handedOut asking 0 before ∧ top ≤ handedOut asking 0 before

section Loop

variable {asking : Asking} {docs before : List Document} {top : ℤ} {w w' : Walk} {fuel : ℕ}

@[simp] theorem Walk.processed_process (w : Walk) (isPassed : Bool) (subjectId : String) :
    (w.process isPassed subjectId).processed = w.processed + 1 := by
  cases isPassed <;> rfl

@[simp] theorem Walk.it_process (w : Walk) (isPassed : Bool) (subjectId : String) :
    (w.process isPassed subjectId).it = w.it := by
  cases isPassed <;> rfl

@[simp] theorem Walk.looked_process (w : Walk) (isPassed : Bool) (subjectId : String) :
    (w.process isPassed subjectId).looked = w.looked := by
  cases isPassed <;> rfl

theorem Walk.readCount_process (w : Walk) (isPassed : Bool) (subjectId : String) :
    (w.process isPassed subjectId).readCount = w.readCount + if isPassed then 1 else 0 := by
  cases isPassed <;> rfl

/-- The loop behind some matches: each of them was looked at once and handed out or not, and there
are not enough that were. -/
structure Behind (asking : Asking) (before : List Document) (top : ℤ) (w : Walk) : Prop where
  it : w.it = before.length
  processed : w.processed = before.length
  readCount : w.readCount = handedOut asking 0 before
  looked : w.looked = List.range before.length
  filled : ∀ doc ∈ before, ∃ subjectId, doc = .ok subjectId ∧ subjectId ≠ ""
  goesOn : handedOut asking 0 before = 0 ∨ handedOut asking 0 before < top

variable (asking top) in
theorem behind_start : Behind asking [] top .start :=
  ⟨rfl, rfl, rfl, rfl, fun _ hdoc => (nomatch hdoc), .inl rfl⟩

theorem handedOut_append (hfilled : ∀ doc ∈ before, ∃ subjectId, doc = .ok subjectId ∧
    subjectId ≠ "") (calls : ℕ) (rest : List Document) :
    handedOut asking calls (before ++ rest) =
      handedOut asking calls before + handedOut asking (calls + before.length) rest := by
  induction before generalizing calls with
  | nil => simp [handedOut]
  | cons doc before ih =>
    obtain ⟨subjectId, rfl, hne⟩ := hfilled doc List.mem_cons_self
    have hempty : ¬ subjectId.isEmpty = true := fun h => hne (String.isEmpty_iff.mp h)
    rw [List.cons_append, handedOut, handedOut, if_neg hempty, if_neg hempty,
      ih (fun d hd => hfilled d (List.mem_cons_of_mem _ hd)), List.length_cons,
      show calls + 1 + before.length = calls + (before.length + 1) by omega, Nat.add_assoc]

theorem exists_split {front rest before' after' : List Document} (hfront : .ok "" ∉ front)
    (heq : front ++ rest = before' ++ .ok "" :: after') : ∃ between, before' = front ++ between := by
  rcases List.append_eq_append_iff.mp heq with ⟨between, hbefore, -⟩ | ⟨between, hbefore, hafter⟩
  · exact ⟨between, hbefore⟩
  · cases between with
    | nil => exact ⟨[], by rw [hbefore, List.append_nil, List.append_nil]⟩
    | cons doc between =>
      obtain ⟨rfl, -⟩ := List.cons_eq_cons.mp hafter
      exact absurd (hbefore ▸ by simp) hfront

theorem Behind.getElem? (h : Behind asking before top w) (rest : List Document) :
    (before ++ rest)[w.it]? = rest.head? := by
  rw [h.it, List.getElem?_append_right le_rfl, Nat.sub_self, List.head?_eq_getElem?]

theorem Behind.notMem (h : Behind asking before top w) : .ok "" ∉ before := by
  intro hmem
  obtain ⟨subjectId, heq, hne⟩ := h.filled _ hmem
  exact hne (Except.ok.inj heq).symm

theorem Behind.nodup_look (h : Behind asking before top w) : w.look.looked.Nodup := by
  rw [Walk.look, h.looked, h.it, ← List.range_succ]
  exact List.nodup_range

theorem Behind.next (h : Behind asking before top w) {subjectId : String} (hne : subjectId ≠ "")
    (hgoesOn : asking.isPassed w.processed subjectId = true → (w.readCount : ℤ) + 1 < top) :
    Behind asking (before ++ [.ok subjectId]) top
      (w.look.process (asking.isPassed w.processed subjectId) subjectId).next := by
  have hempty : ¬ subjectId.isEmpty = true := fun h => hne (String.isEmpty_iff.mp h)
  have hcount : handedOut asking 0 (before ++ [.ok subjectId]) =
      w.readCount + if asking.isPassed w.processed subjectId then 1 else 0 := by
    rw [handedOut_append h.filled, Nat.zero_add, handedOut, if_neg hempty, handedOut, h.readCount,
      h.processed, Nat.add_zero]
  constructor
  · rw [Walk.next, Walk.it_process, List.length_append]
    exact congrArg (· + 1) h.it
  · rw [Walk.next, Walk.processed_process, List.length_append]
    exact congrArg (· + 1) h.processed
  · rw [hcount, Walk.next, Walk.readCount_process]
    rfl
  · rw [Walk.next, Walk.looked_process, List.length_append, List.length_singleton, List.range_succ,
      Walk.look, h.looked, h.it]
  · intro doc hdoc
    rcases List.mem_append.mp hdoc with hdoc | hdoc
    · exact h.filled doc hdoc
    · exact ⟨subjectId, List.mem_singleton.mp hdoc, hne⟩
  · rw [hcount]
    have hgoes := h.goesOn
    rw [← h.readCount] at hgoes
    by_cases hpassed : asking.isPassed w.processed subjectId = true
    · rw [if_pos hpassed]
      exact .inr (by exact_mod_cast hgoesOn hpassed)
    · rw [if_neg hpassed]
      exact hgoes

theorem queueLoop_stuck (h : docs[w.it]? = some (.ok "")) (fuel : ℕ) :
    queueLoop asking docs top fuel w = none := by
  induction fuel generalizing w with
  | zero => rfl
  | succ fuel ih =>
    have hround : queueRound asking docs top w = .again w.look := by
      rw [queueRound, h]
      rfl
    rw [queueLoop, hround]
    exact ih h

/-- **When the loop ends**, from behind some matches on. -/
theorem Behind.ends_iff (h : Behind asking before top w) (rest : List Document) :
    (∃ fuel answer w', queueLoop asking (before ++ rest) top fuel w = some (answer, w') ∧
      w'.looked.Nodup) ↔ Leaves asking (before ++ rest) top := by
  induction rest generalizing before w with
  | nil =>
    refine iff_of_true ⟨1, .ok (), w, ?_, h.looked ▸ List.nodup_range⟩ ?_
    · rw [queueLoop, queueRound, h.getElem?]
      rfl
    · intro before' after' heq
      have hmem : .ok "" ∈ before ++ ([] : List Document) := heq ▸ by simp
      rw [List.append_nil] at hmem
      exact absurd hmem h.notMem
  | cons doc rest ih =>
    cases doc with
    | error e =>
      refine iff_of_true ⟨1, .error e, w.look, ?_, h.nodup_look⟩ ?_
      · rw [queueLoop, queueRound, h.getElem?]
        rfl
      · intro before' after' heq
        rw [List.append_cons] at heq
        obtain ⟨between, rfl⟩ := exists_split (by simpa using h.notMem) heq
        exact .inl ⟨e, by simp⟩
    | ok subjectId =>
      by_cases hne : subjectId = ""
      · subst hne
        refine iff_of_false ?_ ?_
        · rintro ⟨fuel, answer, w', hloop, -⟩
          rw [queueLoop_stuck (h.getElem? _)] at hloop
          cases hloop
        · intro hleaves
          rcases hleaves before rest rfl with ⟨e, he⟩ | ⟨hpos, htop⟩
          · obtain ⟨subjectId, heq, -⟩ := h.filled _ he
            cases heq
          · have hgoes := h.goesOn
            omega
      · have hempty : ¬ subjectId.isEmpty = true := fun h => hne (String.isEmpty_iff.mp h)
        have hround : queueRound asking (before ++ .ok subjectId :: rest) top w =
            if asking.isPassed w.processed subjectId &&
                decide (top ≤ (w.look.process (asking.isPassed w.processed subjectId)
                  subjectId).readCount) then
              .left (w.look.process (asking.isPassed w.processed subjectId) subjectId)
            else .again (w.look.process (asking.isPassed w.processed subjectId) subjectId).next := by
          rw [queueRound, h.getElem?]
          exact if_neg hempty
        have hcount := w.look.readCount_process (asking.isPassed w.processed subjectId) subjectId
        have hfilled : ∀ doc ∈ before ++ [.ok subjectId],
            ∃ subjectId, doc = .ok subjectId ∧ subjectId ≠ "" := by
          intro doc hdoc
          rcases List.mem_append.mp hdoc with hdoc | hdoc
          · exact h.filled doc hdoc
          · exact ⟨subjectId, List.mem_singleton.mp hdoc, hne⟩
        split_ifs at hround with hleft
        · -- enough are handed out
          rw [Bool.and_eq_true, decide_eq_true_iff] at hleft
          obtain ⟨hpassed, htop⟩ := hleft
          rw [hcount, if_pos hpassed] at htop
          refine iff_of_true ⟨1, .ok (), _, by rw [queueLoop, hround], ?_⟩ ?_
          · rw [Walk.looked_process]
            exact h.nodup_look
          · intro before' after' heq
            rw [List.append_cons] at heq
            obtain ⟨between, rfl⟩ := exists_split
              (by simpa [Ne.symm hne] using h.notMem) heq
            have hhanded : w.readCount + 1 ≤
                handedOut asking 0 (before ++ [.ok subjectId] ++ between) := by
              rw [handedOut_append hfilled, handedOut_append h.filled, ← h.readCount, Nat.zero_add,
                handedOut, if_neg hempty, ← h.processed, if_pos hpassed]
              omega
            have hlook : w.look.readCount = w.readCount := rfl
            rw [hlook] at htop
            exact .inr ⟨by omega, by omega⟩
        · have hnext := h.next hne fun hpassed => by
            by_contra hge
            refine hleft ?_
            rw [hcount, hpassed, Bool.true_and, decide_eq_true_iff, if_pos rfl]
            push_cast
            exact not_lt.mp hge
          rw [List.append_cons, ← ih hnext]
          rw [List.append_cons] at hround
          constructor
          · rintro ⟨fuel, answer, w', hloop, hnodup⟩
            cases fuel with
            | zero => cases hloop
            | succ fuel =>
              rw [queueLoop, hround] at hloop
              exact ⟨fuel, answer, w', hloop, hnodup⟩
          · rintro ⟨fuel, answer, w', hloop, hnodup⟩
            refine ⟨fuel + 1, answer, w', ?_, hnodup⟩
            rw [queueLoop, hround]
            exact hloop

end Loop

/-- The condition on a query: the user is missing, or the search engine fails, or the matches in the
window meet the condition. -/
def MayEnd (asking : Asking) (enquire : Enquire) (from' top limit : ℤ) : Prop :=
  asking.userUri = "" ∨ ∀ mset estimated docs,
    enquire.getMset from' (orMaximum limit) = .ok mset → mset.matchesEstimated = .ok estimated →
      mset.iterator = .ok docs → Leaves asking docs (orMaximum top)

section Ends

variable {asking : Asking} {enquire : Enquire} {from' top limit : ℤ} {fuel : ℕ}

theorem exec_of_missing (h : asking.userUri = "") :
    exec fuel asking enquire from' top limit =
      some (.ok { QueryResult.default with resultCode := .ticketNotFound }, .start) := by
  rw [exec, h]
  rfl

theorem exec_of_docs (huser : asking.userUri ≠ "") {mset : MSet} {estimated : ℤ}
    {docs : List Document} (hmset : enquire.getMset from' (orMaximum limit) = .ok mset)
    (hestimated : mset.matchesEstimated = .ok estimated) (hdocs : mset.iterator = .ok docs) :
    exec fuel asking enquire from' top limit =
      (queueLoop asking docs (orMaximum top) fuel .start).map fun (answer, w) =>
        (answer.map fun _ =>
          ⟨w.readCount, estimated, w.processed, from' + w.processed, .ok⟩, w) := by
  rw [exec, if_neg fun h => huser (String.isEmpty_iff.mp h), hmset]
  dsimp only
  rw [hestimated, hdocs]

theorem endsOnce_iff_exec : EndsOnce asking enquire from' top limit ↔
    ∃ fuel answer w, exec fuel asking enquire from' top limit = some (answer, w) ∧
      w.looked.Nodup := by
  constructor
  · rintro ⟨fuel, res, w, hcall, hnodup⟩
    obtain ⟨⟨answer, w'⟩, hexec, hres⟩ := Option.map_eq_some_iff.mp hcall
    obtain ⟨-, rfl⟩ := Prod.mk.inj hres
    exact ⟨fuel, answer, w', hexec, hnodup⟩
  · rintro ⟨fuel, answer, w, hexec, hnodup⟩
    refine ⟨fuel, resultOf answer, w, ?_, hnodup⟩
    rw [execXapianQueryAndQueueAuthorize, hexec]
    rfl

/-- **When the call ends.**

**Proof sketch.** Behind each prefix of the matches the loop has looked at each of them once
(`Behind`). A match without document data keeps it where it is (`queueLoop_stuck`), and what leaves
it before that is in the condition (`Behind.ends_iff`). -/
theorem endsOnce_iff : EndsOnce asking enquire from' top limit ↔
    MayEnd asking enquire from' top limit := by
  rw [endsOnce_iff_exec, MayEnd]
  by_cases huser : asking.userUri = ""
  · exact iff_of_true ⟨0, _, _, exec_of_missing huser, List.nodup_nil⟩ (.inl huser)
  have hempty : ¬ asking.userUri.isEmpty = true := fun h => huser (String.isEmpty_iff.mp h)
  rw [or_iff_right huser]
  cases hmset : enquire.getMset from' (orMaximum limit) with
  | error e =>
    refine iff_of_true ⟨0, .error e, .start, ?_, List.nodup_nil⟩ fun _ _ _ h => (nomatch h)
    rw [exec, if_neg hempty, hmset]
  | ok mset =>
    obtain ⟨matchesEstimated, iterator⟩ := mset
    cases matchesEstimated with
    | error e =>
      refine iff_of_true ⟨0, .error e, .start, ?_, List.nodup_nil⟩ ?_
      · rw [exec, if_neg hempty, hmset]
      · rintro _ _ _ ⟨rfl⟩ hestimated
        cases hestimated
    | ok estimated =>
      cases iterator with
      | error e =>
        refine iff_of_true ⟨0, .error e, .start, ?_, List.nodup_nil⟩ ?_
        · rw [exec, if_neg hempty, hmset]
        · rintro _ _ _ ⟨rfl⟩ - hdocs
          cases hdocs
      | ok docs =>
        have hends := (behind_start asking (orMaximum top)).ends_iff docs
        rw [List.nil_append] at hends
        simp only [exec_of_docs huser hmset rfl rfl]
        constructor
        · rintro ⟨fuel, answer, w, hexec, hnodup⟩ _ _ _ ⟨rfl⟩ - ⟨rfl⟩
          obtain ⟨⟨answer', w'⟩, hloop, hw⟩ := Option.map_eq_some_iff.mp hexec
          obtain ⟨-, rfl⟩ := Prod.mk.inj hw
          exact hends.mp ⟨fuel, answer', w', hloop, hnodup⟩
        · intro hleaves
          obtain ⟨fuel, answer, w, hloop, hnodup⟩ := hends.mpr (hleaves _ _ _ rfl rfl rfl)
          exact ⟨fuel, _, w, by rw [hloop]; rfl, hnodup⟩

/-- A query without checks. -/
def Asking.unchecked (userUri : String) : Asking := ⟨userUri, .no, fun _ _ => none⟩

/-- A query that gives some documents. -/
def Enquire.ofDocuments (docs : List Document) : Enquire :=
  ⟨fun from' limit =>
    .ok ⟨.ok docs.length, .ok ((docs.drop from'.toNat).take limit.toNat)⟩⟩

/-- The loop does not end for a match without document data. -/
theorem not_endsOnce_empty :
    ¬ EndsOnce (.unchecked "cfg:VedaSystem") (.ofDocuments [.ok "d:a", .ok "", .ok "d:b"]) 0 10 10 := by
  rintro ⟨fuel, res, w, hcall, -⟩
  have hloop : ∀ fuel, queueLoop (.unchecked "cfg:VedaSystem") [.ok "d:a", .ok "", .ok "d:b"] 10
      fuel .start = none := by
    intro fuel
    cases fuel with
    | zero => rfl
    | succ fuel =>
      exact queueLoop_stuck (w := ⟨1, 1, 1, ["d:a"], [0]⟩) rfl fuel
  have hexec : exec fuel (.unchecked "cfg:VedaSystem")
      (.ofDocuments [.ok "d:a", .ok "", .ok "d:b"]) 0 10 10 = none := by
    rw [exec_of_docs (by decide) rfl rfl rfl]
    exact congrArg _ (hloop fuel)
  rw [execXapianQueryAndQueueAuthorize, hexec] at hcall
  cases hcall

end Ends

/-! ## Pages -/

/-- A query is repeated with the cursor of the previous answer, until one has processed nothing: the
individuals that are handed out. The loop of each call has `fuel` rounds. -/
def pages (fuel : ℕ) (asking : Asking) (enquire : Enquire) (top limit : ℤ) :
    ℕ → ℤ → Option (List String)
  | 0, _ => none
  | calls + 1, from' =>
    match execXapianQueryAndQueueAuthorize fuel asking enquire from' top limit with
    | none => none
    | some (res, w) =>
      if res.processed = 0 then some w.out
      else (pages fuel asking enquire top limit calls res.cursor).map (w.out ++ ·)

/-- The search engine gives the matches from `from` to `from + limit` of a list of individuals. -/
def GivesWindows (enquire : Enquire) (ids : List String) : Prop :=
  ∀ from' limit : ℤ, 0 ≤ from' → 0 < limit →
    ∃ estimated, enquire.getMset from' limit =
      .ok ⟨.ok estimated, .ok (((ids.drop from'.toNat).take limit.toNat).map .ok)⟩

section Pages

variable {asking : Asking} {enquire : Enquire} {authorized : String → Bool} {ids : List String}
  {top limit : ℤ} {fuel : ℕ}

theorem queueLoop_window (hauthorized : ∀ calls subjectId,
      asking.isPassed calls subjectId = authorized subjectId) (top : ℤ)
    (front rest : List String) (hne : ∀ subjectId ∈ rest, subjectId ≠ "") (w : Walk)
    (hit : w.it = front.length) (hprocessed : w.processed = front.length)
    (hout : w.out = front.filter authorized) (hfuel : rest.length < fuel) :
    ∃ taken left w', rest = taken ++ left ∧ (taken = [] → rest = []) ∧
      queueLoop asking ((front ++ rest).map .ok) top fuel w = some (.ok (), w') ∧
      w'.processed = (front ++ taken).length ∧ w'.out = (front ++ taken).filter authorized := by
  induction rest generalizing front w fuel with
  | nil =>
    obtain ⟨fuel, rfl⟩ := Nat.exists_eq_add_one_of_ne_zero (by omega : fuel ≠ 0)
    refine ⟨[], [], w, rfl, fun _ => rfl, ?_, ?_, ?_⟩
    · rw [queueLoop, queueRound, List.append_nil, List.getElem?_eq_none
        (by rw [List.length_map, hit])]
    · rw [List.append_nil, hprocessed]
    · rw [List.append_nil, hout]
  | cons subjectId rest ih =>
    obtain ⟨fuel, rfl⟩ := Nat.exists_eq_add_one_of_ne_zero (by omega : fuel ≠ 0)
    have hempty : ¬ subjectId.isEmpty = true :=
      fun h => hne subjectId List.mem_cons_self (String.isEmpty_iff.mp h)
    have hget : ((front ++ subjectId :: rest).map .ok : List Document)[w.it]? =
        some (.ok subjectId) := by
      rw [List.getElem?_map, hit, List.getElem?_append_right le_rfl, Nat.sub_self]
      rfl
    have hround : queueRound asking ((front ++ subjectId :: rest).map .ok) top w =
        if authorized subjectId &&
            decide (top ≤ (w.look.process (authorized subjectId) subjectId).readCount) then
          .left (w.look.process (authorized subjectId) subjectId)
        else .again (w.look.process (authorized subjectId) subjectId).next := by
      rw [queueRound, hget]
      dsimp only
      rw [if_neg hempty, hauthorized]
    have hprocess : (w.look.process (authorized subjectId) subjectId).processed =
        (front ++ [subjectId]).length := by
      rw [Walk.processed_process, List.length_append]
      exact congrArg (· + 1) hprocessed
    have houtput : (w.look.process (authorized subjectId) subjectId).out =
        (front ++ [subjectId]).filter authorized := by
      rw [List.filter_append, Walk.process]
      cases hpassed : authorized subjectId with
      | true =>
        rw [if_pos rfl, List.filter_cons_of_pos hpassed, ← hout]
        rfl
      | false =>
        rw [if_neg Bool.false_ne_true, List.filter_cons_of_neg (by simp [hpassed]), ← hout]
        exact (List.append_nil _).symm
    rw [queueLoop, hround]
    split_ifs with hleft
    · exact ⟨[subjectId], rest, _, rfl, fun h => (nomatch h), rfl, hprocess, houtput⟩
    · obtain ⟨taken, left, w', hrest, -, hloop, hprocessed', hout'⟩ := ih
        (front ++ [subjectId]) (fun subjectId h => hne subjectId (List.mem_cons_of_mem _ h))
        (w.look.process (authorized subjectId) subjectId).next
        (by rw [Walk.next, Walk.it_process, List.length_append]; exact congrArg (· + 1) hit)
        hprocess houtput (Nat.lt_of_succ_lt_succ hfuel)
      refine ⟨subjectId :: taken, left, w', by rw [hrest]; rfl, fun h => (nomatch h), ?_, ?_, ?_⟩
      · rw [← List.append_cons] at hloop
        exact hloop
      · rw [List.append_cons, hprocessed']
      · rw [List.append_cons, hout']

variable (top) in
/-- **One page**: the first matches from the cursor on, at least one if there are any. -/
theorem exists_page (huser : asking.userUri ≠ "") (henquire : GivesWindows enquire ids)
    (hauthorized : ∀ calls subjectId, asking.isPassed calls subjectId = authorized subjectId)
    (hne : ∀ subjectId ∈ ids, subjectId ≠ "") (hlimit : 0 < limit) {front rest : List String}
    (hids : ids = front ++ rest) (hfuel : ids.length < fuel) :
    ∃ taken left res w, rest = taken ++ left ∧ (taken = [] → rest = []) ∧
      execXapianQueryAndQueueAuthorize fuel asking enquire front.length top limit = some (res, w) ∧
      res.processed = taken.length ∧ res.cursor = (front ++ taken).length ∧
      w.out = taken.filter authorized := by
  have hmaximum : orMaximum limit = limit := if_neg hlimit.ne'
  obtain ⟨estimated, hmset⟩ := henquire front.length limit (by omega) hlimit
  have hdrop : ids.drop (front.length : ℤ).toNat = rest := by
    rw [Int.toNat_natCast, hids, List.drop_left]
  rw [hdrop] at hmset
  have hsplit : rest = rest.take limit.toNat ++ rest.drop limit.toNat :=
    (List.take_append_drop _ _).symm
  have htake : (rest.take limit.toNat).length < fuel := by
    rw [hids, List.length_append] at hfuel
    rw [List.length_take]
    omega
  obtain ⟨taken, left, w, hwindow, hnil, hloop, hprocessed, hout⟩ :=
    queueLoop_window hauthorized (orMaximum top) [] (rest.take limit.toNat) (fun subjectId h => hne subjectId
      (hids ▸ List.mem_append_right _ (List.mem_of_mem_take h))) .start rfl rfl rfl htake
  rw [List.nil_append] at hloop hprocessed hout
  refine ⟨taken, left ++ rest.drop limit.toNat,
    ⟨w.readCount, estimated, w.processed, front.length + w.processed, .ok⟩, w, ?_, ?_, ?_, ?_, ?_,
    hout⟩
  · rw [← List.append_assoc, ← hwindow, ← hsplit]
  · intro htaken
    have htake := hnil htaken
    rw [List.take_eq_nil_iff] at htake
    exact htake.resolve_left (by omega)
  · rw [execXapianQueryAndQueueAuthorize,
      exec_of_docs huser (by rw [hmaximum]; exact hmset) rfl rfl, hloop]
    rfl
  · exact congrArg Nat.cast hprocessed
  · show (front.length : ℤ) + w.processed = _
    rw [hprocessed, List.length_append]
    push_cast
    rfl

variable (top) in
theorem exists_pages (huser : asking.userUri ≠ "") (henquire : GivesWindows enquire ids)
    (hauthorized : ∀ calls subjectId, asking.isPassed calls subjectId = authorized subjectId)
    (hne : ∀ subjectId ∈ ids, subjectId ≠ "") (hlimit : 0 < limit) (front rest : List String)
    (hids : ids = front ++ rest) (hfuel : ids.length < fuel) :
    ∃ calls, pages fuel asking enquire top limit calls front.length =
      some (rest.filter authorized) := by
  induction hlen : rest.length using Nat.strong_induction_on generalizing front rest with
  | _ n ih =>
    subst hlen
    obtain ⟨taken, left, res, w, hrest, hnil, hcall, hprocessed, hcursor, hout⟩ :=
      exists_page top huser henquire hauthorized hne hlimit hids hfuel
    cases taken with
    | nil =>
      refine ⟨1, ?_⟩
      rw [pages, hcall]
      dsimp only
      rw [hprocessed, if_pos (by rfl), hout, hnil rfl]
    | cons subjectId taken =>
      obtain ⟨calls, hpages⟩ := ih left.length
        (by rw [hrest, List.length_append, List.length_cons]; omega)
        (front ++ subjectId :: taken) left (by rw [hids, hrest, List.append_assoc]) rfl
      refine ⟨calls + 1, ?_⟩
      rw [pages, hcall]
      dsimp only
      rw [hprocessed, if_neg (by simp; omega), hcursor, hpages, hout, hrest, List.filter_append]
      rfl

/-- **The pages together**: the authorized individuals of the whole list, each match once and in its
order, and nothing without a user.

**Proof sketch.** A page takes some matches from the cursor on, at least one if there are any, and
hands out those of them that are authorized (`exists_page`); its cursor is behind them. -/
theorem pages_eq (henquire : GivesWindows enquire ids)
    (hauthorized : ∀ calls subjectId, asking.isPassed calls subjectId = authorized subjectId)
    (hne : ∀ subjectId ∈ ids, subjectId ≠ "") (hlimit : 0 < limit) :
    ∃ fuel calls, pages fuel asking enquire top limit calls 0 =
      some (if asking.userUri = "" then [] else ids.filter authorized) := by
  by_cases huser : asking.userUri = ""
  · refine ⟨0, 1, ?_⟩
    rw [pages, execXapianQueryAndQueueAuthorize, exec_of_missing huser, if_pos huser]
    rfl
  · obtain ⟨calls, hpages⟩ := exists_pages top huser henquire hauthorized hne hlimit [] ids
      rfl (Nat.lt_succ_self _)
    refine ⟨ids.length + 1, calls, ?_⟩
    rw [if_neg huser]
    exact hpages

/-- Three matches on pages of two, of which the user may read two. -/
theorem pages_threeMatches :
    ∃ fuel calls, pages fuel ⟨"td:user", .yes, fun _ id => if id = "d:b" then some 0 else some 2⟩
      ⟨fun from' limit => .ok ⟨.ok 3,
        .ok (((["d:a", "d:b", "d:c"].drop from'.toNat).take limit.toNat).map .ok)⟩⟩ 1 2 calls 0 =
      some ["d:a", "d:c"] :=
  @pages_eq _ _ (fun id => id ≠ "d:b") ["d:a", "d:b", "d:c"] _ _
    (fun _ _ _ _ => ⟨3, rfl⟩)
    (fun _ id => by by_cases h : id = "d:b" <;> simp [Asking.isPassed, canRead, h])
    (by decide) (by decide)

end Pages

end Veda.Xapian
