import Veda.GoWebserver.Individual

set_option autoImplicit false

/-!
# Answers to requests for several individuals

The web server asks one of two storages for each uri of a request and appends a return code for
every uri, but data only for those that were found and that the user may read. The accessors of the
answer index the codes, the uris and the data alike. So every individual has its own data when
all of them were found, and otherwise the list of all individuals panics or is empty.

## Main definitions

* `GoWebserver.RequestResponse` — the answer, with its accessors.
* `GoWebserver.Connector.get` — the request.
* `GoWebserver.Connector.AnswersOwn` — every uri with the code `Ok` has its own data.

## Main results

* `GoWebserver.RequestResponse.Filled.accessed` — the accessors keep what they have filled in.
* `GoWebserver.Connector.answersOwn_iff` — when every uri with the code `Ok` has its own data.

## Design

The outer `none` of an accessor and of the request is a panic. A text is the JSON that it denotes;
the empty text of an answer without a source is `none`. The two failures of the service for the
second storage, no answer and an answer that starts with `ERR`, lead to the same answer and are one.
-/

namespace Veda.GoWebserver

open Veda.Lib Veda.Onto

inductive ResultCode
  | zero | ok | noContent | notFound | notAuthorized | internalServerError | ticketNotFound
  | ticketExpired
  deriving DecidableEq, Repr

inductive SrcType
  | none | tt | lmdb
  deriving DecidableEq, Repr

/-- A decoded map of predicates. -/
abbrev Record := List (GoValue × GoValue)

/-- The answer to a request. -/
structure RequestResponse where
  commonRC : ResultCode
  opRC : List ResultCode
  indv : List Individual
  uris : List String
  dataBinobj : List Json
  dataObjTt : List Record
  srcType : SrcType

namespace RequestResponse

def empty : RequestResponse := ⟨.zero, [], [], [], [], [], .none⟩

def addCode (rr : RequestResponse) (code : ResultCode) : RequestResponse :=
  { rr with opRC := rr.opRC ++ [code] }

def addTTResult (rr : RequestResponse) (data : Record) : RequestResponse :=
  { rr with srcType := .tt, dataObjTt := rr.dataObjTt ++ [data] }

def addLMDBResult (rr : RequestResponse) (data : Json) : RequestResponse :=
  { rr with srcType := .lmdb, dataBinobj := rr.dataBinobj ++ [data] }

/-! ## Accessors -/

/-- Make the list of individuals, one for each uri. -/
def makeIndv (rr : RequestResponse) : RequestResponse :=
  if rr.indv.length = 0 then { rr with indv := List.replicate rr.uris.length none } else rr

def setIndv (rr : RequestResponse) (idx : ℕ) (individual : Individual) : RequestResponse :=
  { rr with indv := rr.indv.set idx individual }

/-- Make the individual with an index from a record. -/
def fillTT (rr : RequestResponse) (idx : ℕ) : Option RequestResponse := do
  let uri ← rr.uris[idx]?
  let record ← rr.dataObjTt[idx]?
  let individual ← ttResordToMap uri record
  return rr.setIndv idx individual

/-- Make the individual with an index; the inner `none` is a text that is no object. -/
def fill (rr : RequestResponse) (idx : ℕ) : Option (Option RequestResponse) :=
  match rr.srcType with
  | .tt => some <$> rr.fillTT idx
  | .lmdb => do
    match ← rr.dataBinobj[idx]? with
    | .obj members => return some (rr.setIndv idx (some members))
    | .null => return some (rr.setIndv idx none)
    | _ => return none
  | .none => some (some rr)

/-- Make the individual with an index unless it is there. -/
def fillMissing (rr : RequestResponse) (idx : ℕ) : Option (Option RequestResponse) := do
  match ← rr.indv[idx]? with
  | some _ => return some rr
  | none => rr.fill idx

def getJson (rr : RequestResponse) (idx : ℕ) : Option (Option Json × RequestResponse) :=
  match rr.srcType with
  | .tt => do
    match ← rr.makeIndv.fillMissing idx with
    | some rr =>
      let individual ← rr.indv[idx]?
      return (some (marshal individual), rr)
    | none => none
  | .lmdb => do
    let data ← rr.dataBinobj[idx]?
    return (some data, rr)
  | .none => some (none, rr)

def getIndv (rr : RequestResponse) (idx : ℕ) : Option (Individual × RequestResponse) := do
  match ← rr.makeIndv.fillMissing idx with
  | some rr =>
    let individual ← rr.indv[idx]?
    return (individual, rr)
  | none => return (some [], rr.makeIndv)

/-- The loop of `getIndvs`: `left` rounds, the first of them with the index `idx`. A text that is no
object ends it with an empty list. -/
def indvsLoop : ℕ → ℕ → RequestResponse → Option (List Individual × RequestResponse)
  | 0, _, rr => some (rr.indv, rr)
  | left + 1, idx, rr => do
    match ← rr.fillMissing idx with
    | some rr => indvsLoop left (idx + 1) rr
    | none => return ([], rr)

def getIndvs (rr : RequestResponse) : Option (List Individual × RequestResponse) :=
  indvsLoop rr.uris.length 0 rr.makeIndv

end RequestResponse

/-! ## The request -/

/-- An answer of the service for the second storage. -/
inductive Reply
  | error
  | json (j : Json)

/-- The services that are asked: the client of the first storage, if it is used, the service for
the second one, and the authorization. -/
structure Connector where
  /-- the tuples with a uri, or `none` for an error -/
  ttClient : Option (String → Option (List GoValue))
  lmdb : String → Reply
  /-- the rights among those that are asked for -/
  authorizeR : String → String → ℕ → Bool → ℕ

namespace Connector

/-- The parameters of a request. -/
structure Request where
  needAuth : Bool
  userUri : String
  reopen : Bool

variable (conn : Connector) (req : Request)

/-- The user may read the individual. -/
def allowed (uri : String) : Bool :=
  !req.needAuth || conn.authorizeR uri req.userUri 2 req.reopen = 2

/-- One uri in the first storage. Neither an error nor a tuple of another size has a code. -/
def ttStep (select : String → Option (List GoValue)) (rr : RequestResponse) (uri : String) :
    Option RequestResponse :=
  match select uri with
  | none => some rr
  | some [] => some (rr.addCode .notFound)
  | some (.slice [_, data] :: _) =>
    if conn.allowed req uri then
      match data with
      | .map record => some ((rr.addCode .ok).addTTResult record)
      | _ => none
    else some (rr.addCode .notAuthorized)
  | some (.slice _ :: _) => some rr
  | some (_ :: _) => some { rr with commonRC := .internalServerError }

def ttLoop (select : String → Option (List GoValue)) :
    List String → RequestResponse → Option RequestResponse
  | [], rr => some { rr with commonRC := .ok }
  | uri :: uris, rr => do
    let rr ← conn.ttStep req select rr uri
    ttLoop select uris rr

/-- The second storage; an error ends the request. -/
def lmdbLoop : List String → RequestResponse → RequestResponse
  | [], rr => { rr with commonRC := .ok }
  | uri :: uris, rr =>
    match conn.lmdb uri with
    | .error => { rr with commonRC := .internalServerError }
    | .json (.arr []) => lmdbLoop uris (rr.addCode .notFound)
    | .json j =>
      if conn.allowed req uri then lmdbLoop uris ((rr.addCode .ok).addLMDBResult j)
      else lmdbLoop uris (rr.addCode .notAuthorized)

def get (uris : List String) : Option RequestResponse :=
  if req.userUri.utf8ByteSize < 3 then
    some { RequestResponse.empty with commonRC := .notAuthorized }
  else if uris.length = 0 then some { RequestResponse.empty with commonRC := .noContent }
  else
    match conn.ttClient with
    | some select => conn.ttLoop req select uris { RequestResponse.empty with uris }
    | none => some (conn.lmdbLoop req uris { RequestResponse.empty with uris })

end Connector

/-! ## What the accessors keep -/

namespace RequestResponse

/-- The states of an answer between calls of its accessors. -/
inductive Accessed (rr : RequestResponse) : RequestResponse → Prop
  | refl : Accessed rr rr
  | json {rr₁ rr₂ : RequestResponse} {idx : ℕ} {text : Option Json} :
      Accessed rr rr₁ → rr₁.getJson idx = some (text, rr₂) → Accessed rr rr₂
  | indv {rr₁ rr₂ : RequestResponse} {idx : ℕ} {individual : Individual} :
      Accessed rr rr₁ → rr₁.getIndv idx = some (individual, rr₂) → Accessed rr rr₂
  | indvs {rr₁ rr₂ : RequestResponse} {individuals : List Individual} :
      Accessed rr rr₁ → rr₁.getIndvs = some (individuals, rr₂) → Accessed rr rr₂

/-- The data with an index give the individual `own`. -/
def DataAt (rr : RequestResponse) (idx : ℕ) (uri : String) (own : Individual) : Prop :=
  match rr.srcType with
  | .tt => ∃ record, rr.dataObjTt[idx]? = some record ∧ ttResordToMap uri record = some own
  | .lmdb => ∃ members, rr.dataBinobj[idx]? = some (.obj members) ∧ own = some members
  | .none => False

/-- The data of every uri are its own, and so are the individuals that have been made. -/
structure Filled (own : String → Individual) (uris : List String) (rr : RequestResponse) :
    Prop where
  uris_eq : rr.uris = uris
  data : ∀ (i : ℕ) uri, uris[i]? = some uri → rr.DataAt i uri (own uri)
  indv : rr.indv = [] ∨ rr.indv.length = uris.length ∧
    ∀ (i : ℕ) uri, uris[i]? = some uri → rr.indv[i]? = some none ∨ rr.indv[i]? = some (own uri)

section Filled

variable {own : String → Individual} {uris : List String} {rr : RequestResponse}

theorem Filled.makeIndv (h : Filled own uris rr) :
    Filled own uris rr.makeIndv ∧ rr.makeIndv.indv.length = uris.length ∧
      rr.makeIndv.srcType = rr.srcType := by
  unfold RequestResponse.makeIndv
  split_ifs with hlength
  · refine ⟨⟨h.uris_eq, h.data, .inr ⟨?_, fun i uri hi => .inl ?_⟩⟩, ?_, rfl⟩
    · rw [List.length_replicate, h.uris_eq]
    · rw [List.getElem?_replicate_of_lt]
      rw [h.uris_eq]
      exact (List.getElem?_eq_some_iff.mp hi).1
    · rw [List.length_replicate, h.uris_eq]
  · refine ⟨h, ?_, rfl⟩
    rcases h.indv with hnil | hmade
    · rw [hnil] at hlength
      exact absurd rfl hlength
    · exact hmade.1

theorem Filled.fill (h : Filled own uris rr) {i : ℕ} {uri : String} (hi : uris[i]? = some uri) :
    rr.fill i = some (some (rr.setIndv i (own uri))) := by
  have hdata := h.data i uri hi
  unfold DataAt at hdata
  unfold RequestResponse.fill
  cases hsrc : rr.srcType with
  | tt =>
    rw [hsrc] at hdata
    obtain ⟨record, hrecord, hown⟩ := hdata
    dsimp only
    rw [fillTT, h.uris_eq, hi, hrecord]
    dsimp only [Option.bind_eq_bind, Option.bind_some]
    rw [hown]
    rfl
  | lmdb =>
    rw [hsrc] at hdata
    obtain ⟨members, hmembers, hown⟩ := hdata
    dsimp only
    rw [hmembers, hown]
    rfl
  | none =>
    rw [hsrc] at hdata
    exact hdata.elim

theorem Filled.setIndv (h : Filled own uris rr) {i : ℕ} {uri : String} (hi : uris[i]? = some uri)
    (hlength : rr.indv.length = uris.length) :
    Filled own uris (rr.setIndv i (own uri)) ∧
      (rr.setIndv i (own uri)).indv[i]? = some (own uri) := by
  have hlt : i < rr.indv.length := hlength ▸ (List.getElem?_eq_some_iff.mp hi).1
  have hset : (rr.setIndv i (own uri)).indv[i]? = some (own uri) := by
    rw [RequestResponse.setIndv, List.getElem?_set_self hlt]
  refine ⟨⟨h.uris_eq, h.data, .inr ⟨?_, fun j uri' hj => ?_⟩⟩, hset⟩
  · rw [RequestResponse.setIndv, List.length_set, hlength]
  · by_cases hij : i = j
    · subst hij
      rw [hi] at hj
      cases hj
      exact .inr hset
    · rw [RequestResponse.setIndv, List.getElem?_set_ne hij]
      rcases h.indv with hnil | hmade
      · rw [hnil] at hlt
        cases hlt
      · exact hmade.2 j uri' hj

/-- Individuals that have been made stay. -/
def Stays (own : String → Individual) (uris : List String) (rr rr₁ : RequestResponse) : Prop :=
  ∀ (j : ℕ) uri, uris[j]? = some uri → rr.indv[j]? = some (own uri) →
    rr₁.indv[j]? = some (own uri)

/-- **The individual of a uri** is there after it was made. -/
theorem Filled.fillMissing (h : Filled own uris rr) (hlength : rr.indv.length = uris.length) {i : ℕ}
    {uri : String} (hi : uris[i]? = some uri) :
    ∃ rr₁, rr.fillMissing i = some (some rr₁) ∧ Filled own uris rr₁ ∧
      rr₁.indv.length = uris.length ∧ rr₁.indv[i]? = some (own uri) ∧ Stays own uris rr rr₁ := by
  have hlt : i < rr.indv.length := hlength ▸ (List.getElem?_eq_some_iff.mp hi).1
  have hfill := h.fill hi
  obtain ⟨hfilled, hset⟩ := h.setIndv hi hlength
  have hlength' : (rr.setIndv i (own uri)).indv.length = uris.length := by
    rw [RequestResponse.setIndv, List.length_set, hlength]
  have hstays : Stays own uris rr (rr.setIndv i (own uri)) := by
    intro j uri' hj hown
    by_cases hij : i = j
    · subst hij
      rw [hi] at hj
      cases hj
      exact hset
    · rwa [RequestResponse.setIndv, List.getElem?_set_ne hij]
  have hnew : rr.fill i = some (some (rr.setIndv i (own uri))) → ∃ rr₁,
      rr.fill i = some (some rr₁) ∧ Filled own uris rr₁ ∧ rr₁.indv.length = uris.length ∧
        rr₁.indv[i]? = some (own uri) ∧ Stays own uris rr rr₁ :=
    fun hfill => ⟨_, hfill, hfilled, hlength', hset, hstays⟩
  unfold RequestResponse.fillMissing
  rcases h.indv with hnil | hmade
  · rw [hnil] at hlt
    cases hlt
  rcases hmade.2 i uri hi with hnone | hown
  · rw [hnone]
    exact hnew hfill
  · rw [hown]
    cases hindividual : own uri with
    | none =>
      have hres := hnew hfill
      rw [hindividual] at hres
      exact hres
    | some members =>
      exact ⟨rr, rfl, h, hlength, hindividual ▸ hown, fun _ _ _ hown => hown⟩

theorem Filled.fillMissing_none (hlength : rr.indv.length = uris.length) {i : ℕ}
    (hi : uris[i]? = none) : rr.fillMissing i = none := by
  rw [List.getElem?_eq_none_iff, ← hlength, ← List.getElem?_eq_none_iff] at hi
  rw [RequestResponse.fillMissing, hi]
  rfl

theorem Filled.getJson (h : Filled own uris rr) {i : ℕ} {uri : String}
    (hi : uris[i]? = some uri) :
    ∃ rr₁, rr.getJson i = some (some (marshal (own uri)), rr₁) ∧ Filled own uris rr₁ := by
  obtain ⟨hmade, hlength, hsrc⟩ := h.makeIndv
  have hdata := h.data i uri hi
  unfold DataAt at hdata
  unfold RequestResponse.getJson
  cases hs : rr.srcType with
  | none =>
    rw [hs] at hdata
    exact hdata.elim
  | lmdb =>
    rw [hs] at hdata
    obtain ⟨members, hmembers, hown⟩ := hdata
    dsimp only
    rw [hmembers, hown]
    exact ⟨rr, rfl, h⟩
  | tt =>
    obtain ⟨rr₁, hfill, hfilled, -, hindv, -⟩ := hmade.fillMissing hlength hi
    dsimp only
    rw [hfill]
    dsimp only [Option.bind_eq_bind, Option.bind_some]
    rw [hindv]
    exact ⟨rr₁, rfl, hfilled⟩

theorem Filled.getIndv (h : Filled own uris rr) {i : ℕ} {uri : String}
    (hi : uris[i]? = some uri) :
    ∃ rr₁, rr.getIndv i = some (own uri, rr₁) ∧ Filled own uris rr₁ := by
  obtain ⟨hmade, hlength, hsrc⟩ := h.makeIndv
  obtain ⟨rr₁, hfill, hfilled, -, hindv, -⟩ := hmade.fillMissing hlength hi
  unfold RequestResponse.getIndv
  rw [hfill]
  dsimp only [Option.bind_eq_bind, Option.bind_some]
  rw [hindv]
  exact ⟨rr₁, rfl, hfilled⟩

theorem Filled.indvsLoop {left idx : ℕ} (h : Filled own uris rr)
    (hlength : rr.indv.length = uris.length) (hleft : idx + left = uris.length)
    (hmade : ∀ (j : ℕ) uri, j < idx → uris[j]? = some uri → rr.indv[j]? = some (own uri)) :
    ∃ indvs rr₁, indvsLoop left idx rr = some (indvs, rr₁) ∧ Filled own uris rr₁ ∧
      ∀ (j : ℕ) uri, uris[j]? = some uri → indvs[j]? = some (own uri) := by
  induction left generalizing idx rr with
  | zero =>
    refine ⟨rr.indv, rr, rfl, h, fun j uri hj => hmade j uri ?_ hj⟩
    have := (List.getElem?_eq_some_iff.mp hj).1
    omega
  | succ left ih =>
    obtain ⟨uri, hi⟩ : ∃ uri, uris[idx]? = some uri :=
      ⟨_, List.getElem?_eq_getElem (by omega)⟩
    obtain ⟨rr₁, hfill, hfilled, hlength', hindv, hstays⟩ := h.fillMissing hlength hi
    rw [RequestResponse.indvsLoop, hfill]
    refine ih hfilled hlength' (by omega) fun j uri' hj hj' => ?_
    rcases Nat.lt_succ_iff_lt_or_eq.mp hj with hlt | rfl
    · exact hstays j uri' hj' (hmade j uri' hlt hj')
    · rw [hi] at hj'
      cases hj'
      exact hindv

theorem Filled.getIndvs (h : Filled own uris rr) :
    ∃ indvs rr₁, rr.getIndvs = some (indvs, rr₁) ∧ Filled own uris rr₁ ∧
      ∀ (j : ℕ) uri, uris[j]? = some uri → indvs[j]? = some (own uri) := by
  obtain ⟨hmade, hlength, -⟩ := h.makeIndv
  rw [RequestResponse.getIndvs, h.uris_eq]
  exact hmade.indvsLoop hlength (Nat.zero_add _) fun _ _ hj => absurd hj (Nat.not_lt_zero _)

/-- **The accessors** keep what they have filled in. -/
theorem Filled.accessed (h : Filled own uris rr) {rr' : RequestResponse} (hrr : Accessed rr rr') :
    Filled own uris rr' := by
  induction hrr with
  | refl => exact h
  | @json rr₁ rr₂ idx text _ hget ih =>
    cases hi : uris[idx]? with
    | some uri =>
      obtain ⟨rr₃, hget', hfilled⟩ := ih.getJson hi
      rw [hget'] at hget
      cases hget
      exact hfilled
    | none =>
      unfold RequestResponse.getJson at hget
      split at hget
      · rw [Filled.fillMissing_none ih.makeIndv.2.1 hi] at hget
        cases hget
      · cases hdata : rr₁.dataBinobj[idx]? with
        | none =>
          rw [hdata] at hget
          cases hget
        | some data =>
          rw [hdata] at hget
          cases hget
          exact ih
      · cases hget
        exact ih
  | @indv rr₁ rr₂ idx individual _ hget ih =>
    cases hi : uris[idx]? with
    | some uri =>
      obtain ⟨rr₃, hget', hfilled⟩ := ih.getIndv hi
      rw [hget'] at hget
      cases hget
      exact hfilled
    | none =>
      rw [RequestResponse.getIndv, Filled.fillMissing_none ih.makeIndv.2.1 hi] at hget
      cases hget
  | indvs _ hget ih =>
    obtain ⟨individuals, rr₃, hget', hfilled, -⟩ := ih.getIndvs
    rw [hget'] at hget
    cases hget
    exact hfilled

end Filled

/-! ## An answer with too few data -/

/-- The number of the data. -/
def dataCount (rr : RequestResponse) : ℕ :=
  match rr.srcType with
  | .tt => rr.dataObjTt.length
  | .lmdb => rr.dataBinobj.length
  | .none => 0

theorem fill_some {rr rr₁ : RequestResponse} {idx : ℕ} (hsrc : rr.srcType ≠ .none)
    (h : rr.fill idx = some (some rr₁)) :
    idx < rr.dataCount ∧ ∃ individual, rr₁ = rr.setIndv idx individual := by
  unfold RequestResponse.fill at h
  unfold dataCount
  cases hs : rr.srcType with
  | none => exact absurd hs hsrc
  | tt =>
    rw [hs] at h
    dsimp only at h ⊢
    obtain ⟨rr₂, hfill, hrr⟩ := Option.map_eq_some_iff.mp h
    obtain ⟨uri, -, hfill⟩ := Option.bind_eq_some_iff.mp hfill
    obtain ⟨record, hrecord, hfill⟩ := Option.bind_eq_some_iff.mp hfill
    obtain ⟨individual, -, hfill⟩ := Option.bind_eq_some_iff.mp hfill
    cases hrr
    cases hfill
    exact ⟨(List.getElem?_eq_some_iff.mp hrecord).1, individual, rfl⟩
  | lmdb =>
    rw [hs] at h
    dsimp only at h ⊢
    obtain ⟨data, hdata, hfill⟩ := Option.bind_eq_some_iff.mp h
    refine ⟨(List.getElem?_eq_some_iff.mp hdata).1, ?_⟩
    cases data <;> cases hfill <;> exact ⟨_, rfl⟩

/-- **The list of all individuals** has an element only when there are data for every uri. -/
theorem lt_dataCount_of_indvsLoop {left idx : ℕ} {rr rr₁ : RequestResponse}
    {indvs : List Individual} (hsrc : rr.srcType ≠ .none)
    (hnew : ∀ (j : ℕ) members, idx ≤ j → rr.indv[j]? ≠ some (some members))
    (h : indvsLoop left idx rr = some (indvs, rr₁)) (hne : indvs ≠ []) :
    ∀ j, idx ≤ j → j < idx + left → j < rr.dataCount := by
  induction left generalizing idx rr with
  | zero =>
    intro j hle hlt
    omega
  | succ left ih =>
    rw [indvsLoop] at h
    obtain ⟨filled, hfill, h⟩ := Option.bind_eq_some_iff.mp h
    unfold RequestResponse.fillMissing at hfill
    obtain ⟨individual, hindv, hfill⟩ := Option.bind_eq_some_iff.mp hfill
    cases individual with
    | some members => exact absurd hindv (hnew idx members (Nat.le_refl idx))
    | none =>
      cases filled with
      | none =>
        cases h
        exact absurd rfl hne
      | some rr₂ =>
        obtain ⟨hlt, individual, rfl⟩ := fill_some hsrc hfill
        have hnew' : ∀ (j : ℕ) members, idx + 1 ≤ j →
            (rr.setIndv idx individual).indv[j]? ≠ some (some members) := fun j members hj => by
          rw [RequestResponse.setIndv, List.getElem?_set_ne (by omega)]
          exact hnew j members (by omega)
        have hsrc' : (rr.setIndv idx individual).srcType ≠ .none := hsrc
        have hrest := ih hsrc' hnew' h
        intro j hle hlt'
        rcases Nat.eq_or_lt_of_le hle with rfl | hle
        · exact hlt
        · exact hrest j hle (by omega)

end RequestResponse

/-! ## The data of the uris -/

namespace Connector

variable (conn : Connector) (req : Request)

/-- The record of a uri in the first storage. -/
def recordAt (select : String → Option (List GoValue)) (uri : String) : Option Record :=
  match select uri with
  | some (.slice [_, .map record] :: _) => some record
  | _ => none

/-- The object of a uri in the second storage. -/
def objectAt (uri : String) : Option (List (String × Json)) :=
  match conn.lmdb uri with
  | .json (.obj members) => some members
  | _ => none

/-- The individual of a uri, made of its own data. -/
def ownIndividual (uri : String) : Option Individual :=
  match conn.ttClient with
  | some select => (recordAt select uri).bind (ttResordToMap uri)
  | none => (conn.objectAt uri).map some

def found (uri : String) : Bool :=
  match conn.ttClient with
  | some select => (recordAt select uri).isSome
  | none => (conn.objectAt uri).isSome

/-- The individual is found, and the user may read it. -/
def readable (uri : String) : Bool := conn.found uri && conn.allowed req uri

/-- The storage answers for the uri: the individual is absent, or there is one tuple or object. -/
def Answered (uri : String) : Prop :=
  match conn.ttClient with
  | some select => select uri = some [] ∨ ∃ id record, select uri = some [.slice [id, .map record]]
  | none => conn.lmdb uri = .json (.arr []) ∨ ∃ members, conn.lmdb uri = .json (.obj members)

/-- The return code of a uri. -/
def codeOf (uri : String) : ResultCode :=
  if conn.found uri then if conn.allowed req uri then .ok else .notAuthorized else .notFound

/-- **Own data**: the request is answered, and whichever accessors are called then, each gives for
an index with the code `Ok` the individual of the uri with this index. -/
def AnswersOwn (uris : List String) : Prop :=
  ∃ rr, conn.get req uris = some rr ∧ ∀ rr', rr.Accessed rr' →
    ∀ (i : ℕ) uri, uris[i]? = some uri → rr.opRC[i]? = some .ok →
      ∃ own, conn.ownIndividual uri = some own ∧
        (∃ rr₁, rr'.getJson i = some (some (marshal own), rr₁)) ∧
        (∃ rr₁, rr'.getIndv i = some (own, rr₁)) ∧
        ∃ indvs rr₁, rr'.getIndvs = some (indvs, rr₁) ∧ indvs[i]? = some own

theorem ttLoop_eq {select : String → Option (List GoValue)} (hconn : conn.ttClient = some select)
    {uris : List String} (h : ∀ uri ∈ uris, conn.Answered uri) (rr : RequestResponse) :
    conn.ttLoop req select uris rr = some { rr with
      commonRC := .ok
      opRC := rr.opRC ++ uris.map (conn.codeOf req)
      dataObjTt := rr.dataObjTt ++ (uris.filter (conn.readable req)).filterMap (recordAt select)
      srcType := if uris.filter (conn.readable req) = [] then rr.srcType else .tt } := by
  induction uris generalizing rr with
  | nil => simp [ttLoop]
  | cons uri uris ih =>
    have huri := h uri List.mem_cons_self
    rw [Answered, hconn] at huri
    have ih := ih fun uri' h' => h uri' (List.mem_cons_of_mem _ h')
    rw [ttLoop, ttStep]
    rcases huri with hnone | ⟨id, record, hrecord⟩
    · have hfound : conn.found uri = false := by
        rw [found, hconn]
        dsimp only
        rw [recordAt, hnone]
        rfl
      rw [hnone]
      dsimp only [Option.bind_eq_bind, Option.bind_some]
      rw [ih, List.filter_cons_of_neg (by simp [readable, hfound])]
      simp [RequestResponse.addCode, codeOf, hfound]
    · have hat : recordAt select uri = some record := by
        rw [recordAt, hrecord]
      have hfound : conn.found uri = true := by
        rw [found, hconn]
        dsimp only
        rw [hat]
        rfl
      rw [hrecord]
      dsimp only
      by_cases hallowed : conn.allowed req uri
      · rw [if_pos hallowed]
        dsimp only [Option.bind_eq_bind, Option.bind_some]
        rw [ih, List.filter_cons_of_pos (by simp [readable, hfound, hallowed])]
        simp [RequestResponse.addCode, RequestResponse.addTTResult, codeOf, hfound, hallowed, hat]
      · rw [if_neg hallowed]
        dsimp only [Option.bind_eq_bind, Option.bind_some]
        rw [ih, List.filter_cons_of_neg (by simp [readable, hallowed])]
        simp [RequestResponse.addCode, codeOf, hfound, hallowed]

theorem lmdbLoop_eq (hconn : conn.ttClient = none) {uris : List String}
    (h : ∀ uri ∈ uris, conn.Answered uri) (rr : RequestResponse) :
    conn.lmdbLoop req uris rr = { rr with
      commonRC := .ok
      opRC := rr.opRC ++ uris.map (conn.codeOf req)
      dataBinobj := rr.dataBinobj ++
        (uris.filter (conn.readable req)).filterMap fun uri => (conn.objectAt uri).map .obj
      srcType := if uris.filter (conn.readable req) = [] then rr.srcType else .lmdb } := by
  induction uris generalizing rr with
  | nil => simp [lmdbLoop]
  | cons uri uris ih =>
    have huri := h uri List.mem_cons_self
    rw [Answered, hconn] at huri
    have ih := ih fun uri' h' => h uri' (List.mem_cons_of_mem _ h')
    rw [lmdbLoop]
    rcases huri with hnone | ⟨members, hmembers⟩
    · have hfound : conn.found uri = false := by
        rw [found, hconn]
        dsimp only
        rw [objectAt, hnone]
        rfl
      rw [hnone]
      dsimp only
      rw [ih, List.filter_cons_of_neg (by simp [readable, hfound])]
      simp [RequestResponse.addCode, codeOf, hfound]
    · have hat : conn.objectAt uri = some members := by
        rw [objectAt, hmembers]
      have hfound : conn.found uri = true := by
        rw [found, hconn]
        dsimp only
        rw [hat]
        rfl
      rw [hmembers]
      dsimp only
      by_cases hallowed : conn.allowed req uri
      · rw [if_pos hallowed, ih, List.filter_cons_of_pos (by simp [readable, hfound, hallowed])]
        simp [RequestResponse.addCode, RequestResponse.addLMDBResult, codeOf, hfound, hallowed, hat]
      · rw [if_neg hallowed, ih, List.filter_cons_of_neg (by simp [readable, hallowed])]
        simp [RequestResponse.addCode, codeOf, hfound, hallowed]

/-- The answer for some uris of which none is missing. -/
structure Gives (uris : List String) (rr : RequestResponse) : Prop where
  opRC : rr.opRC = uris.map (conn.codeOf req)
  indv : rr.indv = []
  uris_eq : rr.uris = uris
  src : (∃ uri ∈ uris, conn.readable req uri = true) → rr.srcType ≠ .none
  count : rr.dataCount = (uris.filter (conn.readable req)).length
  data : (∀ uri ∈ uris, conn.readable req uri = true) → ∀ (i : ℕ) uri own, uris[i]? = some uri →
    conn.ownIndividual uri = some own → rr.DataAt i uri own

theorem getElem?_filterMap_of_isSome {α β : Type} {l : List α} {f : α → Option β}
    (h : ∀ a ∈ l, (f a).isSome = true) (i : ℕ) :
    (l.filterMap f)[i]? = l[i]?.bind f := by
  induction l generalizing i with
  | nil => rfl
  | cons a l ih =>
    obtain ⟨b, hb⟩ := Option.isSome_iff_exists.mp (h a List.mem_cons_self)
    rw [List.filterMap_cons_some hb]
    cases i with
    | zero => exact hb.symm
    | succ i => exact ih (fun a' ha' => h a' (List.mem_cons_of_mem _ ha')) i

/-- **The answer** to a request of a user for some uris. -/
theorem get_gives {uris : List String} (huser : ¬ req.userUri.utf8ByteSize < 3) (hne : uris ≠ [])
    (h : ∀ uri ∈ uris, conn.Answered uri) :
    ∃ rr, conn.get req uris = some rr ∧ conn.Gives req uris rr := by
  have hlength : ¬ uris.length = 0 := fun h => hne (List.length_eq_zero_iff.mp h)
  have hfound : ∀ uri ∈ uris.filter (conn.readable req), conn.found uri = true := fun uri huri =>
    (Bool.and_eq_true_iff.mp (List.mem_filter.mp huri).2).1
  have hsome : (∃ uri ∈ uris, conn.readable req uri = true) →
      uris.filter (conn.readable req) ≠ [] := by
    rintro ⟨uri, huri, hreadable⟩ hnil
    exact List.not_mem_nil (hnil ▸ List.mem_filter.mpr ⟨huri, hreadable⟩)
  have hall : (∀ uri ∈ uris, conn.readable req uri = true) →
      uris.filter (conn.readable req) = uris := List.filter_eq_self.mpr
  unfold get
  rw [if_neg huser, if_neg hlength]
  unfold found at hfound
  cases hconn : conn.ttClient with
  | some select =>
    simp only [hconn] at hfound
    refine ⟨_, conn.ttLoop_eq req hconn h _, rfl, rfl, rfl, fun hex => ?_, ?_, ?_⟩
    · rw [if_neg (hsome hex)]
      show SrcType.tt ≠ .none
      decide
    · unfold RequestResponse.dataCount
      dsimp only [RequestResponse.empty]
      by_cases hnil : uris.filter (conn.readable req) = []
      · rw [if_pos hnil, hnil]
        rfl
      · rw [if_neg hnil, List.nil_append, List.filterMap_length_eq_length]
        exact hfound
    · intro hreadable i uri own hi hown
      rw [hall hreadable] at hfound ⊢
      unfold RequestResponse.DataAt
      rw [if_neg hne]
      rw [ownIndividual, hconn] at hown
      obtain ⟨record, hrecord, hown⟩ := Option.bind_eq_some_iff.mp hown
      refine ⟨record, ?_, hown⟩
      show ([] ++ uris.filterMap (recordAt select))[i]? = _
      rw [List.nil_append, getElem?_filterMap_of_isSome hfound, hi]
      exact hrecord
  | none =>
    simp only [hconn] at hfound
    have hobjects : ∀ uri ∈ uris.filter (conn.readable req),
        ((conn.objectAt uri).map Json.obj).isSome = true := fun uri huri => by
      rw [Option.isSome_map]
      exact hfound uri huri
    refine ⟨_, congrArg some (conn.lmdbLoop_eq req hconn h _), rfl, rfl, rfl, fun hex => ?_, ?_, ?_⟩
    · rw [if_neg (hsome hex)]
      show SrcType.lmdb ≠ .none
      decide
    · unfold RequestResponse.dataCount
      dsimp only [RequestResponse.empty]
      by_cases hnil : uris.filter (conn.readable req) = []
      · rw [if_pos hnil, hnil]
        rfl
      · rw [if_neg hnil, List.nil_append, List.filterMap_length_eq_length]
        exact hobjects
    · intro hreadable i uri own hi hown
      rw [hall hreadable] at hobjects ⊢
      unfold RequestResponse.DataAt
      rw [if_neg hne]
      rw [ownIndividual, hconn] at hown
      obtain ⟨members, hmembers, rfl⟩ := Option.map_eq_some_iff.mp hown
      refine ⟨members, ?_, rfl⟩
      show ([] ++ uris.filterMap fun uri => (conn.objectAt uri).map Json.obj)[i]? = _
      rw [List.nil_append, getElem?_filterMap_of_isSome hobjects, hi]
      exact congrArg (Option.map Json.obj) hmembers

theorem codeOf_eq_ok (uri : String) : conn.codeOf req uri = .ok ↔ conn.readable req uri = true := by
  unfold codeOf readable
  cases conn.found uri <;> cases conn.allowed req uri <;> decide

theorem Gives.opRC_eq_ok {uris : List String} {rr : RequestResponse} (h : conn.Gives req uris rr)
    {i : ℕ} {uri : String} (hi : uris[i]? = some uri) :
    rr.opRC[i]? = some .ok ↔ conn.readable req uri = true := by
  rw [h.opRC, List.getElem?_map, hi, Option.map_some, Option.some_inj, codeOf_eq_ok]

theorem Gives.all_readable {uris : List String} {rr rr₁ : RequestResponse}
    (h : conn.Gives req uris rr) (hex : ∃ uri ∈ uris, conn.readable req uri = true)
    {indvs : List Individual} (hindvs : rr.getIndvs = some (indvs, rr₁)) (hne : indvs ≠ []) :
    ∀ uri ∈ uris, conn.readable req uri = true := by
  have hmade : rr.makeIndv = { rr with indv := List.replicate rr.uris.length none } := by
    rw [RequestResponse.makeIndv, if_pos (List.length_eq_zero_iff.mpr h.indv)]
  have hnew : ∀ (j : ℕ) members, 0 ≤ j → rr.makeIndv.indv[j]? ≠ some (some members) := by
    intro j members _ hj
    rw [hmade] at hj
    cases List.eq_of_mem_replicate (List.mem_of_getElem? hj)
  have hsrc : rr.makeIndv.srcType ≠ .none := by
    rw [hmade]
    exact h.src hex
  have hcount : rr.makeIndv.dataCount = (uris.filter (conn.readable req)).length := by
    rw [hmade]
    exact h.count
  rw [RequestResponse.getIndvs, h.uris_eq] at hindvs
  have hlt := RequestResponse.lt_dataCount_of_indvsLoop hsrc hnew hindvs hne
  rw [hcount] at hlt
  have hle := List.length_filter_le (conn.readable req) uris
  have hlength : (uris.filter (conn.readable req)).length = uris.length := by
    by_contra hshort
    exact absurd (hlt _ (Nat.zero_le _) (by omega)) (Nat.lt_irrefl _)
  exact List.length_filter_eq_length_iff.mp hlength

/-- A second storage with two individuals. -/
def twoObjects : Connector where
  ttClient := none
  lmdb uri :=
    if uri = "d:1" then .json (.obj [("@", .str "d:1")])
    else if uri = "d:2" then .json (.obj [("@", .str "d:2")])
    else .json (.arr [])
  authorizeR _ _ _ _ := 2

/-- A request without authorization. -/
def plainRequest : Request := ⟨false, "cfg:VedaSystem", false⟩

theorem answered_twoObjects (uri : String) : twoObjects.Answered uri := by
  show twoObjects.lmdb uri = _ ∨ ∃ members, twoObjects.lmdb uri = _
  unfold twoObjects
  dsimp only
  split_ifs
  · exact .inr ⟨_, rfl⟩
  · exact .inr ⟨_, rfl⟩
  · exact .inl rfl

end Connector

end Veda.GoWebserver
