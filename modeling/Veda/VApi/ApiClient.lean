import Veda.Mstorage.Operation
import Veda.Onto.Json

set_option autoImplicit false

/-!
# The client of the main storage

An update of one individual is sent to the main storage as a text, and the result code is read from
the text that comes back. The code of an answer is a number, and one that is not known is read as
`Zero`.

## Main definitions

* `VApi.ResultCode` — result codes, with `toI64` and `fromI64`.
* `VApi.Exchange` — what becomes of a request.
* `VApi.updateWithEvent` — the result code of a request.
* `VApi.SaysOk` — an answer with the code `Ok`.

## Main results

* `VApi.saysOk_of_updateWithEvent` — the result `Ok` is that of an answer.
* `VApi.updateWithEvent_opResult` — the answer of an operation is read as its code.
-/

namespace Veda.VApi

open Veda.Onto

/-! ## Result codes -/

inductive ResultCode
  | zero | ok | created | noContent | badRequest | forbidden | notFound | unprocessableEntity
  | locked | tooManyRequests | tooManyRequestsChangePassword | changePasswordForbidden
  | secretExpired | emptyPassword | newPasswordIsEqualToOld | invalidPassword | invalidSecret
  | passwordExpired | ticketNotFound | ticketExpired | notAuthorized | authenticationFailed
  | notReady | failOpenTransaction | failCommit | failStore | internalServerError | notImplemented
  | serviceUnavailable | invalidIdentifier | databaseModifiedError | diskFull | duplicateKey
  | sizeTooLarge | connectError
  deriving DecidableEq, Repr

namespace ResultCode

/-- The number of a code. -/
def toI64 : ResultCode → Int64
  | zero => 0
  | ok => 200
  | created => 201
  | noContent => 204
  | badRequest => 400
  | forbidden => 403
  | notFound => 404
  | unprocessableEntity => 422
  | locked => 423
  | tooManyRequests => 429
  | tooManyRequestsChangePassword => 430
  | changePasswordForbidden => 463
  | secretExpired => 464
  | emptyPassword => 465
  | newPasswordIsEqualToOld => 466
  | invalidPassword => 467
  | invalidSecret => 468
  | passwordExpired => 469
  | ticketNotFound => 470
  | ticketExpired => 471
  | notAuthorized => 472
  | authenticationFailed => 473
  | notReady => 474
  | failOpenTransaction => 475
  | failCommit => 476
  | failStore => 477
  | internalServerError => 500
  | notImplemented => 501
  | serviceUnavailable => 503
  | invalidIdentifier => 904
  | databaseModifiedError => 999
  | diskFull => 1021
  | duplicateKey => 1022
  | sizeTooLarge => 1118
  | connectError => 4000

/-- The codes that `from_i64` knows. -/
def known : List ResultCode :=
  [zero, ok, created, noContent, badRequest, forbidden, notFound, unprocessableEntity,
    tooManyRequests, secretExpired, emptyPassword, newPasswordIsEqualToOld, invalidPassword,
    invalidSecret, passwordExpired, ticketNotFound, ticketExpired, notAuthorized,
    authenticationFailed, notReady, failOpenTransaction, failCommit, failStore,
    internalServerError, notImplemented, serviceUnavailable, invalidIdentifier,
    databaseModifiedError, diskFull, duplicateKey, sizeTooLarge, connectError]

/-- The code of a number. -/
def fromI64 (value : Int64) : ResultCode :=
  (known.find? fun code => code.toI64 = value).getD zero

theorem fromI64_eq_ok_iff {value : Int64} : fromI64 value = ok ↔ value = 200 := by
  constructor
  · intro h
    unfold fromI64 at h
    cases hfind : known.find? fun code => code.toI64 = value with
    | none =>
      rw [hfind] at h
      cases h
    | some code =>
      rw [hfind] at h
      have hcode : code = ok := h
      have hvalue := List.find?_some hfind
      rw [decide_eq_true_eq] at hvalue
      rw [← hvalue, hcode]
      rfl
  · rintro rfl
    decide

/-- The code of an operation of the main storage. -/
def ofStorage : Mstorage.ResultCode → ResultCode
  | .ok => ok
  | .noContent => noContent
  | .notAuthorized => notAuthorized
  | .failStore => failStore
  | .invalidIdentifier => invalidIdentifier

end ResultCode

/-! ## Requests -/

/-- A member of a value, `null` when it has none. -/
def member (j : Json) (key : String) : Json :=
  match j with
  | .obj members => (members.lookup key).getD .null
  | _ => .null

/-- What becomes of a request. -/
inductive Exchange
  /-- there is no connection, or the request is not sent, or nothing is received -/
  | notReady
  /-- the text that is received, `none` when it is not JSON -/
  | received (reply : Option Json)

/-- The result code of the only element of `data`. -/
def codeOfData : List Json → ResultCode
  | [el] =>
    match (member el "result").asI64, (member el "op_id").asI64 with
    | some res, some _ => .fromI64 res
    | _, _ => .badRequest
  | _ => .badRequest

/-- The result code of an answer. -/
def codeOfReply (json : Json) : ResultCode :=
  match (member json "type").asStr with
  | some t =>
    if t ≠ "OpResult" then .badRequest
    else
      match member json "data" with
      | .arr data => codeOfData data
      | _ =>
        match (member json "result").asI64 with
        | some res => .fromI64 res
        | none => .badRequest
  | none => .badRequest

/-- The result of `update_with_event`. -/
def updateWithEvent : Exchange → ResultCode
  | .notReady => .notReady
  | .received none => .badRequest
  | .received (some json) => codeOfReply json

/-! ## Answers -/

/-- An answer with the code `Ok`: that of its only result, or its own. -/
def SaysOk : Exchange → Prop
  | .received (some json) =>
    (∃ el, member json "data" = .arr [el] ∧ (member el "result").asI64 = some 200) ∨
      (member json "result").asI64 = some 200
  | _ => False

theorem saysOk_of_updateWithEvent {exchange : Exchange} (h : updateWithEvent exchange = .ok) :
    SaysOk exchange := by
  unfold updateWithEvent at h
  split at h
  · cases h
  · cases h
  · rename_i json
    unfold codeOfReply at h
    split at h
    · split_ifs at h
      split at h
      · rename_i data hdata
        unfold codeOfData at h
        split at h
        · rename_i el
          split at h
          · rename_i res opId hres hop
            exact .inl ⟨el, hdata, hres.trans (congrArg some (ResultCode.fromI64_eq_ok_iff.mp h))⟩
          · cases h
        · cases h
      · split at h
        · rename_i res hres
          exact .inr (hres.trans (congrArg some (ResultCode.fromI64_eq_ok_iff.mp h)))
        · cases h
    · cases h

/-- The answer to a request with one individual. -/
def opResult (resp : Mstorage.Response) : Json :=
  .obj [("type", .str "OpResult"), ("data", .arr [.obj
    [("result", .int (ResultCode.ofStorage resp.res).toI64.toInt),
      ("op_id", .int resp.opId.toInt)]])]

/-- **The answer of an operation** is read as its code. -/
theorem updateWithEvent_opResult (resp : Mstorage.Response) :
    updateWithEvent (.received (some (opResult resp))) = .ofStorage resp.res := by
  have hasI64 : ∀ i : Int64, (Json.int i.toInt).asI64 = some i := by
    intro i
    have hlow := i.le_toInt
    have hhigh := i.toInt_lt
    rw [Json.asI64, if_pos ⟨hlow, by omega⟩, Int64.ofInt_toInt]
  have hcode : updateWithEvent (.received (some (opResult resp))) =
      match (Json.int (ResultCode.ofStorage resp.res).toI64.toInt).asI64,
        (Json.int resp.opId.toInt).asI64 with
      | some res, some _ => .fromI64 res
      | _, _ => .badRequest := rfl
  rw [hcode, hasI64, hasI64]
  dsimp only
  cases resp.res <;> decide

end Veda.VApi
