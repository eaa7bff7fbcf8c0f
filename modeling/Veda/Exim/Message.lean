import Veda.Mstorage.Operation
import Veda.Onto.Json
import Veda.Onto.Opened

set_option autoImplicit false

/-!
# Messages between nodes

The messages with which a node exports its changes, after `exim.rs`: an element of the export queue
becomes a message for a node, the message becomes a text, the other node reads the text and sends
the change to its storage.

## Main definitions

* `Exim.createExportMessage` — the message of an element of the queue.
* `Exim.encodeMessage`, `Exim.decodeMessage` — the message as JSON.
* `Exim.processingImportedMessage` — what a node does with a message.

## Design

An element of the queue and a message that was received are records that getters decode on demand; a
message that is created has no record. Base64 is that of a library and is given by `Base64`. What
the storage answers to an update is a parameter, and the calls are a part of the answer. The ticket
of the call and the log are left out.
-/

namespace Veda.Exim

open Veda.Lib Veda.Onto Veda.Mstorage

/-- `encode` and `decode` of the library for base64. -/
structure Base64 where
  encode : List UInt8 → String
  decode : String → Option (List UInt8)

inductive ExImCode
  | unknown | ok | invalidMessage | invalidCmd | invalidTarget | failUpdate | transmitFailed
  | sendFailed | receiveFailed
  deriving DecidableEq, Repr

/-! ## Programs that read an individual -/

/-- A program that reads an individual, which may decode more of it. -/
abbrev Reading (α : Type) := EStateM Stop Individual α

/-- `parse_raw(..).is_ok()`. -/
def parsing (cbor : CborParser) : Reading Bool := fun iraw =>
  match iraw.parseRaw cbor with
  | (.ok (), iraw) => .ok true iraw
  | (.error _, iraw) => .ok false iraw

/-- A getter. -/
def getting {ρ : Type} (cbor : CborParser) (g : Getter ρ) (predicate : String) : Reading ρ :=
  fun iraw =>
    match iraw.get cbor g predicate with
    | (.ok answer, iraw) => .ok answer iraw
    | (.error p, iraw) => .error (.panic p) iraw

/-- The individual of a record, decoded with `parse_raw` and `parse_all`; `none` when the header
cannot be read. -/
def stateOf (cbor : CborParser) (fuel : ℕ) (bytes : List UInt8) : Reading (Option IndividualObj) :=
  fun iraw =>
    match (Individual.newRaw (.new bytes)).parseRaw cbor with
    | (.error _, _) => .ok none iraw
    | (.ok (), indv) =>
      match indv.parseAll cbor fuel with
      | some indv => .ok (some indv.obj) iraw
      | none => .error .outOfFuel iraw

/-! ## The messages -/

/-- The message about a state. -/
def exportMessage (indv : IndividualObj) (raw : List UInt8) (cmd : IndvOp) (date : Int64)
    (sourceVeda targetVeda : String) : IndividualObj :=
  let newIndv : IndividualObj := { IndividualObj.empty with uri := indv.uri }
  let newIndv := newIndv.addUri "uri" indv.uri
  let newIndv := newIndv.addBinary "new_state" raw
  let newIndv := newIndv.addInteger "cmd" cmd.toI64
  let newIndv := newIndv.addInteger "date" date
  let newIndv := newIndv.addString "source_veda" sourceVeda .none
  newIndv.addString "target_veda" targetVeda .none

/-- The message of an element of the queue, for a node. The code `ok` stands for an element of
another node. -/
def createExportMessage (cbor : CborParser) (fuel : ℕ) (order : IterOrder String)
    (nodeId : String) : Reading (Except ExImCode IndividualObj) := do
  if !(← parsing cbor) then return .error .invalidMessage
  else
    let some targetVeda ← getting cbor .getFirstLiteral "target_veda" |
      return .error .invalidMessage
    if targetVeda ≠ "*" ∧ targetVeda ≠ nodeId then return .error .ok
    else
      let some wcmd ← getting cbor .getFirstInteger "cmd" | return .error .invalidMessage
      let cmd := IndvOp.fromI64 wcmd
      let newState ← getting cbor .getFirstBinobj "new_state"
      if cmd ≠ .remove ∧ newState = none then return .error .invalidMessage
      else
        let some sourceVeda ← getting cbor .getFirstLiteral "source_veda" |
          return .error .invalidMessage
        let some date ← getting cbor .getFirstInteger "date" | return .error .invalidMessage
        let some indv ← stateOf cbor fuel (newState.getD []) | return .error .invalidMessage
        return .ok (exportMessage indv (toMsgpack order indv) cmd date sourceVeda targetVeda)

def encodeMessage (codec : Base64) (order : IterOrder String) (outObj : IndividualObj) : Json :=
  .obj [("msg", .str (codec.encode (toMsgpack order outObj)))]

/-- The message that is received, with its header read; `none` when it cannot be read. -/
def decodeMessage (cbor : CborParser) (codec : Base64) : Json → Option Individual
  | .obj props => do
    let msg ← props.lookup "msg"
    let m ← msg.asStr
    let data ← codec.decode m
    match (Individual.newRaw (.new data)).parseRaw cbor with
    | (.ok (), recvIndv) => some recvIndv
    | (.error _, _) => none
  | _ => none

structure IOResult where
  id : String
  resCode : ExImCode
  deriving DecidableEq

/-- The answer to a message, with the updates that were sent to the storage. -/
def answering (resCode : ExImCode) (updates : List (IndvOp × IndividualObj)) :
    Reading (IOResult × List (IndvOp × IndividualObj)) := do
  return (⟨(← get).obj.uri, resCode⟩, updates)

/-- What a node does with a message; `update` is what the storage answers. -/
def processingImportedMessage (cbor : CborParser) (fuel : ℕ) (myNodeId : String)
    (update : IndvOp → IndividualObj → ResultCode) :
    Reading (IOResult × List (IndvOp × IndividualObj)) := do
  let some wcmd ← getting cbor .getFirstInteger "cmd" | answering .invalidCmd []
  let cmd := IndvOp.fromI64 wcmd
  let some sourceVeda ← getting cbor .getFirstLiteral "source_veda" | answering .invalidTarget []
  if (utf8 sourceVeda).length < 32 then answering .invalidTarget []
  else
    let some targetVeda ← getting cbor .getFirstLiteral "target_veda" |
      answering .invalidTarget []
    if targetVeda ≠ "*" ∧ myNodeId ≠ targetVeda then answering .invalidTarget []
    else
      let newState ← getting cbor .getFirstBinobj "new_state"
      if cmd ≠ .remove ∧ newState.isSome then
        let some indv ← stateOf cbor fuel (newState.getD []) | answering .failUpdate []
        let indv := indv.addUri "sys:source" sourceVeda
        if update cmd indv ≠ .ok then answering .failUpdate [(cmd, indv)]
        else answering .ok [(cmd, indv)]
      else answering .failUpdate []

end Veda.Exim
