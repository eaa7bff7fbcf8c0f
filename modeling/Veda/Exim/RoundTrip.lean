import Veda.Exim.Message
import Veda.Lib.Base64
import Veda.Lib.Effects
import Veda.Onto.Contents

set_option autoImplicit false

/-!
# From one node to another

An element of the export queue goes to another node as a message. A change with a state arrives: the
other node sends the same command for the same individual to its storage. A removal does not.
Without a state no message is created, because the record without bytes cannot be read; and with a
state the other node answers that the update failed, and sends nothing.

## Main definitions

* `Exim.ExportElement` — the elements that are well-formed.
* `Exim.Arrives` — an element is exported, read and imported.

## Main results

* `Exim.ExportElement.create` — the message of an element.
* `Exim.decodeMessage_encodeMessage` — a message is read as it was written.
* `Exim.arrives_iff` — an element arrives exactly when it is not a removal.
-/

namespace Veda.Exim

open Veda.Lib Veda.Onto Veda.Mstorage

/-! ## Well-formed elements -/

/-- The commands that are exported. -/
def exported : List IndvOp := [.put, .addTo, .setIn, .removeFrom, .remove]

/-- A well-formed element of the export queue: its command, the nodes, the date and the state, which
may be missing when the command is to remove the individual. -/
structure ExportElement (e : IndividualObj) (cmd : IndvOp) (sourceVeda targetVeda : String)
    (date : Int64) (state : Option IndividualObj) : Prop where
  fits : e.AllFit
  wellFormed : e.WellFormed
  cmd_mem : cmd ∈ exported
  cmd_eq : FirstIs e "cmd" (.int cmd.toI64)
  source_eq : FirstLiteral e "source_veda" sourceVeda
  target_eq : FirstLiteral e "target_veda" targetVeda
  date_eq : FirstIs e "date" (.int date)
  state_some : ∀ st, state = some st →
    st.AllFit ∧ st.WellFormed ∧ ∃ π, FirstIs e "new_state" (.binary (toMsgpack π st))
  state_none : state = none → cmd = .remove ∧ e.resources.lookup "new_state" = none

/-- The element is for the node. -/
def Addressed (targetVeda nodeId : String) : Prop := targetVeda = "*" ∨ targetVeda = nodeId

instance (targetVeda nodeId : String) : Decidable (Addressed targetVeda nodeId) :=
  inferInstanceAs (Decidable (_ ∨ _))

/-! ## Steps of the programs -/

section Steps

variable {cbor : CborParser} {π : IterOrder String} {obj : IndividualObj} {iraw : Individual}

theorem getting_opened (h : Opened π obj iraw) (hfits : obj.AllFit) (cbor : CborParser) {ρ : Type}
    {g : Getter ρ} {p : String} {answer : ρ} (hread : (decoded π obj).read g p = .ok answer) :
    ∃ iraw', getting cbor g p iraw = .ok answer iraw' ∧ Opened π obj iraw' := by
  obtain ⟨iraw', hget, hopened⟩ := h.get hfits cbor g p
  refine ⟨iraw', ?_, hopened⟩
  rw [getting, hget, hread]

theorem parsing_stored (hfits : obj.AllFit) (cbor : CborParser) (π : IterOrder String) :
    ∃ start, parsing cbor (recordOf π obj) = .ok true start ∧ Opened π obj start := by
  obtain ⟨start, hstart, hopened⟩ := opened_of_parseRaw hfits cbor π
  refine ⟨start, ?_, hopened⟩
  rw [parsing, hstart]

theorem stateOf_stored (hfits : obj.AllFit) (cbor : CborParser) (π : IterOrder String) :
    ∃ enough, ∀ fuel,
      (∀ iraw, stateOf cbor fuel (toMsgpack π obj) iraw = .ok (some (decoded π obj)) iraw) ∨
      fuel < enough ∧
        ∀ iraw, stateOf cbor fuel (toMsgpack π obj) iraw = .error .outOfFuel iraw := by
  obtain ⟨start, hstart, ⟨enough, full, hfull⟩, hdecoded⟩ := parse_stored hfits cbor π
  have hparse : (Individual.newRaw (.new (toMsgpack π obj))).parseRaw cbor = (.ok (), start) :=
    hstart
  refine ⟨enough, fun fuel => ?_⟩
  cases hall : start.parseAll cbor fuel with
  | some full' =>
    refine .inl fun iraw => ?_
    rw [stateOf, hparse]
    dsimp only
    rw [hall]
    dsimp only
    rw [(hdecoded fuel full' hall).1]
  | none =>
    refine .inr ⟨?_, fun iraw => ?_⟩
    · by_contra hle
      rw [parseAll_mono hfull (Nat.le_of_not_lt hle)] at hall
      cases hall
    · rw [stateOf, hparse]
      dsimp only
      rw [hall]

end Steps

/-! ## The message of an element -/

section Create

variable {cbor : CborParser} {order π : IterOrder String} {nodeId : String} {e : IndividualObj}
  {cmd : IndvOp} {sourceVeda targetVeda : String} {date : Int64} {state : Option IndividualObj}
  {iraw iraw₁ iraw₂ iraw₃ iraw₄ iraw₅ iraw₆ : Individual} {newState : Option (List UInt8)}

/-- The end of the creation, when everything was read. -/
def finish (cbor : CborParser) (fuel : ℕ) (order : IterOrder String) (newState : List UInt8)
    (cmd : IndvOp) (date : Int64) (sourceVeda targetVeda : String) :
    Reading (Except ExImCode IndividualObj) := do
  let some indv ← stateOf cbor fuel newState | return .error .invalidMessage
  return .ok (exportMessage indv (toMsgpack order indv) cmd date sourceVeda targetVeda)

theorem createExportMessage_of_read (fuel : ℕ) (hparse : parsing cbor iraw = .ok true iraw₁)
    (htarget : getting cbor .getFirstLiteral "target_veda" iraw₁ = .ok (some targetVeda) iraw₂)
    (haddressed : Addressed targetVeda nodeId)
    (hcmd : getting cbor .getFirstInteger "cmd" iraw₂ = .ok (some cmd.toI64) iraw₃)
    (hstate : getting cbor .getFirstBinobj "new_state" iraw₃ = .ok newState iraw₄)
    (hpresent : cmd = .remove ∨ newState ≠ none)
    (hsource : getting cbor .getFirstLiteral "source_veda" iraw₄ = .ok (some sourceVeda) iraw₅)
    (hdate : getting cbor .getFirstInteger "date" iraw₅ = .ok (some date) iraw₆) :
    createExportMessage cbor fuel order nodeId iraw =
      finish cbor fuel order (newState.getD []) cmd date sourceVeda targetVeda iraw₆ := by
  have haddressed' : ¬ (targetVeda ≠ "*" ∧ targetVeda ≠ nodeId) := by
    rintro ⟨hall, hnode⟩
    exact haddressed.elim hall hnode
  have hpresent' : ¬ (cmd ≠ .remove ∧ newState = none) := by
    rintro ⟨hremove, hnone⟩
    exact hpresent.elim hremove (absurd hnone)
  rw [createExportMessage, run_bind_of_ok _ hparse, Bool.not_true, if_neg Bool.false_ne_true,
    run_bind_of_ok _ htarget]
  dsimp only
  rw [if_neg haddressed', run_bind_of_ok _ hcmd]
  dsimp only
  rw [IndvOp.fromI64_toI64, run_bind_of_ok _ hstate, if_neg hpresent', run_bind_of_ok _ hsource]
  dsimp only
  rw [run_bind_of_ok _ hdate]
  rfl

/-- Everything for a message was read, and is found again without decoding. -/
structure Kept (π : IterOrder String) (e : IndividualObj) (cmd : IndvOp)
    (sourceVeda targetVeda : String) (date : Int64) (newState : List UInt8) (iraw : Individual) :
    Prop where
  data : iraw.raw.data = toMsgpack π e
  target : Fetched .getFirstLiteral "target_veda" (some targetVeda) iraw
  cmd : Fetched .getFirstInteger "cmd" (some cmd.toI64) iraw
  state : Fetched .getFirstBinobj "new_state" (some newState) iraw
  source : Fetched .getFirstLiteral "source_veda" (some sourceVeda) iraw
  date : Fetched .getFirstInteger "date" (some date) iraw

theorem getting_fetched {ρ : Type} {g : Getter ρ} {p : String} {answer : ρ}
    (h : Fetched g p answer iraw) (cbor : CborParser) :
    getting cbor g p iraw = .ok answer iraw := by
  rw [getting, h.get cbor]

/-- **Another attempt** creates the message from what was read before. -/
theorem Kept.create {newState : List UInt8}
    (h : Kept π e cmd sourceVeda targetVeda date newState iraw) (hfits : e.AllFit)
    (haddressed : Addressed targetVeda nodeId) (cbor : CborParser) (order : IterOrder String) :
    ∃ iraw', Kept π e cmd sourceVeda targetVeda date newState iraw' ∧ ∀ fuel,
      createExportMessage cbor fuel order nodeId iraw =
        finish cbor fuel order newState cmd date sourceVeda targetVeda iraw' := by
  obtain ⟨iraw', hparse, hdata, hsame⟩ := parseRaw_again h.data hfits cbor
  have hkept : Kept π e cmd sourceVeda targetVeda date newState iraw' := {
    data := hdata
    target := h.target.of_resources hsame
    cmd := h.cmd.of_resources hsame
    state := h.state.of_resources hsame
    source := h.source.of_resources hsame
    date := h.date.of_resources hsame }
  have hparsing : parsing cbor iraw = .ok true iraw' := by rw [parsing, hparse]
  refine ⟨iraw', hkept, fun fuel => ?_⟩
  exact createExportMessage_of_read fuel hparsing (getting_fetched hkept.target cbor) haddressed
    (getting_fetched hkept.cmd cbor) (getting_fetched hkept.state cbor) (.inr (by simp))
    (getting_fetched hkept.source cbor) (getting_fetched hkept.date cbor)

/-- **The first attempt** with an element that has a state. -/
theorem ExportElement.create_state {st : IndividualObj}
    (h : ExportElement e cmd sourceVeda targetVeda date (some st))
    (haddressed : Addressed targetVeda nodeId) (cbor : CborParser) (π order : IterOrder String) :
    ∃ π' iraw', FirstIs e "new_state" (.binary (toMsgpack π' st)) ∧
      Kept π e cmd sourceVeda targetVeda date (toMsgpack π' st) iraw' ∧ ∀ fuel,
      createExportMessage cbor fuel order nodeId (recordOf π e) =
        finish cbor fuel order (toMsgpack π' st) cmd date sourceVeda targetVeda iraw' := by
  obtain ⟨-, -, π', hstate⟩ := h.state_some st rfl
  obtain ⟨iraw₁, hparse, hopened₁⟩ := parsing_stored h.fits cbor π
  -- one getter after another; each answer is kept
  have htake : ∀ {ρ : Type} {g : Getter ρ} {p : String} {answer : ρ} {iraw : Individual},
      Opened π e iraw → (decoded π e).read g p = .ok answer → answer ≠ g.notFound →
      ∃ iraw', getting cbor g p iraw = .ok answer iraw' ∧ Opened π e iraw' ∧
        Fetched g p answer iraw' ∧ ∀ {σ : Type} {g' : Getter σ} {p' : String} {answer' : σ},
          Fetched g' p' answer' iraw → Fetched g' p' answer' iraw' := by
    intro ρ g p answer iraw hopened hread hne
    obtain ⟨iraw', hget, hopened'⟩ := hopened.get h.fits cbor g p
    rw [hread] at hget
    refine ⟨iraw', by rw [getting, hget], hopened', Fetched.of_get hget hne, fun hfetched => ?_⟩
    have hkept := hopened.fetched_get h.fits hfetched cbor g p
    rwa [hget] at hkept
  obtain ⟨iraw₂, htarget, hopened₂, hfetched₂, -⟩ :=
    htake hopened₁ (h.target_eq.decoded h.wellFormed π).read (by simp [Getter.getFirstLiteral])
  obtain ⟨iraw₃, hcmd, hopened₃, hfetched₃, hkeep₃⟩ :=
    htake hopened₂ (h.cmd_eq.decoded h.wellFormed π).read_integer
      (by simp [Getter.getFirstInteger])
  obtain ⟨iraw₄, hnew, hopened₄, hfetched₄, hkeep₄⟩ :=
    htake hopened₃ (hstate.decoded h.wellFormed π).read_binobj (by simp [Getter.getFirstBinobj])
  obtain ⟨iraw₅, hsource, hopened₅, hfetched₅, hkeep₅⟩ :=
    htake hopened₄ (h.source_eq.decoded h.wellFormed π).read (by simp [Getter.getFirstLiteral])
  obtain ⟨iraw₆, hdate, hopened₆, hfetched₆, hkeep₆⟩ :=
    htake hopened₅ (h.date_eq.decoded h.wellFormed π).read_integer
      (by simp [Getter.getFirstInteger])
  refine ⟨π', iraw₆, hstate, ?_, fun fuel => ?_⟩
  · exact {
      data := hopened₆.data
      target := hkeep₆ (hkeep₅ (hkeep₄ (hkeep₃ hfetched₂)))
      cmd := hkeep₆ (hkeep₅ (hkeep₄ hfetched₃))
      state := hkeep₆ (hkeep₅ hfetched₄)
      source := hkeep₆ hfetched₅
      date := hfetched₆ }
  · exact createExportMessage_of_read fuel hparse htarget haddressed hcmd hnew (.inr (by simp))
      hsource hdate

/-- **An element without a state**: no message is created. -/
theorem ExportElement.create_none (h : ExportElement e cmd sourceVeda targetVeda date none)
    (haddressed : Addressed targetVeda nodeId) (cbor : CborParser) (π order : IterOrder String)
    (fuel : ℕ) :
    ∃ iraw', createExportMessage cbor fuel order nodeId (recordOf π e) =
      .ok (.error .invalidMessage) iraw' := by
  obtain ⟨rfl, hnone⟩ := h.state_none rfl
  have hstate : (decoded π e).read .getFirstBinobj "new_state" = .ok none := by
    apply read_of_lookup_none
    rw [h.wellFormed.lookup_decoded, hnone]
    rfl
  obtain ⟨iraw₁, hparse, hopened₁⟩ := parsing_stored h.fits cbor π
  obtain ⟨iraw₂, htarget, hopened₂⟩ :=
    getting_opened hopened₁ h.fits cbor (h.target_eq.decoded h.wellFormed π).read
  obtain ⟨iraw₃, hcmd, hopened₃⟩ :=
    getting_opened hopened₂ h.fits cbor (h.cmd_eq.decoded h.wellFormed π).read_integer
  obtain ⟨iraw₄, hnew, hopened₄⟩ := getting_opened hopened₃ h.fits cbor hstate
  obtain ⟨iraw₅, hsource, hopened₅⟩ :=
    getting_opened hopened₄ h.fits cbor (h.source_eq.decoded h.wellFormed π).read
  obtain ⟨iraw₆, hdate, hopened₆⟩ :=
    getting_opened hopened₅ h.fits cbor (h.date_eq.decoded h.wellFormed π).read_integer
  refine ⟨iraw₆, ?_⟩
  rw [createExportMessage_of_read fuel hparse htarget haddressed hcmd hnew (.inl rfl) hsource hdate]
  rfl

end Create

/-! ## The message is read -/

section Message

variable {indv : IndividualObj} {raw : List UInt8} {cmd : IndvOp} {date : Int64}
  {sourceVeda targetVeda : String}

theorem lookup_exportMessage (indv : IndividualObj) (raw : List UInt8) (cmd : IndvOp)
    (date : Int64) (sourceVeda targetVeda p : String) :
    (exportMessage indv raw cmd date sourceVeda targetVeda).resources.lookup p =
      if p = "target_veda" then some [⟨.string, .str targetVeda .none, 0⟩]
      else if p = "source_veda" then some [⟨.string, .str sourceVeda .none, 0⟩]
      else if p = "date" then some [⟨.integer, .int date, 0⟩]
      else if p = "cmd" then some [⟨.integer, .int cmd.toI64, 0⟩]
      else if p = "new_state" then some [⟨.binary, .binary raw, 0⟩]
      else if p = "uri" then some [⟨.uri, .uri indv.uri, 0⟩]
      else none := by
  simp [exportMessage, IndividualObj.addUri, IndividualObj.addBinary, IndividualObj.addInteger,
    IndividualObj.addString, IndividualObj.lookup_addValue, IndividualObj.empty]

theorem storable_exportMessage (huri : (utf8 indv.uri).length < 4294967296)
    (hraw : raw.length < 4294967296) (hsource : (utf8 sourceVeda).length < 4294967296)
    (htarget : (utf8 targetVeda).length < 4294967296) (cmd : IndvOp) (date : Int64) :
    (exportMessage indv raw cmd date sourceVeda targetVeda).AllFit ∧
      (exportMessage indv raw cmd date sourceVeda targetVeda).WellFormed := by
  have hempty : (IndividualObj.mk indv.uri ∅).AllFit ∧
      (IndividualObj.mk indv.uri ∅).WellFormed := by
    refine ⟨⟨huri, Nat.two_pow_pos 32, ?_⟩, ?_, ?_⟩
    · rintro p rs ⟨⟩
    · rintro p rs ⟨⟩
    · rintro p rs ⟨⟩
  -- one value after another; each predicate is new
  have hadd : ∀ {n : ℕ} {obj : IndividualObj} (p : String) (rtype : DataType) (value : Value),
      obj.AllFit ∧ obj.WellFormed ∧ obj.resources.keys.length ≤ n → n < 6 →
      obj.resources.lookup p = none → (utf8 p).length < 4294967296 →
      Resource.Fits ⟨rtype, value, 0⟩ → Resource.WellTyped ⟨rtype, value, 0⟩ →
      (obj.addValue p rtype value).AllFit ∧ (obj.addValue p rtype value).WellFormed ∧
        (obj.addValue p rtype value).resources.keys.length ≤ n + 1 := by
    rintro n obj p rtype value ⟨hfits, hwf, hcount⟩ hn hnew hname hfit htyped
    refine ⟨hfits.addValue hnew hname (by omega) hfit, hwf.addValue hnew htyped, ?_⟩
    exact IndividualObj.keys_addValue_le.trans (Nat.succ_le_succ hcount)
  have h₀ : (IndividualObj.mk indv.uri ∅).AllFit ∧ (IndividualObj.mk indv.uri ∅).WellFormed ∧
      (IndividualObj.mk indv.uri ∅).resources.keys.length ≤ 0 :=
    ⟨hempty.1, hempty.2, Nat.le_refl _⟩
  have h₁ := hadd "uri" .uri (.uri indv.uri) h₀ (by omega) rfl (by decide) huri trivial
  have h₂ := hadd "new_state" .binary (.binary raw) h₁ (by omega)
    (by simp [IndividualObj.lookup_addValue]) (by decide) hraw trivial
  have h₃ := hadd "cmd" .integer (.int cmd.toI64) h₂ (by omega)
    (by simp [IndividualObj.lookup_addValue]) (by decide) trivial trivial
  have h₄ := hadd "date" .integer (.int date) h₃ (by omega)
    (by simp [IndividualObj.lookup_addValue]) (by decide) trivial trivial
  have h₅ := hadd "source_veda" .string (.str sourceVeda .none) h₄ (by omega)
    (by simp [IndividualObj.lookup_addValue]) (by decide) hsource trivial
  have h₆ := hadd "target_veda" .string (.str targetVeda .none) h₅ (by omega)
    (by simp [IndividualObj.lookup_addValue]) (by decide) htarget trivial
  exact ⟨h₆.1, h₆.2.1⟩

/-- A message that is read, with what it says. -/
def SameMessage (cbor : CborParser) (recv : Individual) (msg : IndividualObj) : Prop :=
  recv.obj.uri = msg.uri ∧ ∃ fuel full, recv.parseAll cbor fuel = some full ∧
    full.obj.uri = msg.uri ∧ ∀ p, full.obj.contents p = msg.contents p

/-- **A message is read as it was written.** -/
theorem decodeMessage_encodeMessage {codec : Base64}
    (hcodec : ∀ bytes, codec.decode (codec.encode bytes) = some bytes) {msg : IndividualObj}
    (hfits : msg.AllFit) (hwf : msg.WellFormed) (cbor : CborParser) (order : IterOrder String) :
    ∃ recv, decodeMessage cbor codec (encodeMessage codec order msg) = some recv ∧
      Opened order msg recv ∧ SameMessage cbor recv msg := by
  obtain ⟨start, hstart, hopened⟩ := opened_of_parseRaw hfits cbor order
  obtain ⟨start', hstart', ⟨fuel, full, hfull⟩, hdecoded⟩ := parse_stored hfits cbor order
  obtain ⟨-, rfl⟩ := Prod.mk.inj (hstart.symm.trans hstart')
  have hparse : (Individual.newRaw (.new (toMsgpack order msg))).parseRaw cbor = (.ok (), start) :=
    hstart
  have hobj := (hdecoded fuel full hfull).1
  refine ⟨start, ?_, hopened, hopened.uri, fuel, full, hfull, ?_, fun p => ?_⟩
  · rw [encodeMessage, decodeMessage]
    simp only [List.lookup_cons, beq_self_eq_true, Option.bind_eq_bind, Option.bind_some,
      Json.asStr, hcodec, hparse]
  · rw [hobj, uri_decoded]
  · rw [hobj, contents_decoded hwf]

end Message

/-! ## The message is imported -/

section Import

variable {cbor : CborParser} {order : IterOrder String} {msg : IndividualObj} {recv : Individual}
  {cmd : IndvOp} {sourceVeda targetVeda myNodeId : String} {newState : List UInt8}
  {update : IndvOp → IndividualObj → ResultCode}

/-- The end of the import, when everything was read. -/
def send (cbor : CborParser) (fuel : ℕ) (update : IndvOp → IndividualObj → ResultCode)
    (cmd : IndvOp) (sourceVeda : String) (newState : List UInt8) :
    Reading (IOResult × List (IndvOp × IndividualObj)) := do
  let some indv ← stateOf cbor fuel newState | answering .failUpdate []
  let indv := indv.addUri "sys:source" sourceVeda
  if update cmd indv ≠ .ok then answering .failUpdate [(cmd, indv)]
  else answering .ok [(cmd, indv)]

theorem processingImportedMessage_of_read (hopened : Opened order msg recv) (hfits : msg.AllFit)
    (hwf : msg.WellFormed) (hcmd : FirstIs msg "cmd" (.int cmd.toI64))
    (hsource : FirstLiteral msg "source_veda" sourceVeda) (hlength : 32 ≤ (utf8 sourceVeda).length)
    (htarget : FirstLiteral msg "target_veda" targetVeda)
    (haddressed : Addressed targetVeda myNodeId)
    (hstate : FirstIs msg "new_state" (.binary newState)) (cbor : CborParser)
    (update : IndvOp → IndividualObj → ResultCode) :
    ∃ recv', Opened order msg recv' ∧ ∀ fuel,
      processingImportedMessage cbor fuel myNodeId update recv =
        if cmd = .remove then answering .failUpdate [] recv'
        else send cbor fuel update cmd sourceVeda newState recv' := by
  obtain ⟨recv₁, h₁, hopened₁⟩ :=
    getting_opened hopened hfits cbor (hcmd.decoded hwf order).read_integer
  obtain ⟨recv₂, h₂, hopened₂⟩ :=
    getting_opened hopened₁ hfits cbor (hsource.decoded hwf order).read
  obtain ⟨recv₃, h₃, hopened₃⟩ :=
    getting_opened hopened₂ hfits cbor (htarget.decoded hwf order).read
  obtain ⟨recv₄, h₄, hopened₄⟩ :=
    getting_opened hopened₃ hfits cbor (hstate.decoded hwf order).read_binobj
  have haddressed' : ¬ (targetVeda ≠ "*" ∧ myNodeId ≠ targetVeda) := by
    rintro ⟨hall, hnode⟩
    exact haddressed.elim hall (fun heq => hnode heq.symm)
  refine ⟨recv₄, hopened₄, fun fuel => ?_⟩
  rw [processingImportedMessage, run_bind_of_ok _ h₁]
  dsimp only
  rw [run_bind_of_ok _ h₂]
  dsimp only
  rw [if_neg (Nat.not_lt.mpr hlength), run_bind_of_ok _ h₃]
  dsimp only
  rw [if_neg haddressed', run_bind_of_ok _ h₄, IndvOp.fromI64_toI64]
  by_cases hremove : cmd = .remove
  · rw [if_neg (fun h => h.1 hremove), if_pos hremove]
  · rw [if_pos ⟨hremove, rfl⟩, if_neg hremove]
    rfl

end Import

/-! ## An element arrives -/

/-- The message about a stored state. -/
def messageOf (π order : IterOrder String) (st : IndividualObj) (cmd : IndvOp) (date : Int64)
    (sourceVeda targetVeda : String) : IndividualObj :=
  exportMessage (decoded π st) (toMsgpack order (decoded π st)) cmd date sourceVeda targetVeda

/-- **An element arrives**: a message is created for it, the other node reads the same message and
answers `Ok`, and it has sent the same command for the same individual to its storage. -/
def Arrives (cbor : CborParser) (codec : Base64) (order order' : IterOrder String)
    (nodeId : String) (update : IndvOp → IndividualObj → ResultCode) (π : IterOrder String)
    (e : IndividualObj) (cmd : IndvOp) (state : Option IndividualObj) : Prop :=
  ∃ fuel msg element,
    createExportMessage cbor fuel order nodeId (recordOf π e) = .ok (.ok msg) element ∧
    ∃ recv, decodeMessage cbor codec (encodeMessage codec order' msg) = some recv ∧
      SameMessage cbor recv msg ∧
      ∃ sent recv', processingImportedMessage cbor fuel nodeId update recv =
          .ok (⟨msg.uri, .ok⟩, [(cmd, sent)]) recv' ∧
        sent.uri = msg.uri ∧ ∀ st, state = some st →
          msg.uri = st.uri ∧ ∀ p, p ≠ "sys:source" → sent.contents p = st.contents p

/-- The updates that were sent. -/
def updatesOf :
    EStateM.Result Stop Individual (IOResult × List (IndvOp × IndividualObj)) →
      List (IndvOp × IndividualObj)
  | .ok (_, updates) _ => updates
  | .error _ _ => []

section Arrives

variable {cbor : CborParser} {codec : Base64} {order order' π : IterOrder String}
  {nodeId : String} {update : IndvOp → IndividualObj → ResultCode} {e st : IndividualObj}
  {cmd : IndvOp} {sourceVeda targetVeda : String} {date : Int64} {state : Option IndividualObj}

theorem finish_stored (hfits : st.AllFit) (cbor : CborParser) (π order : IterOrder String)
    (cmd : IndvOp) (date : Int64) (sourceVeda targetVeda : String) :
    ∃ enough, ∀ fuel,
      (∀ iraw, finish cbor fuel order (toMsgpack π st) cmd date sourceVeda targetVeda iraw =
          .ok (.ok (messageOf π order st cmd date sourceVeda targetVeda)) iraw) ∨
        fuel < enough ∧ ∀ iraw,
          finish cbor fuel order (toMsgpack π st) cmd date sourceVeda targetVeda iraw =
            .error .outOfFuel iraw := by
  obtain ⟨enough, hstate⟩ := stateOf_stored hfits cbor π
  refine ⟨enough, fun fuel => ?_⟩
  rcases hstate fuel with hdecoded | ⟨hlt, hout⟩
  · refine .inl fun iraw => ?_
    rw [finish, run_bind_of_ok _ (hdecoded iraw)]
    rfl
  · refine .inr ⟨hlt, fun iraw => ?_⟩
    rw [finish, run_bind_of_error _ (hout iraw)]

theorem ExportElement.message (h : ExportElement e cmd sourceVeda targetVeda date (some st))
    {π' : IterOrder String} (hstate : FirstIs e "new_state" (.binary (toMsgpack π' st)))
    (hcodec : ∀ bytes, codec.decode (codec.encode bytes) = some bytes)
    (haddressed : Addressed targetVeda nodeId) (hlength : 32 ≤ sourceVeda.length)
    (cbor : CborParser) (order order' : IterOrder String)
    (update : IndvOp → IndividualObj → ResultCode) :
    ∃ recv,
      decodeMessage cbor codec (encodeMessage codec order'
          (messageOf π' order st cmd date sourceVeda targetVeda)) = some recv ∧
        SameMessage cbor recv (messageOf π' order st cmd date sourceVeda targetVeda) ∧
        ∃ recv', recv'.obj.uri = st.uri ∧
          ∀ fuel, processingImportedMessage cbor fuel nodeId update recv =
            if cmd = .remove then answering .failUpdate [] recv'
            else send cbor fuel update cmd sourceVeda (toMsgpack order (decoded π' st)) recv' := by
  obtain ⟨hfits, hwf, -⟩ := h.state_some st rfl
  have hraw : (toMsgpack order (decoded π' st)).length < 4294967296 := by
    rw [length_toMsgpack_decoded hwf]
    exact hstate.binary_fits h.fits h.wellFormed
  have huri : (utf8 (decoded π' st).uri).length < 4294967296 := by
    rw [uri_decoded]
    exact hfits.uri
  obtain ⟨hmsg, hmsg'⟩ : (messageOf π' order st cmd date sourceVeda targetVeda).AllFit ∧
      (messageOf π' order st cmd date sourceVeda targetVeda).WellFormed :=
    storable_exportMessage huri hraw (h.source_eq.fits h.fits h.wellFormed)
      (h.target_eq.fits h.fits h.wellFormed) cmd date
  obtain ⟨recv, hdecode, hopened, hsame⟩ := decodeMessage_encodeMessage hcodec hmsg hmsg' cbor order'
  have hbytes : 32 ≤ (utf8 sourceVeda).length := hlength.trans (length_le_length_utf8 sourceVeda)
  have hlookup := lookup_exportMessage (decoded π' st) (toMsgpack order (decoded π' st)) cmd date
    sourceVeda targetVeda
  have hcmd : FirstIs (messageOf π' order st cmd date sourceVeda targetVeda) "cmd"
      (.int cmd.toI64) := ⟨_, _, hlookup "cmd", rfl⟩
  have hsource : FirstLiteral (messageOf π' order st cmd date sourceVeda targetVeda) "source_veda"
      sourceVeda := .inr ⟨_, _, _, hlookup "source_veda", rfl⟩
  have htarget : FirstLiteral (messageOf π' order st cmd date sourceVeda targetVeda) "target_veda"
      targetVeda := .inr ⟨_, _, _, hlookup "target_veda", rfl⟩
  have hnew : FirstIs (messageOf π' order st cmd date sourceVeda targetVeda) "new_state"
      (.binary (toMsgpack order (decoded π' st))) := ⟨_, _, hlookup "new_state", rfl⟩
  refine ⟨recv, hdecode, hsame, ?_⟩
  -- the individual behind the reads does not depend on the fuel
  obtain ⟨recv', hopened', hprocess⟩ := processingImportedMessage_of_read hopened hmsg hmsg' hcmd
    hsource hbytes htarget haddressed hnew cbor update
  refine ⟨recv', ?_, hprocess⟩
  rw [hopened'.uri]
  exact uri_decoded π' st

/-- **A removal does not arrive.** -/
theorem not_arrives_of_remove (hcodec : ∀ bytes, codec.decode (codec.encode bytes) = some bytes)
    (h : ExportElement e .remove sourceVeda targetVeda date state)
    (haddressed : Addressed targetVeda nodeId) (hlength : 32 ≤ sourceVeda.length)
    (cbor : CborParser) (order order' π : IterOrder String)
    (update : IndvOp → IndividualObj → ResultCode) :
    ¬ Arrives cbor codec order order' nodeId update π e .remove state := by
  rintro ⟨fuel, msg, element, hcreate, recv, hdecode, -, sent, recv', hprocess, -⟩
  cases state with
  | none =>
    obtain ⟨iraw', hnone⟩ := h.create_none haddressed cbor π order fuel
    rw [hcreate] at hnone
    cases hnone
  | some st =>
    obtain ⟨π', iraw', hstate, -, hstart⟩ := h.create_state haddressed cbor π order
    obtain ⟨enough, hfinish⟩ := finish_stored (h.state_some st rfl).1 cbor π' order .remove date
      sourceVeda targetVeda
    rw [hstart fuel] at hcreate
    rcases hfinish fuel with hok | ⟨-, hout⟩
    · rw [hok iraw'] at hcreate
      cases hcreate
      obtain ⟨recv₁, hdecode', -, recv₂, -, hprocess'⟩ :=
        h.message hstate hcodec haddressed hlength cbor order order' update
      rw [hdecode] at hdecode'
      obtain rfl := Option.some.inj hdecode'
      rw [hprocess' fuel, if_pos rfl] at hprocess
      exact absurd (congrArg updatesOf hprocess) (List.cons_ne_nil _ _).symm
    · rw [hout iraw'] at hcreate
      cases hcreate

/-- **An element arrives** exactly when its command is not to remove the individual. -/
theorem arrives_iff (hcodec : ∀ bytes, codec.decode (codec.encode bytes) = some bytes)
    (haccept : ∀ cmd indv, update cmd indv = .ok)
    (h : ExportElement e cmd sourceVeda targetVeda date state)
    (haddressed : Addressed targetVeda nodeId) (hlength : 32 ≤ sourceVeda.length)
    (cbor : CborParser) (order order' π : IterOrder String) :
    Arrives cbor codec order order' nodeId update π e cmd state ↔ cmd ≠ .remove := by
  constructor
  · rintro harrives rfl
    exact not_arrives_of_remove hcodec h haddressed hlength cbor order order' π update harrives
  · intro hcmd
    cases state with
    | none => exact absurd (h.state_none rfl).1 hcmd
    | some st =>
      obtain ⟨hfits, hwf, -⟩ := h.state_some st rfl
      obtain ⟨π', iraw', hstate, -, hstart⟩ := h.create_state haddressed cbor π order
      obtain ⟨enough, hfinish⟩ := finish_stored hfits cbor π' order cmd date sourceVeda targetVeda
      obtain ⟨recv, hdecode, hsame, recv', huri, hprocess⟩ :=
        h.message hstate hcodec haddressed hlength cbor order order' update
      obtain ⟨enough', hsent⟩ := stateOf_stored (hfits.decoded hwf π') cbor order
      refine ⟨max enough enough', messageOf π' order st cmd date sourceVeda targetVeda, iraw', ?_,
        recv, hdecode, hsame,
        (decoded order (decoded π' st)).addUri "sys:source" sourceVeda, recv', ?_, ?_, ?_⟩
      · rcases hfinish (max enough enough') with hok | ⟨hlt, -⟩
        · rw [hstart, hok iraw']
        · exact absurd hlt (Nat.not_lt.mpr (Nat.le_max_left _ _))
      · rcases hsent (max enough enough') with hok | ⟨hlt, -⟩
        · rw [hprocess, if_neg hcmd, send, run_bind_of_ok _ (hok recv')]
          dsimp only
          rw [if_neg (not_not.mpr (haccept _ _)), answering, run_get_bind, huri]
          rw [show (messageOf π' order st cmd date sourceVeda targetVeda).uri = st.uri from
            uri_decoded π' st]
          rfl
        · exact absurd hlt (Nat.not_lt.mpr (Nat.le_max_right _ _))
      · exact uri_decoded _ _
      · rintro st' hst'
        obtain rfl := Option.some.inj hst'
        refine ⟨uri_decoded π' st, fun p hp => ?_⟩
        rw [IndividualObj.contents, IndividualObj.addUri, IndividualObj.lookup_addValue_ne hp]
        exact (contents_decoded (hwf.decoded π') order p).trans (contents_decoded hwf π' p)

end Arrives

/-! ## Elements of a queue -/

/-- The library for base64. -/
def standardCodec : Base64 := ⟨Veda.Lib.Base64.encode, Veda.Lib.Base64.decode⟩

theorem exportElement_exportMessage {indv st : IndividualObj} {π : IterOrder String} {cmd : IndvOp}
    {sourceVeda targetVeda : String} (huri : (utf8 indv.uri).length < 4294967296)
    (hfits : st.AllFit) (hwf : st.WellFormed) (hraw : (toMsgpack π st).length < 4294967296)
    (hsource : (utf8 sourceVeda).length < 4294967296)
    (htarget : (utf8 targetVeda).length < 4294967296) (hcmd : cmd ∈ exported) (date : Int64) :
    ExportElement (exportMessage indv (toMsgpack π st) cmd date sourceVeda targetVeda) cmd
      sourceVeda targetVeda date (some st) := by
  obtain ⟨hmsg, hmsg'⟩ := storable_exportMessage huri hraw hsource htarget cmd date
  have hlookup := lookup_exportMessage indv (toMsgpack π st) cmd date sourceVeda targetVeda
  exact {
    fits := hmsg
    wellFormed := hmsg'
    cmd_mem := hcmd
    cmd_eq := ⟨_, _, hlookup "cmd", rfl⟩
    source_eq := .inr ⟨_, _, _, hlookup "source_veda", rfl⟩
    target_eq := .inr ⟨_, _, _, hlookup "target_veda", rfl⟩
    date_eq := ⟨_, _, hlookup "date", rfl⟩
    state_some := by
      rintro st' hst'
      obtain rfl := Option.some.inj hst'
      exact ⟨hfits, hwf, π, _, _, hlookup "new_state", rfl⟩
    state_none := by
      rintro ⟨⟩ }

/-- A small document. -/
def smallDocument : IndividualObj := (IndividualObj.mk "d:doc" ∅).addUri "rdf:type" "v-s:Document"

theorem storable_smallDocument : smallDocument.AllFit ∧ smallDocument.WellFormed := by
  have hempty : (IndividualObj.mk "d:doc" ∅).AllFit ∧ (IndividualObj.mk "d:doc" ∅).WellFormed := by
    refine ⟨⟨by decide, by decide, ?_⟩, ?_, ?_⟩
    · rintro p rs ⟨⟩
    · rintro p rs ⟨⟩
    · rintro p rs ⟨⟩
  exact ⟨hempty.1.addValue rfl (by decide) (by decide) (by decide), hempty.2.addValue rfl trivial⟩

/-- The id of a node. -/
def smallSource : String := "sys:6c1b7b4e-41c4-4f0f-9f4a-1b7d6c1e2a3f"

/-- An element about the small document, for all nodes. -/
def smallElement (cmd : IndvOp) : IndividualObj :=
  exportMessage ⟨"1", ∅⟩ (toMsgpack (.stored String) smallDocument) cmd 1700000000 smallSource "*"

theorem exportElement_smallElement {cmd : IndvOp} (hcmd : cmd ∈ exported) :
    ExportElement (smallElement cmd) cmd smallSource "*" 1700000000 (some smallDocument) :=
  exportElement_exportMessage (by decide) storable_smallDocument.1 storable_smallDocument.2
    (by decide +kernel) (by decide +kernel) (by decide) hcmd _

/-- A document that is put arrives. -/
theorem arrives_put :
    Arrives noCbor standardCodec (.stored String) (.reversed String) "sys:b" (fun _ _ => .ok)
      (.stored String) (smallElement .put) .put (some smallDocument) :=
  (arrives_iff Veda.Lib.Base64.decode_encode (fun _ _ => rfl)
    (exportElement_smallElement (by decide)) (.inl rfl) (by decide +kernel) noCbor _ _ _).mpr
    (by decide)

/-- A document that is removed does not arrive, although the storage accepts everything. -/
theorem not_arrives_remove :
    ¬ Arrives noCbor standardCodec (.stored String) (.reversed String) "sys:b" (fun _ _ => .ok)
      (.stored String) (smallElement .remove) .remove (some smallDocument) :=
  not_arrives_of_remove Veda.Lib.Base64.decode_encode (exportElement_smallElement (by decide))
    (.inl rfl) (by decide +kernel) noCbor _ _ _ _

end Veda.Exim
