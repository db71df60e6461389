import Announcer.Grammar.Expansion
import Announcer.Webhook.Directory
import Announcer.Webhook.Payload

/-! # Messages

A message is expanded once, when it is composed, and delivered at most once. Until it has been
delivered it may be sent again, with whatever store and transport are at hand then.
-/
namespace Announcer

open Chance (ChoiceSource)
open Webhook (Payload Store StoreError)

/-- Seconds since the beginning of 1970. -/
abbrev Instant := Int

inductive TransportError where
  | http (description : String)
deriving DecidableEq, Repr

def TransportError.message : TransportError → String
  | http description => s!"HTTP request failed: {description}"

inductive MessageError where
  | alreadySent
  | unknownTarget (target : String)
  | emptyTarget
  | expansion (cause : FlattenError)
  | webhook (cause : StoreError)
  | transport (cause : TransportError)
deriving DecidableEq, Repr

def MessageError.message (e : MessageError) (wording : Json.Wording := Json.Fault.brief) : String :=
  match e with
  | alreadySent => "message has already been sent"
  | unknownTarget target => s!"no webhook registered for target '{target}'"
  | emptyTarget => "target name must not be empty"
  | expansion cause => s!"grammar expansion failed: {cause.message}"
  | webhook cause => s!"webhook lookup failed: {cause.message wording}"
  | transport cause => s!"delivery failed: {cause.message}"

structure Response where
  status : UInt16
  body : String
deriving DecidableEq, Repr

def Response.isSuccess (r : Response) : Bool := 200 ≤ r.status && r.status < 300

abbrev Transport := String → Payload → Except TransportError Response

inductive DeliveryState where
  | unsent
  | sent (time : Instant) (status : UInt16)
deriving DecidableEq, Repr

structure Receipt where
  target : String
  url : String
  status : UInt16
  body : String
  time : Instant
deriving DecidableEq, Repr

structure Message where
  target : String
  grammar : Grammar
  text : String
  scheduledTime : Instant
  state : DeliveryState

namespace Message

variable {σ : Type} [ChoiceSource σ]

/-- The target is not looked up before the message is sent. -/
def compose (target origin : String) (grammar : Grammar) (scheduledTime : Instant) (source : σ) :
    Except MessageError Message × σ :=
  if target.isEmpty then (.error .emptyTarget, source)
  else
    match grammar.flatten origin source with
    | (.error cause, rest) => (.error (.expansion cause), rest)
    | (.ok text, rest) => (.ok ⟨target, grammar, text, scheduledTime, .unsent⟩, rest)

def isSent (m : Message) : Bool :=
  match m.state with
  | .unsent => false
  | .sent _ _ => true

inductive Effect where
  | lookup (target : String)
  | post (url : String) (payload : Payload)
deriving DecidableEq, Repr

structure Sending where
  result : Except MessageError Receipt
  message : Message
  effects : List Effect

def payload (m : Message) : Payload := ⟨m.text⟩

/-- Any response completes the delivery, whatever its status; a failed lookup or post leaves the
message as it was. -/
def send (m : Message) (store : Store) (transport : Transport) (now : Instant) : Sending :=
  if m.isSent then ⟨.error .alreadySent, m, []⟩
  else
    match store m.target with
    | .error cause => ⟨.error (.webhook cause), m, [.lookup m.target]⟩
    | .ok none => ⟨.error (.unknownTarget m.target), m, [.lookup m.target]⟩
    | .ok (some url) =>
      let effects := [.lookup m.target, .post url m.payload]
      match transport url m.payload with
      | .error cause => ⟨.error (.transport cause), m, effects⟩
      | .ok response =>
        ⟨.ok ⟨m.target, url, response.status, response.body, now⟩,
          { m with state := .sent now response.status }, effects⟩

end Message

end Announcer
