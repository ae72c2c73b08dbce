import Telemetry.Medium
import Telemetry.Wire.Reader

/-!
# Judging messages

A consumer of a subscription gets all messages below the stem of its channels, which may also hold
those of a subscription with a longer name. It accepts an update only from the channel to which the
update's own target belongs.

* `Judgement`, `judge`: what a consumer makes of a message;
* `Judgement.signals`: what it reports.
-/

namespace Telemetry

/-- What a consumer makes of a message. -/
inductive Judgement where
  | empty
  | unreadable (cause : CodecError)
  | foreign
  | accepted (e : Envelope)
deriving DecidableEq

/-- The judgement of a consumer on a message; `inbound` is the channel under which its medium shows
what was published on a channel. -/
def judge (inbound : String → String) (subscription : String) (m : Message) : Judgement :=
  if m.payload.isEmpty then .empty
  else
    match Envelope.decode m.payload with
    | .error cause => .unreadable cause
    | .ok e =>
      if e.target?.map (fun t => inbound (dataChannel subscription t)) = some m.channel then
        .accepted e
      else .foreign

namespace Judgement

/-- What a consumer reports of a message on a channel. -/
def signals (channel : String) : Judgement → List Signal
  | empty => [.count (.received .empty)]
  | unreadable cause =>
    [.warn (.messageDropped (.undecodable channel cause)), .count .decodeError,
      .count (.received .error)]
  | foreign => [.count (.received .foreign)]
  | accepted _ => [.count (.received .ok)]

/-- What a consumer writes. -/
def envelope? : Judgement → Option Envelope
  | accepted e => some e
  | _ => none

end Judgement

end Telemetry
