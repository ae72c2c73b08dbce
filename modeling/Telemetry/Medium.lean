import Telemetry.Channel
import Telemetry.Report

/-!
# Media

A medium carries messages between participants. Each of them has a link, by which it publishes and
subscribes; a subscription gives it a stream of messages.

* `Message`, `Receipt`: what travels, and what one step of a stream brings;
* `Medium`: what a node needs of a medium.
-/

namespace Telemetry

/-- Bytes on a channel. -/
structure Message where
  channel : String
  payload : ByteArray
deriving DecidableEq, Inhabited

/-- What one step of a stream brings. -/
inductive Receipt where
  | message (m : Message)
  /-- A message that does not concern the topic. -/
  | passed
  | lagged (skipped : Nat)
  /-- Nothing; the stream begins to wait. -/
  | parked
  /-- Nothing; the stream goes on waiting. -/
  | waiting
  | ended
deriving DecidableEq

/-- What carries messages. Links and streams have numbers. -/
class Medium (μ : Type) where
  /-- The name of what is behind a link. -/
  backend : μ → Nat → String
  /-- How many milliseconds a publish takes before it is tried. -/
  delay : μ → Nat → Nat
  /-- Publishes over a link. -/
  publish : μ → Nat → Message → μ × Except TransportError Unit
  /-- Opens a stream over a link. -/
  subscribe : μ → Nat → Topic → μ × Except TransportError Nat
  /-- One step of a stream. -/
  receive : μ → Nat → μ × Receipt
  /-- Closes a stream. -/
  drop : μ → Nat → μ
  /-- Closes a link. -/
  close : μ → Nat → μ
  /-- The channel under which a message published on a channel comes in over a link. -/
  inbound : μ → Nat → String → String

end Telemetry
