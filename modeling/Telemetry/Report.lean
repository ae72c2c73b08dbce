import Telemetry.Channel
import Telemetry.Duration
import Telemetry.Wire.Reader

/-!
# Reports

What a cache tells of its work: errors, warnings, counters and gauges. None of them reaches a
writer, whose write has already been done.

* `TransportError`, `SyncError`: why a message did not travel;
* `Warning`: what goes to the log, with its fields;
* `Counter`, `Gauge`: what is measured;
* `Signal`: one report.
-/

namespace Telemetry

/-! ## Errors -/

/-- Why a binding to a broker failed. -/
inductive TransportError where
  | connection (backend address reason : String)
  | publish (channel reason : String)
  | subscribe (channel reason : String)
  | closed
deriving DecidableEq, Repr

/-- The words for the reason. -/
def TransportError.message : TransportError → String
  | connection backend address reason =>
    "failed to connect to " ++ backend ++ " at " ++ address ++ ": " ++ reason
  | publish channel reason => "failed to publish on '" ++ channel ++ "': " ++ reason
  | subscribe channel reason => "failed to subscribe to '" ++ channel ++ "': " ++ reason
  | closed => "transport is closed"

/-- Why an envelope was not passed on. -/
inductive SyncError where
  | publish (cause : TransportError)
  | timeout (channel : String) (limit : Duration)
  | encode (cause : CodecError)
  | undecodable (channel : String) (cause : CodecError)
  | missingTarget (subscription : String)
  | cancelled
deriving DecidableEq, Repr

/-- The words for the reason. -/
def SyncError.message : SyncError → String
  | publish cause => "publish failed: " ++ cause.message
  | timeout channel limit => "publish on '" ++ channel ++ "' timed out after " ++ limit.print
  | encode cause => "failed to encode notification: " ++ cause.message
  | undecodable channel cause => "undecodable payload on '" ++ channel ++ "': " ++ cause.message
  | missingTarget subscription =>
    "subscription '" ++ subscription ++ "': response is missing a target"
  | cancelled => "cancelled"

/-- How a publish ended. -/
inductive Status where
  | success
  | error
  | timeout
  | cancelled
deriving DecidableEq, Repr

/-- The label of a status. -/
def Status.label : Status → String
  | success => "success"
  | error => "error"
  | timeout => "timeout"
  | cancelled => "cancelled"

/-- How a publish that met an error ended. -/
def SyncError.status : SyncError → Status
  | timeout _ _ => .timeout
  | cancelled => .cancelled
  | _ => .error

/-! ## Warnings -/

/-- What goes to the log. -/
inductive Warning where
  | retrying (operation : String) (attempt : Nat) (limit : Option Nat) (error : String)
      (delay : Duration)
  | watcherLagged (skipped : Nat)
  | streamLagged (skipped : Nat)
  | announceFailed (subscription : String) (error : SyncError)
  | publishFailed (subscription target : String) (error : SyncError)
  | notPropagated (error : SyncError)
  | messageDropped (error : SyncError)
  | controlEnded
  | dataEnded (subscription : String)
  | announcementNotUtf8
  | requestDropped (subscription : String) (limit : Duration)
  | usernameAlone
  | passwordAlone
deriving DecidableEq, Repr

namespace Warning

/-- The text of a warning. -/
def message : Warning → String
  | retrying _ _ (some _) _ delay => "operation failed, retrying in " ++ delay.print
  | retrying _ _ none _ delay =>
    "operation failed (will retry forever), next retry in " ++ delay.print
  | watcherLagged _ => "local subscriber lagging, notifications dropped"
  | streamLagged _ => "memory subscriber lagged, messages dropped"
  | announceFailed _ _ => "failed to announce subscription"
  | publishFailed _ _ _ => "failed to publish notification"
  | notPropagated _ => "not propagating notification"
  | messageDropped _ => "dropping message"
  | controlEnded => "control stream ended, resubscribing"
  | dataEnded _ => "data stream ended, resubscribing"
  | announcementNotUtf8 => "ignoring non-UTF-8 announcement"
  | requestDropped _ _ => "channel request queue full, dropping request"
  | usernameAlone => "nats username set without a password, connecting without credentials"
  | passwordAlone => "nats password set without a username, connecting without credentials"

/-- A number as the value of a field. -/
def count (n : Nat) : String := (Numeral.ofNat n).print

/-- The fields of a warning. -/
def fields : Warning → List (String × String)
  | retrying operation attempt limit error _ =>
    [("operation", operation), ("attempt", count attempt)] ++
      (limit.map fun n => ("max", count n)).toList ++ [("error", error)]
  | watcherLagged skipped => [("skipped", count skipped)]
  | streamLagged skipped => [("skipped", count skipped)]
  | announceFailed subscription error =>
    [("subscription", subscription), ("error", error.message)]
  | publishFailed subscription target error =>
    [("subscription", subscription), ("target", target), ("error", error.message)]
  | notPropagated error => [("error", error.message)]
  | messageDropped error => [("error", error.message)]
  | controlEnded => [("channel", controlChannel)]
  | dataEnded subscription => [("channel", subscription)]
  | announcementNotUtf8 => []
  | requestDropped subscription limit => [("channel", subscription), ("timeout", limit.print)]
  | usernameAlone => []
  | passwordAlone => []

end Warning

/-! ## Measurements -/

/-- Whether a message carries data or the name of a subscription. -/
inductive Kind where
  | data
  | control
deriving DecidableEq, Repr

/-- The label of a kind. -/
def Kind.label : Kind → String
  | data => "data"
  | control => "control"

/-- What became of a message on a data channel. -/
inductive Verdict where
  | ok
  | empty
  | error
  | foreign
deriving DecidableEq, Repr

/-- The label of a verdict. -/
def Verdict.label : Verdict → String
  | ok => "ok"
  | empty => "empty"
  | error => "error"
  | foreign => "foreign"

/-- What is counted. -/
inductive Counter where
  | publish (kind : Kind) (status : Status)
  | announcement
  | topologyReset
  | received (verdict : Verdict)
  | decodeError
  | missingTarget
  | requestDropped
  | channelStarted
  | connectionError (backend : String)
  | resubscribe (kind : Kind)
deriving DecidableEq, Repr

namespace Counter

/-- The name of a counter. -/
def name : Counter → String
  | publish _ _ => "publish_total"
  | announcement => "announcements_total"
  | topologyReset => "topology_resets_total"
  | received _ => "received_total"
  | decodeError => "decode_errors_total"
  | missingTarget => "missing_target_total"
  | requestDropped => "channel_requests_dropped_total"
  | channelStarted => "channels_started_total"
  | connectionError _ => "connection_errors_total"
  | resubscribe _ => "resubscribes_total"

/-- The labels of a counter, ascending. -/
def labels : Counter → List (String × String)
  | publish kind status => [("kind", kind.label), ("status", status.label)]
  | received verdict => [("status", verdict.label)]
  | connectionError backend => [("backend", backend)]
  | resubscribe kind => [("kind", kind.label)]
  | _ => []

end Counter

/-- What is set to a value. -/
inductive Gauge where
  | syncState
  | activeChannels
  | topologyCleared
deriving DecidableEq, Repr

/-- The name of a gauge. -/
def Gauge.name : Gauge → String
  | syncState => "sync_state"
  | activeChannels => "active_channels"
  | topologyCleared => "topology_cleared"

/-- One report. -/
inductive Signal where
  | count (c : Counter)
  | set (g : Gauge) (value : Nat)
  | warn (w : Warning)
deriving DecidableEq, Repr

end Telemetry
