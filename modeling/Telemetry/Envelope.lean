import Telemetry.Path.Basic
import Telemetry.Double.Basic

/-!
# Envelopes

An envelope is one message of a subscription: a notification, the mark that the first pass over the
values is complete, or an error of the device. A notification carries updates and deletes whose
paths lie below its base path, which also names the target.

* `Value`, `Update`, `Notification`, `Envelope`: the types;
* `Notification.target?`, `Envelope.target?`: the target, where it is not empty;
* `Envelope.same`: equality of content, under which a NaN differs from itself.
-/

namespace Telemetry

/-- Bytes are equal when they are as lists. -/
instance bytesDecEq : DecidableEq ByteArray := ByteArray.instDecidableEq

/-- The value of a leaf. -/
inductive Value where
  | string (s : String)
  | int (i : Int64)
  | uint (n : UInt64)
  | bool (b : Bool)
  | bytes (b : ByteArray)
  | double (x : Double)
  | ascii (s : String)
  | json (b : ByteArray)
  | jsonIetf (b : ByteArray)
deriving DecidableEq

/-- A new value of a leaf. -/
structure Update where
  path : Path
  value : Option Value := none
  duplicates : UInt32 := 0
deriving DecidableEq

/-- New values and removed places, all below one base path. -/
structure Notification where
  timestamp : Int64 := 0
  base : Option Path := none
  updates : List Update := []
  deletes : List Path := []
  atomic : Bool := false
deriving DecidableEq

/-- One message of a subscription. -/
inductive Envelope where
  | update (n : Notification)
  | syncResponse (done : Bool)
  | error (text : String)
deriving DecidableEq

namespace Notification

instance : Inhabited Notification := ⟨{}⟩

/-- The base path, or the root of no target. -/
def basePath (n : Notification) : Path := n.base.getD {}

/-- The target of the base path, empty where there is none. -/
def target (n : Notification) : String := n.basePath.target

/-- The target, where it is not empty. -/
def target? (n : Notification) : Option String := if n.target.isEmpty then none else some n.target

/-- Nothing to apply. -/
def isEmpty (n : Notification) : Bool := n.updates.isEmpty && n.deletes.isEmpty

/-- The full path of an update or delete of the notification. -/
def full (n : Notification) (p : Path) : Path := n.basePath.join p

end Notification

namespace Envelope

/-- The notification of an update. -/
def notification? : Envelope → Option Notification
  | update n => some n
  | _ => none

/-- The target of an update, where it is not empty. -/
def target? (e : Envelope) : Option String := e.notification?.bind Notification.target?

end Envelope

/-! ## Equality of content -/

/-- Equal values; doubles compare as numbers. -/
def Value.same : Value → Value → Bool
  | double x, double y => x.same y
  | a, b => a == b

/-- Equal up to the values, which compare as `Value.same`. -/
def Update.same (a b : Update) : Bool :=
  a.path == b.path && a.duplicates == b.duplicates &&
    match a.value, b.value with
    | some x, some y => x.same y
    | none, none => true
    | _, _ => false

/-- Equal up to the values, which compare as `Value.same`. -/
def Notification.same (a b : Notification) : Bool :=
  a.timestamp == b.timestamp && a.base == b.base && a.deletes == b.deletes &&
    a.atomic == b.atomic && a.updates.length == b.updates.length &&
    (a.updates.zip b.updates).all fun p => p.1.same p.2

/-- Equal up to the values, which compare as `Value.same`. -/
def Envelope.same : Envelope → Envelope → Bool
  | update a, update b => a.same b
  | a, b => a == b

end Telemetry
