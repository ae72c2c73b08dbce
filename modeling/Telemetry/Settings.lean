import Telemetry.Duration
import Telemetry.Json.Parser
import Telemetry.Json.Reader

/-!
# Settings

The settings of a cache, read from a JSON object in which every member may be left out.

* `Backend`, `Settings`: the settings and their defaults;
* `Settings.reader`, `Settings.read`: reading;
* `Settings.complete`: the address of the backend where none is given, and defaults for zeros;
* `Settings.describe`: a text for logs, without the password.
-/

namespace Telemetry

open Json

/-- What keeps caches in step. -/
inductive Backend where
  | none
  | redis
  | nats
deriving DecidableEq, Inhabited, Repr

namespace Backend

/-- The name of a backend. -/
def name : Backend → String
  | none => "none"
  | redis => "redis"
  | nats => "nats"

/-- The name with a capital. -/
def title : Backend → String
  | none => "None"
  | redis => "Redis"
  | nats => "Nats"

/-- Where a backend listens unless told otherwise. -/
def defaultAddress : Backend → Option String
  | none => .none
  | redis => some "127.0.0.1:6379"
  | nats => some "127.0.0.1:4222"

/-- Reads a backend. -/
def reader : Reader Backend :=
  choice [.bare "none" none, .bare "redis" redis, .bare "nats" nats]

end Backend

/-- The settings of a cache. -/
structure Settings where
  backend : Backend := .none
  address : Option String := none
  username : Option String := none
  password : Option String := none
  /-- How long a publish may take, in milliseconds. -/
  writeTimeoutMs : UInt64 := 10000
  /-- After how many seconds a new epoch starts. -/
  resetSecs : UInt64 := 60
  /-- How many requests for consumption may wait. -/
  queueCapacity : UInt64 := 1024
  /-- After how many seconds a value that is not written again is dropped. -/
  expirationSecs : Option UInt64 := none
  debug : Bool := false
deriving DecidableEq, Inhabited

namespace Settings

/-- Reads settings. -/
def reader : Reader Settings :=
  record "CacheConfig" [
    .of "backend" Backend.reader fun v s => { s with backend := v },
    .of "address" (Reader.option Reader.string) fun v s => { s with address := v },
    .of "username" (Reader.option Reader.string) fun v s => { s with username := v },
    .of "password" (Reader.option Reader.string) fun v s => { s with password := v },
    .of "write_timeout_ms" Reader.uint64 fun v s => { s with writeTimeoutMs := v },
    .of "channel_reset_secs" Reader.uint64 fun v s => { s with resetSecs := v },
    .of "request_queue_capacity" (Reader.word64 "usize") fun v s => { s with queueCapacity := v },
    .of "expiration_secs" (Reader.option Reader.uint64) fun v s => { s with expirationSecs := v },
    .of "debug" Reader.bool fun v s => { s with debug := v }] {}

/-- The settings in a text. -/
def read (text : String) : Except Fault Settings :=
  readAll reader (Doc.parse text.toByteArray.data.toList)

/-- The value, or `d` for zero. -/
def nonzero (d v : UInt64) : UInt64 := if v = 0 then d else v

/-- The settings with defaults for what is empty or zero. -/
def complete (s : Settings) : Settings :=
  { s with
    address := if s.address.all (·.isEmpty) then s.backend.defaultAddress else s.address
    writeTimeoutMs := nonzero 10000 s.writeTimeoutMs
    resetSecs := nonzero 60 s.resetSecs
    queueCapacity := nonzero 1024 s.queueCapacity }

/-- How long a publish may take. -/
def writeTimeout (s : Settings) : Duration := .ofMillis s.writeTimeoutMs.toNat

/-- How long an epoch lasts. -/
def resetPeriod (s : Settings) : Duration := .ofSeconds s.resetSecs.toNat

/-- How long a value lives that is not written again. -/
def expiration (s : Settings) : Option Duration :=
  s.expirationSecs.map fun n => .ofSeconds n.toNat

/-! ## The text for logs -/

/-- A value that may be absent. -/
def describeOption (o : Option String) : String :=
  match o with
  | none => "None"
  | some s => "Some(" ++ s ++ ")"

/-- The number in decimal. -/
def describeWord (n : UInt64) : String := (Numeral.ofNat n.toNat).print

/-- All settings; of a password it says only that there is one. -/
def describe (s : Settings) : String :=
  let rows := [
    ("backend", s.backend.title),
    ("address", describeOption (s.address.map Text.quote)),
    ("username", describeOption (s.username.map Text.quote)),
    ("password", describeOption (s.password.map fun _ => Text.quote "<redacted>")),
    ("write_timeout_ms", describeWord s.writeTimeoutMs),
    ("channel_reset_secs", describeWord s.resetSecs),
    ("request_queue_capacity", describeWord s.queueCapacity),
    ("expiration_secs", describeOption (s.expirationSecs.map describeWord)),
    ("debug", if s.debug then "true" else "false")]
  "CacheConfig \x7b " ++ String.intercalate ", " (rows.map fun r => r.1 ++ ": " ++ r.2) ++ " \x7d"

end Settings

end Telemetry
