import Telemetry.Report

/-!
# Back-off

An operation that fails is tried again after a delay, which grows by a factor up to a cap.

* `Backoff`: a policy; `Backoff.bootstrap`, `Backoff.daemon`: the two in use;
* `Backoff.next?`: the delay after a delay;
* `Backoff.delays`: all delays in turn;
* `Backoff.run`: an operation under a policy, with the times of its calls;
* `Backoff.insist`: an operation that starts over where the policy gives up;
* `Backoff.connect`: connecting to a broker under the bootstrap policy.
-/

namespace Telemetry

/-- When to try again. -/
structure Backoff where
  initial : Duration
  cap : Duration
  factor : Double
  /-- How many attempts there are at most. -/
  limit : Option Nat := none
deriving DecidableEq

namespace Backoff

/-- One second, for ever. -/
def bootstrap : Backoff := ⟨.ofSeconds 1, .ofSeconds 1, .ofNat 1, none⟩

/-- From a quarter of a second to half a minute, doubling, for ever. -/
def daemon : Backoff := ⟨.ofMillis 250, .ofSeconds 30, .ofNat 2, none⟩

/-- The delay after `delay`, if the factor leaves a duration. -/
def next? (p : Backoff) (delay : Duration) : Option Duration :=
  (delay.scale? p.factor).map fun d => min d p.cap

/-- The delay after `n` others. -/
def delays (p : Backoff) : Nat → Option Duration
  | 0 => some p.initial
  | n + 1 => (p.delays n).bind p.next?

/-- Whether the attempt was the last. -/
def isLast (p : Backoff) (attempt : Nat) : Bool := p.limit.any (· ≤ attempt)

/-! ## Running an operation -/

/-- How a run ended. -/
inductive Outcome (α : Type) where
  | ok (a : α)
  | failed (error : String)
  /-- The factor left no duration. -/
  | overflow
  /-- The run was watched for too few attempts. -/
  | running
deriving DecidableEq, Repr

/-- What a run did: the times of the calls in milliseconds, the delays that it slept, the reports,
and the end. -/
structure Run (α : Type) where
  calls : List Nat := []
  sleeps : List Duration := []
  signals : List Signal := []
  outcome : Outcome α

/-- The run with one more call in front, which failed and was slept off. -/
def Run.after {α : Type} (r : Run α) (now : Nat) (delay : Duration) (signals : List Signal) :
    Run α :=
  { r with
    calls := now :: r.calls
    sleeps := delay :: r.sleeps
    signals := signals ++ r.signals }

/-- The run with others in front, which are over. -/
def Run.behind {α : Type} (r : Run α) (calls : List Nat) (sleeps : List Duration)
    (signals : List Signal) : Run α where
  calls := calls ++ r.calls
  sleeps := sleeps ++ r.sleeps
  signals := signals ++ r.signals
  outcome := r.outcome

/-- The run of an operation from its attempt number `n` on, at time `now` and with `delay` as the
next delay; `op n` is the result of attempt `n`, and `onError` what a failure reports. The next
delay is worked out when the present one is over. -/
def runFrom {α : Type} (p : Backoff) (name : String) (onError : List Signal)
    (op : Nat → Except String α) : Nat → Nat → Nat → Duration → Run α
  | 0, _, _, _ => { outcome := .running }
  | fuel + 1, n, now, delay =>
    match op n with
    | .ok a => { calls := [now], outcome := .ok a }
    | .error e =>
      if p.isLast n then { calls := [now], signals := onError, outcome := .failed e }
      else
        let signals := onError ++ [.warn (.retrying name n p.limit e delay)]
        match p.next? delay with
        | none => { calls := [now], sleeps := [delay], signals, outcome := .overflow }
        | some next =>
          (runFrom p name onError op fuel (n + 1) (now + delay.ticks) next).after now delay signals

/-- The run of an operation for up to `attempts` attempts, from time zero. -/
def run {α : Type} (p : Backoff) (name : String) (attempts : Nat) (op : Nat → Except String α)
    (onError : List Signal := []) : Run α :=
  p.runFrom name onError op attempts 1 0 p.initial

/-- The run of an operation that starts over where the policy gives up, for up to `rounds` rounds
and as many attempts as are left. `op (tried + n)` is the result of attempt `n` of the first round,
which begins at time `now`. -/
def insistFrom {α : Type} (p : Backoff) (name : String) (onError : List Signal)
    (op : Nat → Except String α) : Nat → Nat → Nat → Nat → Run α
  | 0, _, _, _ => { outcome := .running }
  | rounds + 1, left, tried, now =>
    let r := p.runFrom name onError (fun n => op (tried + n)) left 1 now p.initial
    match r.outcome with
    | .failed _ =>
      let n := r.calls.length
      (insistFrom p name onError op rounds (left - n) (tried + n) (r.calls.getLastD now)).behind
        r.calls r.sleeps r.signals
    | _ => r

/-- The run of an operation that starts over where the policy gives up, for up to `attempts`
attempts, from time zero. A round makes one attempt at least. -/
def insist {α : Type} (p : Backoff) (name : String) (attempts : Nat) (op : Nat → Except String α)
    (onError : List Signal := []) : Run α :=
  p.insistFrom name onError op attempts attempts 0 0

/-- Connecting to a backend, for ever: every failure counts as a connection error. -/
def connect {α : Type} (backend : String) (attempts : Nat) (op : Nat → Except TransportError α) :
    Run α :=
  bootstrap.insist (backend ++ "_connect") attempts
    (fun n => (op n).mapError TransportError.message) [.count (.connectionError backend)]

end Backoff

end Telemetry
