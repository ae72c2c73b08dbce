import Telemetry.Node.Loops
import Telemetry.Wire.Writer

/-!
# Writing

A write goes to the node's own store first, whatever happens later. Then the node tells its peers:
it announces the subscription if it did not do so in this epoch, asks its dispatch to consume the
subscription, and publishes the envelope on the channel of its target. Every publish is bounded by a
time and by two tokens, that of the caller and that of the node; nothing that fails reaches the
caller.

* `Attempt`: a bounded publish; `Attempt.act`: one move of it;
* `Stage`, `Writer`: a write on its way;
* `Writer.act`: one move of a write.
-/

namespace Telemetry

/-! ## Bounded publishing -/

/-- A bounded publish on its way. -/
inductive Attempt where
  | starting
  /-- It is tried at one time and given up at another. -/
  | pausing (ready : Nat) (deadline : Nat)
deriving DecidableEq

/-- Where a bounded publish stands after a move. -/
inductive Progress where
  | going (a : Attempt)
  | finished (r : Except SyncError Unit)

namespace Attempt

variable {μ : Type} [Medium μ]

/-- The publish itself. -/
def send (m : μ) (link : Nat) (msg : Message) : μ × Progress :=
  match Medium.publish m link msg with
  | (m, .ok ()) => (m, .finished (.ok ()))
  | (m, .error e) => (m, .finished (.error (.publish e)))

/-- One move of a bounded publish. A cancelled token comes before all else, and a publish that is
due at the deadline still counts. -/
def act (link : Nat) (limit : Duration) (cancelled : Bool) (now : Nat) (msg : Message) (m : μ)
    (a : Attempt) : Option (μ × Progress) :=
  if cancelled then some (m, .finished (.error .cancelled))
  else
    match a with
    | .starting =>
      let delay := Medium.delay m link
      if delay = 0 then some (send m link msg)
      else some (m, .going (.pausing (now + delay) (now + limit.ticks)))
    | .pausing ready deadline =>
      if ready ≤ now then some (send m link msg)
      else if deadline ≤ now then some (m, .finished (.error (.timeout msg.channel limit)))
      else none

end Attempt

/-- The status of a bounded publish that is over. -/
def statusOf : Except SyncError Unit → Status
  | .ok () => .success
  | .error e => e.status

/-! ## Writers -/

/-- Where a write stands. -/
inductive Stage where
  /-- About to write to the node's own store. -/
  | storing
  /-- About to look whether there are peers to tell. -/
  | checking
  /-- About to look whether the subscription was announced. -/
  | marking
  /-- About to enter it as announced: someone else may have done so meanwhile. -/
  | entering
  | announcing (a : Attempt)
  /-- About to look for the target. -/
  | resolving
  /-- Waiting for room in the queue of requests, until a time. -/
  | requesting (target : String) (deadline : Nat)
  | publishing (target : String) (a : Attempt)
  | done
deriving DecidableEq

/-- A write on its way. -/
structure Writer where
  /-- The number of the node. -/
  node : Nat
  /-- The name of the caller's token. -/
  token : Option String := none
  subscription : String
  envelope : Envelope
  stage : Stage := .storing
  /-- When it began. -/
  began : Nat
  /-- When it was over. -/
  finished : Option Nat := none

/-- What a move of a write leaves. -/
structure Written (μ : Type) where
  medium : μ
  node : Node
  stage : Stage
  signals : List Signal := []

namespace Writer

variable {μ : Type} [Medium μ]

/-- The write is over. -/
def isDone (w : Writer) : Bool := w.stage == .done

/-- The announcement of the subscription. -/
def announcement (w : Writer) : Message := ⟨controlChannel, w.subscription.toUTF8⟩

/-- The data for a target. -/
def data (w : Writer) (target : String) : Message :=
  ⟨dataChannel w.subscription target, w.envelope.encode⟩

/-- What an announcement reports when it is over. -/
def announcedSignals (w : Writer) : Except SyncError Unit → List Signal
  | .ok () => [.count .announcement, .count (.publish .control .success)]
  | .error e =>
    [.warn (.announceFailed w.subscription e), .count (.publish .control e.status)]

/-- What the publishing of data reports when it is over. -/
def publishedSignals (w : Writer) (target : String) : Except SyncError Unit → List Signal
  | .ok () => [.count (.publish .data .success)]
  | .error e =>
    [.warn (.publishFailed w.subscription target e), .count (.publish .data e.status)]

/-- What an envelope without a target reports. -/
def untargetedSignals (w : Writer) : List Signal :=
  if w.envelope.notification?.isSome then
    [.warn (.notPropagated (.missingTarget w.subscription)), .count .missingTarget]
  else []

/-- One move of a write. `revoked` says that the caller's token is cancelled. -/
def act (now : Nat) (revoked : Bool) (m : μ) (n : Node) (w : Writer) : Option (Written μ) :=
  let stay (n : Node) (stage : Stage) (signals : List Signal) : Option (Written μ) :=
    some { medium := m, node := n, stage, signals }
  match w.stage, n.link with
  | .storing, _ => stay (n.keep w.subscription w.envelope) .checking []
  | .checking, some _ => stay n (if n.cancelled then .done else .marking) []
  | .marking, some _ =>
    stay n (if n.announced.contains w.subscription then .resolving else .entering) []
  | .entering, some _ =>
    let (announced, new) := n.announced.enter w.subscription
    stay { n with announced } (if new then .announcing .starting else .resolving) []
  | .announcing a, some link =>
    (a.act link n.settings.writeTimeout (revoked || n.cancelled) now w.announcement m).map
      fun (m, p) =>
        match p with
        | .going a => { medium := m, node := n, stage := .announcing a }
        | .finished r =>
          { medium := m, node := n, stage := .resolving, signals := w.announcedSignals r }
  | .resolving, some _ =>
    match w.envelope.target? with
    | none => stay n .done w.untargetedSignals
    | some target => stay n (.requesting target (now + n.timeout)) []
  | .requesting target deadline, some _ =>
    if revoked || n.cancelled then stay n (.publishing target .starting) []
    else if n.hasRoom then
      stay { n with requests := n.requests ++ [w.subscription] } (.publishing target .starting) []
    else if deadline ≤ now then
      stay n (.publishing target .starting)
        [.warn (.requestDropped w.subscription n.settings.writeTimeout), .count .requestDropped]
    else none
  | .publishing target a, some link =>
    (a.act link n.settings.writeTimeout (revoked || n.cancelled) now (w.data target) m).map
      fun (m, p) =>
        match p with
        | .going a => { medium := m, node := n, stage := .publishing target a }
        | .finished r =>
          { medium := m, node := n, stage := .done, signals := w.publishedSignals target r }
  | .done, _ => none
  | _, none => stay n .done []

/-- When a write that waits goes on at the latest. -/
def deadline? (w : Writer) : Option Nat :=
  match w.stage with
  | .announcing (.pausing ready deadline) => some (min ready deadline)
  | .requesting _ deadline => some deadline
  | .publishing _ (.pausing ready deadline) => some (min ready deadline)
  | _ => none

end Writer

end Telemetry
