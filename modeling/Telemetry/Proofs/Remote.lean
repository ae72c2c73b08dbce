import Mathlib.Data.Nat.Notation
import Telemetry.Broker.Basic
import Telemetry.Bus.Network
import Telemetry.Node.Write
import Telemetry.Proofs.Codec

/-!
# What peers publish

A consumer of a subscription also sees the data of subscriptions with longer names, and it tells
them apart by the channel to which the target of the envelope belongs. A separator may stand in
names and targets, so a channel alone does not say whose it is; but channels for the same target
agree only where the names agree.

* `dataChannel_left_inj`, `subject_dataChannel_left_inj`: channels for the same target;
* `Node.applyRemote_inbound`: what a consumer does with the data of a write;
* **`Node.applyRemote_data`**: where channels keep their names, it writes its own and only that;
* **`Node.applyRemote_subject`**: where they are mapped to subjects, it writes what is published
  under a name with the same subject.
-/

namespace Telemetry

/-! ## Channels -/

theorem dataChannel_left_inj {s s' t : String} : dataChannel s t = dataChannel s' t ↔ s = s' := by
  rw [← String.toList_inj, toList_dataChannel, toList_dataChannel, List.append_left_inj,
    String.toList_inj]

theorem subject_inj {s s' : String} :
    subject s = subject s' ↔ s.toList.map subjectChar = s'.toList.map subjectChar :=
  String.ofList_inj

theorem subject_dataChannel_left_inj {s s' t : String} :
    subject (dataChannel s t) = subject (dataChannel s' t) ↔ subject s = subject s' := by
  rw [subject_inj, subject_inj, toList_dataChannel, toList_dataChannel, List.map_append,
    List.map_append, List.append_left_inj]

/-- Data never travels on the control channel: that has no separator in its name. -/
theorem dataChannel_ne_controlChannel (s t : String) : dataChannel s t ≠ controlChannel := by
  intro h
  have hmem : separator ∈ (dataChannel s t).toList := by
    rw [toList_dataChannel]
    exact List.mem_append_right _ List.mem_cons_self
  rw [h] at hmem
  exact absurd hmem (by decide)

/-! ## Nodes up to NaNs -/

/-- The same node, with one NaN in place of every other in its store. -/
def Node.canonical (n : Node) : Node :=
  { n with store := { n.store with store := n.store.store.canonical } }

theorem Node.canonical_keep_canonical (n : Node) (s : String) (e : Envelope) :
    (n.keep s e.canonical).canonical = (n.keep s e).canonical := by
  simp only [canonical, keep, Watched.write, Store.canonical_write_canonical]

/-! ## Consumers -/

theorem Network.inbound_of_not_mapped {net : Network} {link : ℕ}
    (h : (net.line link).mapped = false) (channel : String) :
    Medium.inbound net link channel = channel := by
  simp [Medium.inbound, Line.name, h]

theorem Broker.inbound_redis (b : Broker) (h : b.kind = .redis) (link : ℕ) (channel : String) :
    Medium.inbound b link channel = channel := by
  simp [Medium.inbound, channelName, h]

/-- The message as it comes in where `f` gives names to the channels. -/
def Message.named (f : String → String) (m : Message) : Message := { m with channel := f m.channel }

theorem Message.named_id (m : Message) : m.named id = m := rfl

theorem judge_data {f g : String → String} (hg : ∀ c, g c = f c) {w : Writer} {t : String}
    (ht : w.envelope.target? = some t) (s : String) :
    judge g s ((w.data t).named f) =
      if f (dataChannel s t) = f (dataChannel w.subscription t) then
        .accepted w.envelope.canonical else .foreign := by
  simp only [judge, Message.named, Writer.data, Envelope.encode_isEmpty, Envelope.decode_encode,
    Envelope.canonical_target?, ht, hg, Option.map_some, Option.some.injEq, Bool.false_eq_true,
    if_false]

namespace Node

variable {μ : Type} [Medium μ] {m : μ} {link : ℕ} {w : Writer} {t : String}

theorem applyRemote_inbound {f : String → String} (hin : ∀ c, Medium.inbound m link c = f c)
    (ht : w.envelope.target? = some t) (n : Node) (s : String) :
    n.applyRemote m link s ((w.data t).named f) =
      if f (dataChannel s t) = f (dataChannel w.subscription t) then
        (n.keep s w.envelope.canonical, [.count (.received .ok)])
      else (n, [.count (.received .foreign)]) := by
  rw [applyRemote, judge_data hin ht]
  by_cases h : f (dataChannel s t) = f (dataChannel w.subscription t)
  · rw [if_pos h, if_pos h]
    rfl
  · rw [if_neg h, if_neg h]
    rfl

/-- A write under `a` about `b.c`. Its channel is also that of a write under `a.b` about `c`. -/
def dottedWrite : Writer where
  node := 0
  subscription := "a"
  envelope := .update { base := some (.ofTarget "b.c"), updates := [{ path := {} }] }
  began := 0

/-- The same write under a name with a blank. -/
def blankWrite : Writer := { dottedWrite with subscription := "a b" }

/-- A NATS broker. -/
def natsBroker : Broker := { kind := .nats, address := "" }

/-- A network with one line, on which channels keep their names. -/
def openLine : Network := { lines := #[{ socket := 0 }] }

theorem hasNoNaN_dottedWrite : dottedWrite.envelope.HasNoNaN := by
  rintro n ⟨rfl⟩ u hu x hx
  obtain rfl := List.mem_singleton.mp hu
  cases hx

/-- **A consumer writes what is published under its own subscription, and nothing else**, on a
medium where channels keep their names. -/
theorem applyRemote_data (hin : ∀ c, Medium.inbound m link c = c)
    (ht : w.envelope.target? = some t) (n : Node) (s : String) :
    (s = w.subscription →
      (n.applyRemote m link s (w.data t)).2 = [.count (.received .ok)] ∧
      (n.applyRemote m link s (w.data t)).1.canonical = (n.keep s w.envelope).canonical ∧
      (w.envelope.HasNoNaN → (n.applyRemote m link s (w.data t)).1 = n.keep s w.envelope)) ∧
    (s ≠ w.subscription →
      n.applyRemote m link s (w.data t) = (n, [.count (.received .foreign)])) ∧
    (w.data t).channel ≠ controlChannel ∧
    controlPost.topic.covers (w.data t).channel = false := by
  have happly := applyRemote_inbound (f := id) hin ht n s
  simp only [Message.named_id, id_eq, dataChannel_left_inj] at happly
  have hne : (w.data t).channel ≠ controlChannel := dataChannel_ne_controlChannel _ _
  refine ⟨fun hs => ?_, fun hs => ?_, hne, ?_⟩
  · rw [if_pos hs] at happly
    refine ⟨congrArg Prod.snd happly, ?_, fun hnan => ?_⟩
    · rw [congrArg Prod.fst happly]
      exact n.canonical_keep_canonical s w.envelope
    · rw [congrArg Prod.fst happly, Envelope.canonical_eq_self hnan]
  · rwa [if_neg hs] at happly
  · exact beq_eq_false_iff_ne.mpr hne.symm

/-- A bus and a Redis broker agree on the channel `a.b.c` of `dottedWrite`: its message is for `a`
and not for `a.b`. -/
theorem applyRemote_dottedWrite :
    ((default : Node).applyRemote openLine 0 "a" (dottedWrite.data "b.c")).1 =
      (default : Node).keep "a" dottedWrite.envelope ∧
    (default : Node).applyRemote openLine 0 "a.b" (dottedWrite.data "b.c") =
      (default, [.count (.received .foreign)]) ∧
    ((default : Node).applyRemote (default : Broker) 0 "a" (dottedWrite.data "b.c")).1 =
      (default : Node).keep "a" dottedWrite.envelope ∧
    (default : Node).applyRemote (default : Broker) 0 "a.b" (dottedWrite.data "b.c") =
      (default, [.count (.received .foreign)]) := by
  have hline := @Network.inbound_of_not_mapped openLine 0 rfl
  have hbroker := Broker.inbound_redis default rfl 0
  exact ⟨((applyRemote_data hline rfl default "a").1 rfl).2.2 hasNoNaN_dottedWrite,
    (applyRemote_data hline rfl default "a.b").2.1 (by decide),
    ((applyRemote_data hbroker rfl default "a").1 rfl).2.2 hasNoNaN_dottedWrite,
    (applyRemote_data hbroker rfl default "a.b").2.1 (by decide)⟩

/-- **A consumer writes what is published under a name with the same subject, and nothing else**, on
a medium where channels are mapped to subjects. Names without blanks and wildcards are their own
subjects. -/
theorem applyRemote_subject (hin : ∀ c, Medium.inbound m link c = subject c)
    (ht : w.envelope.target? = some t) (n : Node) (s : String) :
    (subject s = subject w.subscription →
      n.applyRemote m link s ((w.data t).named subject) =
        (n.keep s w.envelope.canonical, [.count (.received .ok)])) ∧
    (subject s ≠ subject w.subscription →
      n.applyRemote m link s ((w.data t).named subject) =
        (n, [.count (.received .foreign)])) ∧
    (subject s = s → subject w.subscription = w.subscription → s ≠ w.subscription →
      n.applyRemote m link s ((w.data t).named subject) =
        (n, [.count (.received .foreign)])) := by
  have happly := applyRemote_inbound hin ht n s
  simp only [subject_dataChannel_left_inj] at happly
  refine ⟨fun hs => ?_, fun hs => ?_, fun hs hw hne => ?_⟩
  · rw [happly, if_pos hs]
  · rw [happly, if_neg hs]
  · rw [hs, hw] at happly
    rw [happly, if_neg hne]

/-- The names `a_b` and `a b` have one subject, and `a_c` has another. -/
theorem applyRemote_blankWrite :
    (default : Node).applyRemote natsBroker 0 "a_b" ((blankWrite.data "b.c").named subject) =
      ((default : Node).keep "a_b" blankWrite.envelope.canonical, [.count (.received .ok)]) ∧
    (default : Node).applyRemote natsBroker 0 "a_c" ((blankWrite.data "b.c").named subject) =
      (default, [.count (.received .foreign)]) :=
  ⟨(applyRemote_subject (fun _ => rfl) rfl default "a_b").1 (by decide),
    (applyRemote_subject (fun _ => rfl) rfl default "a_c").2.1 (by decide)⟩

/-- A consumer of `a_b` writes what is published under `a b`: that names differ does not keep them
apart. -/
theorem not_applyRemote_of_ne :
    ¬ ∀ (n : Node) (w : Writer) (t s : String), w.envelope.target? = some t →
      (n.applyRemote natsBroker 0 s ((w.data t).named subject)).1.store.store.shelf? s t ≠
        n.store.store.shelf? s t → s = w.subscription := by
  intro h
  have happly : (default : Node).applyRemote natsBroker 0 "a_b"
      ((blankWrite.data "b.c").named subject) = _ :=
    applyRemote_inbound (fun _ => rfl) rfl default "a_b"
  rw [if_pos (by decide)] at happly
  have heq := h default blankWrite "b.c" "a_b" rfl (by rw [happly]; decide)
  exact absurd heq (by decide)

end Node

end Telemetry
