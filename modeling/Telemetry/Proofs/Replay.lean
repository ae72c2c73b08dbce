import Telemetry.Proofs.Core
import Telemetry.Proofs.Remote

/-!
# Replaying a log

What a consumer accepts of a message about a target changes the shelf of that target, and nothing
else of its subscription. A replay hands the messages of a log to a consumer one by one.

* `heard?`: what a message says about the shelf of a target;
* **`Store.shelf_hear_of_some`**, `Store.shelf_hear_of_none`: what a message changes;
* `replay`: a store to which the messages of a log were written in order;
* `accepted_data`, `accepted_of_not_covers`: what is accepted.
-/

namespace Telemetry

/-! ## What concerns a shelf -/

/-- What the consumer of a subscription applies to the shelf of a target. -/
def heard? (s t : String) (m : Message) : Option Notification :=
  (accepted s m).bind fun e => e.about? t

theorem Envelope.canonical_about? (t : String) (e : Envelope) :
    e.canonical.about? t = (e.about? t).map Notification.canonical := by
  rw [about?, about?, canonical_notification?]
  cases e.notification? with
  | none => rfl
  | some n =>
    simp only [Option.map_some, Option.filter, Notification.canonical_isEmpty,
      Notification.canonical_target]
    split <;> rfl

namespace Store

variable {s t : String} {e : Envelope} {m : Message} {n : Notification}

theorem shelf_hear_of_some (h : heard? s t m = some n) (now : ℕ) (st : Store) :
    (st.hear now s m).shelf s t = (st.shelf s t).apply now n := by
  obtain ⟨e, he, habout⟩ := Option.bind_eq_some_iff.mp h
  rw [hear, he]
  exact shelf_write_of_about habout now st

theorem shelf_hear_of_none (h : heard? s t m = none) (now : ℕ) (st : Store) :
    (st.hear now s m).shelf s t = st.shelf s t := by
  rw [hear]
  cases he : accepted s m with
  | none => rfl
  | some e =>
    rw [heard?, he] at h
    exact shelf_write_of_not_about h now st

theorem shelf_deliver_of_ne {s? : Option String} (hs : s? ≠ some s) (now : ℕ) (m? : Option Message)
    (st : Store) : (st.deliver now s? m?).shelf s t = st.shelf s t := by
  cases s? with
  | none => rfl
  | some s' =>
    cases m? with
    | none => rfl
    | some m =>
      have hne : s ≠ s' := fun h => hs (h ▸ rfl)
      rw [deliver, hear]
      cases accepted s' m with
      | none => rfl
      | some e => exact shelf_write_of_ne hne now e st

end Store

/-! ## Replay -/

/-- The store after the messages of a log came in at a consumer, one by one. -/
def replay (s : String) (log : List Message) : Store :=
  log.foldl (fun st m => st.hear 0 s m) {}

theorem replay_concat (s : String) (log : List Message) (m : Message) :
    replay s (log ++ [m]) = (replay s log).hear 0 s m := by
  rw [replay, replay, List.foldl_append]
  rfl

theorem replay_of_none {s : String} {log : List Message} (h : ∀ m ∈ log, accepted s m = none) :
    replay s log = {} := by
  induction log using List.reverseRecOn with
  | nil => rfl
  | append_singleton log m ih =>
    have hm := h m (List.mem_append_right _ List.mem_cons_self)
    rw [replay_concat, ih fun m' hm' => h m' (List.mem_append_left _ hm'), Store.hear, hm]

theorem covers_dataChannel (s t : String) :
    (Node.dataPost s).topic.covers (dataChannel s t) = true := by
  rw [Node.dataPost, Topic.covers, startsWith, dataChannel, String.toList_append]
  exact List.isPrefixOf_iff_prefix.mpr (List.prefix_append _ _)

theorem accepted_of_not_covers {s : String} {m : Message}
    (h : (Node.dataPost s).topic.covers m.channel = false) : accepted s m = none := by
  unfold accepted judge
  split
  · rfl
  · split
    · rfl
    · split
      · rename_i e _ htarget
        obtain ⟨t, _, hchannel⟩ := Option.map_eq_some_iff.mp htarget
        have hcovers := covers_dataChannel s t
        rw [show dataChannel s t = m.channel from hchannel, h] at hcovers
        cases hcovers
      · rfl

theorem accepted_data {w : Writer} {t : String} (ht : w.envelope.target? = some t) :
    accepted w.subscription (w.data t) = some w.envelope.canonical := by
  have hjudge := judge_data (f := id) (fun _ => rfl) ht w.subscription
  rw [if_pos rfl, Message.named_id] at hjudge
  rw [accepted, hjudge]
  rfl

end Telemetry
