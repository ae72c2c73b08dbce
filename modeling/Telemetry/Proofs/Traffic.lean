import Telemetry.Proofs.Listening
import Telemetry.Proofs.Remote

/-!
# What loops do to a network

Only a publish puts a message on the bus. A loop that listens opens a stream, moves its own stream
on, or closes it, whatever happens to the lines and the sockets.

* `Network.Tends`: at most one stream changes, and it keeps its topic;
* **`Listener.act_outcome`**: what a move of a listener does to a network;
* `Listener.fetch_of_act_eq_none`: one that waits has seen all messages;
* `Network.publish_ok`, `Network.publish_error`: what a publish does;
* `Line.name_dataChannel_ne`: data never travels on the control channel.
-/

namespace Telemetry

namespace Network

variable {a b : Network} {σ ρ link : ℕ} {st st' : Stream}

/-- At most the stream `σ` changes. It keeps its topic and its socket, stays closed if it is, and does
not run ahead of the messages. -/
structure Tends (σ : ℕ) (a b : Network) : Prop where
  lines : b.lines = a.lines
  feed : b.bus.feed = a.bus.feed
  sockets : b.bus.sockets = a.bus.sockets
  size : b.bus.streams.size = a.bus.streams.size
  others : ∀ ρ : ℕ, ρ ≠ σ → b.bus.streams[ρ]? = a.bus.streams[ρ]?
  own : ∀ st', b.bus.streams[σ]? = some st' → ∃ st, a.bus.streams[σ]? = some st ∧
    st'.topic = st.topic ∧ st'.socket = st.socket ∧ (st.phase = .ended → st'.phase = .ended) ∧
    (st.next ≤ a.bus.feed.size → st'.next ≤ a.bus.feed.size)

theorem Tends.refl (σ : ℕ) (a : Network) : Tends σ a a :=
  ⟨rfl, rfl, rfl, rfl, fun _ _ => rfl, fun st h => ⟨st, h, rfl, rfl, id, id⟩⟩

theorem tends_setStream (hst : a.bus.streams[σ]? = some st) (htopic : st'.topic = st.topic)
    (hsocket : st'.socket = st.socket) (hphase : st.phase = .ended → st'.phase = .ended)
    (hnext : st.next ≤ a.bus.feed.size → st'.next ≤ a.bus.feed.size) :
    Tends σ a { a with bus := a.bus.setStream σ st' } where
  lines := rfl
  feed := rfl
  sockets := rfl
  size := Array.size_setIfInBounds
  others ρ hne := Array.getElem?_setIfInBounds_ne (Ne.symm hne)
  own st₁ h := by
    have hlt := (Array.getElem?_eq_some_iff.mp hst).1
    have h : (a.bus.streams.setIfInBounds σ st')[σ]? = some st₁ := h
    rw [Array.getElem?_setIfInBounds_self_of_lt hlt] at h
    obtain rfl := Option.some.inj h
    exact ⟨st, hst, htopic, hsocket, hphase, hnext⟩

theorem tends_drop (a : Network) (σ : ℕ) : Tends σ a { a with bus := a.bus.drop σ } := by
  unfold Bus.drop
  split
  · rename_i st hst
    exact tends_setStream hst rfl rfl (fun _ => rfl) id
  · exact .refl σ a

theorem tends_receive (a : Network) (σ : ℕ) : Tends σ a (Medium.receive a σ).1 := by
  show Tends σ a { a with bus := (a.bus.receive σ).1 }
  unfold Bus.receive
  split
  · exact .refl σ a
  · rename_i st hst
    split
    · exact .refl σ a
    · rename_i hphase
      split
      · exact tends_drop a σ
      · split
        · rename_i m hfetch
          have hm := (Feed.fetch_eq_item_iff _ _ _).mp hfetch
          have hlt : st.next < a.bus.feed.size := (Array.getElem?_eq_some_iff.mp hm.2).1
          exact tends_setStream hst rfl rfl (fun h => absurd h hphase) fun _ => hlt
        · rename_i k hfetch
          have hnext := (lagged_of_fetch hfetch).2
          rw [length_log] at hnext
          exact tends_setStream hst rfl rfl (fun h => absurd h hphase) fun _ => hnext
        · split
          · exact .refl σ a
          · exact tends_setStream hst rfl rfl (fun h => absurd h hphase) id

theorem Tends.trans {c : Network} (hab : Tends σ a b) (hbc : Tends σ b c) : Tends σ a c where
  lines := hbc.lines.trans hab.lines
  feed := hbc.feed.trans hab.feed
  sockets := hbc.sockets.trans hab.sockets
  size := hbc.size.trans hab.size
  others ρ hne := (hbc.others ρ hne).trans (hab.others ρ hne)
  own st' h := by
    obtain ⟨st₁, h₁, htopic₁, hsocket₁, hphase₁, hnext₁⟩ := hbc.own st' h
    obtain ⟨st, hst, htopic, hsocket, hphase, hnext⟩ := hab.own st₁ h₁
    rw [hab.feed] at hnext₁
    exact ⟨st, hst, htopic₁.trans htopic, hsocket₁.trans hsocket, fun h => hphase₁ (hphase h),
      fun h => hnext₁ (hnext h)⟩

/-! ## Subscribing and publishing -/

theorem subscribe_cases (a : Network) (link : ℕ) (t : Topic) :
    ((Medium.subscribe a link t).1.bus = a.bus ∧ ∃ e, (Medium.subscribe a link t).2 = .error e) ∨
    ∃ st : Stream, (st.phase = .ended ∨ st.topic = (a.line link).topic t) ∧
      st.next ≤ a.bus.feed.size ∧
      (Medium.subscribe a link t).1.bus = { a.bus with streams := a.bus.streams.push st } ∧
      (Medium.subscribe a link t).2 = .ok a.bus.streams.size := by
  show ((Network.subscribe a link t).1.bus = a.bus ∧ ∃ e, (Network.subscribe a link t).2 = .error e) ∨
    ∃ st : Stream, (st.phase = .ended ∨ st.topic = (a.line link).topic t) ∧
      st.next ≤ a.bus.feed.size ∧
      (Network.subscribe a link t).1.bus = { a.bus with streams := a.bus.streams.push st } ∧
      (Network.subscribe a link t).2 = .ok a.bus.streams.size
  unfold Network.subscribe
  dsimp only
  split
  · exact .inl ⟨rfl, _, rfl⟩
  · split
    · exact .inr ⟨default, .inl rfl, Nat.zero_le _, rfl, rfl⟩
    · unfold Bus.subscribe
      split
      · rename_i hclosed
        split at hclosed
        · cases hclosed
        · obtain ⟨rfl, rfl⟩ := Prod.mk.inj (Except.ok.inj hclosed)
          exact .inr ⟨_, .inr rfl, Nat.le_refl _, rfl, rfl⟩
      · exact .inl ⟨rfl, _, rfl⟩

theorem publish_ok {m : Message} (h : Medium.publish a link m = (b, .ok ())) :
    b = a.put { m with channel := (a.line link).name m.channel } := by
  have h : Network.publish a link m = (b, .ok ()) := h
  unfold Network.publish Bus.publish at h
  dsimp only at h
  split at h
  · cases h
  · split at h
    · rename_i bus hbus
      split at hbus
      · cases hbus
      · obtain rfl := Except.ok.inj hbus
        exact (Prod.mk.inj h).1.symm
    · cases h

theorem publish_error {m : Message} {e : TransportError}
    (h : Medium.publish a link m = (b, .error e)) : b = a := by
  have h : Network.publish a link m = (b, .error e) := h
  unfold Network.publish at h
  dsimp only at h
  split at h
  · exact (Prod.mk.inj h).1.symm
  · split at h
    · cases h
    · exact (Prod.mk.inj h).1.symm

end Network

/-! ## Names on the bus -/

theorem Line.name_controlChannel (l : Line) : l.name controlChannel = controlChannel := by
  unfold Line.name
  split
  · decide
  · rfl

theorem Line.topic_control (l : Line) : l.topic (.exact controlChannel) = .exact controlChannel := by
  rw [Line.topic, l.name_controlChannel]

theorem Line.name_dataChannel_ne (l : Line) (s t : String) :
    l.name (dataChannel s t) ≠ controlChannel := by
  unfold Line.name
  split
  · intro h
    have hmem : subjectChar separator ∈ (subject (dataChannel s t)).toList := by
      rw [subject, String.toList_ofList, toList_dataChannel]
      exact List.mem_map_of_mem (List.mem_append_right _ List.mem_cons_self)
    rw [h] at hmem
    exact absurd hmem (by decide)
  · exact dataChannel_ne_controlChannel s t

/-! ## Listeners -/

/-- What a move of a listener does to a network. -/
inductive Listener.Outcome (post : Post) (link : ℕ) (a : Network) (l : Listener)
    (h : Heard Network) : Prop
  | rest : (∀ σ, l ≠ .listening σ) → (∀ σ, h.listener ≠ .listening σ) → h.medium.bus = a.bus →
      h.message = none → Outcome post link a l h
  | subscribe {st : Stream} : (∀ σ, l ≠ .listening σ) →
      (st.phase = .ended ∨ st.topic = (a.line link).topic post.topic) →
      st.next ≤ a.bus.feed.size →
      h.listener = .listening a.bus.streams.size →
      h.medium.bus = { a.bus with streams := a.bus.streams.push st } →
      h.message = none → Outcome post link a l h
  | tend {σ : ℕ} : l = .listening σ → h.listener = .listening σ → Network.Tends σ a h.medium →
      Outcome post link a l h
  | leave {σ : ℕ} : l = .listening σ → (∀ σ, h.listener ≠ .listening σ) →
      Network.Tends σ a h.medium → h.message = none → Outcome post link a l h

/-- **What a move of a listener does to a network.** -/
theorem Listener.act_outcome {post : Post} {link now : ℕ} {cancelled : Bool} {a : Network}
    {l : Listener} {h : Heard Network} (hact : act post link cancelled now a l = some h) :
    Outcome post link a l h := by
  cases l with
  | attempting failures delay =>
    have hnot : ∀ σ, Listener.attempting failures delay ≠ .listening σ := fun σ => by simp
    simp only [act] at hact
    split at hact
    · obtain rfl := Option.some.inj hact
      exact .rest hnot (by simp) rfl rfl
    · rcases Network.subscribe_cases a link post.topic with
        ⟨hbus, e, he⟩ | ⟨st, hst, hnext, hbus, hok⟩
      · split at hact
        · rename_i hsub
          rw [hsub] at he
          cases he
        · rename_i b e' hsub
          rw [hsub] at hbus
          obtain rfl := Option.some.inj hact
          exact .rest hnot (by simp) hbus rfl
      · split at hact
        · rename_i b id hsub
          rw [hsub] at hbus hok
          obtain rfl := Option.some.inj hact
          exact .subscribe hnot hst hnext (congrArg Listener.listening (Except.ok.inj hok)) hbus rfl
        · rename_i hsub
          rw [hsub] at hok
          cases hok
  | resting wake failures delay =>
    have hnot : ∀ σ, Listener.resting wake failures delay ≠ .listening σ := fun σ => by simp
    simp only [act] at hact
    split at hact
    · obtain rfl := Option.some.inj hact
      exact .rest hnot (by simp) rfl rfl
    · split at hact
      · obtain rfl := Option.some.inj hact
        exact .rest hnot (by simp) rfl rfl
      · cases hact
  | listening σ =>
    have htends := Network.tends_receive a σ
    simp only [act] at hact
    split at hact
    · obtain rfl := Option.some.inj hact
      exact .leave rfl (by simp) (Network.tends_drop a σ) rfl
    · split at hact
      all_goals rename_i hrec
      all_goals rw [hrec] at htends
      · obtain rfl := Option.some.inj hact
        exact .tend rfl rfl htends
      · obtain rfl := Option.some.inj hact
        exact .tend rfl rfl htends
      · obtain rfl := Option.some.inj hact
        exact .tend rfl rfl htends
      · obtain rfl := Option.some.inj hact
        exact .tend rfl rfl htends
      · cases hact
      · rename_i b
        obtain rfl := Option.some.inj hact
        exact .leave rfl (by simp [Listener.fresh]) (htends.trans (Network.tends_drop b σ)) rfl
  | ended => cases hact

theorem Listener.ne_ended_of_act {μ : Type} [Medium μ] {post : Post} {link now : ℕ} {a : μ}
    {l : Listener} {h : Heard μ} (hact : act post link false now a l = some h) :
    h.listener ≠ .ended := by
  cases l with
  | attempting failures delay =>
    simp only [act, Bool.false_eq_true, if_false] at hact
    split at hact
    · obtain rfl := Option.some.inj hact
      exact Listener.noConfusion
    · obtain rfl := Option.some.inj hact
      exact Listener.noConfusion
  | resting wake failures delay =>
    simp only [act, Bool.false_eq_true, if_false] at hact
    split at hact
    · obtain rfl := Option.some.inj hact
      exact Listener.noConfusion
    · cases hact
  | listening σ =>
    simp only [act, Bool.false_eq_true, if_false] at hact
    split at hact
    · obtain rfl := Option.some.inj hact
      exact Listener.noConfusion
    · obtain rfl := Option.some.inj hact
      exact Listener.noConfusion
    · obtain rfl := Option.some.inj hact
      exact Listener.noConfusion
    · obtain rfl := Option.some.inj hact
      exact Listener.noConfusion
    · cases hact
    · obtain rfl := Option.some.inj hact
      exact Listener.noConfusion
  | ended => cases hact

theorem Listener.fetch_of_act_eq_none {a : Network} {post : Post} {link now σ : ℕ} {st : Stream}
    (hst : a.bus.streams[σ]? = some st) (hphase : st.phase ≠ .ended)
    (hsocket : a.bus.isClosed st.socket = false)
    (hact : Listener.act post link false now a (.listening σ) = none) :
    a.bus.feed.fetch st.next = .caughtUp := by
  have hwaiting : (a.bus.receive σ).2 = .waiting := by
    simp only [act, Bool.false_eq_true, if_false] at hact
    split at hact
    · cases hact
    · cases hact
    · cases hact
    · cases hact
    · rename_i b hrec
      exact congrArg Prod.snd hrec
    · cases hact
  have hidle : ¬ (st.phase = .idle ∧ a.bus.isClosed st.socket = true) := by simp [hsocket]
  simp only [Bus.receive, hst, if_neg hphase, if_neg hidle] at hwaiting
  cases hfetch : a.bus.feed.fetch st.next with
  | caughtUp => rfl
  | lagged k =>
    rw [hfetch] at hwaiting
    cases hwaiting
  | item m =>
    rw [hfetch] at hwaiting
    dsimp only at hwaiting
    split at hwaiting
    · cases hwaiting
    · cases hwaiting

end Telemetry
