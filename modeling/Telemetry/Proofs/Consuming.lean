import Telemetry.Proofs.Traffic

/-!
# What a consumer makes of its messages

A consumer gets messages from outside, of which it has to expect anything. It writes those that
belong to its subscription, in the order in which they come, and nothing else; and it counts every
message once, under what became of it. No message ends it, and none makes it miss the next one: it
goes on until its node is cancelled, also when its streams end.

* `Message.belonging`, `Message.verdict`: the envelope that a message has for a subscription, and
  what becomes of the message;
* `Judgement.accounts`: what is reported of one message;
* `Node.taken`: the message that a consumer gets by a move;
* `Node.Consuming`: the moves of one consumer, among all else that happens to its node;
* **`Node.Accounts.move`**: one move;
* **`Node.Consuming.accounts`**: all of them.
-/

namespace Telemetry

/-! ## Messages -/

theorem Envelope.target?_eq_some_iff {e : Envelope} {t : String} :
    e.target? = some t ↔ ∃ n, e = .update n ∧ n.target = t ∧ t ≠ "" := by
  cases e with
  | update n =>
    have htarget : (Envelope.update n).target? = if n.target.isEmpty then none else some n.target :=
      rfl
    by_cases h : n.target = ""
    · rw [htarget, if_pos (String.isEmpty_iff.mpr h)]
      constructor
      · intro hnone
        cases hnone
      · rintro ⟨_, ⟨rfl⟩, rfl, hne⟩
        exact absurd h hne
    · rw [htarget, if_neg (mt String.isEmpty_iff.mp h), Option.some.injEq]
      constructor
      · rintro rfl
        exact ⟨n, rfl, rfl, h⟩
      · rintro ⟨_, ⟨rfl⟩, ht, -⟩
        exact ht
  | syncResponse b | error x => simp [Envelope.target?, Envelope.notification?]

namespace Message

/-- The envelope in a message that belongs to a subscription: that of an update with a target, on
the channel under which the data about this target comes in. -/
def belonging (f : String → String) (s : String) (m : Message) : Option Envelope :=
  (Envelope.decode m.payload).toOption.filter fun e =>
    e.target?.map (fun t => f (dataChannel s t)) == some m.channel

/-- What becomes of a message. -/
def verdict (f : String → String) (s : String) (m : Message) : Verdict :=
  if m.payload.isEmpty then .empty
  else
    match Envelope.decode m.payload with
    | .error _ => .error
    | .ok _ => if (m.belonging f s).isSome then .ok else .foreign

variable {f : String → String} {s : String} {m : Message} {e : Envelope}

theorem belonging_eq_some_iff : m.belonging f s = some e ↔ ∃ n, e = .update n ∧ n.target ≠ "" ∧
    Envelope.decode m.payload = .ok e ∧ m.channel = f (dataChannel s n.target) := by
  have hdecode : (Envelope.decode m.payload).toOption = some e ↔
      Envelope.decode m.payload = .ok e := by
    cases Envelope.decode m.payload <;> simp [Except.toOption]
  rw [belonging, Option.filter_eq_some_iff, hdecode, beq_iff_eq, Option.map_eq_some_iff]
  simp only [Envelope.target?_eq_some_iff]
  constructor
  · rintro ⟨hd, _, ⟨n, rfl, rfl, ht⟩, hc⟩
    exact ⟨n, rfl, ht, hd, hc.symm⟩
  · rintro ⟨n, rfl, ht, hd, hc⟩
    exact ⟨hd, _, ⟨n, rfl, rfl, ht⟩, hc.symm⟩

theorem envelope?_judge : (judge f s m).envelope? = m.belonging f s := by
  rw [judge, belonging]
  by_cases hempty : m.payload.isEmpty = true
  · simp [hempty, Envelope.decode, Except.toOption, Judgement.envelope?]
  · rw [if_neg hempty]
    cases Envelope.decode m.payload with
    | error cause => rfl
    | ok e =>
      by_cases h : e.target?.map (fun t => f (dataChannel s t)) = some m.channel <;>
        simp [h, Except.toOption, Judgement.envelope?, Option.filter]

theorem verdict_eq_ok_iff : m.verdict f s = .ok ↔ (m.belonging f s).isSome = true := by
  by_cases hempty : m.payload.isEmpty = true
  · simp [verdict, belonging, hempty, Envelope.decode, Except.toOption]
  · cases hd : Envelope.decode m.payload with
    | error cause => simp [verdict, belonging, hempty, hd, Except.toOption]
    | ok e =>
      have hverdict : m.verdict f s = if (m.belonging f s).isSome then .ok else .foreign := by
        simp only [verdict, if_neg hempty, hd]
      cases h : (m.belonging f s).isSome <;> simp [hverdict, h]

end Message

/-! ## Reports -/

/-- The verdict that a report counts. -/
def Signal.verdict? : Signal → Option Verdict
  | .count (.received v) => some v
  | _ => none

namespace Judgement

def verdict : Judgement → Verdict
  | empty => .empty
  | unreadable _ => .error
  | foreign => .foreign
  | accepted _ => .ok

theorem verdict_judge {f : String → String} {s : String} {m : Message} :
    (judge f s m).verdict = m.verdict f s := by
  rw [Message.verdict, ← Message.envelope?_judge, judge]
  by_cases hempty : m.payload.isEmpty = true
  · rw [if_pos hempty, if_pos hempty]
    rfl
  · rw [if_neg hempty, if_neg hempty]
    cases Envelope.decode m.payload with
    | error cause => rfl
    | ok e =>
      dsimp only
      split <;> rfl

theorem filterMap_signals (j : Judgement) (channel : String) :
    (j.signals channel).filterMap Signal.verdict? = [j.verdict] := by
  cases j <;> rfl

theorem count_signals (j : Judgement) (channel : String) :
    (j.signals channel).count (.count .decodeError) =
      (j.signals channel).count (.count (.received .error)) := by
  cases j <;> rfl

end Judgement

/-- The reports count each of the messages once, under its verdict, and those that cannot be read
once more. -/
structure Reports (f : String → String) (s : String) (signals : List Signal)
    (messages : List Message) : Prop where
  verdicts : signals.filterMap Signal.verdict? = messages.map (·.verdict f s)
  errors : signals.count (.count .decodeError) = signals.count (.count (.received .error))

namespace Reports

variable {f : String → String} {s : String} {x y : List Signal} {ms ms' : List Message}

theorem nil : Reports f s [] [] := ⟨rfl, rfl⟩

theorem append (h : Reports f s x ms) (h' : Reports f s y ms') :
    Reports f s (x ++ y) (ms ++ ms') where
  verdicts := by rw [List.filterMap_append, List.map_append, h.verdicts, h'.verdicts]
  errors := by rw [List.count_append, List.count_append, h.errors, h'.errors]

theorem judged (m : Message) : Reports f s ((judge f s m).signals m.channel) [m] where
  verdicts := by rw [Judgement.filterMap_signals, Judgement.verdict_judge, List.map_singleton]
  errors := Judgement.count_signals _ _

theorem of_quiet (h : ∀ z ∈ x, z.verdict? = none ∧ z ≠ .count .decodeError) :
    Reports f s x [] where
  verdicts := by
    rw [List.map_nil, List.filterMap_eq_nil_iff]
    exact fun z hz => (h z hz).1
  errors := by
    rw [List.count_eq_zero_of_not_mem fun hz => (h _ hz).2 rfl,
      List.count_eq_zero_of_not_mem fun hz => by cases (h _ hz).1]

theorem count_received (x : List Signal) (v : Verdict) :
    x.count (.count (.received v)) = (x.filterMap Signal.verdict?).count v := by
  rw [List.count_filterMap, List.count_eq_countP]
  refine List.countP_congr fun z _ => ?_
  rcases z with ⟨v' | _⟩ | _ | _ <;> simp [Signal.verdict?]

theorem count_ok (h : Reports f s x ms) :
    x.count (.count (.received .ok)) = (ms.filterMap (·.belonging f s)).length := by
  rw [count_received, h.verdicts, List.count_eq_countP, List.countP_map,
    List.length_filterMap_eq_countP]
  refine List.countP_congr fun m _ => ?_
  simp [Message.verdict_eq_ok_iff]

end Reports

/-! ## One move -/

namespace Listener

variable {μ : Type} [Medium μ] {post : Post} {link now : ℕ} {cancelled : Bool} {m : μ}
  {l : Listener} {h : Heard μ}

/-- What a listener gets comes from its stream, and it goes on with that. What else it reports has
nothing to do with messages. -/
theorem act_listens (hact : l.act post link cancelled now m = some h) :
    (∃ σ msg, l = .listening σ ∧ cancelled = false ∧ Medium.receive m σ = (h.medium, .message msg) ∧
      h = { medium := h.medium, listener := .listening σ, message := some msg }) ∨
    h.message = none ∧ ∀ x ∈ h.signals, x.verdict? = none ∧ x ≠ .count .decodeError := by
  cases l with
  | attempting failures delay =>
    simp only [act] at hact
    split at hact
    · obtain rfl := Option.some.inj hact
      exact .inr ⟨rfl, by simp⟩
    · split at hact
      · obtain rfl := Option.some.inj hact
        exact .inr ⟨rfl, by simp⟩
      · obtain rfl := Option.some.inj hact
        exact .inr ⟨rfl, by simp [Signal.verdict?]⟩
  | resting wake failures delay =>
    simp only [act] at hact
    split at hact
    · obtain rfl := Option.some.inj hact
      exact .inr ⟨rfl, by simp⟩
    · split at hact
      · obtain rfl := Option.some.inj hact
        exact .inr ⟨rfl, by simp⟩
      · cases hact
  | listening σ =>
    cases hcancelled : cancelled with
    | true =>
      rw [act, if_pos hcancelled] at hact
      obtain rfl := Option.some.inj hact
      exact .inr ⟨rfl, by simp⟩
    | false =>
      rw [act, if_neg (by simp [hcancelled])] at hact
      cases hrec : Medium.receive m σ with
      | mk b r =>
        rw [hrec] at hact
        cases r with
        | message msg =>
          obtain rfl := Option.some.inj hact
          exact .inl ⟨σ, msg, rfl, rfl, hrec, rfl⟩
        | passed | parked | ended | lagged k =>
          obtain rfl := Option.some.inj hact
          exact .inr ⟨rfl, by simp [Signal.verdict?]⟩
        | waiting => cases hact
  | ended => cases hact

end Listener

namespace Node

variable {μ : Type} [Medium μ] {f : String → String} {k now link : ℕ} {m : μ} {n n' : Node}
  {co : Consumer} {mv : Move μ}

/-- The message that a consumer gets by its next move. -/
def taken (now k : ℕ) (m : μ) (n : Node) : Option Message :=
  n.link.bind fun link => n.consumers[k]?.bind fun co =>
    (co.listener.act (dataPost co.subscription) link n.cancelled now m).bind (·.message)

theorem taken_eq (hlink : n.link = some link) (hco : n.consumers[k]? = some co) :
    n.taken now k m =
      (co.listener.act (dataPost co.subscription) link n.cancelled now m).bind (·.message) := by
  rw [taken, hlink, Option.bind_some, hco, Option.bind_some]

/-- **A consumer takes what its stream has for it**, whatever that is, as long as it is not
cancelled, and nothing else. -/
theorem taken_eq_some_iff {msg : Message} : n.taken now k m = some msg ↔
    n.cancelled = false ∧ n.link.isSome = true ∧ ∃ s σ, n.consumers[k]? = some ⟨s, .listening σ⟩ ∧
      (Medium.receive m σ).2 = .message msg := by
  constructor
  · intro h
    obtain ⟨link, hlink, h⟩ := Option.bind_eq_some_iff.mp h
    obtain ⟨co, hco, h⟩ := Option.bind_eq_some_iff.mp h
    obtain ⟨got, hact, hmsg⟩ := Option.bind_eq_some_iff.mp h
    rcases Listener.act_listens hact with ⟨σ, msg', hl, hcancelled, hrec, hgot⟩ | ⟨hnone, -⟩
    · rw [hgot] at hmsg
      obtain rfl := Option.some.inj hmsg
      exact ⟨hcancelled, by rw [hlink]; rfl, co.subscription, σ, by rw [hco, ← hl], by rw [hrec]⟩
    · rw [hnone] at hmsg
      cases hmsg
  · rintro ⟨hcancelled, hlink, s, σ, hco, hrec⟩
    obtain ⟨link, hlink⟩ := Option.isSome_iff_exists.mp hlink
    rw [taken_eq hlink hco, hcancelled, Listener.act, if_neg Bool.false_ne_true]
    split <;> simp_all

theorem consume_accounts (h : n.consume now k m = some mv) (hlink : n.link = some link)
    (hf : Medium.inbound mv.medium link = f) : ∃ co l, n.consumers[k]? = some co ∧
      mv.node.consumers[k]? = some { co with listener := l } ∧
      ((n.taken now k m).isSome = true → l = co.listener) ∧ (n.cancelled = false → l ≠ .ended) ∧
      mv.node.link = n.link ∧ mv.node.cancelled = n.cancelled ∧
      mv.node.store = ((n.taken now k m).bind (·.belonging f co.subscription)).elim n.store
        (n.store.write co.subscription) ∧
      Reports f co.subscription mv.signals (n.taken now k m).toList := by
  unfold consume at h
  split at h
  · rename_i link' co hlink' hco
    obtain rfl := Option.some.inj (hlink.symm.trans hlink')
    obtain ⟨⟨b, l, message, signals⟩, hact, rfl⟩ := Option.map_eq_some_iff.mp h
    have hlt := (List.getElem?_eq_some_iff.mp hco).1
    have hended : n.cancelled = false → l ≠ .ended := fun hc =>
      Listener.ne_ended_of_act (by rwa [hc] at hact)
    rw [taken_eq hlink hco, hact, Option.bind_some]
    refine ⟨co, l, ?_⟩
    rcases Listener.act_listens hact with ⟨σ, msg, hl, -, -, hgot⟩ | ⟨hnone, hquiet⟩
    · obtain ⟨-, rfl, rfl, rfl⟩ := Heard.mk.inj hgot
      have hb : Medium.inbound b link = f := hf
      have happly (n₁ : Node) : applyRemote b link co.subscription msg n₁ =
          ((msg.belonging f co.subscription).elim n₁ (n₁.keep co.subscription),
            (judge f co.subscription msg).signals msg.channel) := by
        rw [applyRemote, hb, ← Message.envelope?_judge]
        cases (judge f co.subscription msg).envelope? <;> rfl
      refine ⟨hco, ?_⟩
      simp only [happly, Option.bind_some]
      cases msg.belonging f co.subscription with
      | none | some e =>
        exact ⟨List.getElem?_set_self hlt, fun _ => hl.symm, hended, rfl, rfl, rfl, .judged msg⟩
    · obtain rfl : message = none := hnone
      exact ⟨hco, List.getElem?_set_self hlt, fun hsome => absurd hsome (by simp), hended, rfl, rfl,
        rfl, Reports.of_quiet hquiet⟩
  · cases h

theorem exists_consume {s : String} {σ : ℕ} {msg : Message} (now : ℕ) (hlink : n.link = some link)
    (hcancelled : n.cancelled = false) (hco : n.consumers[k]? = some ⟨s, .listening σ⟩)
    (hrec : (Medium.receive m σ).2 = .message msg) : n.taken now k m = some msg ∧
      ∃ mv, n.consume now k m = some mv ∧ mv.medium = (Medium.receive m σ).1 ∧
        mv.node.link = some link ∧ mv.node.cancelled = false ∧
        mv.node.consumers[k]? = some ⟨s, .listening σ⟩ := by
  have htaken : n.taken now k m = some msg :=
    taken_eq_some_iff.mpr ⟨hcancelled, by rw [hlink]; rfl, s, σ, hco, hrec⟩
  have hact : (Listener.listening σ).act (dataPost s) link n.cancelled now m =
      some { medium := (Medium.receive m σ).1, listener := .listening σ, message := some msg } := by
    rw [Listener.act, hcancelled, if_neg Bool.false_ne_true,
      ← Prod.mk.eta (p := Medium.receive m σ), hrec]
  refine ⟨htaken, ?_⟩
  cases hmv : n.consume now k m with
  | none => simp [consume, hlink, hco, hact] at hmv
  | some mv =>
    obtain ⟨co, l, hco', hnew, hstays, -, hlink', hcancelled', -⟩ := consume_accounts hmv hlink rfl
    obtain rfl := Option.some.inj (hco.symm.trans hco')
    refine ⟨mv, rfl, ?_, hlink'.trans hlink, hcancelled'.trans hcancelled, ?_⟩
    · simp only [consume, hlink, hco, hact, Option.map_some, Option.some.injEq] at hmv
      rw [← hmv]
    · rw [hnew, hstays (by rw [htaken]; rfl)]

end Node

/-! ## All moves -/

/-- What happens to the store of a consumer: a message comes in, or something else changes it. -/
inductive Intake where
  | message (m : Message)
  | aside (g : Watched → Watched)

namespace Intake

def message? : Intake → Option Message
  | message m => some m
  | aside _ => none

/-- What it should do to the store: a message that belongs to the subscription is written, and any
other one might as well not have come. -/
def effect (f : String → String) (s : String) : Intake → Option (Watched → Watched)
  | message m => (m.belonging f s).map fun e w => w.write s e
  | aside g => some g

theorem filterMap_effect (f : String → String) (s : String) (ms : List Message) :
    (ms.map message).filterMap (effect f s) =
      (ms.filterMap (·.belonging f s)).map fun e w => w.write s e := by
  rw [List.filterMap_map, List.map_filterMap]
  rfl

theorem filterMap_message? (ms : List Message) : (ms.map message).filterMap message? = ms := by
  rw [List.filterMap_map]
  exact List.filterMap_some

end Intake

namespace Node

variable {μ : Type} [Medium μ] {f : String → String} {k now link : ℕ} {m : μ} {n n' n'' : Node}
  {co : Consumer} {mv : Move μ}

/-- The consumer `k` of a node goes on over any medium, which shows a channel under the name that
`f` gives it; in between the other loops and calls of the node do as they like with the store.
Tokens stay cancelled. -/
inductive Consuming (μ : Type) [Medium μ] (f : String → String) (k : ℕ) (n : Node) :
    List Intake → List Signal → Node → Prop
  | start : Consuming μ f k n [] [] n
  | move {events : List Intake} {signals : List Signal} {n' : Node} {now link : ℕ} {m : μ}
      {mv : Move μ} : Consuming μ f k n events signals n' → n'.link = some link →
      Medium.inbound mv.medium link = f → n'.consume now k m = some mv →
      Consuming μ f k n (events ++ (n'.taken now k m).toList.map .message) (signals ++ mv.signals)
        mv.node
  | aside {events : List Intake} {signals : List Signal} {n' n'' : Node} (g : Watched → Watched) :
      Consuming μ f k n events signals n' → n''.store = g n'.store → n''.link = n'.link →
      n''.consumers[k]? = n'.consumers[k]? → (n'.cancelled = true → n''.cancelled = true) →
      Consuming μ f k n (events ++ [.aside g]) signals n''

/-- What the moves of a consumer come to. -/
structure Accounts (f : String → String) (k : ℕ) (n : Node) (co : Consumer) (events : List Intake)
    (signals : List Signal) (n' : Node) : Prop where
  store : n'.store = (events.filterMap (·.effect f co.subscription)).foldl (fun w g => g w) n.store
  reports : Reports f co.subscription signals (events.filterMap Intake.message?)
  consumer : ∃ l, n'.consumers[k]? = some { co with listener := l } ∧
    (co.listener ≠ .ended → n'.cancelled = false → l ≠ .ended)

theorem Accounts.move {events : List Intake} {signals : List Signal}
    (h : Accounts f k n co events signals n') (hlink : n'.link = some link)
    (hf : Medium.inbound mv.medium link = f) (hmove : n'.consume now k m = some mv) :
    Accounts f k n co (events ++ (n'.taken now k m).toList.map .message) (signals ++ mv.signals)
      mv.node := by
  obtain ⟨l, hco, -⟩ := h.consumer
  obtain ⟨co', l', hco', hnew, -, hended, -, hcancelled, hstore, hreports⟩ :=
    consume_accounts hmove hlink hf
  obtain rfl := Option.some.inj (hco.symm.trans hco')
  refine ⟨?_, ?_, l', hnew, fun _ hc => hended (hcancelled ▸ hc)⟩
  · rw [List.filterMap_append, List.foldl_append, ← h.store, hstore]
    cases n'.taken now k m with
    | none => rfl
    | some msg =>
      rw [Option.bind_some]
      cases hb : msg.belonging f co.subscription <;> simp [Intake.effect, hb]
  · have htaken : ((n'.taken now k m).toList.map Intake.message).filterMap Intake.message? =
        (n'.taken now k m).toList := by
      cases n'.taken now k m <;> rfl
    rw [List.filterMap_append, htaken]
    exact h.reports.append hreports

theorem Accounts.aside {events : List Intake} {signals : List Signal} {g : Watched → Watched}
    (h : Accounts f k n co events signals n') (hstore : n''.store = g n'.store)
    (hco : n''.consumers[k]? = n'.consumers[k]?)
    (hcancelled : n'.cancelled = true → n''.cancelled = true) :
    Accounts f k n co (events ++ [.aside g]) signals n'' := by
  obtain ⟨l, hl, hended⟩ := h.consumer
  refine ⟨?_, ?_, l, hco.trans hl, fun hne hc => hended hne ?_⟩
  · rw [List.filterMap_append, List.foldl_append, ← h.store, hstore]
    rfl
  · rw [List.filterMap_append]
    exact (List.append_nil (events.filterMap Intake.message?)).symm ▸ h.reports
  · by_contra hnot
    rw [hcancelled (by simpa using hnot)] at hc
    cases hc

theorem Consuming.accounts_of {events : List Intake} {signals : List Signal}
    (h : Consuming μ f k n events signals n') (hco : n.consumers[k]? = some co) :
    Accounts f k n co events signals n' := by
  induction h with
  | start => exact ⟨rfl, .nil, co.listener, hco, fun hne _ => hne⟩
  | move _ hlink hf hmove ih => exact ih.move hlink hf hmove
  | aside g _ hstore _ hconsumer hcancelled ih => exact ih.aside hstore hconsumer hcancelled

/-- **Garbage is inert and every message is accounted for.** After any moves of a consumer its store
is as if only those messages had been written that are updates with a target and came on the channel
of that target, in order. Each message is counted once, under one verdict. The consumer has not
ended unless it is cancelled, and it takes whatever its stream has for it next, without leaving the
stream. -/
theorem Consuming.accounts {events : List Intake} {signals : List Signal}
    (h : Consuming μ f k n events signals n') (hco : n.consumers[k]? = some co) :
    let s := co.subscription
    let messages := events.filterMap Intake.message?
    (n'.store = (events.filterMap (·.effect f s)).foldl (fun w g => g w) n.store ∧
      (events = messages.map .message → n'.store =
        (messages.filterMap (·.belonging f s)).foldl (fun w e => w.write s e) n.store) ∧
      ∀ (m : Message) e, m.belonging f s = some e ↔ ∃ x, e = .update x ∧ x.target ≠ "" ∧
        Envelope.decode m.payload = .ok e ∧ m.channel = f (dataChannel s x.target)) ∧
    (signals.filterMap Signal.verdict? = messages.map (·.verdict f s) ∧
      signals.count (.count .decodeError) = signals.count (.count (.received .error)) ∧
      signals.count (.count (.received .ok)) = (messages.filterMap (·.belonging f s)).length) ∧
    (∃ l, n'.consumers[k]? = some ⟨s, l⟩ ∧
      (co.listener ≠ .ended → n'.cancelled = false → l ≠ .ended)) ∧
    ∀ now (m : μ) σ msg, n'.link.isSome = true → n'.cancelled = false →
      n'.consumers[k]? = some ⟨s, .listening σ⟩ → (Medium.receive m σ).2 = .message msg →
      n'.taken now k m = some msg ∧ ∃ mv, n'.consume now k m = some mv ∧
        mv.node.consumers[k]? = some ⟨s, .listening σ⟩ := by
  intro s messages
  have haccounts := h.accounts_of hco
  refine ⟨⟨haccounts.store, fun hevents => ?_, fun m e => Message.belonging_eq_some_iff⟩,
    ⟨haccounts.reports.verdicts, haccounts.reports.errors, haccounts.reports.count_ok⟩,
    haccounts.consumer, fun now m σ msg hlink hcancelled hl hrec => ?_⟩
  · rw [haccounts.store, hevents, Intake.filterMap_effect, List.foldl_map]
  · obtain ⟨link, hlink⟩ := Option.isSome_iff_exists.mp hlink
    obtain ⟨htaken, mv, hmv, -, -, -, hstays⟩ := exists_consume now hlink hcancelled hl hrec
    exact ⟨htaken, mv, hmv, hstays⟩

/-! ## A run -/

theorem Consuming.take {events : List Intake} {signals : List Signal} {s : String} {σ : ℕ}
    {msg : Message} (h : Consuming μ f k n events signals n')
    (hlistens : n'.link = some link ∧ n'.cancelled = false ∧
      n'.consumers[k]? = some ⟨s, .listening σ⟩)
    (hf : Medium.inbound (Medium.receive m σ).1 link = f)
    (hrec : (Medium.receive m σ).2 = .message msg) :
    ∃ signals' n'', Consuming μ f k n (events ++ [.message msg]) signals' n'' ∧
      n''.link = some link ∧ n''.cancelled = false ∧
      n''.consumers[k]? = some ⟨s, .listening σ⟩ := by
  obtain ⟨hlink, hcancelled, hl⟩ := hlistens
  obtain ⟨htaken, mv, hmv, hmedium, hlistens'⟩ := exists_consume 0 hlink hcancelled hl hrec
  have hmoved := h.move hlink (by rw [hmedium, hf]) hmv
  rw [htaken] at hmoved
  exact ⟨_, mv.node, hmoved, hlistens'⟩

/-- A network with one line, over which a stream has the message next. -/
def bringing (msg : Message) : Network where
  bus := {
    feed := { capacity := busCapacity, items := #[msg] }
    sockets := #[false]
    streams := #[{ socket := 0, topic := .exact msg.channel, next := 0 }] }
  lines := #[{ socket := 0 }]

theorem receive_bringing (msg : Message) :
    (Medium.receive (bringing msg) 0).2 = .message msg := by
  simp [Medium.receive, Bus.receive, bringing, Bus.isClosed, Feed.fetch, Feed.oldest, Feed.size,
    busCapacity, Topic.covers]

theorem inbound_bringing (msg : Message) :
    Medium.inbound (Medium.receive (bringing msg) 0).1 0 = id := by
  funext channel
  simp [Medium.inbound, Medium.receive, Network.line, bringing, Line.name]

/-- Whatever messages there are, a consumer that listens may get them. -/
theorem exists_consuming (hlink : n.link = some 0) (hcancelled : n.cancelled = false) {s : String}
    (hco : n.consumers[k]? = some ⟨s, .listening 0⟩) (ms : List Message) :
    ∃ signals n', Consuming Network id k n (ms.map .message) signals n' := by
  have hall : ∃ signals n', Consuming Network id k n (ms.map .message) signals n' ∧
      n'.link = some 0 ∧ n'.cancelled = false ∧ n'.consumers[k]? = some ⟨s, .listening 0⟩ := by
    induction ms using List.reverseRecOn with
    | nil => exact ⟨[], n, .start, hlink, hcancelled, hco⟩
    | append_singleton ms msg ih =>
      obtain ⟨signals, n', h, hlistens⟩ := ih
      rw [List.map_append, List.map_singleton]
      exact h.take hlistens (inbound_bringing msg) (receive_bringing msg)
  obtain ⟨signals, n', h, -⟩ := hall
  exact ⟨signals, n', h⟩

/-- A node with one consumer, of the subscription `a`. -/
def consumerNode : Node := { (default : Node) with
  link := some 0
  consumers := [⟨"a", .listening 0⟩] }

/-- An empty payload, one that cannot be read, an update, and the same one on another channel. -/
def mixedMessages : List Message :=
  let payload := (dottedWrite.data "b.c").payload
  [⟨"a.b.c", ⟨#[]⟩⟩, ⟨"a.b.c", ⟨#[123]⟩⟩, ⟨"a.b.c", payload⟩, ⟨"a.b", payload⟩]

/-- Of these messages one is written, and each is counted. -/
theorem accounts_mixed : ∃ signals n', Consuming Network id 0 consumerNode
      (mixedMessages.map .message) signals n' ∧
    n'.store = consumerNode.store.write "a" dottedWrite.envelope ∧
    signals.filterMap Signal.verdict? = [.empty, .error, .ok, .foreign] ∧
    signals.count (.count .decodeError) = 1 ∧ signals.count (.count (.received .ok)) = 1 := by
  obtain ⟨signals, n', h⟩ := exists_consuming (n := consumerNode) (k := 0) rfl rfl rfl mixedMessages
  obtain ⟨⟨-, hstore, -⟩, ⟨hverdicts, herrors, hok⟩, -⟩ := h.accounts rfl
  rw [Intake.filterMap_message?] at hstore hverdicts hok
  have hbelongs : mixedMessages.filterMap (·.belonging id "a") = [dottedWrite.envelope] := by
    decide +kernel
  have hlist : signals.filterMap Signal.verdict? = [.empty, .error, .ok, .foreign] :=
    hverdicts.trans (by decide +kernel)
  refine ⟨signals, n', h, ?_, hlist, ?_, ?_⟩
  · rw [hstore rfl]
    exact congrArg (List.foldl _ _) hbelongs
  · rw [herrors, Reports.count_received, hlist]
    rfl
  · exact hok.trans (congrArg List.length hbelongs)

end Node

end Telemetry
