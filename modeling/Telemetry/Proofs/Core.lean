import Telemetry.Node.Write
import Telemetry.Proofs.Listening
import Telemetry.Proofs.Shelf

/-!
# Nodes that nobody stops

What decides what a node hears is its link, its token and its listeners. As long as nobody stops the
node and its line is open, each of its loops changes one listener at a time, and a write about a
target is published in the end.

* `Node.Core`: the part of a node that decides what it hears; `Node.Core.Hears`: its streams;
* `Node.Core.Steady`: what a node keeps that nobody stops;
* **`Writer.moves`**: what a move of a write does;
* `accepted`, `Store.hear`: the messages that a consumer writes to the store;
* `Node.discover_eq`, `Node.consume_eq`, `Node.turn_eq`, `Node.dispatchNext_eq`: the loops.
-/

namespace Telemetry

/-! ## Nodes and what they hear -/

/-- The part of a node that decides what it hears. -/
structure Node.Core where
  link : Option ℕ
  readFault : Option String
  cancelled : Bool
  held : Bool
  discovery : Listener
  started : Roster
  consumers : List Consumer

def Node.core (n : Node) : Node.Core :=
  ⟨n.link, n.readFault, n.cancelled, n.held, n.discovery, n.started, n.consumers⟩

namespace Node.Core

variable {n : Node.Core} {e e' : Option ℕ} {t : Topic} {l : Listener} {σ k : ℕ}

/-- A listener of a node with its topic: that of discovery, or that of a consumer. -/
def ear (n : Node.Core) : Option ℕ → Option (Topic × Listener)
  | none => some (controlPost.topic, n.discovery)
  | some k => n.consumers[k]?.map fun co => ((dataPost co.subscription).topic, co.listener)

def setEar (n : Node.Core) (l : Listener) : Option ℕ → Node.Core
  | none => { n with discovery := l }
  | some k => { n with consumers := n.consumers.modify k fun co => { co with listener := l } }

/-- The subscription of a listener that is that of a consumer. -/
def subscription? (n : Node.Core) (e : Option ℕ) : Option String :=
  e.bind fun k => n.consumers[k]?.map (·.subscription)

def Hears (n : Node.Core) (e : Option ℕ) (t : Topic) (σ : ℕ) : Prop :=
  n.ear e = some (t, .listening σ)

theorem ear_setEar (n : Node.Core) (l : Listener) (e e' : Option ℕ) :
    (n.setEar l e).ear e' = if e' = e then (n.ear e).map fun p => (p.1, l) else n.ear e' := by
  cases e with
  | none =>
    cases e' with
    | none => rfl
    | some k => rfl
  | some k =>
    cases e' with
    | none => rfl
    | some k' =>
      rw [setEar, ear, List.getElem?_modify]
      by_cases h : k = k'
      · subst h
        simp only [ear, if_true]
        cases n.consumers[k]? <;> rfl
      · have : some k' ≠ some k := fun he => h (Option.some.inj he).symm
        rw [if_neg this, ear]
        simp [h]

theorem hears_setEar (h : (n.setEar l e').Hears e t σ) :
    n.Hears e t σ ∨ e = e' ∧ l = .listening σ ∧ ∃ l', n.ear e = some (t, l') := by
  rw [Hears, ear_setEar] at h
  by_cases he : e = e'
  · subst he
    rw [if_pos rfl] at h
    obtain ⟨⟨t', l'⟩, hear, heq⟩ := Option.map_eq_some_iff.mp h
    obtain ⟨rfl, rfl⟩ := Prod.mk.inj heq
    exact .inr ⟨rfl, rfl, l', hear⟩
  · rw [if_neg he] at h
    exact .inl h

theorem hears_start {r : Roster} {name : String}
    (h : Hears { n with started := r, consumers := n.consumers ++ [{ subscription := name }] } e t
      σ) : n.Hears e t σ := by
  cases e with
  | none => exact h
  | some k =>
    rw [Hears, ear, List.getElem?_append] at h
    split at h
    · exact h
    · obtain ⟨co, hco, heq⟩ := Option.map_eq_some_iff.mp h
      obtain rfl := List.mem_singleton.mp (List.mem_of_getElem? hco)
      cases heq

/-- What a node on an open line, which nobody stops, keeps. -/
structure Steady (a : Network) (n : Node.Core) : Prop where
  cancelled : n.cancelled = false
  held : n.held = true
  readFault : n.readFault = none
  link : ∃ link, n.link = some link ∧ a.Open link
  consumers : n.consumers.map (·.subscription) = n.started.names

theorem Steady.later {a b : Network} (h : n.Steady a) (hab : a.Later b) : n.Steady b where
  cancelled := h.cancelled
  held := h.held
  readFault := h.readFault
  link := by
    obtain ⟨link, hl, hopen⟩ := h.link
    exact ⟨link, hl, hab.isOpen hopen⟩
  consumers := h.consumers

theorem map_subscription_modify (consumers : List Consumer) (k : ℕ) (l : Listener) :
    (consumers.modify k fun co => { co with listener := l }).map (·.subscription) =
      consumers.map (·.subscription) := by
  refine List.ext_getElem? fun i => ?_
  rw [List.getElem?_map, List.getElem?_map, List.getElem?_modify]
  cases consumers[i]? with
  | none => rfl
  | some co =>
    by_cases h : k = i
    · simp [h]
    · simp [h]

theorem Steady.setEar {a : Network} (h : n.Steady a) (l : Listener) (e : Option ℕ) :
    (n.setEar l e).Steady a := by
  cases e with
  | none => exact ⟨h.cancelled, h.held, h.readFault, h.link, h.consumers⟩
  | some k =>
    exact ⟨h.cancelled, h.held, h.readFault, h.link,
      (map_subscription_modify n.consumers k l).trans h.consumers⟩

theorem Steady.start {a : Network} (h : n.Steady a) {name : String}
    (hnew : n.started.contains name = false) :
    Steady a { n with
      started := n.started.add name
      consumers := n.consumers ++ [{ subscription := name }] } where
  cancelled := h.cancelled
  held := h.held
  readFault := h.readFault
  link := h.link
  consumers := by
    have hnames : (n.started.add name).names = n.started.names ++ [name] := by
      rw [Roster.add, dif_neg (by simp [hnew])]
    rw [hnames, List.map_append, h.consumers]
    rfl

theorem Steady.consumer_unique {a : Network} (h : n.Steady a) {k k' : ℕ} {co co' : Consumer}
    (hk : n.consumers[k]? = some co) (hk' : n.consumers[k']? = some co')
    (hs : co.subscription = co'.subscription) : k = k' := by
  have hnodup : (n.consumers.map (·.subscription)).Nodup := by
    rw [h.consumers]
    exact n.started.nodup
  have hlt := (List.getElem?_eq_some_iff.mp hk).1
  refine (List.getElem?_inj (by simpa using hlt) hnodup).mp ?_
  rw [List.getElem?_map, List.getElem?_map, hk, hk', Option.map_some, Option.map_some, hs]

/-- The consumer `k` has the subscription `s` and listens to a stream. -/
def Consumes (n : Node.Core) (s : String) (k σ : ℕ) : Prop :=
  n.consumers[k]? = some { subscription := s, listener := .listening σ }

theorem Consumes.hears {s : String} (h : n.Consumes s k σ) :
    n.Hears (some k) (dataPost s).topic σ := by
  rw [Hears, ear, h]
  rfl

theorem Consumes.subscription? {s : String} (h : n.Consumes s k σ) :
    n.subscription? (some k) = some s := by
  rw [Node.Core.subscription?, Option.bind_some, h]
  rfl

theorem Consumes.setEar {s : String} (h : n.Consumes s k σ) (he : e = some k → l = .listening σ) :
    (n.setEar l e).Consumes s k σ := by
  cases e with
  | none => exact h
  | some k' =>
    rw [Consumes, Node.Core.setEar, List.getElem?_modify, h]
    by_cases hk : k' = k
    · simp [hk, he (congrArg some hk)]
    · simp [hk]

theorem Consumes.start {s : String} (h : n.Consumes s k σ) (r : Roster) (name : String) :
    Consumes { n with started := r, consumers := n.consumers ++ [{ subscription := name }] } s k
      σ := by
  have hlt := (List.getElem?_eq_some_iff.mp h).1
  rw [Consumes, List.getElem?_append_left hlt, h]

theorem Steady.subscription?_ne {a : Network} {s : String} (h : n.Steady a)
    (hk : n.Consumes s k σ) (he : e ≠ some k) : n.subscription? e ≠ some s := by
  cases e with
  | none => simp [subscription?]
  | some k' =>
    intro hsub
    obtain ⟨co, hco, hs⟩ := Option.map_eq_some_iff.mp hsub
    exact he (congrArg some (h.consumer_unique hco hk hs))

end Node.Core

/-! ## Writes on their way -/

section Writers

variable {a b : Network} {n : Node} {w : Writer} {s : String} {now link : ℕ} {r : Written Network}

theorem Attempt.act_open (hopen : a.Open link) {limit : Duration} {msg : Message} {p : Progress}
    {att : Attempt} (hact : att.act link limit false now msg a = some (b, p)) :
    (∃ res, p = .finished res) ∧ (b = a ∨ b = a.put msg) := by
  have hsend : Attempt.send a link msg = (a.put msg, .finished (.ok ())) := by
    rw [Attempt.send, hopen.publish]
  cases att with
  | starting =>
    simp only [Attempt.act, Bool.false_eq_true, if_false, hopen.delay, if_true, hsend,
      Option.some.injEq, Prod.mk.injEq] at hact
    obtain ⟨rfl, rfl⟩ := hact
    exact ⟨⟨_, rfl⟩, .inr rfl⟩
  | pausing ready deadline =>
    simp only [Attempt.act, Bool.false_eq_true, if_false, hsend] at hact
    split at hact
    · obtain ⟨rfl, rfl⟩ := Prod.mk.inj (Option.some.inj hact)
      exact ⟨⟨_, rfl⟩, .inr rfl⟩
    · split at hact
      · obtain ⟨rfl, rfl⟩ := Prod.mk.inj (Option.some.inj hact)
        exact ⟨⟨_, rfl⟩, .inl rfl⟩
      · cases hact

theorem Attempt.act_starting (hopen : a.Open link) (limit : Duration) (now : ℕ) (msg : Message) :
    Attempt.starting.act link limit false now msg a = some (a.put msg, .finished (.ok ())) := by
  simp only [Attempt.act, Bool.false_eq_true, if_false, hopen.delay, if_true, Attempt.send,
    hopen.publish]

/-- The write is in the store, and not over. -/
def Writer.OnTheWay (w : Writer) : Prop := w.stage ≠ .storing ∧ w.stage ≠ .done

/-- A write knows the target that it is about, and under the subscription `s` it has one. -/
structure Writer.Sound (s : String) (w : Writer) : Prop where
  target : w.subscription = s → w.envelope.target?.isSome = true
  requesting : ∀ t d, w.stage = .requesting t d → w.envelope.target? = some t
  publishing : ∀ t att, w.stage = .publishing t att →
    w.envelope.target? = some t ∧ att = .starting

/-- What a move of a write does: it writes to the store, or it tells its peers what they should know
before the data, or it publishes the data and is over. Without a target it is over before. -/
inductive Writer.Moves (s : String) (a : Network) (n : Node) (w : Writer) : Written Network → Prop
  | store {r : Written Network} : w.stage = .storing → r.medium = a →
      r.node = n.keep w.subscription w.envelope → r.stage = .checking → Moves s a n w r
  | tell {r : Written Network} : w.OnTheWay → (r.medium = a ∨ ∃ m, r.medium = a.put m) →
      r.node.core = n.core → r.node.store = n.store → r.stage ≠ .storing →
      (r.stage ≠ .done ∨ w.subscription ≠ s) →
      (∀ t d, r.stage = .requesting t d → w.envelope.target? = some t) →
      (∀ t att, r.stage = .publishing t att → w.envelope.target? = some t ∧ att = .starting) →
      Moves s a n w r
  | publish {r : Written Network} {t : String} : w.OnTheWay → w.envelope.target? = some t →
      r.medium = a.put (w.data t) → r.node = n → r.stage = .done → Moves s a n w r

theorem Writer.Moves.core_eq (h : w.Moves s a n r) : r.node.core = n.core := by
  cases h with
  | store _ _ hnode _ => rw [hnode]; rfl
  | tell _ _ hcore => exact hcore
  | publish _ _ _ hnode _ => rw [hnode]

theorem Writer.Moves.sound (h : w.Moves s a n r) (hw : w.Sound s) (finished : Option ℕ) :
    ({ w with stage := r.stage, finished } : Writer).Sound s := by
  cases h with
  | store _ _ _ hnext =>
    exact ⟨hw.target, fun t d he => absurd (hnext.symm.trans he) (by simp),
      fun t att he => absurd (hnext.symm.trans he) (by simp)⟩
  | tell _ _ _ _ _ _ hreq hpub => exact ⟨hw.target, hreq, hpub⟩
  | publish _ _ _ _ hnext =>
    exact ⟨hw.target, fun t d he => absurd (hnext.symm.trans he) (by simp),
      fun t att he => absurd (hnext.symm.trans he) (by simp)⟩

theorem Writer.Moves.forward (h : w.Moves s a n r) (hs : w.subscription = s) (hway : w.OnTheWay) :
    (r.stage ≠ .storing ∧ r.stage ≠ .done) ∨
      ∃ t, w.envelope.target? = some t ∧ r.medium = a.put (w.data t) := by
  cases h with
  | store hstage _ _ _ => exact absurd hstage hway.1
  | tell _ _ _ _ hstoring hdone => exact .inl ⟨hstoring, hdone.resolve_right (not_not_intro hs)⟩
  | publish _ ht hmed _ _ => exact .inr ⟨_, ht, hmed⟩

theorem Writer.moves (hn : n.core.Steady a) (hw : w.Sound s)
    (hact : w.act now false a n = some r) : w.Moves s a n r := by
  obtain ⟨link, hlink, hopen⟩ := hn.link
  have hlink : n.link = some link := hlink
  have hcancel : n.cancelled = false := hn.cancelled
  cases hstage : w.stage with
  | storing =>
    simp only [Writer.act, hstage] at hact
    obtain rfl := Option.some.inj hact
    exact .store hstage rfl rfl rfl
  | checking =>
    simp only [Writer.act, hstage, hlink, hcancel] at hact
    obtain rfl := Option.some.inj hact
    exact .tell (by simp [OnTheWay, hstage]) (.inl rfl) rfl rfl (by simp) (by simp) (by simp)
      (by simp)
  | marking =>
    simp only [Writer.act, hstage, hlink] at hact
    obtain rfl := Option.some.inj hact
    refine .tell (by simp [OnTheWay, hstage]) (.inl rfl) rfl rfl ?_ (.inl ?_) ?_ ?_ <;>
      (dsimp only; split <;> simp)
  | entering =>
    simp only [Writer.act, hstage, hlink] at hact
    obtain rfl := Option.some.inj hact
    refine .tell (by simp [OnTheWay, hstage]) (.inl rfl) (by simp [Node.core, hlink]) rfl ?_
      (.inl ?_) ?_ ?_ <;>
      (dsimp only; split <;> simp)
  | announcing att =>
    simp only [Writer.act, hstage, hlink, hcancel, Bool.or_false] at hact
    obtain ⟨⟨b, p⟩, hatt, hr⟩ := Option.map_eq_some_iff.mp hact
    obtain ⟨⟨res, rfl⟩, hb⟩ := Attempt.act_open hopen hatt
    obtain rfl := hr
    exact .tell (by simp [OnTheWay, hstage]) (hb.imp_right fun h => ⟨_, h⟩) rfl rfl (by simp)
      (by simp) (by simp) (by simp)
  | resolving =>
    simp only [Writer.act, hstage, hlink] at hact
    cases ht : w.envelope.target? with
    | none =>
      rw [ht] at hact
      obtain rfl := Option.some.inj hact
      refine .tell (by simp [OnTheWay, hstage]) (.inl rfl) rfl rfl (by simp) (.inr fun hs => ?_)
        (by simp) (by simp)
      have := hw.target hs
      rw [ht] at this
      cases this
    | some t =>
      rw [ht] at hact
      obtain rfl := Option.some.inj hact
      refine .tell (by simp [OnTheWay, hstage]) (.inl rfl) rfl rfl (by simp) (by simp) ?_ (by simp)
      intro t' d he
      simp only [Stage.requesting.injEq] at he
      rw [ht, he.1]
  | requesting t d =>
    have ht := hw.requesting t d hstage
    have hnext : ∀ t' att, Stage.publishing t .starting = .publishing t' att →
        w.envelope.target? = some t' ∧ att = .starting := fun t' att he => by
      obtain ⟨rfl, rfl⟩ := Stage.publishing.inj he
      exact ⟨ht, rfl⟩
    simp only [Writer.act, hstage, hlink, hcancel, Bool.or_self, Bool.false_eq_true,
      if_false] at hact
    split at hact
    · obtain rfl := Option.some.inj hact
      exact .tell (by simp [OnTheWay, hstage]) (.inl rfl) (by simp [Node.core, hlink, hcancel]) rfl
        (by simp) (by simp) (by simp) hnext
    · split at hact
      · obtain rfl := Option.some.inj hact
        exact .tell (by simp [OnTheWay, hstage]) (.inl rfl) rfl rfl (by simp) (by simp) (by simp)
          hnext
      · cases hact
  | publishing t att =>
    obtain ⟨ht, rfl⟩ := hw.publishing t att hstage
    simp only [Writer.act, hstage, hlink, hcancel, Bool.or_self,
      Attempt.act_starting hopen, Option.map_some, Option.some.injEq] at hact
    obtain rfl := hact
    exact .publish (by simp [OnTheWay, hstage]) ht rfl rfl rfl
  | done =>
    simp only [Writer.act, hstage] at hact
    cases hact

end Writers

/-! ## Messages that a consumer accepts -/

/-- What a consumer accepts of a message, where channels keep their names. -/
def accepted (s : String) (m : Message) : Option Envelope := (judge id s m).envelope?

/-- The store after a message came in at the consumer of a subscription. -/
def Store.hear (now : ℕ) (s : String) (m : Message) (st : Store) : Store :=
  match accepted s m with
  | some e => st.write now s e
  | none => st

/-- The store after a message, if there was one, came in at a listener, which may be that of a
consumer. -/
def Store.deliver (now : ℕ) : Option String → Option Message → Store → Store
  | some s, some m, st => st.hear now s m
  | _, _, st => st

theorem Store.lifetime_hear (now : ℕ) (s : String) (m : Message) (st : Store) :
    (st.hear now s m).lifetime = st.lifetime := by
  unfold Store.hear
  cases accepted s m with
  | none => rfl
  | some e => exact st.lifetime_write now s e

theorem Store.lifetime_deliver (now : ℕ) (s? : Option String) (m? : Option Message) (st : Store) :
    (st.deliver now s? m?).lifetime = st.lifetime := by
  cases s? with
  | none => rfl
  | some s =>
    cases m? with
    | none => rfl
    | some m => exact st.lifetime_hear now s m

theorem Node.core_applyRemote (a : Network) (link : ℕ) (s : String) (m : Message) (n : Node) :
    (n.applyRemote a link s m).1.core = n.core := by
  rw [Node.applyRemote]
  cases (judge (Medium.inbound a link) s m).envelope? <;> rfl

theorem Node.store_applyRemote {a : Network} {link : ℕ} (hopen : a.Open link) (s : String)
    (m : Message) (n : Node) : (n.applyRemote a link s m).1.store.store =
      n.store.store.hear n.store.now s m := by
  rw [Node.applyRemote, Store.hear, hopen.inbound, accepted]
  cases (judge id s m).envelope? <;> rfl

/-! ## Moves of listeners -/

section Listeners

variable {a : Network} {n n' : Node} {link now k : ℕ} {mv : Move Network}

theorem Node.discover_eq (hlink : n.link = some link) (hcancel : n.cancelled = false)
    (hmv : n.discover now a = some mv) :
    (mv.medium = a ∧ mv.node.core = n.core ∧ mv.node.store = n.store) ∨
    ∃ h, n.discovery.act controlPost link false now a = some h ∧ mv.medium = h.medium ∧
      mv.node.core = n.core.setEar h.listener none ∧ mv.node.store = n.store := by
  cases n
  obtain rfl := hlink
  obtain rfl := hcancel
  unfold discover at hmv
  dsimp only at hmv
  split at hmv
  · rw [if_neg Bool.false_ne_true] at hmv
    split at hmv
    · obtain rfl := Option.some.inj hmv
      exact .inl ⟨rfl, rfl, rfl⟩
    · cases hmv
  · obtain ⟨h, hact, rfl⟩ := Option.map_eq_some_iff.mp hmv
    refine .inr ⟨h, hact, ?_⟩
    cases h.message with
    | none => exact ⟨rfl, rfl, rfl⟩
    | some m => exact ⟨rfl, rfl, rfl⟩

theorem set_listener {consumers : List Consumer} {co : Consumer} (hco : consumers[k]? = some co)
    (l : Listener) : consumers.set k { co with listener := l } =
      consumers.modify k fun co => { co with listener := l } := by
  refine List.ext_getElem? fun i => ?_
  rw [List.getElem?_set, List.getElem?_modify]
  have hlt := (List.getElem?_eq_some_iff.mp hco).1
  by_cases h : k = i
  · subst h
    rw [if_pos rfl, if_pos hlt, hco]
    simp
  · simp [h]

theorem Node.consume_eq (hlink : n.link = some link) (hcancel : n.cancelled = false)
    (hmv : n.consume now k a = some mv) :
    ∃ co h, n.consumers[k]? = some co ∧
      co.listener.act (dataPost co.subscription) link false now a = some h ∧
      mv.medium = h.medium ∧ mv.node.core = n.core.setEar h.listener (some k) ∧
      (h.medium.Open link → mv.node.store.store =
        n.store.store.deliver n.store.now (some co.subscription) h.message) := by
  cases n
  obtain rfl := hlink
  obtain rfl := hcancel
  unfold consume at hmv
  dsimp only at hmv ⊢
  split at hmv
  · rename_i link' co hlink hco
    obtain rfl := Option.some.inj hlink
    obtain ⟨h, hact, rfl⟩ := Option.map_eq_some_iff.mp hmv
    refine ⟨co, h, hco, hact, ?_⟩
    rw [set_listener hco]
    cases h.message with
    | none => exact ⟨rfl, rfl, fun _ => rfl⟩
    | some m =>
      exact ⟨rfl, Node.core_applyRemote _ _ _ m _, fun hopen => Node.store_applyRemote hopen _ m _⟩
  · cases hmv

theorem Node.turn_eq {signals : List Signal} (hcancel : n.cancelled = false)
    (hturn : n.turn now = some (n', signals)) : n'.core = n.core ∧ n'.store = n.store := by
  cases n
  obtain rfl := hcancel
  unfold turn at hturn
  dsimp only at hturn
  split at hturn
  · cases hturn
  · rw [if_neg Bool.false_ne_true] at hturn
    split at hturn
    · obtain ⟨rfl, -⟩ := Prod.mk.inj (Option.some.inj hturn)
      exact ⟨rfl, rfl⟩
    · cases hturn

theorem Node.dispatchNext_eq {signals : List Signal} (hcancel : n.cancelled = false)
    (hdis : n.dispatchNext = some (n', signals)) : n'.store = n.store ∧
      (n'.core = n.core ∨ ∃ name, n.started.contains name = false ∧
        n'.core = { n.core with
          started := n.started.add name
          consumers := n.consumers ++ [{ subscription := name }] }) := by
  cases n
  obtain rfl := hcancel
  unfold dispatchNext at hdis
  dsimp only at hdis
  split at hdis
  · cases hdis
  · split at hdis
    · obtain ⟨rfl, -⟩ := Prod.mk.inj (Option.some.inj hdis)
      exact ⟨rfl, .inl rfl⟩
    · cases hdis
  · rw [if_neg Bool.false_ne_true] at hdis
    split at hdis
    · cases hdis
    · rename_i name rest
      have hstart := Option.some.inj hdis
      unfold start at hstart
      split at hstart
      · obtain ⟨rfl, -⟩ := Prod.mk.inj hstart
        exact ⟨rfl, .inl rfl⟩
      · rename_i hnew
        obtain ⟨rfl, -⟩ := Prod.mk.inj hstart
        exact ⟨rfl, .inr ⟨name, Bool.eq_false_iff.mpr hnew, rfl⟩⟩

end Listeners

end Telemetry
