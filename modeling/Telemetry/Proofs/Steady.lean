import Telemetry.Cluster.Basic
import Telemetry.Proofs.Core

/-!
# Clusters that nobody stops

A step of a cluster is a move of a task, or something from outside: a call, a message, time, or a
look at a store. As long as nobody stops a node, revokes a token or disturbs a line, every step does
one of a few things to the nodes and to the bus, and every listener keeps a stream of its own.

* `Cluster.Step`: one step of a cluster;
* `Cluster.Steady`: the invariant; `Cluster.Forward`, `Cluster.Moves`: what a step does;
* **`Cluster.Steady.moves`**: every step of a steady cluster is one of these;
* **`Cluster.Steady.step`**: the invariant is kept.
-/

namespace Telemetry

/-! ## Steps -/

namespace Cluster

/-- One step of a cluster whose nodes nobody stops: a move, a call of a write, which is about a
target if it is under `s`, a message from someone else, time, or a look at a store. -/
inductive Step (s : String) : Cluster Network → Cluster Network → Prop where
  | act {c c' : Cluster Network} {t : Task} : c.act t = some c' → Step s c c'
  | call {c : Cluster Network} (w : Writer) : w.stage = .storing →
      (w.subscription = s → w.envelope.target?.isSome = true) →
      Step s c { c with writers := c.writers.push w }
  | outside {c : Cluster Network} (m : Message) : Step s c { c with medium := c.medium.put m }
  | clock {c : Cluster Network} (now : ℕ) : Step s c { c with now }
  | look {c : Cluster Network} {i : ℕ} {n : Node} (w : Watched) : c.nodes[i]? = some n →
      w.store = n.store.store → Step s c (c.setNode i { n with store := w })

/-- What stays true of a cluster that nobody stops. -/
structure Steady (s : String) (c : Cluster Network) : Prop where
  stoppers : c.stoppers = #[]
  revoked : c.revoked = []
  cores : ∀ {i : ℕ} {n : Node}, c.nodes[i]? = some n → n.core.Steady c.medium
  lifetimes : ∀ {i : ℕ} {n : Node}, c.nodes[i]? = some n → n.store.store.lifetime = none
  writers : ∀ {q : ℕ} {w : Writer}, c.writers[q]? = some w → w.Sound s
  /-- Who listens has an open stream. -/
  streams : ∀ {i : ℕ} {n : Node} {e t σ}, c.nodes[i]? = some n → n.core.Hears e t σ →
    ∃ st, c.medium.bus.streams[σ]? = some st ∧ st.topic = t ∧ c.medium.Reads st
  /-- No two listeners share a stream. -/
  unique : ∀ {i i' : ℕ} {n n' : Node} {e e' t t' σ}, c.nodes[i]? = some n →
    c.nodes[i']? = some n' → n.core.Hears e t σ → n'.core.Hears e' t' σ → i = i' ∧ e = e'

/-- The writes on their way go on, or their data is published. -/
structure Forward (s : String) (c c' : Cluster Network) : Prop where
  stoppers : c'.stoppers = c.stoppers
  revoked : c'.revoked = c.revoked
  sound : ∀ {q : ℕ} {w : Writer}, c'.writers[q]? = some w → w.Sound s
  onward : ∀ {q : ℕ} {w : Writer}, c.writers[q]? = some w → ∃ w', c'.writers[q]? = some w' ∧
    w'.subscription = w.subscription ∧ w'.envelope = w.envelope ∧
    (w.subscription = s → w.OnTheWay → w'.OnTheWay ∨
      ∃ t, w.envelope.target? = some t ∧ c'.medium = c.medium.put (w.data t))

/-- What a step of a steady cluster does to its nodes and to the bus. -/
inductive Moves (c c' : Cluster Network) : Prop where
  /-- Nothing, but that a message may be published. -/
  | still : (∀ i : ℕ, c'.nodes[i]?.map (fun n => (n.core, n.store.store)) =
        c.nodes[i]?.map fun n => (n.core, n.store.store)) →
      (c'.medium = c.medium ∨ ∃ m, c'.medium = c.medium.put m) → Moves c c'
  /-- A write goes to the store of its node. -/
  | store {q : ℕ} {w w' : Writer} {n : Node} : c.writers[q]? = some w →
      c.nodes[w.node]? = some n →
      c'.nodes = c.nodes.setIfInBounds w.node (n.keep w.subscription w.envelope) →
      c'.medium = c.medium → c'.writers[q]? = some w' → w'.subscription = w.subscription →
      w'.envelope = w.envelope → w'.OnTheWay → Moves c c'
  /-- A consumer is started. -/
  | start {i : ℕ} {n n' : Node} {name : String} : c.nodes[i]? = some n →
      n.started.contains name = false →
      n'.core = { n.core with
        started := n.started.add name
        consumers := n.consumers ++ [{ subscription := name }] } → n'.store = n.store →
      c'.nodes = c.nodes.setIfInBounds i n' → c'.medium = c.medium → Moves c c'
  /-- A listener changes, and does not listen. -/
  | rest {i : ℕ} {n n' : Node} {e : Option ℕ} {l : Listener} : c.nodes[i]? = some n →
      (∀ t σ, ¬ n.core.Hears e t σ) → (∀ σ, l ≠ .listening σ) → n'.core = n.core.setEar l e →
      n'.store.store = n.store.store → c'.nodes = c.nodes.setIfInBounds i n' →
      c'.medium = c.medium → Moves c c'
  /-- A listener gets a stream that starts with the next message. -/
  | subscribe {i : ℕ} {n n' : Node} {e : Option ℕ} {t : Topic} {l : Listener} {st : Stream} :
      c.nodes[i]? = some n → (∀ t σ, ¬ n.core.Hears e t σ) → n.core.ear e = some (t, l) →
      n'.core = n.core.setEar (.listening c.medium.bus.streams.size) e →
      n'.store.store = n.store.store → c'.nodes = c.nodes.setIfInBounds i n' →
      c'.medium = c.medium.pushStream st → st.topic = t → c.medium.Reads st → Moves c c'
  /-- A listener takes a step of its stream. -/
  | hear {i : ℕ} {n n' : Node} {e : Option ℕ} {t : Topic} {σ : ℕ} {st st' : Stream}
      {m : Option Message} : c.nodes[i]? = some n → n.core.Hears e t σ →
      c.medium.bus.streams[σ]? = some st → n'.core = n.core.setEar (.listening σ) e →
      n'.store.store = n.store.store.deliver n.store.now (n.core.subscription? e) m →
      c'.nodes = c.nodes.setIfInBounds i n' → c'.medium = c.medium.setStream σ st' →
      st'.topic = st.topic → st'.socket = st.socket → c.medium.Reads st' →
      st.Onward c.medium st' m → Moves c c'

variable {s : String} {c c' : Cluster Network}

theorem Forward.of_writers (hc : c.Steady s) (hstop : c'.stoppers = c.stoppers)
    (hrev : c'.revoked = c.revoked) (hw : c'.writers = c.writers) : Forward s c c' where
  stoppers := hstop
  revoked := hrev
  sound h := hc.writers (hw ▸ h)
  onward h := ⟨_, hw ▸ h, rfl, rfl, fun _ hway => .inl hway⟩

theorem Moves.still_of_set {i : ℕ} {n n' : Node} (hnodes : c'.nodes = c.nodes.setIfInBounds i n')
    (hn : c.nodes[i]? = some n) (hcore : n'.core = n.core) (hstore : n'.store.store = n.store.store)
    (hmedium : c'.medium = c.medium ∨ ∃ m, c'.medium = c.medium.put m) : Moves c c' := by
  refine .still (fun j => ?_) hmedium
  rw [hnodes]
  by_cases h : i = j
  · subst h
    have hlt := (Array.getElem?_eq_some_iff.mp hn).1
    rw [Array.getElem?_setIfInBounds_self_of_lt hlt, hn, Option.map_some, Option.map_some, hcore,
      hstore]
  · rw [Array.getElem?_setIfInBounds_ne h]

theorem Steady.moves_ear (hc : c.Steady s) {i link now : ℕ} {n n' : Node} {e : Option ℕ}
    {post : Post} {l : Listener} {h : Heard Network}
    (hnodes : c'.nodes = c.nodes.setIfInBounds i n') (hn : c.nodes[i]? = some n)
    (hear : n.core.ear e = some (post.topic, l)) (hopen : c.medium.Open link)
    (hact : l.act post link false now c.medium = some h)
    (hcore : n'.core = n.core.setEar h.listener e)
    (hstore : h.medium.Open link → n'.store.store =
      n.store.store.deliver n.store.now (n.core.subscription? e) h.message)
    (hmedium : c'.medium = h.medium) : Moves c c' := by
  by_cases hl : ∃ σ, l = .listening σ
  · obtain ⟨σ, rfl⟩ := hl
    obtain ⟨st, hst, -, hreads⟩ := hc.streams hn hear
    obtain ⟨hlis, st', hmed, htopic, hsocket, hreads', honward⟩ :=
      Listener.act_listening hst hreads hact
    have hlater := Network.later_setStream hst htopic hsocket fun _ => hreads'
    rw [hlis] at hcore
    exact .hear hn hear hst hcore (hstore (hmed ▸ hlater.isOpen hopen)) hnodes (hmedium.trans hmed)
      htopic hsocket hreads' honward
  · have hl : ∀ σ, l ≠ .listening σ := fun σ he => hl ⟨σ, he⟩
    obtain ⟨hnone, hmove⟩ := Listener.act_of_not_listening hopen hl hact
    have hdeaf : ∀ t σ, ¬ n.core.Hears e t σ := fun t σ hh => by
      obtain ⟨-, rfl⟩ := Prod.mk.inj (Option.some.inj (hear.symm.trans hh))
      exact hl σ rfl
    have hkeep : h.medium.Open link → n'.store.store = n.store.store := fun hopen' => by
      rw [hstore hopen', hnone]
      cases n.core.subscription? e <;> rfl
    rcases hmove with ⟨hlis, hmed⟩ | ⟨hlis, hmed⟩
    · have hsize : c.medium.bus.feed.size ≤ c.medium.bus.log.length :=
        Nat.le_of_eq (length_log _).symm
      rw [hlis] at hcore
      have hopen' : h.medium.Open link := hmed ▸ (Network.later_push _ _).isOpen hopen
      exact .subscribe hn hdeaf hear hcore (hkeep hopen') hnodes (hmedium.trans hmed) rfl
        ⟨by simp, hopen.socket, hsize⟩
    · exact .rest hn hdeaf hlis hcore (hkeep (hmed ▸ hopen)) hnodes (hmedium.trans hmed)

theorem Steady.moves_discovery (hc : c.Steady s) {i : ℕ} (hact : c.act (.discovery i) = some c') :
    Moves c c' := by
  obtain ⟨n, hn, mv, hmv, rfl⟩ := act_discovery_iff.mp hact
  obtain ⟨link, hlink, hopen⟩ := (hc.cores hn).link
  rcases Node.discover_eq hlink (hc.cores hn).cancelled hmv with
    ⟨hmed, hcore, hstore⟩ | ⟨h, hact, hmed, hcore, hstore⟩
  · exact .still_of_set rfl hn hcore (congrArg Watched.store hstore) (.inl hmed)
  · have hstore : mv.node.store.store = n.store.store.deliver n.store.now
        (n.core.subscription? none) h.message := congrArg Watched.store hstore
    exact hc.moves_ear rfl hn (e := none) rfl hopen hact hcore (fun _ => hstore) hmed

theorem Steady.moves_consumer (hc : c.Steady s) {i k : ℕ} (hact : c.act (.consumer i k) = some c') :
    Moves c c' := by
  obtain ⟨n, hn, mv, hmv, rfl⟩ := act_consumer_iff.mp hact
  obtain ⟨link, hlink, hopen⟩ := (hc.cores hn).link
  obtain ⟨co, h, hco, hact, hmed, hcore, hstore⟩ :=
    Node.consume_eq hlink (hc.cores hn).cancelled hmv
  have hco : n.core.consumers[k]? = some co := hco
  have hear : n.core.ear (some k) = some ((Node.dataPost co.subscription).topic, co.listener) := by
    rw [Node.Core.ear, hco, Option.map_some]
  have hsub : n.core.subscription? (some k) = some co.subscription := by
    rw [Node.Core.subscription?, Option.bind_some, hco, Option.map_some]
  exact hc.moves_ear rfl hn hear hopen hact hcore (hsub ▸ hstore) hmed

theorem Steady.moves_epoch (hc : c.Steady s) {i : ℕ} (hact : c.act (.epoch i) = some c') :
    Moves c c' := by
  obtain ⟨n, hn, n', signals, hturn, rfl⟩ := act_epoch_iff.mp hact
  obtain ⟨hcore, hstore⟩ := Node.turn_eq (hc.cores hn).cancelled hturn
  exact .still_of_set rfl hn hcore (congrArg Watched.store hstore) (.inl rfl)

theorem Steady.moves_dispatch (hc : c.Steady s) {i : ℕ} (hact : c.act (.dispatch i) = some c') :
    Moves c c' := by
  obtain ⟨n, hn, n', signals, hdis, rfl⟩ := act_dispatch_iff.mp hact
  obtain ⟨hstore, hcore | ⟨name, hnew, hcore⟩⟩ :=
    Node.dispatchNext_eq (hc.cores hn).cancelled hdis
  · exact .still_of_set rfl hn hcore (congrArg Watched.store hstore) (.inl rfl)
  · exact .start hn hnew hcore hstore rfl rfl

theorem release_of_held {i : ℕ} (hheld : ∀ n : Node, c.nodes[i]? = some n → n.held = true) :
    c.release i = c := by
  unfold Cluster.release
  split
  · rename_i n hn
    rw [hheld n hn, Bool.true_or, if_pos rfl]
  · rfl

theorem Steady.actWriter_eq (hc : c.Steady s) {q : ℕ} (hact : c.actWriter q = some c') :
    ∃ w n r, c.writers[q]? = some w ∧ c.nodes[w.node]? = some n ∧ w.Moves s c.medium n r ∧
      c' = { c with
        medium := r.medium
        nodes := c.nodes.setIfInBounds w.node r.node
        writers := c.writers.setIfInBounds q { w with
          stage := r.stage
          finished := if r.stage = .done then some c.now else none }
        journal := c.journal ++ r.signals } := by
  simp only [actWriter, Option.bind_eq_bind, Option.bind_eq_some_iff, Option.pure_def,
    Option.some.injEq] at hact
  obtain ⟨w, hw, n, hn, r, hr, rfl⟩ := hact
  have hrev : c.isRevoked w = false := by
    unfold isRevoked
    split
    · rw [hc.revoked]
      rfl
    · rfl
  rw [hrev] at hr
  have hmoves := Writer.moves (hc.cores hn) (hc.writers hw) hr
  refine ⟨w, n, r, hw, hn, hmoves, ?_⟩
  have hlt := (Array.getElem?_eq_some_iff.mp hn).1
  split
  · refine release_of_held fun n' hn' => ?_
    have hset : (c.nodes.setIfInBounds w.node r.node)[w.node]? = some n' := hn'
    rw [Array.getElem?_setIfInBounds_self_of_lt hlt] at hset
    have hheld : r.node.core.held = true := by
      rw [hmoves.core_eq]
      exact (hc.cores hn).held
    obtain rfl := Option.some.inj hset
    exact hheld
  · rfl

theorem Steady.moves_writer (hc : c.Steady s) {q : ℕ} (hact : c.act (.writer q) = some c') :
    Forward s c c' ∧ Moves c c' := by
  obtain ⟨w, n, r, hw, hn, hmoves, rfl⟩ := hc.actWriter_eq hact
  have hltq := (Array.getElem?_eq_some_iff.mp hw).1
  have hsound := hc.writers hw
  constructor
  · refine ⟨rfl, rfl, fun {q' w'} hw' => ?_, fun {q' w₁} hw₁ => ?_⟩
    · by_cases h : q = q'
      · subst h
        rw [Array.getElem?_setIfInBounds_self_of_lt hltq] at hw'
        obtain rfl := Option.some.inj hw'
        exact hmoves.sound hsound _
      · rw [Array.getElem?_setIfInBounds_ne h] at hw'
        exact hc.writers hw'
    · by_cases h : q = q'
      · subst h
        obtain rfl := Option.some.inj (hw.symm.trans hw₁)
        exact ⟨_, Array.getElem?_setIfInBounds_self_of_lt hltq, rfl, rfl, hmoves.forward⟩
      · exact ⟨w₁, by rw [Array.getElem?_setIfInBounds_ne h, hw₁], rfl, rfl, fun _ => .inl⟩
  · cases hmoves with
    | store hstage hmed hnode hnext =>
      refine .store hw hn ?_ hmed (Array.getElem?_setIfInBounds_self_of_lt hltq) rfl rfl ?_
      · rw [hnode]
      · simp [Writer.OnTheWay, hnext]
    | tell _ hmed hcore hstore =>
      exact .still_of_set rfl hn hcore (congrArg Watched.store hstore) hmed
    | publish _ _ hmed hnode _ =>
      exact .still_of_set rfl hn (congrArg Node.core hnode) (by rw [hnode]) (.inr ⟨_, hmed⟩)

theorem Forward.of_act (hc : c.Steady s) {t : Task} (ht : ∀ q, t ≠ .writer q)
    (ht' : ∀ k, t ≠ .stopper k) (hact : c.act t = some c') : Forward s c c' := by
  cases t with
  | writer q => exact absurd rfl (ht q)
  | stopper k => exact absurd rfl (ht' k)
  | discovery i | epoch i | dispatch i | consumer i k =>
    simp only [act, Option.bind_eq_bind, Option.bind_eq_some_iff, Option.pure_def,
      Option.some.injEq] at hact
    obtain ⟨n, _, mv, _, rfl⟩ := hact
    exact .of_writers hc rfl rfl rfl

/-- **A step of a steady cluster.** -/
theorem Steady.moves (hc : c.Steady s) (h : Step s c c') : Forward s c c' ∧ Moves c c' := by
  cases h with
  | act hact =>
    rename_i t
    cases t with
    | discovery i => exact ⟨.of_act hc (by simp) (by simp) hact, hc.moves_discovery hact⟩
    | epoch i => exact ⟨.of_act hc (by simp) (by simp) hact, hc.moves_epoch hact⟩
    | dispatch i => exact ⟨.of_act hc (by simp) (by simp) hact, hc.moves_dispatch hact⟩
    | consumer i k => exact ⟨.of_act hc (by simp) (by simp) hact, hc.moves_consumer hact⟩
    | writer q => exact hc.moves_writer hact
    | stopper k =>
      simp [act, actStopper, hc.stoppers] at hact
  | call w hstage htarget =>
    refine ⟨⟨rfl, rfl, fun {q w'} hw' => ?_, fun {q w₁} hw₁ => ?_⟩,
      .still (fun _ => rfl) (.inl rfl)⟩
    · rw [Array.getElem?_push] at hw'
      split at hw'
      · obtain rfl := Option.some.inj hw'
        exact ⟨htarget, fun t d he => absurd (hstage.symm.trans he) (by simp),
          fun t att he => absurd (hstage.symm.trans he) (by simp)⟩
      · exact hc.writers hw'
    · have hlt := (Array.getElem?_eq_some_iff.mp hw₁).1
      refine ⟨w₁, ?_, rfl, rfl, fun _ => .inl⟩
      rw [Array.getElem?_push, if_neg (by omega), hw₁]
  | outside m => exact ⟨.of_writers hc rfl rfl rfl, .still (fun _ => rfl) (.inr ⟨m, rfl⟩)⟩
  | clock now => exact ⟨.of_writers hc rfl rfl rfl, .still (fun _ => rfl) (.inl rfl)⟩
  | look w hn hw => exact ⟨.of_writers hc rfl rfl rfl, .still_of_set rfl hn rfl hw (.inl rfl)⟩

/-! ## The invariant is kept -/

theorem Moves.later (h : Moves c c') : c.medium.Later c'.medium := by
  cases h with
  | still _ hmed =>
    rcases hmed with hmed | ⟨m, hmed⟩
    · exact hmed ▸ .refl _
    · exact hmed ▸ Network.later_put _ m
  | store _ _ _ hmed => exact hmed ▸ .refl _
  | start _ _ _ _ _ hmed => exact hmed ▸ .refl _
  | rest _ _ _ _ _ _ hmed => exact hmed ▸ .refl _
  | subscribe _ _ _ _ _ _ hmed => exact hmed ▸ Network.later_push _ _
  | hear _ _ hst _ _ _ hmed htopic hsocket hreads _ =>
    exact hmed ▸ Network.later_setStream hst htopic hsocket fun _ => hreads

/-- The stream `σ` is a new one, of the topic `t`. -/
def Fresh (c c' : Cluster Network) (t : Topic) (σ : ℕ) : Prop :=
  σ = c.medium.bus.streams.size ∧
    ∃ st, c'.medium.bus.streams[σ]? = some st ∧ st.topic = t ∧ c'.medium.Reads st

/-- The invariant is kept if at most one listener gets a stream, and that is a new one. -/
theorem Steady.of_nodes (hc : c.Steady s) (hf : Forward s c c') (hm : Moves c c')
    (i₀ : ℕ) (e₀ : Option ℕ)
    (hnodes : ∀ {i n'}, c'.nodes[i]? = some n' → ∃ n, c.nodes[i]? = some n ∧
      n'.core.Steady c.medium ∧ n'.store.store.lifetime = n.store.store.lifetime ∧
      ∀ e t σ, n'.core.Hears e t σ → n.core.Hears e t σ ∨ (i = i₀ ∧ e = e₀ ∧ Fresh c c' t σ)) :
    c'.Steady s where
  stoppers := hf.stoppers.trans hc.stoppers
  revoked := hf.revoked.trans hc.revoked
  cores hn' := by
    obtain ⟨n, _, hcore, _⟩ := hnodes hn'
    exact hcore.later hm.later
  lifetimes hn' := by
    obtain ⟨n, hn, _, hlife, _⟩ := hnodes hn'
    exact hlife.trans (hc.lifetimes hn)
  writers := hf.sound
  streams := fun {i n' e t σ} hn' hhears => by
    obtain ⟨n, hn, _, _, hold⟩ := hnodes hn'
    rcases hold e t σ hhears with hhears | ⟨_, _, _, hst⟩
    · obtain ⟨st, hst, htopic, hreads⟩ := hc.streams hn hhears
      obtain ⟨st', hst', htopic', _, hreads'⟩ := hm.later.streams σ st hst
      exact ⟨st', hst', htopic'.trans htopic, hreads' hreads⟩
    · exact hst
  unique := fun {i i' n₁ n₂ e e' t t' σ} hn₁ hn₂ h₁ h₂ => by
    obtain ⟨m₁, hm₁, _, _, hold₁⟩ := hnodes hn₁
    obtain ⟨m₂, hm₂, _, _, hold₂⟩ := hnodes hn₂
    have hbound : ∀ {j : ℕ} {n : Node} {e t}, c.nodes[j]? = some n → n.core.Hears e t σ →
        σ ≠ c.medium.bus.streams.size := fun hn hh => by
      obtain ⟨st, hst, _⟩ := hc.streams hn hh
      have hlt := (Array.getElem?_eq_some_iff.mp hst).1
      omega
    rcases hold₁ e t σ h₁ with h₁ | ⟨hi₁, he₁, hσ, _⟩
    · rcases hold₂ e' t' σ h₂ with h₂ | ⟨_, _, hσ, _⟩
      · exact hc.unique hm₁ hm₂ h₁ h₂
      · exact absurd hσ (hbound hm₁ h₁)
    · rcases hold₂ e' t' σ h₂ with h₂ | ⟨hi₂, he₂, _⟩
      · exact absurd hσ (hbound hm₂ h₂)
      · exact ⟨hi₁.trans hi₂.symm, he₁.trans he₂.symm⟩

theorem node_of_set {nodes : Array Node} {i j : ℕ} {n n' m : Node} (hn : nodes[i]? = some n)
    (hj : (nodes.setIfInBounds i n')[j]? = some m) :
    (j = i ∧ m = n') ∨ (j ≠ i ∧ nodes[j]? = some m) := by
  by_cases h : i = j
  · subst h
    rw [Array.getElem?_setIfInBounds_self_of_lt (Array.getElem?_eq_some_iff.mp hn).1] at hj
    exact .inl ⟨rfl, (Option.some.inj hj).symm⟩
  · rw [Array.getElem?_setIfInBounds_ne h] at hj
    exact .inr ⟨Ne.symm h, hj⟩

theorem rel_of_set {nodes : Array Node} {i j : ℕ} {n n' m : Node} {P : Node → Node → Prop}
    (hn : nodes[i]? = some n) (hj : (nodes.setIfInBounds i n')[j]? = some m) (hrefl : ∀ n, P n n)
    (h : P n n') : ∃ n, nodes[j]? = some n ∧ P n m := by
  rcases node_of_set hn hj with ⟨rfl, rfl⟩ | ⟨_, hj⟩
  · exact ⟨n, hn, h⟩
  · exact ⟨m, hj, hrefl m⟩

theorem Steady.of_set (hc : c.Steady s) (hf : Forward s c c') (hm : Moves c c') {i : ℕ}
    (e₀ : Option ℕ) {n n' : Node} (hn : c.nodes[i]? = some n)
    (hnodes : c'.nodes = c.nodes.setIfInBounds i n') (hcore : n'.core.Steady c.medium)
    (hlife : n'.store.store.lifetime = n.store.store.lifetime)
    (hhears : ∀ e t σ, n'.core.Hears e t σ → n.core.Hears e t σ ∨ (e = e₀ ∧ Fresh c c' t σ)) :
    c'.Steady s := by
  refine hc.of_nodes hf hm i e₀ fun {j m} hj => ?_
  rw [hnodes] at hj
  rcases node_of_set hn hj with ⟨rfl, rfl⟩ | ⟨hne, hj⟩
  · exact ⟨n, hn, hcore, hlife, fun e t σ hh => (hhears e t σ hh).imp_right fun hr => ⟨rfl, hr⟩⟩
  · exact ⟨m, hj, hc.cores hj, rfl, fun e t σ hh => .inl hh⟩

theorem Steady.step (hc : c.Steady s) (h : Step s c c') : c'.Steady s := by
  obtain ⟨hf, hm⟩ := hc.moves h
  have hm' := hm
  cases hm with
  | still hsame hmed =>
    refine hc.of_nodes hf hm' 0 none fun {i n'} hn' => ?_
    have hi := hsame i
    rw [hn', Option.map_some] at hi
    obtain ⟨n, hn, heq⟩ := Option.map_eq_some_iff.mp hi.symm
    obtain ⟨hcore, hstore⟩ := Prod.mk.inj heq
    exact ⟨n, hn, hcore ▸ hc.cores hn, congrArg Store.lifetime hstore.symm,
      fun e t σ hh => .inl (by rwa [hcore])⟩
  | @store q w w' n hw hn hnodes hmed hw' hsub henv hway =>
    have hcore : n.core.Steady c.medium := hc.cores hn
    exact hc.of_set hf hm' none hn hnodes hcore (Store.lifetime_write _ _ _ _)
      fun e t σ hh => .inl hh
  | start hn hnew hcore hstore hnodes hmed =>
    refine hc.of_set hf hm' none hn hnodes (hcore ▸ (hc.cores hn).start hnew)
      (by rw [hstore]) fun e t σ hh => .inl ?_
    rw [hcore] at hh
    exact Node.Core.hears_start hh
  | rest hn _ hl hcore hstore hnodes hmed =>
    refine hc.of_set hf hm' none hn hnodes (hcore ▸ (hc.cores hn).setEar _ _)
      (congrArg Store.lifetime hstore) fun e t σ hh => .inl ?_
    rw [hcore] at hh
    rcases Node.Core.hears_setEar hh with hh | ⟨_, heq, _⟩
    · exact hh
    · exact absurd heq (hl σ)
  | @subscribe i n n' e₀ t₀ l st hn _ hear hcore hstore hnodes hmed htopic hreads =>
    refine hc.of_set hf hm' e₀ hn hnodes (hcore ▸ (hc.cores hn).setEar _ _)
      (congrArg Store.lifetime hstore) fun e t σ hh => ?_
    rw [hcore] at hh
    rcases Node.Core.hears_setEar hh with hh | ⟨rfl, heq, l', hear'⟩
    · exact .inl hh
    · obtain ⟨rfl, -⟩ := Prod.mk.inj (Option.some.inj (hear.symm.trans hear'))
      obtain rfl := Listener.listening.inj heq
      refine .inr ⟨rfl, rfl, st, ?_, htopic, ?_⟩
      · rw [hmed]
        simp [Network.pushStream]
      · rw [hmed]
        exact hreads.later rfl (List.prefix_refl _)
  | @hear i n n' e₀ t₀ σ₀ st st' m hn hhears hst hcore hstore hnodes hmed htopic hsocket hreads
      honward =>
    refine hc.of_set hf hm' none hn hnodes (hcore ▸ (hc.cores hn).setEar _ _) ?_
      fun e t σ hh => .inl ?_
    · rw [hstore]
      exact Store.lifetime_deliver _ _ _ _
    · rw [hcore] at hh
      rcases Node.Core.hears_setEar hh with hh | ⟨rfl, heq, l', hear'⟩
      · exact hh
      · obtain ⟨rfl, -⟩ := Prod.mk.inj (Option.some.inj (hhears.symm.trans hear'))
        obtain rfl := Listener.listening.inj heq
        exact hhears

end Cluster

end Telemetry
