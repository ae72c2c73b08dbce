import Telemetry.Cluster.Basic
import Telemetry.Proofs.Traffic
import Telemetry.Proofs.Writing

/-!
# What a move of a task does to a cluster

Whatever state a cluster is in, a move of a task changes one node, and of the bus it changes little:
the loops put nothing on it and move one stream at most, and a write puts at most one message on it.

* `Node.discover_cases`, `Node.consume_cases`, `Node.turn_cases`, `Node.dispatchNext_cases`,
  `Stopper.act_eq`: what a move of a loop, or of a stop, does to its node;
* `Cluster.ear?`: the listener that a task moves;
* **`Cluster.act_outcome`**: what a loop does to the bus;
* `Cluster.act_feed`, `Cluster.act_writers`, `Cluster.act_streams`: what a loop leaves alone;
* **`Cluster.actWriter_cases`**: what a move of a write does.
-/

namespace Telemetry

/-! ## Nodes -/

namespace Node

variable {a : Network} {n n' : Node} {mv : Move Network} {now k : ℕ} {signals : List Signal}

theorem discover_cases (h : n.discover now a = some mv) : ∃ link, n.link = some link ∧
    ((mv.medium = a ∧ ∃ name, n.heard = some name ∧
      (n.cancelled = true ∧ mv.node = { n with heard := none } ∨
        n.cancelled = false ∧
          mv.node = { n with heard := none, requests := n.requests ++ [name] })) ∨
    (n.heard = none ∧ ∃ h, n.discovery.act controlPost link n.cancelled now a = some h ∧
      mv.medium = h.medium ∧ mv.node = { n with
        discovery := h.listener
        heard := h.message.bind fun m => (announcedName m.payload).1 })) := by
  unfold discover at h
  split at h
  · cases h
  · rename_i link hlink
    refine ⟨link, hlink, ?_⟩
    split at h
    · rename_i name hheard
      refine .inl ?_
      by_cases hcancelled : n.cancelled = true
      · rw [if_pos hcancelled] at h
        obtain rfl := Option.some.inj h
        exact ⟨rfl, name, hheard, .inl ⟨hcancelled, rfl⟩⟩
      · rw [if_neg hcancelled] at h
        split at h
        · obtain rfl := Option.some.inj h
          exact ⟨rfl, name, hheard, .inr ⟨by simpa using hcancelled, rfl⟩⟩
        · cases h
    · rename_i hheard
      obtain ⟨got, hact, rfl⟩ := Option.map_eq_some_iff.mp h
      refine .inr ⟨hheard, got, hact, ?_⟩
      cases got.message with
      | none =>
        refine ⟨rfl, ?_⟩
        rw [Option.bind_none, ← hheard]
      | some m => exact ⟨rfl, rfl⟩

theorem consume_cases (h : n.consume now k a = some mv) : ∃ link co h, n.link = some link ∧
    n.consumers[k]? = some co ∧
    co.listener.act (dataPost co.subscription) link n.cancelled now a = some h ∧
    mv.medium = h.medium ∧ ∃ store, mv.node = { n with
      consumers := n.consumers.set k { co with listener := h.listener }
      store } := by
  unfold consume at h
  split at h
  · rename_i link co hlink hco
    obtain ⟨got, hact, rfl⟩ := Option.map_eq_some_iff.mp h
    refine ⟨link, co, got, hlink, hco, hact, ?_⟩
    cases got.message with
    | none => exact ⟨rfl, _, rfl⟩
    | some m =>
      refine ⟨rfl, ?_⟩
      unfold applyRemote
      dsimp only
      split
      · exact ⟨_, rfl⟩
      · exact ⟨_, rfl⟩
  · cases h

theorem turn_cases (h : n.turn now = some (n', signals)) :
    n.cancelled = true ∧ n' = { n with nextEpoch := none } ∨
      n.cancelled = false ∧ ∃ time, n' = { n with announced := .empty, nextEpoch := some time } := by
  unfold turn at h
  split at h
  · cases h
  · by_cases hcancelled : n.cancelled = true
    · rw [if_pos hcancelled] at h
      exact .inl ⟨hcancelled, (Prod.mk.inj (Option.some.inj h)).1.symm⟩
    · rw [if_neg hcancelled] at h
      split at h
      · exact .inr ⟨by simpa using hcancelled, _, (Prod.mk.inj (Option.some.inj h)).1.symm⟩
      · cases h

theorem dispatchNext_cases (h : n.dispatchNext = some (n', signals)) :
    (∃ stage, (n.dispatch = .receiving → n.cancelled = true) ∧ n' = { n with dispatch := stage }) ∨
    n.dispatch = .receiving ∧ ∃ name rest, n.requests = name :: rest ∧
      (n.started.contains name = true ∧ n' = { n with requests := rest } ∨
        n.started.contains name = false ∧ n' = { n with
          requests := rest
          started := n.started.add name
          consumers := n.consumers ++ [{ subscription := name }] }) := by
  unfold dispatchNext at h
  split at h
  · cases h
  · rename_i hdispatch
    split at h
    · refine .inl ⟨.ended, fun hr => ?_, (Prod.mk.inj (Option.some.inj h)).1.symm⟩
      cases hdispatch.symm.trans hr
    · cases h
  · rename_i hdispatch
    by_cases hcancelled : n.cancelled = true
    · rw [if_pos hcancelled] at h
      exact .inl ⟨_, fun _ => hcancelled, (Prod.mk.inj (Option.some.inj h)).1.symm⟩
    · rw [if_neg hcancelled] at h
      split at h
      · cases h
      · rename_i name rest hrequests
        refine .inr ⟨hdispatch, name, rest, hrequests, ?_⟩
        have hstart := Option.some.inj h
        unfold start at hstart
        split at hstart
        · rename_i hknown
          exact .inl ⟨hknown, (Prod.mk.inj hstart).1.symm⟩
        · rename_i hnew
          exact .inr ⟨Bool.eq_false_iff.mpr hnew, (Prod.mk.inj hstart).1.symm⟩

end Node

theorem Stopper.act_eq {a : Network} {n : Node} {s : Stopper} {r : Halted Network}
    (h : s.act a n = some r) :
    (r.medium.bus.feed = a.bus.feed ∧ r.medium.bus.streams = a.bus.streams) ∧
      ∃ state cancelled handlesTaken, (n.cancelled = true → cancelled = true) ∧
        r.node = { n with state, cancelled, handlesTaken } := by
  unfold Stopper.act at h
  cases hstage : s.stage with
  | checking =>
    rw [hstage] at h
    obtain rfl := Option.some.inj h
    exact ⟨⟨rfl, rfl⟩, _, _, _, id, rfl⟩
  | cancelling =>
    rw [hstage] at h
    obtain rfl := Option.some.inj h
    exact ⟨⟨rfl, rfl⟩, _, _, _, fun _ => rfl, rfl⟩
  | taking =>
    rw [hstage] at h
    obtain rfl := Option.some.inj h
    exact ⟨⟨rfl, rfl⟩, _, _, _, id, rfl⟩
  | joining handles =>
    rw [hstage] at h
    dsimp only at h
    split at h
    · cases h
    · obtain rfl := Option.some.inj h
      exact ⟨⟨rfl, rfl⟩, _, _, _, id, rfl⟩
  | closing =>
    rw [hstage] at h
    dsimp only at h
    split at h
    · obtain rfl := Option.some.inj h
      exact ⟨⟨rfl, rfl⟩, _, _, _, id, rfl⟩
    · obtain rfl := Option.some.inj h
      exact ⟨⟨rfl, rfl⟩, _, _, _, id, rfl⟩
  | declaring =>
    rw [hstage] at h
    obtain rfl := Option.some.inj h
    exact ⟨⟨rfl, rfl⟩, _, _, _, id, rfl⟩
  | done =>
    rw [hstage] at h
    cases h

/-- A write keeps its node, its caller and what it says, and stays over when it is. -/
structure Writer.Onward (w w' : Writer) : Prop where
  node : w'.node = w.node
  token : w'.token = w.token
  subscription : w'.subscription = w.subscription
  envelope : w'.envelope = w.envelope
  done : w.stage = .done → w'.stage = .done

theorem Writer.Onward.refl (w : Writer) : w.Onward w := ⟨rfl, rfl, rfl, rfl, id⟩

namespace Cluster

variable {c c' : Cluster Network} {t : Task} {i j k q σ : ℕ}

/-- The listener that a task moves. -/
def ear? (c : Cluster Network) : Task → Option Listener
  | .discovery i => c.nodes[i]?.map (·.discovery)
  | .consumer i k => c.nodes[i]?.bind fun n => n.consumers[k]?.map (·.listener)
  | _ => none

/-! ## Loops and the bus -/

/-- **What a loop does to the bus**: its listener does it, or nothing happens. -/
theorem act_outcome (ht : ∀ q, t ≠ .writer q) (hact : c.act t = some c') :
    c'.writers = c.writers ∧
    ((∃ post link l h, c.ear? t = some l ∧ c'.ear? t = some h.listener ∧
      (∀ i, t = .discovery i → post = controlPost) ∧
      Listener.Outcome post link c.medium l h ∧ c'.medium = h.medium) ∨
    c'.ear? t = c.ear? t ∧ c'.medium.bus.feed = c.medium.bus.feed ∧
      c'.medium.bus.streams = c.medium.bus.streams) := by
  have hset : ∀ {i : ℕ} {n n' : Node}, c.nodes[i]? = some n →
      (c.nodes.setIfInBounds i n')[i]? = some n' := fun hn =>
    Array.getElem?_setIfInBounds_self_of_lt (Array.getElem?_eq_some_iff.mp hn).1
  cases t with
  | writer q => exact absurd rfl (ht q)
  | discovery i =>
    obtain ⟨n, hn, mv, hmv, rfl⟩ := act_discovery_iff.mp hact
    refine ⟨rfl, ?_⟩
    have hear : c.ear? (.discovery i) = some n.discovery := by
      rw [ear?, hn, Option.map_some]
    have hear' : (c.apply i mv).ear? (.discovery i) = some mv.node.discovery := by
      show ((c.nodes.setIfInBounds i mv.node)[i]?).map _ = _
      rw [hset hn, Option.map_some]
    obtain ⟨link, -, ⟨hmed, name, -, hnode⟩ | ⟨-, h, hh, hmed, hnode⟩⟩ := Node.discover_cases hmv
    · have hdiscovery : mv.node.discovery = n.discovery := by
        rcases hnode with ⟨-, hnode⟩ | ⟨-, hnode⟩
        · rw [hnode]
        · rw [hnode]
      refine .inr ⟨by rw [hear', hear, hdiscovery], ?_⟩
      show mv.medium.bus.feed = _ ∧ mv.medium.bus.streams = _
      rw [hmed]
      exact ⟨rfl, rfl⟩
    · refine .inl ⟨_, _, _, h, hear, ?_, fun _ _ => rfl, Listener.act_outcome hh, hmed⟩
      rw [hear', hnode]
  | consumer i k =>
    obtain ⟨n, hn, mv, hmv, rfl⟩ := act_consumer_iff.mp hact
    refine ⟨rfl, ?_⟩
    obtain ⟨link, co, h, -, hco, hh, hmed, store, hnode⟩ := Node.consume_cases hmv
    have hear : c.ear? (.consumer i k) = some co.listener := by
      rw [ear?, hn, Option.bind_some, hco, Option.map_some]
    have hlt := (List.getElem?_eq_some_iff.mp hco).1
    have hear' : (c.apply i mv).ear? (.consumer i k) = some h.listener := by
      show ((c.nodes.setIfInBounds i mv.node)[i]?).bind _ = _
      rw [hset hn, Option.bind_some, hnode, List.getElem?_set_self hlt, Option.map_some]
    exact .inl ⟨_, _, _, h, hear, hear', by simp, Listener.act_outcome hh, hmed⟩
  | epoch i | dispatch i =>
    simp only [act, Option.bind_eq_bind, Option.bind_eq_some_iff, Option.pure_def,
      Option.some.injEq] at hact
    obtain ⟨n, -, _, -, rfl⟩ := hact
    exact ⟨rfl, .inr ⟨rfl, rfl, rfl⟩⟩
  | stopper k =>
    obtain ⟨s, -, n, -, r, hr, rfl⟩ := act_stopper_iff.mp hact
    exact ⟨rfl, .inr ⟨rfl, (Stopper.act_eq hr).1⟩⟩

theorem act_writers (ht : ∀ q, t ≠ .writer q) (hact : c.act t = some c') :
    c'.writers = c.writers := (act_outcome ht hact).1

theorem act_feed (ht : ∀ q, t ≠ .writer q) (hact : c.act t = some c') :
    c'.medium.bus.feed = c.medium.bus.feed := by
  rcases (act_outcome ht hact).2 with ⟨post, link, l, h, -, -, -, hout, hmed⟩ | ⟨-, hfeed, -⟩
  · rw [hmed]
    cases hout with
    | rest _ _ hbus => rw [hbus]
    | subscribe _ _ _ _ hbus => rw [hbus]
    | tend _ _ htends => exact htends.feed
    | leave _ _ htends => exact htends.feed
  · exact hfeed

theorem act_streams (ht : ∀ q, t ≠ .writer q) (hact : c.act t = some c')
    (hσ : σ < c.medium.bus.streams.size) (hear : c.ear? t ≠ some (.listening σ)) :
    c'.medium.bus.streams[σ]? = c.medium.bus.streams[σ]? := by
  rcases (act_outcome ht hact).2 with
    ⟨post, link, l, h, hl, -, -, hout, hmed⟩ | ⟨-, -, hstreams⟩
  · have hne : ∀ ρ, l = .listening ρ → σ ≠ ρ := by
      rintro ρ rfl rfl
      exact hear hl
    rw [hmed]
    cases hout with
    | rest _ _ hbus => rw [hbus]
    | subscribe _ _ _ _ hbus =>
      rw [hbus]
      show (c.medium.bus.streams.push _)[σ]? = _
      rw [Array.getElem?_push, if_neg (by omega)]
    | tend heq _ htends => exact htends.others σ (hne _ heq)
    | leave heq _ htends => exact htends.others σ (hne _ heq)
  · rw [hstreams]

theorem act_setWriters (ws : Array Writer) (ht : ∀ q, t ≠ .writer q) (hact : c.act t = some c') :
    ({ c with writers := ws } : Cluster Network).act t = some { c' with writers := ws } := by
  cases t with
  | writer q => exact absurd rfl (ht q)
  | discovery i | epoch i | dispatch i | consumer i k =>
    simp only [act, Option.bind_eq_bind, Option.bind_eq_some_iff, Option.pure_def,
      Option.some.injEq] at hact ⊢
    obtain ⟨n, hn, mv, hmv, rfl⟩ := hact
    exact ⟨n, hn, mv, hmv, rfl⟩
  | stopper k =>
    simp only [act, actStopper, Option.bind_eq_bind, Option.bind_eq_some_iff, Option.pure_def,
      Option.some.injEq] at hact ⊢
    obtain ⟨s, hs, n, hn, r, hr, rfl⟩ := hact
    exact ⟨s, hs, n, hn, r, hr, rfl⟩

/-! ## Writes -/

theorem release_cases (c : Cluster Network) (i : ℕ) : c.release i = c ∨
    ∃ n, c.nodes[i]? = some n ∧
      c.release i = { c with nodes := c.nodes.setIfInBounds i { n with cancelled := true } } := by
  unfold release
  split
  · rename_i n hn
    split
    · exact .inl rfl
    · exact .inr ⟨n, hn, by simp [setNode]⟩
  · exact .inl rfl

theorem release_eq (c : Cluster Network) (i : ℕ) :
    (c.release i).writers = c.writers ∧ (c.release i).medium = c.medium := by
  rcases release_cases c i with heq | ⟨n, -, heq⟩
  · rw [heq]
    exact ⟨rfl, rfl⟩
  · rw [heq]
    exact ⟨rfl, rfl⟩

/-- **What a move of a write does**: what its `act` says, and when it is over and nobody holds the
node any more, that is cancelled. -/
theorem actWriter_cases (hact : c.actWriter q = some c') : ∃ w n r n', c.writers[q]? = some w ∧
    c.nodes[w.node]? = some n ∧ w.act c.now (c.isRevoked w) c.medium n = some r ∧
    (n' = r.node ∨ r.stage = .done ∧ n' = { r.node with cancelled := true }) ∧
    c' = { c with
      medium := r.medium
      nodes := c.nodes.setIfInBounds w.node n'
      writers := c.writers.setIfInBounds q { w with
        stage := r.stage
        finished := if r.stage = .done then some c.now else none }
      journal := c.journal ++ r.signals } := by
  simp only [actWriter, Option.bind_eq_bind, Option.bind_eq_some_iff, Option.pure_def,
    Option.some.injEq] at hact
  obtain ⟨w, hw, n, hn, r, hr, rfl⟩ := hact
  by_cases hdone : r.stage = .done
  · rw [if_pos hdone]
    rcases release_cases { c.apply w.node ⟨r.medium, r.node, r.signals⟩ with
      writers := c.writers.setIfInBounds q { w with
        stage := r.stage
        finished := if r.stage = .done then some c.now else none } } w.node with heq | ⟨n₁, hn₁, heq⟩
    · exact ⟨w, n, r, _, hw, hn, hr, .inl rfl, heq⟩
    · have hlt := (Array.getElem?_eq_some_iff.mp hn).1
      have hn₁ : (c.nodes.setIfInBounds w.node r.node)[w.node]? = some n₁ := hn₁
      rw [Array.getElem?_setIfInBounds_self_of_lt hlt] at hn₁
      obtain rfl := Option.some.inj hn₁
      refine ⟨w, n, r, _, hw, hn, hr, .inr ⟨hdone, rfl⟩, heq.trans ?_⟩
      simp [apply, setNode]
  · rw [if_neg hdone]
    exact ⟨w, n, r, _, hw, hn, hr, .inl rfl, rfl⟩

theorem act_onward (hact : c.act t = some c') : c'.writers.size = c.writers.size ∧
    ∀ (q : ℕ) w', c'.writers[q]? = some w' → ∃ w, c.writers[q]? = some w ∧ w.Onward w' := by
  have hkeep : c'.writers = c.writers → c'.writers.size = c.writers.size ∧
      ∀ (q : ℕ) w', c'.writers[q]? = some w' → ∃ w, c.writers[q]? = some w ∧ w.Onward w' :=
    fun h => ⟨congrArg Array.size h, fun q w' hw' => ⟨w', h ▸ hw', .refl w'⟩⟩
  by_cases ht : ∃ q, t = .writer q
  · obtain ⟨q, rfl⟩ := ht
    obtain ⟨w, n, r, n', hw, -, hr, -, rfl⟩ := actWriter_cases hact
    refine ⟨Array.size_setIfInBounds, fun ρ w' hw' => ?_⟩
    by_cases hρ : q = ρ
    · subst hρ
      have hlt := (Array.getElem?_eq_some_iff.mp hw).1
      rw [Array.getElem?_setIfInBounds_self_of_lt hlt] at hw'
      obtain rfl := Option.some.inj hw'
      refine ⟨w, hw, rfl, rfl, rfl, rfl, fun hdone => ?_⟩
      simp [Writer.act, hdone] at hr
    · rw [Array.getElem?_setIfInBounds_ne hρ] at hw'
      exact ⟨w', hw', .refl w'⟩
  · exact hkeep (act_writers (fun q hq => ht ⟨q, hq⟩) hact)

end Cluster

end Telemetry
