import Mathlib.Logic.Relation
import Telemetry.Proofs.Agree
import Telemetry.Proofs.Replay
import Telemetry.Proofs.Steady

/-!
# Convergence

A node writes to its own store first and publishes later, and every node hears of all data in the
order of the bus, its own included. Whatever a node wrote early is decided again when its own data
comes back. So once everything was published and heard, all stores list what is listed after the
data was written to one empty store, in the order of the bus.

* `Cluster.Initial`, `Cluster.Tuned`, `Cluster.Silent`: before the first write of a subscription;
* `Cluster.KeepsUp`, `Cluster.Settled`: no consumer is too far behind; nothing is left to be heard;
* `Cluster.Turn`, `Cluster.Steady.turn`: what a step does to a store and to what it has heard;
* `Cluster.Pending`, `Cluster.Follows`: the invariant of a node, by what it has heard;
* `Cluster.Follows.early`, `Cluster.Follows.heard`: a node writes, and hears;
* **`Cluster.Convergent.step`**, `Cluster.Convergent.run`: every node goes on following the bus;
* **`Cluster.read_of_settled`**: all nodes list what the replay of the bus lists.
-/

namespace Telemetry

open Relation

namespace Cluster

variable {s t : String} {c c' : Cluster Network} {next : ℕ}

/-! ## Before the first write -/

/-- Nodes that were just created on open lines, and whose updates do not expire. -/
structure Initial (c : Cluster Network) : Prop where
  nodes : ∀ n ∈ c.nodes, ∃ settings link now, n = (Node.create settings (some link) now).1 ∧
    settings.expiration = none ∧ c.medium.Open link
  writers : c.writers = #[]
  stoppers : c.stoppers = #[]
  revoked : c.revoked = []

theorem Initial.core {n : Node} (h : c.Initial) (hn : n ∈ c.nodes) : n.core.Steady c.medium ∧
    n.store.store = {} ∧ ∀ e t σ, ¬ n.core.Hears e t σ := by
  obtain ⟨settings, link, now, rfl, hexp, hopen⟩ := h.nodes n hn
  refine ⟨⟨rfl, rfl, rfl, ⟨link, rfl, hopen⟩, rfl⟩, ?_, fun e t σ hh => ?_⟩
  · have hcomplete : settings.complete.expiration = none := hexp
    simp only [Node.create, hcomplete]
  · cases e with
    | none => cases hh
    | some k => cases hh

theorem Initial.steady (h : c.Initial) (s : String) : c.Steady s where
  stoppers := h.stoppers
  revoked := h.revoked
  cores hn := (h.core (Array.mem_of_getElem? hn)).1
  lifetimes hn := by rw [(h.core (Array.mem_of_getElem? hn)).2.1]
  writers hw := by
    rw [h.writers] at hw
    cases hw
  streams hn hh := absurd hh ((h.core (Array.mem_of_getElem? hn)).2.2 _ _ _)
  unique hn _ hh _ := absurd hh ((h.core (Array.mem_of_getElem? hn)).2.2 _ _ _)

/-- Nothing of `s` was written or published. -/
structure Silent (s : String) (c : Cluster Network) : Prop where
  writers : ∀ w ∈ c.writers, w.subscription ≠ s
  log : ∀ m ∈ c.medium.bus.log, accepted s m = none

theorem Silent.of_step (hc : c.Steady s) (h : Step s c c') (hs : c'.Silent s) : c.Silent s := by
  obtain ⟨hf, hm⟩ := hc.moves h
  refine ⟨fun w hw => ?_, fun m hm' => hs.log m (hm.later.log.subset hm')⟩
  obtain ⟨q, hq⟩ := Array.getElem?_of_mem hw
  obtain ⟨w', hw', hsub, _⟩ := hf.onward hq
  rw [← hsub]
  exact hs.writers w' (Array.mem_of_getElem? hw')

/-- What a step does to the store of a node: nothing, or a write, or a message. -/
inductive Change (c c' : Cluster Network) (a b : Store) : Prop
  | same : b = a → Change c c' a b
  | write {now : ℕ} {w : Writer} : w ∈ c'.writers →
      b = a.write now w.subscription w.envelope → Change c c' a b
  | hear {now : ℕ} {s : String} {m : Message} : m ∈ c.medium.bus.log → b = a.hear now s m →
      Change c c' a b

theorem Moves.change (hm : Moves c c') {i : ℕ} {n' : Node} (hn' : c'.nodes[i]? = some n') :
    ∃ n, c.nodes[i]? = some n ∧ Change c c' n.store.store n'.store.store := by
  have hset : ∀ {i₀ : ℕ} {n n₁ : Node}, c.nodes[i₀]? = some n →
      c'.nodes = c.nodes.setIfInBounds i₀ n₁ → Change c c' n.store.store n₁.store.store →
      ∃ n, c.nodes[i]? = some n ∧ Change c c' n.store.store n'.store.store := fun hn hnodes h =>
    rel_of_set (P := fun n n' => Change c c' n.store.store n'.store.store) hn (hnodes ▸ hn')
      (fun _ => .same rfl) h
  cases hm with
  | still hsame hmed =>
    have hi := hsame i
    rw [hn', Option.map_some] at hi
    obtain ⟨n, hn, heq⟩ := Option.map_eq_some_iff.mp hi.symm
    exact ⟨n, hn, .same (congrArg Prod.snd heq).symm⟩
  | @store q w w' n hw hn hnodes hmed hw' hsub henv hway =>
    have hkeep : (n.keep w.subscription w.envelope).store.store =
        n.store.store.write n.store.now w'.subscription w'.envelope := by
      rw [hsub, henv]
      rfl
    exact hset hn hnodes (.write (Array.mem_of_getElem? hw') hkeep)
  | start hn _ _ hstore hnodes _ => exact hset hn hnodes (.same (congrArg Watched.store hstore))
  | rest hn _ _ _ hstore hnodes _ => exact hset hn hnodes (.same hstore)
  | subscribe hn _ _ _ hstore hnodes _ _ _ => exact hset hn hnodes (.same hstore)
  | @hear i₀ n n₁ e t σ st st' m? hn hhears hst hcore hstore hnodes hmed htopic hsocket hreads
      honward =>
    refine hset hn hnodes ?_
    rw [hstore]
    cases honward with
    | @message m hlog _ _ =>
      cases n.core.subscription? e with
      | none => exact .same rfl
      | some s => exact .hear (List.mem_of_getElem? hlog) rfl
    | passed | lagged | parked => cases n.core.subscription? e <;> exact .same rfl

def Blank (s : String) (c : Cluster Network) : Prop :=
  ∀ n ∈ c.nodes, ∀ t, n.store.store.shelf s t = {}

theorem Blank.step (hb : c.Blank s) (hc : c.Steady s) (h : Step s c c') (hs : c'.Silent s) :
    c'.Blank s := by
  intro n' hn' t
  obtain ⟨i, hi⟩ := Array.getElem?_of_mem hn'
  obtain ⟨n, hn, hchange⟩ := (hc.moves h).2.change hi
  have hempty := hb n (Array.mem_of_getElem? hn) t
  cases hchange with
  | same hstore => rw [hstore, hempty]
  | @write now w hw hstore =>
    rw [hstore, Store.shelf_write_of_ne (hs.writers w hw).symm, hempty]
  | @hear now s' m hm hstore =>
    by_cases hne : s' = s
    · subst hne
      have hnone := (hs.of_step hc h).log m hm
      rw [hstore, Store.hear, hnone, hempty]
    · have hne : some s' ≠ some s := fun he => hne (Option.some.inj he)
      rw [hstore, ← hempty]
      exact Store.shelf_deliver_of_ne hne now (some m) n.store.store

/-- **As long as nothing of `s` is written, nobody keeps anything of it.** -/
theorem Initial.blank {c₀ : Cluster Network} (h₀ : c₀.Initial)
    (h : ReflTransGen (Step s) c₀ c) : c.Steady s ∧ (c.Silent s → c.Blank s) := by
  induction h with
  | refl =>
    refine ⟨h₀.steady s, fun _ n hn t => ?_⟩
    rw [(h₀.core hn).2.1]
    rfl
  | tail _ hstep ih =>
    exact ⟨ih.1.step hstep, fun hs => .step (ih.2 (hs.of_step ih.1 hstep)) ih.1 hstep hs⟩

/-! ## What a consumer has heard -/

/-- How many messages the stream of a consumer has seen, if it listens. -/
def seen? (c : Cluster Network) (co : Consumer) : Option ℕ :=
  match co.listener with
  | .listening σ => c.medium.bus.streams[σ]?.map (·.next)
  | _ => none

/-- What a step does to the store `a` of a node and to the stream `st` of its consumer of `s`. -/
inductive Turn (s : String) (c c' : Cluster Network) (st st' : Stream) (a b : Store) : Prop
  | idle : (∀ t, b.shelf s t = a.shelf s t) → st' = st → Turn s c c' st st' a b
  /-- The node writes what it will hear later. -/
  | early {q now : ℕ} {w : Writer} : c'.writers[q]? = some w → w.subscription = s → w.OnTheWay →
      b = a.write now s w.envelope → st' = st → Turn s c c' st st' a b
  | heard {now : ℕ} {m? : Option Message} : st.Onward c.medium st' m? →
      b = a.deliver now (some s) m? → Turn s c c' st st' a b

theorem Turn.same {st : Stream} {a b : Store} (h : b = a) : Turn s c c' st st a b :=
  .idle (fun _ => by rw [h]) rfl

/-- A consumer of `s` at the node goes on listening to its stream. -/
def Carries (s : String) (c c' : Cluster Network) (n n' : Node) : Prop :=
  ∀ {k σ : ℕ} {st : Stream}, n.core.Consumes s k σ → c.medium.bus.streams[σ]? = some st →
    n'.core.Consumes s k σ ∧ ∃ st', c'.medium.bus.streams[σ]? = some st' ∧
      Turn s c c' st st' n.store.store n'.store.store

theorem turn_of_set {i j : ℕ} {n n₁ n' : Node} (hn : c.nodes[i]? = some n)
    (hnodes : c'.nodes = c.nodes.setIfInBounds i n₁)
    (hstreams : ∀ {σ : ℕ} {st}, c.medium.bus.streams[σ]? = some st →
      c'.medium.bus.streams[σ]? = some st)
    (hset : ∀ {k σ}, n.core.Consumes s k σ → n₁.core.Consumes s k σ ∧
      ∀ st, Turn s c c' st st n.store.store n₁.store.store) (hn' : c'.nodes[j]? = some n') :
    ∃ n, c.nodes[j]? = some n ∧ Carries s c c' n n' :=
  rel_of_set (P := fun n n' => Carries s c c' n n') hn (hnodes ▸ hn')
    (fun _ _ _ st hk hst => ⟨hk, st, hstreams hst, .same rfl⟩)
    fun {_ _ st} hk hst => ⟨(hset hk).1, st, hstreams hst, (hset hk).2 st⟩

theorem Steady.turn (hc : c.Steady s) (hm : Moves c c') {i : ℕ} {n' : Node}
    (hn' : c'.nodes[i]? = some n') : ∃ n, c.nodes[i]? = some n ∧ Carries s c c' n n' := by
  cases hm with
  | still hsame hmed =>
    have hi := hsame i
    rw [hn', Option.map_some] at hi
    obtain ⟨n, hn, heq⟩ := Option.map_eq_some_iff.mp hi.symm
    obtain ⟨hcore, hstore⟩ := Prod.mk.inj heq
    refine ⟨n, hn, fun {k σ st} hk hst => ⟨hcore ▸ hk, st, ?_, .same hstore.symm⟩⟩
    rcases hmed with hmed | ⟨m, hmed⟩
    · rw [hmed, hst]
    · rw [hmed, ← hst]
      rfl
  | @store q w w' n hw hn hnodes hmed hw' hsub henv hway =>
    refine turn_of_set hn hnodes (fun hst => hmed ▸ hst) (fun {k σ} hk => ⟨hk, fun st => ?_⟩) hn'
    by_cases hs : w.subscription = s
    · subst hs
      exact .early hw' hsub hway (by rw [henv]; rfl) rfl
    · exact .idle (fun t => Store.shelf_write_of_ne (Ne.symm hs) _ _ _) rfl
  | start hn hnew hcore hstore hnodes hmed =>
    refine turn_of_set hn hnodes (fun hst => hmed ▸ hst) (fun {k σ} hk => ⟨?_, fun st => ?_⟩) hn'
    · exact hcore ▸ hk.start _ _
    · exact .same (congrArg Watched.store hstore)
  | rest hn hdeaf hl hcore hstore hnodes hmed =>
    refine turn_of_set hn hnodes (fun hst => hmed ▸ hst) (fun {k σ} hk => ⟨?_, fun st => ?_⟩) hn'
    · exact hcore ▸ hk.setEar fun he => absurd hk.hears (he ▸ hdeaf _ _)
    · exact .same hstore
  | subscribe hn hdeaf hear hcore hstore hnodes hmed htopic hreads =>
    refine turn_of_set hn hnodes (fun {σ st} hst => ?_) (fun {k σ} hk => ⟨?_, fun st => ?_⟩) hn'
    · have hlt := (Array.getElem?_eq_some_iff.mp hst).1
      rw [hmed, Network.pushStream, Array.getElem?_push, if_neg (by omega), hst]
    · exact hcore ▸ hk.setEar fun he => absurd hk.hears (he ▸ hdeaf _ _)
    · exact .same hstore
  | @hear i₀ n n₁ e t σ₀ st₀ st₁ m? hn hhears hst₀ hcore hstore hnodes hmed htopic hsocket hreads
      honward =>
    have hother : ∀ {σ : ℕ} {st}, σ₀ ≠ σ → c.medium.bus.streams[σ]? = some st →
        c'.medium.bus.streams[σ]? = some st := fun {σ st} hne hst => by
      rw [hmed, Network.setStream, Bus.setStream, Array.getElem?_setIfInBounds_ne hne, hst]
    rcases node_of_set hn (hnodes ▸ hn') with ⟨rfl, rfl⟩ | ⟨hne, hj⟩
    · refine ⟨n, hn, fun {k σ st} hk hst => ?_⟩
      by_cases he : e = some k
      · -- the consumer itself hears
        subst he
        obtain ⟨-, heq⟩ := Prod.mk.inj (Option.some.inj (hhears.symm.trans hk.hears))
        obtain rfl := Listener.listening.inj heq
        obtain rfl := Option.some.inj (hst₀.symm.trans hst)
        rw [hk.subscription?] at hstore
        refine ⟨hcore ▸ hk.setEar fun _ => rfl, st₁, ?_, .heard honward hstore⟩
        rw [hmed]
        exact Array.getElem?_setIfInBounds_self_of_lt (Array.getElem?_eq_some_iff.mp hst).1
      · -- another listener of the node hears, which has a stream and a subscription of its own
        have hσ : σ₀ ≠ σ := fun h => he (hc.unique hn hn (h ▸ hhears) hk.hears).2
        refine ⟨hcore ▸ hk.setEar fun h => absurd h he, st, hother hσ hst, .idle (fun t => ?_) rfl⟩
        rw [hstore, Store.shelf_deliver_of_ne ((hc.cores hn).subscription?_ne hk he)]
    · refine ⟨n', hj, fun {k σ st} hk hst => ⟨hk, st, hother (fun h => ?_) hst, .same rfl⟩⟩
      exact hne (hc.unique hn hj (h ▸ hhears) hk.hears).1.symm

/-! ## What is still to come -/

/-- Whoever has heard `next` messages will hear this about the target: it is on the bus, or a write
on its way holds it. -/
def Pending (s t : String) (c : Cluster Network) (next : ℕ) (n : Notification) : Prop :=
  (∃ m ∈ c.medium.bus.log.drop next, heard? s t m = some n) ∨
  ∃ (q : ℕ) (w : Writer), c.writers[q]? = some w ∧ w.subscription = s ∧ w.OnTheWay ∧
    w.envelope.canonical.about? t = some n

/-- A store agrees with the replay of the first `next` messages, but for what is still to come. -/
def Follows (s : String) (c : Cluster Network) (st : Store) (next : ℕ) : Prop :=
  ∀ t, Shelf.Agrees (Pending s t c next) (st.shelf s t)
    ((replay s (c.medium.bus.log.take next)).shelf s t)

theorem Pending.step (hf : Forward s c c') (hm : Moves c c')
    (hnext : next ≤ c.medium.bus.log.length) {n : Notification} (h : Pending s t c next n) :
    Pending s t c' next n := by
  rcases h with ⟨m, hmem, hheard⟩ | ⟨q, w, hw, rfl, hway, habout⟩
  · exact .inl ⟨m, (hm.later.log.drop next).subset hmem, hheard⟩
  · obtain ⟨w', hw', hsub, henv, honward⟩ := hf.onward hw
    rcases honward rfl hway with hway' | ⟨t', ht', hmed⟩
    · exact .inr ⟨q, w', hw', hsub, hway', henv ▸ habout⟩
    · refine .inl ⟨w.data t', ?_, ?_⟩
      · rw [hmed, Network.put, Network.log_put, List.drop_append_of_le_length hnext]
        exact List.mem_append_right _ List.mem_cons_self
      · rw [heard?, accepted_data ht']
        exact habout

theorem Follows.step (hf : Forward s c c') (hm : Moves c c')
    (hnext : next ≤ c.medium.bus.log.length) {st : Store} (h : c.Follows s st next) :
    c'.Follows s st next := by
  intro t
  obtain ⟨rest, hlog⟩ := hm.later.log
  rw [← hlog, List.take_append_of_le_length hnext]
  exact (h t).mono fun n hn => hn.step hf hm hnext

theorem Follows.congr {a b : Store} (h : c.Follows s a next)
    (hab : ∀ t, b.shelf s t = a.shelf s t) : c.Follows s b next := by
  intro t
  rw [hab]
  exact h t

/-- **A node writes what it will hear later.** -/
theorem Follows.early {st : Store} {q : ℕ} {w : Writer} (h : c.Follows s st next)
    (hw : c.writers[q]? = some w) (hsub : w.subscription = s) (hway : w.OnTheWay) (now : ℕ) :
    c.Follows s (st.write now s w.envelope) next := by
  intro t
  cases habout : w.envelope.about? t with
  | none =>
    rw [Store.shelf_write_of_not_about habout]
    exact h t
  | some n =>
    have hpending : Pending s t c next n.canonical :=
      .inr ⟨q, w, hw, hsub, hway, by rw [Envelope.canonical_about?, habout]; rfl⟩
    rw [Store.shelf_write_of_about habout]
    exact (h t).early hpending n.canonical_canonical now

/-- **A node hears the next message.** -/
theorem Follows.heard {st : Store} {m : Message} (h : c.Follows s st next)
    (hm : c.medium.bus.log[next]? = some m) (now : ℕ) :
    c.Follows s (st.hear now s m) (next + 1) := by
  intro t
  have hlt := (List.getElem?_eq_some_iff.mp hm).1
  have htake : c.medium.bus.log.take (next + 1) = c.medium.bus.log.take next ++ [m] := by
    rw [List.take_add_one, hm]
    rfl
  have hpending : ∀ n, Pending s t c next n →
      heard? s t m = some n ∨ Pending s t c (next + 1) n := by
    rintro n (⟨m', hmem, hheard⟩ | hway)
    · have hdrop : c.medium.bus.log.drop next = m :: c.medium.bus.log.drop (next + 1) := by
        rw [List.drop_eq_getElem_cons hlt, (List.getElem?_eq_some_iff.mp hm).2]
      rw [hdrop] at hmem
      rcases List.mem_cons.mp hmem with rfl | hmem
      · exact .inl hheard
      · exact .inr (.inl ⟨m', hmem, hheard⟩)
    · exact .inr (.inr hway)
  rw [htake, replay_concat]
  cases hheard : heard? s t m with
  | none =>
    rw [Store.shelf_hear_of_none hheard, Store.shelf_hear_of_none hheard]
    refine (h t).mono fun n hn => (hpending n hn).resolve_left fun he => ?_
    rw [hheard] at he
    cases he
  | some n =>
    rw [Store.shelf_hear_of_some hheard, Store.shelf_hear_of_some hheard]
    refine (h t).heard (fun n' hn' => ?_) now 0
    exact (hpending n' hn').imp_left fun he => Option.some.inj (he.symm.trans hheard)

/-! ## Runs -/

/-- A consumer of `s` listens at every node. -/
def Tuned (s : String) (c : Cluster Network) : Prop :=
  ∀ n ∈ c.nodes, ∃ co ∈ n.consumers, co.subscription = s ∧ (c.seen? co).isSome = true

/-- No consumer of `s` has lost a message. -/
def KeepsUp (s : String) (c : Cluster Network) : Prop :=
  ∀ n ∈ c.nodes, ∀ co ∈ n.consumers, co.subscription = s → ∀ next, c.seen? co = some next →
    c.medium.bus.feed.oldest ≤ next

/-- No write of `s` is on its way, and its consumers have seen the whole bus. -/
structure Settled (s : String) (c : Cluster Network) : Prop where
  writers : ∀ w ∈ c.writers, w.subscription = s → w.stage = .done
  consumers : ∀ n ∈ c.nodes, ∀ co ∈ n.consumers, co.subscription = s →
    c.seen? co = some c.medium.bus.log.length

/-- Every node follows the bus. -/
def Convergent (s : String) (c : Cluster Network) : Prop :=
  ∀ n ∈ c.nodes, ∃ k σ st, n.core.Consumes s k σ ∧ c.medium.bus.streams[σ]? = some st ∧
    c.Follows s n.store.store st.next

theorem seen?_of_consumes {n : Node} {k σ : ℕ} {st : Stream} (hk : n.core.Consumes s k σ)
    (hst : c.medium.bus.streams[σ]? = some st) : ∃ co ∈ n.consumers, co.subscription = s ∧
      c.seen? co = some st.next := by
  refine ⟨_, List.mem_of_getElem? hk, rfl, ?_⟩
  simp only [seen?, hst, Option.map_some]

theorem consumes_of_seen? {n : Node} {co : Consumer} (hco : co ∈ n.consumers)
    (h : (c.seen? co).isSome = true) : ∃ k σ st, n.core.Consumes co.subscription k σ ∧
      c.medium.bus.streams[σ]? = some st := by
  obtain ⟨k, hk⟩ := List.getElem?_of_mem hco
  obtain ⟨sub, l⟩ := co
  cases l with
  | listening σ =>
    obtain ⟨st, hst⟩ := Option.isSome_iff_exists.mp ((Option.isSome_map).symm.trans h)
    exact ⟨k, σ, st, hk, hst⟩
  | attempting _ _ | resting _ _ _ | ended => cases h

theorem Convergent.start (htuned : c.Tuned s) (hs : c.Silent s) (hb : c.Blank s) :
    c.Convergent s := by
  intro n hn
  obtain ⟨co, hco, rfl, hseen⟩ := htuned n hn
  obtain ⟨k, σ, st, hk, hst⟩ := consumes_of_seen? hco hseen
  refine ⟨k, σ, st, hk, hst, fun t => ?_⟩
  have hreplay : replay co.subscription (c.medium.bus.log.take st.next) = {} :=
    replay_of_none fun m hm => hs.log m (List.mem_of_mem_take hm)
  rw [hreplay, hb n hn]
  exact .refl _

/-- **Every node goes on following the bus.** -/
theorem Convergent.step (h : c.Convergent s) (hc : c.Steady s) (hkeeps : c.KeepsUp s)
    (hstep : Step s c c') : c'.Convergent s := by
  obtain ⟨hf, hm⟩ := hc.moves hstep
  intro n' hn'
  obtain ⟨i, hi⟩ := Array.getElem?_of_mem hn'
  obtain ⟨n, hn, hturn⟩ := hc.turn hm hi
  obtain ⟨k, σ, st, hk, hst, hfollows⟩ := h n (Array.mem_of_getElem? hn)
  obtain ⟨hk', st', hst', hturn⟩ := hturn hk hst
  obtain ⟨st₁, hst₁, htopic, hreads⟩ := hc.streams hn hk.hears
  obtain rfl := Option.some.inj (hst.symm.trans hst₁)
  refine ⟨k, σ, st', hk', hst', ?_⟩
  cases hturn with
  | idle hshelf heq =>
    rw [heq]
    exact (hfollows.step hf hm hreads.next).congr hshelf
  | early hw hsub hway hstore heq =>
    rw [heq, hstore]
    exact (hfollows.step hf hm hreads.next).early hw hsub hway _
  | heard honward hstore =>
    rw [hstore]
    cases honward with
    | @message m hlog hcovers hnext =>
      rw [hnext]
      exact (hfollows.heard hlog _).step hf hm (List.getElem?_eq_some_iff.mp hlog).1
    | @passed m hlog hcovers hnext =>
      -- who passes over a message would not have accepted it
      have hnone : accepted s m = none := accepted_of_not_covers (htopic ▸ hcovers)
      have hheard := (hfollows.heard hlog 0).step hf hm (List.getElem?_eq_some_iff.mp hlog).1
      rw [Store.hear, hnone] at hheard
      rw [hnext]
      exact hheard
    | lagged hold =>
      obtain ⟨co, hco, hsub, hseen⟩ := seen?_of_consumes hk hst
      have hnext := hkeeps n (Array.mem_of_getElem? hn) co hco hsub st.next hseen
      omega
    | parked hnext =>
      rw [hnext]
      exact hfollows.step hf hm hreads.next

/-- **So does every node in a run**, if no consumer loses a message. -/
theorem Convergent.run (h : c.Convergent s) (hc : c.Steady s)
    (hrun : ReflTransGen (fun c c' => c.KeepsUp s ∧ Step s c c') c c') :
    c'.Steady s ∧ c'.Convergent s := by
  induction hrun with
  | refl => exact ⟨hc, h⟩
  | tail _ hstep ih => exact ⟨ih.1.step hstep.2, ih.2.step ih.1 hstep.1 hstep.2⟩

theorem Settled.not_pending (h : c.Settled s) (n : Notification) :
    ¬ Pending s t c c.medium.bus.log.length n := by
  rintro (⟨m, hmem, _⟩ | ⟨q, w, hw, hsub, hway, _⟩)
  · rw [List.drop_length] at hmem
    cases hmem
  · exact hway.2 (h.writers w (Array.mem_of_getElem? hw) hsub)

/-- **All nodes list what the replay of the bus lists**, once every write of `s` has published its
data and every node has heard it, if its consumers listened before the first write and have not lost
a message since. -/
theorem read_of_settled {c₀ c₁ c₂ : Cluster Network} (h₀ : c₀.Initial)
    (h₁ : ReflTransGen (Step s) c₀ c₁) (htuned : c₁.Tuned s) (hsilent : c₁.Silent s)
    (h₂ : ReflTransGen (fun c c' => c.KeepsUp s ∧ Step s c c') c₁ c₂) (hsettled : c₂.Settled s)
    {n : Node} (hn : n ∈ c₂.nodes) :
    n.read.2.map (·.find? s) = .ok ((replay s c₂.medium.bus.log).view.find? s) := by
  obtain ⟨hc₁, hblank⟩ := h₀.blank h₁
  obtain ⟨hc, hconv⟩ := (Convergent.start htuned hsilent (hblank hsilent)).run hc₁ h₂
  obtain ⟨i, hi⟩ := Array.getElem?_of_mem hn
  obtain ⟨k, σ, st, hk, hst, hfollows⟩ := hconv n hn
  obtain ⟨co, hco, hsub, hseen⟩ := seen?_of_consumes hk hst
  have hnext := Option.some.inj (hseen.symm.trans (hsettled.consumers n hn co hco hsub))
  have hview : n.store.store.view.find? s = (replay s c₂.medium.bus.log).view.find? s := by
    refine Store.find?_view_congr fun t => ?_
    have hagrees := hfollows t
    rw [hnext, List.take_length] at hagrees
    rw [Store.notification?_eq_shelf, Store.notification?_eq_shelf]
    exact hagrees.notification?_eq hsettled.not_pending t
  have hfault : n.readFault = none := (hc.cores hi).readFault
  simp only [Node.read, hfault, Watched.read, Store.read_of_lifetime_none (hc.lifetimes hi)]
  exact congrArg Except.ok hview

/-! ## Two nodes that write at once -/

/-- The moves of tasks one after another, as long as no message is too old to be fetched. -/
def acts (c : Cluster Network) : List Task → Option (Cluster Network)
  | [] => some c
  | t :: ts => if c.medium.bus.feed.oldest = 0 then (c.act t).bind fun c' => c'.acts ts else none

theorem keepsUp_of_oldest (h : c.medium.bus.feed.oldest = 0) : c.KeepsUp s :=
  fun _ _ _ _ _ next _ => h ▸ Nat.zero_le next

theorem acts_run {ts : List Task} (h : c.acts ts = some c') :
    ReflTransGen (fun c c' => c.KeepsUp s ∧ Step s c c') c c' := by
  induction ts generalizing c with
  | nil =>
    obtain rfl := Option.some.inj h
    exact .refl
  | cons t ts ih =>
    rw [acts] at h
    split at h
    · rename_i hold
      obtain ⟨d, hact, hacts⟩ := Option.bind_eq_some_iff.mp h
      exact .head ⟨keepsUp_of_oldest hold, .act hact⟩ (ih hacts)
    · cases h

theorem acts_steps {ts : List Task} (h : c.acts ts = some c') : ReflTransGen (Step s) c c' :=
  ReflTransGen.mono (fun _ _ hstep => hstep.2) _ _ (acts_run h)

instance (s : String) (c : Cluster Network) : Decidable (c.Tuned s) :=
  inferInstanceAs (Decidable (∀ n ∈ c.nodes, ∃ co ∈ n.consumers,
    co.subscription = s ∧ (c.seen? co).isSome = true))

instance (s : String) (c : Cluster Network) : Decidable (c.Silent s) :=
  decidable_of_iff ((∀ w ∈ c.writers, w.subscription ≠ s) ∧
    ∀ m ∈ c.medium.bus.log, accepted s m = none) ⟨fun h => ⟨h.1, h.2⟩, fun h => ⟨h.1, h.2⟩⟩

instance (s : String) (c : Cluster Network) : Decidable (c.Settled s) :=
  decidable_of_iff ((∀ w ∈ c.writers, w.subscription = s → w.stage = .done) ∧
    ∀ n ∈ c.nodes, ∀ co ∈ n.consumers, co.subscription = s →
      c.seen? co = some c.medium.bus.log.length) ⟨fun h => ⟨h.1, h.2⟩, fun h => ⟨h.1, h.2⟩⟩

def duo : Cluster Network where
  medium := { bus := { sockets := #[false, false] }, lines := #[{ socket := 0 }, { socket := 1 }] }
  nodes := #[(Node.create {} (some 0) 0).1, (Node.create {} (some 1) 0).1]

theorem initial_duo : duo.Initial where
  nodes n hn := by
    rcases List.mem_pair.mp (Array.mem_def.mp hn) with rfl | rfl
    · exact ⟨{}, 0, 0, rfl, rfl, rfl, rfl, rfl⟩
    · exact ⟨{}, 1, 0, rfl, rfl, rfl, rfl, rfl⟩
  writers := rfl
  stoppers := rfl
  revoked := rfl

def duoListens : Option (Cluster Network) := duo.acts [.discovery 0, .discovery 1]

/-- The name `a` was announced, and both nodes consume it. -/
def duoTuned : Option (Cluster Network) :=
  duoListens.bind fun c => acts { c with medium := c.medium.put ⟨controlChannel, "a".toUTF8⟩ }
    [.discovery 0, .discovery 0, .dispatch 0, .consumer 0 0,
      .discovery 1, .discovery 1, .dispatch 1, .consumer 1 0]

/-- Both nodes are called to write at one place. -/
def called (c : Cluster Network) : Cluster Network :=
  { c with writers := (c.writers.push Node.dottedWrite).push { Node.dottedWrite with
      node := 1
      envelope := .update
        { base := some (.ofTarget "b.c"), updates := [{ path := {}, duplicates := 1 }] } } }

/-- The first node writes first and publishes last, and then both hear of it. -/
def duoSettled : Option (Cluster Network) :=
  duoTuned.bind fun c => (called c).acts (.writer 0 :: List.replicate 8 (.writer 1) ++
    List.replicate 7 (.writer 0) ++ List.replicate 4 (.consumer 0 0) ++
    List.replicate 4 (.consumer 1 0))

/-- In this run both nodes list what is listed after the writes in the order of the bus, in which
that of the first node comes last. -/
theorem read_duo : ∃ c₁ c₂ : Cluster Network, ReflTransGen (Step "a") duo c₁ ∧ c₁.Tuned "a" ∧
    c₁.Silent "a" ∧ ReflTransGen (fun c c' => c.KeepsUp "a" ∧ Step "a" c c') c₁ c₂ ∧
    c₂.Settled "a" ∧ c₂.nodes.size = 2 ∧ ∀ n ∈ c₂.nodes,
      n.read.2.map (·.find? "a") = .ok ((replay "a" c₂.medium.bus.log).view.find? "a") := by
  have htuned : duoTuned.all (fun c => c.Tuned "a" ∧ c.Silent "a" ∧
      c.medium.bus.feed.oldest = 0) = true := by decide +kernel
  have hsettled : duoSettled.any (fun c => c.Settled "a" ∧ c.nodes.size = 2) = true := by
    decide +kernel
  obtain ⟨c₂, h₂, hset⟩ := (Option.any_eq_true _ _).mp hsettled
  obtain ⟨hset, hsize⟩ := of_decide_eq_true hset
  obtain ⟨c₁, h₁, hrun₂⟩ := Option.bind_eq_some_iff.mp h₂
  rw [h₁, Option.all_some] at htuned
  obtain ⟨htuned, hsilent, hold⟩ := of_decide_eq_true htuned
  obtain ⟨c, hc, hrun₁⟩ := Option.bind_eq_some_iff.mp h₁
  have hrun₁ : ReflTransGen (Step "a") duo c₁ :=
    ((acts_steps hc).tail (.outside _)).trans (acts_steps hrun₁)
  have hrun₂ : ReflTransGen (fun c c' => c.KeepsUp "a" ∧ Step "a" c c') c₁ c₂ :=
    .head ⟨keepsUp_of_oldest hold, .call Node.dottedWrite rfl fun _ => rfl⟩
      (.head ⟨keepsUp_of_oldest hold, .call _ rfl fun _ => rfl⟩ (acts_run hrun₂))
  exact ⟨c₁, c₂, hrun₁, htuned, hsilent, hrun₂, hset, hsize,
    fun n hn => read_of_settled initial_duo hrun₁ htuned hsilent hrun₂ hset hn⟩

end Cluster

end Telemetry
