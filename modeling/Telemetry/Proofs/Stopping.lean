import Telemetry.Proofs.Deeds

/-!
# Stopped nodes

A node that is stopped is at rest: its loops have ended, and so have its consumers, for which
dispatch waits. Then only its owner and its own writes change its store. Whoever stops it first
waits for the loops before declaring it stopped. Someone else who stops it meanwhile has nothing to
wait for, and declares it stopped while the loops still run.

* `Node.AtRest`, `Node.Joined`: all loops have ended; the consumers have, if dispatch has;
* `Deed.Touches`, **`Deed.does_touches`**: what a deed does to a node, apart from what its loops do
  with each other;
* `Stopper.Outcome`, `Deed.does_stoppers`: what a move of a stop does, and who moves stops;
* `Deed.Overtakes`: a stop finds the handles taken by one that still waits;
* `Cluster.Halting`, **`Cluster.Halting.does`**: how far the stops of a node have come;
* `Run.stopped_mono`, **`Run.atRest_of_stopped`**: a node that is stopped stays so, at rest;
* `Run.atRest_patient`, `Run.not_atRest_hasty`: two stops at once; one that overtakes the other.
-/

namespace Telemetry

/-! ## Nodes at rest -/

namespace Node

/-- The loops have ended, and so have all consumers. -/
structure AtRest (n : Node) : Prop where
  discovery : n.discovery = .ended
  epoch : n.nextEpoch = none
  dispatch : n.dispatch = .ended
  consumers : ∀ co ∈ n.consumers, co.listener = .ended

/-- Dispatch does not end before the consumers. -/
def Joined (n : Node) : Prop := n.dispatch = .ended → ∀ co ∈ n.consumers, co.listener = .ended

theorem Joined.atRest {n : Node} (h : n.Joined) (hended : n.loopsEnded = true) : n.AtRest := by
  simp only [loopsEnded, Bool.and_eq_true, beq_iff_eq, Option.isNone_iff_eq_none] at hended
  obtain ⟨⟨hdiscovery, hepoch⟩, hdispatch⟩ := hended
  exact ⟨hdiscovery, hepoch, hdispatch, h hdispatch⟩

theorem dispatchNext_joined {n n' : Node} {signals : List Signal}
    (h : n.dispatchNext = some (n', signals)) : n.dispatch ≠ .ended ∧
      ∃ dispatch requests started consumers,
        n' = { n with dispatch, requests, started, consumers } ∧ n'.Joined := by
  unfold dispatchNext at h
  split at h
  · cases h
  · rename_i hdispatch
    refine ⟨by simp [hdispatch], ?_⟩
    split at h
    · rename_i hall
      obtain ⟨rfl, -⟩ := Prod.mk.inj (Option.some.inj h)
      exact ⟨_, _, _, _, rfl, fun _ co hco => eq_of_beq (List.all_eq_true.mp hall co hco)⟩
    · cases h
  · rename_i hdispatch
    refine ⟨by simp [hdispatch], ?_⟩
    split at h
    · obtain ⟨rfl, -⟩ := Prod.mk.inj (Option.some.inj h)
      exact ⟨_, _, _, _, rfl, fun hended => by cases hended⟩
    · split at h
      · cases h
      · have hstart := Option.some.inj h
        unfold start at hstart
        split at hstart
        · obtain ⟨rfl, -⟩ := Prod.mk.inj hstart
          exact ⟨_, _, _, _, rfl, fun hended => by cases hdispatch.symm.trans hended⟩
        · obtain ⟨rfl, -⟩ := Prod.mk.inj hstart
          exact ⟨_, _, _, _, rfl, fun hended => by cases hdispatch.symm.trans hended⟩

end Node

/-! ## Moves of stops -/

namespace Stopper

/-- What a move of a stop can do, with the stage at which it does it. -/
inductive Outcome {μ : Type} (m : μ) (n : Node) (s : Stopper) : Halted μ → Prop where
  | leave : s.stage = .checking → n.state = .stopped → Outcome m n s ⟨m, n, .done, []⟩
  | enter : s.stage = .checking → Outcome m n s ⟨m, n, .cancelling, []⟩
  | cancel : s.stage = .cancelling →
      Outcome m n s ⟨m, { n with cancelled := true }, .taking, []⟩
  | take : s.stage = .taking →
      Outcome m n s ⟨m, { n with handlesTaken := true }, .joining !n.handlesTaken, []⟩
  /-- Nobody is waited for without the handles. -/
  | join {handles : Bool} : s.stage = .joining handles →
      (handles = true → n.loopsEnded = true) → Outcome m n s ⟨m, n, .closing, []⟩
  | close {m' : μ} : s.stage = .closing → Outcome m n s ⟨m', n, .declaring, []⟩
  | declare {l : List Signal} : s.stage = .declaring →
      Outcome m n s ⟨m, { n with state := .stopped }, .done, l⟩

theorem act_outcome {μ : Type} [Medium μ] {m : μ} {n : Node} {s : Stopper} {r : Halted μ}
    (h : s.act m n = some r) : s.Outcome m n r := by
  unfold act at h
  cases hstage : s.stage with
  | checking =>
    rw [hstage] at h
    obtain rfl := Option.some.inj h
    by_cases hstopped : n.state = .stopped
    · rw [if_pos hstopped]
      exact .leave hstage hstopped
    · rw [if_neg hstopped]
      exact .enter hstage
  | cancelling =>
    rw [hstage] at h
    obtain rfl := Option.some.inj h
    exact .cancel hstage
  | taking =>
    rw [hstage] at h
    obtain rfl := Option.some.inj h
    exact .take hstage
  | joining handles =>
    rw [hstage] at h
    dsimp only at h
    split at h
    · cases h
    · rename_i hwait
      obtain rfl := Option.some.inj h
      exact .join hstage fun hhandles => by simpa [hhandles] using hwait
  | closing =>
    rw [hstage] at h
    dsimp only at h
    split at h
    · obtain rfl := Option.some.inj h
      exact .close hstage
    · obtain rfl := Option.some.inj h
      exact .close hstage
  | declaring =>
    rw [hstage] at h
    obtain rfl := Option.some.inj h
    exact .declare hstage
  | done =>
    rw [hstage] at h
    cases h

/-- The stop waits for the loops, or it did so. -/
def HasTaken (s : Stopper) : Prop :=
  (∃ handles, s.stage = .joining handles) ∨ s.stage = .closing ∨ s.stage = .declaring

/-- The stop has nothing more to wait for. -/
def HasWaited (s : Stopper) : Prop :=
  s.stage = .joining false ∨ s.stage = .closing ∨ s.stage = .declaring

namespace Outcome

variable {μ : Type} {m : μ} {n : Node} {s : Stopper} {r : Halted μ} {finished : Option ℕ}

/-- The node is at rest once the stop has nothing more to wait for, if it was so when the stop
found the handles taken. -/
theorem atRest (h : s.Outcome m n r) (hjoined : n.Joined) (hwaited : s.HasWaited → n.AtRest)
    (htaken : s.stage = .taking → n.handlesTaken = true → n.AtRest)
    (hnow : ({ s with stage := r.stage, finished } : Stopper).HasWaited) : n.AtRest := by
  cases h with
  | take hstage => exact htaken hstage (by simpa [HasWaited] using hnow)
  | @join handles hstage hended =>
    cases handles with
    | true => exact hjoined.atRest (hended rfl)
    | false => exact hwaited (.inl hstage)
  | close hstage => exact hwaited (.inr (.inl hstage))
  | leave | enter | cancel | declare => simp [HasWaited] at hnow

theorem state_of_done (h : s.Outcome m n r) (hdone : r.stage = .done) :
    r.node.state = .stopped := by
  cases h with
  | leave _ hstopped => exact hstopped
  | declare => rfl
  | enter | cancel | take | join | close => cases hdone

theorem taken_cases (h : s.Outcome m n r) (htaken : r.node.handlesTaken = true) :
    r.node.state = .stopped ∨ ({ s with stage := r.stage, finished } : Stopper).HasTaken ∨
      n.handlesTaken = true ∧ ¬ s.HasTaken := by
  cases h with
  | leave hstage | enter hstage | cancel hstage =>
    exact .inr (.inr ⟨htaken, by simp [HasTaken, hstage]⟩)
  | take => exact .inr (.inl (.inl ⟨_, rfl⟩))
  | join => exact .inr (.inl (.inr (.inl rfl)))
  | close => exact .inr (.inl (.inr (.inr rfl)))
  | declare => exact .inl rfl

end Outcome

end Stopper

/-! ## What a deed does to a node -/

namespace Deed

variable {c c' : Cluster Network} {d : Deed} {i j q : ℕ} {n n' : Node}

/-- What a deed may do to the node with the number `i`. Of its loops only those move that have not
ended, and only a stop of its own concerns its state and its handles. -/
inductive Touches (c : Cluster Network) (d : Deed) (i : ℕ) (n : Node) : Node → Prop where
  | spare {held cancelled : Bool} {announced : Roster} {requests : List String}
      {heard : Option String} :
      Touches c d i n { n with held, cancelled, announced, requests, heard }
  | tend {f : Watched → Watched} : d = .tend i f → Touches c d i n { n with store := f n.store }
  | write {q : ℕ} {w : Writer} : d = .act (.writer q) → c.writers[q]? = some w → w.node = i →
      w.stage = .storing → Touches c d i n (n.keep w.subscription w.envelope)
  | discover {l : Listener} {heard : Option String} : n.discovery ≠ .ended →
      Touches c d i n { n with discovery := l, heard }
  | turn {announced : Roster} {time : Option ℕ} : n.nextEpoch ≠ none →
      Touches c d i n { n with announced, nextEpoch := time }
  | dispatch {stage : Dispatch} {requests : List String} {started : Roster}
      {consumers : List Consumer} : n.dispatch ≠ .ended →
      ({ n with dispatch := stage, requests, started, consumers } : Node).Joined →
      Touches c d i n { n with dispatch := stage, requests, started, consumers }
  | consume {k : ℕ} {co : Consumer} {l : Listener} {store : Watched} :
      d = .act (.consumer i k) → n.consumers[k]? = some co → co.listener ≠ .ended →
      Touches c d i n { n with consumers := n.consumers.set k { co with listener := l }, store }
  | halt {q : ℕ} {s : Stopper} {r : Halted Network} : d = .act (.stopper q) →
      c.stoppers[q]? = some s → s.node = i → s.Outcome c.medium n r → Touches c d i n r.node

theorem Touches.refl (c : Cluster Network) (d : Deed) (i : ℕ) (n : Node) : d.Touches c i n n :=
  .spare

theorem Touches.of_outcome {w : Writer} {r : Written Network} (hw : c.writers[q]? = some w)
    (h : w.Outcome c.medium n r) : Touches c (.act (.writer q)) w.node n r.node := by
  cases h with
  | store hstage => exact .write rfl hw rfl hstage
  | enter | request => exact .spare
  | quit | check | known | unknown | overtaken | pause | announce | unannounced | untargeted
  | targeted | unrequested | linger | publish | unpublished => exact .refl ..

theorem touches_of_set {m : Node} (m' : Node) (hm : c.nodes[j]? = some m)
    (hnodes : c'.nodes = c.nodes.setIfInBounds j m') (htouches : d.Touches c j m m')
    (hn : c.nodes[i]? = some n) : ∃ n', c'.nodes[i]? = some n' ∧ d.Touches c i n n' := by
  rw [hnodes]
  by_cases hij : j = i
  · subst hij
    obtain rfl := Option.some.inj (hm.symm.trans hn)
    have hlt := (Array.getElem?_eq_some_iff.mp hm).1
    exact ⟨m', Array.getElem?_setIfInBounds_self_of_lt hlt, htouches⟩
  · exact ⟨n, (Array.getElem?_setIfInBounds_ne hij).trans hn, .refl c d i n⟩

theorem touches_of_modify {f : Node → Node} (hnodes : c'.nodes = c.nodes.modify j f)
    (htouches : ∀ m, d.Touches c j m (f m)) (hn : c.nodes[i]? = some n) :
    ∃ n', c'.nodes[i]? = some n' ∧ d.Touches c i n n' := by
  rw [hnodes, Array.getElem?_modify]
  by_cases hij : j = i
  · subst hij
    exact ⟨f n, by rw [if_pos rfl, hn, Option.map_some], htouches n⟩
  · exact ⟨n, by rw [if_neg hij, hn], .refl c d i n⟩

theorem act_touches {t : Task} (hact : c.act t = some c') (hn : c.nodes[i]? = some n) :
    ∃ n', c'.nodes[i]? = some n' ∧ (Deed.act t).Touches c i n n' := by
  cases t with
  | writer q =>
    obtain ⟨w, m, r, m', hw, hm, hr, hm', rfl⟩ := Cluster.actWriter_cases hact
    refine touches_of_set _ hm rfl ?_ hn
    have hout := Writer.act_outcome hr
    rcases hm' with rfl | ⟨hdone, rfl⟩
    · exact .of_outcome hw hout
    · cases hout with
      | quit | untargeted | publish | unpublished => exact .spare
      | store | check | known | unknown | overtaken | enter | pause | announce | unannounced
      | targeted | request | unrequested | linger => cases hdone
  | stopper q =>
    obtain ⟨s, hs, m, hm, r, hr, rfl⟩ := Cluster.act_stopper_iff.mp hact
    exact touches_of_set _ hm rfl (.halt rfl hs rfl (Stopper.act_outcome hr)) hn
  | discovery j =>
    obtain ⟨m, hm, mv, hmv, rfl⟩ := Cluster.act_discovery_iff.mp hact
    refine touches_of_set _ hm rfl ?_ hn
    obtain ⟨link, hlink, ⟨-, name, -, ⟨-, hnode⟩ | ⟨-, hnode⟩⟩ | ⟨-, h, hh, -, hnode⟩⟩ :=
      Node.discover_cases hmv
    · rw [hnode]
      exact .spare
    · rw [hnode]
      exact .spare
    · rw [hnode]
      refine .discover fun hended => ?_
      rw [hended] at hh
      cases hh
  | consumer j k =>
    obtain ⟨m, hm, mv, hmv, rfl⟩ := Cluster.act_consumer_iff.mp hact
    refine touches_of_set _ hm rfl ?_ hn
    obtain ⟨link, co, h, -, hco, hh, -, store, hnode⟩ := Node.consume_cases hmv
    rw [hnode]
    refine .consume rfl hco fun hended => ?_
    rw [hended] at hh
    cases hh
  | epoch j =>
    obtain ⟨m, hm, m', signals, hturn, rfl⟩ := Cluster.act_epoch_iff.mp hact
    refine touches_of_set m' hm rfl ?_ hn
    have hrunning : m.nextEpoch ≠ none := fun hnone => by
      rw [Node.turn, hnone] at hturn
      cases hturn
    rcases Node.turn_cases hturn with ⟨-, rfl⟩ | ⟨-, time, rfl⟩
    · exact .turn hrunning
    · exact .turn hrunning
  | dispatch j =>
    obtain ⟨m, hm, m', signals, hdispatch, rfl⟩ := Cluster.act_dispatch_iff.mp hact
    refine touches_of_set m' hm rfl ?_ hn
    obtain ⟨hrunning, stage, requests, started, consumers, rfl, hjoined⟩ :=
      Node.dispatchNext_joined hdispatch
    exact .dispatch hrunning hjoined

/-- **What a deed does to a node.** -/
theorem does_touches (h : d.does c = some c') (hn : c.nodes[i]? = some n) :
    ∃ n', c'.nodes[i]? = some n' ∧ d.Touches c i n n' := by
  cases d with
  | act t => exact act_touches h hn
  | connect | call | stop | revoke | disturb | outside | clock =>
    obtain rfl := Option.some.inj h
    exact ⟨n, hn, .refl ..⟩
  | join settings link readFault =>
    obtain rfl := Option.some.inj h
    have hlt := (Array.getElem?_eq_some_iff.mp hn).1
    refine ⟨n, ?_, .refl ..⟩
    show (c.nodes.push _)[i]? = some n
    rw [Array.getElem?_push, if_neg (by omega), hn]
  | forget j =>
    obtain rfl := Option.some.inj h
    have hlet : ∀ m : Node, (Deed.forget j).Touches c j m { m with held := false } :=
      fun _ => .spare
    rcases Cluster.release_cases
      { c with nodes := c.nodes.modify j fun n => { n with held := false } } j with
      heq | ⟨m, hm, heq⟩
    · exact touches_of_modify (f := fun n => { n with held := false }) (congrArg Cluster.nodes heq)
        hlet hn
    · have hm : (c.nodes.modify j fun n => { n with held := false })[j]? = some m := hm
      rw [Array.getElem?_modify, if_pos rfl] at hm
      obtain ⟨n₁, hn₁, rfl⟩ := Option.map_eq_some_iff.mp hm
      refine touches_of_set { n₁ with held := false, cancelled := true } hn₁
        ((congrArg Cluster.nodes heq).trans (Array.ext_getElem? fun k => ?_)) .spare hn
      rw [Array.getElem?_setIfInBounds, Array.getElem?_setIfInBounds, Array.size_modify]
      by_cases hjk : j = k
      · rw [if_pos hjk, if_pos hjk]
      · rw [if_neg hjk, if_neg hjk, Array.getElem?_modify, if_neg hjk]
  | tend j f =>
    obtain rfl := Option.some.inj h
    exact touches_of_modify (f := fun m => { m with store := f m.store }) rfl
      (fun _ => .tend rfl) hn

theorem does_new_node (h : d.does c = some c') (hn : c.nodes[i]? = none)
    (hn' : c'.nodes[i]? = some n') :
    n'.Joined ∧ n'.state ≠ .stopped ∧ n'.handlesTaken = false := by
  rcases node_cases h hn' with ⟨n, hn₁, -⟩ | ⟨-, settings, link, now, readFault, rfl⟩
  · cases hn.symm.trans hn₁
  · cases link with
    | none => exact ⟨fun _ _ => nofun, nofun, rfl⟩
    | some link => exact ⟨fun _ _ => nofun, nofun, rfl⟩

/-! ## What stays -/

theorem Touches.joined (h : d.Touches c i n n') (hn : n.Joined) : n'.Joined := by
  cases h with
  | spare | tend | write | discover | turn => exact hn
  | dispatch _ hjoined => exact hjoined
  | consume _ hco hrunning =>
    exact fun hended => absurd (hn hended _ (List.mem_of_getElem? hco)) hrunning
  | halt _ _ _ hout => cases hout <;> exact hn

/-- **A node at rest stays at rest.** -/
theorem Touches.atRest (h : d.Touches c i n n') (hn : n.AtRest) : n'.AtRest := by
  cases h with
  | spare | tend | write => exact ⟨hn.discovery, hn.epoch, hn.dispatch, hn.consumers⟩
  | discover hrunning => exact absurd hn.discovery hrunning
  | turn hrunning => exact absurd hn.epoch hrunning
  | dispatch hrunning => exact absurd hn.dispatch hrunning
  | consume _ hco hrunning => exact absurd (hn.consumers _ (List.mem_of_getElem? hco)) hrunning
  | halt _ _ _ hout =>
    cases hout <;> exact ⟨hn.discovery, hn.epoch, hn.dispatch, hn.consumers⟩

/-- The deed is one of the owner of the node or of a write of its own. -/
def IsLocal (c : Cluster Network) (i : ℕ) (d : Deed) : Prop :=
  (∃ f, d = .tend i f) ∨
    ∃ q w, d = .act (.writer q) ∧ c.writers[q]? = some w ∧ w.node = i ∧ w.stage = .storing

theorem Touches.store_cases (h : d.Touches c i n n') : n'.store = n.store ∨ d.IsLocal c i ∨
    ∃ k co, d = .act (.consumer i k) ∧ n.consumers[k]? = some co ∧ co.listener ≠ .ended := by
  cases h with
  | spare | discover | turn | dispatch => exact .inl rfl
  | tend hd => exact .inr (.inl (.inl ⟨_, hd⟩))
  | write hd hw hnode hstage => exact .inr (.inl (.inr ⟨_, _, hd, hw, hnode, hstage⟩))
  | consume hd hco hrunning => exact .inr (.inr ⟨_, _, hd, hco, hrunning⟩)
  | halt _ _ _ hout => cases hout <;> exact .inl rfl

theorem Touches.store_eq (h : d.Touches c i n n') (hn : n.AtRest) :
    n'.store = n.store ∨ d.IsLocal c i := by
  rcases h.store_cases with hstore | hlocal | ⟨k, co, -, hco, hrunning⟩
  · exact .inl hstore
  · exact .inr hlocal
  · exact absurd (hn.consumers _ (List.mem_of_getElem? hco)) hrunning

theorem Touches.stopped (h : d.Touches c i n n') (hn : n.state = .stopped) :
    n'.state = .stopped := by
  cases h with
  | spare | tend | write | discover | turn | dispatch | consume => exact hn
  | halt _ _ _ hout =>
    cases hout with
    | leave | enter | cancel | take | join | close => exact hn
    | declare => rfl

theorem Touches.state_eq (h : d.Touches c i n n')
    (hd : ∀ q s, d = .act (.stopper q) → c.stoppers[q]? = some s → s.node ≠ i) :
    n'.state = n.state ∧ n'.handlesTaken = n.handlesTaken := by
  cases h with
  | spare | tend | write | discover | turn | dispatch | consume => exact ⟨rfl, rfl⟩
  | halt hstop hs hnode => exact absurd hnode (hd _ _ hstop hs)

/-! ## Stops -/

/-- **Who moves stops**: they move themselves, and a new one has not begun. -/
theorem does_stoppers (h : d.does c = some c') :
    c'.stoppers = c.stoppers ∧ (∀ q, d ≠ .act (.stopper q)) ∨
    (∃ s, s.stage = .checking ∧ c'.stoppers = c.stoppers.push s ∧ ∀ q, d ≠ .act (.stopper q)) ∨
    ∃ q s n r finished, d = .act (.stopper q) ∧ c.stoppers[q]? = some s ∧
      c.nodes[s.node]? = some n ∧ s.Outcome c.medium n r ∧
      c'.nodes = c.nodes.setIfInBounds s.node r.node ∧
      c'.stoppers = c.stoppers.setIfInBounds q { s with stage := r.stage, finished } := by
  cases d with
  | act t =>
    cases t with
    | stopper q =>
      have hact : c.act (.stopper q) = some c' := h
      obtain ⟨s, hs, n, hn, r, hr, rfl⟩ := Cluster.act_stopper_iff.mp hact
      exact .inr (.inr ⟨q, s, n, r, _, rfl, hs, hn, Stopper.act_outcome hr, rfl, rfl⟩)
    | writer q =>
      obtain ⟨w, m, r, m', -, -, -, -, rfl⟩ := Cluster.actWriter_cases h
      exact .inl ⟨rfl, by simp⟩
    | discovery j | epoch j | dispatch j | consumer j k =>
      have hact := h
      simp only [does, Cluster.act, Option.bind_eq_bind, Option.bind_eq_some_iff, Option.pure_def,
        Option.some.injEq] at hact
      obtain ⟨m, -, mv, -, rfl⟩ := hact
      exact .inl ⟨rfl, by simp⟩
  | stop node =>
    obtain rfl := Option.some.inj h
    exact .inr (.inl ⟨_, rfl, rfl, by simp⟩)
  | forget j =>
    obtain rfl := Option.some.inj h
    refine .inl ⟨?_, by simp⟩
    rcases Cluster.release_cases
      { c with nodes := c.nodes.modify j fun n => { n with held := false } } j with
      heq | ⟨m, -, heq⟩
    · have hstoppers := congrArg Cluster.stoppers heq
      exact hstoppers
    · have hstoppers := congrArg Cluster.stoppers heq
      exact hstoppers
  | connect | join | call | revoke | disturb | outside | clock | tend =>
    obtain rfl := Option.some.inj h
    exact .inl ⟨rfl, by simp⟩

/-- The stop that the deed moves. -/
def stopper? (c : Cluster Network) : Deed → Option Stopper
  | act (.stopper q) => c.stoppers[q]?
  | _ => none

/-- A stop of the node `i` finds the handles taken by another, which still waits for the loops. -/
def Overtakes (c : Cluster Network) (i : ℕ) (d : Deed) : Prop :=
  ∃ s ∈ d.stopper? c, s.node = i ∧ s.stage = .taking ∧
    ∃ t ∈ c.stoppers, t.node = i ∧ t.stage = .joining true

instance (c : Cluster Network) (i : ℕ) (d : Deed) : Decidable (d.Overtakes c i) :=
  inferInstanceAs (Decidable (∃ s ∈ d.stopper? c, _))

end Deed

/-! ## Stops that overtake no other -/

namespace Cluster

variable {c c' : Cluster Network} {d : Deed} {i q : ℕ}

/-- How far the stops of the node `i` have come, and the node with them. -/
structure Halting (c : Cluster Network) (i : ℕ) : Prop where
  absent : c.nodes[i]? = none →
    ∀ (q : ℕ) (s : Stopper), c.stoppers[q]? = some s → s.node = i → s.stage = .checking
  joined : ∀ n ∈ c.nodes[i]?, n.Joined
  rest : ∀ n ∈ c.nodes[i]?, n.state = .stopped → n.AtRest
  waited : ∀ n ∈ c.nodes[i]?,
    ∀ (q : ℕ) (s : Stopper), c.stoppers[q]? = some s → s.node = i → s.HasWaited → n.AtRest
  done : ∀ n ∈ c.nodes[i]?,
    ∀ (q : ℕ) (s : Stopper), c.stoppers[q]? = some s → s.node = i → s.stage = .done →
      n.state = .stopped
  /-- Whoever took the handles has declared the node stopped, or is about to. -/
  taken : ∀ n ∈ c.nodes[i]?, n.handlesTaken = true →
    n.state = .stopped ∨ ∃ (q : ℕ) (s : Stopper), c.stoppers[q]? = some s ∧ s.node = i ∧ s.HasTaken

theorem halting_empty (i : ℕ) : ({ medium := {} } : Cluster Network).Halting i := by
  have hnode : ∀ n, n ∉ ({ medium := {} } : Cluster Network).nodes[i]? := by simp
  exact ⟨fun _ q s hs => by simp at hs, fun n hn => absurd hn (hnode n),
    fun n hn => absurd hn (hnode n), fun n hn => absurd hn (hnode n),
    fun n hn => absurd hn (hnode n), fun n hn => absurd hn (hnode n)⟩

theorem Halting.quiet (h : c.Halting i) (hdoes : d.does c = some c')
    (hd : ∀ (q : ℕ) (s : Stopper), d = .act (.stopper q) → c.stoppers[q]? = some s → s.node ≠ i)
    (hkept : ∀ (q : ℕ) (s : Stopper), c.stoppers[q]? = some s → s.node = i →
      c'.stoppers[q]? = some s)
    (hback : ∀ (q : ℕ) (s : Stopper), c'.stoppers[q]? = some s → s.node = i →
      c.stoppers[q]? = some s ∨ s.stage = .checking) : c'.Halting i := by
  cases hn : c.nodes[i]? with
  | none =>
    have hchecking : ∀ (q : ℕ) (s : Stopper), c'.stoppers[q]? = some s → s.node = i →
        s.stage = .checking :=
      fun q s hs hsi => (hback q s hs hsi).elim (fun hs => h.absent hn q s hs hsi) id
    refine ⟨fun _ => hchecking, fun n' hn' => (Deed.does_new_node hdoes hn hn').1,
      fun n' hn' hstopped => absurd hstopped (Deed.does_new_node hdoes hn hn').2.1,
      fun n' hn' q s hs hsi hwaited => ?_, fun n' hn' q s hs hsi hdone => ?_,
      fun n' hn' htaken => ?_⟩
    · simp [Stopper.HasWaited, hchecking q s hs hsi] at hwaited
    · cases hdone.symm.trans (hchecking q s hs hsi)
    · cases htaken.symm.trans (Deed.does_new_node hdoes hn hn').2.2
  | some n =>
    obtain ⟨n', hn', htouches⟩ := Deed.does_touches hdoes hn
    obtain ⟨hstate, hhandles⟩ := htouches.state_eq hd
    refine ⟨fun hnone => ?_, ?_, ?_, ?_, ?_, ?_⟩
    · cases hn'.symm.trans hnone
    all_goals
      intro m hm
      obtain rfl : n' = m := Option.some.inj (hn'.symm.trans hm)
    · exact htouches.joined (h.joined n hn)
    · exact fun hstopped => htouches.atRest (h.rest n hn (hstate ▸ hstopped))
    · intro q s hs hsi hwaited
      rcases hback q s hs hsi with hs | hstage
      · exact htouches.atRest (h.waited n hn q s hs hsi hwaited)
      · simp [Stopper.HasWaited, hstage] at hwaited
    · intro q s hs hsi hdone
      rcases hback q s hs hsi with hs | hstage
      · exact hstate.trans (h.done n hn q s hs hsi hdone)
      · cases hdone.symm.trans hstage
    · intro htaken
      rw [hstate]
      refine (h.taken n hn (hhandles ▸ htaken)).imp_right fun ⟨q, s, hs, hsi, hhas⟩ => ?_
      exact ⟨q, s, hkept q s hs hsi, hsi, hhas⟩

/-- **A stop of the node moves**, and overtakes no other. -/
theorem Halting.halt (h : c.Halting i) (hnot : ¬ (Deed.act (.stopper q)).Overtakes c i)
    {s : Stopper} {n : Node} {r : Halted Network} {finished : Option ℕ}
    (hs : c.stoppers[q]? = some s) (hsi : s.node = i) (hn : c.nodes[i]? = some n)
    (hout : s.Outcome c.medium n r)
    (hnodes : c'.nodes = c.nodes.setIfInBounds i r.node)
    (hstoppers : c'.stoppers = c.stoppers.setIfInBounds q { s with stage := r.stage, finished }) :
    c'.Halting i := by
  have hn' : c'.nodes[i]? = some r.node := by
    rw [hnodes, Array.getElem?_setIfInBounds_self_of_lt (Array.getElem?_eq_some_iff.mp hn).1]
  have hmoved : c'.stoppers[q]? = some { s with stage := r.stage, finished } := by
    rw [hstoppers, Array.getElem?_setIfInBounds_self_of_lt (Array.getElem?_eq_some_iff.mp hs).1]
  have hothers : ∀ p : ℕ, q ≠ p → c'.stoppers[p]? = c.stoppers[p]? := fun p hp => by
    rw [hstoppers, Array.getElem?_setIfInBounds_ne hp]
  have htouches : (Deed.act (.stopper q)).Touches c i n r.node := .halt rfl hs hsi hout
  have hwaited : s.HasWaited → n.AtRest := h.waited n hn q s hs hsi
  refine ⟨fun hnone => ?_, ?_, ?_, ?_, ?_, ?_⟩
  · cases hn'.symm.trans hnone
  all_goals
    intro m hm
    obtain rfl : r.node = m := Option.some.inj (hn'.symm.trans hm)
  · exact htouches.joined (h.joined n hn)
  · intro hstopped
    refine htouches.atRest ?_
    cases hout with
    | declare hstage => exact hwaited (.inr (.inr hstage))
    | leave | enter | cancel | take | join | close => exact h.rest n hn hstopped
  · intro p t ht hti hhas
    refine htouches.atRest ?_
    by_cases hp : q = p
    swap
    · exact h.waited n hn p t (hothers p hp ▸ ht) hti hhas
    -- a stop that finds the handles taken waits for nothing: the one that took them has waited
    subst hp
    obtain rfl := Option.some.inj (hmoved.symm.trans ht)
    refine hout.atRest (h.joined n hn) hwaited (fun hstage hhandles => ?_) hhas
    rcases h.taken n hn hhandles with hstopped | ⟨p, t, ht, hti, ⟨handles, ht'⟩ | hlate⟩
    · exact h.rest n hn hstopped
    · cases handles with
      | true => exact absurd ⟨s, hs, hsi, hstage, t, Array.mem_of_getElem? ht, hti, ht'⟩ hnot
      | false => exact h.waited n hn p t ht hti (.inl ht')
    · exact h.waited n hn p t ht hti (.inr hlate)
  · intro p t ht hti hdone
    by_cases hp : q = p
    swap
    · exact htouches.stopped (h.done n hn p t (hothers p hp ▸ ht) hti hdone)
    subst hp
    obtain rfl := Option.some.inj (hmoved.symm.trans ht)
    exact hout.state_of_done hdone
  · intro hhandles
    rcases hout.taken_cases hhandles with hstopped | hhas | ⟨htaken, hfresh⟩
    · exact .inl hstopped
    · exact .inr ⟨q, _, hmoved, hsi, hhas⟩
    · -- who has taken the handles is someone else
      refine (h.taken n hn htaken).imp htouches.stopped fun ⟨p, t, ht, hti, hhas⟩ => ?_
      have hp : q ≠ p := by
        rintro rfl
        exact hfresh (Option.some.inj (hs.symm.trans ht) ▸ hhas)
      exact ⟨p, t, (hothers p hp).trans ht, hti, hhas⟩

/-- **The invariant is kept** as long as no stop of the node overtakes another. -/
theorem Halting.does (h : c.Halting i) (hnot : ¬ d.Overtakes c i) (hdoes : d.does c = some c') :
    c'.Halting i := by
  rcases Deed.does_stoppers hdoes with
    ⟨hstoppers, hd⟩ | ⟨s, hstage, hstoppers, hd⟩ |
    ⟨q, s, n, r, finished, rfl, hs, hn, hout, hnodes, hstoppers⟩
  · exact h.quiet hdoes (fun q s hq => absurd hq (hd q)) (fun q s hs _ => by rw [hstoppers, hs])
      fun q s hs _ => .inl (hstoppers ▸ hs)
  · refine h.quiet hdoes (fun q s hq => absurd hq (hd q)) (fun q t ht _ => ?_) fun q t ht _ => ?_
    · have hlt := (Array.getElem?_eq_some_iff.mp ht).1
      rw [hstoppers, Array.getElem?_push, if_neg (by omega), ht]
    · rw [hstoppers, Array.getElem?_push] at ht
      split at ht
      · obtain rfl := Option.some.inj ht
        exact .inr hstage
      · exact .inl ht
  · by_cases hsi : s.node = i
    · rw [hsi] at hn hnodes
      exact h.halt hnot hs hsi hn hout hnodes hstoppers
    · refine h.quiet hdoes ?_ (fun p t ht hti => ?_) fun p t ht hti => ?_
      · rintro p t hp ht rfl
        cases hp
        exact hsi (congrArg Stopper.node (Option.some.inj (hs.symm.trans ht)))
      · have hp : q ≠ p := by
          rintro rfl
          exact hsi (Option.some.inj (hs.symm.trans ht) ▸ hti)
        rw [hstoppers, Array.getElem?_setIfInBounds_ne hp, ht]
      · have hp : q ≠ p := by
          rintro rfl
          have hlt := (Array.getElem?_eq_some_iff.mp hs).1
          rw [hstoppers, Array.getElem?_setIfInBounds_self_of_lt hlt] at ht
          obtain rfl := Option.some.inj ht
          exact hsi hti
        rw [hstoppers, Array.getElem?_setIfInBounds_ne hp] at ht
        exact .inl ht

end Cluster

/-! ## Over time -/

namespace Run

variable {r : Run} {i k : ℕ}

theorem halting (hnot : ∀ k, ¬ (r.deed k).Overtakes (r.state k) i) (k : ℕ) :
    (r.state k).Halting i := by
  induction k with
  | zero =>
    rw [r.start]
    exact Cluster.halting_empty i
  | succ k ih => exact ih.does (hnot k) (r.step k)

theorem stopped_mono {n : Node} (hn : (r.state k).nodes[i]? = some n)
    (hstopped : n.state = .stopped) {y : ℕ} (hky : k ≤ y) :
    ∃ m, (r.state y).nodes[i]? = some m ∧ m.state = .stopped := by
  induction y, hky using Nat.le_induction with
  | base => exact ⟨n, hn, hstopped⟩
  | succ y _ ih =>
    obtain ⟨m, hm, hmstopped⟩ := ih
    obtain ⟨m', hm', htouches⟩ := Deed.does_touches (r.step y) hm
    exact ⟨m', hm', htouches.stopped hmstopped⟩

/-- **A node that is stopped stays so**, at rest: once it is declared stopped, or a stop of it is
over, all its loops and consumers have ended, and its store changes by local calls only. -/
theorem atRest_of_stopped (hnot : ∀ k, ¬ (r.deed k).Overtakes (r.state k) i) {n : Node}
    (hn : (r.state k).nodes[i]? = some n)
    (hstopped : n.state = .stopped ∨ ∃ s ∈ (r.state k).stoppers, s.node = i ∧ s.stage = .done)
    {y : ℕ} (hky : k ≤ y) :
    ∃ m m', (r.state y).nodes[i]? = some m ∧ (r.state (y + 1)).nodes[i]? = some m' ∧
      m.state = .stopped ∧ m.AtRest ∧
      (m'.store = m.store ∨ (r.deed y).IsLocal (r.state y) i) := by
  have hstate : n.state = .stopped := hstopped.elim id fun ⟨s, hs, hsi, hdone⟩ => by
    obtain ⟨q, hq⟩ := Array.mem_iff_getElem?.mp hs
    exact (halting hnot k).done n hn q s hq hsi hdone
  obtain ⟨m, hm, hmstopped⟩ := stopped_mono hn hstate hky
  have hrest := (halting hnot y).rest m hm hmstopped
  obtain ⟨m', hm', htouches⟩ := Deed.does_touches (r.step y) hm
  exact ⟨m, m', hm, hm', hmstopped, hrest, htouches.store_eq hrest⟩

/-! ## Two stops -/

/-- A node runs, two stops of it begin, and the first waits for the loops. -/
def haltDeeds : List Deed :=
  [.connect false {}, .join {} (some 0) none, .act (.discovery 0), .stop 0, .stop 0] ++
    List.replicate 3 (.act (.stopper 0))

/-- The second stop takes the handles after the loops have ended. -/
def patient : Run := .play (haltDeeds ++
  [.act (.stopper 1), .act (.stopper 1), .act (.discovery 0), .act (.epoch 0), .act (.dispatch 0),
    .act (.dispatch 0), .act (.stopper 0)] ++ List.replicate 4 (.act (.stopper 1)))
  (by decide +kernel)

/-- The second stop does not wait for them. -/
def hasty : Run := .play (haltDeeds ++ List.replicate 6 (.act (.stopper 1))) (by decide +kernel)

/-- Two stops at once, and the node that one of them declares stopped stays so. -/
theorem atRest_patient : (∀ k, ¬ (patient.deed k).Overtakes (patient.state k) 0) ∧
    ∀ y, 19 ≤ y → ∃ m, (patient.state y).nodes[0]? = some m ∧ m.state = .stopped ∧ m.AtRest := by
  have hnot : ∀ k, ¬ (patient.deed k).Overtakes (patient.state k) 0 := by
    intro k
    rcases Nat.lt_or_ge k 19 with hk | hk
    · have hearly : ∀ k < 19, ¬ (patient.deed k).Overtakes (patient.state k) 0 := by decide +kernel
      exact hearly k hk
    · -- nothing is left to do
      have hd : patient.deed k = .tend 0 id := by
        show List.getD _ k (Deed.tend 0 id) = Deed.tend 0 id
        rw [List.getD_eq_getElem?_getD, List.getElem?_eq_none hk, Option.getD_none]
      rw [hd]
      rintro ⟨s, hs, -⟩
      cases hs
  have hstopped : ((patient.state 19).nodes[0]?.map (·.state)) = some .stopped := by decide +kernel
  obtain ⟨n, hn, hstate⟩ := Option.map_eq_some_iff.mp hstopped
  refine ⟨hnot, fun y hy => ?_⟩
  obtain ⟨m, -, hm, -, hmstopped, hrest, -⟩ := atRest_of_stopped hnot hn (.inl hstate) hy
  exact ⟨m, hm, hmstopped, hrest⟩

/-- A stop that overtakes another declares the node stopped while discovery listens. -/
theorem not_atRest_hasty : ∃ n, (hasty.state 14).nodes[0]? = some n ∧ n.state = .stopped ∧
    (∃ s ∈ (hasty.state 14).stoppers, s.node = 0 ∧ s.stage = .done) ∧
    n.discovery = .listening 0 ∧ ¬ n.AtRest := by
  have hstopped : ((hasty.state 14).nodes[0]?.map fun n => (n.state, n.discovery)) =
      some (.stopped, .listening 0) := by decide +kernel
  have hdone : ∃ s ∈ (hasty.state 14).stoppers, s.node = 0 ∧ s.stage = .done := by decide +kernel
  obtain ⟨n, hn, he⟩ := Option.map_eq_some_iff.mp hstopped
  obtain ⟨hstate, hdiscovery⟩ := Prod.mk.inj he
  refine ⟨n, hn, hstate, hdone, hdiscovery, fun hrest => ?_⟩
  cases hdiscovery.symm.trans hrest.discovery

end Run

end Telemetry
