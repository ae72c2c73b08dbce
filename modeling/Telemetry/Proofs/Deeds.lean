import Telemetry.Cluster.Session
import Telemetry.Proofs.Tasks

/-!
# What may happen to a cluster

A task moves, someone calls, or something comes from outside: nodes join and are stopped, tokens are
revoked, lines are disturbed, time passes. Whatever happens changes one node at most, in one of a
few ways, and puts one message on the bus at most.

* `Deed`, `Deed.does`: what may happen, and what comes of it;
* `Run`: a cluster over time, from the empty one on; `Run.play`: the run of a list of deeds;
* `Deed.Alters`, `Deed.Nodes`: what a deed may do to nodes; **`Deed.does_nodes`**: it does no more;
* `Deed.does_ear`: whoever listens did so before, or has moved;
* **`Deed.does_writer`**: what a deed does to a write; `Writer.Outcome.spoken`: what a write says;
* **`Deed.does_bus`**: what a deed does to the bus.
-/

namespace Telemetry

/-- What may happen to a cluster. -/
inductive Deed where
  | act (t : Task)
  | connect (mapped : Bool) (faults : Faults)
  | join (settings : Settings) (link : Option ℕ) (readFault : Option String)
  | call (node : ℕ) (token : Option String) (subscription : String) (e : Envelope)
  | stop (node : ℕ)
  | forget (node : ℕ)
  | revoke (token : String)
  | disturb (link : ℕ) (f : Faults → Faults)
  /-- Someone else publishes. -/
  | outside (m : Message)
  | clock (now : ℕ)
  /-- The store of a node is read, watched, or changed by its owner. -/
  | tend (node : ℕ) (f : Watched → Watched)

namespace Deed

/-- The task that a deed moves. -/
def task? : Deed → Option Task
  | act t => some t
  | _ => none

theorem task?_eq_some_iff {d : Deed} {t : Task} : d.task? = some t ↔ d = .act t := by
  cases d <;> simp [task?]

/-- What comes of a deed, if it can be done. Calls are those of a session. -/
def does (c : Cluster Network) : Deed → Option (Cluster Network)
  | act t => c.act t
  | connect mapped faults => some { c with medium := (c.medium.connect mapped faults).1 }
  | join settings link readFault =>
    some (({ cluster := c } : Session Network).addNode settings link readFault).1.cluster
  | call node token subscription e =>
    some (({ cluster := c } : Session Network).addWriter node token subscription e).1.cluster
  | stop node => some { c with stoppers := c.stoppers.push { node, began := c.now } }
  | forget node => some (({ cluster := c } : Session Network).forget node).cluster
  | revoke token => some (({ cluster := c } : Session Network).revoke token).cluster
  | disturb link f => some { c with medium := c.medium.setFaults link f }
  | outside m => some { c with medium := c.medium.put m }
  | clock now => some { c with now }
  | tend node f =>
    some (({ cluster := c } : Session Network).modify node fun n =>
      { n with store := f n.store }).cluster

end Deed

/-- A cluster over time: its states, and what is done at each. -/
structure Run where
  state : ℕ → Cluster Network
  deed : ℕ → Deed
  start : state 0 = { medium := {} }
  step : ∀ k, (deed k).does (state k) = some (state (k + 1))

theorem Run.always (r : Run) {P : Cluster Network → Prop} (h₀ : P { medium := {} })
    (hstep : ∀ {c c' : Cluster Network} {d : Deed}, P c → d.does c = some c' → P c') (k : ℕ) :
    P (r.state k) := by
  induction k with
  | zero =>
    rw [r.start]
    exact h₀
  | succ k ih => exact hstep ih (r.step k)

/-- The cluster after so many deeds of a list. -/
def Run.after (ds : List Deed) : ℕ → Cluster Network
  | 0 => { medium := {} }
  | k + 1 => ((ds.getD k (.tend 0 id)).does (after ds k)).getD (after ds k)

/-- The run of a list of deeds that can be done. Then nothing happens. -/
def Run.play (ds : List Deed)
    (h : ∀ k < ds.length, ((ds.getD k (.tend 0 id)).does (after ds k)).isSome = true) : Run where
  state := after ds
  deed k := ds.getD k (.tend 0 id)
  start := rfl
  step k := by
    have hsome : ((ds.getD k (.tend 0 id)).does (after ds k)).isSome = true := by
      rcases Nat.lt_or_ge k ds.length with hlt | hge
      · exact h k hlt
      · rw [List.getD_eq_getElem?_getD, List.getElem?_eq_none hge]
        rfl
    obtain ⟨c, hc⟩ := Option.isSome_iff_exists.mp hsome
    rw [after, hc]
    rfl

/-! ## Nodes -/

namespace Deed

/-- What a deed may do to the node with the number `i`. -/
inductive Alters (c : Cluster Network) (d : Deed) (i : ℕ) (n : Node) : Node → Prop where
  /-- Its loops go on as they are, unless it is cancelled. -/
  | keep {store : Watched} {state : SyncState} {handlesTaken held cancelled : Bool} :
      (n.cancelled = true → cancelled = true) →
      Alters c d i n { n with store, state, handlesTaken, held, cancelled }
  | enter {q : ℕ} {w : Writer} : d = .act (.writer q) → c.writers[q]? = some w → w.node = i →
      w.stage = .entering → n.announced.contains w.subscription = false →
      Alters c d i n { n with announced := n.announced.add w.subscription }
  | ask {q : ℕ} {w : Writer} {t : String} {deadline : ℕ} : d = .act (.writer q) →
      c.writers[q]? = some w → w.node = i → w.stage = .requesting t deadline →
      Alters c d i n { n with requests := n.requests ++ [w.subscription] }
  | discover {link : ℕ} {l : Listener} {heard : Option String} {requests : List String} :
      d = .act (.discovery i) → n.link = some link →
      Alters c d i n { n with discovery := l, heard, requests }
  | reset {time : Option ℕ} : d = .act (.epoch i) → n.cancelled = false →
      Alters c d i n { n with announced := .empty, nextEpoch := time }
  | leave : Alters c d i n { n with nextEpoch := none }
  | retire {stage : Dispatch} : (n.dispatch = .receiving → n.cancelled = true) →
      Alters c d i n { n with dispatch := stage }
  | skip {name : String} {rest : List String} : n.requests = name :: rest →
      n.started.contains name = true → Alters c d i n { n with requests := rest }
  | start {name : String} {rest : List String} : n.requests = name :: rest →
      n.started.contains name = false →
      Alters c d i n { n with
        requests := rest
        started := n.started.add name
        consumers := n.consumers ++ [{ subscription := name }] }
  | consume {k : ℕ} {co : Consumer} {l : Listener} {store : Watched} :
      d = .act (.consumer i k) → n.consumers[k]? = some co →
      (n.cancelled = false → l ≠ .ended) →
      Alters c d i n { n with consumers := n.consumers.set k { co with listener := l }, store }

variable {c c' : Cluster Network} {d : Deed} {i j q σ : ℕ} {n n' : Node} {t : Task}

theorem Alters.refl (c : Cluster Network) (d : Deed) (i : ℕ) (n : Node) : d.Alters c i n n :=
  .keep id

/-- A node that is cancelled stays so, and every node keeps its link and its settings. -/
theorem Alters.settled (h : d.Alters c i n n') :
    (n.cancelled = true → n'.cancelled = true) ∧ n'.link = n.link ∧ n'.settings = n.settings := by
  cases h with
  | keep hmono => exact ⟨hmono, rfl, rfl⟩
  | enter | ask | discover | reset | leave | retire | skip | start | consume =>
    exact ⟨id, rfl, rfl⟩

theorem Alters.of_outcome {w : Writer} {r : Written Network} (hw : c.writers[q]? = some w)
    (h : w.Outcome c.medium n r) : Alters c (.act (.writer q)) w.node n r.node := by
  cases h with
  | store => exact .keep id
  | enter hstage hnew => exact .enter rfl hw rfl hstage hnew
  | request hstage => exact .ask rfl hw rfl hstage
  | quit | check | known | unknown | overtaken | pause | announce | unannounced | untargeted
  | targeted | unrequested | linger | publish | unpublished => exact .refl ..

/-- What a deed may do to the nodes: it alters one at most, or a new one joins. -/
inductive Nodes (c c' : Cluster Network) (d : Deed) : Prop where
  | same : c'.nodes = c.nodes → Nodes c c' d
  | one {i : ℕ} {n m : Node} : c.nodes[i]? = some n → c'.nodes = c.nodes.setIfInBounds i m →
      d.Alters c i n m → Nodes c c' d
  | new {settings : Settings} {link : Option ℕ} {now : ℕ} {readFault : Option String} :
      c'.nodes = c.nodes.push { (Node.create settings link now).1 with readFault } → Nodes c c' d

theorem act_nodes (hact : c.act t = some c') : Nodes c c' (.act t) := by
  cases t with
  | writer q =>
    obtain ⟨w, n, r, n', hw, hn, hr, hn', rfl⟩ := Cluster.actWriter_cases hact
    refine .one hn rfl ?_
    have hout := Writer.act_outcome hr
    rcases hn' with rfl | ⟨hdone, rfl⟩
    · exact .of_outcome hw hout
    · -- a write that is over has left the node as it was, which may be cancelled now
      cases hout with
      | quit | untargeted | publish | unpublished => exact .keep fun _ => rfl
      | store | check | known | unknown | overtaken | enter | pause | announce | unannounced
      | targeted | request | unrequested | linger => cases hdone
  | stopper k =>
    obtain ⟨s, -, n, hn, r, hr, rfl⟩ := Cluster.act_stopper_iff.mp hact
    obtain ⟨-, state, cancelled, handlesTaken, hmono, hnode⟩ := Stopper.act_eq hr
    refine .one hn rfl ?_
    rw [hnode]
    exact .keep hmono
  | discovery j =>
    obtain ⟨n, hn, mv, hmv, rfl⟩ := Cluster.act_discovery_iff.mp hact
    refine .one hn rfl ?_
    obtain ⟨link, hlink, ⟨-, name, -, ⟨-, hnode⟩ | ⟨-, hnode⟩⟩ | ⟨-, h, -, -, hnode⟩⟩ :=
      Node.discover_cases hmv
    · rw [hnode]
      exact .discover rfl hlink
    · rw [hnode]
      exact .discover rfl hlink
    · rw [hnode]
      exact .discover rfl hlink
  | consumer j k =>
    obtain ⟨n, hn, mv, hmv, rfl⟩ := Cluster.act_consumer_iff.mp hact
    refine .one hn rfl ?_
    obtain ⟨link, co, h, -, hco, hh, -, store, hnode⟩ := Node.consume_cases hmv
    rw [hnode]
    exact .consume rfl hco fun hcancelled => Listener.ne_ended_of_act (hcancelled ▸ hh)
  | epoch j =>
    obtain ⟨n, hn, n', signals, hturn, rfl⟩ := Cluster.act_epoch_iff.mp hact
    refine .one (m := n') hn rfl ?_
    rcases Node.turn_cases hturn with ⟨-, rfl⟩ | ⟨hcancelled, time, rfl⟩
    · exact .leave
    · exact .reset rfl hcancelled
  | dispatch j =>
    obtain ⟨n, hn, n', signals, hdispatch, rfl⟩ := Cluster.act_dispatch_iff.mp hact
    refine .one (m := n') hn rfl ?_
    rcases Node.dispatchNext_cases hdispatch with
      ⟨stage, hstage, rfl⟩ | ⟨-, name, rest, hrequests, ⟨hknown, rfl⟩ | ⟨hnew, rfl⟩⟩
    · exact .retire hstage
    · exact .skip hrequests hknown
    · exact .start hrequests hnew

/-- **No deed does more to the nodes.** -/
theorem does_nodes (h : d.does c = some c') : Nodes c c' d := by
  have hmodify : ∀ {i : ℕ} {f : Node → Node}, c'.nodes = c.nodes.modify i f →
      (∀ n, d.Alters c i n (f n)) → Nodes c c' d := fun {i f} hnodes hf => by
    cases hn : c.nodes[i]? with
    | none =>
      refine .same (hnodes.trans (Array.ext_getElem? fun j => ?_))
      rw [Array.getElem?_modify]
      by_cases hij : i = j
      · rw [if_pos hij, ← hij, hn]
        rfl
      · rw [if_neg hij]
    | some n =>
      refine .one hn (hnodes.trans (Array.ext_getElem? fun j => ?_)) (hf n)
      rw [Array.getElem?_modify, Array.getElem?_setIfInBounds]
      by_cases hij : i = j
      · rw [if_pos hij, if_pos hij, if_pos (Array.getElem?_eq_some_iff.mp hn).1, ← hij, hn]
        rfl
      · rw [if_neg hij, if_neg hij]
  cases d with
  | act t => exact act_nodes h
  | connect | call | stop | revoke | disturb | outside | clock =>
    obtain rfl := Option.some.inj h
    exact .same rfl
  | join settings link readFault =>
    obtain rfl := Option.some.inj h
    exact .new rfl
  | forget i =>
    obtain rfl := Option.some.inj h
    rcases Cluster.release_cases
      { c with nodes := c.nodes.modify i fun n => { n with held := false } } i with
      heq | ⟨m, hm, heq⟩
    · exact hmodify (f := fun n => { n with held := false }) (congrArg Cluster.nodes heq) fun n =>
        .keep id
    · have hm : (c.nodes.modify i fun n => { n with held := false })[i]? = some m := hm
      rw [Array.getElem?_modify, if_pos rfl] at hm
      obtain ⟨n, hn, rfl⟩ := Option.map_eq_some_iff.mp hm
      refine .one (m := { n with held := false, cancelled := true }) hn
        ((congrArg Cluster.nodes heq).trans (Array.ext_getElem? fun j => ?_)) (.keep fun _ => rfl)
      rw [Array.getElem?_setIfInBounds, Array.getElem?_setIfInBounds, Array.size_modify]
      by_cases hij : i = j
      · rw [if_pos hij, if_pos hij]
      · rw [if_neg hij, if_neg hij, Array.getElem?_modify, if_neg hij]
  | tend i f =>
    obtain rfl := Option.some.inj h
    exact hmodify (f := fun n => { n with store := f n.store }) rfl fun n => .keep id

theorem does_node (h : d.does c = some c') (hn : c.nodes[i]? = some n) :
    ∃ n', c'.nodes[i]? = some n' ∧ d.Alters c i n n' := by
  cases does_nodes h with
  | same hnodes => exact ⟨n, hnodes ▸ hn, .refl c d i n⟩
  | @one j m m' hm hnodes halters =>
    rw [hnodes]
    by_cases hij : j = i
    · subst hij
      obtain rfl := Option.some.inj (hm.symm.trans hn)
      have hlt := (Array.getElem?_eq_some_iff.mp hm).1
      exact ⟨m', Array.getElem?_setIfInBounds_self_of_lt hlt, halters⟩
    · exact ⟨n, (Array.getElem?_setIfInBounds_ne hij).trans hn, .refl c d i n⟩
  | new hnodes =>
    have hlt := (Array.getElem?_eq_some_iff.mp hn).1
    refine ⟨n, ?_, .refl c d i n⟩
    rw [hnodes, Array.getElem?_push, if_neg (by omega), hn]

theorem node_cases (h : d.does c = some c') (hn' : c'.nodes[i]? = some n') :
    (∃ n, c.nodes[i]? = some n ∧ d.Alters c i n n') ∨
    c.nodes[i]? = none ∧ ∃ settings link now readFault,
      n' = { (Node.create settings link now).1 with readFault } := by
  cases hn : c.nodes[i]? with
  | some n =>
    obtain ⟨n₁, hn₁, halters⟩ := does_node h hn
    obtain rfl := Option.some.inj (hn₁.symm.trans hn')
    exact .inl ⟨n, rfl, halters⟩
  | none =>
    refine .inr ⟨rfl, ?_⟩
    cases does_nodes h with
    | same hnodes =>
      rw [hnodes, hn] at hn'
      cases hn'
    | one hm hnodes halters =>
      have hlt := (Array.getElem?_eq_some_iff.mp hn').1
      rw [hnodes, Array.size_setIfInBounds] at hlt
      exact absurd hlt (Array.getElem?_eq_none_iff.mp hn).not_gt
    | new hnodes =>
      rw [hnodes, Array.getElem?_push] at hn'
      split at hn'
      · exact ⟨_, _, _, _, (Option.some.inj hn').symm⟩
      · cases hn.symm.trans hn'

theorem does_ear (h : d.does c = some c') (hear : c'.ear? t = some (.listening σ)) :
    c.ear? t = some (.listening σ) ∨ d = .act t := by
  cases t with
  | discovery i =>
    obtain ⟨n', hn', hl⟩ := Option.map_eq_some_iff.mp hear
    have hold : ∀ {n : Node}, c.nodes[i]? = some n → n.discovery = .listening σ →
        c.ear? (.discovery i) = some (.listening σ) := fun hn hl => by
      rw [Cluster.ear?, hn, Option.map_some, hl]
    rcases node_cases h hn' with ⟨n, hn, halters⟩ | ⟨-, settings, link, now, readFault, rfl⟩
    · cases halters with
      | discover hd _ => exact .inr hd
      | keep | enter | ask | reset | leave | retire | skip | start | consume =>
        exact .inl (hold hn hl)
    · cases link <;> cases hl
  | consumer i k =>
    obtain ⟨n', hn', hk⟩ := Option.bind_eq_some_iff.mp hear
    have hold : ∀ {n : Node}, c.nodes[i]? = some n →
        n.consumers[k]?.map (·.listener) = some (.listening σ) →
        c.ear? (.consumer i k) = some (.listening σ) := fun hn hl => by
      rw [Cluster.ear?, hn, Option.bind_some, hl]
    rcases node_cases h hn' with ⟨n, hn, halters⟩ | ⟨-, settings, link, now, readFault, rfl⟩
    · cases halters with
      | @consume k' co l store hd hco hl =>
        by_cases hkk : k' = k
        · exact .inr (hkk ▸ hd)
        · refine .inl (hold hn ?_)
          rwa [List.getElem?_set_ne hkk] at hk
      | start hrequests hnew =>
        rw [List.getElem?_append] at hk
        split at hk
        · exact .inl (hold hn hk)
        · -- a consumer that was only started does not listen yet
          obtain ⟨co, hco, hl⟩ := Option.map_eq_some_iff.mp hk
          obtain rfl := List.mem_singleton.mp (List.mem_of_getElem? hco)
          cases hl
      | keep | enter | ask | discover | reset | leave | retire | skip => exact .inl (hold hn hk)
    · cases link <;> cases hk
  | epoch | dispatch | writer | stopper => cases hear

end Deed

/-! ## Writes -/

/-- What a move of a write says, if it says anything: its announcement, or something that is no
announcement. -/
theorem Writer.Outcome.spoken {a : Network} {n : Node} {w : Writer} {r : Written Network}
    (h : w.Outcome a n r) : r.medium = a ∨ ∃ m, r.medium = a.put m ∧
      ((∃ att, w.stage = .announcing att) ∧ r.stage = .resolving ∧ m = w.announcement ∨
        (∃ t att, w.stage = .publishing t att) ∧ m.channel ≠ controlChannel) := by
  cases h with
  | @announce att link m' l hstage _ hpublish =>
    refine .inr ⟨_, Network.publish_ok hpublish, .inl ⟨⟨att, hstage⟩, rfl, ?_⟩⟩
    rw [Writer.announcement, Line.name_controlChannel]
  | @publish t att link m' l hstage _ hpublish =>
    exact .inr ⟨_, Network.publish_ok hpublish, .inr ⟨⟨t, att, hstage⟩,
      Line.name_dataChannel_ne _ w.subscription t⟩⟩
  | unannounced _ hm | unpublished _ hm =>
    rcases hm with hm | ⟨e, hpublish⟩
    · exact .inl hm
    · exact .inl (Network.publish_error hpublish)
  | store | quit | check | known | unknown | overtaken | enter | pause | untargeted | targeted
  | request | unrequested | linger => exact .inl rfl

namespace Deed

variable {c c' : Cluster Network} {d : Deed} {q : ℕ} {w w' : Writer}

theorem writers_cases (h : d.does c = some c') : c'.writers = c.writers ∨
    (∃ q, d = .act (.writer q)) ∨ ∃ w, w.stage = .storing ∧ c'.writers = c.writers.push w := by
  cases d with
  | act t =>
    by_cases ht : ∃ q, t = .writer q
    · obtain ⟨q, rfl⟩ := ht
      exact .inr (.inl ⟨q, rfl⟩)
    · exact .inl (Cluster.act_writers (fun q hq => ht ⟨q, hq⟩) h)
  | call node token subscription e =>
    obtain rfl := Option.some.inj h
    exact .inr (.inr ⟨_, rfl, rfl⟩)
  | forget i =>
    obtain rfl := Option.some.inj h
    exact .inl (Cluster.release_eq _ i).1
  | connect | join | stop | revoke | disturb | outside | clock | tend =>
    obtain rfl := Option.some.inj h
    exact .inl rfl

/-- **A write moves, or it stays as it is.** -/
theorem does_writer (h : d.does c = some c') (hw : c.writers[q]? = some w) :
    ∃ w', c'.writers[q]? = some w' ∧ (w' = w ∨ d = .act (.writer q) ∧ w.Onward w') := by
  have hlt := (Array.getElem?_eq_some_iff.mp hw).1
  rcases writers_cases h with hwriters | ⟨ρ, rfl⟩ | ⟨w₁, -, hwriters⟩
  · exact ⟨w, hwriters ▸ hw, .inl rfl⟩
  · obtain ⟨hsize, honward⟩ := Cluster.act_onward (t := .writer ρ) h
    by_cases hρ : ρ = q
    · subst hρ
      have hlt' : ρ < c'.writers.size := by omega
      have hw' := Array.getElem?_eq_getElem hlt'
      obtain ⟨w₁, hw₁, hon⟩ := honward ρ _ hw'
      obtain rfl := Option.some.inj (hw₁.symm.trans hw)
      exact ⟨_, hw', .inr ⟨rfl, hon⟩⟩
    · obtain ⟨w₁, n, r, n', -, -, -, -, rfl⟩ := Cluster.actWriter_cases h
      exact ⟨w, (Array.getElem?_setIfInBounds_ne hρ).trans hw, .inl rfl⟩
  · refine ⟨w, ?_, .inl rfl⟩
    rw [hwriters, Array.getElem?_push, if_neg (by omega), hw]

theorem does_new_writer (h : d.does c = some c') (hw : c.writers[q]? = none)
    (hw' : c'.writers[q]? = some w') : w'.stage = .storing := by
  rcases writers_cases h with hwriters | ⟨ρ, rfl⟩ | ⟨w₁, hstage, hwriters⟩
  · rw [hwriters, hw] at hw'
    cases hw'
  · obtain ⟨w, hw₁, -⟩ := (Cluster.act_onward (t := .writer ρ) h).2 q w' hw'
    cases hw.symm.trans hw₁
  · rw [hwriters, Array.getElem?_push, hw] at hw'
    split at hw'
    · obtain rfl := Option.some.inj hw'
      exact hstage
    · cases hw'

theorem writer_cases (h : d.does c = some c') (hw' : c'.writers[q]? = some w') :
    c.writers[q]? = some w' ∨ (c.writers[q]? = none ∧ w'.stage = .storing) ∨
      d = .act (.writer q) ∧ ∃ w n r, c.writers[q]? = some w ∧ c.nodes[w.node]? = some n ∧
        w.act c.now (c.isRevoked w) c.medium n = some r ∧
        w' = { w with
          stage := r.stage
          finished := if r.stage = .done then some c.now else none } := by
  cases hw : c.writers[q]? with
  | none => exact .inr (.inl ⟨rfl, does_new_writer h hw hw'⟩)
  | some w =>
    by_cases hd : d = .act (.writer q)
    · subst hd
      obtain ⟨w₁, n, r, n', hw₁, hn, hr, -, rfl⟩ := Cluster.actWriter_cases h
      obtain rfl := Option.some.inj (hw₁.symm.trans hw)
      have hlt := (Array.getElem?_eq_some_iff.mp hw₁).1
      have hw' := (Array.getElem?_setIfInBounds_self_of_lt hlt).symm.trans hw'
      exact .inr (.inr ⟨rfl, w₁, n, r, rfl, hn, hr, (Option.some.inj hw').symm⟩)
    · obtain ⟨w₁, hw₁, rfl | ⟨hd', -⟩⟩ := does_writer h hw
      · exact .inl (hw₁.symm.trans hw')
      · exact absurd hd' hd

/-! ## The bus -/

/-- **A loop puts nothing on the bus, and all else leaves the streams alone** and puts one message
on it at most. -/
theorem does_bus (h : d.does c = some c') :
    (∃ t, (∀ q, t ≠ .writer q) ∧ d = .act t ∧ c'.medium.bus.log = c.medium.bus.log) ∨
    (∀ t, d = .act t → ∃ q, t = .writer q) ∧
      c'.medium.bus.streams = c.medium.bus.streams ∧
      (c'.medium.bus.log = c.medium.bus.log ∨
        ∃ m, c'.medium.bus.log = c.medium.bus.log ++ [m]) := by
  cases d with
  | act t =>
    by_cases ht : ∃ q, t = .writer q
    · obtain ⟨q, rfl⟩ := ht
      have hwriter : ∀ t, act (.writer q) = .act t → ∃ q, t = .writer q := by
        rintro t ⟨⟩
        exact ⟨q, rfl⟩
      obtain ⟨w, n, r, n', -, -, hr, -, rfl⟩ := Cluster.actWriter_cases h
      rcases (Writer.act_outcome hr).spoken with hmed | ⟨m, hmed, -⟩
      · exact .inr ⟨hwriter, congrArg (·.bus.streams) hmed, .inl (congrArg (·.bus.log) hmed)⟩
      · refine .inr ⟨hwriter, congrArg (·.bus.streams) hmed, .inr ⟨m, ?_⟩⟩
        exact (congrArg (·.bus.log) hmed).trans (Network.log_put _ m)
    · have ht : ∀ q, t ≠ .writer q := fun q hq => ht ⟨q, hq⟩
      refine .inl ⟨t, ht, rfl, ?_⟩
      rw [Bus.log, Cluster.act_feed ht h, Bus.log]
  | outside m =>
    obtain rfl := Option.some.inj h
    exact .inr ⟨by simp, rfl, .inr ⟨m, Network.log_put _ m⟩⟩
  | forget i =>
    obtain rfl := Option.some.inj h
    have hmed := (Cluster.release_eq
      { c with nodes := c.nodes.modify i fun n => { n with held := false } } i).2
    exact .inr ⟨by simp, congrArg (·.bus.streams) hmed, .inl (congrArg (·.bus.log) hmed)⟩
  | connect | join | call | stop | revoke | disturb | clock | tend =>
    obtain rfl := Option.some.inj h
    exact .inr ⟨by simp, rfl, .inl rfl⟩

theorem does_log (h : d.does c = some c') : c.medium.bus.log <+: c'.medium.bus.log := by
  rcases does_bus h with ⟨t, -, -, hlog⟩ | ⟨-, -, hlog | ⟨m, hlog⟩⟩
  · rw [hlog]
  · rw [hlog]
  · rw [hlog]
    exact List.prefix_append _ _

end Deed

end Telemetry
