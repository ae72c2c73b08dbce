import Telemetry.Proofs.Announcing
import Telemetry.Proofs.Consuming
import Telemetry.Proofs.Wiring

/-!
# Requests and tasks

Names come to a node from two sides: its discovery receives them, and its own writes ask for their
subscriptions. Both put them into one queue, and dispatch takes them out one by one and starts a
consumer for each that is new. So the consumers of a node are the names that were requested, each
once, in the order in which they came.

* `Run.Receives`, `Run.Propagates`: where names come from;
* `Run.asked`, `Run.requested`: what came into the queue of a node;
* `Run.Turns`, **`Run.turns`**: what a deed does to the names of a node;
* **`Run.names_of_queue`**: what dispatch has taken, and what still waits;
* **`Run.one_task_each`**: the consumers of a node.
-/

namespace Telemetry

/-! ## Writes that ask -/

namespace Writer

variable {μ : Type} [Medium μ] {now link : ℕ} {revoked : Bool} {m : μ} {n : Node} {w : Writer}
  {x : Written μ} {t : String} {deadline : ℕ}

/-- The target of a write that has got so far is that of its envelope. -/
def Aimed (w : Writer) : Prop :=
  ∀ t, (∃ deadline, w.stage = .requesting t deadline) ∨ (∃ a, w.stage = .publishing t a) →
    w.envelope.target? = some t

/-- A write asks for its subscription unless it is cancelled, or the queue stays full until its
time. -/
theorem act_requesting (hstage : w.stage = .requesting t deadline) (hlink : n.link = some link)
    (h : w.act now revoked m n = some x) :
    (revoked || n.cancelled) = true ∧ x = ⟨m, n, .publishing t .starting, []⟩ ∨
    (revoked || n.cancelled) = false ∧ n.hasRoom = true ∧
      x = ⟨m, { n with requests := n.requests ++ [w.subscription] }, .publishing t .starting, []⟩ ∨
    (revoked || n.cancelled) = false ∧ n.hasRoom = false ∧ deadline ≤ now ∧
      x = ⟨m, n, .publishing t .starting,
        [.warn (.requestDropped w.subscription n.settings.writeTimeout),
          .count .requestDropped]⟩ := by
  obtain ⟨n, rfl⟩ : ∃ n' : Node, n = { n' with link := some link } := ⟨n, by rw [← hlink]⟩
  simp only [act, hstage] at h
  split at h
  · rename_i hcancelled
    exact .inl ⟨hcancelled, (Option.some.inj h).symm⟩
  · rename_i hlive
    have hlive := Bool.eq_false_iff.mpr hlive
    split at h
    · rename_i hroom
      exact .inr (.inl ⟨hlive, hroom, (Option.some.inj h).symm⟩)
    · rename_i hroom
      split at h
      · rename_i hlate
        exact .inr (.inr ⟨hlive, Bool.eq_false_iff.mpr hroom, hlate, (Option.some.inj h).symm⟩)
      · cases h

theorem Outcome.aimed {r : Written μ} {finished : Option ℕ} (h : w.Outcome m n r)
    (ha : w.Aimed) : Aimed { w with stage := r.stage, finished } := by
  cases h with
  | targeted _ ht =>
    rintro t (⟨deadline, hst⟩ | ⟨a, hst⟩)
    · obtain ⟨rfl, -⟩ := Stage.requesting.inj hst
      exact ht
    · cases hst
  | request hstage | unrequested hstage =>
    rintro t (⟨deadline, hst⟩ | ⟨a, hst⟩)
    · cases hst
    · obtain ⟨rfl, -⟩ := Stage.publishing.inj hst
      exact ha _ (.inl ⟨_, hstage⟩)
  | linger hstage =>
    rintro t (⟨deadline, hst⟩ | ⟨a, hst⟩)
    · cases hst
    · obtain ⟨rfl, -⟩ := Stage.publishing.inj hst
      exact ha _ (.inr ⟨_, hstage⟩)
  | store | quit | check | known | unknown | overtaken | enter | pause | announce | unannounced
  | untargeted | publish | unpublished =>
    rintro t (⟨deadline, hst⟩ | ⟨a, hst⟩) <;> cases hst

end Writer

theorem Run.aimed (r : Run) (k : ℕ) {q : ℕ} {w : Writer} (hw : (r.state k).writers[q]? = some w) :
    w.Aimed := by
  refine r.always (P := fun c => ∀ (q : ℕ) w, c.writers[q]? = some w → w.Aimed) ?_ ?_ k q w hw
  · intro q w hw
    cases hw
  · intro c c' d h hdoes q w' hw'
    rcases Deed.writer_cases hdoes hw' with hw | ⟨-, hstoring⟩ | ⟨-, w, n, x, hw, -, hx, rfl⟩
    · exact h q w' hw
    · rintro t (⟨deadline, hst⟩ | ⟨a, hst⟩)
      · cases hst.symm.trans hstoring
      · cases hst.symm.trans hstoring
    · exact (Writer.act_outcome hx).aimed (h q w hw)

/-! ## Where names come from -/

/-- The requests that wait at the node `i`. -/
def Cluster.queue (c : Cluster Network) (i : ℕ) : List String := (c.nodes[i]?).elim [] (·.requests)

namespace Run

variable {r : Run} {i k q x y : ℕ} {s : String} {m : Message} {n n' : Node}

/-- The discovery of the node `i` receives a message from its stream. -/
def Receives (r : Run) (i k : ℕ) (m : Message) : Prop :=
  r.deed k = .act (.discovery i) ∧ ∃ n ∈ (r.state k).nodes[i]?, n.cancelled = false ∧
    n.heard = none ∧ ∃ σ, n.discovery = .listening σ ∧
      (Medium.receive (r.state k).medium σ).2 = .message m

/-- The write `q` of the node `i` is propagated: it is an update with a target, neither its caller
nor its node is cancelled, and there is room for its request. A write whose request is dropped
since the queue stays full is not propagated in this sense, although it publishes its data all the
same. -/
def Propagates (r : Run) (i : ℕ) (s : String) (q k : ℕ) : Prop :=
  r.deed k = .act (.writer q) ∧ ∃ w ∈ (r.state k).writers[q]?, ∃ n ∈ (r.state k).nodes[i]?,
    (w.node = i ∧ w.subscription = s) ∧
    (∃ t deadline, w.envelope.target? = some t ∧ w.stage = .requesting t deadline) ∧
    n.link.isSome = true ∧ (r.state k).isRevoked w = false ∧ n.cancelled = false ∧
    n.hasRoom = true

/-- What a deed puts into the queue of the node `i`. -/
def asked (r : Run) (i k : ℕ) : List String :=
  ((r.state (k + 1)).queue i).drop ((r.state k).queue i).length

/-- What was put into the queue of the node `i` so far. -/
def requested (r : Run) (i y : ℕ) : List String := (List.range y).flatMap (r.asked i)

/-- What a deed does to the names of the node `i`. -/
inductive Turns (r : Run) (i k : ℕ) (n n' : Node) : Prop
  | still : n'.requests = n.requests → n'.started = n.started → n'.heard = n.heard →
      Turns r i k n n'
  | write {q : ℕ} {s : String} : r.Propagates i s q k → n'.requests = n.requests ++ [s] →
      n'.started = n.started → n'.heard = n.heard → Turns r i k n n'
  /-- Discovery gets rid of the name that it heard. -/
  | pass {s : String} : n.heard = some s → n'.heard = none →
      (n.cancelled = true ∧ n'.requests = n.requests ∨ n'.requests = n.requests ++ [s]) →
      n'.started = n.started → Turns r i k n n'
  | hear {m : Message} : r.Receives i k m → n.heard = none →
      n'.heard = (announcedName m.payload).1 → n'.requests = n.requests →
      n'.started = n.started → Turns r i k n n'
  | serve {s : String} {rest : List String} : n.requests = s :: rest → n'.requests = rest →
      n'.started = n.started.add s → n'.heard = n.heard → Turns r i k n n'

theorem propagates_of_asks {w : Writer} {t : String} {deadline : ℕ}
    (hd : r.deed k = .act (.writer q)) (hw : (r.state k).writers[q]? = some w) (hnode : w.node = i)
    (hstage : w.stage = .requesting t deadline) (hn : (r.state k).nodes[i]? = some n)
    (hn' : (r.state (k + 1)).nodes[i]? = some n')
    (hasks : n'.requests = n.requests ++ [w.subscription]) : r.Propagates i w.subscription q k := by
  have hact := r.step k
  rw [hd] at hact
  obtain ⟨w₁, n₁, x, n₁', hw₁, hn₁, hx, hx', hstate⟩ := Cluster.actWriter_cases hact
  obtain rfl := Option.some.inj (hw₁.symm.trans hw)
  subst hnode
  obtain rfl := Option.some.inj (hn₁.symm.trans hn)
  have hlt := (Array.getElem?_eq_some_iff.mp hn).1
  rw [hstate] at hn'
  obtain rfl := Option.some.inj ((Array.getElem?_setIfInBounds_self_of_lt hlt).symm.trans hn')
  -- who does not ask leaves the queue as it is
  have hquiet : x.node.requests ≠ n₁.requests := fun hsame => by
    have hsame' : n₁'.requests = n₁.requests := by
      rcases hx' with rfl | ⟨-, rfl⟩
      · exact hsame
      · exact hsame
    simp [hsame'] at hasks
  cases hlink : n₁.link with
  | none =>
    simp only [Writer.act, hstage, hlink] at hx
    obtain rfl := Option.some.inj hx
    exact absurd rfl hquiet
  | some link =>
    rcases Writer.act_requesting hstage hlink hx with
      ⟨-, rfl⟩ | ⟨hlive, hroom, rfl⟩ | ⟨-, -, -, rfl⟩
    · exact absurd rfl hquiet
    · obtain ⟨hrevoked, hcancelled⟩ := Bool.or_eq_false_iff.mp hlive
      exact ⟨hd, w₁, hw, n₁, hn, ⟨rfl, rfl⟩,
        ⟨t, deadline, r.aimed k hw t (.inl ⟨deadline, hstage⟩), hstage⟩, by rw [hlink]; rfl,
        hrevoked, hcancelled, hroom⟩
    · exact absurd rfl hquiet

theorem turns_of_discovery (hd : r.deed k = .act (.discovery i))
    (hn : (r.state k).nodes[i]? = some n) (hn' : (r.state (k + 1)).nodes[i]? = some n') :
    r.Turns i k n n' := by
  have hact := r.step k
  rw [hd] at hact
  obtain ⟨n₁, hn₁, mv, hmv, hstate⟩ := Cluster.act_discovery_iff.mp hact
  obtain rfl := Option.some.inj (hn₁.symm.trans hn)
  have hlt := (Array.getElem?_eq_some_iff.mp hn).1
  rw [← hstate] at hn'
  have hnode : mv.node = n' :=
    Option.some.inj ((Array.getElem?_setIfInBounds_self_of_lt hlt).symm.trans hn')
  obtain ⟨link, -, ⟨-, s, hheard, hpass⟩ | ⟨hheard, h, hlistens, -, hhears⟩⟩ :=
    Node.discover_cases hmv
  · rcases hpass with ⟨hcancelled, hpass⟩ | ⟨-, hpass⟩
    · rw [hpass] at hnode
      subst hnode
      exact .pass hheard rfl (.inl ⟨hcancelled, rfl⟩) rfl
    · rw [hpass] at hnode
      subst hnode
      exact .pass hheard rfl (.inr rfl) rfl
  · rw [hhears] at hnode
    subst hnode
    rcases Listener.act_listens hlistens with ⟨σ, m, hl, hcancelled, hrec, hgot⟩ | ⟨hnone, -⟩
    · have hmessage : h.message = some m := by rw [hgot]
      exact .hear ⟨hd, n₁, hn, hcancelled, hheard, σ, hl, by rw [hrec]⟩ hheard
        (by rw [hmessage]; rfl) rfl rfl
    · exact .still rfl rfl (by rw [hnone, hheard]; rfl)

/-- **What a deed does to the names of a node.** -/
theorem turns (hn : (r.state k).nodes[i]? = some n) (hn' : (r.state (k + 1)).nodes[i]? = some n') :
    r.Turns i k n n' := by
  obtain ⟨n₁, hn₁, halters⟩ := Deed.does_node (r.step k) hn
  obtain rfl := Option.some.inj (hn₁.symm.trans hn')
  cases halters with
  | keep | enter | reset | leave | retire | consume => exact .still rfl rfl rfl
  | ask hd hw hnode hstage =>
    exact .write (propagates_of_asks hd hw hnode hstage hn hn' rfl) rfl rfl rfl
  | skip hrequests hknown =>
    exact .serve hrequests rfl (by rw [Roster.add, dif_pos hknown]) rfl
  | start hrequests hnew => exact .serve hrequests rfl rfl rfl
  | discover hd _ => exact turns_of_discovery hd hn hn'

theorem Propagates.asked (h : r.Propagates i s q k) : r.asked i k = [s] := by
  obtain ⟨hd, w, hw, n, hn, ⟨hnode, rfl⟩, ⟨t, deadline, -, hstage⟩, hlink, hrevoked, hcancelled,
    hroom⟩ := h
  obtain ⟨link, hlink⟩ := Option.isSome_iff_exists.mp hlink
  have hact := r.step k
  rw [hd] at hact
  obtain ⟨w₁, n₁, x, n₁', hw₁, hn₁, hx, hx', hstate⟩ := Cluster.actWriter_cases hact
  obtain rfl := Option.some.inj (hw₁.symm.trans hw)
  rw [hnode] at hn₁ hstate
  obtain rfl := Option.some.inj (hn₁.symm.trans hn)
  have hlt := (Array.getElem?_eq_some_iff.mp hn).1
  rcases Writer.act_requesting hstage hlink hx with ⟨hdead, -⟩ | ⟨-, -, rfl⟩ | ⟨-, hfull, -, -⟩
  · rw [hrevoked, hcancelled] at hdead
    cases hdead
  · have hn' : (r.state (k + 1)).nodes[i]? = some n₁' := by
      rw [hstate]
      exact Array.getElem?_setIfInBounds_self_of_lt hlt
    obtain rfl : n₁' = { n₁ with requests := n₁.requests ++ [w₁.subscription] } :=
      hx'.resolve_right fun hdone => by cases hdone.1
    rw [Run.asked, Cluster.queue, Cluster.queue, hn', hn, Option.elim_some, Option.elim_some,
      List.drop_left]
  · cases hroom.symm.trans hfull

/-! ## Names and the queue -/

theorem requested_succ (r : Run) (i y : ℕ) :
    r.requested i (y + 1) = r.requested i y ++ r.asked i y := by
  rw [requested, List.range_succ, List.flatMap_append, List.flatMap_singleton, requested]

theorem asked_eq (hn : (r.state k).nodes[i]? = some n)
    (hn' : (r.state (k + 1)).nodes[i]? = some n') :
    r.asked i k = n'.requests.drop n.requests.length := by
  rw [asked, Cluster.queue, Cluster.queue, hn, hn', Option.elim_some, Option.elim_some]

theorem Turns.asked (h : r.Turns i k n n') (hn : (r.state k).nodes[i]? = some n)
    (hn' : (r.state (k + 1)).nodes[i]? = some n') :
    (r.asked i k = [] ∧ (n'.requests = n.requests ∧ n'.started = n.started ∨
      ∃ s, n.requests = s :: n'.requests ∧ n'.started = n.started.add s)) ∨
    ∃ s, r.asked i k = [s] ∧ n'.requests = n.requests ++ [s] ∧ n'.started = n.started ∧
      (n.heard = some s ∨ ∃ q, r.Propagates i s q k) := by
  have hasked := asked_eq hn hn'
  cases h with
  | still hrequests hstarted _ | hear _ _ _ hrequests hstarted =>
    rw [hrequests, List.drop_length] at hasked
    exact .inl ⟨hasked, .inl ⟨hrequests, hstarted⟩⟩
  | write hpropagates hrequests hstarted _ =>
    rw [hrequests, List.drop_left] at hasked
    exact .inr ⟨_, hasked, hrequests, hstarted, .inr ⟨_, hpropagates⟩⟩
  | pass hheard _ hrequests hstarted =>
    rcases hrequests with ⟨-, hrequests⟩ | hrequests
    · rw [hrequests, List.drop_length] at hasked
      exact .inl ⟨hasked, .inl ⟨hrequests, hstarted⟩⟩
    · rw [hrequests, List.drop_left] at hasked
      exact .inr ⟨_, hasked, hrequests, hstarted, .inl hheard⟩
  | serve hrequests hrest hstarted _ =>
    rw [hrequests, hrest, List.drop_eq_nil_of_le (by simp)] at hasked
    exact .inl ⟨hasked, .inr ⟨_, by rw [hrequests, hrest], hstarted⟩⟩

theorem of_joins (hn : (r.state k).nodes[i]? = none) (hn' : (r.state (k + 1)).nodes[i]? = some n') :
    n'.requests = [] ∧ n'.started = .empty ∧ n'.heard = none := by
  rcases Deed.node_cases (r.step k) hn' with ⟨n, hold, -⟩ | ⟨-, settings, link, now, readFault, rfl⟩
  · cases hn.symm.trans hold
  · cases link <;> exact ⟨rfl, rfl, rfl⟩

theorem asked_of_none (hn : (r.state k).nodes[i]? = none) : r.asked i k = [] := by
  rw [asked, Cluster.queue, Cluster.queue, hn]
  cases hn' : (r.state (k + 1)).nodes[i]? with
  | none => rfl
  | some n' =>
    rw [Option.elim_some, (of_joins hn hn').1]
    rfl

theorem requested_of_none (hn : (r.state y).nodes[i]? = none) : r.requested i y = [] := by
  induction y with
  | zero => rfl
  | succ y ih =>
    have hold : (r.state y).nodes[i]? = none := by
      cases hold : (r.state y).nodes[i]? with
      | none => rfl
      | some n =>
        obtain ⟨n', hn', -⟩ := Deed.does_node (r.step y) hold
        cases hn.symm.trans hn'
    rw [requested_succ, ih hold, asked_of_none hold, List.append_nil]

theorem eraseDups_concat (xs : List String) (s : String) :
    (xs ++ [s]).eraseDups = if s ∈ xs then xs.eraseDups else xs.eraseDups ++ [s] := by
  rw [List.eraseDups_append]
  by_cases h : s ∈ xs
  · simp [List.removeAll, h]
  · simp [List.removeAll, h, List.eraseDups_cons]

theorem names_add (started : Roster) (taken : List String) (s : String)
    (h : started.names = taken.eraseDups) : (started.add s).names = (taken ++ [s]).eraseDups := by
  have hmem : started.contains s = true ↔ s ∈ taken := by
    rw [Roster.contains, List.contains_iff_mem, h, List.mem_eraseDups]
  rw [eraseDups_concat]
  by_cases hs : s ∈ taken
  · rw [Roster.add, dif_pos (hmem.mpr hs), if_pos hs, h]
  · rw [Roster.add, dif_neg (mt hmem.mp hs), if_neg hs, ← h]

/-- **What was requested is what dispatch has taken, and what still waits**; and what it has taken
is started, each name once and in the order in which they came. -/
theorem names_of_queue (hn : (r.state y).nodes[i]? = some n) : ∃ taken,
    r.requested i y = taken ++ n.requests ∧ n.started.names = taken.eraseDups := by
  induction y generalizing n with
  | zero =>
    rw [r.start] at hn
    cases hn
  | succ y ih =>
    rw [requested_succ]
    cases hn₀ : (r.state y).nodes[i]? with
    | none =>
      obtain ⟨hrequests, hstarted, -⟩ := of_joins hn₀ hn
      refine ⟨[], ?_, by rw [hstarted]; rfl⟩
      rw [requested_of_none hn₀, asked_of_none hn₀, hrequests]
    | some n₀ =>
      obtain ⟨taken, htaken, hnames⟩ := ih hn₀
      rw [htaken]
      rcases (turns hn₀ hn).asked hn₀ hn with
        ⟨hasked, ⟨hrequests, hstarted⟩ | ⟨s, hrequests, hstarted⟩⟩ |
          ⟨s, hasked, hrequests, hstarted, -⟩
      · exact ⟨taken, by rw [hasked, hrequests, List.append_nil], by rw [hstarted, hnames]⟩
      · refine ⟨taken ++ [s], ?_, by rw [hstarted, names_add _ _ _ hnames]⟩
        rw [hasked, hrequests, List.append_nil, List.append_assoc, List.singleton_append]
      · exact ⟨taken, by rw [hasked, hrequests, List.append_assoc], by rw [hstarted, hnames]⟩

/-! ## Names and where they come from -/

/-- The node `i` has received the name, or propagated a write under it. -/
def Wanted (r : Run) (i : ℕ) (s : String) (y : ℕ) : Prop :=
  (∃ k < y, ∃ m, r.Receives i k m ∧ String.fromUTF8? m.payload = some s ∧ s ≠ "") ∨
    ∃ k < y, ∃ q, r.Propagates i s q k

theorem announcedName_eq_some_iff {payload : ByteArray} :
    (announcedName payload).1 = some s ↔ String.fromUTF8? payload = some s ∧ s ≠ "" := by
  unfold announcedName
  cases String.fromUTF8? payload with
  | none => simp
  | some name =>
    have hempty : name.isEmpty = true ↔ name = "" := String.isEmpty_iff
    show (if name.isEmpty = true then none else some name) = some s ↔ _
    rw [Option.some.injEq]
    by_cases hname : name = ""
    · rw [if_pos (hempty.mpr hname)]
      exact ⟨fun h => absurd h (by simp), fun ⟨hs, hne⟩ => absurd hname (hs ▸ hne)⟩
    · rw [if_neg (mt hempty.mp hname), Option.some.injEq]
      exact ⟨fun hs => ⟨hs, hs ▸ hname⟩, And.left⟩

theorem Wanted.mono (h : r.Wanted i s x) (hxy : x ≤ y) : r.Wanted i s y :=
  h.imp (fun ⟨k, hk, h⟩ => ⟨k, hk.trans_le hxy, h⟩) fun ⟨k, hk, h⟩ => ⟨k, hk.trans_le hxy, h⟩

theorem wanted_of_requested (r : Run) (i y : ℕ) : (∀ s ∈ r.requested i y, r.Wanted i s y) ∧
    ∀ n s, (r.state y).nodes[i]? = some n → n.heard = some s → r.Wanted i s y := by
  induction y with
  | zero =>
    refine ⟨fun s hs => (List.not_mem_nil hs).elim, fun n s hn => ?_⟩
    rw [r.start] at hn
    cases hn
  | succ y ih =>
    obtain ⟨hrequested, hheard⟩ := ih
    have hle : y ≤ y + 1 := Nat.le_succ y
    cases hn : (r.state y).nodes[i]? with
    | none =>
      refine ⟨fun s hs => ?_, fun n' s hn' hs => ?_⟩
      · rw [requested_succ, asked_of_none hn, List.append_nil] at hs
        exact (hrequested s hs).mono hle
      · cases (of_joins hn hn').2.2.symm.trans hs
    | some n =>
      obtain ⟨n', hn', -⟩ := Deed.does_node (r.step y) hn
      have hturns := turns hn hn'
      refine ⟨fun s hs => ?_, fun n₁ s hn₁ hs => ?_⟩
      · rw [requested_succ] at hs
        rcases List.mem_append.mp hs with hs | hs
        · exact (hrequested s hs).mono hle
        · rcases hturns.asked hn hn' with ⟨hasked, -⟩ | ⟨s', hasked, -, -, hfrom⟩
          · rw [hasked] at hs
            exact (List.not_mem_nil hs).elim
          · rw [hasked] at hs
            obtain rfl := List.mem_singleton.mp hs
            rcases hfrom with hfrom | ⟨q, hq⟩
            · exact (hheard n s hn hfrom).mono hle
            · exact .inr ⟨y, Nat.lt_succ_self y, q, hq⟩
      · obtain rfl := Option.some.inj (hn'.symm.trans hn₁)
        cases hturns with
        | still _ _ h | write _ _ _ h | serve _ _ _ h => exact (hheard n s hn (h ▸ hs)).mono hle
        | pass _ h _ _ => cases h.symm.trans hs
        | hear hreceives _ h _ _ =>
          exact .inl ⟨y, Nat.lt_succ_self y, _, hreceives, announcedName_eq_some_iff.mp (h ▸ hs)⟩

theorem Receives.heard (h : r.Receives i k m) (hn' : (r.state (k + 1)).nodes[i]? = some n') :
    n'.heard = (announcedName m.payload).1 := by
  obtain ⟨hd, n, hn, hcancelled, hheard, σ, hl, hrec⟩ := h
  have hact := r.step k
  rw [hd] at hact
  obtain ⟨n₁, hn₁, mv, hmv, hstate⟩ := Cluster.act_discovery_iff.mp hact
  obtain rfl := Option.some.inj (hn₁.symm.trans hn)
  have hlt := (Array.getElem?_eq_some_iff.mp hn).1
  rw [← hstate] at hn'
  obtain rfl := Option.some.inj ((Array.getElem?_setIfInBounds_self_of_lt hlt).symm.trans hn')
  obtain ⟨link, -, ⟨-, s, hs, -⟩ | ⟨-, x, hx, -, hnode⟩⟩ := Node.discover_cases hmv
  · cases hheard.symm.trans hs
  · rw [hl, hcancelled, Listener.act, if_neg Bool.false_ne_true,
      ← Prod.mk.eta (p := Medium.receive (r.state k).medium σ), hrec] at hx
    obtain rfl := Option.some.inj hx
    rw [hnode]
    rfl

theorem Receives.known (h : r.Receives i k m) (hs : (announcedName m.payload).1 = some s)
    (hky : k + 1 ≤ y) (hn : (r.state y).nodes[i]? = some n) :
    n.cancelled = true ∨ n.heard = some s ∨ s ∈ r.requested i y := by
  induction y, hky using Nat.le_induction generalizing n with
  | base => exact .inr (.inl ((h.heard hn).trans hs))
  | succ y hky ih =>
    obtain ⟨-, n₀, hn₀, -⟩ := h
    obtain ⟨n₁, hn₁⟩ := exists_node (Nat.le_of_succ_le hky) hn₀
    obtain ⟨n₂, hn₂, halters⟩ := Deed.does_node (r.step y) hn₁
    obtain rfl := Option.some.inj (hn₂.symm.trans hn)
    rw [requested_succ]
    rcases ih hn₁ with hcancelled | hheard | hrequested
    · exact .inl (halters.settled.1 hcancelled)
    · have hturns := turns hn₁ hn
      cases hturns with
      | still _ _ hsame | write _ _ _ hsame | serve _ _ _ hsame =>
        exact .inr (.inl (hsame.trans hheard))
      | pass hpassed _ hrequests _ =>
        obtain rfl := Option.some.inj (hpassed.symm.trans hheard)
        rcases hrequests with ⟨hcancelled, -⟩ | hrequests
        · exact .inl (halters.settled.1 hcancelled)
        · refine .inr (.inr (List.mem_append_right _ ?_))
          rw [asked_eq hn₁ hn, hrequests, List.drop_left]
          exact List.mem_singleton_self _
      | hear _ hnone _ _ _ => cases hnone.symm.trans hheard
    · exact .inr (.inr (List.mem_append_left _ hrequested))

theorem Wanted.requested (h : r.Wanted i s y) (hn : (r.state y).nodes[i]? = some n) :
    n.cancelled = true ∨ n.heard = some s ∨ s ∈ r.requested i y := by
  rcases h with ⟨k, hk, m, hreceives, hname⟩ | ⟨k, hk, q, hpropagates⟩
  · exact hreceives.known (announcedName_eq_some_iff.mpr hname) hk hn
  · refine .inr (.inr (List.mem_flatMap.mpr ⟨k, List.mem_range.mpr hk, ?_⟩))
    rw [hpropagates.asked]
    exact List.mem_singleton_self s

/-! ## Tasks -/

theorem started_prefix {n₀ : Node} (hxy : x ≤ y) (hn₀ : (r.state x).nodes[i]? = some n₀)
    (hn : (r.state y).nodes[i]? = some n) : n₀.started.names <+: n.started.names := by
  induction y, hxy using Nat.le_induction generalizing n with
  | base =>
    obtain rfl := Option.some.inj (hn₀.symm.trans hn)
    exact List.prefix_refl _
  | succ y hxy ih =>
    obtain ⟨n₁, hn₁⟩ := exists_node hxy hn₀
    refine (ih hn₁).trans ?_
    rcases (turns hn₁ hn).asked hn₁ hn with ⟨-, ⟨-, hsame⟩ | ⟨s, -, hadd⟩⟩ | ⟨s, -, -, hsame, -⟩
    · rw [hsame]
    · rw [hadd, Roster.add]
      split
      · exact List.prefix_refl _
      · exact List.prefix_append _ _
    · rw [hsame]

theorem consumers_prefix {n₀ : Node} (hxy : x ≤ y) (hn₀ : (r.state x).nodes[i]? = some n₀)
    (hn : (r.state y).nodes[i]? = some n) :
    n₀.consumers.map (·.subscription) <+: n.consumers.map (·.subscription) := by
  rw [(r.sane x n₀ (Array.mem_of_getElem? hn₀)).consumers,
    (r.sane y n (Array.mem_of_getElem? hn)).consumers]
  exact started_prefix hxy hn₀ hn

theorem acts_of_waiting (hn : (r.state y).nodes[i]? = some n) (hlive : n.cancelled = false)
    (hlink : n.link.isSome = true) :
    (n.requests ≠ [] → ((r.state y).act (.dispatch i)).isSome = true) ∧
      (n.heard.isSome = true → n.hasRoom = true →
        ((r.state y).act (.discovery i)).isSome = true) := by
  have hreceiving := (r.sane y n (Array.mem_of_getElem? hn)).dispatch hlive hlink
  obtain ⟨link, hlink⟩ := Option.isSome_iff_exists.mp hlink
  constructor
  · intro hrequests
    obtain ⟨s, rest, hcons⟩ := List.exists_cons_of_ne_nil hrequests
    simp [Cluster.act, hn, Node.dispatchNext, hreceiving, hlive, hcons]
  · intro hheard hroom
    obtain ⟨s, hs⟩ := Option.isSome_iff_exists.mp hheard
    simp [Cluster.act, hn, Node.discover, hlink, hs, hlive, hroom]

/-- A write that goes on asks, unless it is cancelled or the queue has been full up to its time. -/
theorem propagates_or_drops {w : Writer} {t : String} {deadline : ℕ}
    (hn : (r.state y).nodes[i]? = some n) (hlink : n.link.isSome = true)
    (hw : (r.state y).writers[q]? = some w) (hnode : w.node = i)
    (hstage : w.stage = .requesting t deadline) (hd : r.deed y = .act (.writer q))
    (hlive : (r.state y).isRevoked w = false ∧ n.cancelled = false) :
    r.Propagates i w.subscription q y ∨ n.hasRoom = false ∧ deadline ≤ (r.state y).now ∧
      (r.state (y + 1)).journal = (r.state y).journal ++
        [.warn (.requestDropped w.subscription n.settings.writeTimeout),
          .count .requestDropped] := by
  have hact := r.step y
  rw [hd] at hact
  obtain ⟨w₁, n₁, x, n₁', hw₁, hn₁, hx, hx', hstate⟩ := Cluster.actWriter_cases hact
  obtain rfl := Option.some.inj (hw₁.symm.trans hw)
  rw [hnode] at hn₁
  obtain rfl := Option.some.inj (hn₁.symm.trans hn)
  obtain ⟨link, hlink'⟩ := Option.isSome_iff_exists.mp hlink
  rcases Writer.act_requesting hstage hlink' hx with
    ⟨hdead, -⟩ | ⟨-, hroom, -⟩ | ⟨-, hfull, hlate, rfl⟩
  · rw [hlive.1, hlive.2] at hdead
    cases hdead
  · exact .inl ⟨hd, w₁, hw, n₁, hn, ⟨hnode, rfl⟩,
      ⟨t, deadline, r.aimed y hw t (.inl ⟨deadline, hstage⟩), hstage⟩, hlink, hlive.1, hlive.2,
      hroom⟩
  · exact .inr ⟨hfull, hlate, by rw [hstate]⟩

/-- **One task for each name, none missed and none for anything else.** When discovery and the queue
of a node have nothing left, a subscription has a task exactly if the node received its name, or
propagated a write under it. Its tasks are the names that were requested, each once, in the order of
the first request; none of them goes away, and none ends before the node is cancelled. A name that
waits does not wait for ever. A write whose request is dropped at a full queue says so; it publishes
its data all the same, and yet it is not counted as propagated here, so that its subscription may be
without a task. -/
theorem one_task_each (r : Run) {i y : ℕ} {n : Node} (hn : (r.state y).nodes[i]? = some n) :
    (n.cancelled = false → n.requests = [] → n.heard = none →
      (∀ s, n.tasks s = 1 ↔
        (∃ k < y, ∃ m, r.Receives i k m ∧ String.fromUTF8? m.payload = some s ∧ s ≠ "") ∨
          ∃ k < y, ∃ q, r.Propagates i s q k) ∧
      n.consumers.map (·.subscription) = (r.requested i y).eraseDups) ∧
    ((∀ s, n.tasks s ≤ 1) ∧ n.consumers.map (·.subscription) <+: (r.requested i y).eraseDups ∧
      (n.cancelled = false → ∀ co ∈ n.consumers, co.listener ≠ .ended) ∧
      (n.stats (r.state y).medium).started = n.consumers.length) ∧
    (∀ x ≤ y, ∀ n₀ ∈ (r.state x).nodes[i]?,
      n₀.consumers.map (·.subscription) <+: n.consumers.map (·.subscription)) ∧
    (n.cancelled = false → n.link.isSome = true →
      (n.requests ≠ [] → ((r.state y).act (.dispatch i)).isSome = true) ∧
      (n.heard.isSome = true → n.hasRoom = true →
        ((r.state y).act (.discovery i)).isSome = true) ∧
      ∀ q, ∀ w ∈ (r.state y).writers[q]?, ∀ t deadline, w.node = i →
        w.stage = .requesting t deadline → (r.state y).isRevoked w = false →
        r.deed y = .act (.writer q) → r.Propagates i w.subscription q y ∨
          n.hasRoom = false ∧ deadline ≤ (r.state y).now ∧
          (r.state (y + 1)).journal = (r.state y).journal ++
            [.warn (.requestDropped w.subscription n.settings.writeTimeout),
              .count .requestDropped]) := by
  have hsane := r.sane y n (Array.mem_of_getElem? hn)
  obtain ⟨taken, htaken, hnames⟩ := names_of_queue hn
  have hconsumers := hsane.consumers
  refine ⟨fun hlive hrequests hheard => ⟨fun s => ?_, ?_⟩,
    ⟨hsane.tasks_le_one, ?_, hsane.running, ?_⟩,
    fun x hx n₀ hn₀ => consumers_prefix hx hn₀ hn, fun hlive hlink => ?_⟩
  · rw [hsane.tasks_eq_one_iff hlive, hnames, List.mem_eraseDups]
    rw [hrequests, List.append_nil] at htaken
    rw [← htaken]
    refine ⟨(wanted_of_requested r i y).1 s, fun hwanted => ?_⟩
    rcases Wanted.requested hwanted hn with hcancelled | hwaits | hmem
    · cases hlive.symm.trans hcancelled
    · cases hheard.symm.trans hwaits
    · exact hmem
  · rw [htaken, hrequests, List.append_nil, hconsumers, hnames]
  · rw [htaken, List.eraseDups_append, hconsumers, hnames]
    exact List.prefix_append _ _
  · show n.started.names.length = _
    rw [← hconsumers, List.length_map]
  · obtain ⟨hdispatch, hdiscovery⟩ := acts_of_waiting hn hlive hlink
    exact ⟨hdispatch, hdiscovery, fun q w hw t deadline hnode hstage hrevoked hd =>
      propagates_or_drops hn hlink hw hnode hstage hd ⟨hrevoked, hlive⟩⟩

/-- The control channel brings bytes that are no text, an empty name, and one name twice; then the
node itself writes, and hears of it. -/
def noisyDeeds : List Deed :=
  List.flatten [
    [.connect false {}, .join {} (some 0) none, .act (.discovery 0),
      .outside ⟨controlChannel, ⟨#[255]⟩⟩, .outside ⟨controlChannel, ⟨#[]⟩⟩,
      .outside ⟨controlChannel, "b".toUTF8⟩, .outside ⟨controlChannel, "b".toUTF8⟩,
      .call 0 none "a" Node.dottedWrite.envelope],
    List.replicate 8 (.act (.writer 0)), List.replicate 8 (.act (.discovery 0)),
    List.replicate 4 (.act (.dispatch 0))]

def noisy : Run := .play noisyDeeds (by decide +kernel)

/-- In the end there is one task for each of the two names. -/
theorem one_task_each_noisy : ∃ n ∈ (noisy.state 28).nodes[0]?,
    n.consumers.map (·.subscription) = ["a", "b"] ∧ n.tasks "b" = 1 ∧
      (n.stats (noisy.state 28).medium).started = 2 := by
  have hrest : ((noisy.state 28).nodes[0]?.map fun n => (n.cancelled, n.requests, n.heard)) =
      some (false, [], none) := by decide +kernel
  obtain ⟨n, hn, he⟩ := Option.map_eq_some_iff.mp hrest
  obtain ⟨hlive, he⟩ := Prod.mk.inj he
  obtain ⟨hrequests, hheard⟩ := Prod.mk.inj he
  obtain ⟨hdrained, ⟨-, -, -, hstarted⟩, -⟩ := noisy.one_task_each hn
  obtain ⟨htasks, hconsumers⟩ := hdrained hlive hrequests hheard
  have hnames : (noisy.requested 0 28).eraseDups = ["a", "b"] := by decide +kernel
  have hlistens : ((noisy.state 18).nodes[0]?.map fun n => (n.cancelled, n.heard, n.discovery)) =
      some (false, none, .listening 0) := by decide +kernel
  have hreceives : noisy.Receives 0 18 ⟨controlChannel, "b".toUTF8⟩ := by
    obtain ⟨n₀, hn₀, he⟩ := Option.map_eq_some_iff.mp hlistens
    obtain ⟨hcancelled, he⟩ := Prod.mk.inj he
    obtain ⟨hnone, hl⟩ := Prod.mk.inj he
    exact ⟨rfl, n₀, hn₀, hcancelled, hnone, 0, hl, by decide +kernel⟩
  refine ⟨n, hn, hconsumers.trans hnames,
    (htasks "b").mpr (.inl ⟨18, by decide, _, hreceives, ?_⟩), ?_⟩
  · exact ⟨Json.Text.fromUTF8?_toByteArray "b", by decide⟩
  · rw [hstarted, ← List.length_map (·.subscription), hconsumers, hnames]
    rfl

end Run

end Telemetry
