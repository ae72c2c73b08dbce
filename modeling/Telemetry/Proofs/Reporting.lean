import Telemetry.Proofs.Requests

/-!
# What a cluster reports

Every deed adds its reports to the journal, and all of them concern one node. A write reports when
it has announced its subscription and when it is over; a loop reports when it starts an epoch or a
consumer. Whatever else is reported has nothing to do with these.

* `Signal.counter?`, `Signal.isAside`: the counter of a report, and reports of no interest here;
* **`Attempt.ends_of_act`**: how a bounded publish ends, and why;
* `Writer.Accounts`, **`Writer.act_accounts`**: what a move of a write reports;
* `Deed.Told`, **`Deed.does_told`**: what a deed reports;
* `Run.reports`: the reports of a node; **`Run.reports_eq_journal`**: the journal holds no others.
-/

namespace Telemetry

/-! ## Reports -/

namespace Counter

/-- What writes count, and no loop does. -/
def isWritten : Counter → Bool
  | publish _ _ | announcement | missingTarget => true
  | _ => false

theorem isWritten_of_beq {c c' : Counter} (hc : c.isWritten = true) (h : (c' == c) = true) :
    c'.isWritten = true := by
  rwa [eq_of_beq h]

end Counter

namespace Signal

/-- The counter that a report increments. -/
def counter? : Signal → Option Counter
  | count c => some c
  | _ => none

/-- The value to which a report sets a gauge. -/
def level? (g : Gauge) : Signal → Option ℕ
  | set h v => if h = g then some v else none
  | _ => none

/-- A report of an epoch that starts, or of a consumer. -/
def isStart : Signal → Bool
  | count .topologyReset | count .channelStarted | set .activeChannels _ => true
  | _ => false

/-- A report that is neither of a loop that starts something nor of what writes count. -/
def isAside (x : Signal) : Bool := !x.isStart && x.counter?.all fun c => !c.isWritten

variable {l : List Signal} {c : Counter}

theorem not_start_of_aside {x : Signal} (h : x.isAside = true) : x.isStart = false := by
  rw [isAside, Bool.and_eq_true, Bool.not_eq_true'] at h
  exact h.1

theorem countP_of_aside {p : Counter → Bool} (hp : ∀ c, p c = true → c.isWritten = true)
    (hl : ∀ x ∈ l, x.isAside = true) : (l.filterMap counter?).countP p = 0 := by
  refine List.countP_eq_zero.mpr fun c hc hpc => ?_
  obtain ⟨x, hx, hxc⟩ := List.mem_filterMap.mp hc
  have haside := hl x hx
  rw [isAside, hxc, Option.all_some, hp c hpc] at haside
  simp at haside

theorem count_of_aside (hc : c.isWritten = true) (hl : ∀ x ∈ l, x.isAside = true) :
    (l.filterMap counter?).count c = 0 :=
  countP_of_aside (fun _ => Counter.isWritten_of_beq hc) hl

theorem counters_of_not_start (hl : ∀ x ∈ l, x.isStart = false) :
    (l.filterMap counter?).count .topologyReset = 0 ∧
      (l.filterMap counter?).count .channelStarted = 0 ∧
      l.filterMap (level? .activeChannels) = [] := by
  have hcount : ∀ c, (count c).isStart = true → (l.filterMap counter?).count c = 0 :=
    fun c hc => List.count_eq_zero.mpr fun hmem => by
      obtain ⟨x, hx, hxc⟩ := List.mem_filterMap.mp hmem
      cases x with
      | count c' =>
        obtain rfl := Option.some.inj hxc
        cases (hl _ hx).symm.trans hc
      | set | warn => cases hxc
  refine ⟨hcount _ rfl, hcount _ rfl, List.filterMap_eq_nil_iff.mpr fun x hx => ?_⟩
  cases x with
  | set g v =>
    refine if_neg fun hg => ?_
    subst hg
    cases hl _ hx
  | count | warn => rfl

end Signal

/-! ## Bounded publishing -/

namespace Attempt

variable {μ : Type} [Medium μ] {now link : ℕ} {limit : Duration} {cancelled : Bool} {msg : Message}
  {m m' : μ} {a : Attempt} {x : Except SyncError Unit}

/-- The medium has taken its time. -/
def Due (link now : ℕ) (m : μ) : Attempt → Prop
  | starting => Medium.delay m link = 0
  | pausing ready _ => ready ≤ now

/-- How a bounded publish ends, and why. A cancelled token comes before all else. -/
inductive Ends (link : ℕ) (limit : Duration) (cancelled : Bool) (now : ℕ) (msg : Message) (m : μ)
    (a : Attempt) : Except SyncError Unit → Prop
  | cancelled : cancelled = true → Ends link limit cancelled now msg m a (.error .cancelled)
  | sent {m' : μ} : cancelled = false → a.Due link now m →
      Medium.publish m link msg = (m', .ok ()) → Ends link limit cancelled now msg m a (.ok ())
  | refused {m' : μ} {e : TransportError} : cancelled = false → a.Due link now m →
      Medium.publish m link msg = (m', .error e) →
      Ends link limit cancelled now msg m a (.error (.publish e))
  | late {ready deadline : ℕ} : cancelled = false → a = .pausing ready deadline → now < ready →
      deadline ≤ now → Ends link limit cancelled now msg m a (.error (.timeout msg.channel limit))

/-- **A bounded publish ends in one of these ways.** -/
theorem ends_of_act (h : a.act link limit cancelled now msg m = some (m', .finished x)) :
    a.Ends link limit cancelled now msg m x := by
  have hsend : cancelled = false → a.Due link now m → send m link msg = (m', .finished x) →
      a.Ends link limit cancelled now msg m x := fun hlive hdue hs => by
    unfold send at hs
    split at hs
    · rename_i hpublish
      obtain rfl := Progress.finished.inj (Prod.mk.inj hs).2
      exact .sent hlive hdue hpublish
    · rename_i hpublish
      obtain rfl := Progress.finished.inj (Prod.mk.inj hs).2
      exact .refused hlive hdue hpublish
  unfold act at h
  split at h
  · rename_i hcancelled
    obtain rfl := Progress.finished.inj (Prod.mk.inj (Option.some.inj h)).2
    exact .cancelled hcancelled
  · rename_i hlive
    have hlive := Bool.eq_false_iff.mpr hlive
    cases a with
    | starting =>
      dsimp only at h
      split at h
      · rename_i hdelay
        exact hsend hlive hdelay (Option.some.inj h)
      · cases h
    | pausing ready deadline =>
      dsimp only at h
      split at h
      · rename_i hready
        exact hsend hlive hready (Option.some.inj h)
      · rename_i hready
        split at h
        · rename_i hlate
          obtain rfl := Progress.finished.inj (Prod.mk.inj (Option.some.inj h)).2
          exact .late hlive rfl (Nat.lt_of_not_ge hready) hlate
        · cases h

end Attempt

/-! ## Writes -/

namespace Writer

variable {μ : Type} [Medium μ] {now : ℕ} {revoked : Bool} {m : μ} {n : Node} {w : Writer}
  {z : Written μ}

/-- What a move of a write reports. -/
inductive Accounts (now : ℕ) (revoked : Bool) (m : μ) (n : Node) (w : Writer) (z : Written μ) :
    Prop
  /-- Its peers have not been told anything. -/
  | early : w.stage.rank < 2 → (z.stage.rank < 2 ∨ z.stage = .marking ∨ z.stage = .done) →
      z.signals = [] → Accounts now revoked m n w z
  | on : 2 ≤ w.stage.rank → z.stage ≠ .done → z.stage.isAnnouncing = w.stage.isAnnouncing →
      (w.stage = .entering → n.announced.contains w.subscription = true) →
      (∀ x ∈ z.signals, x.isAside = true) → Accounts now revoked m n w z
  | enter : w.stage = .entering → n.announced.contains w.subscription = false →
      z.stage = .announcing .starting → z.signals = [] → Accounts now revoked m n w z
  | announced {link : ℕ} {a : Attempt} {x : Except SyncError Unit} : n.link = some link →
      w.stage = .announcing a → a.Ends link n.settings.writeTimeout (revoked || n.cancelled) now
        w.announcement m x →
      z.stage = .resolving → z.signals = w.announcedSignals x → Accounts now revoked m n w z
  | untargeted : w.stage = .resolving → w.envelope.target? = none → z.stage = .done →
      z.signals = w.untargetedSignals → Accounts now revoked m n w z
  | published {link : ℕ} {t : String} {a : Attempt} {x : Except SyncError Unit} :
      n.link = some link → w.stage = .publishing t a →
      a.Ends link n.settings.writeTimeout (revoked || n.cancelled) now (w.data t) m x →
      z.stage = .done → z.signals = w.publishedSignals t x → Accounts now revoked m n w z

/-- A write reports nothing before it looks whether its subscription was announced. -/
theorem Accounts.of_early (hearly : w.stage.rank < 2) (h : w.act now revoked m n = some z) :
    w.Accounts now revoked m n z := by
  cases hstage : w.stage with
  | storing =>
    simp only [act, hstage] at h
    obtain rfl := Option.some.inj h
    exact .early hearly (.inl (by simp [Stage.rank])) rfl
  | checking =>
    cases hlink : n.link with
    | none =>
      simp only [act, hstage, hlink] at h
      obtain rfl := Option.some.inj h
      exact .early hearly (.inr (.inr rfl)) rfl
    | some link =>
      simp only [act, hstage, hlink] at h
      obtain rfl := Option.some.inj h
      cases hcancelled : n.cancelled with
      | true => exact .early hearly (.inr (.inr (by simp))) rfl
      | false => exact .early hearly (.inr (.inl (by simp))) rfl
  | marking | entering | announcing | resolving | requesting | publishing | done =>
    exact absurd hearly (by simp [hstage, Stage.rank])

/-- **Every move of a write reports this**, where a write gets further than looking only if its node
has a link. -/
theorem act_accounts (hlinked : 2 ≤ w.stage.rank → n.link.isSome = true)
    (h : w.act now revoked m n = some z) : w.Accounts now revoked m n z := by
  by_cases hearly : w.stage.rank < 2
  · exact .of_early hearly h
  have hlate : 2 ≤ w.stage.rank := Nat.le_of_not_lt hearly
  obtain ⟨link, hlink⟩ := Option.isSome_iff_exists.mp (hlinked hlate)
  have on : w.stage ≠ .entering → z.stage ≠ .done →
      z.stage.isAnnouncing = w.stage.isAnnouncing → (∀ x ∈ z.signals, x.isAside = true) →
      w.Accounts now revoked m n z := fun hne hgoes hsame haside =>
    .on hlate hgoes hsame (fun hst => absurd hst hne) haside
  cases hstage : w.stage with
  | storing | checking => exact absurd hlate (by simp [hstage, Stage.rank])
  | done =>
    simp only [act, hstage] at h
    cases h
  | marking =>
    simp only [act, hstage, hlink] at h
    obtain rfl := Option.some.inj h
    refine on (by simp [hstage]) ?_ ?_ (by simp)
    · dsimp only
      split <;> simp
    · dsimp only
      split <;> simp [hstage, Stage.isAnnouncing]
  | entering =>
    simp only [act, hstage, hlink, Roster.enter] at h
    obtain rfl := Option.some.inj h
    by_cases hknown : n.announced.contains w.subscription = true
    · refine .on hlate ?_ ?_ (fun _ => hknown) (by simp)
      · simp [hknown]
      · simp [hstage, hknown, Stage.isAnnouncing]
    · have hnew := Bool.eq_false_iff.mpr hknown
      exact .enter hstage hnew (by simp [hnew]) rfl
  | announcing a =>
    simp only [act, hstage, hlink] at h
    obtain ⟨⟨m', p⟩, hact, rfl⟩ := Option.map_eq_some_iff.mp h
    cases p with
    | going a' =>
      exact on (by simp [hstage]) (by simp) (by simp [hstage, Stage.isAnnouncing])
        (by simp)
    | finished x => exact .announced hlink hstage (Attempt.ends_of_act hact) rfl rfl
  | resolving =>
    simp only [act, hstage, hlink] at h
    cases ht : w.envelope.target? with
    | none =>
      rw [ht] at h
      obtain rfl := Option.some.inj h
      exact .untargeted hstage ht rfl rfl
    | some t =>
      rw [ht] at h
      obtain rfl := Option.some.inj h
      exact on (by simp [hstage]) (by simp) (by simp [hstage, Stage.isAnnouncing])
        (by simp)
  | requesting t deadline =>
    have hquiet := on (by simp [hstage])
    rcases act_requesting hstage hlink h with ⟨-, rfl⟩ | ⟨-, -, rfl⟩ | ⟨-, -, -, rfl⟩ <;>
      exact hquiet (by simp) (by simp [hstage, Stage.isAnnouncing])
        (by simp [Signal.isAside, Signal.isStart, Signal.counter?, Counter.isWritten])
  | publishing t a =>
    simp only [act, hstage, hlink] at h
    obtain ⟨⟨m', p⟩, hact, rfl⟩ := Option.map_eq_some_iff.mp h
    cases p with
    | going a' =>
      exact on (by simp [hstage]) (by simp) (by simp [hstage, Stage.isAnnouncing])
        (by simp)
    | finished x => exact .published hlink hstage (Attempt.ends_of_act hact) rfl rfl

end Writer

/-! ## Loops and stops -/

theorem Listener.aside_of_act {μ : Type} [Medium μ] {post : Post} {link now : ℕ} {cancelled : Bool}
    {m : μ} {l : Listener} {h : Heard μ} (hact : l.act post link cancelled now m = some h) :
    ∀ x ∈ h.signals, x.isAside = true := by
  cases l with
  | attempting failures delay =>
    simp only [act] at hact
    split at hact
    · obtain rfl := Option.some.inj hact
      simp
    · split at hact
      · obtain rfl := Option.some.inj hact
        simp
      · obtain rfl := Option.some.inj hact
        simp [Signal.isAside, Signal.isStart, Signal.counter?]
  | resting wake failures delay =>
    simp only [act] at hact
    split at hact
    · obtain rfl := Option.some.inj hact
      simp
    · split at hact
      · obtain rfl := Option.some.inj hact
        simp
      · cases hact
  | listening σ =>
    simp only [act] at hact
    split at hact
    · obtain rfl := Option.some.inj hact
      simp
    · split at hact
      · obtain rfl := Option.some.inj hact
        simp
      · obtain rfl := Option.some.inj hact
        simp
      · obtain rfl := Option.some.inj hact
        simp
      · obtain rfl := Option.some.inj hact
        simp [Signal.isAside, Signal.isStart, Signal.counter?]
      · cases hact
      · obtain rfl := Option.some.inj hact
        simp [Signal.isAside, Signal.isStart, Signal.counter?, Counter.isWritten]
  | ended => cases hact

theorem Judgement.aside_signals (j : Judgement) (channel : String) :
    ∀ x ∈ j.signals channel, x.isAside = true := by
  cases j <;> simp [signals, Signal.isAside, Signal.isStart, Signal.counter?, Counter.isWritten]

theorem aside_announcedName (payload : ByteArray) :
    ∀ x ∈ (announcedName payload).2, x.isAside = true := by
  unfold announcedName
  split <;> simp [Signal.isAside, Signal.isStart, Signal.counter?]

namespace Node

variable {a : Network} {n n' : Node} {mv : Move Network} {now k : ℕ} {signals : List Signal}

theorem aside_of_discover (h : n.discover now a = some mv) :
    ∀ x ∈ mv.signals, x.isAside = true := by
  unfold discover at h
  split at h
  · cases h
  · split at h
    · split at h
      · obtain rfl := Option.some.inj h
        simp
      · split at h
        · obtain rfl := Option.some.inj h
          simp
        · cases h
    · obtain ⟨got, hact, rfl⟩ := Option.map_eq_some_iff.mp h
      cases got.message with
      | none => exact Listener.aside_of_act hact
      | some msg =>
        refine List.forall_mem_append.mpr ⟨Listener.aside_of_act hact, ?_⟩
        exact aside_announcedName msg.payload

theorem aside_of_consume (h : n.consume now k a = some mv) :
    ∀ x ∈ mv.signals, x.isAside = true := by
  unfold consume at h
  split at h
  · obtain ⟨got, hact, rfl⟩ := Option.map_eq_some_iff.mp h
    cases got.message with
    | none => exact Listener.aside_of_act hact
    | some msg =>
      refine List.forall_mem_append.mpr ⟨Listener.aside_of_act hact, ?_⟩
      exact Judgement.aside_signals _ _
  · cases h

theorem turn_signals (h : n.turn now = some (n', signals)) :
    n.cancelled = true ∧ signals = [] ∨ n.cancelled = false ∧
      signals = [.count .topologyReset, .set .topologyCleared n.announced.size] := by
  unfold turn at h
  split at h
  · cases h
  · split at h
    · rename_i hcancelled
      exact .inl ⟨hcancelled, (Prod.mk.inj (Option.some.inj h)).2.symm⟩
    · rename_i hlive
      split at h
      · exact .inr ⟨Bool.eq_false_iff.mpr hlive, (Prod.mk.inj (Option.some.inj h)).2.symm⟩
      · cases h

theorem dispatchNext_signals (h : n.dispatchNext = some (n', signals)) :
    n'.started = n.started ∧ signals = [] ∨ n'.started.size = n.started.size + 1 ∧
      signals = [.count .channelStarted, .set .activeChannels n'.started.size] := by
  unfold dispatchNext at h
  split at h
  · cases h
  · split at h
    · obtain ⟨rfl, rfl⟩ := Prod.mk.inj (Option.some.inj h)
      exact .inl ⟨rfl, rfl⟩
    · cases h
  · split at h
    · obtain ⟨rfl, rfl⟩ := Prod.mk.inj (Option.some.inj h)
      exact .inl ⟨rfl, rfl⟩
    · split at h
      · cases h
      · have hstart := Option.some.inj h
        unfold start at hstart
        split at hstart
        · obtain ⟨rfl, rfl⟩ := Prod.mk.inj hstart
          exact .inl ⟨rfl, rfl⟩
        · rename_i hnew
          obtain ⟨rfl, rfl⟩ := Prod.mk.inj hstart
          refine .inr ⟨?_, rfl⟩
          show (n.started.add _).size = _
          rw [Roster.size_add, if_neg hnew]

theorem aside_of_create (settings : Settings) (link : Option ℕ) (now : ℕ) :
    ∀ x ∈ (create settings link now).2, x.isAside = true := by
  cases link <;> simp [create, Signal.isAside, Signal.isStart, Signal.counter?]

end Node

theorem Stopper.aside_of_act {a : Network} {n : Node} {s : Stopper} {h : Halted Network}
    (hact : s.act a n = some h) : ∀ x ∈ h.signals, x.isAside = true := by
  unfold Stopper.act at hact
  split at hact
  · obtain rfl := Option.some.inj hact
    simp
  · obtain rfl := Option.some.inj hact
    simp
  · obtain rfl := Option.some.inj hact
    simp
  · split at hact
    · cases hact
    · obtain rfl := Option.some.inj hact
      simp
  · split at hact
    · obtain rfl := Option.some.inj hact
      simp
    · obtain rfl := Option.some.inj hact
      simp
  · obtain rfl := Option.some.inj hact
    simp [Signal.isAside, Signal.isStart, Signal.counter?]
  · cases hact

/-! ## Deeds -/

namespace Cluster

variable {c c' : Cluster Network} {i j : ℕ} {n n' : Node}

/-- The number of subscriptions that the node `i` consumes. -/
def consumed (c : Cluster Network) (i : ℕ) : ℕ := (c.nodes[i]?).elim 0 (·.started.size)

/-- The node that a deed concerns. -/
def author? (c : Cluster Network) : Deed → Option ℕ
  | .act (.discovery i) | .act (.epoch i) | .act (.dispatch i) | .act (.consumer i _) => some i
  | .act (.writer q) => c.writers[q]?.map (·.node)
  | .act (.stopper s) => c.stoppers[s]?.map (·.node)
  | .join _ _ _ => some c.nodes.size
  | _ => none

theorem consumed_of_set (hn : c.nodes[j]? = some n) (hnodes : c'.nodes = c.nodes.setIfInBounds j n')
    (i : ℕ) : c'.consumed i = if i = j then n'.started.size else c.consumed i := by
  rw [consumed, consumed, hnodes]
  by_cases hij : i = j
  · subst hij
    rw [if_pos rfl, Array.getElem?_setIfInBounds_self_of_lt (Array.getElem?_eq_some_iff.mp hn).1,
      Option.elim_some]
  · rw [if_neg hij, Array.getElem?_setIfInBounds_ne (Ne.symm hij)]

theorem consumed_of_same (hn : c.nodes[j]? = some n)
    (hnodes : c'.nodes = c.nodes.setIfInBounds j n') (hsame : n'.started = n.started) (i : ℕ) :
    c'.consumed i = c.consumed i := by
  rw [consumed_of_set hn hnodes]
  by_cases hij : i = j
  · subst hij
    rw [if_pos rfl, hsame, consumed, hn, Option.elim_some]
  · rw [if_neg hij]

theorem consumed_of_modify {f : Node → Node} (hnodes : c'.nodes = c.nodes.modify j f)
    (hf : ∀ n, (f n).started = n.started) (i : ℕ) : c'.consumed i = c.consumed i := by
  rw [consumed, consumed, hnodes, Array.getElem?_modify]
  by_cases hij : j = i
  · rw [if_pos hij]
    cases c.nodes[i]? with
    | none => rfl
    | some n => simp [hf n]
  · rw [if_neg hij]

theorem release_tells (c : Cluster Network) (i : ℕ) :
    (c.release i).journal = c.journal ∧ ∀ j, (c.release i).consumed j = c.consumed j := by
  rcases release_cases c i with heq | ⟨n, hn, heq⟩
  · rw [heq]
    exact ⟨rfl, fun _ => rfl⟩
  · rw [heq]
    exact ⟨rfl, consumed_of_same hn rfl rfl⟩

end Cluster

namespace Deed

variable {c c' : Cluster Network} {d : Deed}

/-- What a deed reports, and what it does to the number of subscriptions that a node consumes. -/
inductive Told (c c' : Cluster Network) (d : Deed) (l : List Signal) : Prop
  | write {q : ℕ} {w : Writer} {n : Node} {z : Written Network} : d = .act (.writer q) →
      c.writers[q]? = some w → c.nodes[w.node]? = some n →
      w.act c.now (c.isRevoked w) c.medium n = some z →
      (∀ i, c'.consumed i = c.consumed i) → l = z.signals → Told c c' d l
  | reset {i : ℕ} {n : Node} : d = .act (.epoch i) → c.nodes[i]? = some n →
      n.cancelled = false → (∀ j, c'.consumed j = c.consumed j) →
      l = [.count .topologyReset, .set .topologyCleared n.announced.size] → Told c c' d l
  | start {i : ℕ} : d = .act (.dispatch i) → c'.consumed i = c.consumed i + 1 →
      (∀ j, j ≠ i → c'.consumed j = c.consumed j) →
      l = [.count .channelStarted, .set .activeChannels (c'.consumed i)] → Told c c' d l
  | aside : (∀ q, d ≠ .act (.writer q)) →
      (∀ i n, d = .act (.epoch i) → c.nodes[i]? = some n → n.cancelled = true) →
      (∀ i, c'.consumed i = c.consumed i) → (∀ x ∈ l, x.isAside = true) → Told c c' d l

/-- A deed that is no move of a task reports nothing of interest. -/
theorem Told.outside {l : List Signal} (hd : d.task? = none)
    (hconsumed : ∀ i, c'.consumed i = c.consumed i) (hl : ∀ x ∈ l, x.isAside = true) :
    Told c c' d l := by
  refine .aside (fun q hq => ?_) (fun i n hi => ?_) hconsumed hl
  · cases hd.symm.trans (task?_eq_some_iff.mpr hq)
  · cases hd.symm.trans (task?_eq_some_iff.mpr hi)

theorem act_told {t : Task} (hact : c.act t = some c') :
    ∃ l, c'.journal = c.journal ++ l ∧ Told c c' (.act t) l := by
  cases t with
  | writer q =>
    obtain ⟨w, n, z, n', hw, hn, hz, hn', rfl⟩ := Cluster.actWriter_cases hact
    have hsame : n'.started = n.started := by
      have hstarted : z.node.started = n.started := by
        cases Writer.act_outcome hz <;> rfl
      rcases hn' with rfl | ⟨-, rfl⟩
      · exact hstarted
      · exact hstarted
    exact ⟨_, rfl, .write rfl hw hn hz (Cluster.consumed_of_same hn rfl hsame) rfl⟩
  | stopper q =>
    obtain ⟨s, -, n, hn, h, hh, rfl⟩ := Cluster.act_stopper_iff.mp hact
    obtain ⟨-, state, cancelled, handlesTaken, -, hnode⟩ := Stopper.act_eq hh
    refine ⟨_, rfl, .aside (by simp) (by simp) ?_ (Stopper.aside_of_act hh)⟩
    exact Cluster.consumed_of_same hn rfl (by rw [hnode])
  | discovery i =>
    obtain ⟨n, hn, mv, hmv, rfl⟩ := Cluster.act_discovery_iff.mp hact
    refine ⟨_, rfl, .aside (by simp) (by simp) ?_ (Node.aside_of_discover hmv)⟩
    refine Cluster.consumed_of_same hn rfl ?_
    obtain ⟨link, -, ⟨-, name, -, ⟨-, hnode⟩ | ⟨-, hnode⟩⟩ | ⟨-, h, -, -, hnode⟩⟩ :=
      Node.discover_cases hmv
    · rw [hnode]
    · rw [hnode]
    · rw [hnode]
  | consumer i k =>
    obtain ⟨n, hn, mv, hmv, rfl⟩ := Cluster.act_consumer_iff.mp hact
    refine ⟨_, rfl, .aside (by simp) (by simp) ?_ (Node.aside_of_consume hmv)⟩
    obtain ⟨link, co, h, -, -, -, -, store, hnode⟩ := Node.consume_cases hmv
    exact Cluster.consumed_of_same hn rfl (by rw [hnode])
  | epoch i =>
    obtain ⟨n, hn, n', signals, hturn, rfl⟩ := Cluster.act_epoch_iff.mp hact
    have hsame : n'.started = n.started := by
      rcases Node.turn_cases hturn with ⟨-, rfl⟩ | ⟨-, time, rfl⟩
      · rfl
      · rfl
    have hconsumed : ∀ j, (c.setNode i n' signals).consumed j = c.consumed j :=
      Cluster.consumed_of_same hn rfl hsame
    refine ⟨signals, rfl, ?_⟩
    rcases Node.turn_signals hturn with ⟨hcancelled, rfl⟩ | ⟨hlive, hsignals⟩
    · refine .aside (by simp) (fun j m hj hm => ?_) hconsumed (by simp)
      obtain rfl := Task.epoch.inj (Deed.act.inj hj)
      obtain rfl := Option.some.inj (hn.symm.trans hm)
      exact hcancelled
    · exact .reset rfl hn hlive hconsumed hsignals
  | dispatch i =>
    obtain ⟨n, hn, n', signals, hdispatch, rfl⟩ := Cluster.act_dispatch_iff.mp hact
    have hset : ∀ j, (c.setNode i n' signals).consumed j =
        if j = i then n'.started.size else c.consumed j := Cluster.consumed_of_set hn rfl
    have hconsumed : c.consumed i = n.started.size := by
      rw [Cluster.consumed, hn, Option.elim_some]
    refine ⟨signals, rfl, ?_⟩
    rcases Node.dispatchNext_signals hdispatch with ⟨hsame, rfl⟩ | ⟨hsize, hsignals⟩
    · exact .aside (by simp) (by simp) (Cluster.consumed_of_same hn rfl hsame) (by simp)
    · refine .start rfl ?_ (fun j hj => ?_) ?_
      · rw [hset, if_pos rfl, hsize, hconsumed]
      · rw [hset, if_neg hj]
      · rw [hset, if_pos rfl, hsignals]

/-- **The journal grows by what a deed reports**, and that is one of a few things. -/
theorem does_told (h : d.does c = some c') :
    ∃ l, c'.journal = c.journal ++ l ∧ Told c c' d l := by
  cases d with
  | act t => exact act_told h
  | connect | call | stop | revoke | disturb | outside | clock =>
    obtain rfl := Option.some.inj h
    exact ⟨[], (List.append_nil _).symm, .outside rfl (fun _ => rfl) (by simp)⟩
  | join settings link readFault =>
    obtain rfl := Option.some.inj h
    refine ⟨_, rfl, .outside rfl (fun i => ?_) (Node.aside_of_create settings link c.now)⟩
    show (((c.nodes.push _)[i]?).elim 0 _ : ℕ) = _
    rw [Array.getElem?_push, Cluster.consumed]
    split
    · rename_i hi
      rw [Array.getElem?_eq_none (by omega)]
      cases link <;> rfl
    · rfl
  | tend i f =>
    obtain rfl := Option.some.inj h
    refine ⟨[], (List.append_nil _).symm, .outside rfl ?_ (by simp)⟩
    exact Cluster.consumed_of_modify (f := fun n => { n with store := f n.store }) rfl fun _ => rfl
  | forget i =>
    obtain rfl := Option.some.inj h
    obtain ⟨hjournal, hconsumed⟩ := Cluster.release_tells
      { c with nodes := c.nodes.modify i fun n => { n with held := false } } i
    refine ⟨[], hjournal.trans (List.append_nil _).symm,
      .outside rfl (fun j => (hconsumed j).trans ?_) (by simp)⟩
    exact Cluster.consumed_of_modify (f := fun n => { n with held := false }) rfl (fun _ => rfl) j

theorem journal_of_author?_none (h : d.does c = some c') (hd : c.author? d = none) :
    c'.journal = c.journal := by
  cases d with
  | act t =>
    cases t with
    | writer q =>
      obtain ⟨w, n, z, n', hw, -⟩ := Cluster.actWriter_cases h
      simp [Cluster.author?, hw] at hd
    | stopper q =>
      obtain ⟨s, hs, -⟩ := Cluster.act_stopper_iff.mp h
      simp [Cluster.author?, hs] at hd
    | discovery | epoch | dispatch | consumer => cases hd
  | join => cases hd
  | connect | call | stop | revoke | disturb | outside | clock | tend =>
    obtain rfl := Option.some.inj h
    rfl
  | forget i =>
    obtain rfl := Option.some.inj h
    exact (Cluster.release_tells
      { c with nodes := c.nodes.modify i fun n => { n with held := false } } i).1

end Deed

/-! ## Reports of a run -/

namespace Run

variable {r : Run} {i k y : ℕ}

/-- What the deed at a time reports. -/
def told (r : Run) (k : ℕ) : List Signal :=
  (r.state (k + 1)).journal.drop (r.state k).journal.length

/-- What the deed at a time reports of the node `i`. -/
def toldBy (r : Run) (i k : ℕ) : List Signal :=
  if (r.state k).author? (r.deed k) = some i then r.told k else []

/-- The reports of the node `i` so far. -/
def reports (r : Run) (i y : ℕ) : List Signal := (List.range y).flatMap (r.toldBy i)

theorem told_cases (r : Run) (k : ℕ) :
    (r.state (k + 1)).journal = (r.state k).journal ++ r.told k ∧
      (r.deed k).Told (r.state k) (r.state (k + 1)) (r.told k) := by
  obtain ⟨l, hjournal, htold⟩ := Deed.does_told (r.step k)
  have hl : r.told k = l := by rw [told, hjournal, List.drop_left]
  rw [hl]
  exact ⟨hjournal, htold⟩

theorem reports_succ (r : Run) (i y : ℕ) :
    r.reports i (y + 1) = r.reports i y ++ r.toldBy i y := by
  rw [reports, List.range_succ, List.flatMap_append, List.flatMap_singleton, reports]

/-- **The journal holds the reports of nodes only**: where one node does all, they are its own. -/
theorem reports_eq_journal (h : ∀ k < y, ∀ j ∈ (r.state k).author? (r.deed k), j = i) :
    r.reports i y = (r.state y).journal := by
  induction y with
  | zero =>
    rw [r.start]
    rfl
  | succ y ih =>
    have hjournal := (r.told_cases y).1
    rw [reports_succ, ih fun k hk => h k (Nat.lt_succ_of_lt hk), toldBy]
    cases hauthor : (r.state y).author? (r.deed y) with
    | none =>
      rw [if_neg (by simp), List.append_nil, Deed.journal_of_author?_none (r.step y) hauthor]
    | some j =>
      obtain rfl := h y (Nat.lt_succ_self y) j hauthor
      rw [if_pos rfl, hjournal]

end Run

end Telemetry
