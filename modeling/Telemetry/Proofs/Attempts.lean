import Telemetry.Proofs.Keeping
import Telemetry.Proofs.Requests

/-!
# What writes try to publish

A write that its node may tell of marks the subscription. If nobody did so in this epoch, it tries
to announce it, and whatever comes of that it goes on to its data, if it has a target. Each of the
two begins unless a token is cancelled by then; nothing else begins. So what a node that is called
in turn tries to publish is told by its writes, one after the other, and its store by what they say.

* `Attempt.begins`, `Run.attempt?`: where a publish begins; `Run.attempts`: all of those of a node;
* `Run.Marked`, **`Run.marked_iff_entered`**: a write of this epoch has marked the subscription;
* `Run.Tells`: what a write that is over has tried to publish;
* `Run.Telling`, **`Run.Telling.move`**: what it has tried so far, by its stage;
* **`Run.attempted_of_published`**: whatever gets onto the bus was tried;
* **`Run.attempts_of_writes`**: what a node tries to publish, and what becomes of its store.
-/

namespace Telemetry

/-! ## Where a publish begins -/

namespace Attempt

variable {μ : Type} [Medium μ] {link now : ℕ} {limit : Duration} {cancelled : Bool} {msg : Message}
  {m m' : μ} {a : Attempt} {p : Progress}

/-- A bounded publish begins by its first move: the medium takes its time, or it has answered. It
does not begin if it is given up instead. -/
def begins (link : ℕ) (limit : Duration) (cancelled : Bool) (now : ℕ) (msg : Message) (m : μ)
    (a : Attempt) : Bool :=
  match a, (a.act link limit cancelled now msg m).map Prod.snd with
  | .starting, some (.going _) => true
  | .starting, some (.finished (.ok ())) => true
  | .starting, some (.finished (.error (.publish _))) => true
  | _, _ => false

theorem begins_iff :
    a.begins link limit cancelled now msg m = true ↔ a = .starting ∧ cancelled = false := by
  cases a with
  | pausing ready deadline => simp [begins]
  | starting =>
    cases cancelled with
    | true => simp [begins, act]
    | false =>
      simp only [begins, act, Bool.false_eq_true, if_false, true_and, iff_true]
      by_cases hdelay : Medium.delay m link = 0
      · rw [if_pos hdelay, Option.map_some, send]
        cases hpublish : Medium.publish m link msg with
        | mk b r => cases r <;> rfl
      · rw [if_neg hdelay]
        rfl

theorem act_progress (h : a.act link limit cancelled now msg m = some (m', p)) :
    (∃ r, p = .finished r) ∨
      a = .starting ∧ cancelled = false ∧
        ∃ ready deadline, p = .going (.pausing ready deadline) := by
  have hsend : Attempt.send m link msg = (m', p) → ∃ r, p = .finished r := fun hs => by
    rcases send_cases hs with ⟨-, hp⟩ | ⟨e, e', -, hp⟩
    · exact ⟨_, hp⟩
    · exact ⟨_, hp⟩
  unfold act at h
  split at h
  · exact .inl ⟨_, (Prod.mk.inj (Option.some.inj h)).2.symm⟩
  · rename_i hlive
    cases a with
    | starting =>
      dsimp only at h
      split at h
      · exact .inl (hsend (Option.some.inj h))
      · exact .inr ⟨rfl, Bool.eq_false_iff.mpr hlive, _, _,
          (Prod.mk.inj (Option.some.inj h)).2.symm⟩
    | pausing ready deadline =>
      dsimp only at h
      split at h
      · exact .inl (hsend (Option.some.inj h))
      · split at h
        · exact .inl ⟨_, (Prod.mk.inj (Option.some.inj h)).2.symm⟩
        · cases h

end Attempt

namespace Writer

variable {μ : Type} [Medium μ] {now link : ℕ} {revoked : Bool} {m : μ} {n : Node} {w : Writer}
  {a : Attempt} {t : String} {x : Written μ} {msg : Message}

/-- The message of the publish that begins by the next move of a write, if one does. -/
def attempt? (now : ℕ) (revoked : Bool) (m : μ) (n : Node) (w : Writer) : Option Message :=
  n.link.bind fun link =>
    let begins (a : Attempt) (msg : Message) : Option Message :=
      if a.begins link n.settings.writeTimeout (revoked || n.cancelled) now msg m then some msg
      else none
    match w.stage with
    | .announcing a => begins a w.announcement
    | .publishing t a => begins a (w.data t)
    | _ => none

theorem attempt?_announcing (hlink : n.link = some link) (hstage : w.stage = .announcing a) :
    w.attempt? now revoked m n =
      if a = .starting ∧ (revoked || n.cancelled) = false then some w.announcement else none := by
  simp only [attempt?, hlink, Option.bind_some, hstage, Attempt.begins_iff]

theorem attempt?_publishing (hlink : n.link = some link) (hstage : w.stage = .publishing t a) :
    w.attempt? now revoked m n =
      if a = .starting ∧ (revoked || n.cancelled) = false then some (w.data t) else none := by
  simp only [attempt?, hlink, Option.bind_some, hstage, Attempt.begins_iff]

/-- **What a write tries to publish** is its announcement or its data, at the first move of either
and as long as no token is cancelled. -/
theorem attempt?_eq_some_iff : w.attempt? now revoked m n = some msg ↔
    n.link.isSome = true ∧ (revoked || n.cancelled) = false ∧
      (w.stage = .announcing .starting ∧ msg = w.announcement ∨
        ∃ t, w.stage = .publishing t .starting ∧ msg = w.data t) := by
  cases hlink : n.link with
  | none => simp [attempt?, hlink]
  | some link =>
    cases hstage : w.stage with
    | announcing a =>
      rw [attempt?_announcing hlink hstage, Option.ite_none_right_eq_some]
      constructor
      · rintro ⟨⟨rfl, hlive⟩, hmsg⟩
        exact ⟨rfl, hlive, .inl ⟨rfl, (Option.some.inj hmsg).symm⟩⟩
      · rintro ⟨-, hlive, ⟨hst, rfl⟩ | ⟨t, hst, -⟩⟩
        · obtain rfl := Stage.announcing.inj hst
          exact ⟨⟨rfl, hlive⟩, rfl⟩
        · cases hst
    | publishing t a =>
      rw [attempt?_publishing hlink hstage, Option.ite_none_right_eq_some]
      constructor
      · rintro ⟨⟨rfl, hlive⟩, hmsg⟩
        exact ⟨rfl, hlive, .inr ⟨t, rfl, (Option.some.inj hmsg).symm⟩⟩
      · rintro ⟨-, hlive, ⟨hst, -⟩ | ⟨t', hst, rfl⟩⟩
        · cases hst
        · obtain ⟨rfl, rfl⟩ := Stage.publishing.inj hst
          exact ⟨⟨rfl, hlive⟩, rfl⟩
    | storing | checking | marking | entering | resolving | requesting | done =>
      simp [attempt?, hlink, hstage]

theorem act_announcing (hlink : n.link = some link) (hstage : w.stage = .announcing a)
    (h : w.act now revoked m n = some x) : x.stage = .resolving ∨
      a = .starting ∧ (revoked || n.cancelled) = false ∧
        ∃ ready deadline, x.stage = .announcing (.pausing ready deadline) := by
  obtain ⟨n, rfl⟩ : ∃ n' : Node, n = { n' with link := some link } := ⟨n, by rw [← hlink]⟩
  simp only [act, hstage] at h
  obtain ⟨⟨m', p⟩, hact, rfl⟩ := Option.map_eq_some_iff.mp h
  rcases Attempt.act_progress hact with ⟨r, rfl⟩ | ⟨rfl, hlive, ready, deadline, rfl⟩
  · exact .inl rfl
  · exact .inr ⟨rfl, hlive, ready, deadline, rfl⟩

theorem act_publishing (hlink : n.link = some link) (hstage : w.stage = .publishing t a)
    (h : w.act now revoked m n = some x) : x.stage = .done ∨
      a = .starting ∧ (revoked || n.cancelled) = false ∧
        ∃ ready deadline, x.stage = .publishing t (.pausing ready deadline) := by
  obtain ⟨n, rfl⟩ : ∃ n' : Node, n = { n' with link := some link } := ⟨n, by rw [← hlink]⟩
  simp only [act, hstage] at h
  obtain ⟨⟨m', p⟩, hact, rfl⟩ := Option.map_eq_some_iff.mp h
  rcases Attempt.act_progress hact with ⟨r, rfl⟩ | ⟨rfl, hlive, ready, deadline, rfl⟩
  · exact .inl rfl
  · exact .inr ⟨rfl, hlive, ready, deadline, rfl⟩

theorem act_alone (hlink : n.link = none) (h : w.act now revoked m n = some x) :
    w.stage = .storing ∧ x.stage = .checking ∨ w.stage ≠ .storing ∧ x.stage = .done := by
  by_cases hstoring : w.stage = .storing
  · simp only [act, hstoring] at h
    obtain rfl := Option.some.inj h
    exact .inl ⟨hstoring, rfl⟩
  · by_cases hdone : w.stage = .done
    · simp [act, hdone] at h
    · simp only [act, hlink] at h
      obtain rfl := Option.some.inj h
      exact .inr ⟨hstoring, rfl⟩

end Writer

/-! ## Attempts of a run -/

/-- Neither the caller's token of the write `q` nor that of its node is cancelled. -/
def Cluster.Live (c : Cluster Network) (q : ℕ) : Prop :=
  ∃ w ∈ c.writers[q]?, ∃ n ∈ c.nodes[w.node]?, c.isRevoked w = false ∧ n.cancelled = false

theorem Cluster.live_iff {c : Cluster Network} {q : ℕ} {w : Writer} {n : Node}
    (hw : c.writers[q]? = some w) (hn : c.nodes[w.node]? = some n) :
    c.Live q ↔ (c.isRevoked w || n.cancelled) = false := by
  rw [Bool.or_eq_false_iff]
  constructor
  · rintro ⟨w', hw', n', hn', hlive⟩
    obtain rfl := Option.some.inj (hw.symm.trans hw')
    obtain rfl := Option.some.inj (hn.symm.trans hn')
    exact hlive
  · exact fun hlive => ⟨w, hw, n, hn, hlive⟩

theorem Cluster.isRevoked_iff {c : Cluster Network} {w : Writer} :
    c.isRevoked w = true ↔ ∃ token ∈ w.token, token ∈ c.revoked := by
  rw [isRevoked]
  cases w.token <;> simp

namespace Deed

variable {c c' : Cluster Network} {d : Deed} {q : ℕ}

theorem does_revoked (h : d.does c = some c') : c.revoked ⊆ c'.revoked := by
  cases d with
  | act t =>
    have hsame : c'.revoked = c.revoked := by
      cases t with
      | writer q =>
        obtain ⟨w, n, z, n', -, -, -, -, rfl⟩ := Cluster.actWriter_cases h
        rfl
      | stopper q =>
        obtain ⟨s, -, n, -, z, -, rfl⟩ := Cluster.act_stopper_iff.mp h
        rfl
      | discovery i | epoch i | dispatch i | consumer i k =>
        simp only [does, Cluster.act, Option.bind_eq_bind, Option.bind_eq_some_iff,
          Option.pure_def, Option.some.injEq] at h
        obtain ⟨n, -, mv, -, rfl⟩ := h
        rfl
    rw [hsame]
    exact List.Subset.refl _
  | forget i =>
    obtain rfl := Option.some.inj h
    have hsame : ∀ b : Cluster Network, (b.release i).revoked = b.revoked := fun b => by
      rcases Cluster.release_cases b i with heq | ⟨n, -, heq⟩
      · rw [heq]
      · rw [heq]
    exact (hsame _).symm ▸ List.Subset.refl _
  | revoke token =>
    obtain rfl := Option.some.inj h
    exact List.subset_cons_self _ _
  | connect | join | call | stop | disturb | outside | clock | tend =>
    obtain rfl := Option.some.inj h
    exact List.Subset.refl _

theorem live_of_does (h : d.does c = some c') (hlive : c'.Live q) {w : Writer} {n : Node}
    (hw : c.writers[q]? = some w) (hn : c.nodes[w.node]? = some n) : c.Live q := by
  obtain ⟨w', hw', n', hn', hrevoked, hcancelled⟩ := hlive
  obtain ⟨w₁, hw₁, hsame⟩ := does_writer h hw
  obtain rfl := Option.some.inj (hw₁.symm.trans hw')
  have honward : w.Onward w₁ := by
    rcases hsame with rfl | ⟨-, honward⟩
    · exact .refl w₁
    · exact honward
  obtain ⟨n₁, hn₁, halters⟩ := does_node h hn
  rw [honward.node] at hn'
  obtain rfl := Option.some.inj (hn₁.symm.trans hn')
  refine ⟨w, hw, n, hn, Bool.eq_false_iff.mpr fun hc => ?_, Bool.eq_false_iff.mpr fun hc => ?_⟩
  · obtain ⟨token, htoken, hmem⟩ := Cluster.isRevoked_iff.mp hc
    have hagain : c'.isRevoked w₁ = true :=
      Cluster.isRevoked_iff.mpr ⟨token, honward.token ▸ htoken, does_revoked h hmem⟩
    cases hrevoked.symm.trans hagain
  · cases hcancelled.symm.trans (halters.settled.1 hc)

end Deed

namespace Run

variable {r : Run} {i k p q x y : ℕ} {s : String} {e : Envelope} {m : Message} {n : Node}
  {ms : List Message}

/-- The message of the publish that the write `q` begins at a time. -/
def attempt? (r : Run) (q k : ℕ) : Option Message :=
  if (r.deed k).task? = some (.writer q) then
    ((r.state k).writers[q]?).bind fun w => ((r.state k).nodes[w.node]?).bind fun n =>
      w.attempt? (r.state k).now ((r.state k).isRevoked w) (r.state k).medium n
  else none

/-- What the write `q` has tried to publish. -/
def attemptsOf (r : Run) (q y : ℕ) : List Message := (List.range y).filterMap (r.attempt? q)

/-- What the writes of the node `i` have tried to publish. -/
def attempts (r : Run) (i y : ℕ) : List Message :=
  (List.range y).filterMap fun k => (r.mover? i k).bind (r.attempt? · k)

theorem deed_of_attempt? (h : r.attempt? q k = some m) : r.deed k = .act (.writer q) := by
  rw [attempt?] at h
  split at h
  · rename_i hd
    exact Deed.task?_eq_some_iff.mp hd
  · cases h

theorem attempt?_of_ne (hd : r.deed k ≠ .act (.writer q)) : r.attempt? q k = none :=
  if_neg fun h => hd (Deed.task?_eq_some_iff.mp h)

theorem attempt?_eq {w : Writer} (hd : r.deed k = .act (.writer q))
    (hw : (r.state k).writers[q]? = some w) (hn : (r.state k).nodes[w.node]? = some n) :
    r.attempt? q k =
      w.attempt? (r.state k).now ((r.state k).isRevoked w) (r.state k).medium n := by
  rw [attempt?, if_pos (Deed.task?_eq_some_iff.mpr hd), hw, Option.bind_some, hn, Option.bind_some]

theorem attemptsOf_succ (r : Run) (q y : ℕ) :
    r.attemptsOf q (y + 1) = r.attemptsOf q y ++ (r.attempt? q y).toList :=
  filterMap_succ _ y

/-- **No publish begins once a token is cancelled**, and what begins is the announcement or the data
of a write. -/
theorem live_of_attempt? (h : r.attempt? q k = some m) : (r.state k).Live q ∧
    ∃ w ∈ (r.state k).writers[q]?,
      m = w.announcement ∨ ∃ t, w.envelope.target? = some t ∧ m = w.data t := by
  have hd := deed_of_attempt? h
  obtain ⟨w, n, z, hw, hn, -⟩ := exists_writer hd
  rw [attempt?_eq hd hw hn] at h
  obtain ⟨-, hlive, hmsg⟩ := Writer.attempt?_eq_some_iff.mp h
  refine ⟨(Cluster.live_iff hw hn).mpr hlive, w, hw, ?_⟩
  rcases hmsg with ⟨-, rfl⟩ | ⟨t, hstage, rfl⟩
  · exact .inl rfl
  · exact .inr ⟨t, r.aimed k hw t (.inr ⟨_, hstage⟩), rfl⟩

theorem live_mono (hxk : x ≤ k) (hlive : (r.state k).Live q) {w : Writer}
    (hw : (r.state x).writers[q]? = some w) (hn : (r.state x).nodes[w.node]? = some n) :
    (r.state x).Live q := by
  induction k, hxk using Nat.le_induction with
  | base => exact hlive
  | succ k hxk ih =>
    obtain ⟨w', hw', hnode, -⟩ := says_mono hxk ⟨w, hw, rfl, rfl, rfl⟩
    obtain ⟨n', hn'⟩ := exists_node hxk hn
    exact ih (Deed.live_of_does (r.step k) hlive hw' (hnode ▸ hn'))

/-! ## Marks of an epoch -/

/-- A write of the current epoch has marked the subscription as announced. -/
def Marked (r : Run) (i : ℕ) (s : String) (k : ℕ) : Prop :=
  ∃ q' k', k' < k ∧ r.Marks i s q' k' ∧ ∀ x, k' < x → x < k → ¬ r.Resets i x

theorem Marks.entered (h : r.Marks i s q k) : (r.state (k + 1)).Entered i s := by
  rcases h with hwins | hloses
  · exact hwins.entered.2
  · refine entered_succ hloses.entered fun hreset => ?_
    obtain ⟨-, hbefore, hafter⟩ := hloses
    have hd := deed_of_stage (r := r) (q := q) (k := k) fun heq => by
      rw [heq] at hafter
      rcases hbefore with hbefore | hbefore <;> cases hbefore.symm.trans hafter
    cases hreset.1.symm.trans hd

/-- **A subscription is marked exactly if it is entered**, whatever became of the announcement. -/
theorem marked_iff_entered : r.Marked i s k ↔ (r.state k).Entered i s := by
  constructor
  · rintro ⟨q, k', hk, hmarks, hepoch⟩
    exact entered_mono hk hmarks.entered fun x hx => hepoch x hx
  · intro hentered
    induction k with
    | zero =>
      obtain ⟨n, hn, -⟩ := hentered
      rw [r.start] at hn
      cases hn
    | succ k ih =>
      by_cases hold : (r.state k).Entered i s
      · obtain ⟨q, k', hk, hmarks, hepoch⟩ := ih hold
        refine ⟨q, k', Nat.lt_succ_of_lt hk, hmarks, fun x hx hxk hreset => ?_⟩
        rcases Nat.lt_succ_iff_lt_or_eq.mp hxk with hlt | rfl
        · exact hepoch x hx hlt hreset
        · exact Opens.not_entered (.inr ⟨x, rfl, hreset⟩) hentered
      · obtain ⟨q, hwins⟩ := wins_of_entered hold hentered
        exact ⟨q, k, Nat.lt_succ_self k, .inl hwins, fun x hx hxk => by omega⟩

/-! ## What a write tells -/

/-- The write `q` comes to publishing a message at a stage, and begins unless a token is
cancelled. -/
def Tries (r : Run) (q : ℕ) (st : Stage) (m : Message) (ms : List Message) : Prop :=
  ∃ k, r.deed k = .act (.writer q) ∧ r.stage q k = st ∧
    ((r.state k).Live q ∧ ms = [m] ∨ ¬ (r.state k).Live q ∧ ms = [])

/-- The write `q` marks the subscription, and if that was not marked in this epoch it comes to
announcing it. -/
def Names (r : Run) (i : ℕ) (s : String) (q : ℕ) (ms : List Message) : Prop :=
  ∃ k, r.Marks i s q k ∧ (r.Marked i s k ∧ ms = [] ∨
    ¬ r.Marked i s k ∧ r.Tries q (.announcing .starting) ⟨controlChannel, s.toUTF8⟩ ms)

theorem Loses.names (h : r.Loses i s q k) : r.Names i s q [] :=
  ⟨k, .inr h, .inl ⟨marked_iff_entered.mpr h.entered, rfl⟩⟩

theorem Wins.names (h : r.Wins i s q k)
    (htries : r.Tries q (.announcing .starting) ⟨controlChannel, s.toUTF8⟩ ms) :
    r.Names i s q ms :=
  ⟨k, .inl h, .inr ⟨fun hmarked => h.entered.1 (marked_iff_entered.mp hmarked), htries⟩⟩

/-- What the write `q` has tried to publish when it is over. -/
inductive Tells (r : Run) (i : ℕ) (s : String) (e : Envelope) (q : ℕ) : List Message → Prop
  /-- The node has nobody to tell, or it was cancelled when the write looked. -/
  | refused {k : ℕ} {n : Node} : r.deed k = .act (.writer q) → r.stage q k = .checking →
      (r.state k).nodes[i]? = some n → (n.link = none ∨ n.cancelled = true) →
      Tells r i s e q []
  | untargeted {named : List Message} : r.Names i s q named → e.target? = none →
      Tells r i s e q named
  | targeted {t : String} {named told : List Message} : r.Names i s q named →
      e.target? = some t →
      r.Tries q (.publishing t .starting) ⟨dataChannel s t, e.encode⟩ told →
      Tells r i s e q (named ++ told)

/-- What the write `q` has tried to publish, by how far it has come. -/
inductive Telling (r : Run) (i : ℕ) (s : String) (e : Envelope) (q : ℕ) :
    Stage → List Message → Prop
  | silent {st : Stage} : st.rank < 4 → Telling r i s e q st []
  | first {k : ℕ} : r.Wins i s q k → Telling r i s e q (.announcing .starting) []
  | naming {ready deadline : ℕ} : r.Names i s q [⟨controlChannel, s.toUTF8⟩] →
      Telling r i s e q (.announcing (.pausing ready deadline)) [⟨controlChannel, s.toUTF8⟩]
  | named {st : Stage} {ms : List Message} : r.Names i s q ms →
      (st = .resolving ∨ (∃ t deadline, st = .requesting t deadline) ∨
        ∃ t, st = .publishing t .starting) → Telling r i s e q st ms
  | telling {t : String} {ready deadline : ℕ} {named : List Message} : r.Names i s q named →
      r.Tries q (.publishing t .starting) ⟨dataChannel s t, e.encode⟩
        [⟨dataChannel s t, e.encode⟩] →
      Telling r i s e q (.publishing t (.pausing ready deadline))
        (named ++ [⟨dataChannel s t, e.encode⟩])
  | told {ms : List Message} : r.Tells i s e q ms → Telling r i s e q .done ms

theorem Telling.eq_nil {st : Stage} (h : r.Telling i s e q st ms) (hst : st.rank < 4) :
    ms = [] := by
  cases h with
  | silent | first => rfl
  | naming | telling | told => exact absurd hst (by simp [Stage.rank])
  | named _ hlate =>
    rcases hlate with rfl | ⟨t, deadline, rfl⟩ | ⟨t, rfl⟩ <;>
      exact absurd hst (by simp [Stage.rank])

/-- A write that is about to turn to its data has got its announcement behind it. -/
theorem Telling.names {st : Stage} (h : r.Telling i s e q st ms)
    (hst : st = .resolving ∨ (∃ t deadline, st = .requesting t deadline) ∨
      ∃ t, st = .publishing t .starting) : r.Names i s q ms := by
  cases h with
  | named hnames => exact hnames
  | silent hearly =>
    rcases hst with rfl | ⟨t, deadline, rfl⟩ | ⟨t, rfl⟩ <;>
      exact absurd hearly (by simp [Stage.rank])
  | first | naming | telling | told =>
    rcases hst with hst | ⟨t, deadline, hst⟩ | ⟨t, hst⟩ <;> cases hst

theorem Telling.mem_announcement {ready deadline : ℕ}
    (h : r.Telling i s e q (.announcing (.pausing ready deadline)) ms) :
    ⟨controlChannel, s.toUTF8⟩ ∈ ms := by
  cases h with
  | naming => exact List.mem_singleton_self _
  | silent hearly => exact absurd hearly (by simp [Stage.rank])
  | named _ hlate => rcases hlate with hst | ⟨t, deadline, hst⟩ | ⟨t, hst⟩ <;> cases hst

theorem Telling.mem_data {t : String} {ready deadline : ℕ}
    (h : r.Telling i s e q (.publishing t (.pausing ready deadline)) ms) :
    ⟨dataChannel s t, e.encode⟩ ∈ ms := by
  cases h with
  | telling => exact List.mem_append_right _ (List.mem_singleton_self _)
  | silent hearly => exact absurd hearly (by simp [Stage.rank])
  | named _ hlate => rcases hlate with hst | ⟨t, deadline, hst⟩ | ⟨t, hst⟩ <;> cases hst

section Moves

variable {link : ℕ} {w : Writer} {z : Written Network} {a : Attempt} {t : String}

theorem Telling.announce (hd : r.deed k = .act (.writer q))
    (hw : (r.state k).writers[q]? = some w) (hn : (r.state k).nodes[w.node]? = some n)
    (hlink : n.link = some link) (hz : w.act (r.state k).now ((r.state k).isRevoked w)
      (r.state k).medium n = some z) (hstage : r.stage q k = w.stage)
    (hst : w.stage = .announcing a)
    (h : r.Telling w.node w.subscription w.envelope q (.announcing a) ms) :
    r.Telling w.node w.subscription w.envelope q z.stage (ms ++ (r.attempt? q k).toList) := by
  rw [attempt?_eq hd hw hn, Writer.attempt?_announcing hlink hst]
  have hmove := Writer.act_announcing hlink hst hz
  cases h with
  | silent hearly => exact absurd hearly (by simp [Stage.rank])
  | named _ hlate => rcases hlate with hst | ⟨t, deadline, hst⟩ | ⟨t, hst⟩ <;> cases hst
  | first hwins =>
    by_cases hlive : ((r.state k).isRevoked w || n.cancelled) = false
    · have hnames : r.Names w.node w.subscription q [w.announcement] := hwins.names
        ⟨k, hd, hstage.trans hst, .inl ⟨(Cluster.live_iff hw hn).mpr hlive, rfl⟩⟩
      rw [if_pos ⟨rfl, hlive⟩]
      rcases hmove with hresolving | ⟨-, -, ready, deadline, hpausing⟩
      · exact .named hnames (.inl hresolving)
      · rw [hpausing]
        exact .naming hnames
    · have hnames : r.Names w.node w.subscription q [] := hwins.names
        ⟨k, hd, hstage.trans hst, .inr ⟨mt (Cluster.live_iff hw hn).mp hlive, rfl⟩⟩
      rw [if_neg fun h => hlive h.2]
      exact .named hnames (.inl (hmove.resolve_right fun h => hlive h.2.1))
  | naming hnames =>
    rw [if_neg (by simp), Option.toList_none, List.append_nil]
    exact .named hnames (.inl (hmove.resolve_right (by simp)))

theorem Telling.publish (hd : r.deed k = .act (.writer q))
    (hw : (r.state k).writers[q]? = some w) (hn : (r.state k).nodes[w.node]? = some n)
    (hlink : n.link = some link) (hz : w.act (r.state k).now ((r.state k).isRevoked w)
      (r.state k).medium n = some z) (hstage : r.stage q k = w.stage)
    (hst : w.stage = .publishing t a)
    (h : r.Telling w.node w.subscription w.envelope q (.publishing t a) ms) :
    r.Telling w.node w.subscription w.envelope q z.stage (ms ++ (r.attempt? q k).toList) := by
  rw [attempt?_eq hd hw hn, Writer.attempt?_publishing hlink hst]
  have hmove := Writer.act_publishing hlink hst hz
  have htarget := r.aimed k hw t (.inr ⟨a, hst⟩)
  cases h with
  | silent hearly => exact absurd hearly (by simp [Stage.rank])
  | named hnames hlate =>
    obtain rfl : a = .starting := by
      rcases hlate with hst | ⟨t, deadline, hst⟩ | ⟨t, hst⟩
      · cases hst
      · cases hst
      · exact (Stage.publishing.inj hst).2
    by_cases hlive : ((r.state k).isRevoked w || n.cancelled) = false
    · have htries : r.Tries q (.publishing t .starting) (w.data t) [w.data t] :=
        ⟨k, hd, hstage.trans hst, .inl ⟨(Cluster.live_iff hw hn).mpr hlive, rfl⟩⟩
      rw [if_pos ⟨rfl, hlive⟩]
      rcases hmove with hdone | ⟨-, -, ready, deadline, hpausing⟩
      · rw [hdone]
        exact .told (.targeted hnames htarget htries)
      · rw [hpausing]
        exact .telling hnames htries
    · have htries : r.Tries q (.publishing t .starting) (w.data t) [] :=
        ⟨k, hd, hstage.trans hst, .inr ⟨mt (Cluster.live_iff hw hn).mp hlive, rfl⟩⟩
      rw [if_neg fun h => hlive h.2, hmove.resolve_right fun h => hlive h.2.1]
      exact .told (.targeted hnames htarget htries)
  | telling hnames htries =>
    rw [if_neg (by simp), Option.toList_none, List.append_nil, hmove.resolve_right (by simp)]
    exact .told (.targeted hnames htarget htries)

end Moves

/-- **What a write has tried so far is kept right by every move of it.** -/
theorem Telling.move (h : r.Telling i s e q (r.stage q k) ms) (hd : r.deed k = .act (.writer q))
    (hcalled : (r.state k).Says i s e q)
    (hlinked : ∀ n ∈ (r.state k).nodes[i]?, n.link.isSome = true) :
    r.Telling i s e q (r.stage q (k + 1)) (ms ++ (r.attempt? q k).toList) := by
  obtain ⟨w, n, z, hw, hn, hz, hstage, hstage', -⟩ := exists_writer hd
  obtain ⟨w', hw', rfl, rfl, rfl⟩ := hcalled
  obtain rfl := Option.some.inj (hw.symm.trans hw')
  obtain ⟨link, hlink⟩ := Option.isSome_iff_exists.mp (hlinked n hn)
  have hwrites : (r.state k).Writes w.node w.subscription q := ⟨w, hw, rfl, rfl⟩
  rw [hstage] at h
  rw [hstage']
  -- who neither announces nor publishes tries nothing
  have hquiet : (∀ a, w.stage ≠ .announcing a) → (∀ t a, w.stage ≠ .publishing t a) →
      ms ++ (r.attempt? q k).toList = ms := fun hann hpub => by
    have hnone : r.attempt? q k = none := Option.eq_none_iff_forall_ne_some.mpr fun m hm => by
      rw [attempt?_eq hd hw hn] at hm
      obtain ⟨-, -, ⟨hst, -⟩ | ⟨t, hst, -⟩⟩ := Writer.attempt?_eq_some_iff.mp hm
      · exact hann _ hst
      · exact hpub _ _ hst
    rw [hnone, Option.toList_none, List.append_nil]
  cases Writer.act_outcome hz with
  | pause hst | announce hst _ _ | unannounced hst _ =>
    exact .announce hd hw hn hlink hz hstage hst (hst ▸ h)
  | linger hst | publish hst _ _ | unpublished hst _ =>
    exact .publish hd hw hn hlink hz hstage hst (hst ▸ h)
  | store hst | check hst | unknown hst _ =>
    rw [hquiet (by simp [hst]) (by simp [hst]), h.eq_nil (by simp [hst, Stage.rank])]
    exact .silent (by simp [Stage.rank])
  | quit hne hwhy =>
    rcases hwhy with hnone | ⟨hcancelled, hst⟩
    · cases hlink.symm.trans hnone
    · rw [hquiet (by simp [hst]) (by simp [hst]), h.eq_nil (by simp [hst, Stage.rank])]
      exact .told (.refused hd (hstage.trans hst) hn (.inr hcancelled))
  | known hst _ =>
    rw [hquiet (by simp [hst]) (by simp [hst]), h.eq_nil (by simp [hst, Stage.rank])]
    exact .named (Loses.names ⟨hwrites, .inl (hstage.trans hst), hstage'⟩) (.inl rfl)
  | overtaken hst _ =>
    rw [hquiet (by simp [hst]) (by simp [hst]), h.eq_nil (by simp [hst, Stage.rank])]
    exact .named (Loses.names ⟨hwrites, .inr (hstage.trans hst), hstage'⟩) (.inl rfl)
  | enter hst _ =>
    rw [hquiet (by simp [hst]) (by simp [hst]), h.eq_nil (by simp [hst, Stage.rank])]
    exact .first ⟨hwrites, hstage.trans hst, by rw [hstage']; rfl⟩
  | untargeted hst htarget =>
    rw [hquiet (by simp [hst]) (by simp [hst])]
    exact .told (.untargeted (h.names (.inl hst)) htarget)
  | targeted hst _ =>
    rw [hquiet (by simp [hst]) (by simp [hst])]
    exact .named (h.names (.inl hst)) (.inr (.inl ⟨_, _, rfl⟩))
  | request hst | unrequested hst =>
    rw [hquiet (by simp [hst]) (by simp [hst])]
    exact .named (h.names (.inr (.inl ⟨_, _, hst⟩))) (.inr (.inr ⟨_, rfl⟩))

theorem telling (hcalled : (r.state y).Says i s e q)
    (hlinked : ∀ k < y, ∀ n ∈ (r.state k).nodes[i]?, n.link.isSome = true) :
    r.Telling i s e q (r.stage q y) (r.attemptsOf q y) := by
  induction y with
  | zero =>
    obtain ⟨w, hw, -⟩ := hcalled
    rw [r.start] at hw
    cases hw
  | succ y ih =>
    rw [attemptsOf_succ]
    rcases says_succ hcalled with hold | ⟨hnone, hstoring⟩
    · have ih := ih hold fun k hk => hlinked k (Nat.lt_succ_of_lt hk)
      by_cases hd : r.deed y = .act (.writer q)
      · exact ih.move hd hold (hlinked y (Nat.lt_succ_self y))
      · rw [attempt?_of_ne hd, Option.toList_none, List.append_nil, stage_succ hd]
        exact ih
    · have hd : r.deed y ≠ .act (.writer q) := fun hd => by
        obtain ⟨w, -, -, hw, -⟩ := exists_writer hd
        cases hnone.symm.trans hw
      rw [attempt?_of_ne hd, attemptsOf, filterMap_of_none (fun _ _ _ => deed_of_attempt?) hnone,
        hstoring]
      exact .silent (by simp [Stage.rank])

/-! ## A write that is over -/

theorem Telling.tells (h : r.Telling i s e q .done ms) : r.Tells i s e q ms := by
  cases h with
  | told htells => exact htells
  | silent hearly => exact absurd hearly (by simp [Stage.rank])
  | named _ hlate => rcases hlate with hst | ⟨t, deadline, hst⟩ | ⟨t, hst⟩ <;> cases hst

theorem exists_move {st : Stage} (hxy : x ≤ y) (hx : r.stage q x = st) (hy : r.stage q y ≠ st) :
    ∃ k, x ≤ k ∧ k < y ∧ r.stage q k = st ∧ r.deed k = .act (.writer q) := by
  obtain ⟨k, hxk, hky, hbefore, hafter⟩ :=
    exists_change (P := fun k => r.stage q k = st) hxy hx hy
  exact ⟨k, hxk, hky, hbefore, deed_of_stage fun heq => hafter (heq.trans hbefore)⟩

section Alone

variable (hcalled : (r.state y).Says i s e q)
  (halone : ∀ k < y, ∀ n ∈ (r.state k).nodes[i]?, n.link = none)

include hcalled halone

theorem move_of_alone (hk : k < y) (hd : r.deed k = .act (.writer q)) :
    (∃ n ∈ (r.state k).nodes[i]?, n.link = none) ∧ r.attempt? q k = none ∧
      (r.stage q k = .storing ∧ r.stage q (k + 1) = .checking ∨
        r.stage q k ≠ .storing ∧ r.stage q (k + 1) = .done) := by
  obtain ⟨w, n, z, hw, hn, hz, hstage, hstage', -⟩ := exists_writer hd
  obtain ⟨w', hw', rfl, -⟩ := says_of_later (Nat.le_of_lt hk) hw hcalled
  obtain rfl := Option.some.inj (hw.symm.trans hw')
  have hlink := halone k hk n hn
  refine ⟨⟨n, hn, hlink⟩, ?_, ?_⟩
  · rw [attempt?_eq hd hw hn, Writer.attempt?, hlink, Option.bind_none]
  · rw [hstage, hstage']
    exact Writer.act_alone hlink hz

theorem refused_of_alone (hdone : r.stage q y = .done) :
    r.Tells i s e q (r.attemptsOf q y) := by
  have hquiet : r.attemptsOf q y = [] := by
    refine List.filterMap_eq_nil_iff.mpr fun k hk => ?_
    by_cases hd : r.deed k = .act (.writer q)
    · exact (move_of_alone hcalled halone (List.mem_range.mp hk) hd).2.1
    · exact attempt?_of_ne hd
  have hstart : r.stage q 0 = .storing := by
    rw [stage, r.start]
    rfl
  obtain ⟨k, -, hk, hstoring, hd⟩ := exists_move (Nat.zero_le y) hstart (by simp [hdone])
  obtain ⟨-, -, ⟨-, hchecking⟩ | ⟨hnot, -⟩⟩ := move_of_alone hcalled halone hk hd
  · obtain ⟨k', -, hk', hbefore, hd'⟩ := exists_move hk hchecking (by simp [hdone])
    obtain ⟨⟨n, hn, hlink⟩, -⟩ := move_of_alone hcalled halone hk' hd'
    rw [hquiet]
    exact .refused hd' hbefore hn (.inl hlink)
  · exact absurd hstoring hnot

end Alone

/-- **What a write has tried to publish when it is over.** -/
theorem tells_of_done (hn : (r.state y).nodes[i]? = some n) (hcalled : (r.state y).Says i s e q)
    (hdone : r.stage q y = .done) : r.Tells i s e q (r.attemptsOf q y) := by
  have hsame : ∀ k < y, ∀ n₀ ∈ (r.state k).nodes[i]?, n₀.link = n.link := fun k hk n₀ hn₀ =>
    (kept_eq (Nat.le_of_lt hk) hn₀ hn).1.symm
  cases hlink : n.link with
  | none =>
    exact refused_of_alone hcalled (fun k hk n₀ hn₀ => (hsame k hk n₀ hn₀).trans hlink) hdone
  | some link =>
    have htelling := telling hcalled fun k hk n₀ hn₀ => by
      rw [hsame k hk n₀ hn₀, hlink]
      rfl
    rw [hdone] at htelling
    exact htelling.tells

/-! ## What gets onto the bus -/

theorem mem_attemptsOf : m ∈ r.attemptsOf q y ↔ ∃ k < y, r.attempt? q k = some m := by
  simp only [attemptsOf, List.mem_filterMap, List.mem_range]

/-- A message that a write sends is one that it has begun to publish, now or before. -/
theorem exists_attempt {w : Writer} {link : ℕ} {a : Attempt} (hd : r.deed k = .act (.writer q))
    (hw : (r.state k).writers[q]? = some w) (hn : (r.state k).nodes[w.node]? = some n)
    (hlink : n.link = some link) (hlive : ((r.state k).isRevoked w || n.cancelled) = false)
    (hm : w.stage = .announcing a ∧ m = w.announcement ∨
      ∃ t, w.stage = .publishing t a ∧ m = w.data t) :
    ∃ k' ≤ k, r.attempt? q k' = some m := by
  cases a with
  | starting =>
    refine ⟨k, Nat.le_refl k, ?_⟩
    rw [attempt?_eq hd hw hn]
    exact Writer.attempt?_eq_some_iff.mpr ⟨by rw [hlink]; rfl, hlive, hm⟩
  | pausing ready deadline =>
    have htelling := telling ⟨w, hw, rfl, rfl, rfl⟩ fun x hx n₀ hn₀ => by
      rw [← (kept_eq (Nat.le_of_lt hx) hn₀ hn).1, hlink]
      rfl
    rw [stage, Cluster.stage_of_getElem? hw] at htelling
    have hmem : m ∈ r.attemptsOf q k := by
      rcases hm with ⟨hst, rfl⟩ | ⟨t, hst, rfl⟩
      · exact (hst ▸ htelling).mem_announcement
      · exact (hst ▸ htelling).mem_data
    obtain ⟨k', hk', hattempt⟩ := mem_attemptsOf.mp hmem
    exact ⟨k', Nat.le_of_lt hk', hattempt⟩

/-- **Whatever a task puts onto the bus was tried by a write**, and carries the name that the line
gives to its channel. -/
theorem attempted_of_published {t : Task} (hd : r.deed k = .act t)
    (hlog : (r.state (k + 1)).medium.bus.log = (r.state k).medium.bus.log ++ [m]) :
    ∃ q link m₀, t = .writer q ∧
      m = { m₀ with channel := ((r.state k).medium.line link).name m₀.channel } ∧
      ∃ k' ≤ k, r.attempt? q k' = some m₀ := by
  obtain ⟨q, rfl⟩ : ∃ q, t = .writer q := by
    rcases Deed.does_bus (r.step k) with ⟨t', -, -, hsame⟩ | ⟨hwriter, -⟩
    · rw [hsame] at hlog
      simp at hlog
    · exact hwriter t hd
  obtain ⟨w, n, z, hw, hn, hz, -, -, -, hmedium⟩ := exists_writer hd
  rw [hmedium] at hlog
  have hgrows : z.medium ≠ (r.state k).medium := fun hsame => by
    rw [hsame] at hlog
    simp at hlog
  -- a cancelled token comes before the medium
  have hlive : ((∃ a, w.stage = .announcing a) ∨ ∃ t a, w.stage = .publishing t a) →
      ∀ link, n.link = some link → ((r.state k).isRevoked w || n.cancelled) = false := by
    intro hst link hlink
    refine Bool.eq_false_iff.mpr fun hcancelled => hgrows ?_
    rcases hst with ⟨a, hst⟩ | ⟨t, a, hst⟩ <;>
      simp only [Writer.act, hst, hlink, Attempt.act, hcancelled, if_true, Option.map_some,
        Option.some.injEq] at hz <;> rw [← hz]
  have hput : ∀ {link : ℕ} {b : Network} {m₀ : Message},
      Medium.publish (r.state k).medium link m₀ = (b, .ok ()) →
      b.bus.log = (r.state k).medium.bus.log ++ [m] →
      m = { m₀ with channel := ((r.state k).medium.line link).name m₀.channel } := by
    intro link b m₀ hpublish hlog
    rw [Network.publish_ok hpublish, Network.put, Network.log_put] at hlog
    simpa using hlog.symm
  cases Writer.act_outcome hz with
  | @announce a link b l hst hlink hpublish =>
    exact ⟨q, link, _, rfl, hput hpublish hlog,
      exists_attempt hd hw hn hlink (hlive (.inl ⟨a, hst⟩) link hlink) (.inl ⟨hst, rfl⟩)⟩
  | @publish t a link b l hst hlink hpublish =>
    exact ⟨q, link, _, rfl, hput hpublish hlog,
      exists_attempt hd hw hn hlink (hlive (.inr ⟨t, a, hst⟩) link hlink) (.inr ⟨t, hst, rfl⟩)⟩
  | unannounced _ hm | unpublished _ hm =>
    rcases hm with hsame | ⟨e, hpublish⟩
    · exact absurd hsame hgrows
    · exact absurd (Network.publish_error hpublish) hgrows
  | store | quit | check | known | unknown | overtaken | enter | pause | untargeted | targeted
  | request | unrequested | linger => exact absurd rfl hgrows

/-! ## The writes of a node -/

/-- **What a node tries to publish, and what becomes of its store.** The node is called to write in
turn, and between and during its writes anything may happen: epochs end, tokens are cancelled, it is
stopped, and publishes fail or take too long. Then what it tries to publish is what its writes try
one after the other, and what a write tries is told by `Tells`. No publish begins once a token is
cancelled, nothing else begins, and nothing gets onto the bus that did not; a subscription is marked
by the writes of an epoch, whatever comes of their announcements; and every write goes on until it
is over. The store holds what every write says that has begun. Apart from messages it is the store
of a node without a link to which the same is done. -/
theorem attempts_of_writes (r : Run) (hn : (r.state y).nodes[i]? = some n) (hturn : r.InTurn i y) :
    (r.attempts i y = ((r.state y).writes i).flatMap (r.attemptsOf · y) ∧
      ∀ q s e, (r.state y).Says i s e q → r.stage q y = .done →
        r.Tells i s e q (r.attemptsOf q y)) ∧
    (∀ q k m, r.attempt? q k = some m →
      (∃ w ∈ (r.state k).writers[q]?,
        m = w.announcement ∨ ∃ t, w.envelope.target? = some t ∧ m = w.data t) ∧
      ∀ x ≤ k, ∀ w ∈ (r.state x).writers[q]?, ∀ n ∈ (r.state x).nodes[w.node]?,
        (r.state x).isRevoked w = false ∧ n.cancelled = false) ∧
    (∀ k t m, r.deed k = .act t →
      (r.state (k + 1)).medium.bus.log = (r.state k).medium.bus.log ++ [m] →
      ∃ q link m₀, t = .writer q ∧
        m = { m₀ with channel := ((r.state k).medium.line link).name m₀.channel } ∧
        ∃ k' ≤ k, r.attempt? q k' = some m₀) ∧
    (∀ s, n.announced.contains s = true ↔ r.Marked i s y) ∧
    (∀ q s e, (r.state y).Says i s e q → r.stage q y ≠ .done →
      (∀ time ∈ (r.state y).deadline? (.writer q), time ≤ (r.state y).now) →
      ((r.state y).act (.writer q)).isSome = true) ∧
    (r.changes i y).filterMap StoreChange.written? = (r.state y).kept i ∧
    n.store = (r.changes i y).foldl (fun st ch => ch.apply st) (.fresh n.settings) ∧
    ∀ (r' : Run) j x n', (r'.state x).nodes[j]? = some n' → n'.link = none →
      n'.settings.expiration = n.settings.expiration → r'.locals j x = r.locals i y →
      n'.store = (r.locals i y).foldl (fun st ch => ch.apply st) (.fresh n.settings) ∧
        (r.changes i y = r.locals i y → n'.store = n.store) := by
  refine ⟨⟨filterMap_mover hturn _ fun _ _ _ => deed_of_attempt?,
      fun q s e hcalled hdone => tells_of_done hn hcalled hdone⟩,
    fun q k m hattempt => ?_, fun k t m hd hlog => attempted_of_published hd hlog, fun s => ?_,
    fun q s e hcalled hnot hdue => ?_, filterMap_changes hturn, store_eq hn,
    fun r' j x n' hn' hlink hsettings hlocals => ?_⟩
  · obtain ⟨hlive, hmessage⟩ := live_of_attempt? hattempt
    refine ⟨hmessage, fun x hx w hw n₀ hn₀ => ?_⟩
    exact Bool.or_eq_false_iff.mp ((Cluster.live_iff hw hn₀).mp (live_mono hx hlive hw hn₀))
  · rw [marked_iff_entered]
    refine ⟨fun hmem => ⟨n, hn, hmem⟩, fun ⟨n', hn', hmem⟩ => ?_⟩
    obtain rfl := Option.some.inj (hn.symm.trans hn')
    exact hmem
  · obtain ⟨w, hw, rfl, -, -⟩ := hcalled
    refine Cluster.act_of_due hw hn (fun hdone => hnot ?_) hdue
    exact (Cluster.stage_of_getElem? hw).trans hdone
  · have hfresh : Watched.fresh n'.settings = .fresh n.settings := by
      rw [Watched.fresh, Watched.fresh, hsettings]
    have hstore := store_eq hn'
    rw [← locals_eq hn' hlink, hlocals, hfresh] at hstore
    refine ⟨hstore, fun hquiet => ?_⟩
    rw [hstore, store_eq hn, hquiet]

/-- The first write of a node fails to tell anybody, and the second is slow. In the next epoch the
caller gives up a third before it has announced anything, and a fourth takes too long. Then the node
is stopped, and called once more. -/
def troubledDeeds : List Deed :=
  List.flatten [
    [.connect false { failPublish := true }, .join {} (some 0) none,
      .call 0 none "a" Node.dottedWrite.envelope],
    List.replicate 8 (.act (.writer 0)),
    [.disturb 0 fun _ => { publishDelay := 20000 }, .call 0 none "a" Node.dottedWrite.envelope],
    List.replicate 6 (.act (.writer 1)),
    [.clock 60000, .act (.writer 1), .act (.epoch 0),
      .call 0 (some "t") "a" Node.dottedWrite.envelope],
    List.replicate 4 (.act (.writer 2)), [.revoke "t"], List.replicate 4 (.act (.writer 2)),
    [.call 0 none "a" Node.dottedWrite.envelope],
    List.replicate 6 (.act (.writer 3)), [.clock 70000, .act (.writer 3)],
    [.stop 0, .act (.stopper 0), .act (.stopper 0), .call 0 none "a" (.syncResponse true)],
    List.replicate 2 (.act (.writer 4))]

def troubled : Run := .play troubledDeeds (by decide +kernel)

/-- The same calls to a node that has no link. -/
def quietDeeds : List Deed :=
  .join {} none none :: (List.range 5).flatMap fun q =>
    [.call 0 none "a" (if q = 4 then .syncResponse true else Node.dottedWrite.envelope),
      .act (.writer q), .act (.writer q)]

def quiet : Run := .play quietDeeds (by decide +kernel)

/-- One announcement and three times the data were tried in this run. The third write was cancelled
before it tried anything, and the store is that of the node without a link. -/
theorem attempts_of_writes_troubled :
    troubled.attempts 0 47 = ⟨controlChannel, "a".toUTF8⟩ ::
      List.replicate 3 (Node.dottedWrite.data "b.c") ∧
    troubled.Tells 0 "a" Node.dottedWrite.envelope 2 [] ∧
    ∃ n ∈ (troubled.state 47).nodes[0]?, ∃ n' ∈ (quiet.state 16).nodes[0]?, n'.store = n.store := by
  have hnodes : ((troubled.state 47).nodes[0]?.map (·.settings.expiration)) = some none := by
    decide +kernel
  have hnodes' : ((quiet.state 16).nodes[0]?.map fun n => (n.link, n.settings.expiration)) =
      some (none, none) := by decide +kernel
  obtain ⟨n, hn, hexpiration⟩ := Option.map_eq_some_iff.mp hnodes
  obtain ⟨n', hn', he⟩ := Option.map_eq_some_iff.mp hnodes'
  obtain ⟨hlink, hexpiration'⟩ := Prod.mk.inj he
  obtain ⟨⟨htrace, htells⟩, -, -, -, -, -, -, hstore⟩ :=
    troubled.attempts_of_writes hn (by decide +kernel : troubled.InTurn 0 47)
  refine ⟨htrace.trans (by decide +kernel), ?_, n, hn, n', hn', ?_⟩
  · have hcalled : (troubled.state 47).Says 0 "a" Node.dottedWrite.envelope 2 := by
      have hw : ((troubled.state 47).writers[2]?.map fun w =>
        (w.node, w.subscription, w.envelope)) = some (0, "a", Node.dottedWrite.envelope) := by
        decide +kernel
      obtain ⟨w, hw, he⟩ := Option.map_eq_some_iff.mp hw
      obtain ⟨hnode, he⟩ := Prod.mk.inj he
      exact ⟨w, hw, hnode, (Prod.mk.inj he).1, (Prod.mk.inj he).2⟩
    have hnone : troubled.attemptsOf 2 47 = [] := by decide +kernel
    rw [← hnone]
    exact htells 2 "a" _ hcalled (by decide +kernel)
  · have hkept : ∀ ch ∈ troubled.changes 0 47, (!ch.isInbound) = true := by decide +kernel
    have hlocals :
        troubled.locals 0 47 = ((troubled.state 47).kept 0).map fun p => .write p.1 p.2 :=
      StoreChange.eq_map_write (by decide +kernel)
    have hlocals' : quiet.locals 0 16 = ((troubled.state 47).kept 0).map fun p => .write p.1 p.2 :=
      StoreChange.eq_map_write (by decide +kernel)
    exact (hstore quiet 0 16 n' hn' hlink (hexpiration'.trans hexpiration.symm)
      (hlocals'.trans hlocals.symm)).2 (List.filter_eq_self.mpr hkept).symm

end Run

end Telemetry
