import Telemetry.Proofs.Announcing
import Telemetry.Proofs.Literal
import Telemetry.Proofs.Wiring

/-!
# Announcements and peers

A node that listens to the control channel and does not lag hears every announcement. What it hears
waits in one place after another until dispatch takes it, and in the end there is one consumer of
the subscription, whoever announced it and how often.

* `Cluster.Hearing`: a node listens to the control channel, and does not lag;
* `Node.Knows`: the places where a name is that was heard;
* **`Cluster.Informed.does`**: what was heard stays known; `Run.informed`: at all times;
* `Cluster.Hearing.all_known`: where discovery and dispatch wait, all was heard and started;
* **`Run.announced_once`**: what becomes of the writes of an epoch, and of their announcement.
-/

namespace Telemetry

/-! ## Names on their way -/

theorem announcedName_toUTF8 {s : String} (hs : s ≠ "") : (announcedName s.toUTF8).1 = some s := by
  have hread : String.fromUTF8? s.toUTF8 = some s := Json.Text.fromUTF8?_toByteArray s
  have hempty : s.isEmpty = false := by
    rw [Bool.eq_false_iff]
    intro h
    exact hs (String.isEmpty_iff.mp h)
  rw [announcedName, hread]
  simp only [hempty, Bool.false_eq_true, if_false]

/-- The node has heard the name: it is on its way to dispatch, or dispatch has taken it. -/
def Node.Knows (n : Node) (s : String) : Prop :=
  n.heard = some s ∨ s ∈ n.requests ∨ n.started.contains s = true

theorem Deed.Alters.knows {c : Cluster Network} {d : Deed} {j : ℕ} {n n' : Node} {s : String}
    (halters : d.Alters c j n n') (hd : d ≠ .act (.discovery j)) (h : n.Knows s) : n'.Knows s := by
  cases halters with
  | discover hdiscovery _ => exact absurd hdiscovery hd
  | ask => exact h.imp_right (Or.imp_left (List.mem_append_left _))
  | @skip name rest hrequests hknown =>
    refine h.imp_right fun h => ?_
    rcases h with hmem | hstarted
    · rw [hrequests] at hmem
      rcases List.mem_cons.mp hmem with rfl | hmem
      · exact .inr hknown
      · exact .inl hmem
    · exact .inr hstarted
  | @start name rest hrequests hnew =>
    refine h.imp_right fun h => ?_
    rcases h with hmem | hstarted
    · rw [hrequests] at hmem
      rcases List.mem_cons.mp hmem with rfl | hmem
      · exact .inr (by rw [Roster.contains_add]; simp)
      · exact .inl hmem
    · exact .inr (by rw [Roster.contains_add, hstarted]; rfl)
  | keep | enter | reset | leave | retire | consume => exact h

namespace Cluster

variable {c c' : Cluster Network} {d : Deed} {j p x σ : ℕ} {s : String}

/-- The node `j` is not cancelled, and its discovery listens to the stream `σ`, which is open and
does not lag. -/
def Hearing (c : Cluster Network) (j σ : ℕ) : Prop :=
  (∃ n ∈ c.nodes[j]?, n.cancelled = false ∧ n.discovery = .listening σ) ∧
    ∃ st ∈ c.medium.bus.streams[σ]?, st.phase ≠ .ended ∧
      c.medium.bus.isClosed st.socket = false ∧ c.medium.bus.feed.oldest ≤ st.next

/-- The node `j` knows the subscription if the announcement is among the messages from the number
`x` on that the stream `σ` has seen. -/
def Informed (c : Cluster Network) (j σ x : ℕ) (s : String) : Prop :=
  ∀ n ∈ c.nodes[j]?, ∀ st ∈ c.medium.bus.streams[σ]?, ∀ p, x ≤ p → p < st.next →
    c.medium.bus.log[p]? = some ⟨controlChannel, s.toUTF8⟩ → n.Knows s

theorem Hearing.ear (h : c.Hearing j σ) : c.ear? (.discovery j) = some (.listening σ) := by
  obtain ⟨⟨n, hn, -, hl⟩, -⟩ := h
  rw [ear?, hn, Option.map_some, hl]

theorem Hearing.discover (h : c.Hearing j σ) (hw : c.Wired)
    (hact : c.act (.discovery j) = some c') :
    ∃ n n' st st', c.nodes[j]? = some n ∧ c'.nodes[j]? = some n' ∧
      c.medium.bus.streams[σ]? = some st ∧ c'.medium.bus.streams[σ]? = some st' ∧
      n'.started = n.started ∧
      ((∃ name, n.heard = some name ∧ n'.heard = none ∧ n'.requests = n.requests ++ [name] ∧
          st' = st) ∨
        n.heard = none ∧ n'.requests = n.requests ∧ (st'.next = st.next ∨
          st'.next = st.next + 1 ∧ ∃ m, c.medium.bus.log[st.next]? = some m ∧
            (m.channel = controlChannel → n'.heard = (announcedName m.payload).1))) := by
  have hear := h.ear
  obtain ⟨⟨n, hn, hlive, hl⟩, st, hst, hphase, hsocket, hold⟩ := h
  obtain ⟨n₁, hn₁, mv, hmv, rfl⟩ := act_discovery_iff.mp hact
  obtain rfl := Option.some.inj (hn₁.symm.trans hn)
  have hlt := (Array.getElem?_eq_some_iff.mp hn₁).1
  have hn' : (c.apply j mv).nodes[j]? = some mv.node := Array.getElem?_setIfInBounds_self_of_lt hlt
  obtain ⟨link, -, ⟨hmed, name, hheard, hnode⟩ | ⟨hheard, hd, hhd, hmed, hnode⟩⟩ :=
    Node.discover_cases hmv
  · rcases hnode with ⟨hcancelled, -⟩ | ⟨-, hnode⟩
    · cases hlive.symm.trans hcancelled
    · refine ⟨n₁, mv.node, st, st, hn, hn', hst, ?_, by rw [hnode], .inl ⟨name, hheard, ?_⟩⟩
      · show mv.medium.bus.streams[σ]? = some st
        rw [hmed, hst]
      · rw [hnode]
        exact ⟨rfl, rfl, rfl⟩
  · -- nothing is held back, so discovery looks at its stream
    rw [hl, hlive] at hhd
    obtain ⟨-, st', hset, htopic, -, -, honward⟩ :=
      Listener.act_listening hst ⟨hphase, hsocket, hw.behind σ st hst⟩ hhd
    have hσ := (Array.getElem?_eq_some_iff.mp hst).1
    refine ⟨n₁, mv.node, st, st', hn, hn', hst, ?_, by rw [hnode], .inr ⟨hheard, by rw [hnode], ?_⟩⟩
    · show mv.medium.bus.streams[σ]? = some st'
      rw [hmed, hset]
      exact Array.getElem?_setIfInBounds_self_of_lt hσ
    · cases hmessage : hd.message with
      | some m =>
        rw [hmessage] at honward
        cases honward with
        | message hm _ hnext =>
          refine .inr ⟨hnext, m, hm, fun _ => ?_⟩
          rw [hnode, hmessage]
          rfl
      | none =>
        rw [hmessage] at honward
        cases honward with
        | @passed m hm hcovers hnext =>
          refine .inr ⟨hnext, m, hm, fun hchannel => ?_⟩
          have hcontrol := (hw.tuned j σ st hear hst).resolve_left hphase
          rw [hcontrol, Topic.covers, hchannel] at hcovers
          exact absurd hcovers (by simp)
        | lagged hlag => exact absurd hold (Nat.not_le_of_gt hlag)
        | parked hnext => exact .inl hnext

/-- **What was heard stays known**, and every announcement is heard. -/
theorem Informed.does (h : c.Informed j σ x s) (hs : s ≠ "") (hw : c.Wired) (hhear : c.Hearing j σ)
    (hdoes : d.does c = some c') : c'.Informed j σ x s := by
  intro n' hn' st' hst' p hxp hp hm'
  have hm : p < c.medium.bus.log.length →
      c.medium.bus.log[p]? = some ⟨controlChannel, s.toUTF8⟩ := fun hlt => by
    obtain ⟨ms, hms⟩ := Deed.does_log hdoes
    rw [← hm', ← hms, List.getElem?_append_left hlt]
  by_cases hd : d = .act (.discovery j)
  · subst hd
    obtain ⟨n, n₁, st, st₁, hn, hn₁, hst, hst₁, hstarted, hheard⟩ := hhear.discover hw hdoes
    obtain rfl := Option.some.inj (hn₁.symm.trans hn')
    obtain rfl := Option.some.inj (hst₁.symm.trans hst')
    have hbehind := hw.behind σ st hst
    have hknew : p < st.next → n.Knows s := fun hlt =>
      h n hn st hst p hxp hlt (hm (by omega))
    rcases hheard with ⟨name, hname, -, hrequests, rfl⟩ | ⟨hnone, hrequests, hnext⟩
    · refine .inr ?_
      rw [hrequests, hstarted]
      rcases hknew hp with hsame | hmem | hstarted
      · rw [hname] at hsame
        obtain rfl := Option.some.inj hsame
        exact .inl (by simp)
      · exact .inl (List.mem_append_left _ hmem)
      · exact .inr hstarted
    · have hearlier : p < st.next → n₁.Knows s := fun hlt => by
        refine .inr ?_
        rw [hrequests, hstarted]
        exact (hknew hlt).resolve_left (by simp [hnone])
      rcases hnext with hnext | ⟨hnext, m, hlog, hname⟩
      · exact hearlier (hnext ▸ hp)
      · rcases Nat.lt_or_ge p st.next with hlt | hge
        · exact hearlier hlt
        · obtain rfl : p = st.next := by omega
          have hlt := (List.getElem?_eq_some_iff.mp hlog).1
          obtain rfl := Option.some.inj (hlog.symm.trans (hm hlt))
          exact .inl ((hname rfl).trans (announcedName_toUTF8 hs))
  · -- something else happens: the stream stays where it is, and the name is not lost
    rw [Option.mem_def, hw.stream_eq hdoes hhear.ear hd] at hst'
    have hbehind := hw.behind σ st' hst'
    obtain ⟨⟨n, hn, -⟩, -⟩ := hhear
    obtain ⟨n₁, hn₁, halters⟩ := Deed.does_node hdoes hn
    obtain rfl := Option.some.inj (hn₁.symm.trans hn')
    exact halters.knows hd (h n hn st' hst' p hxp hp (hm (by omega)))

/-- Where neither discovery nor dispatch can move, all was heard and all was started. -/
theorem Hearing.all_known (h : c.Hearing j σ) (hsane : ∀ n ∈ c.nodes, n.Sane)
    (hdiscovery : c.act (.discovery j) = none) (hdispatch : c.act (.dispatch j) = none) :
    ∃ n ∈ c.nodes[j]?, n.heard = none ∧ n.requests = [] ∧
      ∃ st ∈ c.medium.bus.streams[σ]?, c.medium.bus.log.length ≤ st.next := by
  obtain ⟨⟨n, hn, hlive, hl⟩, st, hst, hphase, hsocket, -⟩ := h
  have hn : c.nodes[j]? = some n := hn
  have hst : c.medium.bus.streams[σ]? = some st := hst
  have hn_sane := hsane n (Array.mem_of_getElem? hn)
  obtain ⟨link, hlink⟩ : ∃ link, n.link = some link := Option.ne_none_iff_exists'.mp fun hnone => by
    rw [hn_sane.discovery hnone] at hl
    cases hl
  have hrequests : n.requests = [] := by
    simp only [act, hn, Option.bind_eq_bind, Option.bind_some, Option.bind_eq_none_iff] at hdispatch
    have hnone : n.dispatchNext = none := Option.eq_none_iff_forall_ne_some.mpr fun m hm => by
      have := hdispatch _ hm
      cases this
    rw [Node.dispatchNext, hn_sane.dispatch hlive (by rw [hlink]; rfl)] at hnone
    simp only [hlive, Bool.false_eq_true, if_false] at hnone
    split at hnone
    · assumption
    · cases hnone
  have hdiscover : n.discover c.now c.medium = none := by
    simp only [act, hn, Option.bind_eq_bind, Option.bind_some,
      Option.bind_eq_none_iff] at hdiscovery
    exact Option.eq_none_iff_forall_ne_some.mpr fun m hm => by cases hdiscovery _ hm
  -- with no request left there is room for a name that was heard, so none is held back
  have hheard : n.heard = none := by
    cases hname : n.heard with
    | none => rfl
    | some name =>
      have hroom : n.hasRoom = true := by
        rw [Node.hasRoom, hrequests, decide_eq_true_iff]
        exact hn_sane.room
      simp [Node.discover, hlink, hname, hlive, hroom] at hdiscover
  refine ⟨n, hn, hheard, hrequests, st, hst, ?_⟩
  simp only [Node.discover, hlink, hheard, hl, hlive, Option.map_eq_none_iff] at hdiscover
  rw [length_log]
  exact (Feed.fetch_eq_caughtUp_iff _ _).mp
    (Listener.fetch_of_act_eq_none hst hphase hsocket hdiscover)

/-- What becomes of the announcement with the number `x` at the node `j`: once its stream `σ` has
seen it, it is on its way to dispatch, or there is one consumer, and when nothing is left to do there
is one. There are never two. -/
def Learns (c : Cluster Network) (j σ x : ℕ) (s : String) : Prop :=
  ∃ n ∈ c.nodes[j]?, ∃ st ∈ c.medium.bus.streams[σ]?, n.tasks s ≤ 1 ∧
    (x < st.next → n.heard = some s ∨ s ∈ n.requests ∨ n.tasks s = 1) ∧
    (c.act (.discovery j) = none → c.act (.dispatch j) = none → n.tasks s = 1)

theorem Informed.learns (h : c.Informed j σ x s) (hhear : c.Hearing j σ)
    (hsane : ∀ n ∈ c.nodes, n.Sane) (hxp : x ≤ p)
    (hp : c.medium.bus.log[p]? = some ⟨controlChannel, s.toUTF8⟩) : c.Learns j σ p s := by
  obtain ⟨⟨n, hn, hlive, -⟩, st, hst, -⟩ := id hhear
  have hn_sane := hsane n (Array.mem_of_getElem? hn)
  refine ⟨n, hn, st, hst, hn_sane.tasks_le_one s, fun hlt => ?_, fun hdiscovery hdispatch => ?_⟩
  · exact (h n hn st hst p hxp hlt hp).imp_right (Or.imp_right (hn_sane.tasks_eq_one hlive))
  · obtain ⟨n₁, hn₁, hheard, hrequests, st₁, hst₁, hall⟩ :=
      hhear.all_known hsane hdiscovery hdispatch
    obtain rfl := Option.some.inj (hn₁.symm.trans hn)
    obtain rfl := Option.some.inj (hst₁.symm.trans hst)
    have hlt := (List.getElem?_eq_some_iff.mp hp).1
    rcases h n₁ hn st₁ hst p hxp (by omega) hp with hsome | hmem | hstarted
    · cases hheard.symm.trans hsome
    · rw [hrequests] at hmem
      cases hmem
    · exact hn_sane.tasks_eq_one hlive hstarted

end Cluster

/-! ## Over time -/

namespace Run

variable {r : Run} {a b i j k p q y σ : ℕ} {s : String}

theorem log_mono (r : Run) {x y : ℕ} (hxy : x ≤ y) :
    (r.state x).medium.bus.log <+: (r.state y).medium.bus.log := by
  induction y, hxy using Nat.le_induction with
  | base => exact List.prefix_refl _
  | succ y _ ih => exact ih.trans (Deed.does_log (r.step y))

/-- **A node that listens from some time on knows all that was announced since.** -/
theorem informed (hs : s ≠ "") (hay : a ≤ y)
    (hhear : ∀ k, a ≤ k → k ≤ y → (r.state k).Hearing j σ) :
    (r.state y).Informed j σ (r.state a).medium.bus.log.length s := by
  induction y, hay using Nat.le_induction with
  | base =>
    intro n _ st hst p hxp hp _
    have hbehind := (r.wired a).behind σ st hst
    omega
  | succ y hay ih =>
    refine Cluster.Informed.does (ih fun k hk hky => hhear k hk (Nat.le_succ_of_le hky)) hs
      (r.wired y) (hhear y hay (Nat.le_succ y)) (r.step y)

theorem Publishes.getElem? {m : Message} (h : r.Publishes q p m) (hpy : p < y) :
    (r.state y).medium.bus.log[(r.state p).medium.bus.log.length]? = some m := by
  obtain ⟨ms, hms⟩ := r.log_mono (Nat.succ_le_of_lt hpy)
  rw [← hms, h.2, List.append_assoc, List.getElem?_append_right (Nat.le_refl _), Nat.sub_self]
  rfl

/-- **Announcements.** In every epoch of the node `i` in which a write marks the subscription, one
of those that do announces it, once, and the others publish nothing on the control channel. Whoever
listens to that from the beginning of the epoch on learns of it, and runs one consumer in the
end. -/
theorem announced_once (r : Run) (hs : s ≠ "") (hopens : r.Opens i a)
    (hepoch : ∀ k, a ≤ k → k < b → ¬ r.Resets i k) (hgives : ∀ q k, ¬ r.GivesUp i s q k)
    (hmarks : ∃ q k, a ≤ k ∧ k < b ∧ r.Marks i s q k) :
    ∃ q k, a ≤ k ∧ k < b ∧ r.Marks i s q k ∧
      (∀ q' k', a ≤ k' → k' < b → r.Marks i s q' k' → q' ≠ q →
        ∀ p m, r.Publishes q' p m → m.channel ≠ controlChannel) ∧
      (∀ x, k < x → (r.stage q x).isAnnouncing = true →
        (∀ time ∈ (r.state x).deadline? (.writer q), time ≤ (r.state x).now) →
        ((r.state x).act (.writer q)).isSome = true) ∧
      ∀ y, b ≤ y → (r.stage q y).isAnnouncing = false →
        ∃ p, a ≤ p ∧ p < y ∧ r.Publishes q p ⟨controlChannel, s.toUTF8⟩ ∧
          (∀ p' m, r.Publishes q p' m → m.channel = controlChannel → p' = p) ∧
          ∀ j σ, (∀ x, a ≤ x → x ≤ y → (r.state x).Hearing j σ) →
            (r.state y).Learns j σ (r.state p).medium.bus.log.length s := by
  obtain ⟨q, k, hak, hkb, hwins⟩ := exists_wins hopens hmarks
  refine ⟨q, k, hak, hkb, .inl hwins, fun q' k' hak' hkb' hmarks' hne p m hp => ?_,
    fun x hx hann hdue => hwins.act_isSome hx hann hdue, fun y hby hover => ?_⟩
  · rcases hmarks' with hwins' | hloses
    · exact absurd (hwins'.unique hwins hak' hkb' hak hkb hepoch).2 hne
    · exact hloses.not_publishes hp
  · obtain ⟨p, hkp, hpy, hpub⟩ := hwins.publishes (hgives q) (hkb.trans_le hby) hover
    refine ⟨p, hak.trans (Nat.le_of_lt hkp), hpy, hpub,
      fun p' m hp' hm => hp'.unique hpub hm rfl, fun j σ hhear => ?_⟩
    have hay : a ≤ y := hak.trans (Nat.le_of_lt (hkp.trans hpy))
    exact (informed hs hay hhear).learns (hhear y hay (Nat.le_refl y)) (r.sane y)
      (r.log_mono (hak.trans (Nat.le_of_lt hkp))).length_le (hpub.getElem? hpy)

instance (c : Cluster Network) (i : ℕ) (s : String) (q : ℕ) : Decidable (c.Writes i s q) :=
  inferInstanceAs (Decidable (∃ w ∈ c.writers[q]?, w.node = i ∧ w.subscription = s))

instance (c : Cluster Network) (j σ : ℕ) : Decidable (c.Hearing j σ) :=
  inferInstanceAs (Decidable (_ ∧ _))

instance (r : Run) (i : ℕ) (s : String) (q k : ℕ) : Decidable (r.Wins i s q k) :=
  inferInstanceAs (Decidable (_ ∧ _ ∧ _))

instance (r : Run) (i : ℕ) (s : String) (q k : ℕ) : Decidable (r.GivesUp i s q k) :=
  inferInstanceAs (Decidable (_ ∧ _ ∧ _ ∧ _))

/-- A node writes under `s`, and another joins. In the next epoch the first is called to write twice
at once, and the second of these writes comes first. -/
def lateDeeds : List Deed :=
  List.flatten [
    [.connect false {}, .connect false {}, .join {} (some 0) none, .act (.discovery 0),
      .call 0 none "s" Node.dottedWrite.envelope],
    List.replicate 8 (.act (.writer 0)),
    [.join {} (some 1) none, .act (.discovery 1), .clock 60000, .act (.epoch 0),
      .call 0 none "s" Node.dottedWrite.envelope, .call 0 none "s" (.syncResponse true)],
    List.replicate 3 (.act (.writer 1)), List.replicate 6 (.act (.writer 2)),
    List.replicate 4 (.act (.writer 1)), List.replicate 4 (.act (.discovery 1)),
    [.act (.dispatch 1)]]

def late : Run := .play lateDeeds (by decide +kernel)

theorem not_givesUp_late (q k : ℕ) : ¬ late.GivesUp 0 "s" q k := by
  have hsize : ∀ k < 37, (late.state k).writers.size ≤ 3 := by decide +kernel
  have hnot : ∀ k < 37, ∀ q < 3, ¬ late.GivesUp 0 "s" q k := by decide +kernel
  intro h
  rcases Nat.lt_or_ge k 37 with hk | hk
  · obtain ⟨w, hw, -⟩ := h.1
    have hlt := (Array.getElem?_eq_some_iff.mp hw).1
    exact hnot k hk q (hlt.trans_le (hsize k hk)) h
  · -- nothing is left to do
    have hd : late.deed k = .tend 0 id := by
      show lateDeeds.getD k (.tend 0 id) = .tend 0 id
      rw [List.getD_eq_getElem?_getD, List.getElem?_eq_none hk, Option.getD_none]
    have hstage := stage_succ (r := late) (q := q) (k := k) (by simp [hd])
    rw [GivesUp, hstage] at h
    cases h.2.1.symm.trans h.2.2.1

theorem not_resets_late : ∀ k, 17 ≤ k → k < 29 → ¬ late.Resets 0 k := by
  have hnot : ∀ k < 29, 17 ≤ k → (late.deed k).task? ≠ some (.epoch 0) := by decide +kernel
  intro k hk hk' h
  refine hnot k hk' hk ?_
  rw [h.1]
  rfl

theorem not_announcing_late (q : ℕ) : (late.stage q 37).isAnnouncing = false := by
  have hdone : ∀ w ∈ (late.state 37).writers, w.stage = .done := by decide +kernel
  rw [stage, Cluster.stage]
  cases hw : (late.state 37).writers[q]? with
  | none => rfl
  | some w =>
    rw [Option.elim_some, hdone w (Array.mem_of_getElem? hw)]
    rfl

/-- In the second epoch of this run one write announces the subscription again, and the node that
joined late runs one consumer in the end. -/
theorem announced_once_late : ∃ q p, 17 ≤ p ∧
    late.Publishes q p ⟨controlChannel, "s".toUTF8⟩ ∧
    (∀ p' m, late.Publishes q p' m → m.channel = controlChannel → p' = p) ∧
    ∃ n ∈ (late.state 37).nodes[1]?, n.tasks "s" = 1 := by
  have hopens : late.Opens 0 17 := .inr ⟨16, rfl, rfl, by decide +kernel⟩
  have hmarks : late.Marks 0 "s" 2 25 := .inl (by decide +kernel)
  have hhears : ∀ x ≤ 37, 17 ≤ x → (late.state x).Hearing 1 1 := by decide +kernel
  have hdiscovery : ((late.state 37).act (.discovery 1)).isNone = true := by decide +kernel
  have hdispatch : ((late.state 37).act (.dispatch 1)).isNone = true := by decide +kernel
  obtain ⟨q, k, -, -, -, -, -, hpublishes⟩ :=
    late.announced_once (by decide) hopens not_resets_late not_givesUp_late
      ⟨2, 25, by decide, by decide, hmarks⟩
  obtain ⟨p, hp, -, hpub, honce, hlearns⟩ := hpublishes 37 (by decide) (not_announcing_late q)
  obtain ⟨n, hn, st, -, -, -, hone⟩ := hlearns 1 1 fun x hx hx' => hhears x hx' hx
  exact ⟨q, p, hp, hpub, honce, n, hn,
    hone (Option.isNone_iff_eq_none.mp hdiscovery) (Option.isNone_iff_eq_none.mp hdispatch)⟩

end Run

end Telemetry
