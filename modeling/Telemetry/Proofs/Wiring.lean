import Telemetry.Proofs.Deeds

/-!
# What holds at all times

Whatever happens to a cluster, its nodes start one consumer a subscription, and none of their loops
ends before they are cancelled. Every stream has one listener at most, and that of a discovery is
open on the control channel.

* `Node.Sane`, **`Run.sane`**: what holds of a node at all times;
* `Node.tasks`: the consumers of a subscription that run; `Node.Sane.tasks_le_one`,
  `Node.Sane.tasks_eq_one_iff`: there is one at most, and one for what was started;
* `Cluster.Wired`, **`Run.wired`**: what holds of streams and listeners at all times;
* `Cluster.Wired.stream_eq`: only a discovery itself moves its stream on.
-/

namespace Telemetry

/-! ## Nodes -/

namespace Node

/-- What holds of a node at all times. -/
structure Sane (n : Node) : Prop where
  consumers : n.consumers.map (·.subscription) = n.started.names
  running : n.cancelled = false → ∀ co ∈ n.consumers, co.listener ≠ .ended
  dispatch : n.cancelled = false → n.link.isSome = true → n.dispatch = .receiving
  discovery : n.link = none → n.discovery = .ended
  room : 0 < n.settings.queueCapacity.toNat

theorem sane_create (settings : Settings) (link : Option ℕ) (now : ℕ) (readFault : Option String) :
    Sane { (Node.create settings link now).1 with readFault } := by
  have hroom : 0 < settings.complete.queueCapacity.toNat := by
    show 0 < (Settings.nonzero 1024 settings.queueCapacity).toNat
    unfold Settings.nonzero
    split
    · decide
    · rename_i hne
      exact Nat.pos_of_ne_zero fun h => hne (UInt64.toNat_inj.mp h)
  cases link with
  | none =>
    refine ⟨rfl, fun _ co hco => ?_, fun _ hsome => ?_, fun _ => rfl, hroom⟩
    · cases hco
    · cases hsome
  | some link =>
    refine ⟨rfl, fun _ co hco => ?_, fun _ _ => rfl, fun hnone => ?_, hroom⟩
    · cases hco
    · cases hnone

theorem Sane.alters {c : Cluster Network} {d : Deed} {i : ℕ} {n n' : Node} (h : n.Sane)
    (halters : d.Alters c i n n') : n'.Sane := by
  cases halters with
  | @keep store state handlesTaken held cancelled hmono =>
    have hback : cancelled = false → n.cancelled = false := fun hc =>
      Bool.eq_false_iff.mpr fun hn => Bool.false_ne_true (hc.symm.trans (hmono hn))
    exact ⟨h.consumers, fun hc => h.running (hback hc), fun hc => h.dispatch (hback hc),
      h.discovery, h.room⟩
  | discover _ hlink =>
    refine ⟨h.consumers, h.running, h.dispatch, fun hnone => ?_, h.room⟩
    cases hlink.symm.trans hnone
  | retire hstage =>
    refine ⟨h.consumers, h.running, fun hc hlink => ?_, h.discovery, h.room⟩
    cases hc.symm.trans (hstage (h.dispatch hc hlink))
  | @start name rest hrequests hnew =>
    refine ⟨?_, fun hc co hco => ?_, h.dispatch, h.discovery, h.room⟩
    · have hnames : (n.started.add name).names = n.started.names ++ [name] := by
        rw [Roster.add, dif_neg (by simp [hnew])]
      rw [hnames, List.map_append, h.consumers]
      rfl
    · rcases List.mem_append.mp hco with hco | hco
      · exact h.running hc co hco
      · rw [List.mem_singleton.mp hco]
        exact Listener.noConfusion
  | @consume k co l store _ hco hl =>
    refine ⟨?_, fun hc co' hco' => ?_, h.dispatch, h.discovery, h.room⟩
    · show (n.consumers.set k { co with listener := l }).map (·.subscription) = n.started.names
      rw [List.map_set, ← h.consumers]
      refine List.ext_getElem? fun m => ?_
      by_cases hkm : k = m
      · subst hkm
        rw [List.getElem?_set_self (by simpa using (List.getElem?_eq_some_iff.mp hco).1),
          List.getElem?_map, hco]
        rfl
      · rw [List.getElem?_set_ne hkm]
    · rcases List.mem_or_eq_of_mem_set hco' with hco' | rfl
      · exact h.running hc co' hco'
      · exact hl hc
  | enter | ask | reset | leave | skip =>
    exact ⟨h.consumers, h.running, h.dispatch, h.discovery, h.room⟩

/-- How many consumers of a subscription run. -/
def tasks (n : Node) (s : String) : ℕ :=
  n.consumers.countP fun co => co.subscription == s && co.listener != .ended

variable {n : Node} {s : String}

theorem Sane.tasks_le_one (h : n.Sane) (s : String) : n.tasks s ≤ 1 := by
  have hcount : n.started.names.count s ≤ 1 := List.nodup_iff_count_le_one.mp n.started.nodup s
  rw [← h.consumers, List.count, List.countP_map] at hcount
  refine Nat.le_trans (List.countP_mono_left fun co _ hco => ?_) hcount
  exact (Bool.and_eq_true_iff.mp hco).1

theorem Sane.tasks_eq_one (h : n.Sane) (hlive : n.cancelled = false)
    (hs : n.started.contains s = true) : n.tasks s = 1 := by
  refine Nat.le_antisymm (h.tasks_le_one s) (List.countP_pos_iff.mpr ?_)
  have hmem : s ∈ n.consumers.map (·.subscription) := by
    rw [h.consumers]
    exact List.contains_iff_mem.mp hs
  obtain ⟨co, hco, rfl⟩ := List.mem_map.mp hmem
  exact ⟨co, hco, by simp [h.running hlive co hco]⟩

theorem Sane.tasks_eq_one_iff (h : n.Sane) (hlive : n.cancelled = false) :
    n.tasks s = 1 ↔ s ∈ n.started.names := by
  refine ⟨fun hone => ?_, fun hs => h.tasks_eq_one hlive (List.contains_iff_mem.mpr hs)⟩
  obtain ⟨co, hco, hp⟩ := List.countP_pos_iff.mp (Nat.lt_of_lt_of_eq Nat.zero_lt_one hone.symm)
  rw [← h.consumers, ← eq_of_beq (Bool.and_eq_true_iff.mp hp).1]
  exact List.mem_map_of_mem hco

end Node

theorem Run.sane (r : Run) (k : ℕ) : ∀ n ∈ (r.state k).nodes, n.Sane := by
  refine r.always (P := fun c => ∀ n ∈ c.nodes, n.Sane) ?_ ?_ k
  · intro n hn
    cases hn
    contradiction
  · intro c c' d h hdoes n' hn'
    obtain ⟨i, hi⟩ := Array.getElem?_of_mem hn'
    rcases Deed.node_cases hdoes hi with ⟨n, hn, halters⟩ | ⟨-, settings, link, now, readFault, rfl⟩
    · exact (h n (Array.mem_of_getElem? hn)).alters halters
    · exact Node.sane_create ..

/-! ## Streams and listeners -/

namespace Cluster

variable {c c' : Cluster Network} {d : Deed} {t : Task} {j σ : ℕ} {st : Stream}

/-- What holds of streams and listeners at all times. -/
structure Wired (c : Cluster Network) : Prop where
  opened : ∀ t σ, c.ear? t = some (.listening σ) → σ < c.medium.bus.streams.size
  apart : ∀ t t' σ, c.ear? t = some (.listening σ) → c.ear? t' = some (.listening σ) → t = t'
  tuned : ∀ i σ st, c.ear? (.discovery i) = some (.listening σ) →
    c.medium.bus.streams[σ]? = some st → st.phase = .ended ∨ st.topic = .exact controlChannel
  behind : ∀ (σ : ℕ) st, c.medium.bus.streams[σ]? = some st → st.next ≤ c.medium.bus.log.length

/-- Nobody begins to listen, and no stream becomes another or runs ahead of the messages. -/
theorem Wired.of_streams (h : c.Wired)
    (hears : ∀ t σ, c'.ear? t = some (.listening σ) → c.ear? t = some (.listening σ))
    (hsize : c'.medium.bus.streams.size = c.medium.bus.streams.size)
    (hstreams : ∀ (σ : ℕ) st', c'.medium.bus.streams[σ]? = some st' →
      ∃ st, c.medium.bus.streams[σ]? = some st ∧ st'.topic = st.topic ∧
        (st.phase = .ended → st'.phase = .ended) ∧
        (st.next ≤ c.medium.bus.log.length → st'.next ≤ c'.medium.bus.log.length)) : c'.Wired where
  opened t σ ht := hsize ▸ h.opened t σ (hears t σ ht)
  apart t t' σ ht ht' := h.apart t t' σ (hears t σ ht) (hears t' σ ht')
  tuned i σ st' hi hst' := by
    obtain ⟨st, hst, htopic, hphase, -⟩ := hstreams σ st' hst'
    rw [htopic]
    exact (h.tuned i σ st (hears _ σ hi) hst).imp_left hphase
  behind σ st' hst' := by
    obtain ⟨st, hst, -, -, hnext⟩ := hstreams σ st' hst'
    exact hnext (h.behind σ st hst)

theorem Wired.subscribe (h : c.Wired) {st₁ : Stream}
    (hears : ∀ t' σ, c'.ear? t' = some (.listening σ) → t' ≠ t → c.ear? t' = some (.listening σ))
    (hear : c'.ear? t = some (.listening c.medium.bus.streams.size))
    (hstreams : c'.medium.bus.streams = c.medium.bus.streams.push st₁)
    (hlog : c'.medium.bus.log = c.medium.bus.log)
    (htopic : ∀ i, t = .discovery i → st₁.phase = .ended ∨ st₁.topic = .exact controlChannel)
    (hnext : st₁.next ≤ c.medium.bus.log.length) : c'.Wired := by
  have hown : ∀ σ, c'.ear? t = some (.listening σ) → σ = c.medium.bus.streams.size := fun σ ht =>
    Listener.listening.inj (Option.some.inj (ht.symm.trans hear))
  have hold : ∀ t' σ, c'.ear? t' = some (.listening σ) → t' ≠ t →
      σ < c.medium.bus.streams.size := fun t' σ ht' hne => h.opened t' σ (hears t' σ ht' hne)
  have hget : ∀ (σ : ℕ) st', c'.medium.bus.streams[σ]? = some st' →
      σ = c.medium.bus.streams.size ∧ st' = st₁ ∨ c.medium.bus.streams[σ]? = some st' :=
    fun σ st' hst' => by
      rw [hstreams, Array.getElem?_push] at hst'
      split at hst'
      · rename_i hσ
        exact .inl ⟨hσ, (Option.some.inj hst').symm⟩
      · exact .inr hst'
  refine ⟨fun t' σ ht' => ?_, fun t₁ t₂ σ h₁ h₂ => ?_, fun i σ st' hi hst' => ?_,
    fun σ st' hst' => ?_⟩
  · rw [hstreams, Array.size_push]
    by_cases ht : t' = t
    · subst ht
      rw [hown σ ht']
      omega
    · exact Nat.lt_succ_of_lt (hold t' σ ht' ht)
  · -- the new stream has no listener yet
    by_cases ht₁ : t₁ = t
    · subst ht₁
      by_contra hne
      have hlt := hold t₂ σ h₂ (Ne.symm hne)
      have heq := hown σ h₁
      omega
    · by_cases ht₂ : t₂ = t
      · subst ht₂
        have hlt := hold t₁ σ h₁ ht₁
        have heq := hown σ h₂
        omega
      · exact h.apart t₁ t₂ σ (hears t₁ σ h₁ ht₁) (hears t₂ σ h₂ ht₂)
  · by_cases ht : .discovery i = t
    · rcases hget σ st' hst' with ⟨-, rfl⟩ | hst
      · exact htopic i ht.symm
      · have hlt := (Array.getElem?_eq_some_iff.mp hst).1
        have heq := hown σ (ht ▸ hi)
        omega
    · have hlt := hold _ σ hi ht
      rcases hget σ st' hst' with ⟨heq, -⟩ | hst
      · omega
      · exact h.tuned i σ st' (hears _ σ hi ht) hst
  · rw [hlog]
    rcases hget σ st' hst' with ⟨-, rfl⟩ | hst
    · exact hnext
    · exact h.behind σ st' hst

/-- **Every deed keeps listeners and streams in order.** -/
theorem Wired.does (h : c.Wired) (hdoes : d.does c = some c') : c'.Wired := by
  rcases Deed.does_bus hdoes with ⟨t, ht, rfl, hlog⟩ | ⟨hact, hstreams, -⟩
  · have hears : ∀ t' σ, c'.ear? t' = some (.listening σ) → t' ≠ t →
        c.ear? t' = some (.listening σ) := fun t' σ ht' hne =>
      (Deed.does_ear hdoes ht').resolve_right fun heq => hne (Deed.act.inj heq).symm
    -- so it is enough to know of the task that moves that it does not begin to listen
    have hquiet : (∀ σ, c'.ear? t = some (.listening σ) → c.ear? t = some (.listening σ)) →
        ∀ t' σ, c'.ear? t' = some (.listening σ) → c.ear? t' = some (.listening σ) :=
      fun hq t' σ ht' => by
        by_cases hne : t' = t
        · exact hne ▸ hq σ (hne ▸ ht')
        · exact hears t' σ ht' hne
    have hsame : c'.medium.bus.streams = c.medium.bus.streams →
        (∀ σ, c'.ear? t = some (.listening σ) → c.ear? t = some (.listening σ)) → c'.Wired :=
      fun hstreams hq => h.of_streams (hquiet hq) (congrArg Array.size hstreams)
        fun σ st' hst' => ⟨st', hstreams ▸ hst', rfl, id, fun hn => hlog ▸ hn⟩
    have htended : ∀ {σ : ℕ}, Network.Tends σ c.medium c'.medium →
        (∀ σ, c'.ear? t = some (.listening σ) → c.ear? t = some (.listening σ)) → c'.Wired :=
      fun {σ} htends hq => h.of_streams (hquiet hq) htends.size fun ρ st' hst' => by
        by_cases hρ : ρ = σ
        · subst hρ
          obtain ⟨st, hst, htopic, -, hphase, hnext⟩ := htends.own st' hst'
          rw [← length_log] at hnext
          exact ⟨st, hst, htopic, hphase, fun hn => hlog ▸ hnext hn⟩
        · exact ⟨st', htends.others ρ hρ ▸ hst', rfl, id, fun hn => hlog ▸ hn⟩
    rcases (Cluster.act_outcome ht hdoes).2 with
      ⟨post, link, l, hd, hl, hl', hpost, hout, hmed⟩ | ⟨hear, -, hstreams⟩
    · have hafter : ∀ σ, c'.ear? t = some (.listening σ) → hd.listener = .listening σ :=
        fun σ hσ => Option.some.inj (hl'.symm.trans hσ)
      cases hout with
      | rest _ hnot hbus _ =>
        exact hsame (by rw [hmed, hbus]) fun σ hσ => absurd (hafter σ hσ) (hnot σ)
      | @subscribe st₁ _ htopic hnext hlistener hbus _ =>
        refine h.subscribe hears (hl'.trans (congrArg some hlistener)) (by rw [hmed, hbus]) hlog
          (fun i hi => ?_) ?_
        · rw [hpost i hi] at htopic
          exact htopic.imp_right fun heq => heq.trans (Line.topic_control _)
        · rwa [length_log]
      | tend heq hlistener htends =>
        refine htended (hmed ▸ htends) fun σ hσ => ?_
        rw [hl, heq, ← hlistener, hafter σ hσ]
      | leave _ hnot htends _ =>
        exact htended (hmed ▸ htends) fun σ hσ => absurd (hafter σ hσ) (hnot σ)
    · exact hsame hstreams fun σ hσ => hear ▸ hσ
  · refine h.of_streams (fun t σ ht => ?_) (congrArg Array.size hstreams) fun σ st' hst' =>
      ⟨st', hstreams ▸ hst', rfl, id, fun hn => hn.trans (Deed.does_log hdoes).length_le⟩
    refine (Deed.does_ear hdoes ht).resolve_right fun hd => ?_
    obtain ⟨q, rfl⟩ := hact t hd
    cases ht

theorem Wired.stream_eq (h : c.Wired) (hdoes : d.does c = some c')
    (hear : c.ear? (.discovery j) = some (.listening σ)) (hd : d ≠ .act (.discovery j)) :
    c'.medium.bus.streams[σ]? = c.medium.bus.streams[σ]? := by
  rcases Deed.does_bus hdoes with ⟨t, ht, rfl, -⟩ | ⟨-, hstreams, -⟩
  · refine Cluster.act_streams ht hdoes (h.opened _ σ hear) fun hother => hd ?_
    rw [h.apart _ _ σ hear hother]
  · rw [hstreams]

end Cluster

theorem Run.wired (r : Run) (k : ℕ) : (r.state k).Wired := by
  refine r.always ?_ (fun h hdoes => h.does hdoes) k
  have hnone : ∀ t, ({ medium := {} } : Cluster Network).ear? t = none := fun t => by
    cases t <;> rfl
  refine ⟨fun t σ ht => ?_, fun t t' σ ht => ?_, fun i σ st hi => ?_, fun σ st hst => ?_⟩
  · cases (hnone t).symm.trans ht
  · cases (hnone t).symm.trans ht
  · cases (hnone _).symm.trans hi
  · cases hst

end Telemetry
