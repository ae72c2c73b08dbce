import Mathlib.Order.Monotone.Basic
import Telemetry.Proofs.Deeds

/-!
# One announcement an epoch

Writes under one subscription may go on side by side, and a new epoch may begin between any two of
their moves. Every write that gets so far marks the subscription in one move: it enters it as
announced, or it finds that another did. In an epoch the first to mark it enters it and announces
it, and the others say nothing of it.

* `Stage.rank`, `Run.stage`: how far a write has come, which it never takes back;
* `Run.Wins`, `Run.Loses`, `Run.Marks`: entering the subscription, or finding it entered;
  `Run.marks_of_passes`: whoever gets further did one of the two;
* `Run.Opens`, `Run.Resets`: where an epoch begins;
* **`Run.exists_wins`**, `Run.Wins.unique`: one write of an epoch enters the subscription;
* **`Run.Wins.publishes`**: it announces it once; `Run.Loses.not_publishes`: the others do not.
-/

namespace Telemetry

/-! ## How far a write has come -/

namespace Stage

/-- How far a write at the stage has come. -/
def rank : Stage → ℕ
  | storing => 0
  | checking => 1
  | marking => 2
  | entering => 3
  | announcing _ => 4
  | resolving => 5
  | requesting _ _ => 6
  | publishing _ _ => 7
  | done => 8

def isAnnouncing : Stage → Bool
  | announcing _ => true
  | _ => false

theorem rank_le_done (x : Stage) : x.rank ≤ done.rank := by
  cases x <;> simp [rank]

theorem isAnnouncing_iff {x : Stage} : x.isAnnouncing = true ↔ x.rank = 4 := by
  cases x <;> simp [isAnnouncing, rank]

end Stage

theorem Writer.Outcome.rank_le {n : Node} {a : Network} {w : Writer} {r : Written Network}
    (h : w.Outcome a n r) : w.stage.rank ≤ r.stage.rank := by
  cases h with
  | quit _ _ => exact w.stage.rank_le_done
  | store hstage | check hstage | known hstage _ | unknown hstage _ | overtaken hstage _
  | enter hstage _ | pause hstage | announce hstage _ _ | unannounced hstage _
  | untargeted hstage _ | targeted hstage _ | request hstage | unrequested hstage | linger hstage
  | publish hstage _ _ | unpublished hstage _ =>
    rw [hstage]
    simp only [Stage.rank]
    omega

namespace Cluster

variable {c c' : Cluster Network} {d : Deed} {i q : ℕ} {s : String}

/-- The stage of a write. One that is still to be called has done nothing. -/
def stage (c : Cluster Network) (q : ℕ) : Stage := (c.writers[q]?).elim .storing (·.stage)

/-- The write `q` is one of the node `i` under the subscription. -/
def Writes (c : Cluster Network) (i : ℕ) (s : String) (q : ℕ) : Prop :=
  ∃ w ∈ c.writers[q]?, w.node = i ∧ w.subscription = s

/-- The node `i` has the subscription among those that it announced in this epoch. -/
def Entered (c : Cluster Network) (i : ℕ) (s : String) : Prop :=
  ∃ n ∈ c.nodes[i]?, n.announced.contains s = true

theorem stage_of_getElem? {w : Writer} (hw : c.writers[q]? = some w) : c.stage q = w.stage := by
  rw [stage, hw, Option.elim_some]

theorem stage_eq (hdoes : d.does c = some c') (hd : d ≠ .act (.writer q)) :
    c'.stage q = c.stage q := by
  cases hw : c.writers[q]? with
  | some w =>
    obtain ⟨w', hw', rfl | ⟨hd', -⟩⟩ := Deed.does_writer hdoes hw
    · rw [stage_of_getElem? hw, stage_of_getElem? hw']
    · exact absurd hd' hd
  | none =>
    rw [stage, stage, hw, Option.elim_none]
    cases hw' : c'.writers[q]? with
    | none => rfl
    | some w' => exact Deed.does_new_writer hdoes hw hw'

theorem act_stage (hact : c.act (.writer q) = some c') : ∃ w n r n', c.writers[q]? = some w ∧
    c.nodes[w.node]? = some n ∧ w.Outcome c.medium n r ∧ c.stage q = w.stage ∧
    c'.stage q = r.stage ∧ c'.medium = r.medium ∧ c'.nodes[w.node]? = some n' ∧
    n'.announced = r.node.announced := by
  obtain ⟨w, n, r, n', hw, hn, hr, hn', rfl⟩ := actWriter_cases hact
  have hq := (Array.getElem?_eq_some_iff.mp hw).1
  have hi := (Array.getElem?_eq_some_iff.mp hn).1
  refine ⟨w, n, r, n', hw, hn, Writer.act_outcome hr, stage_of_getElem? hw, ?_, rfl,
    Array.getElem?_setIfInBounds_self_of_lt hi, ?_⟩
  · rw [stage, Array.getElem?_setIfInBounds_self_of_lt hq, Option.elim_some]
  · rcases hn' with rfl | ⟨-, rfl⟩
    · rfl
    · rfl

theorem rank_le (hdoes : d.does c = some c') (q : ℕ) : (c.stage q).rank ≤ (c'.stage q).rank := by
  by_cases hd : d = .act (.writer q)
  · subst hd
    obtain ⟨w, n, r, n', -, -, hout, hstage, hstage', -⟩ := act_stage hdoes
    rw [hstage, hstage']
    exact hout.rank_le
  · rw [stage_eq hdoes hd]

theorem Writes.does (h : c.Writes i s q) (hdoes : d.does c = some c') : c'.Writes i s q := by
  obtain ⟨w, hw, rfl, rfl⟩ := h
  obtain ⟨w', hw', rfl | ⟨-, honward⟩⟩ := Deed.does_writer hdoes hw
  · exact ⟨w', hw', rfl, rfl⟩
  · exact ⟨w', hw', honward.node, honward.subscription⟩

theorem act_of_due {w : Writer} {n : Node} (hw : c.writers[q]? = some w)
    (hn : c.nodes[w.node]? = some n) (hstage : w.stage ≠ .done)
    (hdue : ∀ time ∈ c.deadline? (.writer q), time ≤ c.now) :
    (c.act (.writer q)).isSome = true := by
  have hmoves : (w.act c.now (c.isRevoked w) c.medium n).isSome = true :=
    Writer.act_isSome hstage fun time ht => hdue time (by rwa [deadline?, hw])
  obtain ⟨r, hr⟩ := Option.isSome_iff_exists.mp hmoves
  simp only [act, actWriter, hw, hn, hr, Option.bind_eq_bind, Option.bind_some, Option.pure_def,
    Option.isSome_some]

end Cluster

/-! ## Marking a subscription -/

namespace Run

variable {r : Run} {a b i k p q : ℕ} {s : String} {m : Message}

/-- The stage of a write at a time. -/
def stage (r : Run) (q k : ℕ) : Stage := (r.state k).stage q

/-- The write `q` of the node `i` enters the subscription as announced. -/
def Wins (r : Run) (i : ℕ) (s : String) (q k : ℕ) : Prop :=
  (r.state k).Writes i s q ∧ r.stage q k = .entering ∧ (r.stage q (k + 1)).isAnnouncing = true

/-- The write `q` of the node `i` finds that another entered the subscription. -/
def Loses (r : Run) (i : ℕ) (s : String) (q k : ℕ) : Prop :=
  (r.state k).Writes i s q ∧ (r.stage q k = .marking ∨ r.stage q k = .entering) ∧
    r.stage q (k + 1) = .resolving

def Marks (r : Run) (i : ℕ) (s : String) (q k : ℕ) : Prop := r.Wins i s q k ∨ r.Loses i s q k

/-- An epoch of the node `i` ends, and the next begins. -/
def Resets (r : Run) (i k : ℕ) : Prop :=
  r.deed k = .act (.epoch i) ∧ ∃ n ∈ (r.state k).nodes[i]?, n.cancelled = false

/-- At this time an epoch of the node `i` has just begun, or the node is not there yet. -/
def Opens (r : Run) (i k : ℕ) : Prop :=
  (r.state k).nodes[i]? = none ∨ ∃ k', k = k' + 1 ∧ r.Resets i k'

/-- The write `q` publishes a message. -/
def Publishes (r : Run) (q k : ℕ) (m : Message) : Prop :=
  r.deed k = .act (.writer q) ∧
    (r.state (k + 1)).medium.bus.log = (r.state k).medium.bus.log ++ [m]

/-- The announcement of the write `q` of the node `i` fails. -/
def GivesUp (r : Run) (i : ℕ) (s : String) (q k : ℕ) : Prop :=
  (r.state k).Writes i s q ∧ (r.stage q k).isAnnouncing = true ∧
    (r.stage q (k + 1)).isAnnouncing = false ∧
    (r.state (k + 1)).medium.bus.log = (r.state k).medium.bus.log

theorem stage_succ (hd : r.deed k ≠ .act (.writer q)) : r.stage q (k + 1) = r.stage q k :=
  Cluster.stage_eq (r.step k) hd

theorem deed_of_stage (h : r.stage q (k + 1) ≠ r.stage q k) : r.deed k = .act (.writer q) :=
  by_contra fun hd => h (stage_succ hd)

theorem rank_mono (r : Run) (q : ℕ) {x y : ℕ} (hxy : x ≤ y) :
    (r.stage q x).rank ≤ (r.stage q y).rank :=
  monotone_nat_of_le_succ (f := fun k => (r.stage q k).rank)
    (fun k => Cluster.rank_le (r.step k) q) hxy

theorem exists_change {P : ℕ → Prop} {x y : ℕ} (hxy : x ≤ y) (hx : P x) (hy : ¬ P y) :
    ∃ k, x ≤ k ∧ k < y ∧ P k ∧ ¬ P (k + 1) := by
  induction y, hxy using Nat.le_induction with
  | base => exact absurd hx hy
  | succ y hxy ih =>
    by_cases hP : P y
    · exact ⟨y, hxy, Nat.lt_succ_self y, hP, hy⟩
    · obtain ⟨k, hxk, hky, h⟩ := ih hP
      exact ⟨k, hxk, Nat.lt_succ_of_lt hky, h⟩

theorem act_stage (hd : r.deed k = .act (.writer q)) : ∃ w n x n',
    (r.state k).writers[q]? = some w ∧ (r.state k).nodes[w.node]? = some n ∧
    w.Outcome (r.state k).medium n x ∧ r.stage q k = w.stage ∧ r.stage q (k + 1) = x.stage ∧
    (r.state (k + 1)).medium = x.medium ∧ (r.state (k + 1)).nodes[w.node]? = some n' ∧
    n'.announced = x.node.announced := by
  have hact := r.step k
  rw [hd] at hact
  exact Cluster.act_stage hact

theorem Wins.entered (h : r.Wins i s q k) :
    ¬ (r.state k).Entered i s ∧ (r.state (k + 1)).Entered i s := by
  obtain ⟨⟨w, hw, rfl, rfl⟩, hentering, hannouncing⟩ := h
  have hd := deed_of_stage (r := r) (q := q) (k := k) fun heq => by
    rw [heq, hentering] at hannouncing
    cases hannouncing
  obtain ⟨w₁, n, x, n', hw₁, hn, hout, hstage, hstage', -, hn', hannounced⟩ := act_stage hd
  obtain rfl := Option.some.inj (hw₁.symm.trans hw)
  rw [hstage] at hentering
  rw [hstage'] at hannouncing
  cases hout with
  | enter _ hnew =>
    refine ⟨fun ⟨m, hm, hmem⟩ => ?_, n', hn', ?_⟩
    · obtain rfl := Option.some.inj (hn.symm.trans hm)
      cases hnew.symm.trans hmem
    · rw [hannounced, Roster.contains_add]
      simp
  | overtaken _ _ | quit _ _ => cases hannouncing
  | store hst | check hst | known hst _ | unknown hst _ | pause hst | announce hst _ _
  | unannounced hst _ | untargeted hst _ | targeted hst _ | request hst | unrequested hst
  | linger hst | publish hst _ _ | unpublished hst _ => cases hst.symm.trans hentering

theorem Loses.entered (h : r.Loses i s q k) : (r.state k).Entered i s := by
  obtain ⟨⟨w, hw, rfl, rfl⟩, hbefore, hresolving⟩ := h
  have hd := deed_of_stage (r := r) (q := q) (k := k) fun heq => by
    rw [heq] at hresolving
    rcases hbefore with hbefore | hbefore <;> cases hbefore.symm.trans hresolving
  obtain ⟨w₁, n, x, n', hw₁, hn, hout, hstage, hstage', -⟩ := act_stage hd
  obtain rfl := Option.some.inj (hw₁.symm.trans hw)
  rw [hstage] at hbefore
  rw [hstage'] at hresolving
  cases hout with
  | known _ hknown | overtaken _ hknown => exact ⟨n, hn, hknown⟩
  | announce hst _ _ | unannounced hst _ =>
    rcases hbefore with hbefore | hbefore <;> cases hst.symm.trans hbefore
  | store _ | quit _ _ | check _ | unknown _ _ | enter _ _ | pause _ | untargeted _ _
  | targeted _ _ | request _ | unrequested _ | linger _ | publish _ _ _ | unpublished _ _ =>
    cases hresolving

/-- A write gets past marking by doing so, or it is over because its node has no link. -/
theorem marks_of_passes (hwrites : (r.state k).Writes i s q) (h : (r.stage q k).rank < 4)
    (h' : 4 ≤ (r.stage q (k + 1)).rank) : r.Marks i s q k ∨ r.stage q (k + 1) = .done := by
  have hd := deed_of_stage (r := r) (q := q) (k := k) fun heq => by
    rw [heq] at h'
    omega
  obtain ⟨w, n, x, n', -, -, hout, hstage, hstage', -⟩ := act_stage hd
  have hbefore : ∀ y, w.stage = y → y.rank < 4 := fun y hy => by rwa [← hy, ← hstage]
  cases hout with
  | enter hst _ => exact .inl (.inl ⟨hwrites, hstage.trans hst, by rw [hstage']; rfl⟩)
  | overtaken hst _ => exact .inl (.inr ⟨hwrites, .inr (hstage.trans hst), hstage'⟩)
  | known hst _ => exact .inl (.inr ⟨hwrites, .inl (hstage.trans hst), hstage'⟩)
  | quit _ _ => exact .inr hstage'
  | store _ | check _ | unknown _ _ =>
    rw [hstage'] at h'
    exact absurd h' (by simp [Stage.rank])
  | pause hst | announce hst _ _ | unannounced hst _ | untargeted hst _ | targeted hst _
  | request hst | unrequested hst | linger hst | publish hst _ _ | unpublished hst _ =>
    exact absurd (hbefore _ hst) (by simp [Stage.rank])

theorem wins_of_entered (h : ¬ (r.state k).Entered i s) (h' : (r.state (k + 1)).Entered i s) :
    ∃ q, r.Wins i s q k := by
  obtain ⟨n', hn', hmem⟩ := h'
  have hold : ∀ {n : Node}, (r.state k).nodes[i]? = some n → n.announced.contains s ≠ true :=
    fun hn hc => h ⟨_, hn, hc⟩
  rcases Deed.node_cases (r.step k) hn' with
    ⟨n, hn, halters⟩ | ⟨-, settings, link, now, readFault, rfl⟩
  · cases halters with
    | @enter q w hd hw hnode hentering hnew =>
      subst hnode
      obtain ⟨w₁, n₁, x, n₁', hw₁, hn₁, hout, hstage, hstage', -, hn₁', hannounced⟩ := act_stage hd
      obtain rfl := Option.some.inj (hw₁.symm.trans hw)
      obtain rfl := Option.some.inj (hn₁.symm.trans hn)
      obtain rfl := Option.some.inj (hn₁'.symm.trans hn')
      have hs : w₁.subscription = s := by
        rw [Roster.contains_add, Bool.or_eq_true] at hmem
        exact (eq_of_beq (hmem.resolve_left (hold hn))).symm
      refine ⟨q, ⟨w₁, hw, rfl, hs⟩, hstage.trans hentering, ?_⟩
      rw [hstage']
      cases hout with
      | enter _ _ => rfl
      | overtaken _ hknown => cases hnew.symm.trans hknown
      | quit _ _ => exact (hold hn (hannounced ▸ hmem)).elim
      | store hst | check hst | known hst _ | unknown hst _ | pause hst | announce hst _ _
      | unannounced hst _ | untargeted hst _ | targeted hst _ | request hst | unrequested hst
      | linger hst | publish hst _ _ | unpublished hst _ => cases hst.symm.trans hentering
    | reset => cases hmem
    | keep | ask | discover | leave | retire | skip | start | consume => exact (hold hn hmem).elim
  · cases link <;> cases hmem

theorem entered_succ (h : (r.state k).Entered i s) (hreset : ¬ r.Resets i k) :
    (r.state (k + 1)).Entered i s := by
  obtain ⟨n, hn, hmem⟩ := h
  obtain ⟨n', hn', halters⟩ := Deed.does_node (r.step k) hn
  refine ⟨n', hn', ?_⟩
  cases halters with
  | enter =>
    rw [Roster.contains_add, hmem]
    rfl
  | reset hd hlive => exact (hreset ⟨hd, n, hn, hlive⟩).elim
  | keep | ask | discover | leave | retire | skip | start | consume => exact hmem

theorem entered_mono {x y : ℕ} (hxy : x ≤ y) (h : (r.state x).Entered i s)
    (hepoch : ∀ k, x ≤ k → k < y → ¬ r.Resets i k) : (r.state y).Entered i s := by
  induction y, hxy using Nat.le_induction with
  | base => exact h
  | succ y hxy ih =>
    refine entered_succ (ih fun k hk hky => hepoch k hk (Nat.lt_succ_of_lt hky)) ?_
    exact hepoch y hxy (Nat.lt_succ_self y)

theorem Opens.not_entered (h : r.Opens i k) : ¬ (r.state k).Entered i s := by
  rintro ⟨n', hn', hmem⟩
  rcases h with hnone | ⟨k, rfl, hd, n, hn, hlive⟩
  · cases hnone.symm.trans hn'
  · have hact := r.step k
    rw [hd] at hact
    obtain ⟨n₁, hn₁, m, signals, hturn, hstate⟩ := Cluster.act_epoch_iff.mp hact
    obtain rfl := Option.some.inj (hn₁.symm.trans hn)
    have hlt := (Array.getElem?_eq_some_iff.mp hn).1
    rw [← hstate] at hn'
    have hn' : ((r.state k).nodes.setIfInBounds i m)[i]? = some n' := hn'
    rw [Array.getElem?_setIfInBounds_self_of_lt hlt] at hn'
    obtain rfl := Option.some.inj hn'
    rcases Node.turn_cases hturn with ⟨hcancelled, -⟩ | ⟨-, time, rfl⟩
    · cases hlive.symm.trans hcancelled
    · cases hmem

/-! ## One write wins -/

/-- **In an epoch in which the subscription is marked, a write enters it.** -/
theorem exists_wins (hopens : r.Opens i a)
    (hmarks : ∃ q k, a ≤ k ∧ k < b ∧ r.Marks i s q k) :
    ∃ q k, a ≤ k ∧ k < b ∧ r.Wins i s q k := by
  obtain ⟨q, k, hak, hkb, hwins | hloses⟩ := hmarks
  · exact ⟨q, k, hak, hkb, hwins⟩
  · -- somebody entered it between the beginning of the epoch and then
    obtain ⟨x, hax, hxk, hnot, hent⟩ := exists_change (P := fun k => ¬ (r.state k).Entered i s)
      hak hopens.not_entered (not_not_intro hloses.entered)
    obtain ⟨q', hwins⟩ := wins_of_entered hnot (not_not.mp hent)
    exact ⟨q', x, hax, hxk.trans hkb, hwins⟩

theorem Wins.unique {q' k' : ℕ} (h : r.Wins i s q k) (h' : r.Wins i s q' k') (hk : a ≤ k)
    (hkb : k < b) (hk' : a ≤ k') (hkb' : k' < b)
    (hepoch : ∀ k, a ≤ k → k < b → ¬ r.Resets i k) : k = k' ∧ q = q' := by
  -- what the first entered is still entered when the second comes
  have hnot : ∀ {x y p p' : ℕ}, r.Wins i s p x → r.Wins i s p' y → a ≤ x → y < b → ¬ x < y :=
    fun hx hy hax hyb hxy => hy.entered.1 (entered_mono hxy hx.entered.2 fun k hxk hky =>
      hepoch k (hax.trans (Nat.le_of_succ_le hxk)) (hky.trans hyb))
  obtain rfl : k = k' := by
    have hle := hnot h h' hk hkb'
    have hge := hnot h' h hk' hkb
    omega
  refine ⟨rfl, ?_⟩
  have hdeed : ∀ {p : ℕ}, r.Wins i s p k → r.deed k = .act (.writer p) := fun hp =>
    deed_of_stage fun heq => by
      have hannouncing := hp.2.2
      rw [heq, hp.2.1] at hannouncing
      cases hannouncing
  exact Task.writer.inj (Deed.act.inj ((hdeed h).symm.trans (hdeed h')))

/-! ## Announcing -/

/-- What is published on the control channel is the announcement of a write that announces, which is
over then. -/
theorem Publishes.announces (h : r.Publishes q k m) (hm : m.channel = controlChannel) :
    (r.stage q k).isAnnouncing = true ∧ r.stage q (k + 1) = .resolving ∧
      ∃ w ∈ (r.state k).writers[q]?, m = w.announcement := by
  obtain ⟨hd, hlog⟩ := h
  obtain ⟨w, n, x, n', hw, -, hout, hstage, hstage', hmed, -⟩ := act_stage hd
  rcases hout.spoken with hsame | ⟨m₁, hput, hsaid⟩
  · rw [hmed, hsame] at hlog
    simp at hlog
  · rw [hmed, hput, Network.put, Network.log_put] at hlog
    obtain rfl : m₁ = m := by simpa using hlog
    rcases hsaid with ⟨⟨att, hst⟩, hst', hann⟩ | ⟨-, hne⟩
    · exact ⟨by rw [hstage, hst]; rfl, hstage'.trans hst', w, hw, hann⟩
    · exact absurd hm hne

/-- A write that stops announcing has announced, or it gave up. -/
theorem publishes_of_leaves (hwrites : (r.state k).Writes i s q)
    (h : (r.stage q k).isAnnouncing = true) (h' : (r.stage q (k + 1)).isAnnouncing = false)
    (hgives : ¬ r.GivesUp i s q k) : r.Publishes q k ⟨controlChannel, s.toUTF8⟩ := by
  have hd := deed_of_stage (r := r) (q := q) (k := k) fun heq => by
    rw [heq, h] at h'
    cases h'
  obtain ⟨w, n, x, n', hw, -, hout, hstage, hstage', hmed, -⟩ := act_stage hd
  obtain ⟨w₁, hw₁, hnode, hs⟩ := hwrites
  obtain rfl := Option.some.inj (hw₁.symm.trans hw)
  rcases hout.spoken with hsame | ⟨m, hput, hsaid⟩
  · refine (hgives ⟨⟨w₁, hw, hnode, hs⟩, h, h', ?_⟩).elim
    rw [hmed, hsame]
  · rw [hstage] at h
    rcases hsaid with ⟨-, -, rfl⟩ | ⟨⟨t, att, hst⟩, -⟩
    · refine ⟨hd, ?_⟩
      rw [hmed, hput, Network.put, Network.log_put, Writer.announcement, hs]
    · rw [hst] at h
      cases h

/-- Why a write gives up: its node has no link, a token is cancelled, or publishing fails or takes
too long. -/
theorem GivesUp.cause (h : r.GivesUp i s q k) : ∃ w n, (r.state k).writers[q]? = some w ∧
    (r.state k).nodes[i]? = some n ∧ (n.link = none ∨ (r.state k).isRevoked w = true ∨
      n.cancelled = true ∨
      (∃ link e, (Medium.publish (r.state k).medium link w.announcement).2 = .error e) ∨
      ∃ ready deadline, w.stage = .announcing (.pausing ready deadline) ∧
        deadline ≤ (r.state k).now) := by
  obtain ⟨⟨w, hw, rfl, -⟩, hann, hnot, hlog⟩ := h
  have hd := deed_of_stage (r := r) (q := q) (k := k) fun heq => by
    rw [heq, hann] at hnot
    cases hnot
  have hact := r.step k
  rw [hd] at hact
  obtain ⟨w₁, n, x, n', hw₁, hn, hx, -, hstate⟩ := Cluster.actWriter_cases hact
  obtain rfl := Option.some.inj (hw₁.symm.trans hw)
  have hq := (Array.getElem?_eq_some_iff.mp hw₁).1
  refine ⟨w₁, n, hw₁, hn, ?_⟩
  rw [stage, Cluster.stage_of_getElem? hw₁] at hann
  rw [stage, hstate, Cluster.stage, Array.getElem?_setIfInBounds_self_of_lt hq,
    Option.elim_some] at hnot
  rw [hstate] at hlog
  cases hlink : n.link with
  | none => exact .inl rfl
  | some link =>
    refine .inr ?_
    cases hst : w₁.stage with
    | announcing att =>
      obtain ⟨n, rfl⟩ : ∃ n' : Node, n = { n' with link := some link } := ⟨n, by rw [← hlink]⟩
      simp only [Writer.act, hst] at hx
      obtain ⟨⟨b, progress⟩, hatt, rfl⟩ := Option.map_eq_some_iff.mp hx
      rcases Attempt.act_cases hatt with ⟨-, att', rfl⟩ | ⟨hpublish, rfl⟩ | ⟨⟨e, rfl⟩, -⟩
      · cases hnot
      · have hlog : b.bus.log = (r.state k).medium.bus.log := hlog
        rw [Network.publish_ok hpublish, Network.put, Network.log_put] at hlog
        simp at hlog
      · rcases Attempt.act_fails hatt with
          hcancelled | ⟨e', hpublish⟩ | ⟨ready, deadline, rfl, hlate⟩
        · rcases Bool.or_eq_true_iff.mp hcancelled with hrevoked | hcancelled
          · exact .inl hrevoked
          · exact .inr (.inl hcancelled)
        · exact .inr (.inr (.inl ⟨link, e', congrArg Prod.snd hpublish⟩))
        · exact .inr (.inr (.inr ⟨ready, deadline, rfl, hlate⟩))
    | storing | checking | marking | entering | resolving | requesting | publishing | done =>
      rw [hst] at hann
      cases hann

theorem writes_mono {x y : ℕ} (hxy : x ≤ y) (h : (r.state x).Writes i s q) :
    (r.state y).Writes i s q := by
  induction y, hxy using Nat.le_induction with
  | base => exact h
  | succ y _ ih => exact ih.does (r.step y)

theorem Publishes.unique {k' : ℕ} {m' : Message} (h : r.Publishes q k m)
    (h' : r.Publishes q k' m') (hm : m.channel = controlChannel)
    (hm' : m'.channel = controlChannel) : k = k' := by
  have hnot : ∀ {x y : ℕ} {m m' : Message}, r.Publishes q x m → r.Publishes q y m' →
      m.channel = controlChannel → m'.channel = controlChannel → ¬ x < y :=
    fun {x y m m'} hx hy hm hm' hxy => by
      have hrank := r.rank_mono q (Nat.succ_le_of_lt hxy)
      rw [(hx.announces hm).2.1, Stage.isAnnouncing_iff.mp (hy.announces hm').1] at hrank
      exact absurd hrank (by decide)
  have hle := hnot h h' hm hm'
  have hge := hnot h' h hm' hm
  omega

/-- **A write that enters the subscription announces it**, as soon as it is not announcing any
more. -/
theorem Wins.publishes (h : r.Wins i s q k) (hgives : ∀ k, ¬ r.GivesUp i s q k) (hkb : k < b)
    (hover : (r.stage q b).isAnnouncing = false) :
    ∃ p, k < p ∧ p < b ∧ r.Publishes q p ⟨controlChannel, s.toUTF8⟩ := by
  obtain ⟨p, hkp, hpb, hann, hnot⟩ := exists_change
    (P := fun k => (r.stage q k).isAnnouncing = true) hkb h.2.2 (by rw [hover]; decide)
  refine ⟨p, hkp, hpb, publishes_of_leaves (writes_mono (Nat.le_of_succ_le hkp) h.1) hann ?_
    (hgives p)⟩
  exact Bool.eq_false_iff.mpr hnot

/-- **A write that finds the subscription entered says nothing of it.** -/
theorem Loses.not_publishes (h : r.Loses i s q k) (hp : r.Publishes q p m) :
    m.channel ≠ controlChannel := by
  intro hm
  have hfour := Stage.isAnnouncing_iff.mp (hp.announces hm).1
  rcases Nat.lt_or_ge k p with hkp | hpk
  · have hrank := r.rank_mono q (Nat.succ_le_of_lt hkp)
    rw [h.2.2, hfour] at hrank
    exact absurd hrank (by decide)
  · have hrank := r.rank_mono q hpk
    rw [hfour] at hrank
    rcases h.2.1 with hbefore | hbefore
    · rw [hbefore] at hrank
      exact absurd hrank (by decide)
    · rw [hbefore] at hrank
      exact absurd hrank (by decide)

theorem exists_node {x y : ℕ} (hxy : x ≤ y) {n : Node} (hn : (r.state x).nodes[i]? = some n) :
    ∃ n', (r.state y).nodes[i]? = some n' := by
  induction y, hxy using Nat.le_induction with
  | base => exact ⟨n, hn⟩
  | succ y _ ih =>
    obtain ⟨n', hn'⟩ := ih
    obtain ⟨n₁, hn₁, -⟩ := Deed.does_node (r.step y) hn'
    exact ⟨n₁, hn₁⟩

theorem Wins.act_isSome {x : ℕ} (h : r.Wins i s q k) (hx : k < x)
    (hann : (r.stage q x).isAnnouncing = true)
    (hdue : ∀ time ∈ (r.state x).deadline? (.writer q), time ≤ (r.state x).now) :
    ((r.state x).act (.writer q)).isSome = true := by
  obtain ⟨w, hw, hnode, -⟩ := writes_mono (Nat.le_of_lt hx) h.1
  obtain ⟨n, hn, -⟩ := h.entered.2
  obtain ⟨n', hn'⟩ := exists_node (Nat.succ_le_of_lt hx) hn
  rw [stage, Cluster.stage_of_getElem? hw] at hann
  refine Cluster.act_of_due hw (hnode ▸ hn') (fun hdone => ?_) hdue
  rw [hdone] at hann
  cases hann

end Run

end Telemetry
