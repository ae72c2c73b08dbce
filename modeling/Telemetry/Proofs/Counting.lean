import Telemetry.Proofs.Attempts
import Telemetry.Proofs.Reporting

/-!
# Counters that reconcile

A node counts what its writes tell, and what its loops start. Writes go on side by side, and any of
them may be cancelled, fail, or take too long; epochs end in between. Still the counters of a node
add up, as soon as none of its writes is telling anybody: every subscription that was entered as
announced is counted once by how its announcement ended, and every write that set out to tell its
peers is counted once by what became of its data.

* `Run.counts`, `Run.gauge`: the counters of a node, and where its gauges stand;
* `Run.countsOf`: what one write adds; **`Run.countP_counts`**: a node counts what its writes add;
* `Run.enters`, `Run.resets`: entering a subscription, and starting an epoch;
* **`Run.controls_of_write`**: a write counts one announcement for each subscription it enters;
* `Run.Settles`, **`Run.settles_of_done`**: what a write counts of its data;
* **`Run.counters_reconcile`**: the counters of a node that is telling nobody.
-/

namespace Telemetry

/-! ## Counters -/

namespace Counter

/-- What writes count of announcements, however they end. -/
def isControl : Counter → Bool
  | publish .control _ => true
  | _ => false

/-- What writes count of data, whatever becomes of it. -/
def isOutcome : Counter → Bool
  | publish .data _ | missingTarget => true
  | _ => false

theorem isWritten_of_isControl {c : Counter} (h : c.isControl = true) : c.isWritten = true := by
  cases c <;> simp_all [isWritten, isControl]

theorem isWritten_of_isOutcome {c : Counter} (h : c.isOutcome = true) : c.isWritten = true := by
  cases c <;> simp_all [isWritten, isOutcome]

end Counter

/-! ## What a move of a write counts -/

section Moves

variable {μ : Type} [Medium μ] {now : ℕ} {revoked : Bool} {m : μ} {n : Node} {w : Writer}
  {z : Written μ}

theorem Writer.Accounts.not_start (h : w.Accounts now revoked m n z) :
    ∀ x ∈ z.signals, x.isStart = false := by
  cases h with
  | early _ _ hnone | enter _ _ _ hnone => simp [hnone]
  | on _ _ _ _ haside => exact fun x hx => Signal.not_start_of_aside (haside x hx)
  | @announced link a x _ _ _ _ hsignals =>
    rw [hsignals]
    rcases x with e | ⟨⟩ <;> simp [announcedSignals, Signal.isStart]
  | untargeted _ _ _ hsignals =>
    rw [hsignals, untargetedSignals]
    split <;> simp [Signal.isStart]
  | @published link t a x _ _ _ _ hsignals =>
    rw [hsignals]
    rcases x with e | ⟨⟩ <;> simp [publishedSignals, Signal.isStart]

/-- **A move of a write counts an announcement where it stops announcing**, and it starts where it
enters the subscription. -/
theorem Writer.Accounts.controls (h : w.Accounts now revoked m n z) :
    (z.signals.filterMap Signal.counter?).countP Counter.isControl + z.stage.isAnnouncing.toNat =
      w.stage.isAnnouncing.toNat +
        (w.stage == .entering && !n.announced.contains w.subscription).toNat := by
  have hquiet : w.stage ≠ .entering →
      (w.stage == .entering && !n.announced.contains w.subscription) = false := fun hne => by
    simp [hne]
  cases h with
  | early hrank hrank' hnone =>
    have hst : w.stage.isAnnouncing = false := by
      cases hst : w.stage <;> simp_all [Stage.rank, Stage.isAnnouncing]
    have hst' : z.stage.isAnnouncing = false := by
      cases hst' : z.stage <;> simp_all [Stage.rank, Stage.isAnnouncing]
    rw [hnone, hst, hst', hquiet fun hst => by simp [hst, Stage.rank] at hrank]
    rfl
  | on _ _ hsame hknown haside =>
    have hnot : (w.stage == .entering && !n.announced.contains w.subscription) = false := by
      by_cases hst : w.stage = .entering
      · simp [hknown hst]
      · exact hquiet hst
    rw [Signal.countP_of_aside (fun _ => Counter.isWritten_of_isControl) haside, hsame, hnot,
      Nat.zero_add]
    rfl
  | enter hst hnew hst' hnone => simp [hst, hnew, hst', hnone, Stage.isAnnouncing]
  | @announced link a x _ hst _ hst' hsignals =>
    rw [hquiet (by simp [hst]), hst, hst', hsignals]
    rcases x with e | ⟨⟩ <;> rfl
  | untargeted hst _ hst' hsignals =>
    rw [hquiet (by simp [hst]), hst, hst', hsignals, untargetedSignals]
    split <;> rfl
  | @published link t a x _ hst _ hst' hsignals =>
    rw [hquiet (by simp [hst]), hst, hst', hsignals]
    rcases x with e | ⟨⟩ <;> rfl

theorem Writer.Accounts.announcing_iff (h : w.Accounts now revoked m n z)
    (hst : w.stage = .entering) :
    z.stage.isAnnouncing = true ↔ n.announced.contains w.subscription = false := by
  cases h with
  | enter _ hnew hst' => simp [hst', hnew, Stage.isAnnouncing]
  | on _ _ hsame hknown =>
    rw [hsame, hst, hknown hst]
    simp [Stage.isAnnouncing]
  | early hrank => simp [hst, Stage.rank] at hrank
  | announced _ hst' | untargeted hst' | published _ hst' => cases hst.symm.trans hst'

theorem Writer.Accounts.announcements (h : w.Accounts now revoked m n z) :
    (z.signals.filterMap Signal.counter?).count .announcement =
      (z.signals.filterMap Signal.counter?).count (.publish .control .success) := by
  cases h with
  | early _ _ hnone | enter _ _ _ hnone =>
    rw [hnone]
    rfl
  | on _ _ _ _ haside =>
    rw [Signal.count_of_aside rfl haside, Signal.count_of_aside rfl haside]
  | @announced link a x _ _ _ _ hsignals =>
    rw [hsignals]
    rcases x with e | ⟨⟩
    · cases e <;> rfl
    · rfl
  | untargeted _ _ _ hsignals =>
    rw [hsignals, untargetedSignals]
    split <;> rfl
  | @published link t a x _ _ _ _ hsignals =>
    rw [hsignals]
    rcases x with e | ⟨⟩
    · rfl
    · rfl

theorem Writer.Accounts.outcomes (h : w.Accounts now revoked m n z) (hgoes : z.stage ≠ .done) :
    (z.signals.filterMap Signal.counter?).filter Counter.isOutcome = [] := by
  cases h with
  | early _ _ hnone | enter _ _ _ hnone =>
    rw [hnone]
    rfl
  | on _ _ _ _ haside =>
    have hzero := Signal.countP_of_aside (fun _ => Counter.isWritten_of_isOutcome) haside
    rwa [List.countP_eq_length_filter, List.length_eq_zero_iff] at hzero
  | @announced link a x _ _ _ _ hsignals =>
    rw [hsignals]
    rcases x with e | ⟨⟩
    · rfl
    · rfl
  | untargeted _ _ hdone | published _ _ _ hdone => exact absurd hdone hgoes

end Moves

namespace Stage

/-- A write at the stage is telling its peers. -/
def isPropagating : Stage → Bool
  | storing | checking | done => false
  | _ => true

theorem isPropagating_iff {x : Stage} : x.isPropagating = true ↔ 2 ≤ x.rank ∧ x ≠ .done := by
  cases x <;> simp [isPropagating, rank]

end Stage

/-! ## The counters of a node -/

namespace Run

variable {r : Run} {i k q x y : ℕ} {s : String} {e : Envelope} {n : Node} {p : Counter → Bool}

/-- What the node `i` has counted so far. -/
def counts (r : Run) (i y : ℕ) : List Counter := (r.reports i y).filterMap Signal.counter?

/-- Where a gauge of the node `i` stands. It starts at zero. -/
def gauge (r : Run) (g : Gauge) (i y : ℕ) : ℕ :=
  ((r.reports i y).filterMap (Signal.level? g)).getLast?.getD 0

/-- What the write `q` counts at a time. -/
def toldOf (r : Run) (q k : ℕ) : List Counter :=
  if (r.deed k).task? = some (.writer q) then (r.told k).filterMap Signal.counter? else []

/-- What the write `q` has counted so far. -/
def countsOf (r : Run) (q y : ℕ) : List Counter := (List.range y).flatMap (r.toldOf q)

theorem counts_succ (r : Run) (i y : ℕ) :
    r.counts i (y + 1) = r.counts i y ++ (r.toldBy i y).filterMap Signal.counter? := by
  rw [counts, reports_succ, List.filterMap_append, counts]

theorem countsOf_succ (r : Run) (q y : ℕ) :
    r.countsOf q (y + 1) = r.countsOf q y ++ r.toldOf q y := by
  rw [countsOf, List.range_succ, List.flatMap_append, List.flatMap_singleton, countsOf]

theorem toldOf_eq (hd : r.deed k = .act (.writer q)) :
    r.toldOf q k = (r.told k).filterMap Signal.counter? :=
  if_pos (Deed.task?_eq_some_iff.mpr hd)

theorem toldOf_of_ne (hd : r.deed k ≠ .act (.writer q)) : r.toldOf q k = [] :=
  if_neg fun h => hd (Deed.task?_eq_some_iff.mp h)

/-! ## Moves of writes -/

/-- A write that is telling its peers has a node with a link. -/
theorem linked (r : Run) (k : ℕ) {w : Writer} (hw : (r.state k).writers[q]? = some w)
    (hon : w.stage.isPropagating = true) :
    ∃ n, (r.state k).nodes[w.node]? = some n ∧ n.link.isSome = true := by
  refine r.always (P := fun c => ∀ (q : ℕ) w, c.writers[q]? = some w →
    w.stage.isPropagating = true → ∃ n, c.nodes[w.node]? = some n ∧ n.link.isSome = true)
    ?_ ?_ k q w hw hon
  · intro q w hw
    cases hw
  · intro c c' d h hdoes q w' hw' hon
    have hkeep : ∀ {i : ℕ} {n : Node}, c.nodes[i]? = some n → n.link.isSome = true →
        ∃ n, c'.nodes[i]? = some n ∧ n.link.isSome = true := fun hn hlink => by
      obtain ⟨n', hn', halters⟩ := Deed.does_node hdoes hn
      exact ⟨n', hn', halters.settled.2.1 ▸ hlink⟩
    rcases Deed.writer_cases hdoes hw' with hw | ⟨-, hstoring⟩ | ⟨-, w, n, z, hw, hn, hz, rfl⟩
    · obtain ⟨n, hn, hlink⟩ := h q w' hw hon
      exact hkeep hn hlink
    · rw [hstoring] at hon
      cases hon
    · refine hkeep hn ?_
      cases hlink : n.link with
      | some link => rfl
      | none =>
        rcases Writer.act_alone hlink hz with ⟨-, hst⟩ | ⟨-, hst⟩ <;>
          simp [hst, Stage.isPropagating] at hon

theorem exists_accounts (hd : r.deed k = .act (.writer q)) : ∃ w n z,
    (r.state k).writers[q]? = some w ∧ (r.state k).nodes[w.node]? = some n ∧
    r.stage q k = w.stage ∧ r.stage q (k + 1) = z.stage ∧ r.told k = z.signals ∧
    w.Accounts (r.state k).now ((r.state k).isRevoked w) (r.state k).medium n z := by
  obtain ⟨w, n, z, hw, hn, hz, hstage, hstage', hdone, -⟩ := exists_writer hd
  have hsignals : r.told k = z.signals := by
    have hact := r.step k
    rw [hd] at hact
    obtain ⟨w₁, n₁, z₁, n', hw₁, hn₁, hz₁, -, hstate⟩ := Cluster.actWriter_cases hact
    obtain rfl := Option.some.inj (hw₁.symm.trans hw)
    obtain rfl := Option.some.inj (hn₁.symm.trans hn)
    obtain rfl := Option.some.inj (hz₁.symm.trans hz)
    rw [told, hstate, List.drop_left]
  refine ⟨w, n, z, hw, hn, hstage, hstage', hsignals, Writer.act_accounts (fun hlate => ?_) hz⟩
  obtain ⟨n₁, hn₁, hlink⟩ := r.linked k hw (Stage.isPropagating_iff.mpr ⟨hlate, hdone⟩)
  obtain rfl := Option.some.inj (hn₁.symm.trans hn)
  exact hlink

/-! ## A node counts what its writes count -/

theorem mem_writes_iff (hky : k ≤ y) (hd : r.deed k = .act (.writer q)) :
    q ∈ (r.state k).writes i ↔ q ∈ (r.state y).writes i := by
  obtain ⟨w₀, n, z, hw₀, -⟩ := exists_writer hd
  simp only [Cluster.mem_writes]
  constructor
  · rintro ⟨w, hw, hnode⟩
    obtain ⟨w', hw', hnode', -⟩ := says_mono hky ⟨w, hw, hnode, rfl, rfl⟩
    exact ⟨w', hw', hnode'⟩
  · rintro ⟨w', hw', hnode'⟩
    obtain ⟨w, hw, hnode, -⟩ := says_of_later hky hw₀ ⟨w', hw', hnode', rfl, rfl⟩
    exact ⟨w, hw, hnode⟩

theorem sum_writes {f : ℕ → ℕ → ℕ} (hf : ∀ q k, f q k ≠ 0 → r.deed k = .act (.writer q))
    (hk : k < y) : (((r.state y).writes i).map (f · k)).sum = (r.mover? i k).elim 0 (f · k) := by
  have hzero : ∀ p, r.deed k ≠ .act (.writer p) → f p k = 0 := fun p hd =>
    by_contra fun hne => hd (hf p k hne)
  have hnodup : ((r.state y).writes i).Nodup := List.nodup_range.filter _
  cases hmover : r.mover? i k with
  | some q =>
    obtain ⟨hd, hq⟩ := mover?_eq_some_iff.mp hmover
    have hmem := (mem_writes_iff (Nat.le_of_lt hk) hd).mp hq
    rw [List.sum_map_eq_nsmul_single q, List.count_eq_one_of_mem hnodup hmem, one_nsmul,
      Option.elim_some]
    exact fun p hp _ => hzero p fun hd' =>
      hp (Task.writer.inj (Deed.act.inj (hd'.symm.trans hd)))
  | none =>
    refine List.sum_eq_zero fun v hv => ?_
    obtain ⟨q, hq, rfl⟩ := List.mem_map.mp hv
    refine hzero q fun hd => ?_
    have hmem := (mem_writes_iff (Nat.le_of_lt hk) hd).mpr hq
    cases hmover.symm.trans (mover?_eq_some_iff.mpr ⟨hd, hmem⟩)

/-- **What the writes of a node come to is the sum over its moves**, in whatever order they move. -/
theorem sum_mover {f : ℕ → ℕ → ℕ} (hf : ∀ q k, f q k ≠ 0 → r.deed k = .act (.writer q)) :
    (((r.state y).writes i).map fun q => ((List.range y).map (f q)).sum).sum =
      ((List.range y).map fun k => (r.mover? i k).elim 0 (f · k)).sum := by
  have hswap := Multiset.sum_map_sum_map (↑((r.state y).writes i)) (↑(List.range y)) (f := f)
  simp only [Multiset.map_coe, Multiset.sum_coe] at hswap
  rw [hswap]
  exact congrArg List.sum (List.map_congr_left fun k hk => sum_writes hf (List.mem_range.mp hk))

/-- At a time a node counts what its write counts that moves, as far as writes are concerned. -/
theorem countP_toldBy (hp : ∀ c, p c = true → c.isWritten = true) (i k : ℕ) :
    ((r.toldBy i k).filterMap Signal.counter?).countP p =
      (r.mover? i k).elim 0 fun q => (r.toldOf q k).countP p := by
  have hloop : (∀ q, r.deed k ≠ .act (.writer q)) →
      ((r.told k).filterMap Signal.counter?).countP p = 0 →
      ((r.toldBy i k).filterMap Signal.counter?).countP p =
        (r.mover? i k).elim 0 fun q => (r.toldOf q k).countP p := fun hd hzero => by
    rw [mover?_of_ne hd, Option.elim_none, toldBy]
    split
    · exact hzero
    · rfl
  have hnone : ∀ c, c.isWritten = false → p c = false := fun c hc =>
    Bool.eq_false_iff.mpr fun h => by cases hc.symm.trans (hp c h)
  cases (r.told_cases k).2 with
  | reset hd _ _ _ hl =>
    refine hloop (by simp [hd]) ?_
    simp [hl, Signal.counter?, hnone .topologyReset rfl]
  | start hd _ _ hl =>
    refine hloop (by simp [hd]) ?_
    simp [hl, Signal.counter?, hnone .channelStarted rfl]
  | aside hd _ _ hl =>
    exact hloop hd (Signal.countP_of_aside hp hl)
  | @write q w n z hd hw hn hz _ hl =>
    have hauthor : (r.state k).author? (r.deed k) = some w.node := by
      rw [hd, Cluster.author?, hw, Option.map_some]
    rw [toldBy, hauthor, mover?_eq hd hw]
    by_cases hnode : w.node = i
    · rw [hnode, if_pos rfl, if_pos rfl, Option.elim_some, toldOf_eq hd]
    · rw [if_neg (by simpa using hnode), if_neg hnode]
      rfl

/-- **A node counts what its writes count.** -/
theorem countP_counts (hp : ∀ c, p c = true → c.isWritten = true) (i y : ℕ) :
    (r.counts i y).countP p =
      (((r.state y).writes i).map fun q => (r.countsOf q y).countP p).sum := by
  have hdeed : ∀ q k, (r.toldOf q k).countP p ≠ 0 → r.deed k = .act (.writer q) :=
    fun q k hne => by_contra fun hd => hne (by rw [toldOf_of_ne hd, List.countP_nil])
  have hof : ∀ q, (r.countsOf q y).countP p =
      ((List.range y).map fun k => (r.toldOf q k).countP p).sum := fun q => List.countP_flatMap
  rw [counts, reports, List.filterMap_flatMap, List.countP_flatMap]
  simp only [hof]
  rw [sum_mover hdeed]
  exact congrArg List.sum (List.map_congr_left fun k _ => countP_toldBy hp i k)

theorem count_counts {c : Counter} (hc : c.isWritten = true) (i y : ℕ) :
    (r.counts i y).count c = (((r.state y).writes i).map fun q => (r.countsOf q y).count c).sum :=
  countP_counts (fun _ => Counter.isWritten_of_beq hc) i y

/-! ## Announcements -/

/-- The write `q` enters its subscription as announced, and is told that it was new. -/
def entersBy (r : Run) (q k : ℕ) : Bool :=
  (r.deed k).task? == some (.writer q) && ((r.state k).writers[q]?).any fun w =>
    w.stage == .entering && ((r.state k).nodes[w.node]?).any fun n =>
      (n.announced.enter w.subscription).2

/-- A write of the node `i` enters its subscription as announced, and is told that it was new. -/
def enters (r : Run) (i k : ℕ) : Bool := (r.mover? i k).any (r.entersBy · k)

theorem deed_of_entersBy (h : r.entersBy q k = true) : r.deed k = .act (.writer q) := by
  rw [entersBy, Bool.and_eq_true] at h
  exact Deed.task?_eq_some_iff.mp (eq_of_beq h.1)

theorem entersBy_eq {w : Writer} (hd : r.deed k = .act (.writer q))
    (hw : (r.state k).writers[q]? = some w) (hn : (r.state k).nodes[w.node]? = some n) :
    r.entersBy q k = (w.stage == .entering && !n.announced.contains w.subscription) := by
  simp [entersBy, hd, Deed.task?, hw, hn, Roster.enter]

/-- **Entering a subscription is what makes a write the one of its epoch that announces it.** -/
theorem enters_iff_wins : r.enters i k = true ↔ ∃ s q, r.Wins i s q k := by
  rw [enters, Option.any_eq_true]
  constructor
  · rintro ⟨q, hmover, henters⟩
    obtain ⟨hd, hmem⟩ := mover?_eq_some_iff.mp hmover
    obtain ⟨w, n, z, hw, hn, hstage, hstage', -, haccounts⟩ := exists_accounts hd
    obtain ⟨w', hw', hnode⟩ := Cluster.mem_writes.mp hmem
    obtain rfl := Option.some.inj (hw.symm.trans hw')
    rw [entersBy_eq hd hw hn, Bool.and_eq_true, beq_iff_eq, Bool.not_eq_true'] at henters
    refine ⟨w.subscription, q, ⟨w, hw, hnode, rfl⟩, hstage.trans henters.1, ?_⟩
    rw [hstage']
    exact haccounts.announcing_iff henters.1 |>.mpr henters.2
  · rintro ⟨s, q, ⟨w, hw, hnode, -⟩, hst, hst'⟩
    have hd := deed_of_stage (r := r) (q := q) (k := k) fun heq => by
      rw [heq, hst] at hst'
      cases hst'
    refine ⟨q, mover?_eq_some_iff.mpr ⟨hd, Cluster.mem_writes.mpr ⟨w, hw, hnode⟩⟩, ?_⟩
    obtain ⟨w', n, z, hw', hn, hstage, hstage', -, haccounts⟩ := exists_accounts hd
    obtain rfl := Option.some.inj (hw'.symm.trans hw)
    rw [hstage] at hst
    rw [hstage'] at hst'
    rw [entersBy_eq hd hw hn, hst, (haccounts.announcing_iff hst).mp hst']
    rfl

/-- **A write counts one announcement for each subscription that it enters**, when it has done with
announcing it. -/
theorem controls_of_write (r : Run) (q y : ℕ) :
    (r.countsOf q y).countP Counter.isControl + (r.stage q y).isAnnouncing.toNat =
      ((List.range y).map fun k => (r.entersBy q k).toNat).sum := by
  induction y with
  | zero =>
    rw [stage, r.start]
    rfl
  | succ y ih =>
    rw [countsOf_succ, List.countP_append, List.range_succ, List.map_append, List.sum_append, ← ih,
      List.map_singleton, List.sum_singleton]
    by_cases hd : r.deed y = .act (.writer q)
    · obtain ⟨w, n, z, hw, hn, hstage, hstage', htold, haccounts⟩ := exists_accounts hd
      have hmove := haccounts.controls
      rw [toldOf_eq hd, htold, hstage, hstage',
        entersBy_eq hd hw hn]
      omega
    · rw [toldOf_of_ne hd, stage_succ hd,
        Bool.eq_false_iff.mpr fun h => hd (deed_of_entersBy h)]
      rfl

theorem announcements_of_write (q k : ℕ) :
    (r.toldOf q k).count .announcement = (r.toldOf q k).count (.publish .control .success) := by
  by_cases hd : r.deed k = .act (.writer q)
  · obtain ⟨w, n, z, hw, hn, hstage, hstage', htold, haccounts⟩ := exists_accounts hd
    rw [toldOf_eq hd, htold]
    exact haccounts.announcements
  · rw [toldOf_of_ne hd]
    rfl

/-- **What a node counts of announcements is the number of subscriptions that its writes entered**,
when none of them is announcing. -/
theorem controls_counted (hidle : ∀ q ∈ (r.state y).writes i, (r.stage q y).isPropagating = false) :
    (r.counts i y).countP Counter.isControl = (List.range y).countP (r.enters i) := by
  have hwrite : ∀ q ∈ (r.state y).writes i, (r.countsOf q y).countP Counter.isControl =
      ((List.range y).map fun k => (r.entersBy q k).toNat).sum := fun q hq => by
    have hquiet : (r.stage q y).isAnnouncing = false := by
      have hnot := hidle q hq
      cases hst : r.stage q y <;> simp_all [Stage.isPropagating, Stage.isAnnouncing]
    rw [← r.controls_of_write q y, hquiet]
    rfl
  have hdeed : ∀ q k, (r.entersBy q k).toNat ≠ 0 → r.deed k = .act (.writer q) :=
    fun q k hne => deed_of_entersBy (by revert hne; cases r.entersBy q k <;> simp)
  have hsum : ∀ l : List ℕ, l.countP (r.enters i) = (l.map fun k => (r.enters i k).toNat).sum :=
    fun l => by
      induction l with
      | nil => rfl
      | cons k l ih =>
        rw [List.countP_cons, List.map_cons, List.sum_cons, ih, Nat.add_comm]
        cases r.enters i k <;> rfl
  rw [countP_counts (fun c hc => Counter.isWritten_of_isControl hc), List.map_congr_left hwrite,
    sum_mover hdeed, hsum]
  refine congrArg List.sum (List.map_congr_left fun k _ => ?_)
  rw [enters]
  cases r.mover? i k <;> rfl

theorem announcements_counted (i y : ℕ) :
    (r.counts i y).count .announcement = (r.counts i y).count (.publish .control .success) := by
  have hwrite : ∀ q, (r.countsOf q y).count .announcement =
      (r.countsOf q y).count (.publish .control .success) := fun q => by
    rw [countsOf, List.count_flatMap, List.count_flatMap]
    exact congrArg List.sum (List.map_congr_left fun k _ => announcements_of_write q k)
  rw [count_counts rfl, count_counts rfl]
  exact congrArg List.sum (List.map_congr_left fun q _ => hwrite q)

/-! ## Data -/

/-- The write `q` has set out to tell its peers. -/
def SetsOut (r : Run) (q y : ℕ) : Prop := ∃ k ≤ y, (r.stage q k).isPropagating = true

/-- What the write `q` counts of the data of an envelope. -/
inductive Settles (r : Run) (q y : ℕ) (e : Envelope) : List Counter → Prop
  /-- An update with a target: its publish has ended. -/
  | published {k link : ℕ} {w : Writer} {n : Node} {t : String} {a : Attempt}
      {x : Except SyncError Unit} : k < y → r.deed k = .act (.writer q) →
      (r.state k).writers[q]? = some w → (r.state k).nodes[w.node]? = some n →
      n.link = some link → e.target? = some t → w.stage = .publishing t a →
      a.Ends link n.settings.writeTimeout ((r.state k).isRevoked w || n.cancelled) (r.state k).now
        (w.data t) (r.state k).medium x →
      Settles r q y e [.publish .data (statusOf x)]
  /-- An update without a target. -/
  | missing : e.target? = none → e.notification?.isSome = true → Settles r q y e [.missingTarget]
  /-- No update. -/
  | other : e.notification? = none → Settles r q y e []

theorem countsOf_of_not_setsOut (h : ¬ r.SetsOut q y) : r.countsOf q y = [] := by
  refine List.flatMap_eq_nil_iff.mpr fun k hk => ?_
  by_cases hd : r.deed k = .act (.writer q)
  · obtain ⟨w, n, z, -, -, hstage, hstage', htold, haccounts⟩ := exists_accounts hd
    have hnot : w.stage.isPropagating = false := Bool.eq_false_iff.mpr fun hon =>
      h ⟨k, Nat.le_of_lt (List.mem_range.mp hk), hstage ▸ hon⟩
    rw [toldOf_eq hd, htold]
    cases haccounts with
    | early _ _ hnone =>
      rw [hnone]
      rfl
    | on hlate hgoes =>
      have hdone : w.stage ≠ .done := fun hdone =>
        hgoes (hstage'.symm.trans (done_mono (Nat.le_succ k) (hstage.trans hdone)))
      cases hnot.symm.trans (Stage.isPropagating_iff.mpr ⟨hlate, hdone⟩)
    | enter hst | announced _ hst | untargeted hst | published _ hst =>
      rw [hst] at hnot
      cases hnot
  · exact toldOf_of_ne hd

theorem outcomes_of_not_done (h : r.stage q y ≠ .done) :
    (r.countsOf q y).filter Counter.isOutcome = [] := by
  rw [countsOf, List.filter_flatMap]
  refine List.flatMap_eq_nil_iff.mpr fun k hk => ?_
  by_cases hd : r.deed k = .act (.writer q)
  · obtain ⟨w, n, z, -, -, -, hstage', htold, haccounts⟩ := exists_accounts hd
    rw [toldOf_eq hd, htold]
    refine haccounts.outcomes fun hdone => h (done_mono (List.mem_range.mp hk) ?_)
    exact hstage'.trans hdone
  · rw [toldOf_of_ne hd]
    rfl

theorem countsOf_of_done (hxy : x ≤ y) (h : r.stage q x = .done) :
    r.countsOf q y = r.countsOf q x := by
  induction y, hxy using Nat.le_induction with
  | base => rfl
  | succ y hxy ih =>
    have hd : r.deed y ≠ .act (.writer q) := fun hd => by
      obtain ⟨w, n, z, -, -, -, hstage, -, hnot, -⟩ := exists_writer hd
      exact hnot (hstage.symm.trans (done_mono hxy h))
    rw [countsOf_succ, toldOf_of_ne hd, List.append_nil, ih]

/-- **A write that set out has counted once what became of its data**, when it is over. -/
theorem settles_of_done (hcalled : (r.state y).Says i s e q) (hout : r.SetsOut q y)
    (hdone : r.stage q y = .done) :
    r.Settles q y e ((r.countsOf q y).filter Counter.isOutcome) := by
  obtain ⟨x, hxy, hon⟩ := hout
  -- the move by which it comes to its end
  obtain ⟨k, hxk, hky, hgoes, hends⟩ := exists_change (P := fun k => r.stage q k ≠ .done) hxy
    (by rintro hst; rw [hst] at hon; cases hon) (not_not_intro hdone)
  have hends := not_not.mp hends
  have hd := deed_of_stage (r := r) (q := q) (k := k) fun heq => hgoes (heq.symm.trans hends)
  obtain ⟨w, n, z, hw, hn, hstage, hstage', htold, haccounts⟩ := exists_accounts hd
  obtain ⟨w', hw', -, -, rfl⟩ := says_of_later (Nat.le_of_lt hky) hw hcalled
  obtain rfl := Option.some.inj (hw.symm.trans hw')
  have hlate : 2 ≤ w.stage.rank := by
    rw [← hstage]
    exact (Stage.isPropagating_iff.mp hon).1.trans (r.rank_mono q hxk)
  rw [hstage'] at hends
  rw [countsOf_of_done hky (hstage'.trans hends), countsOf_succ, List.filter_append,
    outcomes_of_not_done hgoes, List.nil_append, toldOf_eq hd, htold]
  cases haccounts with
  | early hearly => exact absurd hearly (Nat.not_lt.mpr hlate)
  | on _ hgoes' => exact absurd hends hgoes'
  | enter _ _ hst' | announced _ _ _ hst' => cases hst'.symm.trans hends
  | untargeted _ htarget _ hsignals =>
    rw [hsignals, Writer.untargetedSignals]
    cases hupdate : w.envelope.notification? with
    | none => exact .other hupdate
    | some u => exact .missing htarget (by rw [hupdate]; rfl)
  | @published link t a x hlink hst hends _ hsignals =>
    have hone : ((w.publishedSignals t x).filterMap Signal.counter?).filter Counter.isOutcome =
        [.publish .data (statusOf x)] := by
      rcases x with e | ⟨⟩
      · rfl
      · rfl
    rw [hsignals, hone]
    exact .published hky hd hw hn hlink (r.aimed k hw t (.inr ⟨a, hst⟩)) hst hends

/-! ## Epochs and dispatch -/

/-- The loop of epochs of the node `i` starts an epoch. -/
def resets (r : Run) (i k : ℕ) : Bool :=
  (r.deed k).task? == some (.epoch i) && ((r.state k).nodes[i]?).any (!·.cancelled)

theorem resets_iff : r.resets i k = true ↔ r.Resets i k := by
  rw [resets, Bool.and_eq_true, beq_iff_eq, Deed.task?_eq_some_iff, Option.any_eq_true]
  simp only [Bool.not_eq_true', Resets, Option.mem_def]

theorem starts_toldBy (r : Run) (i k : ℕ) :
    ((r.toldBy i k).filterMap Signal.counter?).count .topologyReset = (r.resets i k).toNat ∧
    ((r.state (k + 1)).consumed i = (r.state k).consumed i ∧
        ((r.toldBy i k).filterMap Signal.counter?).count .channelStarted = 0 ∧
        (r.toldBy i k).filterMap (Signal.level? .activeChannels) = [] ∨
      (r.state (k + 1)).consumed i = (r.state k).consumed i + 1 ∧
        ((r.toldBy i k).filterMap Signal.counter?).count .channelStarted = 1 ∧
        (r.toldBy i k).filterMap (Signal.level? .activeChannels) =
          [(r.state (k + 1)).consumed i]) := by
  -- who reports nothing of the kind does nothing of the kind
  have hquiet : r.resets i k = false → (∀ x ∈ r.told k, x.isStart = false) →
      ((r.toldBy i k).filterMap Signal.counter?).count .topologyReset = (r.resets i k).toNat ∧
        ((r.toldBy i k).filterMap Signal.counter?).count .channelStarted = 0 ∧
        (r.toldBy i k).filterMap (Signal.level? .activeChannels) = [] := fun hreset hl => by
    rw [hreset]
    refine Signal.counters_of_not_start fun x hx => ?_
    rw [toldBy] at hx
    split at hx
    · exact hl x hx
    · cases hx
  have hother : ∀ j, (r.state k).author? (r.deed k) = some j → j ≠ i → r.toldBy i k = [] :=
    fun j hauthor hne => if_neg (by rw [hauthor]; simpa using hne)
  cases (r.told_cases k).2 with
  | write hd hw hn hz hconsumed hl =>
    obtain ⟨w, n, z, -, -, -, -, htold, haccounts⟩ := exists_accounts hd
    obtain ⟨hresets, hstarts⟩ := hquiet (by simp [resets, hd, Deed.task?])
      (htold ▸ haccounts.not_start)
    exact ⟨hresets, .inl ⟨hconsumed i, hstarts⟩⟩
  | @reset j n hd hn hlive hconsumed hl =>
    have hauthor : (r.state k).author? (r.deed k) = some j := by rw [hd, Cluster.author?]
    by_cases hj : j = i
    · subst hj
      rw [resets_iff.mpr ⟨hd, n, hn, hlive⟩, toldBy, if_pos hauthor, hl]
      exact ⟨rfl, .inl ⟨hconsumed j, rfl, rfl⟩⟩
    · have hnot : r.resets i k = false := by
        simp [resets, hd, Deed.task?, hj]
      rw [hother j hauthor hj, hnot]
      exact ⟨rfl, .inl ⟨hconsumed i, rfl, rfl⟩⟩
  | @start j hd hmore hsame hl =>
    have hauthor : (r.state k).author? (r.deed k) = some j := by rw [hd, Cluster.author?]
    have hnot : r.resets i k = false := by simp [resets, hd, Deed.task?]
    rw [hnot]
    by_cases hj : j = i
    · subst hj
      rw [toldBy, if_pos hauthor, hl]
      exact ⟨rfl, .inr ⟨hmore, rfl, rfl⟩⟩
    · rw [hother j hauthor hj]
      exact ⟨rfl, .inl ⟨hsame i (Ne.symm hj), rfl, rfl⟩⟩
  | aside hd hcancelled hconsumed hl =>
    have hnot : r.resets i k = false := Bool.eq_false_iff.mpr fun h => by
      obtain ⟨hd, n, hn, hlive⟩ := resets_iff.mp h
      cases hlive.symm.trans (hcancelled i n hd hn)
    obtain ⟨hresets, hstarts⟩ := hquiet hnot fun x hx => Signal.not_start_of_aside (hl x hx)
    exact ⟨hresets, .inl ⟨hconsumed i, hstarts⟩⟩

theorem resets_counted (r : Run) (i y : ℕ) :
    (r.counts i y).count .topologyReset = (List.range y).countP (r.resets i) := by
  induction y with
  | zero => rfl
  | succ y ih =>
    rw [counts_succ, List.count_append, List.range_succ, List.countP_append, ih,
      (r.starts_toldBy i y).1, List.countP_singleton]
    cases r.resets i y <;> rfl

/-- **A node counts a consumer for each that it has started, and the gauge stands there.** -/
theorem starts_counted (r : Run) (i y : ℕ) :
    (r.counts i y).count .channelStarted = (r.state y).consumed i ∧
      r.gauge .activeChannels i y = (r.state y).consumed i := by
  induction y with
  | zero =>
    rw [Cluster.consumed, r.start]
    exact ⟨rfl, rfl⟩
  | succ y ih =>
    rw [counts_succ, List.count_append, gauge, reports_succ, List.filterMap_append]
    rcases (r.starts_toldBy i y).2 with ⟨hsame, hcount, hlevel⟩ | ⟨hmore, hcount, hlevel⟩
    · rw [hcount, hlevel, List.append_nil, hsame]
      exact ih
    · rw [hcount, hlevel, List.getLast?_concat, hmore, ih.1]
      exact ⟨rfl, rfl⟩

/-! ## All counters -/

/-- **The counters of a node add up** whenever none of its writes is telling its peers, whatever has
happened to it and to its writes. What it counts of announcements, however they ended, is the number
of times that a write was told that its subscription was new; and it counts as announced what it
counts as published. A write that set out to tell its peers has counted its data once: an update
with a target by how its publish ended, an update without one as such, and anything else not at all;
and these are all that the node has counted of data. It has counted the epochs that it started, and
the consumers, of which there are as many as the gauge says. -/
theorem counters_reconcile (r : Run) (hn : (r.state y).nodes[i]? = some n)
    (hidle : ∀ q ∈ (r.state y).writes i, (r.stage q y).isPropagating = false) :
    (r.counts i y).countP Counter.isControl = (List.range y).countP (r.enters i) ∧
    (r.counts i y).count .announcement = (r.counts i y).count (.publish .control .success) ∧
    (∀ q s e, (r.state y).Says i s e q →
      (r.SetsOut q y → r.Settles q y e ((r.countsOf q y).filter Counter.isOutcome)) ∧
      (¬ r.SetsOut q y → r.countsOf q y = [])) ∧
    (∀ c, c.isOutcome = true → (r.counts i y).count c =
      (((r.state y).writes i).map fun q => (r.countsOf q y).count c).sum) ∧
    (r.counts i y).count .topologyReset = (List.range y).countP (r.resets i) ∧
    (r.counts i y).count .channelStarted = n.started.size ∧
    r.gauge .activeChannels i y = n.started.size := by
  have hdone : ∀ q ∈ (r.state y).writes i, r.SetsOut q y → r.stage q y = .done :=
    fun q hq ⟨k, hky, hon⟩ => by
      have hlate := (Stage.isPropagating_iff.mp hon).1.trans (r.rank_mono q hky)
      by_contra hgoes
      cases (hidle q hq).symm.trans (Stage.isPropagating_iff.mpr ⟨hlate, hgoes⟩)
  have hconsumed : (r.state y).consumed i = n.started.size := by
    rw [Cluster.consumed, hn, Option.elim_some]
  refine ⟨?_, ?_, fun q s e hcalled => ⟨fun hout => ?_, countsOf_of_not_setsOut⟩, fun c hc => ?_,
    r.resets_counted i y, (r.starts_counted i y).1.trans hconsumed,
    (r.starts_counted i y).2.trans hconsumed⟩
  · exact controls_counted hidle
  · exact announcements_counted i y
  · obtain ⟨w, hw, hnode, -⟩ := id hcalled
    exact settles_of_done hcalled hout (hdone q (Cluster.mem_writes.mpr ⟨w, hw, hnode⟩) hout)
  · exact count_counts (Counter.isWritten_of_isOutcome hc) i y

/-- A node writes an update, starts to consume its subscription, and begins a new epoch. Then it
writes an update without a target, one that its caller gives up, and no update at all. -/
def mixedDeeds : List Deed :=
  List.flatten [
    [.connect false {}, .join {} (some 0) none, .call 0 none "a" Node.dottedWrite.envelope],
    List.replicate 8 (.act (.writer 0)),
    [.act (.dispatch 0), .clock 60000, .act (.epoch 0), .call 0 none "a" (.update {})],
    List.replicate 6 (.act (.writer 1)),
    [.call 0 (some "t") "b" Node.dottedWrite.envelope],
    List.replicate 4 (.act (.writer 2)), [.revoke "t"], List.replicate 4 (.act (.writer 2)),
    [.call 0 none "b" (.syncResponse true)],
    List.replicate 4 (.act (.writer 3))]

def mixed : Run := .play mixedDeeds (by decide +kernel)

/-- Three subscriptions were entered, two of them announced, and the third write was cancelled when
it came to its data. -/
theorem counters_reconcile_mixed :
    ((mixed.state 36).journal.filterMap Signal.counter?).filter Counter.isControl =
      [.publish .control .success, .publish .control .success, .publish .control .cancelled] ∧
    (List.range 36).countP (mixed.enters 0) = 3 ∧ (mixed.counts 0 36).count .announcement = 2 ∧
    mixed.Settles 1 36 (.update {}) [.missingTarget] ∧
    mixed.Settles 2 36 Node.dottedWrite.envelope [.publish .data .cancelled] ∧
    (List.range 36).countP (mixed.resets 0) = 1 ∧ mixed.gauge .activeChannels 0 36 = 1 := by
  have hnodes : ((mixed.state 36).nodes[0]?.map (·.started.size)) = some 1 := by decide +kernel
  obtain ⟨n, hn, hstarted⟩ := Option.map_eq_some_iff.mp hnodes
  obtain ⟨hcontrols, hannouncements, hwrites, -, hresets, -, hgauge⟩ :=
    mixed.counters_reconcile hn (by decide +kernel)
  have hsettles : ∀ q k e l, ((mixed.state 36).writers[q]?.map fun w => (w.node, w.envelope)) =
      some (0, e) → k ≤ 36 → (mixed.stage q k).isPropagating = true →
      (mixed.countsOf q 36).filter Counter.isOutcome = l → mixed.Settles q 36 e l := by
    rintro q k e l hw hk hon rfl
    obtain ⟨w, hw, he⟩ := Option.map_eq_some_iff.mp hw
    obtain ⟨hnode, he⟩ := Prod.mk.inj he
    exact (hwrites q w.subscription e ⟨w, hw, hnode, rfl, he⟩).1 ⟨k, hk, hon⟩
  refine ⟨by decide +kernel, hcontrols.symm.trans (by decide +kernel),
    hannouncements.trans (by decide +kernel), hsettles 1 20 _ _ ?_ ?_ ?_ ?_,
    hsettles 2 27 _ _ ?_ ?_ ?_ ?_, hresets.symm.trans (by decide +kernel), hgauge.trans hstarted⟩
  all_goals decide +kernel

end Run

end Telemetry
