import Telemetry.Proofs.Retrying
import Telemetry.Proofs.Seconds

/-!
# The cap of a back-off

A delay is multiplied by the factor, and the product is capped. So the cap holds from the second
delay on, and the product has to be a duration before it is capped: the first delay is slept as the
policy gives it, and a product that is too large ends the run, however small the cap is. Under a
factor of one or more a delay within the cap is followed by one that is no shorter.

* `Backoff.WellFormed`: durations and factors that a policy can hold;
* `Backoff.delays_succ_eq_none_iff`: when there is no next delay;
* `Backoff.delays_le_cap`, `Backoff.exists_delays`: within the cap, and for ever;
* `Backoff.delays_mono`: the delays do not decrease;
* `Backoff.runFrom_sleeps`: a run sleeps the delays in turn;
* **`Backoff.sleeps_capped`**: when a run goes on, stays within the cap, and does not decrease.
-/

namespace Telemetry

namespace Backoff

variable {p : Backoff} {d d' : Duration} {n : ℕ}

/-- The durations have a 64-bit number of seconds, and the factor is finite and not negative. -/
structure WellFormed (p : Backoff) : Prop where
  initial : p.initial.Representable
  cap : p.cap.Representable
  factor : Duration.IsFactor p.factor

/-! ## One delay after another -/

theorem next?_eq_some_iff :
    p.next? d = some d' ↔ ∃ e, d.scale? p.factor = some e ∧ min e p.cap = d' :=
  Option.map_eq_some_iff

theorem le_of_min {a b : Duration} : (min a b).nanos ≤ a.nanos := Nat.min_le_left _ _

theorem next?_le_cap (h : p.next? d = some d') : d' ≤ p.cap := by
  obtain ⟨e, -, rfl⟩ := next?_eq_some_iff.mp h
  exact Nat.min_le_right e.nanos p.cap.nanos

theorem next?_eq_none_iff (hp : p.WellFormed) (hd : d.Representable) :
    p.next? d = none ↔ ¬ d.Fits p.factor := by
  rw [next?, Option.map_eq_none_iff]
  refine ⟨fun h hfits => ?_, Duration.scale?_of_not_fits hd hp.factor⟩
  rw [Duration.scale?_of_fits hd hp.factor hfits] at h
  cases h

theorem next?_le_last (hp : p.WellFormed) (hd : d.Representable) (h : p.next? d = some d') :
    d'.nanos ≤ Duration.last.nanos := by
  obtain ⟨e, he, rfl⟩ := next?_eq_some_iff.mp h
  exact le_of_min.trans (Duration.scale?_le_last hd hp.factor he)

/-- **The next delay is no shorter** where the delay is within the cap. -/
theorem le_next? (hp : p.WellFormed) (hone : (Double.ofNat 1).units ≤ p.factor.units)
    (hd : d.Representable) (hcap : d ≤ p.cap) (h : p.next? d = some d') :
    d.seconds.units ≤ d'.seconds.units ∧ (d.nanos < 2 ^ 23 * 1000000000 → d ≤ d') := by
  have hd' := Duration.representable_of_le_last (next?_le_last hp hd h)
  obtain ⟨e, he, rfl⟩ := next?_eq_some_iff.mp h
  have hle := Duration.nearest_seconds_le_scale? hd hp.factor hone he
  constructor
  · rcases Nat.le_total e.nanos p.cap.nanos with hmin | hmin
    · have hnearest : (Duration.nearest d.seconds).nanos ≤ (min e p.cap).nanos :=
        le_min hle (hle.trans hmin)
      have hunits := Duration.units_seconds_mono hd' hnearest
      rwa [Double.units_congr (Duration.rank_seconds_nearest hd)] at hunits
    · exact Duration.units_seconds_mono hd' (le_min (le_trans hcap hmin) hcap)
  · intro hsmall
    rw [Duration.nearest_seconds hsmall] at hle
    exact le_min hle hcap

theorem next?_mono {e e' : Duration} (hp : p.WellFormed) (hd : d.Representable)
    (hd' : d'.Representable) (hle : d.seconds.units ≤ d'.seconds.units) (h : p.next? d = some e)
    (h' : p.next? d' = some e') : e ≤ e' := by
  obtain ⟨s, hs, rfl⟩ := next?_eq_some_iff.mp h
  obtain ⟨s', hs', rfl⟩ := next?_eq_some_iff.mp h'
  exact min_le_min_right p.cap.nanos (Duration.scale?_mono hd hd' hp.factor hle hs hs')

/-! ## The delays -/

theorem delays_succ (h : p.delays n = some d) : p.delays (n + 1) = p.next? d := by
  rw [delays, h, Option.bind_some]

theorem exists_of_delays_succ (h : p.delays (n + 1) = some d') :
    ∃ d, p.delays n = some d ∧ p.next? d = some d' :=
  Option.bind_eq_some_iff.mp h

theorem delays_le_cap (h : p.delays (n + 1) = some d) : d ≤ p.cap := by
  obtain ⟨e, -, he⟩ := exists_of_delays_succ h
  exact next?_le_cap he

theorem representable_delays (hp : p.WellFormed) (h : p.delays n = some d) : d.Representable := by
  cases n with
  | zero =>
    cases h
    exact hp.initial
  | succ n => exact lt_of_le_of_lt (delays_le_cap h) hp.cap

theorem delays_succ_eq_none_iff (hp : p.WellFormed) (h : p.delays n = some d) :
    p.delays (n + 1) = none ↔ ¬ d.Fits p.factor := by
  rw [delays_succ h, next?_eq_none_iff hp (representable_delays hp h)]

/-- Every delay can be scaled if the first one can, and either the largest can or none grows. -/
theorem fits_delays (hp : p.WellFormed) (hinitial : p.initial.Fits p.factor)
    (h : p.factor.units ≤ (Double.ofNat 1).units ∨ p.cap.Fits p.factor)
    (hn : p.delays n = some d) : d.Fits p.factor := by
  cases n with
  | zero =>
    cases hn
    exact hinitial
  | succ n =>
    rcases h with hone | hcap
    · obtain ⟨e, he, hnext⟩ := exists_of_delays_succ hn
      exact Duration.fits_of_le_last (next?_le_last hp (representable_delays hp he) hnext) hone
    · exact hcap.mono (Duration.units_seconds_mono hp.cap (delays_le_cap hn))

/-- **There is a next delay for ever.** -/
theorem exists_delays (hp : p.WellFormed) (hinitial : p.initial.Fits p.factor)
    (h : p.factor.units ≤ (Double.ofNat 1).units ∨ p.cap.Fits p.factor) (n : ℕ) :
    ∃ d, p.delays n = some d := by
  induction n with
  | zero => exact ⟨p.initial, rfl⟩
  | succ n ih =>
    obtain ⟨d, hd⟩ := ih
    refine Option.ne_none_iff_exists'.mp fun hnone => ?_
    exact (delays_succ_eq_none_iff hp hd).mp hnone (fits_delays hp hinitial h hd)

variable {i j : ℕ}

theorem exists_delays_of_le (hij : i ≤ j) (h : p.delays j = some d) : ∃ e, p.delays i = some e := by
  induction j, hij using Nat.le_induction generalizing d with
  | base => exact ⟨d, h⟩
  | succ j _ ih =>
    obtain ⟨e, he, -⟩ := exists_of_delays_succ h
    exact ih he

theorem delays_mono {f : Duration → ℕ}
    (hstep : ∀ n d d', p.delays n = some d → p.delays (n + 1) = some d' → f d ≤ f d')
    (hij : i ≤ j) (hi : p.delays i = some d) (hj : p.delays j = some d') : f d ≤ f d' := by
  induction j, hij using Nat.le_induction generalizing d' with
  | base =>
    cases hi.symm.trans hj
    exact le_rfl
  | succ j _ ih =>
    obtain ⟨e, he, -⟩ := exists_of_delays_succ hj
    exact (ih he).trans (hstep j e d' he hj)

theorem delays_le_cap_of_initial (hcap : p.initial ≤ p.cap) (hn : p.delays n = some d) :
    d ≤ p.cap := by
  cases n with
  | zero =>
    cases hn
    exact hcap
  | succ n => exact delays_le_cap hn

/-- **In seconds the delays do not decrease.** -/
theorem units_delays_succ (hp : p.WellFormed) (hone : (Double.ofNat 1).units ≤ p.factor.units)
    (hcap : p.initial ≤ p.cap) (hn : p.delays n = some d) (hn' : p.delays (n + 1) = some d') :
    d.seconds.units ≤ d'.seconds.units := by
  rw [delays_succ hn] at hn'
  exact (le_next? hp hone (representable_delays hp hn) (delays_le_cap_of_initial hcap hn) hn').1

/-- **In nanoseconds they do not decrease** if the first is exact as a double. -/
theorem delays_le_succ (hp : p.WellFormed) (hone : (Double.ofNat 1).units ≤ p.factor.units)
    (hcap : p.initial ≤ p.cap) (hsmall : p.initial.nanos < 2 ^ 23 * 1000000000)
    (hn : p.delays n = some d) (hn' : p.delays (n + 1) = some d') : d ≤ d' := by
  cases n with
  | zero =>
    cases hn
    rw [delays_succ rfl] at hn'
    exact (le_next? hp hone hp.initial hcap hn').2 hsmall
  | succ n =>
    -- each is a product of what came before it, and there the seconds did not decrease
    obtain ⟨e, he, hnext⟩ := exists_of_delays_succ hn
    have hunits := units_delays_succ hp hone hcap he hn
    rw [delays_succ hn] at hn'
    exact next?_mono hp (representable_delays hp he) (representable_delays hp hn) hunits hnext hn'

/-! ## The sleeps of a run -/

variable {α : Type} {name : String} {onError : List Signal} {op : ℕ → Except String α}

/-- The sleeps of a run are the delays from index `k` on, in turn. -/
def Run.SleepsFrom (r : Run α) (p : Backoff) (k : ℕ) : Prop :=
  ∀ i d, r.sleeps[i]? = some d → p.delays (k + i) = some d

theorem Run.SleepsFrom.of_nil {r : Run α} (h : r.sleeps = []) (k : ℕ) : r.SleepsFrom p k := by
  intro i d hi
  rw [h] at hi
  cases hi

theorem Run.SleepsFrom.after {r : Run α} {k : ℕ} (now : ℕ) (signals : List Signal)
    (h : r.SleepsFrom p (k + 1)) (hd : p.delays k = some d) :
    (r.after now d signals).SleepsFrom p k := by
  intro i e hi
  cases i with
  | zero =>
    cases hi
    exact hd
  | succ i =>
    have := h i e hi
    rwa [Nat.add_right_comm] at this

theorem runFrom_sleeps {k : ℕ} (h : p.delays k = some d) (fuel n now : ℕ) :
    (p.runFrom name onError op fuel n now d).SleepsFrom p k := by
  induction fuel generalizing k n now d with
  | zero => exact .of_nil rfl k
  | succ fuel ih =>
    rw [runFrom]
    cases hop : op n with
    | ok a => exact .of_nil rfl k
    | error e =>
      dsimp only
      split
      · exact .of_nil rfl k
      · cases hnext : p.next? d with
        | none =>
          have hnil : Run.SleepsFrom ({ outcome := .overflow } : Run α) p (k + 1) := .of_nil rfl _
          exact hnil.after now [] h
        | some d' => exact (ih ((delays_succ h).trans hnext) (n + 1) (now + d.ticks)).after now _ h

theorem run_sleeps (attempts : ℕ) : (p.run name attempts op onError).SleepsFrom p 0 :=
  runFrom_sleeps rfl attempts 1 0

theorem Run.SleepsFrom.mem {r : Run α} (h : r.SleepsFrom p 0) (hd : d ∈ r.sleeps) :
    ∃ i, p.delays i = some d := by
  obtain ⟨i, hi⟩ := List.mem_iff_getElem?.mp hd
  exact ⟨0 + i, h i d hi⟩

theorem Run.SleepsFrom.mem_tail {r : Run α} (h : r.SleepsFrom p 0) (hd : d ∈ r.sleeps.tail) :
    ∃ i, p.delays (i + 1) = some d := by
  obtain ⟨i, hi⟩ := List.mem_iff_getElem?.mp hd
  rw [List.getElem?_tail] at hi
  have := h (i + 1) d hi
  rw [Nat.zero_add] at this
  exact ⟨i, this⟩

theorem Run.SleepsFrom.pairwise {r : Run α} (h : r.SleepsFrom p 0) {f : Duration → ℕ}
    (hstep : ∀ n d d', p.delays n = some d → p.delays (n + 1) = some d' → f d ≤ f d') :
    r.sleeps.Pairwise fun d d' => f d ≤ f d' := by
  rw [List.pairwise_iff_getElem]
  intro i j hi hj hij
  exact delays_mono hstep (Nat.add_le_add_left hij.le 0)
    (h i _ (List.getElem?_eq_getElem hi)) (h j _ (List.getElem?_eq_getElem hj))

/-! ## Where a run overflows -/

/-- The attempts from number `n` on that fail one after another, `j` of them and one more, and are
not the last. -/
def FailsFrom (p : Backoff) (op : ℕ → Except String α) (n j : ℕ) : Prop :=
  ∀ i ≤ j, (∃ e, op (n + i) = .error e) ∧ p.isLast (n + i) = false

theorem FailsFrom.cons {j : ℕ} (h : p.FailsFrom op (n + 1) j)
    (hn : (∃ e, op n = .error e) ∧ p.isLast n = false) : p.FailsFrom op n (j + 1) := by
  intro i hi
  cases i with
  | zero => exact hn
  | succ i =>
    have := h i (Nat.le_of_succ_le_succ hi)
    rwa [Nat.add_right_comm] at this

theorem runFrom_overflow {k : ℕ} (h : p.delays k = some d) (fuel n now : ℕ)
    (ho : (p.runFrom name onError op fuel n now d).outcome = .overflow) :
    ∃ j < fuel, ∃ e, p.delays (k + j) = some e ∧ p.next? e = none ∧ p.FailsFrom op n j := by
  induction fuel generalizing k n now d with
  | zero => cases ho
  | succ fuel ih =>
    rw [runFrom] at ho
    cases hop : op n with
    | ok a =>
      rw [hop] at ho
      cases ho
    | error e =>
      rw [hop] at ho
      dsimp only at ho
      by_cases hlast : p.isLast n = true
      · rw [if_pos hlast] at ho
        cases ho
      · rw [if_neg hlast] at ho
        have hn : (∃ e, op n = .error e) ∧ p.isLast n = false :=
          ⟨⟨e, hop⟩, Bool.eq_false_of_not_eq_true hlast⟩
        cases hnext : p.next? d with
        | none =>
          refine ⟨0, Nat.succ_pos fuel, d, h, hnext, fun i hi => ?_⟩
          obtain rfl : i = 0 := Nat.le_zero.mp hi
          exact hn
        | some d' =>
          rw [hnext] at ho
          obtain ⟨j, hj, e', he', hnone, hfails⟩ := ih ((delays_succ h).trans hnext) _ _ ho
          rw [Nat.add_right_comm] at he'
          exact ⟨j + 1, Nat.succ_lt_succ hj, e', he', hnone, hfails.cons hn⟩

theorem run_overflow {attempts : ℕ} (hn : n < attempts) (h : p.delays n = some d)
    (hnext : p.next? d = none) (hfails : p.FailsFrom op 1 n) :
    (p.run name attempts op onError).outcome = .overflow := by
  have hds : ∀ i ≤ n, p.delays i = some ((p.delays i).getD p.initial) := by
    intro i hi
    obtain ⟨e, he⟩ := exists_delays_of_le hi h
    rw [he, Option.getD_some]
  have hbefore : ∀ i, 1 ≤ i → i ≤ n → (∃ e, op i = .error e) ∧ p.isLast i = false := by
    intro i hi hin
    have := hfails (i - 1) (by omega)
    rwa [Nat.add_sub_cancel' hi] at this
  obtain ⟨fuel, rfl⟩ := Nat.exists_eq_add_of_lt hn
  obtain ⟨⟨e, he⟩, hlast⟩ := hfails n le_rfl
  rw [Nat.add_comm] at he hlast
  rw [run, Nat.add_assoc, runFrom_fails hds hbefore, h, Option.getD_some, Run.behind, runFrom, he]
  dsimp only
  rw [hlast, if_neg Bool.false_ne_true, hnext]

/-- **A run overflows where it comes to a delay whose product is not a duration.** -/
theorem run_overflow_iff (hp : p.WellFormed) (attempts : ℕ) :
    (p.run name attempts op onError).outcome = .overflow ↔
      ∃ n < attempts, ∃ d, p.delays n = some d ∧ ¬ d.Fits p.factor ∧ p.FailsFrom op 1 n := by
  constructor
  · intro ho
    have hinitial : p.delays 0 = some p.initial := rfl
    obtain ⟨n, hn, d, hd, hnext, hfails⟩ := runFrom_overflow hinitial attempts 1 0 ho
    rw [Nat.zero_add] at hd
    exact ⟨n, hn, d, hd, (next?_eq_none_iff hp (representable_delays hp hd)).mp hnext, hfails⟩
  · rintro ⟨n, hn, d, hd, hfits, hfails⟩
    exact run_overflow hn hd ((next?_eq_none_iff hp (representable_delays hp hd)).mpr hfits) hfails

/-! ## The cap -/

/-- **A back-off goes on, stays within its cap and does not decrease**, as far as its products are
durations and its first delay is within the cap. A run overflows where a product is not a duration,
which the cap does not prevent; and the first sleep is the first delay, whatever the cap is. Under a
factor of one or more the sleeps do not decrease, rounding aside: as doubles of seconds they never
do, and in nanoseconds they do not if they start below `2 ^ 23` seconds. -/
theorem sleeps_capped {α : Type} (p : Backoff) (hp : p.WellFormed) (name : String) (attempts : ℕ)
    (op : ℕ → Except String α) (onError : List Signal) :
    ((p.run name attempts op onError).outcome = .overflow ↔
      ∃ n < attempts, ∃ d, p.delays n = some d ∧ ¬ d.Fits p.factor ∧ p.FailsFrom op 1 n) ∧
    (p.initial.Fits p.factor →
      (p.factor.units ≤ (Double.ofNat 1).units ∨ p.cap.Fits p.factor) →
      (∀ n, ∃ d, p.delays n = some d) ∧ (p.run name attempts op onError).outcome ≠ .overflow) ∧
    (p.run name attempts op onError).SleepsFrom p 0 ∧
    (∀ d ∈ (p.run name attempts op onError).sleeps.tail, d ≤ p.cap) ∧
    (p.initial ≤ p.cap →
      (∀ d ∈ (p.run name attempts op onError).sleeps, d ≤ p.cap) ∧
      ((Double.ofNat 1).units ≤ p.factor.units →
        (p.run name attempts op onError).sleeps.Pairwise
          (fun d d' => d.seconds.units ≤ d'.seconds.units) ∧
        (p.initial.nanos < 2 ^ 23 * 1000000000 →
          (p.run name attempts op onError).sleeps.Pairwise (· ≤ ·)))) := by
  have hsleeps : (p.run name attempts op onError).SleepsFrom p 0 := run_sleeps attempts
  refine ⟨run_overflow_iff hp attempts, fun hinitial hgrows => ⟨exists_delays hp hinitial hgrows,
    fun ho => ?_⟩, hsleeps, fun d hd => ?_, fun hcap => ⟨fun d hd => ?_, fun hone => ⟨?_,
    fun hsmall => ?_⟩⟩⟩
  · obtain ⟨n, -, d, hd, hfits, -⟩ := (run_overflow_iff hp attempts).mp ho
    exact hfits (fits_delays hp hinitial hgrows hd)
  · obtain ⟨i, hi⟩ := hsleeps.mem_tail hd
    exact delays_le_cap hi
  · obtain ⟨i, hi⟩ := hsleeps.mem hd
    exact delays_le_cap_of_initial hcap hi
  · exact hsleeps.pairwise fun n d d' => units_delays_succ hp hone hcap
  · exact hsleeps.pairwise fun n d d' => delays_le_succ hp hone hcap hsmall

theorem wellFormed_daemon : daemon.WellFormed where
  initial := by decide
  cap := by decide
  factor := ⟨by decide +kernel, by decide +kernel⟩

theorem sleeps_capped_daemon :
    daemon.WellFormed ∧
    (∀ n, ∃ d, daemon.delays n = some d) ∧
    (daemon.run "resync" 1000 refused).outcome ≠ .overflow ∧
    (∀ d ∈ (daemon.run "resync" 1000 refused).sleeps, d ≤ .ofSeconds 30) ∧
    (daemon.run "resync" 1000 refused).sleeps.Pairwise (· ≤ ·) := by
  obtain ⟨-, hgoes, -, -, hcap⟩ := sleeps_capped daemon wellFormed_daemon "resync" 1000 refused []
  have hinitial : daemon.initial.Fits daemon.factor := by decide +kernel
  have hlast : daemon.cap.Fits daemon.factor := by decide +kernel
  obtain ⟨hwithin, hgrows⟩ := hcap (by decide)
  refine ⟨wellFormed_daemon, (hgoes hinitial (.inr hlast)).1, (hgoes hinitial (.inr hlast)).2,
    hwithin, (hgrows (by decide +kernel)).2 (by decide)⟩

/-- From one second, growing by a factor that no duration survives, up to half a minute. -/
def soaring : Backoff := ⟨.ofSeconds 1, .ofSeconds 30, .ofNat (10 ^ 20), some 3⟩

/-- From two seconds, doubling, up to one second. -/
def hasty : Backoff := ⟨.ofSeconds 2, .ofSeconds 1, .ofNat 2, some 3⟩

/-- **Within a cap of half a minute a run overflows, and with a first delay above the cap it sleeps
for longer than the cap, and then for less.** -/
theorem not_capped :
    (soaring.WellFormed ∧ (soaring.run "op" 3 refused).outcome = .overflow) ∧
    hasty.WellFormed ∧ (Double.ofNat 1).units ≤ hasty.factor.units ∧
    (hasty.run "op" 3 refused).sleeps = [.ofSeconds 2, .ofSeconds 1] ∧
    ¬ Duration.ofSeconds 2 ≤ hasty.cap := by
  refine ⟨⟨⟨by decide, by decide, ⟨by decide +kernel, by decide +kernel⟩⟩, ?_⟩,
    ⟨by decide, by decide, ⟨by decide +kernel, by decide +kernel⟩⟩, by decide +kernel, ?_,
    by decide⟩
  · decide +kernel
  · decide +kernel

end Backoff

end Telemetry
