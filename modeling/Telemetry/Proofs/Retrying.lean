import Mathlib.Algebra.BigOperators.Group.Finset.Basic
import Mathlib.Data.ENat.Lattice
import Telemetry.Backoff

/-!
# Trying again

An operation is tried until it succeeds or the policy allows no more attempts, and it sleeps between
two attempts, for the delays of the policy in turn. So a run is known from its length: an attempt
that fails and is not the last adds a call and a sleep, and the last adds a call alone.

* `Backoff.firstSuccess`, `Backoff.allowed`: how many attempts there are;
* `Backoff.runFrom_fails`: attempts that fail one after another;
* `Backoff.run_of_lt`, `Backoff.run_of_eq`: a run that goes on, and one that is over;
* `Backoff.makes`: how many calls a run makes, when, and with which sleeps;
* `Backoff.insist_of_unlimited`: who is never refused an attempt has nothing to start over;
* `Backoff.connect_eq`: connecting, which waits for a second each time;
* **`Backoff.run_attempts`**: attempts, sleeps and times of a run, and of connecting.
-/

namespace Telemetry

namespace Backoff

variable {α : Type}

/-! ## The number of attempts -/

/-- The attempts that succeed. They are counted from one. -/
def successes (op : ℕ → Except String α) : Set ℕ := {n | 1 ≤ n ∧ ∃ a, op n = .ok a}

/-- The first attempt that succeeds, if any does. -/
noncomputable def firstSuccess (op : ℕ → Except String α) : ℕ∞ := ⨅ n ∈ successes op, (n : ℕ∞)

/-- How many attempts a policy allows. There always is one. -/
def allowed (p : Backoff) : ℕ∞ := p.limit.elim ⊤ fun m => (max m 1 : ℕ)

/-- How an attempt ends a run. -/
def Outcome.of : Except String α → Outcome α
  | .ok a => .ok a
  | .error e => .failed e

variable {p : Backoff} {op : ℕ → Except String α} {n : ℕ}

theorem error_of_lt_firstSuccess (hn : 1 ≤ n) (h : (n : ℕ∞) < firstSuccess op) :
    ∃ e, op n = .error e := by
  cases ha : op n with
  | error e => exact ⟨e, rfl⟩
  | ok a =>
    have hle : firstSuccess op ≤ n := iInf₂_le n ⟨hn, a, ha⟩
    exact absurd h hle.not_gt

theorem firstSuccess_mem (h : firstSuccess op = n) : n ∈ successes op := by
  by_contra hnot
  have hle : ((n + 1 : ℕ) : ℕ∞) ≤ firstSuccess op := by
    refine le_iInf₂ fun i hi => ?_
    have hni : (n : ℕ∞) ≤ i := h ▸ iInf₂_le i hi
    have hne : n ≠ i := by
      rintro rfl
      exact hnot hi
    have hlt := Nat.cast_le.mp hni
    exact Nat.cast_le.mpr (by omega)
  rw [h] at hle
  have hlt := Nat.cast_le.mp hle
  omega

theorem isLast_eq_false (hn : 1 ≤ n) (h : (n : ℕ∞) < p.allowed) : p.isLast n = false := by
  unfold allowed at h
  cases hm : p.limit with
  | none => rw [isLast, hm]; rfl
  | some m =>
    rw [hm, Option.elim_some] at h
    have hlt := Nat.cast_lt.mp h
    rw [isLast, hm, Option.any_some, decide_eq_false_iff_not]
    omega

theorem isLast_of_allowed (h : p.allowed = n) : 1 ≤ n ∧ p.isLast n = true := by
  unfold allowed at h
  cases hm : p.limit with
  | none =>
    rw [hm] at h
    cases h
  | some m =>
    rw [hm, Option.elim_some] at h
    have heq := Nat.cast_inj.mp h
    rw [isLast, hm, Option.any_some, decide_eq_true_iff]
    omega

theorem fails_of_lt (hn : 1 ≤ n) (h : (n : ℕ∞) < min (firstSuccess op) p.allowed) :
    (∃ e, op n = .error e) ∧ p.isLast n = false :=
  ⟨error_of_lt_firstSuccess hn (lt_min_iff.mp h).1, isLast_eq_false hn (lt_min_iff.mp h).2⟩

theorem last_of_eq (h : min (firstSuccess op) p.allowed = n) :
    1 ≤ n ∧ ((∃ a, op n = .ok a) ∨ p.isLast n = true) := by
  rcases min_choice (firstSuccess op) p.allowed with hmin | hmin
  · obtain ⟨hn, ha⟩ := firstSuccess_mem (hmin.symm.trans h)
    exact ⟨hn, .inl ha⟩
  · obtain ⟨hn, hlast⟩ := isLast_of_allowed (hmin.symm.trans h)
    exact ⟨hn, .inr hlast⟩

/-! ## Runs -/

/-- The time after so many sleeps. -/
def slept (ds : ℕ → Duration) (n : ℕ) : ℕ := ∑ i ∈ Finset.range n, (ds i).ticks

/-- What an attempt reports after which the operation sleeps. -/
def complaint (p : Backoff) (name : String) (onError : List Signal) (op : ℕ → Except String α)
    (n : ℕ) (delay : Duration) : List Signal :=
  match op n with
  | .ok _ => []
  | .error e => onError ++ [.warn (.retrying name n p.limit e delay)]

/-- What so many attempts report, one after another. -/
def complaints (p : Backoff) (name : String) (onError : List Signal) (op : ℕ → Except String α)
    (ds : ℕ → Duration) (n : ℕ) : List Signal :=
  (List.range n).flatMap fun i => p.complaint name onError op (i + 1) (ds i)

/-- What the last attempt reports. -/
def outcry (onError : List Signal) : Except String α → List Signal
  | .ok _ => []
  | .error _ => onError

variable {name : String} {onError : List Signal} {ds : ℕ → Duration} {watched : ℕ}

theorem next?_eq {d d' : Duration} (hd : p.delays n = some d) (hd' : p.delays (n + 1) = some d') :
    p.next? d = some d' := by
  rwa [delays, hd, Option.bind_some] at hd'

/-- **Attempts that fail add a call and a sleep each.** -/
theorem runFrom_fails {j : ℕ} (hds : ∀ i ≤ j, p.delays i = some (ds i))
    (hfails : ∀ i, 1 ≤ i → i ≤ j → (∃ e, op i = .error e) ∧ p.isLast i = false) (fuel : ℕ) :
    p.runFrom name onError op (j + fuel) 1 0 p.initial =
      (p.runFrom name onError op fuel (j + 1) (slept ds j) (ds j)).behind
        ((List.range j).map (slept ds)) ((List.range j).map ds)
        (p.complaints name onError op ds j) := by
  -- the last of the attempts is taken off: the ones before it leave it one unit of fuel
  induction j generalizing fuel with
  | zero =>
    have hinitial : p.initial = ds 0 := Option.some.inj (hds 0 le_rfl)
    rw [Nat.zero_add, hinitial, slept, Finset.sum_range_zero]
    rfl
  | succ j ih =>
    obtain ⟨⟨e, he⟩, hlast⟩ := hfails (j + 1) (by omega) le_rfl
    have hnext : p.next? (ds j) = some (ds (j + 1)) :=
      next?_eq (hds j (Nat.le_succ j)) (hds (j + 1) le_rfl)
    have hone : p.runFrom name onError op (fuel + 1) (j + 1) (slept ds j) (ds j) =
        (p.runFrom name onError op fuel (j + 1 + 1) (slept ds (j + 1)) (ds (j + 1))).after
          (slept ds j) (ds j) (p.complaint name onError op (j + 1) (ds j)) := by
      rw [runFrom, he]
      simp only [hlast, hnext, complaint, he, slept, Finset.sum_range_succ, Bool.false_eq_true,
        if_false]
    have hfuel : j + 1 + fuel = j + (fuel + 1) := by omega
    rw [hfuel, ih (fun i hi => hds i (Nat.le_succ_of_le hi))
      (fun i hi hij => hfails i hi (Nat.le_succ_of_le hij)) (fuel + 1), hone]
    simp only [Run.behind, Run.after, complaints, List.range_succ, List.map_append,
      List.flatMap_append, List.map_singleton, List.flatMap_singleton, List.append_assoc,
      List.singleton_append]

theorem run_of_lt (h : (watched : ℕ∞) < min (firstSuccess op) p.allowed)
    (hds : ∀ i ≤ watched, p.delays i = some (ds i)) :
    p.run name watched op onError =
      { calls := (List.range watched).map (slept ds)
        sleeps := (List.range watched).map ds
        signals := p.complaints name onError op ds watched
        outcome := .running } := by
  have hfails : ∀ i, 1 ≤ i → i ≤ watched → (∃ e, op i = .error e) ∧ p.isLast i = false :=
    fun i hi hiw => fails_of_lt hi ((Nat.cast_le.mpr hiw).trans_lt h)
  have hrun : p.runFrom name onError op watched 1 0 p.initial = _ := runFrom_fails hds hfails 0
  rw [run, hrun, runFrom, Run.behind, List.append_nil, List.append_nil, List.append_nil]

theorem run_of_eq (h : min (firstSuccess op) p.allowed = (n + 1 : ℕ)) (hwatched : n < watched)
    (hds : ∀ i ≤ n, p.delays i = some (ds i)) :
    p.run name watched op onError =
      { calls := (List.range (n + 1)).map (slept ds)
        sleeps := (List.range n).map ds
        signals := p.complaints name onError op ds n ++ outcry onError (op (n + 1))
        outcome := .of (op (n + 1)) } := by
  have hfails : ∀ i, 1 ≤ i → i ≤ n → (∃ e, op i = .error e) ∧ p.isLast i = false := by
    intro i hi hin
    refine fails_of_lt hi ?_
    rw [h]
    exact Nat.cast_lt.mpr (Nat.lt_succ_of_le hin)
  have hlast : ∀ fuel, p.runFrom name onError op (fuel + 1) (n + 1) (slept ds n) (ds n) =
      { calls := [slept ds n]
        signals := outcry onError (op (n + 1))
        outcome := .of (op (n + 1)) } := by
    intro fuel
    rw [runFrom]
    cases hop : op (n + 1) with
    | ok a => rfl
    | error e =>
      obtain ⟨a, ha⟩ | hlast := (last_of_eq h).2
      · cases hop.symm.trans ha
      · simp only [hlast, if_true]
        rfl
  obtain ⟨fuel, rfl⟩ := Nat.exists_eq_add_of_lt hwatched
  have hrun : p.runFrom name onError op (n + (fuel + 1)) 1 0 p.initial = _ :=
    runFrom_fails hds hfails (fuel + 1)
  rw [run, Nat.add_assoc, hrun, hlast, Run.behind, List.append_nil, List.range_succ,
    List.map_append, List.map_singleton]

/-- What a run does that is watched for so many attempts. -/
structure Run.Makes (r : Run α) (attempts : ℕ∞) (op : ℕ → Except String α) (ds : ℕ → Duration)
    (watched : ℕ) : Prop where
  /-- The operation is called for each attempt. -/
  count : (r.calls.length : ℕ∞) = min (watched : ℕ∞) attempts
  /-- It is called again when all the sleeps so far are over. -/
  calls : r.calls = (List.range r.calls.length).map (slept ds)
  /-- The sleeps are the delays in turn. -/
  sleeps : r.sleeps = (List.range r.sleeps.length).map ds
  /-- The last call says how it ends, and is not slept off. -/
  ends : attempts ≤ watched →
    r.sleeps.length + 1 = r.calls.length ∧ r.outcome = .of (op r.calls.length)
  /-- Every other call is slept off. -/
  goes_on : (watched : ℕ∞) < attempts →
    r.sleeps.length = r.calls.length ∧ r.outcome = .running

theorem makes_of_lt (h : (watched : ℕ∞) < min (firstSuccess op) p.allowed)
    (hds : ∀ i ≤ watched, p.delays i = some (ds i)) :
    (p.run name watched op onError).Makes (min (firstSuccess op) p.allowed) op ds watched := by
  rw [run_of_lt h hds]
  refine ⟨?_, ?_, ?_, fun hle => absurd h hle.not_gt, fun _ => ⟨?_, rfl⟩⟩
  · rw [List.length_map, List.length_range, min_eq_left h.le]
  all_goals simp only [List.length_map, List.length_range]

theorem makes_of_eq (h : min (firstSuccess op) p.allowed = (n + 1 : ℕ)) (hwatched : n < watched)
    (hds : ∀ i ≤ n, p.delays i = some (ds i)) :
    (p.run name watched op onError).Makes (min (firstSuccess op) p.allowed) op ds watched := by
  have hle : min (firstSuccess op) p.allowed ≤ watched := h ▸ Nat.cast_le.mpr hwatched
  rw [run_of_eq h hwatched hds]
  refine ⟨?_, ?_, ?_, fun _ => ⟨?_, ?_⟩, fun hlt => absurd hlt hle.not_gt⟩
  · rw [List.length_map, List.length_range, min_eq_right hle, h]
  all_goals simp only [List.length_map, List.length_range]

/-- **A run calls its operation up to the first success or the limit**, and sleeps in between. -/
theorem makes
    (hds : ∀ i : ℕ, (i : ℕ∞) < min (firstSuccess op) p.allowed → p.delays i = some (ds i)) :
    (p.run name watched op onError).Makes (min (firstSuccess op) p.allowed) op ds watched := by
  rcases lt_or_ge (watched : ℕ∞) (min (firstSuccess op) p.allowed) with hlt | hle
  · exact makes_of_lt hlt fun i hi => hds i ((Nat.cast_le.mpr hi).trans_lt hlt)
  · obtain ⟨k, hk⟩ := ENat.ne_top_iff_exists.mp (ne_top_of_le_ne_top (ENat.natCast_ne_top _) hle)
    obtain ⟨n, rfl⟩ := Nat.exists_eq_add_of_le' (last_of_eq hk.symm).1
    rw [← hk] at hle
    refine makes_of_eq hk.symm (Nat.cast_le.mp hle) fun i hi => hds i ?_
    rw [← hk]
    exact Nat.cast_lt.mpr (Nat.lt_succ_of_le hi)

/-! ## Starting over -/

theorem runFrom_ne_failed (h : p.limit = none) (fuel n now : ℕ) (delay : Duration) (e : String) :
    (p.runFrom name onError op fuel n now delay).outcome ≠ .failed e := by
  induction fuel generalizing n now delay with
  | zero => nofun
  | succ fuel ih =>
    have hlast : p.isLast n = false := by rw [isLast, h]; rfl
    rw [runFrom]
    cases hop : op n with
    | ok a => nofun
    | error e' =>
      simp only [hlast, Bool.false_eq_true, if_false]
      cases hnext : p.next? delay with
      | none => nofun
      | some next => exact ih (n + 1) (now + delay.ticks) next

/-- **Without a limit there is nothing to start over.** -/
theorem insist_of_unlimited (h : p.limit = none) :
    p.insist name watched op onError = p.run name watched op onError := by
  cases watched with
  | zero => rfl
  | succ k =>
    have hop : (fun n => op (0 + n)) = op := funext fun n => congrArg op (Nat.zero_add n)
    simp only [insist, insistFrom, hop]
    split
    · rename_i e he
      exact absurd he (runFrom_ne_failed h _ _ _ _ e)
    · rfl

/-! ## Connecting -/

theorem next?_bootstrap : bootstrap.next? (.ofSeconds 1) = some (.ofSeconds 1) := by decide +kernel

theorem delays_bootstrap (n : ℕ) : bootstrap.delays n = some (.ofSeconds 1) := by
  induction n with
  | zero => rfl
  | succ n ih => rw [delays, ih, Option.bind_some, next?_bootstrap]

theorem slept_seconds (n : ℕ) : slept (fun _ => .ofSeconds 1) n = n * 1000 := by
  rw [slept, Finset.sum_const, Finset.card_range, smul_eq_mul]
  rfl

theorem firstSuccess_eq {a : α} (hfails : ∀ i, 1 ≤ i → i ≤ n → ∃ e, op i = .error e)
    (ha : op (n + 1) = .ok a) : firstSuccess op = (n + 1 : ℕ) := by
  refine le_antisymm (iInf₂_le (n + 1) ⟨Nat.le_add_left 1 n, a, ha⟩) (le_iInf₂ ?_)
  rintro i ⟨hi, b, hb⟩
  refine Nat.cast_le.mpr (Nat.lt_of_not_le fun hin => ?_)
  obtain ⟨e, he⟩ := hfails i hi hin
  cases he.symm.trans hb

theorem count_complaints (c : Counter) (hfails : ∀ i, 1 ≤ i → i ≤ n → ∃ e, op i = .error e) :
    (p.complaints name [.count c] op ds n).count (.count c) = n := by
  induction n with
  | zero => rfl
  | succ n ih =>
    obtain ⟨e, he⟩ := hfails (n + 1) (Nat.le_add_left 1 n) le_rfl
    have hone : (p.complaint name [.count c] op (n + 1) (ds n)).count (.count c) = 1 := by
      simp [complaint, he]
    have hrest := ih fun i hi hin => hfails i hi (Nat.le_succ_of_le hin)
    rw [complaints] at hrest ⊢
    rw [List.range_succ, List.flatMap_append, List.count_append, hrest, List.flatMap_singleton,
      hone]

/-- **Connecting waits for a second after each attempt that fails.** -/
theorem connect_eq {backend : String} {op : ℕ → Except TransportError α} {a : α}
    (hfails : ∀ i, 1 ≤ i → i ≤ n → ∃ e, op i = .error e) (ha : op (n + 1) = .ok a)
    (hwatched : n < watched) : connect backend watched op =
      { calls := (List.range (n + 1)).map (· * 1000)
        sleeps := List.replicate n (.ofSeconds 1)
        signals := bootstrap.complaints (backend ++ "_connect") [.count (.connectionError backend)]
          (fun i => (op i).mapError TransportError.message) (fun _ => .ofSeconds 1) n
        outcome := .ok a } := by
  have hfails' : ∀ i, 1 ≤ i → i ≤ n →
      ∃ e, (op i).mapError TransportError.message = .error e := fun i hi hin => by
    obtain ⟨e, he⟩ := hfails i hi hin
    exact ⟨e.message, by rw [he]; rfl⟩
  have ha' : (op (n + 1)).mapError TransportError.message = .ok a := by rw [ha]; rfl
  have hn : min (firstSuccess fun i => (op i).mapError TransportError.message) bootstrap.allowed =
      (n + 1 : ℕ) := by
    rw [firstSuccess_eq hfails' ha']
    exact min_eq_left le_top
  have hslept : slept (fun _ => .ofSeconds 1) = (· * 1000) := funext slept_seconds
  rw [connect, insist_of_unlimited rfl, run_of_eq hn hwatched fun i _ => delays_bootstrap i, ha',
    hslept, outcry, List.append_nil, List.map_const', List.length_range]
  rfl

/-- **An operation is called up to the first success or the last attempt that its policy allows,
with one sleep between two calls and none after the last**, the sleeps being the delays of the
policy in turn. So connecting takes one attempt more than fail, a second for each of these, and
counts them. -/
theorem run_attempts :
    (∀ (p : Backoff) (name : String) (onError : List Signal) (op : ℕ → Except String α)
      (ds : ℕ → Duration),
      (∀ i : ℕ, (i : ℕ∞) < min (firstSuccess op) p.allowed → p.delays i = some (ds i)) →
      ∀ watched : ℕ,
        (p.run name watched op onError).Makes (min (firstSuccess op) p.allowed) op ds watched) ∧
    ∀ (backend : String) (op : ℕ → Except TransportError α) (n : ℕ) (a : α),
      (∀ i, 1 ≤ i → i ≤ n → ∃ e, op i = .error e) → op (n + 1) = .ok a →
      ∀ watched > n,
        (connect backend watched op).outcome = .ok a ∧
        (connect backend watched op).calls = (List.range (n + 1)).map (· * 1000) ∧
        (connect backend watched op).sleeps = List.replicate n (.ofSeconds 1) ∧
        (connect backend watched op).signals.count (.count (.connectionError backend)) = n := by
  refine ⟨fun p name onError op ds hds watched => makes hds, ?_⟩
  intro backend op n a hfails ha watched hwatched
  rw [connect_eq hfails ha hwatched]
  refine ⟨rfl, rfl, rfl, count_complaints _ fun i hi hin => ?_⟩
  obtain ⟨e, he⟩ := hfails i hi hin
  exact ⟨e.message, by rw [he]; rfl⟩

/-- Three attempts, with one second and two seconds in between. -/
def doubling : Backoff := ⟨.ofSeconds 1, .ofSeconds 2, .ofNat 2, some 3⟩

/-- One second, then two. -/
def doublings : ℕ → Duration
  | 0 => .ofSeconds 1
  | _ + 1 => .ofSeconds 2

theorem delays_doubling (n : ℕ) : doubling.delays n = some (doublings n) := by
  have hone : doubling.next? (.ofSeconds 1) = some (.ofSeconds 2) := by decide +kernel
  have htwo : doubling.next? (.ofSeconds 2) = some (.ofSeconds 2) := by decide +kernel
  induction n with
  | zero => rfl
  | succ n ih =>
    rw [delays, ih, Option.bind_some]
    cases n with
    | zero => exact hone
    | succ n => exact htwo

theorem firstSuccess_error (e : String) :
    firstSuccess (fun _ => .error e : ℕ → Except String α) = ⊤ := by
  simp [firstSuccess, successes]

/-- An operation that never succeeds. -/
def refused : ℕ → Except String Unit := fun _ => .error "refused"

/-- A connector that fails twice. -/
def refusedTwice : ℕ → Except TransportError Unit :=
  fun n => if n ≤ 2 then .error .closed else .ok ()

theorem run_attempts_thrice :
    (doubling.run "resync" 5 refused).Makes 3 refused doublings 5 ∧
    (doubling.run "resync" 5 refused).calls = [0, 1000, 3000] ∧
    (connect "nats" 5 refusedTwice).calls = [0, 1000, 2000] ∧
    (connect "nats" 5 refusedTwice).outcome = .ok () := by
  obtain ⟨hrun, hconnect⟩ := run_attempts (α := Unit)
  have hthree : min (firstSuccess refused) doubling.allowed = 3 := by
    have hnever : firstSuccess refused = ⊤ := firstSuccess_error "refused"
    rw [hnever]
    exact min_eq_right le_top
  have hmakes := hrun doubling "resync" [] refused doublings (fun i _ => delays_doubling i) 5
  have hnats := hconnect "nats" refusedTwice 2 () (fun i _ hi => ⟨.closed, if_pos hi⟩) rfl 5
    (by decide)
  rw [hthree] at hmakes
  have hlength : (doubling.run "resync" 5 refused).calls.length = 3 :=
    Nat.cast_inj.mp hmakes.count
  refine ⟨hmakes, ?_, hnats.2.1, hnats.1⟩
  rw [hmakes.calls, hlength]
  decide

end Backoff

end Telemetry
