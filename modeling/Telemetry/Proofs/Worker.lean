import Mathlib.Data.List.Infix
import Mathlib.Data.Nat.Notation
import Telemetry.Store.Watcher

/-!
# The worker of a watcher

A worker sends the contents, then fetches from the feed, holds what is wanted of a notice until
there is room for it, and lets nothing overtake anything else. The work that is left shrinks with
every step, so it comes to wait, and who goes on emptying the queue gets all that is to come.

* `Watcher.Advance`, `Watcher.Waits`: what one step does, and why there may be none;
* **`Watcher.act_advance`**, `Watcher.waits_of_act`: there are no other steps and reasons;
* `Watcher.Live`, `Watcher.onWay`, `Watcher.coming`: a worker that goes on, what it has already, and
  what it has not fetched yet;
* **`Watcher.act_onWay`**: a step only adds to what is on the way, and skips only where it lags;
* **`Watcher.act_due`**: a worker that does not lag moves notices on, and keeps them all;
* `Watcher.act_runFor`, `Watcher.drainFor_rests`: it comes to wait, and drained, to rest.
-/

namespace Telemetry

namespace Watcher

variable {feed : Feed Notice} {closed : Bool} {w w' : Watcher} {signals : List Signal}

/-! ## One step -/

/-- What one step of the worker does. -/
inductive Advance (feed : Feed Notice) (closed : Bool) (w : Watcher) :
    Watcher → List Signal → Prop where
  /-- A part of the contents is sent. -/
  | contents {n : Notice} {rest : List Notice} : w.pending = n :: rest → w.cancelled = false →
      w.dropped = false → w.hasRoom = true →
      Advance feed closed w { w with pending := rest, queue := w.queue ++ [n] } []
  /-- The notice that it holds is sent, cancelled or not. -/
  | notice {n : Notice} : w.pending = [] → w.holding = some n → w.dropped = false →
      w.hasRoom = true →
      Advance feed closed w { w with holding := none, queue := w.queue ++ [n] } []
  | fetched {n : Notice} : w.pending = [] → w.holding = none → w.interest.follow = true →
      w.cancelled = false → feed.fetch w.next = .item n →
      Advance feed closed w { w with next := w.next + 1, holding := w.interest.narrow n } []
  /-- It passes over what it cannot fetch any more. -/
  | lagged {k : ℕ} : w.pending = [] → w.holding = none → w.interest.follow = true →
      w.cancelled = false → feed.fetch w.next = .lagged k →
      Advance feed closed w { w with next := w.next + k } [.warn (.watcherLagged k)]
  | finished : w.cancelled = true ∨ w.dropped = true ∨
        w.pending = [] ∧ w.holding = none ∧
          (w.interest.follow = false ∨ closed = true ∧ feed.fetch w.next = .caughtUp) →
      Advance feed closed w w.finish []

/-- **Every step is one of these**, and there is none after the end. -/
theorem act_advance (h : w.act feed closed = some (w', signals)) :
    w.ended = false ∧ Advance feed closed w w' signals := by
  revert h
  fun_cases act feed closed w <;> intro h <;> cases h
  case case2 hended n rest hp hgone =>
    refine ⟨eq_false_of_ne_true hended, .finished ?_⟩
    rcases (Bool.or_eq_true _ _).mp hgone with hcancelled | hdropped
    · exact .inl hcancelled
    · exact .inr (.inl hdropped)
  case case3 hended n rest hp hgone hroom =>
    obtain ⟨hcancelled, hdropped⟩ : w.cancelled = false ∧ w.dropped = false := by simpa using hgone
    exact ⟨eq_false_of_ne_true hended, .contents hp hcancelled hdropped hroom⟩
  case case5 hended n hh hp hdropped =>
    exact ⟨eq_false_of_ne_true hended, .finished (.inr (.inl hdropped))⟩
  case case6 hended n hh hp hdropped hroom =>
    exact ⟨eq_false_of_ne_true hended, .notice hp hh (eq_false_of_ne_true hdropped) hroom⟩
  case case8 hended hh hp hgone =>
    refine ⟨eq_false_of_ne_true hended, .finished ?_⟩
    rcases (Bool.or_eq_true _ _).mp hgone with hfollow | hcancelled
    · exact .inr (.inr ⟨hp, hh, .inl (by simpa using hfollow)⟩)
    · exact .inl hcancelled
  case case9 hended hh hp hgone n hf =>
    obtain ⟨hfollow, hcancelled⟩ : w.interest.follow = true ∧ w.cancelled = false := by
      simpa using hgone
    exact ⟨eq_false_of_ne_true hended, .fetched hp hh hfollow hcancelled hf⟩
  case case10 hended hh hp hgone k hf =>
    obtain ⟨hfollow, hcancelled⟩ : w.interest.follow = true ∧ w.cancelled = false := by
      simpa using hgone
    exact ⟨eq_false_of_ne_true hended, .lagged hp hh hfollow hcancelled hf⟩
  case case11 hended hh hp hgone hf hclosed =>
    exact ⟨eq_false_of_ne_true hended, .finished (.inr (.inr ⟨hp, hh, .inr ⟨hclosed, hf⟩⟩))⟩

/-- Why the worker takes no step. -/
inductive Waits (feed : Feed Notice) (closed : Bool) (w : Watcher) : Prop where
  | ended : w.ended = true → Waits feed closed w
  /-- There is no room for what it has to send. -/
  | full : w.pending ≠ [] ∧ w.cancelled = false ∨ w.pending = [] ∧ w.holding ≠ none →
      w.dropped = false → w.hasRoom = false → Waits feed closed w
  | caughtUp : w.pending = [] → w.holding = none → w.interest.follow = true →
      w.cancelled = false → closed = false → feed.fetch w.next = .caughtUp → Waits feed closed w

theorem waits_of_act (h : w.act feed closed = none) : w.Waits feed closed := by
  revert h
  fun_cases act feed closed w <;> intro h <;> cases h
  case case1 hended => exact .ended hended
  case case4 hended n rest hp hgone hroom =>
    obtain ⟨hcancelled, hdropped⟩ : w.cancelled = false ∧ w.dropped = false := by simpa using hgone
    exact .full (.inl ⟨by simp [hp], hcancelled⟩) hdropped (eq_false_of_ne_true hroom)
  case case7 hended n hh hp hdropped hroom =>
    exact .full (.inr ⟨hp, by simp [hh]⟩) (eq_false_of_ne_true hdropped)
      (eq_false_of_ne_true hroom)
  case case12 hended hh hp hgone hf hclosed =>
    obtain ⟨hfollow, hcancelled⟩ : w.interest.follow = true ∧ w.cancelled = false := by
      simpa using hgone
    exact .caughtUp hp hh hfollow hcancelled (eq_false_of_ne_true hclosed) hf

theorem work_lt (h : w.act feed closed = some (w', signals)) : w'.work feed < w.work feed := by
  obtain ⟨hended, hadvance⟩ := act_advance h
  cases hadvance with
  | contents hp =>
    simp only [work, hp, List.length_cons]
    omega
  | notice hp hh => simp [work, hp, hh]
  | fetched hp hh _ _ hf =>
    obtain ⟨-, hn⟩ := (Feed.fetch_eq_item_iff _ _ _).mp hf
    have hlt : w.next < feed.size := (Array.getElem?_eq_some_iff.mp hn).1
    simp only [work, hp, hh]
    split <;> simp <;> omega
  | lagged hp hh _ _ hf =>
    obtain ⟨hold, rfl⟩ := (Feed.fetch_eq_lagged_iff _ _ _).mp hf
    simp only [work, hp, hh, Feed.oldest] at hold ⊢
    omega
  | finished => simp [work, finish, hended]; omega

theorem next_le_of_act (h : w.act feed closed = some (w', signals)) : w.next ≤ w'.next := by
  cases (act_advance h).2 with
  | contents | notice | finished => exact Nat.le_refl _
  | fetched | lagged => exact Nat.le_add_right _ _

theorem signals_eq_nil (h : w.act feed closed = some (w', signals)) (hold : feed.oldest ≤ w.next) :
    signals = [] := by
  cases (act_advance h).2 with
  | contents | notice | fetched | finished => rfl
  | lagged _ _ _ _ hf =>
    exact absurd ((Feed.fetch_eq_lagged_iff _ _ _).mp hf).1 (Nat.not_lt.mpr hold)

theorem length_queue_le_of_act (h : w.act feed closed = some (w', signals))
    (hw : w.queue.length ≤ queueCapacity) : w'.queue.length ≤ queueCapacity := by
  cases (act_advance h).2 with
  | contents _ _ _ hroom | notice _ _ _ hroom =>
    have hlt : w.queue.length < queueCapacity := by simpa [hasRoom] using hroom
    rwa [List.length_append, List.length_singleton]
  | fetched | lagged | finished => exact hw

/-! ## What is on the way -/

/-- The worker follows and has no reason to end. -/
structure Live (feed : Feed Notice) (w : Watcher) : Prop where
  follow : w.interest.follow = true
  cancelled : w.cancelled = false
  dropped : w.dropped = false
  ended : w.ended = false
  next : w.next ≤ feed.size

/-- What is sent but not taken, and what the worker has yet to send. -/
def onWay (w : Watcher) : List Notice := w.queue ++ w.pending ++ w.holding.toList

/-- What of the feed is not fetched yet and wanted. -/
def coming (feed : Feed Notice) (i : Interest) (next : ℕ) : List Notice :=
  (feed.items.toList.drop next).filterMap i.narrow

/-- What was sent but not taken, and what is still to be sent, in this order. -/
def due (feed : Feed Notice) (w : Watcher) : List Notice :=
  w.queue ++ w.pending ++ w.holding.toList ++ coming feed w.interest w.next

theorem due_eq (feed : Feed Notice) (w : Watcher) :
    w.due feed = w.onWay ++ coming feed w.interest w.next := rfl

theorem coming_of_getElem? {i : Interest} {next : ℕ} {x : Notice}
    (h : feed.items[next]? = some x) :
    coming feed i next = (i.narrow x).toList ++ coming feed i (next + 1) := by
  obtain ⟨hlt, hx⟩ := Array.getElem?_eq_some_iff.mp h
  have hdrop : feed.items.toList.drop next = x :: feed.items.toList.drop (next + 1) := by
    rw [List.drop_eq_getElem_cons (by simpa using hlt), Array.getElem_toList, hx]
  rw [coming, coming, hdrop, List.filterMap_cons]
  cases i.narrow x <;> rfl

theorem coming_push {i : Interest} {next : ℕ} (h : next ≤ feed.size) (x : Notice) :
    coming (feed.push x) i next = coming feed i next ++ (i.narrow x).toList := by
  have hlen : next ≤ feed.items.toList.length := by simpa [Feed.size] using h
  rw [coming, Feed.push, Array.toList_push, List.drop_append_of_le_length hlen,
    List.filterMap_append, coming]
  cases hx : i.narrow x <;> simp [hx]

theorem coming_eq_nil {i : Interest} {next : ℕ} (h : feed.size ≤ next) :
    coming feed i next = [] := by
  rw [coming, List.drop_eq_nil_of_le (by simpa [Feed.size] using h), List.filterMap_nil]

theorem coming_add_sublist (i : Interest) (next k : ℕ) :
    (coming feed i (next + k)).Sublist (coming feed i next) := by
  rw [coming, coming, ← List.drop_drop]
  exact (List.drop_sublist _ _).filterMap _

/-- **A step only adds to what is on the way**: the next that is wanted of the feed. It skips
something only where it says that it lags. -/
theorem act_onWay (hw : w.Live feed) (h : w.act feed false = some (w', signals)) :
    w'.interest = w.interest ∧ w'.Live feed ∧ ∃ l, w'.onWay = w.onWay ++ l ∧
      (l ++ coming feed w.interest w'.next).Sublist (coming feed w.interest w.next) ∧
      (signals = [] → l ++ coming feed w.interest w'.next = coming feed w.interest w.next) := by
  obtain ⟨hfollow, hcancelled, hdropped, hended, hnext⟩ := hw
  cases (act_advance h).2 with
  | contents hp =>
    refine ⟨rfl, ⟨hfollow, hcancelled, hdropped, hended, hnext⟩, [], ?_, .refl _, fun _ => rfl⟩
    simp [onWay, hp]
  | notice hp hh =>
    refine ⟨rfl, ⟨hfollow, hcancelled, hdropped, hended, hnext⟩, [], ?_, .refl _, fun _ => rfl⟩
    simp [onWay, hp, hh]
  | @fetched n hp hh _ _ hf =>
    obtain ⟨-, hn⟩ := (Feed.fetch_eq_item_iff _ _ _).mp hf
    have hlt : w.next < feed.size := (Array.getElem?_eq_some_iff.mp hn).1
    have hcoming := coming_of_getElem? (i := w.interest) hn
    refine ⟨rfl, ⟨hfollow, hcancelled, hdropped, hended, hlt⟩, (w.interest.narrow n).toList, ?_,
      hcoming ▸ .refl _, fun _ => hcoming.symm⟩
    simp [onWay, hp, hh]
  | lagged hp hh _ _ hf =>
    obtain ⟨hold, rfl⟩ := (Feed.fetch_eq_lagged_iff _ _ _).mp hf
    have hsize : w.next + (feed.oldest - w.next) ≤ feed.size := by
      unfold Feed.oldest at hold ⊢
      omega
    exact ⟨rfl, ⟨hfollow, hcancelled, hdropped, hended, hsize⟩, [], by simp [onWay],
      coming_add_sublist _ _ _, fun h => absurd h (List.cons_ne_nil _ _)⟩
  | finished hcause => simp [hfollow, hcancelled, hdropped] at hcause

/-- **A worker that does not lag moves notices on**, and keeps them all in their order. -/
theorem act_due (hw : w.Live feed) (h : w.act feed false = some (w', [])) :
    w'.interest = w.interest ∧ w'.Live feed ∧ w'.due feed = w.due feed := by
  obtain ⟨hinterest, hlive, l, honWay, -, hall⟩ := act_onWay hw h
  refine ⟨hinterest, hlive, ?_⟩
  rw [due_eq, due_eq, honWay, hinterest, List.append_assoc, hall rfl]

theorem due_eq_nil (hw : w.Live feed) (hqueue : w.queue = []) (h : w.act feed false = none) :
    w.due feed = [] := by
  cases waits_of_act h with
  | ended hended => simp [hw.ended] at hended
  | full _ _ hroom =>
    rw [hasRoom, hqueue] at hroom
    exact absurd hroom (by decide)
  | caughtUp hp hh _ _ _ hf =>
    have hsize := (Feed.fetch_eq_caughtUp_iff _ _).mp hf
    simp [due, hqueue, hp, hh, coming_eq_nil hsize]

/-! ## Many steps -/

theorem runFor_induction {P : Watcher → Prop}
    (hact : ∀ w w' signals, P w → w.act feed closed = some (w', signals) → P w')
    (fuel : ℕ) (hw : P w) : P (w.runFor feed closed fuel).1 := by
  induction fuel generalizing w with
  | zero => exact hw
  | succ fuel ih =>
    rw [runFor]
    split
    · exact hw
    · rename_i h
      exact ih (hact _ _ _ hw h)

theorem act_runFor {fuel : ℕ} (hfuel : w.work feed ≤ fuel) :
    (w.runFor feed closed fuel).1.act feed closed = none := by
  induction fuel generalizing w with
  | zero =>
    cases h : w.act feed closed with
    | none => exact h
    | some r => exact absurd (work_lt h) (by omega)
  | succ fuel ih =>
    rw [runFor]
    split
    · rename_i h
      exact h
    · rename_i h
      have := work_lt h
      exact ih (by omega)

theorem runFor_eq_or_work_lt (feed : Feed Notice) (closed : Bool) (w : Watcher) (fuel : ℕ) :
    (w.runFor feed closed fuel).1 = w ∨
      (w.runFor feed closed fuel).1.work feed < w.work feed := by
  induction fuel generalizing w with
  | zero => exact .inl rfl
  | succ fuel ih =>
    rw [runFor]
    split
    · exact .inl rfl
    · rename_i w' signals h
      have hlt := work_lt h
      refine .inr ?_
      rcases ih w' with heq | hless
      · exact (congrArg (work feed) heq).trans_lt hlt
      · exact hless.trans hlt

/-- What every step keeps, and emptying the queue, holds after many rounds. -/
theorem drainFor_induction {P : Watcher → List Notice → Prop}
    (hact : ∀ w w' signals taken, P w taken → w.act feed closed = some (w', signals) → P w' taken)
    (htake : ∀ w taken, P w taken → P w.take.1 (taken ++ w.queue))
    (fuel : ℕ) {taken : List Notice} (hw : P w taken) :
    P (w.drainFor feed closed fuel).1 (taken ++ (w.drainFor feed closed fuel).2.1) := by
  induction fuel generalizing w taken with
  | zero => simpa [drainFor] using hw
  | succ fuel ih =>
    have hrun : P (w.take.1.run feed closed).1 (taken ++ w.queue) :=
      runFor_induction (P := fun w' => P w' (taken ++ w.queue))
        (fun w₁ w₂ ss h hstep => hact w₁ w₂ ss _ h hstep) _ (htake w taken hw)
    rw [drainFor]
    dsimp only
    split
    · exact hrun
    · rw [← List.append_assoc]
      exact ih hrun

/-- **With enough rounds nothing is left to be taken**, and the worker waits or has ended. -/
theorem drainFor_rests {fuel : ℕ} (hfuel : w.work feed < fuel) :
    (w.drainFor feed closed fuel).1.queue = [] ∧
      (w.drainFor feed closed fuel).1.act feed closed = none := by
  induction fuel generalizing w with
  | zero => omega
  | succ fuel ih =>
    have hwaits : (w.take.1.run feed closed).1.act feed closed = none := act_runFor (Nat.le_refl _)
    rw [drainFor]
    dsimp only
    split
    · rename_i hempty
      exact ⟨List.isEmpty_iff.mp hempty, hwaits⟩
    · rename_i hqueue
      -- something came, so the worker did not wait
      have hless : (w.take.1.run feed closed).1.work feed < w.work feed :=
        (runFor_eq_or_work_lt feed closed w.take.1 _).resolve_left fun heq =>
          hqueue (by rw [run, heq]; rfl)
      exact ih (by omega)

end Watcher

end Telemetry
