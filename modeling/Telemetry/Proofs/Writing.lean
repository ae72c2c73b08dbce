import Mathlib.Data.Nat.Notation
import Telemetry.Node.Write

/-!
# What a move of a write can do

A write goes from stage to stage, and every move of it is one of a few. Only two of them use the
medium, the announcement and the data; only one enters the subscription as announced, and only one
asks for a consumer.

* `Attempt.act_cases`: what a move of a bounded publish can do; `Attempt.act_fails`: why one fails;
* `Writer.Outcome`: what a move of a write can do;
* **`Writer.act_outcome`**: every move is one of these;
* `Writer.act_isSome`: a write that is not over moves when its time has come.
-/

namespace Telemetry

variable {μ : Type} [Medium μ] {now : ℕ} {m m' : μ}

theorem Attempt.send_cases {link : ℕ} {msg : Message} {p : Progress}
    (h : Attempt.send m link msg = (m', p)) :
    (Medium.publish m link msg = (m', .ok ()) ∧ p = .finished (.ok ())) ∨
    ∃ e e', Medium.publish m link msg = (m', .error e) ∧ p = .finished (.error e') := by
  unfold send at h
  split at h
  · rename_i m₁ hpublish
    obtain ⟨rfl, rfl⟩ := Prod.mk.inj h
    exact .inl ⟨hpublish, rfl⟩
  · rename_i m₁ e hpublish
    obtain ⟨rfl, rfl⟩ := Prod.mk.inj h
    exact .inr ⟨e, .publish e, hpublish, rfl⟩

theorem Attempt.act_cases {a : Attempt} {link : ℕ} {limit : Duration} {cancelled : Bool}
    {msg : Message} {p : Progress} (h : a.act link limit cancelled now msg m = some (m', p)) :
    (m' = m ∧ ∃ a', p = .going a') ∨
    (Medium.publish m link msg = (m', .ok ()) ∧ p = .finished (.ok ())) ∨
    (∃ e, p = .finished (.error e)) ∧ (m' = m ∨ ∃ e, Medium.publish m link msg = (m', .error e)) := by
  have hsend : Attempt.send m link msg = (m', p) →
      (Medium.publish m link msg = (m', .ok ()) ∧ p = .finished (.ok ())) ∨
      (∃ e, p = .finished (.error e)) ∧
        (m' = m ∨ ∃ e, Medium.publish m link msg = (m', .error e)) := fun hs =>
    (send_cases hs).imp_right fun ⟨e, e', he, hp⟩ => ⟨⟨e', hp⟩, .inr ⟨e, he⟩⟩
  unfold act at h
  split at h
  · obtain ⟨rfl, rfl⟩ := Prod.mk.inj (Option.some.inj h)
    exact .inr (.inr ⟨⟨_, rfl⟩, .inl rfl⟩)
  · cases a with
    | starting =>
      dsimp only at h
      split at h
      · exact .inr (hsend (Option.some.inj h))
      · obtain ⟨rfl, rfl⟩ := Prod.mk.inj (Option.some.inj h)
        exact .inl ⟨rfl, _, rfl⟩
    | pausing ready deadline =>
      dsimp only at h
      split at h
      · exact .inr (hsend (Option.some.inj h))
      · split at h
        · obtain ⟨rfl, rfl⟩ := Prod.mk.inj (Option.some.inj h)
          exact .inr (.inr ⟨⟨_, rfl⟩, .inl rfl⟩)
        · cases h

theorem Attempt.act_isSome {a : Attempt} {link : ℕ} {limit : Duration} {cancelled : Bool}
    {msg : Message} (hdue : ∀ ready deadline, a = .pausing ready deadline → min ready deadline ≤ now) :
    (a.act link limit cancelled now msg m).isSome = true := by
  unfold act
  split
  · rfl
  · cases a with
    | starting =>
      dsimp only
      split
      · rfl
      · rfl
    | pausing ready deadline =>
      have hmin := hdue ready deadline rfl
      dsimp only
      split
      · rfl
      · rename_i hready
        rw [if_pos (by omega)]
        rfl

/-- Why a bounded publish fails: a token is cancelled, publishing fails, or it is too late. -/
theorem Attempt.act_fails {a : Attempt} {link : ℕ} {limit : Duration} {cancelled : Bool}
    {msg : Message} {e : SyncError}
    (h : a.act link limit cancelled now msg m = some (m', .finished (.error e))) :
    cancelled = true ∨ (∃ e', Medium.publish m link msg = (m', .error e')) ∨
      ∃ ready deadline, a = .pausing ready deadline ∧ deadline ≤ now := by
  have hsend : Attempt.send m link msg = (m', .finished (.error e)) →
      ∃ e', Medium.publish m link msg = (m', .error e') := fun hs => by
    rcases send_cases hs with ⟨-, hok⟩ | ⟨e', -, hpublish, -⟩
    · cases hok
    · exact ⟨e', hpublish⟩
  unfold act at h
  split at h
  · rename_i hcancelled
    exact .inl hcancelled
  · cases a with
    | starting =>
      dsimp only at h
      split at h
      · exact .inr (.inl (hsend (Option.some.inj h)))
      · cases h
    | pausing ready deadline =>
      dsimp only at h
      split at h
      · exact .inr (.inl (hsend (Option.some.inj h)))
      · split at h
        · rename_i hlate
          exact .inr (.inr ⟨ready, deadline, rfl, hlate⟩)
        · cases h

namespace Writer

/-- What a move of a write can do, with the stage at which it does it. -/
inductive Outcome (m : μ) (n : Node) (w : Writer) : Written μ → Prop where
  | store {l : List Signal} : w.stage = .storing →
      Outcome m n w ⟨m, n.keep w.subscription w.envelope, .checking, l⟩
  /-- There are no peers, or the node is cancelled. -/
  | quit {l : List Signal} : w.stage ≠ .storing →
      (n.link = none ∨ n.cancelled = true ∧ w.stage = .checking) →
      Outcome m n w ⟨m, n, .done, l⟩
  | check {l : List Signal} : w.stage = .checking → Outcome m n w ⟨m, n, .marking, l⟩
  | known {l : List Signal} : w.stage = .marking → n.announced.contains w.subscription = true →
      Outcome m n w ⟨m, n, .resolving, l⟩
  | unknown {l : List Signal} : w.stage = .marking →
      n.announced.contains w.subscription = false → Outcome m n w ⟨m, n, .entering, l⟩
  /-- Someone else entered the subscription meanwhile. -/
  | overtaken {l : List Signal} : w.stage = .entering →
      n.announced.contains w.subscription = true → Outcome m n w ⟨m, n, .resolving, l⟩
  | enter {l : List Signal} : w.stage = .entering →
      n.announced.contains w.subscription = false →
      Outcome m n w
        ⟨m, { n with announced := n.announced.add w.subscription }, .announcing .starting, l⟩
  | pause {a a' : Attempt} {l : List Signal} : w.stage = .announcing a →
      Outcome m n w ⟨m, n, .announcing a', l⟩
  | announce {a : Attempt} {link : ℕ} {m' : μ} {l : List Signal} : w.stage = .announcing a →
      n.link = some link → Medium.publish m link w.announcement = (m', .ok ()) →
      Outcome m n w ⟨m', n, .resolving, l⟩
  | unannounced {a : Attempt} {link : ℕ} {m' : μ} {l : List Signal} : w.stage = .announcing a →
      (m' = m ∨ ∃ e, Medium.publish m link w.announcement = (m', .error e)) →
      Outcome m n w ⟨m', n, .resolving, l⟩
  | untargeted {l : List Signal} : w.stage = .resolving → w.envelope.target? = none →
      Outcome m n w ⟨m, n, .done, l⟩
  | targeted {t : String} {deadline : ℕ} {l : List Signal} : w.stage = .resolving →
      w.envelope.target? = some t → Outcome m n w ⟨m, n, .requesting t deadline, l⟩
  | request {t : String} {deadline : ℕ} {l : List Signal} : w.stage = .requesting t deadline →
      Outcome m n w
        ⟨m, { n with requests := n.requests ++ [w.subscription] }, .publishing t .starting, l⟩
  | unrequested {t : String} {deadline : ℕ} {l : List Signal} :
      w.stage = .requesting t deadline → Outcome m n w ⟨m, n, .publishing t .starting, l⟩
  | linger {t : String} {a a' : Attempt} {l : List Signal} : w.stage = .publishing t a →
      Outcome m n w ⟨m, n, .publishing t a', l⟩
  | publish {t : String} {a : Attempt} {link : ℕ} {m' : μ} {l : List Signal} :
      w.stage = .publishing t a → n.link = some link →
      Medium.publish m link (w.data t) = (m', .ok ()) → Outcome m n w ⟨m', n, .done, l⟩
  | unpublished {t : String} {a : Attempt} {link : ℕ} {m' : μ} {l : List Signal} :
      w.stage = .publishing t a →
      (m' = m ∨ ∃ e, Medium.publish m link (w.data t) = (m', .error e)) →
      Outcome m n w ⟨m', n, .done, l⟩

/-- **Every move of a write is one of these.** -/
theorem act_outcome {n : Node} {w : Writer} {revoked : Bool} {r : Written μ}
    (h : w.act now revoked m n = some r) : w.Outcome m n r := by
  by_cases hstoring : w.stage = .storing
  · simp only [act, hstoring] at h
    obtain rfl := Option.some.inj h
    exact .store hstoring
  by_cases hdone : w.stage = .done
  · simp only [act, hdone] at h
    cases h
  cases hlink : n.link with
  | none =>
    simp only [act, hlink] at h
    obtain rfl := Option.some.inj h
    exact .quit hstoring (.inl hlink)
  | some link =>
  obtain ⟨n, rfl⟩ : ∃ n' : Node, n = { n' with link := some link } := ⟨n, by rw [← hlink]⟩
  cases hstage : w.stage with
  | storing => exact absurd hstage hstoring
  | done => exact absurd hstage hdone
  | checking =>
    simp only [act, hstage] at h
    obtain rfl := Option.some.inj h
    by_cases hcancelled : n.cancelled = true
    · rw [if_pos hcancelled]
      exact .quit hstoring (.inr ⟨hcancelled, hstage⟩)
    · rw [if_neg hcancelled]
      exact .check hstage
  | marking =>
    simp only [act, hstage] at h
    obtain rfl := Option.some.inj h
    by_cases hknown : n.announced.contains w.subscription = true
    · rw [if_pos hknown]
      exact .known hstage hknown
    · rw [if_neg hknown]
      exact .unknown hstage (Bool.eq_false_iff.mpr hknown)
  | entering =>
    simp only [act, hstage, Roster.enter] at h
    obtain rfl := Option.some.inj h
    by_cases hknown : n.announced.contains w.subscription = true
    · have hadd : n.announced.add w.subscription = n.announced := by
        rw [Roster.add, dif_pos hknown]
      simp only [hadd, hknown, Bool.not_true, Bool.false_eq_true, if_false]
      exact .overtaken hstage hknown
    · have hknown := Bool.eq_false_iff.mpr hknown
      simp only [hknown, Bool.not_false, if_true]
      exact .enter hstage hknown
  | announcing a =>
    simp only [act, hstage] at h
    obtain ⟨⟨m', p⟩, hact, rfl⟩ := Option.map_eq_some_iff.mp h
    rcases Attempt.act_cases hact with ⟨rfl, a', rfl⟩ | ⟨hpublish, rfl⟩ | ⟨⟨e, rfl⟩, hm⟩
    · exact .pause hstage
    · exact .announce hstage hlink hpublish
    · exact .unannounced hstage hm
  | resolving =>
    simp only [act, hstage] at h
    cases ht : w.envelope.target? with
    | none =>
      rw [ht] at h
      obtain rfl := Option.some.inj h
      exact .untargeted hstage ht
    | some t =>
      rw [ht] at h
      obtain rfl := Option.some.inj h
      exact .targeted hstage ht
  | requesting t deadline =>
    simp only [act, hstage] at h
    split at h
    · obtain rfl := Option.some.inj h
      exact .unrequested hstage
    · split at h
      · obtain rfl := Option.some.inj h
        exact .request hstage
      · split at h
        · obtain rfl := Option.some.inj h
          exact .unrequested hstage
        · cases h
  | publishing t a =>
    simp only [act, hstage] at h
    obtain ⟨⟨m', p⟩, hact, rfl⟩ := Option.map_eq_some_iff.mp h
    rcases Attempt.act_cases hact with ⟨rfl, a', rfl⟩ | ⟨hpublish, rfl⟩ | ⟨⟨e, rfl⟩, hm⟩
    · exact .linger hstage
    · exact .publish hstage hlink hpublish
    · exact .unpublished hstage hm

theorem act_isSome {n : Node} {w : Writer} {revoked : Bool} (hdone : w.stage ≠ .done)
    (hdue : ∀ time ∈ w.deadline?, time ≤ now) : (w.act now revoked m n).isSome = true := by
  by_cases hstoring : w.stage = .storing
  · simp [act, hstoring]
  cases hlink : n.link with
  | none => simp [act, hlink]
  | some link =>
    cases hstage : w.stage with
    | storing => exact absurd hstage hstoring
    | done => exact absurd hstage hdone
    | checking | marking | entering => simp [act, hstage, hlink]
    | announcing a | publishing t a =>
      simp only [act, hstage, hlink, Option.isSome_map]
      refine Attempt.act_isSome fun ready deadline ha => ?_
      exact hdue (min ready deadline) (by simp [deadline?, hstage, ha])
    | resolving =>
      simp only [act, hstage, hlink]
      split <;> rfl
    | requesting t deadline =>
      have hlate : deadline ≤ now := hdue deadline (by simp [deadline?, hstage])
      simp only [act, hstage, hlink, hlate, if_true]
      split <;> try split
      all_goals rfl

end Writer

end Telemetry
