import Telemetry.Proofs.Agree
import Telemetry.Proofs.Replay

/-!
# Shelves with echoes to come

Who hears its own writes takes every notification twice, once when it is written and once when it
comes back, and in between it takes later ones. Its shelf is compared with that of someone who takes
each of them once. The two agree up to the notifications that are still to come back: these decide
again every place where the shelves differ, and in the order in which they were written.

* `Shelf.after`: a shelf after a list of notifications;
* `Shelf.Owes`: a shelf that is still to hear a list of notifications, beside one that is not;
* **`Shelf.Owes.call`**, **`Shelf.Owes.early`**, **`Shelf.Owes.heard`**: a notification is written,
  kept, and heard;
* **`Shelf.Owes.notification?_eq`**: with nothing to come the same is listed;
* `Shelf.Owes.write_call`, `Shelf.Owes.write_early`, `Shelf.Owes.hear`: the same for stores.
-/

namespace Telemetry

namespace Shelf

variable {H H' : Prop} {P : List Notification} {a b : Shelf} {n : Notification}

/-- The shelf after the notifications. -/
def after (P : List Notification) (a : Shelf) : Shelf := P.foldl (fun a n => a.apply 0 n) a

theorem after_concat (P : List Notification) (n : Notification) (a : Shelf) :
    after (P ++ [n]) a = (after P a).apply 0 n := by
  rw [after, List.foldl_append]
  rfl

/-- The shelf `a` is still to hear `P`, of which it may have kept some, and `b` is not: were `a` to
forget what it kept early, it would become `b` after `P`. Under `H` no NaN was written. -/
structure Owes (H : Prop) (P : List Notification) (a b : Shelf) : Prop where
  canonical : ∀ n ∈ P, n.canonical = n
  base : ∃ base : Shelf, Agrees (· ∈ P) a.canonical base ∧
    Agrees (fun _ => False) b.canonical (after P base)
  plain : H → a.canonical = a ∧ b.canonical = b

theorem Owes.empty : Owes H [] {} {} where
  canonical _ hn := absurd hn List.not_mem_nil
  base := ⟨_, .refl _, .refl _⟩
  plain _ := ⟨rfl, rfl⟩

theorem Owes.mono (h : Owes H P a b) (hH : H' → H) : Owes H' P a b :=
  ⟨h.canonical, h.base, fun hp => h.plain (hH hp)⟩

theorem canonical_apply_of_eq (ha : a.canonical = a) (hn : n.canonical = n) (now : ℕ) :
    (a.apply now n).canonical = a.apply now n := by
  rw [canonical_apply, ha, hn]

theorem Owes.call (h : Owes H P a b) (hn : H → n.canonical = n) (now : ℕ) :
    Owes H (P ++ [n.canonical]) a (b.apply now n) where
  canonical n' hn' := by
    rcases List.mem_append.mp hn' with hn' | hn'
    · exact h.canonical n' hn'
    · rw [List.mem_singleton.mp hn', n.canonical_canonical]
  base := by
    obtain ⟨base, hab, hb⟩ := h.base
    refine ⟨base, hab.mono fun n' hn' => List.mem_append_left _ hn', ?_⟩
    rw [canonical_apply, after_concat]
    exact hb.heard (fun _ h => h.elim) now 0
  plain hp := ⟨(h.plain hp).1, canonical_apply_of_eq (h.plain hp).2 (hn hp) now⟩

theorem Owes.early (h : Owes H P a b) (hmem : n.canonical ∈ P) (hn : H → n.canonical = n)
    (now : ℕ) : Owes H P (a.apply now n) b where
  canonical := h.canonical
  base := by
    obtain ⟨base, hab, hb⟩ := h.base
    refine ⟨base, ?_, hb⟩
    rw [canonical_apply]
    exact hab.early (by rwa [n.canonical_canonical]) n.canonical.canonical_canonical now
  plain hp := ⟨canonical_apply_of_eq (h.plain hp).1 (hn hp) now, (h.plain hp).2⟩

theorem Owes.heard (h : Owes H (n.canonical :: P) a b) (hn : H → n.canonical = n) (now : ℕ) :
    Owes H P (a.apply now n) b where
  canonical n' hn' := h.canonical n' (List.mem_cons_of_mem _ hn')
  base := by
    obtain ⟨base, hab, hb⟩ := h.base
    refine ⟨base.apply 0 n.canonical, ?_, hb⟩
    rw [canonical_apply]
    exact hab.heard (fun n' hn' => List.mem_cons.mp hn') now 0
  plain hp := ⟨canonical_apply_of_eq (h.plain hp).1 (hn hp) now, (h.plain hp).2⟩

/-- **With nothing to come the same is listed**, up to NaNs. -/
theorem Owes.notification?_eq (h : Owes H [] a b) (t : String) :
    a.canonical.notification? {} t = b.canonical.notification? {} t := by
  obtain ⟨base, hab, hb⟩ := h.base
  rw [hab.notification?_eq (fun _ => List.not_mem_nil) t, hb.notification?_eq (fun _ h => h) t]
  rfl

end Shelf

/-! ## Shelves of a store -/

theorem Envelope.canonical_of_about? {e : Envelope} {t : String} {n : Notification}
    (h : e.about? t = some n) (he : e.HasNoNaN) : n.canonical = n := by
  have hcanonical := e.canonical_about? t
  rw [canonical_eq_self he, h] at hcanonical
  exact (Option.some.inj hcanonical).symm

namespace Shelf

variable {H : Prop} {P : List Notification} {a b : Shelf} {s t : String} {e : Envelope}
  {st : Store}

theorem Owes.write_call (h : Owes H P a (st.shelf s t)) (he : H → e.HasNoNaN) (now : ℕ) :
    Owes H (P ++ (e.canonical.about? t).toList) a ((st.write now s e).shelf s t) := by
  rw [Envelope.canonical_about?]
  cases habout : e.about? t with
  | none =>
    rw [Store.shelf_write_of_not_about habout]
    simpa using h
  | some n =>
    rw [Store.shelf_write_of_about habout]
    exact h.call (fun hp => Envelope.canonical_of_about? habout (he hp)) now

theorem Owes.write_early (h : Owes H (P ++ (e.canonical.about? t).toList) (st.shelf s t) b)
    (he : H → e.HasNoNaN) (now : ℕ) :
    Owes H (P ++ (e.canonical.about? t).toList) ((st.write now s e).shelf s t) b := by
  rw [Envelope.canonical_about?] at h ⊢
  cases habout : e.about? t with
  | none =>
    rw [Store.shelf_write_of_not_about habout]
    rwa [habout] at h
  | some n =>
    rw [Store.shelf_write_of_about habout]
    rw [habout] at h
    exact h.early (by simp) (fun hp => Envelope.canonical_of_about? habout (he hp)) now

theorem Owes.write_last (h : Owes H (P ++ (e.canonical.about? t).toList) (st.shelf s t) b)
    (hP : e.about? t ≠ none → P = []) (he : H → e.HasNoNaN) (now : ℕ) :
    Owes H P ((st.write now s e).shelf s t) b := by
  rw [Envelope.canonical_about?] at h
  cases habout : e.about? t with
  | none =>
    rw [Store.shelf_write_of_not_about habout]
    simpa [habout] using h
  | some n =>
    obtain rfl := hP (by simp [habout])
    rw [Store.shelf_write_of_about habout]
    rw [habout] at h
    exact h.heard (fun hp => Envelope.canonical_of_about? habout (he hp)) now

theorem Owes.hear {m : Message} (h : Owes H ((heard? s t m).toList ++ P) (st.shelf s t) b)
    (now : ℕ) : Owes H P ((st.hear now s m).shelf s t) b := by
  cases hheard : heard? s t m with
  | none =>
    rw [Store.shelf_hear_of_none hheard]
    rwa [hheard] at h
  | some n =>
    rw [hheard] at h
    have hcanonical : n.canonical = n := h.canonical n (by simp)
    have hcons : Owes H (n.canonical :: P) (st.shelf s t) b := by
      rw [hcanonical]
      exact h
    rw [Store.shelf_hear_of_some hheard]
    exact hcons.heard (fun _ => hcanonical) now

end Shelf

end Telemetry
