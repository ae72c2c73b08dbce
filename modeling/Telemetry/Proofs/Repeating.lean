import Mathlib.Data.List.Forall2
import Telemetry.Proofs.Agree

/-!
# Writing again

Whatever was written last decides what stands where it reaches, whatever stood there before. So the
last writes can be written once more, from any one on, and the same is read: until all of them have
come again, a place differs only if one of those to come decides it.

* `Entry`, `Store.enter`: writes, one after another; `Entry.Repeats`: the same write at another time;
* `Entry.about?`, `Store.shelf_write_entry`: what a write applies to one shelf;
* `Entry.Awaited`: what is still to come again;
* **`Store.agrees_enter_early`**: what is written once more beforehand; **`Store.agrees_enter`**: what
  both stores take;
* **`Store.read_enter_again`**: the last writes, written once more.
-/

namespace Telemetry

/-! ## Writes -/

/-- A write that takes place at a time. -/
structure Entry where
  now : ℕ
  subscription : String
  envelope : Envelope

/-- The store after some writes. -/
def Store.enter (ws : List Entry) (st : Store) : Store :=
  ws.foldl (fun st w => st.write w.now w.subscription w.envelope) st

namespace Entry

/-- The same is written under the same subscription, perhaps at another time. -/
structure Repeats (a b : Entry) : Prop where
  subscription : a.subscription = b.subscription
  envelope : a.envelope = b.envelope

/-- The same write some time later. -/
def later (time : ℕ) (w : Entry) : Entry := { w with now := w.now + time }

theorem repeats_later (time : ℕ) (ws : List Entry) :
    List.Forall₂ Repeats (ws.map (later time)) ws := by
  rw [List.forall₂_map_left_iff, List.forall₂_same]
  exact fun _ _ => ⟨rfl, rfl⟩

/-- What the write applies to the shelf of a subscription and target. -/
def about? (s t : String) (w : Entry) : Option Notification :=
  if w.subscription = s then w.envelope.about? t else none

theorem Repeats.about? {a b : Entry} (h : a.Repeats b) (s t : String) :
    a.about? s t = b.about? s t := by
  rw [Entry.about?, Entry.about?, h.subscription, h.envelope]

/-- What the writes apply to the shelf of a subscription and target. -/
def Awaited (s t : String) (ws : List Entry) (n : Notification) : Prop :=
  ∃ w ∈ ws, w.about? s t = some n

end Entry

/-! ## One shelf -/

namespace Store

variable {s t : String} {ws again : List Entry} {a b : Store}

theorem enter_append (ws ws' : List Entry) (st : Store) :
    st.enter (ws ++ ws') = (st.enter ws).enter ws' :=
  List.foldl_append

theorem lifetime_enter (ws : List Entry) (st : Store) : (st.enter ws).lifetime = st.lifetime := by
  induction ws generalizing st with
  | nil => rfl
  | cons w ws ih => exact (ih _).trans (st.lifetime_write w.now w.subscription w.envelope)

theorem shelf_write_entry (w : Entry) (st : Store) :
    (st.write w.now w.subscription w.envelope).shelf s t =
      ((w.about? s t).map fun n => (st.shelf s t).apply w.now n).getD (st.shelf s t) := by
  rw [Entry.about?]
  split
  · rename_i hs
    subst hs
    cases habout : w.envelope.about? t with
    | some n => exact shelf_write_of_about habout w.now st
    | none => exact shelf_write_of_not_about habout w.now st
  · rename_i hs
    exact shelf_write_of_ne (Ne.symm hs) w.now w.envelope st

/-- **Writes that are still awaited may be made beforehand.** -/
theorem agrees_enter_early {P : Notification → Prop} {c : Shelf} (h : (a.shelf s t).Agrees P c)
    (hP : ∀ n, Entry.Awaited s t ws n → P n) : ((a.enter ws).shelf s t).Agrees P c := by
  induction ws generalizing a with
  | nil => exact h
  | cons w ws ih =>
    refine ih (a := a.write w.now w.subscription w.envelope) ?_ fun n ⟨w', hw', hn⟩ =>
      hP n ⟨w', List.mem_cons_of_mem _ hw', hn⟩
    rw [shelf_write_entry]
    cases hn : w.about? s t with
    | none => exact h
    | some n => exact h.early (hP n ⟨w, List.mem_cons_self, hn⟩) rfl w.now

/-- **After both stores took the writes they agree**, if these decided all differences. -/
theorem agrees_enter (hagain : List.Forall₂ Entry.Repeats again ws)
    (h : (a.shelf s t).Agrees (Entry.Awaited s t ws) (b.shelf s t)) :
    ((a.enter again).shelf s t).Agrees (fun _ => False) ((b.enter ws).shelf s t) := by
  induction hagain generalizing a b with
  | nil => exact h.mono fun n ⟨w, hw, _⟩ => absurd hw List.not_mem_nil
  | @cons w' w again ws hrepeats _ ih =>
    refine ih (a := a.write w'.now w'.subscription w'.envelope)
      (b := b.write w.now w.subscription w.envelope) ?_
    rw [shelf_write_entry, shelf_write_entry, hrepeats.about?]
    -- what is awaited comes from the first write, or still comes
    have hawaited : ∀ n, Entry.Awaited s t (w :: ws) n →
        w.about? s t = some n ∨ Entry.Awaited s t ws n := by
      rintro n ⟨v, hv, hn⟩
      rcases List.mem_cons.mp hv with rfl | hv
      · exact .inl hn
      · exact .inr ⟨v, hv, hn⟩
    cases hw : w.about? s t with
    | none => exact h.mono fun n hn => (hawaited n hn).resolve_left (by simp [hw])
    | some n =>
      refine h.heard (fun n' hn' => ?_) w'.now w.now
      exact (hawaited n' hn').imp_left fun hn' => (Option.some.inj (hw.symm.trans hn')).symm

/-! ## What is read -/

/-- **The last writes, written once more**, in their order and from any one on, leave what is read as
it is, whatever the store held at first. -/
theorem read_enter_again {st : Store} (h : st.lifetime = none) (k : ℕ)
    (hagain : List.Forall₂ Entry.Repeats again (ws.drop k)) (now later : ℕ) :
    (((st.enter ws).enter again).read later).2 = ((st.enter ws).read now).2 := by
  have hread : ∀ (ws : List Entry) (st : Store), st.lifetime = none → ∀ now,
      ((st.enter ws).read now).2 = (st.enter ws).view := fun ws st h now =>
    congrArg Prod.snd (read_of_lifetime_none ((lifetime_enter ws st).trans h) now)
  have hsplit : st.enter ws = (st.enter (ws.take k)).enter (ws.drop k) := by
    rw [← enter_append, List.take_append_drop]
  rw [hread again _ ((lifetime_enter ws st).trans h), hread ws st h, view_eq_iff]
  intro s t
  have hagrees : ((st.enter ws).shelf s t).Agrees (Entry.Awaited s t (ws.drop k))
      ((st.enter (ws.take k)).shelf s t) := by
    rw [hsplit]
    exact agrees_enter_early (Shelf.Agrees.refl _) fun _ hn => hn
  have hsame := (agrees_enter hagain hagrees).notification?_eq (fun _ => id) t
  rwa [← hsplit, ← notification?_eq_shelf, ← notification?_eq_shelf] at hsame

/-- A place that is written with an origin, deleted together with its neighbour, and put back. -/
def restored : List Entry :=
  let place : String → Path := fun name => { elements := [⟨name, .empty⟩] }
  [⟨0, "s", .update { base := some { origin := "o" }, updates := [{ path := place "a" }] }⟩,
    ⟨1, "s", .update { timestamp := 7, updates := [{ path := place "b" }], deletes := [{}] }⟩,
    ⟨2, "s", .update { updates := [{ path := place "a", duplicates := 3 }], deletes := [place "b"] }⟩]

/-- The place and its neighbour are written, deleted and put back once more. -/
theorem read_enter_again_restored :
    ({} : Store).lifetime = none ∧
      List.Forall₂ Entry.Repeats ((restored.drop 1).map (.later 10)) (restored.drop 1) ∧
      (((({} : Store).enter restored).enter ((restored.drop 1).map (.later 10))).read 20).2 =
        ((({} : Store).enter restored).read 3).2 :=
  ⟨rfl, Entry.repeats_later 10 _, read_enter_again rfl 1 (Entry.repeats_later 10 _) 3 20⟩

end Store

end Telemetry
