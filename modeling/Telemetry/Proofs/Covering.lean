import Telemetry.Envelope

/-!
# Covering and joining

One element covers another if the names agree and its keys are among those of the other, so one
without keys stands for a whole list. Places therefore form no tree of plain prefixes, but covering
still orders them: it forgets origins and targets and nothing else. To go down from the same place
first changes nothing about it.

* `Element.covers_iff`: covering one element, with `covers_refl`, `covers_trans`, `eq_of_covers`;
* `Path.coversElements_append_left`, `Path.coversElements_append_right`: going down first, and
  going further down;
* `Path.join_assoc`: joining three paths;
* **`Path.covers_join_laws`**: the laws of covering and joining.
-/

namespace Telemetry

/-! ## Elements -/

namespace Element

variable {a b c : Element}

theorem covers_iff : a.covers b = true ↔
    a.name = b.name ∧ ∀ k v, a.keys.find? k = some v → b.keys.find? k = some v := by
  simp only [covers, Bool.and_eq_true, beq_iff_eq, List.all_eq_true, Prod.forall,
    Table.find?_eq_some_iff (t := a.keys)]

theorem covers_refl (a : Element) : a.covers a = true :=
  covers_iff.mpr ⟨rfl, fun _ _ h => h⟩

theorem covers_trans (h : a.covers b = true) (h' : b.covers c = true) : a.covers c = true := by
  obtain ⟨hname, hkeys⟩ := covers_iff.mp h
  obtain ⟨hname', hkeys'⟩ := covers_iff.mp h'
  exact covers_iff.mpr ⟨hname.trans hname', fun k v hk => hkeys' k v (hkeys k v hk)⟩

theorem eq_of_covers (h : a.covers b = true) (h' : b.covers a = true) : a = b := by
  obtain ⟨hname, hkeys⟩ := covers_iff.mp h
  obtain ⟨-, hkeys'⟩ := covers_iff.mp h'
  have heq : a.keys = b.keys := Table.ext_find? fun k =>
    Option.ext fun v => ⟨hkeys k v, hkeys' k v⟩
  obtain ⟨name, keys⟩ := a
  obtain rfl : name = b.name := hname
  obtain rfl : keys = b.keys := heq
  rfl

end Element

/-! ## Lists of elements -/

namespace Path

variable {l m k : List Element}

theorem coversElements_cons {a b : Element} : coversElements (a :: l) (b :: m) = true ↔
    a.covers b = true ∧ coversElements l m = true := by
  rw [coversElements, Bool.and_eq_true]

theorem coversElements_append_left (k l m : List Element) :
    coversElements (k ++ l) (k ++ m) = coversElements l m := by
  induction k with
  | nil => rfl
  | cons e k ih =>
    rw [List.cons_append, List.cons_append, coversElements, ih, e.covers_refl, Bool.true_and]

theorem coversElements_append_right (h : coversElements l m = true) (k : List Element) :
    coversElements l (m ++ k) = true := by
  induction l generalizing m with
  | nil => rfl
  | cons a l ih =>
    cases m with
    | nil => cases h
    | cons b m =>
      obtain ⟨hab, hlm⟩ := coversElements_cons.mp h
      exact coversElements_cons.mpr ⟨hab, ih hlm⟩

theorem coversElements_trans (h : coversElements l m = true) (h' : coversElements m k = true) :
    coversElements l k = true := by
  induction l generalizing m k with
  | nil => rfl
  | cons a l ih =>
    cases m with
    | nil => cases h
    | cons b m =>
      cases k with
      | nil => cases h'
      | cons c k =>
        obtain ⟨hab, hlm⟩ := coversElements_cons.mp h
        obtain ⟨hbc, hmk⟩ := coversElements_cons.mp h'
        exact coversElements_cons.mpr ⟨Element.covers_trans hab hbc, ih hlm hmk⟩

theorem eq_of_coversElements (h : coversElements l m = true) (h' : coversElements m l = true) :
    l = m := by
  induction l generalizing m with
  | nil =>
    cases m with
    | nil => rfl
    | cons b m => cases h'
  | cons a l ih =>
    cases m with
    | nil => cases h
    | cons b m =>
      obtain ⟨hab, hlm⟩ := coversElements_cons.mp h
      obtain ⟨hba, hml⟩ := coversElements_cons.mp h'
      rw [Element.eq_of_covers hab hba, ih hlm hml]

/-! ## Paths -/

variable (a b c d : Path)

theorem covers_refl : a.covers a = true := by
  simpa [covers, coversElements] using coversElements_append_left a.elements [] []

theorem covers_and_covers_iff : a.covers b = true ∧ b.covers a = true ↔ a.elements = b.elements := by
  constructor
  · rintro ⟨h, h'⟩
    exact eq_of_coversElements h h'
  · intro h
    have hself := a.covers_refl
    simp only [covers, ← h] at hself ⊢
    exact ⟨hself, hself⟩

theorem covers_join_join : (a.join b).covers (a.join c) = b.covers c :=
  coversElements_append_left a.elements b.elements c.elements

/-- A path without an origin takes that of the nearest one before it. -/
theorem join_assoc : (a.join b).join c = a.join (b.join c) := by
  have horigin : ((a.join b).join c).origin = (a.join (b.join c)).origin := by
    simp only [join_origin]
    by_cases hc : c.origin.isEmpty = true <;> simp [hc]
  have helements : ((a.join b).join c).elements = (a.join (b.join c)).elements :=
    List.append_assoc _ _ _
  exact Path.mk.injEq .. |>.mpr ⟨horigin, helements, rfl⟩

/-- **The laws of covering and joining.** Covering is reflexive and transitive, and what it does not
tell apart has the same elements. A path covers what is joined to it, and what is joined to what it
covers. Joining to the same path, as to the base path of a notification, neither adds nor takes away
what is covered; and it does not matter which of three paths are joined first. -/
theorem covers_join_laws :
    a.covers a = true ∧
    (a.covers b = true → b.covers c = true → a.covers c = true) ∧
    (a.covers b = true ∧ b.covers a = true ↔ a.elements = b.elements) ∧
    a.covers (a.join b) = true ∧
    (a.covers d = true → a.covers (d.join c) = true) ∧
    ((a.join b).covers (a.join c) = true ↔ b.covers c = true) ∧
    (∀ n : Notification, (n.full b).covers (n.full c) = true ↔ b.covers c = true) ∧
    (a.join b).join c = a.join (b.join c) := by
  refine ⟨a.covers_refl, coversElements_trans, a.covers_and_covers_iff b, ?_, fun h => ?_, ?_,
    fun n => ?_, join_assoc a b c⟩
  · exact coversElements_append_right a.covers_refl b.elements
  · exact coversElements_append_right h c.elements
  · rw [covers_join_join]
  · rw [Notification.full, Notification.full, covers_join_join]

/-- An element without keys covers one with keys, and not the other way round. -/
example :
    let list : Path := { elements := [⟨"interface", .empty⟩] }
    let entry : Path := { elements := [(⟨"interface", .empty⟩ : Element).withKey "name" "e1"] }
    list.covers (entry.join ⟨"", [⟨"mtu", .empty⟩], ""⟩) = true ∧ entry.covers list = false := by
  decide

end Path

end Telemetry
