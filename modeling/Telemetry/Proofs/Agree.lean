import Telemetry.Proofs.Canonical
import Telemetry.Proofs.View

/-!
# Shelves that will agree

A node writes to its own shelf first and hears of it later, together with what others write
meanwhile. Until then its shelf differs from that of someone who only listens, but only where
something that is still to come decides: a pending notification updates the place again, deletes
what stands there, has a later timestamp or names an origin.

* `Row.Agrees`, `Shelf.Agrees`: equal but for what pending notifications decide;
* `Shelf.Agrees.mono`: more may be pending;
* **`Shelf.Agrees.early`**: one shelf takes a notification that is pending;
* **`Shelf.Agrees.heard`**: both shelves take a notification, which is no longer pending;
* `Shelf.Agrees.notification?_eq`: with nothing pending the same is listed.
-/

namespace Telemetry

/-! ## Canonical notifications -/

namespace Notification

theorem canonical_last? (n : Notification) (k : String) :
    n.canonical.last? k = (n.last? k).map Update.canonical := by
  have hfiled : (n.updates.map Update.canonical).map n.canonical.filed =
      (n.updates.map n.filed).map Update.canonical := by
    rw [List.map_map, List.map_map]
    rfl
  rw [last?, last?, canonical_updates, hfiled, ← List.map_reverse, List.find?_map]
  rfl

theorem canonical_erases (n : Notification) (p : Path) : n.canonical.erases p = n.erases p := rfl

end Notification

/-! ## One place -/

section Agrees

variable {P Q : Notification → Prop} {n n' m : Notification}

/-- Two rows of the place `k` are equal but for what notifications in `P` decide. -/
inductive Row.Agrees (P : Notification → Prop) (k : String) : Option Row → Option Row → Prop where
  | same {a b : Option Row} : a.map Row.update = b.map Row.update → Agrees P k a b
  | updated {a b : Option Row} {n : Notification} : P n → n.last? k ≠ none → Agrees P k a b
  | erased {r : Row} {n : Notification} : P n → n.erases r.update.path = true →
      Agrees P k none (some r)

namespace Row

variable {k : String} {a b : Option Row}

theorem Agrees.mono (h : Agrees P k a b) (hPQ : ∀ n, P n → Q n) : Agrees Q k a b := by
  cases h with
  | same h => exact .same h
  | updated hn hl => exact .updated (hPQ _ hn) hl
  | erased hn he => exact .erased (hPQ _ hn) he

theorem Agrees.update_eq (h : Agrees P k a b) (hP : ∀ n, ¬ P n) :
    a.map Row.update = b.map Row.update := by
  cases h with
  | same h => exact h
  | updated hn _ => exact absurd hn (hP _)
  | erased hn _ => exact absurd hn (hP _)

theorem Agrees.early (h : Agrees P k a b) (hP : P m) (hm : m.canonical = n.canonical) (now : ℕ) :
    Agrees P k (n.rowAfter now k a) b := by
  cases hl : n.last? k with
  | some u =>
    have hlast : m.canonical.last? k = some u.canonical := by
      rw [hm, Notification.canonical_last?, hl, Option.map_some]
    refine .updated hP fun hnone => ?_
    rw [Notification.canonical_last?, hnone] at hlast
    cases hlast
  | none =>
    rw [Notification.rowAfter_of_none hl]
    cases h with
    | updated hn hl' => exact .updated hn hl'
    | erased hn he => exact .erased hn he
    | same h =>
      cases a with
      | none => exact .same h
      | some r =>
        obtain ⟨r', rfl, hr⟩ := Option.map_eq_some_iff.mp h.symm
        cases he : n.erases r.update.path with
        | false => rw [Option.filter_some_pos (by simpa using he)]; exact .same h
        | true =>
          rw [Option.filter_some_neg (by simpa using he)]
          have herases : m.erases r.update.path = n.erases r.update.path := by
            rw [← m.canonical_erases, hm, n.canonical_erases]
          exact .erased hP (by rw [hr, herases, he])

theorem Agrees.heard (h : Agrees P k a b) (hPQ : ∀ n', P n' → n' = n ∨ Q n') (now now' : ℕ) :
    Agrees Q k (n.rowAfter now k a) (n.rowAfter now' k b) := by
  cases hl : n.last? k with
  | some u =>
    rw [Notification.rowAfter_of_some hl, Notification.rowAfter_of_some hl]
    exact .same rfl
  | none =>
    rw [Notification.rowAfter_of_none hl, Notification.rowAfter_of_none hl]
    cases h with
    | same h =>
      refine .same ?_
      have hfilter : ∀ o : Option Row, (o.filter fun r => !n.erases r.update.path).map Row.update =
          (o.map Row.update).filter fun u => !n.erases u.path := fun o => by
        cases o <;> simp [Option.filter]
      rw [hfilter, hfilter, h]
    | updated hn hl' =>
      rcases hPQ _ hn with rfl | hn
      · exact absurd hl hl'
      · exact .updated hn hl'
    | @erased r n' hn he =>
      rcases hPQ _ hn with rfl | hn
      · rw [Option.filter_some_neg (by simpa using he)]
        exact .same rfl
      · cases he' : n.erases r.update.path with
        | false => rw [Option.filter_some_pos (by simpa using he')]; exact .erased hn he
        | true => rw [Option.filter_some_neg (by simpa using he')]; exact .same rfl

end Row

/-! ## One shelf -/

/-- Two shelves are equal but for what notifications in `P` decide. The one on the left has seen
more. -/
structure Shelf.Agrees (P : Notification → Prop) (a b : Shelf) : Prop where
  rows : ∀ k, Row.Agrees P k (a.rows.find? k) (b.rows.find? k)
  later : b.timestamp ≤ a.timestamp
  timestamp : a.timestamp = b.timestamp ∨ ∃ n, P n ∧ a.timestamp ≤ n.timestamp
  origin : a.origin = b.origin ∨ ∃ n, P n ∧ n.basePath.origin.isEmpty = false

namespace Shelf

variable {a b : Shelf}

theorem toInt_max (x y : Int64) : (max x y).toInt = max x.toInt y.toInt := by
  have hmax : max x y = if x ≤ y then y else x := rfl
  rw [hmax]
  split
  · rename_i h
    have := Int64.le_iff_toInt_le.mp h
    omega
  · rename_i h
    have := (not_congr Int64.le_iff_toInt_le).mp h
    omega

theorem apply_timestamp (now : ℕ) (n : Notification) (s : Shelf) :
    (s.apply now n).timestamp = max s.timestamp n.timestamp := rfl

theorem apply_origin (now : ℕ) (n : Notification) (s : Shelf) : (s.apply now n).origin =
    if n.basePath.origin.isEmpty then s.origin else n.basePath.origin := rfl

theorem apply_origin_empty (now : ℕ) (n : Notification) :
    (({} : Shelf).apply now n).origin = n.basePath.origin := by
  rw [apply_origin]
  split
  · rename_i h
    exact (String.isEmpty_iff.mp h).symm
  · rfl

theorem Agrees.refl (a : Shelf) : Agrees P a a where
  rows _ := .same rfl
  later := Int64.le_refl _
  timestamp := .inl rfl
  origin := .inl rfl

theorem Agrees.mono (h : Agrees P a b) (hPQ : ∀ n, P n → Q n) : Agrees Q a b where
  rows k := (h.rows k).mono hPQ
  later := h.later
  timestamp := h.timestamp.imp_right fun ⟨n, hn, hle⟩ => ⟨n, hPQ n hn, hle⟩
  origin := h.origin.imp_right fun ⟨n, hn, he⟩ => ⟨n, hPQ n hn, he⟩

/-- **The shelf on the left takes a notification that is pending**, if perhaps with other NaNs. -/
theorem Agrees.early (h : Agrees P a b) (hP : P m) (hm : m.canonical = n.canonical) (now : ℕ) :
    Agrees P (a.apply now n) b where
  rows k := by
    rw [find?_rows_apply]
    exact (h.rows k).early hP hm now
  later := by
    have hle := Int64.le_iff_toInt_le.mp h.later
    rw [apply_timestamp, Int64.le_iff_toInt_le, toInt_max]
    omega
  timestamp := by
    rw [apply_timestamp]
    by_cases hle : a.timestamp ≤ n.timestamp
    · refine .inr ⟨m, hP, ?_⟩
      have htimestamp : m.timestamp = n.timestamp := by
        rw [← m.canonical_timestamp, hm, n.canonical_timestamp]
      rw [Int64.le_iff_toInt_le] at hle
      rw [Int64.le_iff_toInt_le, toInt_max, htimestamp]
      omega
    · have hmax : max a.timestamp n.timestamp = a.timestamp := if_neg hle
      rw [hmax]
      exact h.timestamp
  origin := by
    rw [apply_origin]
    cases he : n.basePath.origin.isEmpty with
    | true => exact h.origin
    | false =>
      have hbase : m.base = n.base := by rw [← m.canonical_base, hm, n.canonical_base]
      exact .inr ⟨m, hP, by rw [Notification.basePath, hbase]; exact he⟩

theorem Agrees.heard (h : Agrees P a b) (hPQ : ∀ n', P n' → n' = n ∨ Q n') (now now' : ℕ) :
    Agrees Q (a.apply now n) (b.apply now' n) where
  rows k := by
    rw [find?_rows_apply, find?_rows_apply]
    exact (h.rows k).heard hPQ now now'
  later := by
    have hle := Int64.le_iff_toInt_le.mp h.later
    rw [apply_timestamp, apply_timestamp, Int64.le_iff_toInt_le, toInt_max, toInt_max]
    omega
  timestamp := by
    have hlater := Int64.le_iff_toInt_le.mp h.later
    simp only [apply_timestamp, Int64.le_iff_toInt_le, ← Int64.toInt_inj, toInt_max]
    rcases h.timestamp with heq | ⟨n', hn', hle⟩
    · exact .inl (by rw [heq])
    · rw [Int64.le_iff_toInt_le] at hle
      rcases hPQ n' hn' with rfl | hQ
      · exact .inl (by omega)
      · by_cases hn : n.timestamp.toInt ≤ n'.timestamp.toInt
        · exact .inr ⟨n', hQ, by omega⟩
        · exact .inl (by omega)
  origin := by
    rw [apply_origin, apply_origin]
    cases he : n.basePath.origin.isEmpty with
    | false => exact .inl rfl
    | true =>
      refine h.origin.imp_right fun ⟨n', hn', he'⟩ => ?_
      rcases hPQ n' hn' with rfl | hQ
      · exact absurd (he.symm.trans he') (by decide)
      · exact ⟨n', hQ, he'⟩

theorem Agrees.notification?_eq (h : Agrees P a b) (hP : ∀ n, ¬ P n) (t : String) :
    a.notification? {} t = b.notification? {} t := by
  have hrows : a.rows.map Row.update = b.rows.map Row.update := by
    refine Table.ext_find? fun k => ?_
    rw [Table.find?_map, Table.find?_map, (h.rows k).update_eq hP]
  have htimestamp : a.timestamp = b.timestamp :=
    h.timestamp.resolve_right fun ⟨n, hn, _⟩ => hP n hn
  have horigin : a.origin = b.origin := h.origin.resolve_right fun ⟨n, hn, _⟩ => hP n hn
  exact notification?_congr hrows htimestamp horigin {} t

end Shelf

end Agrees

end Telemetry
