import Telemetry.Table

/-!
# More about tables

* `Table.find?_ofList`: what is read of rows; `Table.ofList_perm`: a table is the table of its rows;
* `Table.map`: the same names with other values;
* `Table.find?_upsert`, `Table.find?_map`: what is read after a change;
* `Table.map_insert`, `Table.map_filter`: changes before and after a map;
* `Table.size_filterMap_eq_iff`: whether all rows are kept.
-/

namespace Telemetry.Table

variable {α β : Type}

/-! ## Tables from their rows -/

theorem putRow_of_gt (k : String) (v : α) : ∀ {l : List (String × α)}, (∀ r ∈ l, r.1 < k) →
    putRow k v l = l ++ [(k, v)]
  | [], _ => rfl
  | r :: l, h => by
    have hr := h r List.mem_cons_self
    have hne : k ≠ r.1 := by
      rintro rfl
      exact String.lt_irrefl _ hr
    rw [putRow, if_neg (String.lt_asymm hr), if_neg hne,
      putRow_of_gt k v fun x hx => h x (List.mem_cons_of_mem _ hx)]
    rfl

theorem rows_foldl_insert : ∀ (l : List (String × α)) (t : Table α),
    (t.rows ++ l).Pairwise (fun a b => a.1 < b.1) →
      (l.foldl (fun t r => t.insert r.1 r.2) t).rows = t.rows ++ l
  | [], t, _ => (List.append_nil _).symm
  | r :: l, t, h => by
    have hgt : ∀ x ∈ t.rows, x.1 < r.1 := fun x hx =>
      (List.pairwise_append.mp h).2.2 x hx r List.mem_cons_self
    have hrows : (t.insert r.1 r.2).rows = t.rows ++ [r] := putRow_of_gt r.1 r.2 hgt
    have hsplit : t.rows ++ r :: l = t.rows ++ [r] ++ l := by simp
    rw [List.foldl_cons, rows_foldl_insert l _ (by rw [hrows, ← hsplit]; exact h), hrows, hsplit]

theorem find?_foldl_insert (l : List (String × α)) (t : Table α) (k : String) :
    (l.foldl (fun t r => t.insert r.1 r.2) t).find? k = (l.reverse.lookup k).or (t.find? k) := by
  induction l generalizing t with
  | nil => rfl
  | cons r l ih =>
    rw [List.foldl_cons, ih, find?_insert, List.reverse_cons, List.lookup_append, Option.or_assoc]
    by_cases hk : k = r.1
    · rw [if_pos hk, lookup_cons_of_eq [] hk, Option.some_or]
    · rw [if_neg hk, lookup_cons_of_ne [] hk, List.lookup_nil, Option.none_or]

theorem find?_ofList (l : List (String × α)) (k : String) :
    (ofList l).find? k = l.reverse.lookup k := by
  rw [ofList, find?_foldl_insert, find?_empty, Option.or_none]

theorem lookup_eq_some_iff_mem {l : List (String × α)} (h : (l.map (·.1)).Nodup) {k : String}
    {v : α} : l.lookup k = some v ↔ (k, v) ∈ l := by
  rw [List.lookup_eq_some_iff]
  constructor
  · rintro ⟨l₁, l₂, rfl, -⟩
    exact List.mem_append_right _ List.mem_cons_self
  · intro hmem
    obtain ⟨l₁, l₂, rfl⟩ := List.append_of_mem hmem
    rw [List.map_append, List.map_cons] at h
    refine ⟨l₁, l₂, rfl, fun p hp => bne_iff_ne.mpr ?_⟩
    rintro rfl
    exact (List.nodup_append.mp h).2.2 _ (List.mem_map_of_mem hp) _ List.mem_cons_self rfl

theorem nodup_keys (t : Table α) : t.keys.Nodup := by
  refine List.pairwise_map.mpr (t.ascending.imp fun h heq => ?_)
  rw [heq] at h
  exact String.lt_irrefl _ h

theorem ofList_perm {t : Table α} {l : List (String × α)} (h : l.Perm t.rows) : ofList l = t := by
  have hnodup : (l.reverse.map (·.1)).Nodup :=
    ((l.reverse_perm.trans h).map _).nodup_iff.mpr t.nodup_keys
  refine ext_find? fun k => Option.ext fun v => ?_
  rw [find?_ofList, lookup_eq_some_iff_mem hnodup, List.mem_reverse, find?_eq_some_iff, h.mem_iff]

theorem ofList_rows (t : Table α) : ofList t.rows = t := ofList_perm (.refl _)

theorem mem_of_find?_eq_lookup {t : Table α} {l : List (String × α)}
    (h : ∀ k, t.find? k = l.reverse.lookup k) {r : String × α} (hr : r ∈ t.rows) : r ∈ l := by
  have hfind := h r.1
  rw [find?_eq_some_iff.mpr hr] at hfind
  obtain ⟨_, _, hsplit, _⟩ := List.lookup_eq_some_iff.mp hfind.symm
  exact List.mem_reverse.mp (by rw [hsplit]; simp)

theorem eq_empty_of_isEmpty {t : Table α} (h : t.isEmpty = true) : t = .empty := by
  obtain ⟨rows, asc⟩ := t
  obtain rfl : rows = [] := List.isEmpty_iff.mp h
  rfl

theorem isEmpty_iff {t : Table α} : t.isEmpty = true ↔ ∀ k, t.find? k = none := by
  constructor
  · intro h k
    rw [eq_empty_of_isEmpty h, find?_empty]
  · intro h
    rw [ext_find? (t := empty) h]
    rfl

/-! ## Changing one row -/

theorem find?_upsert (t : Table α) (k : String) (d : α) (f : α → α) (k' : String) :
    (t.upsert k d f).find? k' = if k' = k then some (f ((t.find? k).getD d)) else t.find? k' :=
  find?_insert t k _ k'

theorem isEmpty_upsert (t : Table α) (k : String) (d : α) (f : α → α) :
    (t.upsert k d f).isEmpty = false := by
  rw [← Bool.not_eq_true, isEmpty_iff]
  intro h
  have hk := h k
  rw [find?_upsert, if_pos rfl] at hk
  cases hk

/-! ## Other values -/

/-- The same names, with the values changed by `f`. -/
def map (f : α → β) (t : Table α) : Table β := t.filterMap fun _ a => some (f a)

@[simp] theorem find?_map (f : α → β) (t : Table α) (k : String) :
    (t.map f).find? k = (t.find? k).map f := by
  rw [map, find?_filterMap]
  cases t.find? k <;> rfl

theorem values_map (f : α → β) (t : Table α) : (t.map f).values = t.values.map f := by
  have h : (fun r : String × α => (some (f r.2)).map fun b => (r.1, b)) =
      some ∘ fun r => (r.1, f r.2) := rfl
  simp only [values, map, filterMap]
  rw [h, List.filterMap_eq_map, List.map_map, List.map_map]
  rfl

theorem map_insert (f : α → β) (t : Table α) (k : String) (v : α) :
    (t.insert k v).map f = (t.map f).insert k (f v) :=
  ext_find? fun k' => by
    simp only [find?_map, find?_insert]
    split <;> rfl

theorem map_upsert {f : α → β} {g : α → α} {h : β → β} {d : α} {e : β} (hd : f d = e)
    (hg : ∀ a, f (g a) = h (f a)) (t : Table α) (k : String) :
    (t.upsert k d g).map f = (t.map f).upsert k e h := by
  rw [upsert, upsert, map_insert, hg, find?_map, ← hd, Option.getD_map]

theorem map_filter {f : α → β} {p : String → α → Bool} {q : String → β → Bool}
    (h : ∀ k a, p k a = q k (f a)) (t : Table α) : (t.filter p).map f = (t.map f).filter q :=
  ext_find? fun k => by
    have hp : p k = q k ∘ f := funext fun a => h k a
    simp only [find?_map, find?_filter, hp, Option.filter_map]

/-! ## The number of rows -/

theorem isEmpty_iff_size {t : Table α} : t.isEmpty = true ↔ t.size = 0 := by
  rw [isEmpty, size, List.isEmpty_iff, List.length_eq_zero_iff]

theorem size_filterMap_eq_iff {f : String → α → Option β} {t : Table α} :
    (t.filterMap f).size = t.size ↔ ∀ k, t.find? k ≠ none → (t.filterMap f).find? k ≠ none := by
  show (t.rows.filterMap fun r => (f r.1 r.2).map (r.1, ·)).length = t.rows.length ↔ _
  rw [List.filterMap_length_eq_length]
  simp only [Option.isSome_map, Prod.forall, ← find?_eq_some_iff]
  constructor
  · intro h k hk
    obtain ⟨a, ha⟩ := Option.ne_none_iff_exists'.mp hk
    rw [find?_filterMap, ha, Option.bind_some]
    exact Option.isSome_iff_ne_none.mp (h k a ha)
  · intro h k a ha
    have hk := h k (by simp [ha])
    rw [find?_filterMap, ha, Option.bind_some] at hk
    exact Option.isSome_iff_ne_none.mpr hk

end Telemetry.Table
