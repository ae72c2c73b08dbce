/-!
# Tables

A table assigns values to names and lists its rows in ascending order of the name. Names compare by
code point, which is also the byte order of their UTF-8 forms.

* `Table`, `Table.rows`: the rows, ascending;
* `find?`, `insert`, `erase`, `filterMap`: reading and changing a table;
* **`find?_insert`**: what is read after a row was put in;
* **`Table.ext_find?`**: two tables that read alike are equal.
-/

namespace Telemetry

/-- Rows of named values, in strictly ascending order of their names. -/
structure Table (α : Type) where
  rows : List (String × α)
  ascending : rows.Pairwise (fun a b => a.1 < b.1)
deriving DecidableEq

namespace Table

variable {α β : Type}

/-- The table without rows. -/
def empty : Table α := ⟨[], .nil⟩

instance : Inhabited (Table α) := ⟨empty⟩
instance : EmptyCollection (Table α) := ⟨empty⟩

/-- The number of rows. -/
def size (t : Table α) : Nat := t.rows.length

/-- Whether there is no row. -/
def isEmpty (t : Table α) : Bool := t.rows.isEmpty

/-- The names, ascending. -/
def keys (t : Table α) : List String := t.rows.map (·.1)

/-- The values, in the order of their names. -/
def values (t : Table α) : List α := t.rows.map (·.2)

/-- The value of a name. -/
def find? (t : Table α) (k : String) : Option α := t.rows.lookup k

/-! ## Putting a row in -/

/-- The rows with `(k, v)` put in its place; a row of the same name gives way. -/
def putRow (k : String) (v : α) : List (String × α) → List (String × α)
  | [] => [(k, v)]
  | r :: rest =>
    if k < r.1 then (k, v) :: r :: rest
    else if k = r.1 then (k, v) :: rest
    else r :: putRow k v rest

theorem mem_putRow {k : String} {v : α} {x : String × α} {l : List (String × α)}
    (h : x ∈ putRow k v l) : x = (k, v) ∨ x ∈ l := by
  induction l with
  | nil => simpa [putRow] using h
  | cons r rest ih =>
    unfold putRow at h
    split at h
    · simpa using h
    · split at h
      · rcases List.mem_cons.mp h with h | h
        · exact .inl h
        · exact .inr (List.mem_cons_of_mem _ h)
      · rcases List.mem_cons.mp h with h | h
        · exact .inr (h ▸ List.mem_cons_self)
        · exact (ih h).imp id (List.mem_cons_of_mem _)

theorem ascending_putRow (k : String) (v : α) {l : List (String × α)}
    (h : l.Pairwise (fun a b => a.1 < b.1)) :
    (putRow k v l).Pairwise (fun a b => a.1 < b.1) := by
  induction l with
  | nil => simp [putRow]
  | cons r rest ih =>
    have hr := List.pairwise_cons.mp h
    unfold putRow
    split
    · rename_i hlt
      refine List.pairwise_cons.mpr ⟨fun x hx => ?_, h⟩
      rcases List.mem_cons.mp hx with rfl | hx
      · exact hlt
      · exact String.lt_trans hlt (hr.1 x hx)
    · split
      · rename_i heq
        exact List.pairwise_cons.mpr ⟨fun x hx => heq ▸ hr.1 x hx, hr.2⟩
      · rename_i hlt hne
        refine List.pairwise_cons.mpr ⟨fun x hx => ?_, ih hr.2⟩
        rcases mem_putRow hx with rfl | hx
        · rcases Std.lt_trichotomy k r.1 with h' | h' | h'
          · exact absurd h' hlt
          · exact absurd h' hne
          · exact h'
        · exact hr.1 x hx

/-- The table with `v` as the value of `k`. -/
def insert (t : Table α) (k : String) (v : α) : Table α :=
  ⟨putRow k v t.rows, ascending_putRow k v t.ascending⟩

/-- The table with the value of `k`, or `d` where it has none, changed by `f`. -/
def upsert (t : Table α) (k : String) (d : α) (f : α → α) : Table α :=
  t.insert k (f ((t.find? k).getD d))

/-- The table of the given rows; of two rows of one name the later counts. -/
def ofList (l : List (String × α)) : Table α := l.foldl (fun t r => t.insert r.1 r.2) empty

/-! ## Keeping some rows -/

/-- The rows that `f` keeps, with the values it gives them. -/
def filterMap (f : String → α → Option β) (t : Table α) : Table β :=
  ⟨t.rows.filterMap (fun r => (f r.1 r.2).map (r.1, ·)), by
    refine t.ascending.filterMap _ fun a b h a' ha b' hb => ?_
    obtain ⟨_, _, rfl⟩ := Option.map_eq_some_iff.mp ha
    obtain ⟨_, _, rfl⟩ := Option.map_eq_some_iff.mp hb
    exact h⟩

/-- The rows whose name and value satisfy `p`. -/
def filter (p : String → α → Bool) (t : Table α) : Table α :=
  ⟨t.rows.filter (fun r => p r.1 r.2), t.ascending.sublist List.filter_sublist⟩

/-- The table without the row of `k`. -/
def erase (t : Table α) (k : String) : Table α := t.filter fun k' _ => k' != k

/-! ## What is read after a change -/

@[simp] theorem find?_empty (k : String) : (empty : Table α).find? k = none := rfl

theorem lookup_cons_of_eq {k : String} {r : String × α} (l : List (String × α)) (h : k = r.1) :
    (r :: l).lookup k = some r.2 := by
  obtain ⟨a, b⟩ := r
  rw [h]
  exact List.lookup_cons_self

theorem lookup_cons_of_ne {k : String} {r : String × α} (l : List (String × α)) (h : k ≠ r.1) :
    (r :: l).lookup k = l.lookup k := by
  obtain ⟨a, b⟩ := r
  rw [List.lookup_cons, beq_eq_false_iff_ne.mpr h]

theorem lookup_putRow (k : String) (v : α) (l : List (String × α)) (k' : String)
    (h : l.Pairwise (fun a b => a.1 < b.1)) :
    (putRow k v l).lookup k' = if k' = k then some v else l.lookup k' := by
  induction l with
  | nil =>
    by_cases hk : k' = k
    · simp [putRow, hk]
    · rw [if_neg hk, putRow, lookup_cons_of_ne _ hk]
  | cons r rest ih =>
    have hr := List.pairwise_cons.mp h
    unfold putRow
    split
    · by_cases hk : k' = k
      · rw [if_pos hk, lookup_cons_of_eq _ hk]
      · rw [if_neg hk, lookup_cons_of_ne _ hk]
    · split
      · rename_i heq
        by_cases hk : k' = k
        · rw [if_pos hk, lookup_cons_of_eq _ hk]
        · have hk' : k' ≠ r.1 := heq ▸ hk
          rw [if_neg hk, lookup_cons_of_ne _ hk, lookup_cons_of_ne _ hk']
      · rename_i hlt hne
        by_cases hk : k' = r.1
        · have : k' ≠ k := fun e => hne (e.symm.trans hk)
          rw [if_neg this, lookup_cons_of_eq _ hk, lookup_cons_of_eq _ hk]
        · rw [lookup_cons_of_ne _ hk, lookup_cons_of_ne _ hk]
          exact ih hr.2

/-- A row that was put in is read, and every other name reads as before. -/
theorem find?_insert (t : Table α) (k : String) (v : α) (k' : String) :
    (t.insert k v).find? k' = if k' = k then some v else t.find? k' :=
  lookup_putRow k v t.rows k' t.ascending

/-- A row of the table is what its name reads. -/
theorem find?_eq_some_iff {t : Table α} {k : String} {v : α} :
    t.find? k = some v ↔ (k, v) ∈ t.rows := by
  obtain ⟨l, h⟩ := t
  show l.lookup k = some v ↔ (k, v) ∈ l
  induction l with
  | nil => simp
  | cons r rest ih =>
    have hr := List.pairwise_cons.mp h
    by_cases hk : k = r.1
    · subst hk
      rw [lookup_cons_of_eq _ rfl, Option.some.injEq, List.mem_cons]
      constructor
      · rintro rfl; exact .inl rfl
      · rintro (e | hm)
        · rw [← e]
        · exact absurd (hr.1 _ hm) (String.lt_irrefl _)
    · rw [lookup_cons_of_ne _ hk, List.mem_cons, ih hr.2]
      constructor
      · exact .inr
      · rintro (e | hm)
        · exact absurd (congrArg Prod.fst e) hk
        · exact hm

/-- Tables that read alike are equal. -/
theorem ext_find? {s t : Table α} (h : ∀ k, s.find? k = t.find? k) : s = t := by
  obtain ⟨l, hl⟩ := s
  obtain ⟨m, hm⟩ := t
  suffices l = m by subst this; rfl
  have hmem : ∀ x, x ∈ l ↔ x ∈ m := fun ⟨k, v⟩ => by
    rw [← find?_eq_some_iff (t := ⟨l, hl⟩), h, find?_eq_some_iff]
  clear h
  induction l generalizing m with
  | nil =>
    cases m with
    | nil => rfl
    | cons y m => exact absurd ((hmem y).mpr List.mem_cons_self) List.not_mem_nil
  | cons x l ih =>
    have hx := List.pairwise_cons.mp hl
    cases m with
    | nil => exact absurd ((hmem x).mp List.mem_cons_self) List.not_mem_nil
    | cons y m =>
      have hy := List.pairwise_cons.mp hm
      have hxy : x = y := by
        rcases List.mem_cons.mp ((hmem x).mp List.mem_cons_self) with e | hxm
        · exact e
        · rcases List.mem_cons.mp ((hmem y).mpr List.mem_cons_self) with e | hyl
          · exact e.symm
          · exact absurd (hy.1 x hxm) (String.lt_asymm (hx.1 y hyl))
      subst hxy
      refine congrArg (x :: ·) (ih hx.2 m hy.2 fun z => ?_)
      constructor
      · intro hz
        rcases List.mem_cons.mp ((hmem z).mp (List.mem_cons_of_mem _ hz)) with rfl | h
        · exact absurd (hx.1 z hz) (String.lt_irrefl _)
        · exact h
      · intro hz
        rcases List.mem_cons.mp ((hmem z).mpr (List.mem_cons_of_mem _ hz)) with rfl | h
        · exact absurd (hy.1 z hz) (String.lt_irrefl _)
        · exact h

theorem find?_filter (p : String → α → Bool) (t : Table α) (k : String) :
    (t.filter p).find? k = (t.find? k).filter (p k) := by
  apply Option.ext
  intro v
  rw [find?_eq_some_iff, Option.filter_eq_some_iff, find?_eq_some_iff]
  simp [filter, List.mem_filter]

theorem find?_erase (t : Table α) (k k' : String) :
    (t.erase k).find? k' = if k' = k then none else t.find? k' := by
  rw [erase, find?_filter]
  by_cases h : k' = k
  · simp [h]
  · simp [h, Option.filter]
    cases t.find? k' <;> rfl

theorem find?_filterMap (f : String → α → Option β) (t : Table α) (k : String) :
    (t.filterMap f).find? k = (t.find? k).bind (f k) := by
  apply Option.ext
  intro w
  rw [find?_eq_some_iff, Option.bind_eq_some_iff]
  simp only [filterMap, List.mem_filterMap, Option.map_eq_some_iff, Prod.mk.injEq]
  constructor
  · rintro ⟨⟨k', v⟩, hm, w', hw, rfl, rfl⟩
    exact ⟨v, find?_eq_some_iff.mpr hm, hw⟩
  · rintro ⟨v, hv, hw⟩
    exact ⟨(k, v), find?_eq_some_iff.mp hv, w, hw, rfl, rfl⟩

end Table

end Telemetry
