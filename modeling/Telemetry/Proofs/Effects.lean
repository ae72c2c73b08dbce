import Mathlib.Data.List.Nodup
import Mathlib.Data.List.Pairwise
import Mathlib.Data.List.Perm.Basic
import Mathlib.Data.List.ReduceOption
import Telemetry.Json.Reader

/-!
# What a record is read from

A record is read by what its members put into it. A field puts the same into every record, so that
the members of different fields can change places, and a member that no field reads puts nothing.

* `Field.Puts`, `Field.Plain`, `Field.Commutes`: what a field puts into a record;
* `Effect`: what a member does to a record; `fill`: the record after all of them;
* **`record_eq_ok_iff`**: a record is read from the effects of its members;
* `fill_perm`: their order does not matter.
-/

namespace Telemetry.Json

variable {σ : Type} {fields : List (Field σ)}

/-- What a member changes in a record: the field, and what it puts there. -/
structure Edit (σ : Type) where
  name : String
  put : σ → σ

namespace Field

/-- What a field puts into a record when it reads a document. -/
def Puts (f : Field σ) (d : Doc) (g : σ → σ) : Prop := ∀ s, f.read d s = .ok (g s)

/-- What a field puts into a record does not depend on the record. -/
def Plain (f : Field σ) : Prop :=
  ∀ d s s', f.read d s = .ok s' → ∃ g, f.Puts d g ∧ s' = g s

/-- Two fields may be read in either order. -/
def Commutes (f f' : Field σ) : Prop :=
  ∀ d d' g g', f.Puts d g → f'.Puts d' g' → ∀ s, g (g' s) = g' (g s)

variable {α β : Type} {name name' : String} {r : Reader α} {r' : Reader β} {put : α → σ → σ}
  {put' : β → σ → σ} {required required' : Bool} {d : Doc}

theorem read_of (s : σ) : (Field.of name r put required).read d s = (r d).map (put · s) := rfl

theorem puts_of {a : α} (h : r d = .ok a) : (Field.of name r put required).Puts d (put a) :=
  fun s => by rw [read_of, h]; rfl

theorem Puts.of {g : σ → σ} (h : (Field.of name r put required).Puts d g) (s : σ) :
    ∃ a, r d = .ok a ∧ g s = put a s := by
  have hs := h s
  rw [read_of] at hs
  cases hr : r d with
  | error e =>
    rw [hr] at hs
    cases hs
  | ok a =>
    rw [hr] at hs
    exact ⟨a, rfl, (Except.ok.inj hs).symm⟩

theorem plain_of : (Field.of name r put required).Plain := by
  intro d s s' h
  cases hr : r d with
  | error e =>
    rw [read_of, hr] at h
    cases h
  | ok a =>
    have hs : (Field.of name r put required).Puts d (put a) := puts_of hr
    exact ⟨put a, hs, Except.ok.inj (h.symm.trans (hs s))⟩

theorem commutes_of (h : ∀ a b s, put a (put' b s) = put' b (put a s)) :
    (Field.of name r put required).Commutes (Field.of name' r' put' required') := by
  intro d d' g g' hg hg' s
  obtain ⟨a, ha, -⟩ := hg.of s
  obtain ⟨b, hb, -⟩ := hg'.of s
  have hput : ∀ s, g s = put a s := fun s => Except.ok.inj ((hg s).symm.trans (puts_of ha s))
  have hput' : ∀ s, g' s = put' b s := fun s => Except.ok.inj ((hg' s).symm.trans (puts_of hb s))
  rw [hput, hput', hput', hput, h]

theorem Commutes.symm {f f' : Field σ} (h : f.Commutes f') : f'.Commutes f :=
  fun d d' g g' hg hg' s => (h d' d g' g hg' hg s).symm

end Field

/-- What a member does to a record: it is skipped, or a field reads it. -/
inductive Effect (fields : List (Field σ)) (m : Text × Doc) : Option (Edit σ) → Prop where
  | skip {name : String} : m.1.read = .ok name → fields.find? (fun f => f.name == name) = none →
      m.2.skipFlaw? = none → Effect fields m none
  | take {name : String} {f : Field σ} {g : σ → σ} : m.1.read = .ok name →
      fields.find? (fun f => f.name == name) = some f → f.Puts m.2 g →
      Effect fields m (some ⟨name, g⟩)

/-- The fields that are read. -/
def namesOf (es : List (Option (Edit σ))) : List String := es.reduceOption.map (·.name)

/-- The record after all that was put into it. -/
def fill (es : List (Option (Edit σ))) (s : σ) : σ := es.reduceOption.foldl (fun s e => e.put s) s

@[simp] theorem namesOf_take (e : Edit σ) (es : List (Option (Edit σ))) :
    namesOf (some e :: es) = e.name :: namesOf es := rfl

@[simp] theorem fill_take (e : Edit σ) (es : List (Option (Edit σ))) (s : σ) :
    fill (some e :: es) s = fill es (e.put s) := rfl

theorem effects_of_readMembers (hplain : ∀ f ∈ fields, f.Plain) {ms : List (Text × Doc)}
    {seen seen' : List String} {s s' : σ} (h : readMembers fields seen s ms = .ok (s', seen')) :
    ∃ es, List.Forall₂ (Effect fields) ms es ∧ (namesOf es).Nodup ∧ (∀ n ∈ namesOf es, n ∉ seen) ∧
      s' = fill es s ∧ seen' = (namesOf es).reverse ++ seen := by
  induction ms generalizing seen s with
  | nil =>
    obtain ⟨rfl, rfl⟩ := Prod.mk.inj (Except.ok.inj h)
    exact ⟨[], .nil, .nil, by simp [namesOf], rfl, rfl⟩
  | cons m ms ih =>
    obtain ⟨k, d⟩ := m
    rw [readMembers] at h
    cases hk : k.read with
    | error f =>
      rw [hk] at h
      cases h
    | ok name =>
      simp only [hk, fromText, bind, Except.bind] at h
      cases hf : fields.find? (fun f => f.name == name) with
      | none =>
        -- nobody reads the member, so its value is skipped
        rw [hf] at h
        cases hflaw : d.skipFlaw? with
        | some f =>
          rw [hflaw] at h
          cases h
        | none =>
          rw [hflaw] at h
          obtain ⟨es, hes, hnodup, hseen, hs, hseen'⟩ := ih h
          exact ⟨none :: es, .cons (.skip hk hf hflaw) hes, hnodup, hseen, hs, hseen'⟩
      | some f =>
        simp only [hf] at h
        split at h
        · cases h
        · rename_i hnot
          cases hread : f.read d s with
          | error e =>
            rw [hread] at h
            cases h
          | ok s₁ =>
            rw [hread] at h
            obtain ⟨g, hg, rfl⟩ := hplain f (List.mem_of_find?_eq_some hf) d s s₁ hread
            obtain ⟨es, hes, hnodup, hseen, hs, hseen'⟩ := ih h
            refine ⟨some ⟨name, g⟩ :: es, .cons (.take hk hf hg) hes, ?_, ?_, hs, ?_⟩
            · exact List.nodup_cons.mpr ⟨fun hmem => hseen name hmem List.mem_cons_self, hnodup⟩
            · intro n hn hmem
              rcases List.mem_cons.mp hn with rfl | hn
              · exact hnot (List.contains_iff_mem.mpr hmem)
              · exact hseen n hn (List.mem_cons_of_mem _ hmem)
            · rw [hseen', namesOf_take, List.reverse_cons, List.append_assoc]
              rfl

theorem readMembers_effects {ms : List (Text × Doc)} {es : List (Option (Edit σ))}
    (h : List.Forall₂ (Effect fields) ms es) : (namesOf es).Nodup → ∀ (seen : List String) (s : σ),
      (∀ n ∈ namesOf es, n ∉ seen) →
        readMembers fields seen s ms = .ok (fill es s, (namesOf es).reverse ++ seen) := by
  induction h with
  | nil => intro _ seen s _; rfl
  | @cons m e ms es hm _ ih =>
    intro hnodup seen s hseen
    cases hm with
    | skip hk hf hflaw =>
      rw [readMembers]
      simp only [hk, fromText, bind, Except.bind, hf, hflaw, check]
      exact ih hnodup seen s hseen
    | @take name f g hk hf hg =>
      obtain ⟨hname, hnodup⟩ := List.nodup_cons.mp hnodup
      have hnot : seen.contains name = false := by
        simpa using hseen name List.mem_cons_self
      have hrest := ih hnodup (name :: seen) (g s) fun n hn hmem => by
        rcases List.mem_cons.mp hmem with rfl | hmem
        · exact hname hn
        · exact hseen n (List.mem_cons_of_mem _ hn) hmem
      rw [readMembers]
      simp only [hk, fromText, bind, Except.bind, hf, hnot, hg s, hrest, Bool.false_eq_true,
        if_false, fill_take, namesOf_take, List.reverse_cons, List.append_assoc,
        List.singleton_append]

/-- **A record is read from what its members put into it**: no field twice, and every field that is
required. -/
theorem record_eq_ok_iff (hplain : ∀ f ∈ fields, f.Plain) (title : String) {blank s : σ}
    {ms : List (Text × Doc)} : record title fields blank (.object ms) = .ok s ↔
      ∃ es, List.Forall₂ (Effect fields) ms es ∧ (namesOf es).Nodup ∧
        (∀ f ∈ fields, f.required = true → f.name ∈ namesOf es) ∧ s = fill es blank := by
  have hrequired : ∀ {names : List String},
      fields.find? (fun f => f.required && !names.contains f.name) = none ↔
        ∀ f ∈ fields, f.required = true → f.name ∈ names := by
    intro names
    rw [List.find?_eq_none]
    refine forall₂_congr fun f _ => ?_
    simp
  constructor
  · intro h
    rw [record] at h
    cases hread : readMembers fields [] blank ms with
    | error e =>
      rw [hread] at h
      cases h
    | ok r =>
      obtain ⟨s₁, seen⟩ := r
      obtain ⟨es, hes, hnodup, -, rfl, rfl⟩ := effects_of_readMembers hplain hread
      simp only [hread, bind, Except.bind, check] at h
      split at h
      · cases h
      · rename_i hnone
        obtain rfl := Except.ok.inj h
        refine ⟨es, hes, hnodup, fun f hf hreq => ?_, rfl⟩
        simpa using hrequired.mp hnone f hf hreq
  · rintro ⟨es, hes, hnodup, hreq, rfl⟩
    have hread := readMembers_effects hes hnodup [] blank (by simp)
    have hnone := hrequired.mpr fun f hf hr => List.mem_reverse.mpr (hreq f hf hr)
    rw [List.append_nil] at hread
    simp only [record, hread, bind, Except.bind, check, hnone]
    rfl

/-! ## The order of members -/

variable {ms : List (Text × Doc)} {es es' : List (Option (Edit σ))}

theorem exists_puts (h : List.Forall₂ (Effect fields) ms es) {e : Edit σ}
    (he : e ∈ es.reduceOption) : ∃ m ∈ ms, ∃ f, m.1.read = .ok e.name ∧
      fields.find? (fun f => f.name == e.name) = some f ∧ f.Puts m.2 e.put := by
  induction h with
  | nil => cases he
  | @cons m o ms es hm _ ih =>
    have hrest : e ∈ es.reduceOption → ∃ m' ∈ m :: ms, ∃ f, m'.1.read = .ok e.name ∧
        fields.find? (fun f => f.name == e.name) = some f ∧ f.Puts m'.2 e.put := fun he => by
      obtain ⟨m', hm', h⟩ := ih he
      exact ⟨m', List.mem_cons_of_mem _ hm', h⟩
    cases hm with
    | skip _ _ _ => exact hrest he
    | @take name f g hk hf hg =>
      rw [List.reduceOption_cons_of_some] at he
      rcases List.mem_cons.mp he with rfl | he
      · exact ⟨m, List.mem_cons_self, f, hk, hf, hg⟩
      · exact hrest he

theorem perm_namesOf (h : es'.Perm es) : (namesOf es').Perm (namesOf es) :=
  (h.filterMap id).map _

/-- Members put the same into a record in any order. -/
theorem fill_perm (hcommutes : fields.Pairwise Field.Commutes)
    (h : List.Forall₂ (Effect fields) ms es) (hnodup : (namesOf es).Nodup) (hperm : es.Perm es')
    (s : σ) : fill es s = fill es' s := by
  refine (hperm.filterMap id).foldl_eq' (fun x hx y hy z => ?_) s
  obtain ⟨m, -, f, -, hf, hg⟩ := exists_puts h hx
  obtain ⟨m', -, f', -, hf', hg'⟩ := exists_puts h hy
  by_cases hname : x.name = y.name
  · rw [List.inj_on_of_nodup_map hnodup hx hy hname]
  · have hfx : f.name = x.name := by simpa using List.find?_some hf
    have hfy : f'.name = y.name := by simpa using List.find?_some hf'
    have hne : f ≠ f' := by
      rintro rfl
      exact hname (hfx.symm.trans hfy)
    have : @Std.Symm (Field σ) Field.Commutes := ⟨fun _ _ h => h.symm⟩
    exact (hcommutes.forall (List.mem_of_find?_eq_some hf) (List.mem_of_find?_eq_some hf') hne
      m.2 m'.2 x.put y.put hg hg' z).symm

end Telemetry.Json
