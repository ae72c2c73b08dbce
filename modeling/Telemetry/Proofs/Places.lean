import Telemetry.Proofs.Mirror

/-!
# Paths that share a place

A store tells places apart by their printed form, which a path may share with another one: a name
with a slash is printed as two names are. Then an update of one takes the place of the other. Among
plain paths this does not happen, and an update stands until its own path is written or deleted.

* `StoreOp.Carries`, `StoreOp.Erases`: the paths that a change writes and deletes;
* `StoreOp.Files`, `StoreOp.Passes`: the last update of a path, and the changes that pass it by;
* `StoreOp.files_iff`, `StoreOp.passes_iff`: among plain paths these are told by printed forms;
* `Store.exists_holds_apply`: a path stays with its update, or a later one;
* **`Store.shows_run_of_plain`**: what is read after a history;
* `Store.shows_run_origins`, `Store.not_shows_run_slash`: two paths side by side, and two that share
  a place.
-/

namespace Telemetry

/-! ## Changes and paths -/

namespace StoreOp

/-- The change writes the update, with its full path, under a subscription and target. -/
def Carries (s t : String) (u : Update) : StoreOp → Prop
  | write _ s' e => s' = s ∧ ∃ n, e.notification? = some n ∧ n.target = t ∧
      ∃ v ∈ n.updates, n.filed v = u
  | _ => False

/-- The change deletes what stands at the path, under a subscription and target. -/
def Erases (s t : String) (p : Path) : StoreOp → Prop
  | write _ s' e => s' = s ∧ ∃ n, e.notification? = some n ∧ n.target = t ∧
      ∃ d ∈ n.deletes, (n.full d).covers p = true
  | deleteTarget t' => t' = t
  | clear => True

/-- The change writes the update, and no later one of the same path. Full paths name no target, so
that equal ones have equal origins and elements. -/
def Files (s t : String) (u : Update) : StoreOp → Prop
  | write _ s' e => s' = s ∧ ∃ n, e.notification? = some n ∧ n.target = t ∧
      ∃ us v vs, n.updates = us ++ v :: vs ∧ n.filed v = u ∧
        ∀ v' ∈ vs, n.full v'.path ≠ u.path
  | _ => False

/-- The change neither writes an update of the path nor deletes it. -/
def Passes (s t : String) (p : Path) (op : StoreOp) : Prop :=
  (∀ u, op.Carries s t u → u.path ≠ p) ∧ ¬ op.Erases s t p

variable {op : StoreOp} {s t : String} {u : Update} {p : Path}

/-- All paths that the change writes under a subscription and target are plain. -/
def IsPlain (s t : String) (op : StoreOp) : Prop := ∀ u, op.Carries s t u → u.path.Plain

theorem Files.carries (h : op.Files s t u) : op.Carries s t u := by
  cases op with
  | write now s' e =>
    obtain ⟨hs, n, he, ht, us, v, vs, hn, hv, -⟩ := h
    exact ⟨hs, n, he, ht, v, by simp [hn], hv⟩
  | deleteTarget | clear => exact h.elim

theorem Leaves.carries (h : op.Leaves s t u) : op.Carries s t u := by
  cases op with
  | write now s' e =>
    obtain ⟨hs, n, he, ht, us, v, vs, hn, hv, -⟩ := h
    exact ⟨hs, n, he, ht, v, by simp [hn], hv⟩
  | deleteTarget | clear => exact h.elim

theorem Carries.target_eq (h : op.Carries s t u) : u.path.target = "" := by
  cases op with
  | write now s' e =>
    obtain ⟨-, n, -, -, v, -, rfl⟩ := h
    rfl
  | deleteTarget | clear => exact h.elim

/-! ## Plain paths -/

variable {op' : StoreOp} {v : Update}

theorem IsPlain.path_eq (h : op.IsPlain s t) (h' : op'.IsPlain s t) (hu : op.Carries s t u)
    (hv : op'.Carries s t v) (hprint : u.path.print = v.path.print) : u.path = v.path := by
  obtain ⟨horigin, helements⟩ := (h u hu).eq_of_print_eq (h' v hv) hprint
  have htarget : u.path.target = v.path.target := by rw [hu.target_eq, hv.target_eq]
  cases hp : u.path
  cases hq : v.path
  rw [hp, hq] at horigin helements htarget
  exact congr (congr (congrArg Path.mk horigin) helements) htarget

theorem files_iff (h : op.IsPlain s t) : op.Files s t u ↔ op.Leaves s t u := by
  cases op with
  | write now s' e =>
    constructor
    · intro hu
      have hcarries := hu.carries
      obtain ⟨hs, n, he, ht, us, v, vs, hn, hv, hlast⟩ := hu
      refine ⟨hs, n, he, ht, us, v, vs, hn, hv, fun v' hv' hprint => hlast v' hv' ?_⟩
      have hcarries' : (write now s' e).Carries s t (n.filed v') :=
        ⟨hs, n, he, ht, v', by simp [hn, hv'], rfl⟩
      exact h.path_eq h hcarries' hcarries hprint
    · rintro ⟨hs, n, he, ht, us, v, vs, hn, hv, hlast⟩
      exact ⟨hs, n, he, ht, us, v, vs, hn, hv, fun v' hv' hpath =>
        hlast v' hv' (congrArg Path.print hpath)⟩
  | deleteTarget | clear => exact Iff.rfl

theorem passes_iff (h : op.IsPlain s t) (h' : op'.IsPlain s t) (hu : op'.Carries s t u) :
    op.Passes s t u.path ↔ op.Spares s t u.path := by
  cases op with
  | write now s' e =>
    constructor
    · rintro ⟨hwrites, herases⟩ hs n he ht
      refine ⟨fun v hv hprint => ?_, fun d hd => Bool.eq_false_iff.mpr fun hcovers => ?_⟩
      · have hcarries : (write now s' e).Carries s t (n.filed v) := ⟨hs, n, he, ht, v, hv, rfl⟩
        exact hwrites _ hcarries (h.path_eq h' hcarries hu hprint)
      · exact herases ⟨hs, n, he, ht, d, hd, hcovers⟩
    · intro hspares
      refine ⟨?_, ?_⟩
      · rintro _ ⟨hs, n, he, ht, v, hv, rfl⟩ hpath
        exact (hspares hs n he ht).1 v hv (congrArg Path.print hpath)
      · rintro ⟨hs, n, he, ht, d, hd, hcovers⟩
        exact Bool.eq_false_iff.mp ((hspares hs n he ht).2 d hd) hcovers
  | deleteTarget t' => simp [Passes, Carries, Erases, Spares]
  | clear => simp [Passes, Carries, Erases, Spares]

theorem Carries.exists_leaves (h : op.IsPlain s t) (hu : op.Carries s t u) :
    ∃ v, v.path = u.path ∧ op.Leaves s t v := by
  cases op with
  | write now s' e =>
    obtain ⟨hs, n, he, ht, v, hv, hvu⟩ := hu
    cases hlast : n.last? u.path.print with
    | none =>
      refine absurd ?_ (Notification.last?_eq_none_iff.mp hlast v hv)
      rw [← hvu, Notification.filed_path]
    | some w =>
      have hprint := Notification.print_of_last? hlast
      have hleaves : (write now s' e).Leaves s t w :=
        (Store.leaves_write_iff he).mpr ⟨⟨hs.symm, ht.symm⟩, by rw [hprint, hlast]⟩
      exact ⟨w, h.path_eq h hleaves.carries ⟨hs, n, he, ht, v, hv, hvu⟩ hprint, hleaves⟩
  | deleteTarget | clear => exact hu.elim

end StoreOp

namespace Store

variable {ops : List StoreOp} {op op' : StoreOp} {s t : String} {u : Update}

/-! ## What is read -/

theorem exists_holds_apply {st : Store} (h : op.IsPlain s t) (h' : op'.IsPlain s t)
    (hu : op'.Carries s t u) (herases : ¬ op.Erases s t u.path)
    (hst : ∃ v, v.path = u.path ∧ st.Holds s t v) :
    ∃ v, v.path = u.path ∧ (op.apply st).Holds s t v := by
  by_cases hwrites : ∃ w, op.Carries s t w ∧ w.path = u.path
  · obtain ⟨w, hw, hpath⟩ := hwrites
    obtain ⟨v, hv, hleaves⟩ := hw.exists_leaves h
    exact ⟨v, hv.trans hpath, holds_apply.mpr (.inl hleaves)⟩
  · obtain ⟨v, hv, hholds⟩ := hst
    have hpasses : op.Passes s t u.path := ⟨fun w hw hpath => hwrites ⟨w, hw, hpath⟩, herases⟩
    have hspares := (StoreOp.passes_iff h h' hu).mp hpasses
    exact ⟨v, hv, holds_apply.mpr (.inr ⟨hholds, hv ▸ hspares⟩)⟩

/-- A path that was written and not deleted since has an update. -/
theorem exists_holds_run {before after : List StoreOp} (h : op.IsPlain s t)
    (hafter : ∀ op' ∈ after, op'.IsPlain s t) (hu : op.Carries s t u)
    (herases : ∀ op' ∈ after, ¬ op'.Erases s t u.path) :
    ∃ v, v.path = u.path ∧ (run (before ++ op :: after) {}).Holds s t v := by
  induction after using List.reverseRecOn with
  | nil =>
    obtain ⟨v, hv, hleaves⟩ := hu.exists_leaves h
    exact ⟨v, hv, by rw [run_concat, holds_apply]; exact .inl hleaves⟩
  | append_singleton after op' ih =>
    have ih := ih (fun x hx => hafter x (List.mem_append_left _ hx)) fun x hx =>
      herases x (List.mem_append_left _ hx)
    have hrun : run (before ++ op :: (after ++ [op'])) {} =
        op'.apply (run (before ++ op :: after) {}) := by
      rw [← run_concat, List.append_assoc, List.cons_append]
    rw [hrun]
    exact exists_holds_apply (hafter op' (by simp)) h hu (herases op' (by simp)) ih

/-- **What is read after a history**, if all paths that were written under the subscription and
target are plain: every path that was written and not deleted since, with the last update of this
very path. -/
theorem shows_run_of_plain (hops : ∀ op ∈ ops, op.IsPlain s t) (now : ℕ) :
    (∀ u, (run ops {}).Shows now s t u ↔ ∃ before op after, ops = before ++ op :: after ∧
      op.Files s t u ∧ ∀ op' ∈ after, op'.Passes s t u.path) ∧
    ∀ before op after u, ops = before ++ op :: after → op.Carries s t u →
      (∀ op' ∈ after, ¬ op'.Erases s t u.path) →
      ∃ v, v.path = u.path ∧ (run ops {}).Shows now s t v := by
  simp only [shows_iff (keyed_run ops) (lifetime_run ops)]
  constructor
  · intro u
    rw [holds_run, Survives]
    refine exists₃_congr fun before op after => and_congr_right fun hsplit => ?_
    have hop : op.IsPlain s t := hops op (by simp [hsplit])
    rw [StoreOp.files_iff hop]
    refine and_congr_right fun hleaves => forall₂_congr fun op' hop' => ?_
    rw [StoreOp.passes_iff (hops op' (by simp [hsplit, hop'])) hop hleaves.carries]
  · rintro before op after u rfl hu herases
    exact exists_holds_run (hops op (by simp)) (fun op' hop' => hops op' (by simp [hop'])) hu
      herases

/-! ## Two paths -/

/-- An update of the path with the names, under an origin. -/
def entry (origin : String) (names : List String) : Update where
  path := { origin, elements := names.map fun name => { name } }

/-- The updates are written in one notification. -/
def entered (us : List Update) : StoreOp :=
  .write 0 "s" (.update { base := some (.ofTarget "r"), updates := us })

theorem carries_entered {us : List Update} (h : u ∈ us) :
    (entered us).Carries "s" "r" ((Notification.filed { base := some (.ofTarget "r") }) u) :=
  ⟨rfl, _, rfl, rfl, u, h, rfl⟩

/-- Two paths that differ in their origins only. -/
def namesakes : StoreOp := entered [entry "o" ["a"], entry "" ["a"]]

/-- A path with a slash in a name, and one of two names. -/
def lookalikes : StoreOp := entered [entry "" ["a/b"], entry "" ["a", "b"]]

/-- Paths that differ in their origins stand side by side. -/
theorem shows_run_origins : (∀ op ∈ [namesakes], op.IsPlain "s" "r") ∧
    (∃ v, v.path = (entry "o" ["a"]).path ∧ (run [namesakes] {}).Shows 0 "s" "r" v) ∧
    ∃ v, v.path = (entry "" ["a"]).path ∧ (run [namesakes] {}).Shows 0 "s" "r" v := by
  have hplain : ∀ op ∈ [namesakes], op.IsPlain "s" "r" := by
    intro op hop
    obtain rfl := List.mem_singleton.mp hop
    rintro _ ⟨-, n, hn, -, v, hv, rfl⟩
    obtain rfl := Option.some.inj hn
    have helement : ∀ e ∈ [({ name := "a" } : Element)], e.Legible := by
      intro e he
      obtain rfl := List.mem_singleton.mp he
      exact ⟨by decide, by simp, by simp [Table.empty]⟩
    rcases List.mem_cons.mp hv with rfl | hv
    · exact ⟨by decide, helement⟩
    · obtain rfl := List.mem_singleton.mp hv
      exact ⟨by decide, helement⟩
  have hshown := fun u => (shows_run_of_plain hplain 0).2 [] namesakes [] u rfl
  exact ⟨hplain, hshown _ (carries_entered List.mem_cons_self) (by simp),
    hshown _ (carries_entered (List.mem_cons_of_mem _ List.mem_cons_self)) (by simp)⟩

/-- A name with a slash shares its place with two names, and only the later update is read. -/
theorem not_shows_run_slash : lookalikes.Carries "s" "r" (entry "" ["a/b"]) ∧
    lookalikes.Carries "s" "r" (entry "" ["a", "b"]) ∧
    (entry "" ["a/b"]).path.elements ≠ (entry "" ["a", "b"]).path.elements ∧
    ¬ ∃ v, v.path = (entry "" ["a/b"]).path ∧ (run [lookalikes] {}).Shows 0 "s" "r" v := by
  refine ⟨carries_entered List.mem_cons_self,
    carries_entered (List.mem_cons_of_mem _ List.mem_cons_self), by decide, ?_⟩
  rintro ⟨v, hpath, n, hn, -, hv⟩
  obtain rfl := List.mem_singleton.mp hn
  obtain rfl := List.mem_singleton.mp hv
  exact absurd hpath (by decide)

end Store

end Telemetry
