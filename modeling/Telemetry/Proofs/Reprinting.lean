import Mathlib.Data.List.Flatten
import Mathlib.Data.List.Perm.Subperm
import Telemetry.Proofs.Spelling

/-!
# Printed paths read back

A path has a printed form whatever its names and keys are, but only of some paths it is read as the
path itself: no origin or target gets lost, every name and key shows where it ends, and no blank at
the end is cut off. No text is shorter than what is printed of the elements that it spells, so that a
printed path that loses a blank at its end cannot spell them any more.

* `Path.spells_flatMap`: the printed elements are a spelling of them;
* **`Path.Spells.length_le`**: no spelling is shorter, but for the slash at its beginning;
* `Path.trim_flatMap_iff`: when trimming leaves the printed elements as they are;
* `Path.spells_trim_iff`: otherwise they no longer are a spelling;
* **`Path.read_print_iff`**: the paths that are read back.
-/

namespace Telemetry

/-! ## The printed form is a spelling -/

namespace Element

theorem IsSpellable.spells {e : Element} (h : e.IsSpellable) :
    Spells (e.name.toList ++ e.keys.rows.flatMap printKey) e := by
  refine ⟨h.name, e.keys.rows, h.keys, rfl, fun k => ?_⟩
  rw [← Table.find?_ofList, Table.ofList_rows]

theorem printChars_eq (e : Element) :
    e.printChars = '/' :: (e.name.toList ++ e.keys.rows.flatMap printKey) := by
  simp [printChars]

end Element

namespace Path

theorem spells_flatMap {es : List Element} (h : ∀ e ∈ es, e.IsSpellable) :
    Spells (es.flatMap Element.printChars) es := by
  -- a slash before an element comes from the element that is printed before it, if there is one
  have hcons : ∀ (es : List Element) (e : Element), (∀ e' ∈ e :: es, e'.IsSpellable) →
      Spells (e.name.toList ++ e.keys.rows.flatMap Element.printKey ++
        es.flatMap Element.printChars) (e :: es) := by
    intro es
    induction es with
    | nil =>
      intro e h
      rw [List.flatMap_nil, List.append_nil]
      exact .last (h e List.mem_cons_self).spells
    | cons e' es ih =>
      intro e h
      rw [List.flatMap_cons, e'.printChars_eq, List.cons_append]
      exact .cons (h e List.mem_cons_self).spells
        (ih e' fun x hx => h x (List.mem_cons_of_mem _ hx))
  cases es with
  | nil => exact .nil
  | cons e es =>
    rw [List.flatMap_cons, e.printChars_eq, List.cons_append]
    exact .slash (hcons es e h)

end Path

/-! ## No spelling is shorter -/

namespace Element

theorem Spells.length_le {text : List Char} {e : Element} (h : Spells text e) :
    e.printChars.length ≤ text.length + 1 := by
  obtain ⟨-, rows, -, rfl, hkeys⟩ := h
  have hsubset : e.keys.rows ⊆ rows := fun r hr => Table.mem_of_find?_eq_lookup hkeys hr
  have hnodup : e.keys.rows.Nodup :=
    e.keys.ascending.imp fun {a b} (hlt : a.1 < b.1) (heq : a = b) =>
      String.lt_irrefl b.1 (heq ▸ hlt)
  obtain ⟨rows', hperm, hsub⟩ := List.subperm_of_subset hnodup hsubset
  have hle := (hsub.flatMap printKey).length_le
  rw [(hperm.flatMap_right printKey).length_eq] at hle
  rw [printChars_eq, List.length_cons, List.length_append, List.length_append]
  omega

end Element

namespace Path

/-- **What is printed of the elements is no longer than a text that spells them**, but for the slash
at its beginning. -/
theorem Spells.length_le {cs : List Char} {es : List Element} (h : Spells cs es) :
    (es.flatMap Element.printChars).length ≤ cs.length + 1 := by
  induction h with
  | nil => simp
  | slash _ ih =>
    rw [List.length_cons]
    omega
  | last hp =>
    rw [List.flatMap_cons, List.flatMap_nil, List.append_nil]
    exact hp.length_le
  | cons hp _ ih =>
    have := hp.length_le
    rw [List.flatMap_cons, List.length_append, List.length_append, List.length_cons]
    omega

theorem Spells.of_slash {cs : List Char} {es : List Element} (h : Spells ('/' :: cs) es) :
    Spells cs es := by
  have hne : ∀ {piece rest : List Char} {e : Element}, Element.Spells piece e →
      '/' :: cs ≠ piece ++ rest := by
    rintro piece rest e ⟨hname, rows, -, rfl, -⟩ h
    cases hchars : e.name.toList with
    | nil => exact hname.nonempty (String.toList_eq_nil_iff.mp hchars)
    | cons c name =>
      rw [hchars] at h
      obtain rfl := (List.cons.inj h).1
      exact (hname.plain '/' (by simp [hchars])).1 rfl
  generalize hcs : '/' :: cs = text at h
  cases h with
  | nil => cases hcs
  | slash h =>
    obtain rfl := (List.cons.inj hcs).2
    exact h
  | last hp => exact absurd (hcs.trans (List.append_nil text).symm) (hne hp)
  | cons hp _ => exact absurd hcs (hne hp)

end Path

/-! ## Blanks at the end -/

namespace Text

theorem trim_sublist (cs : List Char) : (trim cs).Sublist cs := by
  have hend : ∀ l : List Char, (trimEnd l).Sublist l := fun l => by
    have := (List.dropWhile_sublist isBlank (l := l.reverse)).reverse
    rwa [List.reverse_reverse] at this
  exact (hend _).trans (List.dropWhile_sublist isBlank)

theorem trim_slash (cs : List Char) : ∃ cs', trim ('/' :: cs) = '/' :: cs' := by
  have hdrop : ('/' :: cs).dropWhile isBlank = '/' :: cs := rfl
  rw [trim, hdrop, trimEnd, List.reverse_cons]
  have hlast : ∀ l : List Char, ∃ l', (l ++ ['/']).dropWhile isBlank = l' ++ ['/'] := by
    intro l
    induction l with
    | nil => exact ⟨[], rfl⟩
    | cons c l ih =>
      rw [List.cons_append, List.dropWhile_cons]
      split
      · exact ih
      · exact ⟨c :: l, rfl⟩
  obtain ⟨l', hl'⟩ := hlast cs.reverse
  exact ⟨l'.reverse, by rw [hl']; simp⟩

end Text

theorem Element.getLast?_printChars {e : Element} (h : e.name ≠ "") : e.printChars.getLast? =
    if e.keys.isEmpty then e.name.toList.getLast? else some ']' := by
  have hname : e.name.toList ≠ [] := fun hnil => h (String.toList_eq_nil_iff.mp hnil)
  rw [printChars_eq, Table.isEmpty]
  rcases List.eq_nil_or_concat e.keys.rows with hrows | ⟨rows, r, hrows⟩
  · rw [hrows, List.flatMap_nil, List.append_nil, List.isEmpty_nil, if_pos rfl,
      List.getLast?_cons_of_ne_nil hname]
  · have htext : '/' :: (e.name.toList ++ (rows ++ [r]).flatMap printKey) =
        '/' :: (e.name.toList ++ rows.flatMap printKey ++
          ('[' :: r.1.toList ++ '=' :: r.2.toList)) ++ [']'] := by
      simp [printKey]
    rw [hrows, List.concat_eq_append, htext, List.getLast?_concat, if_neg (by simp)]

namespace Path

theorem getLast?_flatMap {es : List Element} (h : ∀ e ∈ es, e.name ≠ "") {e : Element}
    (he : e ∈ es.getLast?) : (es.flatMap Element.printChars).getLast? =
      if e.keys.isEmpty then e.name.toList.getLast? else some ']' := by
  obtain ⟨init, rfl⟩ := List.getLast?_eq_some_iff.mp he
  rw [List.flatMap_append, List.flatMap_cons, List.flatMap_nil, List.append_nil,
    List.getLast?_append_of_ne_nil _ (by rw [Element.printChars_eq]; simp)]
  exact Element.getLast?_printChars (h e (by simp))

theorem trim_flatMap_iff {es : List Element} (h : ∀ e ∈ es, e.name ≠ "") :
    Text.trim (es.flatMap Element.printChars) = es.flatMap Element.printChars ↔
      ∀ e ∈ es.getLast?, e.keys.isEmpty = true →
        ∀ c ∈ e.name.toList.getLast?, Text.isBlank c = false := by
  constructor
  · intro htrim e he hkeys c hc
    have hlast := getLast?_flatMap h he
    rw [if_pos hkeys] at hlast
    rw [← hlast, ← htrim] at hc
    exact Text.getLast?_trim _ c hc
  · intro hblank
    refine Text.trim_of_ends (fun c hc => ?_) fun c hc => ?_
    · cases es with
      | nil => cases hc
      | cons e es =>
        rw [List.flatMap_cons, e.printChars_eq] at hc
        obtain rfl := Option.some.inj hc
        decide
    · cases he : es.getLast? with
      | none =>
        rw [List.getLast?_eq_none_iff.mp he] at hc
        cases hc
      | some e =>
        rw [getLast?_flatMap h he] at hc
        split at hc
        · rename_i hkeys
          exact hblank e he hkeys c hc
        · obtain rfl := Option.some.inj hc
          decide

/-! ## Reading what was printed -/

theorem spells_trim_iff {es : List Element} (hes : es ≠ []) :
    Spells (Text.trim (es.flatMap Element.printChars)) es ↔
      (∀ e ∈ es, e.IsSpellable) ∧
        Text.trim (es.flatMap Element.printChars) = es.flatMap Element.printChars := by
  constructor
  · intro h
    refine ⟨fun e he => (h.exists_of_mem he).elim fun _ he => he.isSpellable,
      (Text.trim_sublist _).eq_of_length_le ?_⟩
    obtain ⟨cs, hcs⟩ : ∃ cs, Text.trim (es.flatMap Element.printChars) = '/' :: cs := by
      cases es with
      | nil => exact absurd rfl hes
      | cons e es =>
        rw [List.flatMap_cons, e.printChars_eq, List.cons_append]
        exact Text.trim_slash _
    rw [hcs] at h ⊢
    exact h.of_slash.length_le
  · rintro ⟨hspellable, htrim⟩
    rw [htrim]
    exact spells_flatMap hspellable

/-- **The paths that are read back**: they have neither origin nor target, all their names and keys
can be written, and the last element, unless it has a key, does not end with a blank. -/
theorem read_print_iff (p : Path) : read p.print = .ok p ↔
    p.origin = "" ∧ p.target = "" ∧ (∀ e ∈ p.elements, e.IsSpellable) ∧
      ∀ e ∈ p.elements.getLast?, e.keys.isEmpty = true →
        ∀ c ∈ e.name.toList.getLast?, Text.isBlank c = false := by
  rw [read_eq_ok, readElements_eq_ok_iff, print, String.toList_ofList]
  by_cases horigin : p.origin = ""
  · have hprint : p.printChars =
        if p.elements.isEmpty then ['/'] else p.elements.flatMap Element.printChars := by
      rw [printChars, horigin]
      rfl
    rw [hprint]
    by_cases hes : p.elements = []
    · have hroot : Spells (Text.trim ['/']) [] := .slash .nil
      simp [hes, horigin, hroot]
    · rw [if_neg (by simpa using hes), spells_trim_iff hes]
      constructor
      · rintro ⟨⟨hspellable, htrim⟩, -, htarget⟩
        exact ⟨horigin, htarget, hspellable,
          (trim_flatMap_iff fun e he => (hspellable e he).name.nonempty).mp htrim⟩
      · rintro ⟨-, htarget, hspellable, hblank⟩
        exact ⟨⟨hspellable, (trim_flatMap_iff fun e he =>
          (hspellable e he).name.nonempty).mpr hblank⟩, horigin, htarget⟩
  · simp [horigin]

end Path

end Telemetry
