import Telemetry.Proofs.Subject

/-!
# Names that give valid subjects

A server takes a subject only if every token of it is plain: there is something in it, and it holds
neither blanks nor wildcard characters. Mapping a name replaces blanks and wildcard characters one
by one, so that a token of a mapped name can only go wrong by being empty. That is seen in the name:
it begins or ends with a separator, or two separators stand side by side.

* `Subject.IsPublishable`, `Subject.IsSubscribable`: what a server takes;
* `IsDotted`: names with something before, between and after their separators;
* `Subject.nil_mem_tokens_iff`, `isDotted_iff`: where a token is empty;
* `Subject.tokens_subject`, `Subject.isPlain_map_iff`: the tokens of a mapped name;
* **`Subject.isPublishable_iff`**: the names whose subjects a server takes;
  `Subject.not_isPublishable_ending`: a name that ends with a separator is none of them.
-/

namespace Telemetry

/-! ## What a server takes -/

namespace Subject

/-- There is something in the token, and no character with a meaning of its own. -/
def IsPlain (t : List Char) : Prop :=
  t ≠ [] ∧ ∀ c ∈ t, Text.isBlank c = false ∧ c ≠ '*' ∧ c ≠ '>'

/-- A message can be published under the subject. -/
def IsPublishable (s : String) : Prop := ∀ t ∈ tokens s.toList, IsPlain t

/-- A subscription can ask for all below plain tokens. -/
def IsSubscribable (s : String) : Prop :=
  ∃ ts, tokens s.toList = ts ++ [more] ∧ ∀ t ∈ ts, IsPlain t

end Subject

/-- There is something before, between and after the separators of the name. -/
structure IsDotted (name : String) : Prop where
  nonempty : name ≠ ""
  head : name.toList.head? ≠ some separator
  last : name.toList.getLast? ≠ some separator
  apart : ¬ [separator, separator] <:+: name.toList

/-! ## Empty tokens -/

namespace Subject

/-- A token is empty where a separator has nothing, or another separator, beside it. -/
theorem nil_mem_tokens_iff {l : List Char} : [] ∈ tokens l ↔ l = [] ∨ l.head? = some separator ∨
    l.getLast? = some separator ∨ [separator, separator] <:+: l := by
  constructor
  · intro h
    obtain ⟨us, vs, htokens⟩ := List.append_of_mem h
    have hl := intercalate_tokens l
    rw [htokens] at hl
    -- what stands to the right of the empty token
    have hright : [separator].intercalate ([] :: vs) = [] ∨
        ∃ m, [separator].intercalate ([] :: vs) = separator :: m := by
      cases vs with
      | nil => exact .inl rfl
      | cons v vs => exact .inr ⟨_, rfl⟩
    by_cases hus : us = []
    · rw [hus, List.nil_append] at hl
      rcases hright with hnil | ⟨m, hm⟩
      · exact .inl (hl.symm.trans hnil)
      · exact .inr (.inl (by rw [← hl, hm, List.head?_cons]))
    · rw [intercalate_append hus (List.cons_ne_nil _ _)] at hl
      rcases hright with hnil | ⟨m, hm⟩
      · exact .inr (.inr (.inl (by rw [← hl, hnil, List.getLast?_concat])))
      · exact .inr (.inr (.inr ⟨_, m, by rw [← hl, hm, List.append_assoc]; rfl⟩))
  · rintro (rfl | hhead | hlast | ⟨a, b, rfl⟩)
    · exact List.mem_cons_self
    · obtain ⟨m, rfl⟩ := List.head?_eq_some_iff.mp hhead
      have h := tokens_append [] m
      rw [List.nil_append] at h
      rw [h]
      exact List.mem_append_left _ List.mem_cons_self
    · obtain ⟨m, rfl⟩ := List.getLast?_eq_some_iff.mp hlast
      rw [tokens_append]
      exact List.mem_append_right _ List.mem_cons_self
    · have h := tokens_append a (separator :: b)
      have h' := tokens_append [] b
      rw [List.nil_append] at h'
      rw [List.append_assoc, List.cons_append, List.singleton_append, h, h']
      exact List.mem_append_right _ (List.mem_append_left _ List.mem_cons_self)

end Subject

theorem isDotted_iff {name : String} : IsDotted name ↔ [] ∉ Subject.tokens name.toList := by
  rw [Subject.nil_mem_tokens_iff, String.toList_eq_nil_iff]
  constructor
  · rintro ⟨hnonempty, hhead, hlast, hapart⟩ (h | h | h | h)
    · exact hnonempty h
    · exact hhead h
    · exact hlast h
    · exact hapart h
  · intro h
    exact ⟨fun e => h (.inl e), fun e => h (.inr (.inl e)), fun e => h (.inr (.inr (.inl e))),
      fun e => h (.inr (.inr (.inr e)))⟩

/-! ## Mapped names -/

namespace Subject

theorem tokens_map (l : List Char) :
    tokens (l.map subjectChar) = (tokens l).map fun t => t.map subjectChar := by
  fun_induction tokens l with
  | case1 => rfl
  | case2 l ih =>
    rw [List.map_cons, tokens, if_pos (subjectChar_eq_separator_iff.mpr rfl), ih]
    rfl
  | case3 c l hc hnil ih => exact absurd hnil (tokens_ne_nil l)
  | case4 c l hc t ts htokens ih =>
    rw [List.map_cons, tokens, if_neg (mt subjectChar_eq_separator_iff.mp hc), ih, htokens]
    rfl

theorem tokens_subject (s : String) :
    tokens (subject s).toList = (tokens s.toList).map fun t => t.map subjectChar := by
  rw [toList_subject, tokens_map]

theorem plain_subjectChar (c : Char) :
    Text.isBlank (subjectChar c) = false ∧ subjectChar c ≠ '*' ∧ subjectChar c ≠ '>' := by
  unfold subjectChar
  split
  · decide
  · rename_i hc
    simpa [not_or, and_assoc] using hc

theorem isPlain_map_iff {t : List Char} : IsPlain (t.map subjectChar) ↔ t ≠ [] := by
  unfold IsPlain
  rw [ne_eq, List.map_eq_nil_iff]
  refine and_iff_left fun c hc => ?_
  obtain ⟨d, -, rfl⟩ := List.mem_map.mp hc
  exact plain_subjectChar d

theorem forall_isPlain_iff {s : String} :
    (∀ t ∈ tokens (subject s).toList, IsPlain t) ↔ IsDotted s := by
  rw [isDotted_iff, tokens_subject]
  simp only [List.mem_map, forall_exists_index, and_imp, forall_apply_eq_imp_iff₂, isPlain_map_iff]
  constructor
  · intro h hnil
    exact h [] hnil rfl
  · rintro h t ht rfl
    exact h ht

theorem tokens_subject_dataChannel (s t : String) : tokens (subject (dataChannel s t)).toList =
    tokens (subject s).toList ++ tokens (subject t).toList := by
  rw [tokens_subject, tokens_subject, tokens_subject, toList_dataChannel, tokens_append,
    List.map_append]

/-- **The names whose subjects a server takes**: data can be published if subscription and target
both have something before, between and after their separators, and the subscription can be
subscribed to if its own name has. Blanks and wildcard characters never are in the way. -/
theorem isPublishable_iff (s t : String) :
    (IsPublishable (subject (dataChannel s t)) ↔ IsDotted s ∧ IsDotted t) ∧
    (IsSubscribable (wildcard (dataStem s)) ↔ IsDotted s) := by
  constructor
  · rw [IsPublishable, tokens_subject_dataChannel, List.forall_mem_append, forall_isPlain_iff,
      forall_isPlain_iff]
  · rw [IsSubscribable, tokens_wildcard_dataStem]
    constructor
    · rintro ⟨ts, hts, hplain⟩
      rw [← List.append_cancel_right hts] at hplain
      exact forall_isPlain_iff.mp hplain
    · intro h
      exact ⟨_, rfl, forall_isPlain_iff.mpr h⟩

/-- A name that ends with a separator gives no subject that a server takes. -/
theorem not_isPublishable_ending : "a." ≠ "" ∧ "b" ≠ "" ∧
    ¬ IsPublishable (subject (dataChannel "a." "b")) ∧
    ¬ IsSubscribable (wildcard (dataStem "a.")) := by
  refine ⟨by decide, by decide, fun h => ?_, ?_⟩
  · exact (h [] (by decide)).1 rfl
  · rintro ⟨ts, hts, hplain⟩
    rw [tokens_wildcard_dataStem] at hts
    rw [← List.append_cancel_right hts] at hplain
    exact (hplain [] (by decide)).1 rfl

end Subject

end Telemetry
