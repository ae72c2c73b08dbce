import Mathlib.Data.Nat.Notation
import Telemetry.Broker.Basic

/-!
# Subjects

A broker whose subjects are made of tokens knows no beginnings of texts, only whole tokens. A stem
that ends with a separator ends with a whole token, so its wildcard covers just the subjects that
begin with it. What a name holds of wildcard characters is gone before: they are mapped to another
character, and separators to themselves.

* `Subject.tokens_eq_splitOn`, `Subject.tokens_eq_append_iff`: the tokens of a subject, and of what
  begins with another subject;
* `Subject.coversTokens_append_more`: a pattern of plain tokens with the wildcard at its end;
* `subjectChar_eq_separator_iff`, `wildcard_dataStem`, `wildcard_of_not_ends`: mapped names;
* `Broker.inboxes_publish`: what a publish adds to a stream;
* **`Subject.covers_wildcard`**: what a stream under a stem is handed;
  `Subject.covers_wildcard_dotted`: names with special characters.
-/

namespace Telemetry

/-! ## Tokens -/

namespace Subject

theorem tokens_eq_splitOn (l : List Char) : tokens l = l.splitOn separator := by
  induction l with
  | nil => rw [tokens, List.splitOn_nil]
  | cons c l ih =>
    rw [tokens, List.splitOn_cons_eq_if_modifyHead, ih]
    by_cases hc : c = separator
    · rw [if_pos hc, if_pos (beq_iff_eq.mpr hc)]
    · rw [if_neg hc, if_neg (mt beq_iff_eq.mp hc)]
      cases h : l.splitOn separator with
      | nil => exact absurd h (List.splitOn_ne_nil _ _)
      | cons t ts => rfl

theorem tokens_ne_nil (l : List Char) : tokens l ≠ [] := by
  rw [tokens_eq_splitOn]
  exact List.splitOn_ne_nil _ _

theorem tokens_append (l m : List Char) : tokens (l ++ separator :: m) = tokens l ++ tokens m := by
  simp only [tokens_eq_splitOn, List.splitOn_append_cons_self]

theorem intercalate_tokens (l : List Char) : [separator].intercalate (tokens l) = l := by
  rw [tokens_eq_splitOn, List.intercalate_splitOn]

theorem intercalate_append {ts us : List (List Char)} (ht : ts ≠ []) (hu : us ≠ []) :
    [separator].intercalate (ts ++ us) =
      [separator].intercalate ts ++ separator :: [separator].intercalate us := by
  induction ts with
  | nil => exact absurd rfl ht
  | cons t ts ih =>
    cases ts with
    | nil =>
      rw [List.singleton_append, List.intercalate_cons_of_ne_nil hu, List.intercalate_singleton,
        List.append_assoc, List.singleton_append]
    | cons t' ts =>
      rw [List.cons_append, List.cons_append, List.intercalate_cons_cons, ← List.cons_append,
        ih (List.cons_ne_nil _ _), List.intercalate_cons_cons, List.append_assoc, List.append_assoc,
        List.append_assoc]

/-- **A subject begins with the tokens of another**, and has more, if it begins with the other and a
separator. -/
theorem tokens_eq_append_iff {k l : List Char} :
    (∃ rest, rest ≠ [] ∧ tokens l = tokens k ++ rest) ↔ k ++ [separator] <+: l := by
  constructor
  · rintro ⟨rest, hrest, h⟩
    have hl := intercalate_tokens l
    rw [h, intercalate_append (tokens_ne_nil k) hrest, intercalate_tokens] at hl
    exact ⟨[separator].intercalate rest, by rw [← hl, List.append_assoc, List.singleton_append]⟩
  · rintro ⟨m, rfl⟩
    exact ⟨tokens m, tokens_ne_nil m, by
      rw [List.append_assoc, List.singleton_append, tokens_append]⟩

theorem mem_of_mem_tokens {l t : List Char} {c : Char} (ht : t ∈ tokens l) (hc : c ∈ t) :
    c ∈ l := by
  fun_induction tokens l generalizing t with
  | case1 =>
    obtain rfl := List.mem_singleton.mp ht
    exact hc
  | case2 l ih =>
    rcases List.mem_cons.mp ht with rfl | ht
    · cases hc
    · exact List.mem_cons_of_mem _ (ih ht hc)
  | case3 d l _ hnil => exact absurd hnil (tokens_ne_nil l)
  | case4 d l _ t' ts htokens ih =>
    rcases List.mem_cons.mp ht with rfl | ht
    · rcases List.mem_cons.mp hc with rfl | hc
      · exact List.mem_cons_self
      · exact List.mem_cons_of_mem _ (ih (htokens ▸ List.mem_cons_self) hc)
    · exact List.mem_cons_of_mem _ (ih (htokens ▸ List.mem_cons_of_mem _ ht) hc)

/-- Plain tokens stand for themselves, and the wildcard at the end for one more or many. -/
theorem coversTokens_append_more {ps ts : List (List Char)} (hps : one ∉ ps) :
    coversTokens (ps ++ [more]) ts = true ↔ ∃ rest, rest ≠ [] ∧ ts = ps ++ rest := by
  induction ps generalizing ts with
  | nil => simp [coversTokens]
  | cons p ps ih =>
    obtain ⟨hp, hps⟩ : one ≠ p ∧ one ∉ ps := by simpa using hps
    cases ts with
    | nil => simp [coversTokens]
    | cons t ts =>
      simp only [List.cons_append, coversTokens, List.append_eq_nil_iff, List.cons_ne_nil, and_false,
        if_false, hp.symm, decide_false, Bool.false_or, Bool.and_eq_true, decide_eq_true_eq, ih hps,
        List.cons.injEq]
      constructor
      · rintro ⟨rfl, rest, hrest, rfl⟩
        exact ⟨rest, hrest, rfl, rfl⟩
      · rintro ⟨rest, hrest, rfl, rfl⟩
        exact ⟨rfl, rest, hrest, rfl⟩

end Subject

/-! ## Mapped names -/

theorem subjectChar_eq_separator_iff {c : Char} : subjectChar c = separator ↔ c = separator := by
  unfold subjectChar
  split
  · rename_i hc
    constructor
    · intro h
      exact absurd h (by decide)
    · rintro rfl
      exact absurd hc (by decide)
  · exact Iff.rfl

theorem toList_subject (s : String) : (subject s).toList = s.toList.map subjectChar :=
  String.toList_ofList

theorem getLast?_subject_iff {s : String} :
    (subject s).toList.getLast? = some separator ↔ s.toList.getLast? = some separator := by
  rw [toList_subject, List.getLast?_map, Option.map_eq_some_iff]
  simp only [subjectChar_eq_separator_iff, exists_eq_right]

theorem subject_dataStem (s : String) : subject (dataStem s) = dataStem (subject s) := by
  rw [← String.toList_inj, toList_subject]
  simp only [dataStem, String.toList_push, List.map_append, List.map_singleton, toList_subject,
    subjectChar_eq_separator_iff.mpr rfl]

theorem star_not_mem_subject (s : String) : '*' ∉ (subject s).toList := by
  rw [toList_subject, List.mem_map]
  rintro ⟨c, -, h⟩
  unfold subjectChar at h
  split at h
  · exact absurd h (by decide)
  · rename_i hc
    exact hc (by simp [h])

theorem getLast?_dataStem (s : String) : (dataStem s).toList.getLast? = some separator := by
  rw [dataStem, String.toList_push, List.getLast?_concat]

theorem exists_dataStem {stem : String} (h : stem.toList.getLast? = some separator) :
    ∃ s, stem = dataStem s := by
  obtain ⟨l, hl⟩ := List.getLast?_eq_some_iff.mp h
  refine ⟨.ofList l, ?_⟩
  rw [← String.toList_inj, dataStem, String.toList_push, String.toList_ofList, hl]

theorem wildcard_dataStem (s : String) : wildcard (dataStem s) = (dataStem (subject s)).push '>' := by
  simp only [wildcard, subject_dataStem, getLast?_dataStem, if_true]

/-- A name that does not end with a separator has the same wildcard without one. -/
theorem wildcard_of_not_ends {s : String} (h : s.toList.getLast? ≠ some separator) :
    wildcard s = (dataStem (subject s)).push '>' := by
  rw [wildcard, if_neg (mt getLast?_subject_iff.mp h)]
  rfl

/-! ## What a stream is handed -/

theorem Broker.inboxes_publish {b : Broker} {client id : ℕ} {i : Inbox} (hkind : b.kind = .nats)
    (hopen : b.isClosed client = false) (hi : b.inboxes[id]? = some i) (hlive : i.live = true)
    {m : Message} (hcovers : i.filter.covers (subject m.channel) = true) :
    (b.publish client m).1.inboxes[id]? =
      some { i with queue := i.queue ++ [{ m with channel := subject m.channel }] } := by
  have hreaches : reaches { m with channel := subject m.channel } i = true := by
    rw [reaches, hlive, hcovers, Bool.and_self]
  simp [publish, hopen, hkind, put, channelName, hi, hreaches]

namespace Subject

theorem tokens_wildcard_dataStem (s : String) :
    tokens (wildcard (dataStem s)).toList = tokens (subject s).toList ++ [more] := by
  have hpattern : (wildcard (dataStem s)).toList = (subject s).toList ++ separator :: more := by
    rw [wildcard_dataStem, dataStem, String.toList_push, String.toList_push, List.append_assoc]
    rfl
  rw [hpattern, tokens_append]
  rfl

theorem covers_wildcard_dataStem (s channel : String) :
    covers (wildcard (dataStem s)) (subject channel) =
      startsWith (subject channel) (subject (dataStem s)) := by
  have hone : one ∉ tokens (subject s).toList := fun h =>
    star_not_mem_subject s (mem_of_mem_tokens h List.mem_cons_self)
  rw [Bool.eq_iff_iff, covers, tokens_wildcard_dataStem, coversTokens_append_more hone,
    tokens_eq_append_iff, startsWith, List.isPrefixOf_iff_prefix, subject_dataStem, dataStem,
    String.toList_push]

theorem startsWith_dataChannel (s t : String) :
    startsWith (subject (dataChannel s t)) (subject (dataStem s)) = true := by
  rw [startsWith, List.isPrefixOf_iff_prefix, toList_subject, toList_subject, dataChannel,
    String.toList_append, List.map_append]
  exact List.prefix_append _ _

/-- **What a stream under a stem is handed**: whatever begins with the stem once both are mapped. So
a NATS broker hands it all data of its subscription, whatever characters stand in the names. The
separator at the end of the stem may be left out, unless the name ends with one itself. -/
theorem covers_wildcard (s t stem channel : String) :
    (stem.toList.getLast? = some separator → covers (wildcard stem) (subject channel) =
      startsWith (subject channel) (subject stem)) ∧
    covers (wildcard (dataStem s)) (subject (dataChannel s t)) = true ∧
    (∀ (b : Broker) (client id : ℕ) (i : Inbox) (payload : ByteArray), b.kind = .nats →
      b.isClosed client = false → b.inboxes[id]? = some i → i.live = true →
      i.filter = b.filter (.under (dataStem s)) →
      (b.publish client ⟨dataChannel s t, payload⟩).1.inboxes[id]? =
        some { i with queue := i.queue ++ [⟨subject (dataChannel s t), payload⟩] }) ∧
    (s.toList.getLast? ≠ some separator → wildcard (dataStem s) = wildcard s) := by
  have hdata : covers (wildcard (dataStem s)) (subject (dataChannel s t)) = true := by
    rw [covers_wildcard_dataStem, startsWith_dataChannel]
  refine ⟨fun hstem => ?_, hdata, fun b client id i payload hkind hopen hi hlive hfilter => ?_,
    fun hs => ?_⟩
  · obtain ⟨s', rfl⟩ := exists_dataStem hstem
    exact covers_wildcard_dataStem s' channel
  · refine Broker.inboxes_publish hkind hopen hi hlive ?_
    simp only [hfilter, Broker.filter, hkind]
    exact hdata
  · rw [wildcard_dataStem, wildcard_of_not_ends hs]

/-- A NATS broker with one client, which asked for the data of a subscription. -/
def subscribed (s : String) : Broker :=
  (Broker.subscribe { kind := .nats, address := "", clients := #[{}] } 0 (.under (dataStem s))).1

/-- A name with wildcards and a separator of its own, and a target of several tokens. -/
theorem covers_wildcard_dotted :
    covers (wildcard "a.*>.") (subject "a.*>.b") = startsWith (subject "a.*>.b") (subject "a.*>.") ∧
    ((subscribed "a.*>").publish 0 ⟨dataChannel "a.*>" "b c.d", .empty⟩).1.inboxes[0]? =
      some { client := 0
             filter := .subject (wildcard (dataStem "a.*>"))
             queue := [⟨subject (dataChannel "a.*>" "b c.d"), .empty⟩] } ∧
    wildcard (dataStem "a.*>") = wildcard "a.*>" := by
  obtain ⟨hstem, -, hpublish, hwildcard⟩ := covers_wildcard "a.*>" "b c.d" "a.*>." "a.*>.b"
  exact ⟨hstem (by decide), hpublish (subscribed "a.*>") 0 0 _ .empty rfl rfl rfl rfl rfl,
    hwildcard (by decide)⟩

end Subject

end Telemetry
