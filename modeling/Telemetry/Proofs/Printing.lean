import Telemetry.Proofs.Spelling

/-!
# Printed paths tell places apart

Every element of a path that was read from a text has a name without a slash or an opening bracket,
and keys whose ends can be seen: no name of a key has an equals sign, and no value a closing
bracket. So the printed form of such a path shows where each of its parts ends. An origin may come
before them, which ends at the first slash as long as it has none itself.

* `Element.Legible`, `Path.Legible`: the ends of all parts can be seen;
* `Path.IsRead`: a path without origin that was read from a text;
* **`Path.IsRead.legible`**: its elements are legible;
* `Path.Plain`: an origin without a slash, and legible elements;
* `Element.printChars_append_inj`: one printed element, whatever follows it;
* **`Path.Plain.eq_of_print_eq`**: plain paths with one printed form have the same origin and
  elements; `Path.elements_eq_of_print_eq`: so have legible ones.
-/

namespace Telemetry

/-! ## Legible paths -/

/-- The end of the name of the key can be seen, and the end of its value. -/
def LegibleKey (r : String × String) : Prop := '=' ∉ r.1.toList ∧ ']' ∉ r.2.toList

/-- The end of the name can be seen, and the ends of all keys. -/
structure Element.Legible (e : Element) : Prop where
  nonempty : e.name.toList ≠ []
  name : ∀ c ∈ e.name.toList, c ≠ '/' ∧ c ≠ '['
  keys : ∀ r ∈ e.keys.rows, LegibleKey r

/-- No origin is printed, and the ends of all elements can be seen. -/
structure Path.Legible (p : Path) : Prop where
  origin : p.origin = ""
  elements : ∀ e ∈ p.elements, e.Legible

/-- A path without origin whose elements were read from a text. -/
def Path.IsRead (p : Path) : Prop :=
  p.origin = "" ∧ ∃ text q, Path.read text = .ok q ∧ p.elements = q.elements

/-! ## What was read is legible -/

theorem Element.IsSpellable.legible {e : Element} (h : e.IsSpellable) : e.Legible where
  nonempty hname := h.name.nonempty (String.toList_eq_nil_iff.mp hname)
  name c hc := ⟨(h.name.plain c hc).1, (h.name.plain c hc).2.1⟩
  keys r hr := ⟨(h.keys r hr).equals, fun hc => ((h.keys r hr).value _ hc).2 rfl⟩

namespace Path

/-- **What was read is legible.** -/
theorem IsRead.legible {p : Path} (h : p.IsRead) : p.Legible := by
  obtain ⟨horigin, text, q, hq, helements⟩ := h
  refine ⟨horigin, fun e he => ?_⟩
  rw [helements] at he
  obtain ⟨piece, hpiece⟩ := (spells_of_read hq).exists_of_mem he
  exact hpiece.isSpellable.legible

theorem Legible.join {a b : Path} (ha : a.Legible) (hb : b.Legible) : (a.join b).Legible where
  origin := by rw [join_origin, ha.origin, hb.origin, ite_self]
  elements e he := by
    rcases List.mem_append.mp he with he | he
    · exact ha.elements e he
    · exact hb.elements e he

end Path

/-! ## Legible paths are told apart -/

theorem append_cons_inj {c : Char} {a a' b b' : List Char} (ha : c ∉ a) (ha' : c ∉ a')
    (h : a ++ c :: b = a' ++ c :: b') : a = a' ∧ b = b' := by
  have hsplit := splitFirst_append ha b
  rw [h, splitFirst_append ha' b'] at hsplit
  simpa [eq_comm] using hsplit

namespace Element

theorem printKey_append_inj {r r' : String × String} {u v : List Char} (hr : LegibleKey r)
    (hr' : LegibleKey r') (h : printKey r ++ u = printKey r' ++ v) : r = r' ∧ u = v := by
  have h : r.1.toList ++ '=' :: (r.2.toList ++ ']' :: u) =
      r'.1.toList ++ '=' :: (r'.2.toList ++ ']' :: v) := by
    simpa [printKey] using h
  obtain ⟨hname, hrest⟩ := append_cons_inj hr.1 hr'.1 h
  obtain ⟨hvalue, huv⟩ := append_cons_inj hr.2 hr'.2 hrest
  exact ⟨Prod.ext (String.toList_inj.mp hname) (String.toList_inj.mp hvalue), huv⟩

/-- What follows an element: the next one, or nothing. -/
def Follows (u : List Char) : Prop := ∀ c ∈ u.head?, c = '/'

theorem printKeys_append_inj {rs rs' : List (String × String)} {u v : List Char}
    (hrs : ∀ r ∈ rs, LegibleKey r) (hrs' : ∀ r ∈ rs', LegibleKey r) (hu : Follows u)
    (hv : Follows v) (h : rs.flatMap printKey ++ u = rs'.flatMap printKey ++ v) :
    rs = rs' ∧ u = v := by
  -- an opening bracket does not follow an element
  have hopen : ∀ {w : List Char} {r : String × String} {x : List Char}, Follows w →
      w ≠ printKey r ++ x := by
    rintro w r x hw rfl
    exact absurd (hw '[' rfl) (by decide)
  induction rs generalizing rs' with
  | nil =>
    cases rs' with
    | nil => exact ⟨rfl, h⟩
    | cons r' rs' =>
      rw [List.flatMap_cons, List.append_assoc] at h
      exact absurd h (hopen hu)
  | cons r rs ih =>
    cases rs' with
    | nil =>
      rw [List.flatMap_cons, List.append_assoc] at h
      exact absurd h.symm (hopen hv)
    | cons r' rs' =>
      rw [List.flatMap_cons, List.flatMap_cons, List.append_assoc, List.append_assoc] at h
      obtain ⟨rfl, hrest⟩ :=
        printKey_append_inj (hrs r List.mem_cons_self) (hrs' r' List.mem_cons_self) h
      obtain ⟨rfl, huv⟩ := ih (fun x hx => hrs x (List.mem_cons_of_mem _ hx))
        (fun x hx => hrs' x (List.mem_cons_of_mem _ hx)) hrest
      exact ⟨rfl, huv⟩

theorem takeWhile_name {e : Element} (he : e.Legible) {u : List Char}
    (hu : ∀ c ∈ u.head?, c = '/' ∨ c = '[') :
    (e.name.toList ++ u).takeWhile (fun c => c != '/' && c != '[') = e.name.toList := by
  have hname : ∀ c ∈ e.name.toList, (c != '/' && c != '[') = true := fun c hc => by
    simpa using he.name c hc
  rw [List.takeWhile_append_of_pos hname]
  cases u with
  | nil => simp
  | cons c u =>
    rcases hu c rfl with rfl | rfl <;> simp

/-- **A printed element shows its parts**, whatever follows it. -/
theorem printChars_append_inj {e e' : Element} {u v : List Char} (he : e.Legible)
    (he' : e'.Legible) (hu : Follows u) (hv : Follows v)
    (h : e.printChars ++ u = e'.printChars ++ v) : e = e' ∧ u = v := by
  have hends : ∀ {rs : List (String × String)} {w : List Char}, Follows w →
      ∀ c ∈ (rs.flatMap printKey ++ w).head?, c = '/' ∨ c = '[' := by
    intro rs w hw c hc
    cases rs with
    | nil => exact .inl (hw c hc)
    | cons r rs => exact .inr (Option.some.inj hc).symm
  have h : e.name.toList ++ (e.keys.rows.flatMap printKey ++ u) =
      e'.name.toList ++ (e'.keys.rows.flatMap printKey ++ v) := by
    simpa [printChars] using h
  have hname : e.name.toList = e'.name.toList := by
    rw [← takeWhile_name he (hends hu), h, takeWhile_name he' (hends hv)]
  rw [hname, List.append_cancel_left_eq] at h
  obtain ⟨hrows, huv⟩ := printKeys_append_inj he.keys he'.keys hu hv h
  obtain ⟨name, rows, hasc⟩ := e
  obtain ⟨name', rows', hasc'⟩ := e'
  obtain rfl : name = name' := String.toList_inj.mp hname
  obtain rfl : rows = rows' := hrows
  exact ⟨rfl, huv⟩

theorem follows_flatMap (es : List Element) : Follows (es.flatMap printChars) := by
  cases es with
  | nil => simp [Follows]
  | cons e es => exact fun c hc => (Option.some.inj hc).symm

theorem eq_of_flatMap_eq {es es' : List Element} (hes : ∀ e ∈ es, e.Legible)
    (hes' : ∀ e ∈ es', e.Legible) (h : es.flatMap printChars = es'.flatMap printChars) :
    es = es' := by
  induction es generalizing es' with
  | nil =>
    cases es' with
    | nil => rfl
    | cons e' es' => cases h
  | cons e es ih =>
    cases es' with
    | nil => cases h
    | cons e' es' =>
      obtain ⟨rfl, hrest⟩ := printChars_append_inj (hes e List.mem_cons_self)
        (hes' e' List.mem_cons_self) (follows_flatMap es) (follows_flatMap es') h
      rw [ih (fun x hx => hes x (List.mem_cons_of_mem _ hx))
        (fun x hx => hes' x (List.mem_cons_of_mem _ hx)) hrest]

theorem flatMap_ne_root {es : List Element} (hes : ∀ e ∈ es, e.Legible) :
    es.flatMap printChars ≠ ['/'] := by
  cases es with
  | nil => simp
  | cons e es =>
    have hne := (hes e List.mem_cons_self).nonempty
    cases hname : e.name.toList with
    | nil => exact absurd hname hne
    | cons c cs => simp [printChars, hname]

end Element

/-! ## Origins -/

namespace Path

/-- The end of the origin can be seen, as it has no slash, and the ends of all elements. -/
structure Plain (p : Path) : Prop where
  origin : '/' ∉ p.origin.toList
  elements : ∀ e ∈ p.elements, e.Legible

variable {p q : Path}

theorem Legible.plain (h : p.Legible) : p.Plain where
  origin := by simp [h.origin]
  elements := h.elements

/-- What is printed before the first slash. -/
def printedOrigin (p : Path) : List Char :=
  if p.origin.isEmpty then [] else p.origin.toList ++ [':']

/-- What is printed from the first slash on. -/
def printedElements (p : Path) : List Char :=
  if p.elements.isEmpty then ['/'] else p.elements.flatMap Element.printChars

theorem printChars_eq (p : Path) : p.printChars = p.printedOrigin ++ p.printedElements := rfl

theorem origin_eq_of_printedOrigin_eq (h : p.printedOrigin = q.printedOrigin) :
    p.origin = q.origin := by
  unfold printedOrigin at h
  split at h
  · rename_i hp
    split at h
    · rename_i hq
      rw [String.isEmpty_iff.mp hp, String.isEmpty_iff.mp hq]
    · simp at h
  · split at h
    · simp at h
    · exact String.toList_inj.mp (List.append_cancel_right h)

theorem Plain.slash_not_mem (h : p.Plain) : '/' ∉ p.printedOrigin := by
  unfold printedOrigin
  split
  · exact List.not_mem_nil
  · simpa using h.origin

theorem exists_printedElements (p : Path) : ∃ l, p.printedElements = '/' :: l := by
  unfold printedElements
  cases p.elements with
  | nil => exact ⟨[], rfl⟩
  | cons e es => exact ⟨_, rfl⟩

theorem elements_eq_of_printedElements_eq (hp : ∀ e ∈ p.elements, e.Legible)
    (hq : ∀ e ∈ q.elements, e.Legible) (h : p.printedElements = q.printedElements) :
    p.elements = q.elements := by
  unfold printedElements at h
  split at h
  · rename_i hpe
    split at h
    · rename_i hqe
      rw [List.isEmpty_iff.mp hpe, List.isEmpty_iff.mp hqe]
    · exact absurd h.symm (Element.flatMap_ne_root hq)
  · split at h
    · exact absurd h (Element.flatMap_ne_root hp)
    · exact Element.eq_of_flatMap_eq hp hq h

/-- **Plain paths with one printed form have the same origin and elements.** -/
theorem Plain.eq_of_print_eq (hp : p.Plain) (hq : q.Plain) (h : p.print = q.print) :
    p.origin = q.origin ∧ p.elements = q.elements := by
  have h : p.printChars = q.printChars := String.ofList_injective h
  obtain ⟨a, ha⟩ := exists_printedElements p
  obtain ⟨b, hb⟩ := exists_printedElements q
  rw [printChars_eq, printChars_eq, ha, hb] at h
  obtain ⟨horigin, hrest⟩ := append_cons_inj hp.slash_not_mem hq.slash_not_mem h
  refine ⟨origin_eq_of_printedOrigin_eq horigin, ?_⟩
  exact elements_eq_of_printedElements_eq hp.elements hq.elements (by rw [ha, hb, hrest])

/-- **Legible paths with one printed form have the same elements.** -/
theorem elements_eq_of_print_eq (hp : p.Legible) (hq : q.Legible) (h : p.print = q.print) :
    p.elements = q.elements := (hp.plain.eq_of_print_eq hq.plain h).2

end Path

end Telemetry
