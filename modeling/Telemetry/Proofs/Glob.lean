import Telemetry.Broker.Basic
import Telemetry.Proofs.ByteOrder

/-!
# Glob patterns

What a glob pattern matches, told without the search for it. A star may stand for any bytes, so a
matcher has to try, but every try shortens the pattern or the text and it comes to an end. Behind an
escaped name no byte of the name has a meaning of its own: those of ASCII have a backslash before
them, and the forms of other characters hold no ASCII at all.

* `Glob.Matches`: what a pattern matches, with `matches_star_cons`, `matches_any_cons` and so on for
  what the first byte of a pattern asks of the first byte of a text;
* **`Glob.coversFor_iff`**: with a step for every byte the search finds exactly that;
* `Glob.matches_escaped`: an escaped name matches itself, and then the rest of the pattern matches;
* **`Glob.matches_globUnder`**: the pattern of all names that begin with a stem.
-/

namespace Telemetry.Glob

/-! ## What a pattern matches -/

/-- The bytes with a meaning of their own, outside of a class. -/
def isMeta (b : UInt8) : Bool :=
  b == byte '*' || b == byte '?' || b == byte '[' || b == byte '\\'

/-- The pattern matches the text. -/
inductive Matches : List UInt8 → List UInt8 → Prop
  | nil : Matches [] []
  | star {p t : List UInt8} (skipped : List UInt8) : Matches p t →
      Matches (byte '*' :: p) (skipped ++ t)
  | any {p t : List UInt8} (b : UInt8) : Matches p t → Matches (byte '?' :: p) (b :: t)
  /-- One byte of a class, behind which the pattern goes on. -/
  | oneOf {b : UInt8} {p rest t : List UInt8} : inClass b p = (true, rest) → Matches rest t →
      Matches (byte '[' :: p) (b :: t)
  /-- A byte behind a backslash stands for itself. -/
  | quoted {p t : List UInt8} (b : UInt8) : Matches p t → Matches (byte '\\' :: b :: p) (b :: t)
  /-- So does a backslash with nothing behind it. -/
  | backslash : Matches [byte '\\'] [byte '\\']
  | literal {p t : List UInt8} {b : UInt8} : isMeta b = false → Matches p t →
      Matches (b :: p) (b :: t)

variable {b c : UInt8} {p t : List UInt8}

theorem matches_nil : Matches [] t ↔ t = [] := by
  constructor
  · rintro ⟨⟩
    rfl
  · rintro rfl
    exact .nil

theorem ne_nil_of_matches (hc : c ≠ byte '*') (h : Matches (c :: p) t) : t ≠ [] := by
  cases h with
  | star => exact absurd rfl hc
  | any | oneOf | quoted | backslash | literal => exact List.cons_ne_nil _ _

theorem matches_star :
    Matches (byte '*' :: p) t ↔ ∃ skipped rest, t = skipped ++ rest ∧ Matches p rest := by
  constructor
  · intro h
    cases h with
    | star skipped h => exact ⟨skipped, _, rfl, h⟩
    | literal hb => cases hb
  · rintro ⟨skipped, rest, rfl, h⟩
    exact .star skipped h

theorem matches_star_nil : Matches (byte '*' :: p) [] ↔ Matches p [] := by
  rw [matches_star]
  constructor
  · rintro ⟨skipped, rest, heq, h⟩
    obtain ⟨rfl, rfl⟩ := List.append_eq_nil_iff.mp heq.symm
    exact h
  · exact fun h => ⟨[], [], rfl, h⟩

/-- A star stands for nothing, or for one byte and what a star stands for. -/
theorem matches_star_cons : Matches (byte '*' :: p) (b :: t) ↔
    Matches p (b :: t) ∨ Matches (byte '*' :: p) t := by
  rw [matches_star, matches_star]
  constructor
  · rintro ⟨skipped, rest, heq, h⟩
    cases skipped with
    | nil => exact .inl (heq ▸ h)
    | cons b' skipped =>
      obtain ⟨rfl, rfl⟩ := List.cons.inj heq
      exact .inr ⟨skipped, rest, rfl, h⟩
  · rintro (h | ⟨skipped, rest, rfl, h⟩)
    · exact ⟨[], b :: t, rfl, h⟩
    · exact ⟨b :: skipped, rest, rfl, h⟩

theorem matches_any_cons : Matches (byte '?' :: p) (b :: t) ↔ Matches p t := by
  constructor
  · intro h
    cases h with
    | any _ h => exact h
    | literal hb => cases hb
  · exact .any b

theorem matches_oneOf_cons : Matches (byte '[' :: p) (b :: t) ↔
    (inClass b p).1 = true ∧ Matches (inClass b p).2 t := by
  constructor
  · intro h
    cases h with
    | oneOf hb h => exact ⟨by rw [hb], by rwa [hb]⟩
    | literal hb => cases hb
  · rintro ⟨hb, h⟩
    exact .oneOf (Prod.ext hb rfl) h

theorem matches_quoted :
    Matches (byte '\\' :: c :: p) t ↔ ∃ rest, t = c :: rest ∧ Matches p rest := by
  constructor
  · intro h
    cases h with
    | quoted _ h => exact ⟨_, rfl, h⟩
    | literal hb => cases hb
  · rintro ⟨rest, rfl, h⟩
    exact .quoted c h

theorem matches_backslash_cons :
    Matches [byte '\\'] (b :: t) ↔ byte '\\' = b ∧ Matches [] t := by
  constructor
  · intro h
    cases h with
    | backslash => exact ⟨rfl, .nil⟩
    | literal hb => cases hb
  · rintro ⟨rfl, h⟩
    obtain rfl := matches_nil.mp h
    exact .backslash

theorem matches_literal (hc : isMeta c = false) :
    Matches (c :: p) t ↔ ∃ rest, t = c :: rest ∧ Matches p rest := by
  constructor
  · intro h
    cases h with
    | literal _ h => exact ⟨_, rfl, h⟩
    | star | any | oneOf | quoted | backslash => cases hc
  · rintro ⟨rest, rfl, h⟩
    exact .literal hc h

theorem exists_cons_iff {P : List UInt8 → Prop} :
    (∃ rest, b :: t = c :: rest ∧ P rest) ↔ c = b ∧ P t := by
  constructor
  · rintro ⟨rest, heq, h⟩
    obtain ⟨rfl, rfl⟩ := List.cons.inj heq
    exact ⟨rfl, h⟩
  · rintro ⟨rfl, h⟩
    exact ⟨t, rfl, h⟩

/-! ## The search -/

theorem length_members_le (b : UInt8) (found : Bool) (l : List UInt8) :
    (members b found l).2.length ≤ l.length := by
  fun_induction members b found l <;> simp only [List.length_cons, List.length_nil] at * <;> omega

theorem length_inClass_le (b : UInt8) (l : List UInt8) : (inClass b l).2.length ≤ l.length := by
  unfold inClass
  split
  · split
    · exact Nat.le_succ_of_le (length_members_le b false _)
    · exact length_members_le b false _
  · exact Nat.le_refl _

/-- **The search finds exactly what the pattern matches**, with a step for every byte of both. -/
theorem coversFor_iff {fuel : ℕ} (h : p.length + t.length < fuel) :
    coversFor fuel p t = true ↔ Matches p t := by
  fun_induction coversFor fuel p t
  case case1 => omega
  all_goals simp only [List.length_cons, List.length_nil] at h
  case case2 => rw [List.isEmpty_iff, matches_nil]
  case case3 p t ih ih' =>
    rw [Bool.or_eq_true, ih (by omega)]
    cases t with
    | nil => simp [matches_star_nil]
    | cons b t =>
      rw [List.length_cons] at h
      rw [matches_star_cons, ih' t (by rw [List.length_cons]; omega)]
  case case4 hstar => simpa using fun hm => ne_nil_of_matches hstar hm rfl
  case case5 ih => rw [matches_any_cons, ih (by omega)]
  case case6 p b t found rest hclass _ _ ih =>
    have hle : rest.length ≤ p.length := by simpa [hclass] using length_inClass_le b p
    rw [matches_oneOf_cons, hclass, Bool.and_eq_true, ih (by omega)]
  case case7 ih =>
    rw [matches_backslash_cons, Bool.and_eq_true, beq_iff_eq, ih (by simpa using by omega)]
  case case8 ih =>
    rw [matches_quoted, exists_cons_iff, Bool.and_eq_true, beq_iff_eq, ih (by omega)]
  case case9 c _ hstar _ _ hany hclass hquote ih =>
    have hplain : isMeta c = false := by simp [isMeta, hstar, hany, hclass, hquote]
    rw [matches_literal hplain, exists_cons_iff, Bool.and_eq_true, beq_iff_eq, ih (by omega)]

theorem covers_iff {pattern text : String} :
    covers pattern text = true ↔ Matches (utf8Bytes pattern) (utf8Bytes text) :=
  coversFor_iff (Nat.lt_succ_self _)

/-! ## Escaped names -/

theorem isMeta_eq_false_iff : isMeta c = false ↔
    c.toNat ≠ 42 ∧ c.toNat ≠ 63 ∧ c.toNat ≠ 91 ∧ c.toNat ≠ 92 := by
  simp only [isMeta, Bool.or_eq_false_iff, beq_eq_false_iff_ne, ne_eq, ← UInt8.toNat_inj, and_assoc]
  rfl

theorem isGlobSpecial_eq_false_iff {x : Char} : isGlobSpecial x = false ↔
    x.toNat ≠ 42 ∧ x.toNat ≠ 63 ∧ x.toNat ≠ 91 ∧ x.toNat ≠ 93 ∧ x.toNat ≠ 92 := by
  simp only [isGlobSpecial, Bool.or_eq_false_iff, beq_eq_false_iff_ne, ne_eq, ← Char.toNat_inj,
    and_assoc]
  rfl

theorem toNat_of_mem_utf8EncodeChar (x : Char) :
    ∀ b ∈ String.utf8EncodeChar x, b.toNat = x.toNat ∨ 128 ≤ b.toNat := by
  show ∀ b ∈ String.utf8EncodeChar x, b.toNat = x.val.toNat ∨ 128 ≤ b.toNat
  unfold String.utf8EncodeChar
  generalize x.val.toNat = v
  dsimp only
  split_ifs <;>
    simp only [List.forall_mem_cons, List.not_mem_nil, false_implies, implies_true, and_true,
      UInt8.toNat_ofNat'] <;>
    omega

theorem isMeta_of_mem {x : Char} (hx : isGlobSpecial x = false) :
    ∀ b ∈ String.utf8EncodeChar x, isMeta b = false := by
  intro b hb
  have hspecial := isGlobSpecial_eq_false_iff.mp hx
  have hform := toNat_of_mem_utf8EncodeChar x b hb
  rw [isMeta_eq_false_iff]
  omega

theorem matches_plain {l : List UInt8} (hl : ∀ b ∈ l, isMeta b = false) :
    Matches (l ++ p) t ↔ ∃ rest, t = l ++ rest ∧ Matches p rest := by
  induction l generalizing t with
  | nil => simp
  | cons b l ih =>
    rw [List.cons_append, matches_literal (hl b List.mem_cons_self)]
    simp only [ih fun b' hb' => hl b' (List.mem_cons_of_mem _ hb')]
    constructor
    · rintro ⟨_, rfl, rest, rfl, h⟩
      exact ⟨rest, rfl, h⟩
    · rintro ⟨rest, rfl, h⟩
      exact ⟨l ++ rest, rfl, rest, rfl, h⟩

/-- The bytes of a character in an escaped name. -/
def escapedForm (x : Char) : List UInt8 :=
  (if isGlobSpecial x then ['\\', x] else [x]).flatMap String.utf8EncodeChar

theorem utf8Bytes_globUnder (stem : String) :
    utf8Bytes (globUnder stem) = stem.toList.flatMap escapedForm ++ [byte '*'] := by
  rw [utf8Bytes_eq, globUnder, escapeGlob, String.toList_push, String.toList_ofList,
    List.flatMap_append, List.flatMap_assoc]
  rfl

theorem utf8EncodeChar_of_special {x : Char} (hx : isGlobSpecial x = true) :
    String.utf8EncodeChar x = [byte x] := by
  simp only [isGlobSpecial, Bool.or_eq_true, beq_iff_eq] at hx
  rcases hx with (((rfl | rfl) | rfl) | rfl) | rfl <;> rfl

theorem matches_escapedForm (x : Char) : Matches (escapedForm x ++ p) t ↔
    ∃ rest, t = String.utf8EncodeChar x ++ rest ∧ Matches p rest := by
  unfold escapedForm
  cases hx : isGlobSpecial x with
  | false => simpa using matches_plain (isMeta_of_mem hx)
  | true =>
    rw [if_pos rfl, List.flatMap_cons, List.flatMap_singleton, utf8EncodeChar_of_special hx]
    exact matches_quoted

theorem matches_escaped (l : List Char) : Matches (l.flatMap escapedForm ++ p) t ↔
    ∃ rest, t = l.flatMap String.utf8EncodeChar ++ rest ∧ Matches p rest := by
  induction l generalizing t with
  | nil => simp
  | cons x l ih =>
    rw [List.flatMap_cons, List.append_assoc, matches_escapedForm]
    simp only [ih, List.flatMap_cons, List.append_assoc]
    constructor
    · rintro ⟨_, rfl, rest, rfl, h⟩
      exact ⟨rest, rfl, h⟩
    · rintro ⟨rest, rfl, h⟩
      exact ⟨_, rfl, rest, rfl, h⟩

/-! ## Names that begin with a stem -/

theorem matches_star_end : Matches [byte '*'] t :=
  matches_star.mpr ⟨t, [], (List.append_nil t).symm, .nil⟩

/-- **The pattern of a stem matches the names that begin with it**, whatever characters it holds.
The search finds just these, and a Redis broker hands a stream the messages that a bus does. -/
theorem matches_globUnder (stem channel : String) :
    (Matches (utf8Bytes (globUnder stem)) (utf8Bytes channel) ↔ ∃ rest, channel = stem ++ rest) ∧
    covers (globUnder stem) channel = startsWith channel stem ∧
    ∀ b : Broker, b.kind = .redis →
      (b.filter (.under stem)).covers channel = (Topic.under stem).covers channel := by
  have hmatches : Matches (utf8Bytes (globUnder stem)) (utf8Bytes channel) ↔
      stem.toList <+: channel.toList := by
    rw [utf8Bytes_globUnder, matches_escaped, ← utf8Bytes_eq, ← utf8Bytes_prefix_iff]
    simp only [matches_star_end, and_true, List.IsPrefix, eq_comm]
  have hcovers : covers (globUnder stem) channel = startsWith channel stem := by
    rw [Bool.eq_iff_iff, covers_iff, hmatches, startsWith, List.isPrefixOf_iff_prefix]
  refine ⟨hmatches.trans ⟨?_, ?_⟩, hcovers, fun b hb => ?_⟩
  · rintro ⟨rest, h⟩
    exact ⟨.ofList rest, by rw [← String.toList_inj, String.toList_append, String.toList_ofList, h]⟩
  · rintro ⟨rest, rfl⟩
    rw [String.toList_append]
    exact List.prefix_append _ _
  · simp only [Broker.filter, hb]
    exact hcovers

end Telemetry.Glob
