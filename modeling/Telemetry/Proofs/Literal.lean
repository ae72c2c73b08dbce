import Telemetry.Json.Parser
import Telemetry.Proofs.Numeral

/-!
# Scanning literals

What a string literal or a numeral may look like, and that scanning finds exactly its parts.

* `Piece.Spelled`, `Text.Spelled`: the spellings of the pieces of a string literal;
* `Text.scan_spelled`: scanning a literal up to its closing quote;
* `Text.spelled_ofString`, **`Text.read_ofString`**: the literal of a string is one, and spells it;
* `Ends`: nothing that follows continues a numeral;
* **`scanNumeral_printChars`**: scanning a numeral.
-/

namespace Telemetry.Json

/-! ## String literals -/

/-- The spellings of a piece: a byte as it is or behind a backslash, a unit by four hex digits. -/
inductive Piece.Spelled : Piece → List UInt8 → Prop where
  | raw {b : UInt8} : b ≠ ascii '"' → b ≠ ascii '\\' → ¬ b < 0x20 → Spelled (.byte b) [b]
  | escaped {b e : UInt8} : unescape? e = some b → Spelled (.byte b) [ascii '\\', e]
  | unit {n : ℕ} {h i j k : UInt8} : hexValue4? h i j k = some n →
      Spelled (.unit n) [ascii '\\', ascii 'u', h, i, j, k]

namespace Text

/-- The spellings of the inside of a string literal. -/
inductive Spelled : List Piece → List UInt8 → Prop where
  | nil : Spelled [] []
  | cons {p : Piece} {ps : List Piece} {bs rest : List UInt8} :
      p.Spelled bs → Spelled ps rest → Spelled (p :: ps) (bs ++ rest)

theorem scan_quote (rest : List UInt8) : scan (ascii '"' :: rest) = ({ pieces := [] }, rest) := by
  rw [scan.eq_def]
  exact if_pos rfl

theorem scan_piece {p : Piece} {bs : List UInt8} (h : p.Spelled bs) (rest : List UInt8) :
    scan (bs ++ rest) = cons p (scan rest) := by
  cases h with
  | raw h₁ h₂ h₃ =>
    rw [List.singleton_append, scan.eq_def]
    simp only [if_neg h₁, if_neg h₂, if_neg h₃]
  | @escaped b e he =>
    have hu : e ≠ ascii 'u' := by
      rintro rfl
      have : unescape? (ascii 'u') = none := by decide
      rw [this] at he
      cases he
    have hq : ascii '\\' ≠ ascii '"' := by decide
    rw [List.cons_append, List.singleton_append, scan.eq_def]
    simp only [if_neg hq, if_true, if_neg hu, he]
  | @unit n h i j k hn =>
    have hq : ascii '\\' ≠ ascii '"' := by decide
    rw [show [ascii '\\', ascii 'u', h, i, j, k] ++ rest =
      ascii '\\' :: ascii 'u' :: h :: i :: j :: k :: rest from rfl, scan.eq_def]
    simp only [if_neg hq, if_true, hn]

theorem scan_spelled {ps : List Piece} {bs : List UInt8} (h : Spelled ps bs) (rest : List UInt8) :
    scan (bs ++ ascii '"' :: rest) = ({ pieces := ps }, rest) := by
  induction h with
  | nil => exact scan_quote rest
  | cons hp _ ih => rw [List.append_assoc, scan_piece hp, ih]; rfl

/-! ## The literal of a string -/

theorem pieces_ofString (s : String) : (ofString s).pieces = s.toByteArray.data.toList.map fun b =>
    if b < 0x20 ∧ (shortEscapes.lookup b).isNone then .unit b.toNat else .byte b := rfl

theorem unescape?_of_shortEscape {b e : UInt8} (h : shortEscapes.lookup b = some e) :
    unescape? e = some b := by
  have hmem : (b, e) ∈ shortEscapes := by
    obtain ⟨l₁, l₂, hl, -⟩ := List.lookup_eq_some_iff.mp h
    rw [hl]
    simp
  simp only [shortEscapes, List.mem_cons, Prod.mk.injEq, List.not_mem_nil, or_false] at hmem
  rcases hmem with ⟨rfl, rfl⟩ | ⟨rfl, rfl⟩ | ⟨rfl, rfl⟩ | ⟨rfl, rfl⟩ | ⟨rfl, rfl⟩ <;> decide

theorem hexValue4?_digits {n : ℕ} (h : n < 0x20) :
    hexValue4? (hexDigit (n / 4096 % 16)) (hexDigit (n / 256 % 16)) (hexDigit (n / 16 % 16))
      (hexDigit (n % 16)) = some n := by
  interval_cases n <;> decide

theorem spelled_byte {b : UInt8} (h : ¬ (b < 0x20 ∧ (shortEscapes.lookup b).isNone)) :
    (Piece.byte b).Spelled (Piece.byte b).print := by
  by_cases hb : b = ascii '"' ∨ b = ascii '\\'
  · rw [Piece.print, if_pos hb]
    refine .escaped ?_
    rcases hb with rfl | rfl <;> decide
  · rw [Piece.print, if_neg hb]
    cases he : shortEscapes.lookup b with
    | some e => exact .escaped (unescape?_of_shortEscape he)
    | none =>
      refine .raw (fun e => hb (.inl e)) (fun e => hb (.inr e)) fun hlt => h ⟨hlt, ?_⟩
      rw [he]
      rfl

theorem spelled_ofString (s : String) :
    Spelled (ofString s).pieces ((ofString s).pieces.flatMap Piece.print) := by
  rw [pieces_ofString]
  generalize s.toByteArray.data.toList = bs
  induction bs with
  | nil => exact .nil
  | cons b bs ih =>
    rw [List.map_cons, List.flatMap_cons]
    refine .cons ?_ ih
    split
    · rename_i hb
      exact .unit (hexValue4?_digits (UInt8.lt_iff_toNat_lt.mp hb.1))
    · rename_i hb
      exact spelled_byte hb

theorem bytes_unit {n : ℕ} (h : isHigh n = false) (h' : isLow n = false) (rest : List Piece) :
    bytes (.unit n :: rest) = (bytes rest).map (String.utf8EncodeChar (.ofNat n) ++ ·) := by
  rw [bytes.eq_def]
  match rest with
  | [] => simp only [h, h', Bool.or_self, Bool.false_eq_true, if_false]
  | .byte b :: rest => simp only [h, h', Bool.or_self, Bool.false_eq_true, if_false]
  | .unit m :: rest => simp only [h, h', Bool.false_eq_true, if_false]

theorem bytes_pieces (bs : List UInt8) : bytes (bs.map fun b =>
    if b < 0x20 ∧ (shortEscapes.lookup b).isNone then .unit b.toNat else .byte b) = some bs := by
  induction bs with
  | nil => rfl
  | cons b bs ih =>
    rw [List.map_cons]
    split
    · rename_i hb
      have hlt : b.toNat < 0x20 := UInt8.lt_iff_toNat_lt.mp hb.1
      have henc : ∀ n < 0x20, String.utf8EncodeChar (Char.ofNat n) = [UInt8.ofNat n] ∧
          isHigh n = false ∧ isLow n = false := by decide
      obtain ⟨he, hh, hl⟩ := henc _ hlt
      rw [bytes_unit hh hl, ih, he, UInt8.ofNat_toNat]
      rfl
    · rw [bytes, ih]
      rfl

theorem fromUTF8?_toByteArray (s : String) : String.fromUTF8? s.toByteArray = some s := by
  rw [String.fromUTF8?, dif_pos s.isValidUTF8]
  rfl

/-- **The literal of a string spells that string.** -/
theorem read_ofString (s : String) : (ofString s).read = .ok s := by
  have h : (bytes (ofString s).pieces).bind (fun bs => String.fromUTF8? ⟨bs.toArray⟩) = some s := by
    rw [pieces_ofString, bytes_pieces]
    exact fromUTF8?_toByteArray s
  rw [read, h]
  rfl

end Text

/-! ## Numerals -/

/-- Nothing at the start of a text continues a numeral. -/
def Ends (rest : List UInt8) : Prop :=
  ∀ b ∈ rest.head?, isDigit b = false ∧ b ≠ ascii '.' ∧ b ≠ ascii 'e' ∧ b ≠ ascii 'E'

theorem ends_nil : Ends [] := by simp [Ends]

theorem Ends.of_head {b : UInt8} {rest : List UInt8} (hd : isDigit b = false)
    (h₁ : b ≠ ascii '.') (h₂ : b ≠ ascii 'e') (h₃ : b ≠ ascii 'E') : Ends (b :: rest) := by
  intro c hc
  obtain rfl : b = c := by simpa using hc
  exact ⟨hd, h₁, h₂, h₃⟩

theorem toNat_of_isDigit {c : Char} (h : c.isDigit = true) : 48 ≤ c.toNat ∧ c.toNat ≤ 57 := by
  simp only [Char.isDigit, Bool.and_eq_true, decide_eq_true_eq] at h
  exact ⟨UInt32.le_iff_toNat_le.mp h.1, UInt32.le_iff_toNat_le.mp h.2⟩

theorem toNat_ascii {c : Char} (h : c.toNat < 256) : (ascii c).toNat = c.toNat :=
  UInt8.toNat_ofNat_of_lt h

theorem isDigit_ascii {c : Char} (h : c.isDigit = true) : isDigit (ascii c) = true := by
  obtain ⟨h₁, h₂⟩ := toNat_of_isDigit h
  have he : (ascii c).toNat = c.toNat := toNat_ascii (by omega)
  simp only [isDigit, Bool.and_eq_true, decide_eq_true_eq, UInt8.le_iff_toNat_le, he]
  exact ⟨h₁, h₂⟩

theorem chars_asciis {cs : List Char} (h : ∀ c ∈ cs, c.isDigit = true) :
    chars (asciis cs) = cs := by
  unfold chars asciis
  rw [List.map_map]
  refine (List.map_congr_left fun c hc => ?_).trans (List.map_id _)
  have := (toNat_of_isDigit (h c hc)).2
  rw [Function.comp_apply, toNat_ascii (by omega), Char.ofNat_toNat, id]

theorem digits_asciis {ds : List Char} {rest : List UInt8} (hne : ds ≠ [])
    (hd : ∀ c ∈ ds, c.isDigit = true) (hr : ∀ b ∈ rest.head?, isDigit b = false) :
    digits (asciis ds ++ rest) = .ok (ds, rest) := by
  have hall : ∀ b ∈ asciis ds, isDigit b = true := by
    intro b hb
    obtain ⟨c, hc, rfl⟩ := List.mem_map.mp hb
    exact isDigit_ascii (hd c hc)
  have htake : rest.takeWhile isDigit = [] := by
    cases rest with
    | nil => rfl
    | cons b rest => simp [hr b rfl]
  have hdrop : rest.dropWhile isDigit = rest := by
    cases rest with
    | nil => rfl
    | cons b rest => simp [hr b rfl]
  obtain ⟨c, ds, rfl⟩ := List.exists_cons_of_ne_nil hne
  have hhead : isDigit (ascii c) = true := isDigit_ascii (hd c List.mem_cons_self)
  have hscan := @List.takeWhile_append_of_pos _ _ _ rest hall
  have hleft := @List.dropWhile_append_of_pos _ _ _ rest hall
  rw [digits.eq_def]
  simp only [asciis, List.map_cons, List.cons_append] at hscan hleft hall ⊢
  rw [if_pos hhead, hscan, hleft, htake, hdrop, List.append_nil]
  have := chars_asciis hd
  simp only [asciis, List.map_cons] at this
  rw [this]

theorem wholeDigits_asciis {n : Numeral} (hn : n.WellFormed) {rest : List UInt8}
    (hr : ∀ b ∈ rest.head?, isDigit b = false) :
    wholeDigits (asciis n.whole ++ rest) = .ok (n.whole, rest) := by
  rw [wholeDigits, digits_asciis hn.whole_ne_nil hn.whole_digits hr]
  have : ¬ (n.whole.head? = some '0' ∧ n.whole.length ≠ 1) := fun h => h.2 (hn.leading_zero h.1)
  simp [bind, Except.bind, this, pure, Except.pure]

theorem fractionDigits_asciis {ds : List Char} (hd : ∀ c ∈ ds, c.isDigit = true)
    {rest : List UInt8} (hr : ∀ b ∈ rest.head?, isDigit b = false ∧ b ≠ ascii '.') :
    fractionDigits (asciis (if ds.isEmpty then [] else '.' :: ds) ++ rest) = .ok (ds, rest) := by
  cases ds with
  | nil =>
    cases rest with
    | nil => rfl
    | cons b rest => exact if_neg (hr b rfl).2
  | cons c ds =>
    exact digits_asciis (List.cons_ne_nil c ds) hd fun b hb => (hr b hb).1

theorem exponent_unsigned {m : Char} (hm : m = 'e' ∨ m = 'E') {ds : List Char} (hne : ds ≠ [])
    (hd : ∀ c ∈ ds, c.isDigit = true) {rest : List UInt8}
    (hr : ∀ b ∈ rest.head?, isDigit b = false) :
    exponent (asciis (m :: ds) ++ rest) = .ok (([m], ds), rest) := by
  obtain ⟨c, ds, rfl⟩ := List.exists_cons_of_ne_nil hne
  have hsign : ([ascii c].filter fun s => s == ascii '+' || s == ascii '-') = [] := by
    have hc := isDigit_ascii (hd c List.mem_cons_self)
    have hplus : isDigit (ascii '+') = false := by decide
    have hminus : isDigit (ascii '-') = false := by decide
    refine List.filter_eq_nil_iff.mpr fun b hb => ?_
    rw [List.mem_singleton.mp hb]
    simp only [Bool.or_eq_true, beq_iff_eq, not_or]
    constructor
    · intro e
      rw [e, hplus] at hc
      cases hc
    · intro e
      rw [e, hminus] at hc
      cases hc
  have hmark : chars [ascii m] = [m] := by rcases hm with rfl | rfl <;> decide
  have hcond : ascii m = ascii 'e' ∨ ascii m = ascii 'E' := hm.imp (congrArg _) (congrArg _)
  have hscan := digits_asciis hne hd hr
  rw [show asciis (m :: c :: ds) ++ rest = ascii m :: (asciis (c :: ds) ++ rest) from rfl,
    exponent.eq_def]
  simp only [if_pos hcond]
  rw [show (asciis (c :: ds) ++ rest).take 1 = [ascii c] from rfl, hsign, List.length_nil,
    List.drop_zero, hscan, hmark]
  rfl

theorem exponent_signed {m g : Char} (hm : m = 'e' ∨ m = 'E') (hg : g = '+' ∨ g = '-')
    {ds : List Char} (hne : ds ≠ []) (hd : ∀ c ∈ ds, c.isDigit = true) {rest : List UInt8}
    (hr : ∀ b ∈ rest.head?, isDigit b = false) :
    exponent (asciis (m :: g :: ds) ++ rest) = .ok (([m, g], ds), rest) := by
  have hsign : ([ascii g].filter fun s => s == ascii '+' || s == ascii '-') = [ascii g] := by
    rcases hg with rfl | rfl <;> decide
  have hmark : chars [ascii m, ascii g] = [m, g] := by
    rcases hm with rfl | rfl <;> rcases hg with rfl | rfl <;> decide
  have hcond : ascii m = ascii 'e' ∨ ascii m = ascii 'E' := hm.imp (congrArg _) (congrArg _)
  rw [show asciis (m :: g :: ds) ++ rest = ascii m :: ascii g :: (asciis ds ++ rest) from rfl,
    exponent.eq_def]
  simp only [if_pos hcond]
  rw [show (ascii g :: (asciis ds ++ rest)).take 1 = [ascii g] from rfl, hsign,
    List.length_singleton, List.drop_one, List.tail_cons, digits_asciis hne hd hr, hmark]
  rfl

theorem exponent_asciis {n : Numeral} (hn : n.WellFormed) {rest : List UInt8} (hr : Ends rest) :
    exponent (asciis (n.mark ++ n.power) ++ rest) = .ok ((n.mark, n.power), rest) := by
  have hr' : ∀ b ∈ rest.head?, isDigit b = false := fun b hb => (hr b hb).1
  rcases hn.exponent with ⟨hm, hp⟩ | ⟨hm, hp⟩
  · rw [hm, hp]
    cases rest with
    | nil => rfl
    | cons b rest =>
      have hb := hr b rfl
      exact if_neg fun h => h.elim hb.2.2.1 hb.2.2.2
  · simp only [List.mem_cons, List.not_mem_nil, or_false] at hm
    rcases hm with h | h | h | h | h | h <;> rw [h]
    · exact exponent_unsigned (.inl rfl) hp hn.power_digits hr'
    · exact exponent_unsigned (.inr rfl) hp hn.power_digits hr'
    · exact exponent_signed (.inl rfl) (.inl rfl) hp hn.power_digits hr'
    · exact exponent_signed (.inr rfl) (.inl rfl) hp hn.power_digits hr'
    · exact exponent_signed (.inl rfl) (.inr rfl) hp hn.power_digits hr'
    · exact exponent_signed (.inr rfl) (.inr rfl) hp hn.power_digits hr'

/-- What follows the digits of the fraction continues neither them nor the point. -/
theorem head?_exponent {n : Numeral} (hn : n.WellFormed) {rest : List UInt8} (hr : Ends rest) :
    ∀ b ∈ (asciis (n.mark ++ n.power) ++ rest).head?, isDigit b = false ∧ b ≠ ascii '.' := by
  rcases hn.exponent with ⟨hm, hp⟩ | ⟨hm, -⟩
  · rw [hm, hp]
    exact fun b hb => ⟨(hr b hb).1, (hr b hb).2.1⟩
  · intro b hb
    simp only [List.mem_cons, List.not_mem_nil, or_false] at hm
    have hhead : b = ascii 'e' ∨ b = ascii 'E' := by
      rcases hm with h | h | h | h | h | h <;> rw [h] at hb <;>
        simp only [asciis, List.map_cons, List.cons_append, List.head?_cons, Option.mem_def,
          Option.some.injEq] at hb <;> simp [← hb]
    rcases hhead with rfl | rfl <;> decide

theorem head?_fraction {n : Numeral} (hn : n.WellFormed) {rest : List UInt8} (hr : Ends rest) :
    ∀ b ∈ (asciis (if n.fraction.isEmpty then [] else '.' :: n.fraction) ++
      (asciis (n.mark ++ n.power) ++ rest)).head?, isDigit b = false := by
  split
  · exact fun b hb => (head?_exponent hn hr b hb).1
  · intro b hb
    obtain rfl : ascii '.' = b := by simpa [asciis] using hb
    decide

/-- **A numeral is scanned up to its end.** -/
theorem scanNumeral_printChars {n : Numeral} (hn : n.WellFormed) {rest : List UInt8}
    (hr : Ends rest) : scanNumeral (asciis n.printChars ++ rest) = .ok (n, rest) := by
  set tail := asciis (if n.fraction.isEmpty then [] else '.' :: n.fraction) ++
    (asciis (n.mark ++ n.power) ++ rest) with htail
  have hbody : asciis n.printChars ++ rest =
      asciis (if n.negative then ['-'] else []) ++ (asciis n.whole ++ tail) := by
    simp [Numeral.printChars, htail, asciis]
  have hwhole := wholeDigits_asciis hn (head?_fraction hn hr)
  rw [← htail] at hwhole
  have hfrac := fractionDigits_asciis hn.fraction_digits (head?_exponent hn hr)
  rw [← htail] at hfrac
  have hneg : (asciis n.printChars ++ rest).head? = some (ascii '-') ↔ n.negative = true := by
    rw [hbody]
    cases n.negative with
    | true => exact ⟨fun _ => rfl, fun _ => rfl⟩
    | false =>
      obtain ⟨c, ds, hw⟩ := List.exists_cons_of_ne_nil hn.whole_ne_nil
      have hc := isDigit_ascii (hn.whole_digits c (hw ▸ List.mem_cons_self))
      refine ⟨fun h => ?_, Bool.noConfusion⟩
      rw [hw] at h
      have he : ascii c = ascii '-' := by simpa [asciis] using h
      rw [he] at hc
      exact absurd hc (by decide)
  have hstart : (if (asciis n.printChars ++ rest).head? = some (ascii '-') then
      (asciis n.printChars ++ rest).drop 1 else asciis n.printChars ++ rest) =
        asciis n.whole ++ tail := by
    rw [if_congr hneg rfl rfl, hbody]
    cases n.negative <;> rfl
  unfold scanNumeral
  dsimp only
  rw [hstart, hwhole]
  simp only [bind, Except.bind, hfrac, exponent_asciis hn hr, pure, Except.pure, hneg,
    Bool.decide_eq_true]

end Telemetry.Json
