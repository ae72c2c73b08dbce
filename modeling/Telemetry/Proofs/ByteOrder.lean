import Mathlib.Data.Nat.Notation
import Mathlib.Order.Defs.LinearOrder

/-!
# Names in byte order

Names compare by code point. That is also the order of their UTF-8 forms: of two characters the
greater one has the greater first byte at which they differ, and neither form begins the other.

* `utf8Bytes`: the UTF-8 form of a name;
* `utf8EncodeChar_append_lt`: the forms of two characters, whatever follows them;
* **`utf8Bytes_lt_iff`**: names compare as their UTF-8 forms do;
* **`utf8Bytes_prefix_iff`**: one name begins another if and only if its form does.
-/

namespace Telemetry

/-- The bytes of a name. -/
def utf8Bytes (s : String) : List UInt8 := s.toUTF8.data.toList

theorem utf8Bytes_eq (s : String) : utf8Bytes s = s.toList.flatMap String.utf8EncodeChar := by
  rw [utf8Bytes, String.toUTF8_eq_toByteArray, ← String.utf8Encode_toList, List.utf8Encode]
  simp

theorem byte_lt_iff {m n : ℕ} (hm : m < 256) (hn : n < 256) :
    UInt8.ofNat m < UInt8.ofNat n ↔ m < n := by
  rw [UInt8.lt_iff_toNat_lt, UInt8.toNat_ofNat', UInt8.toNat_ofNat', Nat.mod_eq_of_lt hm,
    Nat.mod_eq_of_lt hn]

theorem byte_eq_iff {m n : ℕ} (hm : m < 256) (hn : n < 256) :
    UInt8.ofNat m = UInt8.ofNat n ↔ m = n := by
  rw [← UInt8.toNat_inj, UInt8.toNat_ofNat', UInt8.toNat_ofNat', Nat.mod_eq_of_lt hm,
    Nat.mod_eq_of_lt hn]

theorem utf8EncodeChar_append_lt {c d : Char} (h : c < d) (x y : List UInt8) :
    String.utf8EncodeChar c ++ x < String.utf8EncodeChar d ++ y := by
  have hlt : c.val.toNat < d.val.toNat := h
  have hd : d.val.toNat < 0x110000 := by
    have := d.valid
    simp only [UInt32.isValidChar, Nat.isValidChar] at this
    omega
  -- Iterated quotients tell `omega` how the digits to the base 64 hang together.
  have hdiv : ∀ n : ℕ, n / 4096 = n / 64 / 64 ∧ n / 262144 = n / 64 / 64 / 64 := fun n => by omega
  unfold String.utf8EncodeChar
  generalize c.val.toNat = v at hlt ⊢
  generalize d.val.toNat = w at hlt hd ⊢
  simp only [hdiv]
  split_ifs <;> simp only [List.cons_append, List.cons_lt_cons_iff] <;>
    simp (disch := omega) only [byte_lt_iff, byte_eq_iff] <;> omega

theorem flatMap_utf8EncodeChar_lt {a b : List Char} (h : a < b) :
    a.flatMap String.utf8EncodeChar < b.flatMap String.utf8EncodeChar := by
  induction a generalizing b with
  | nil =>
    cases b with
    | nil => exact absurd h (by simp)
    | cons d b =>
      rw [List.flatMap_nil, List.flatMap_cons]
      cases hd : String.utf8EncodeChar d with
      | nil => exact absurd hd (by simp)
      | cons x l => exact List.nil_lt_cons x _
  | cons c a ih =>
    cases b with
    | nil => exact absurd h (by simp)
    | cons d b =>
      rw [List.flatMap_cons, List.flatMap_cons]
      rcases List.cons_lt_cons_iff.mp h with hc | ⟨rfl, hl⟩
      · exact utf8EncodeChar_append_lt hc _ _
      · exact List.append_left_lt (ih hl)

theorem utf8Bytes_lt {s t : String} (h : s < t) : utf8Bytes s < utf8Bytes t := by
  rw [utf8Bytes_eq, utf8Bytes_eq]
  exact flatMap_utf8EncodeChar_lt h

/-- **Names compare as their UTF-8 forms do.** -/
theorem utf8Bytes_lt_iff {s t : String} : utf8Bytes s < utf8Bytes t ↔ s < t := by
  refine ⟨fun h => ?_, utf8Bytes_lt⟩
  rcases Std.lt_trichotomy s t with hlt | rfl | hgt
  · exact hlt
  · exact absurd h (List.lt_irrefl _)
  · exact absurd (List.lt_trans h (utf8Bytes_lt hgt)) (List.lt_irrefl _)

/-! ## Beginnings -/

theorem utf8EncodeChar_append_inj {c d : Char} {x y : List UInt8}
    (h : String.utf8EncodeChar c ++ x = String.utf8EncodeChar d ++ y) : c = d ∧ x = y := by
  rcases Std.lt_trichotomy c d with hlt | rfl | hgt
  · exact absurd (utf8EncodeChar_append_lt hlt x y) (h ▸ List.lt_irrefl _)
  · exact ⟨rfl, List.append_cancel_left h⟩
  · exact absurd (utf8EncodeChar_append_lt hgt y x) (h ▸ List.lt_irrefl _)

theorem flatMap_utf8EncodeChar_prefix_iff {a b : List Char} :
    a.flatMap String.utf8EncodeChar <+: b.flatMap String.utf8EncodeChar ↔ a <+: b := by
  constructor
  · rintro ⟨t, h⟩
    induction a generalizing b with
    | nil => exact List.nil_prefix
    | cons c a ih =>
      rw [List.flatMap_cons, List.append_assoc] at h
      cases b with
      | nil =>
        have hnil : String.utf8EncodeChar c = [] := (List.append_eq_nil_iff.mp h).1
        exact absurd hnil (by simp)
      | cons d b =>
        obtain ⟨rfl, hrest⟩ := utf8EncodeChar_append_inj (h.trans List.flatMap_cons)
        exact List.cons_prefix_cons.mpr ⟨rfl, ih hrest⟩
  · rintro ⟨t, rfl⟩
    rw [List.flatMap_append]
    exact List.prefix_append _ _

/-- **One name begins another if and only if its UTF-8 form does.** -/
theorem utf8Bytes_prefix_iff {s t : String} :
    utf8Bytes s <+: utf8Bytes t ↔ s.toList <+: t.toList := by
  rw [utf8Bytes_eq, utf8Bytes_eq, flatMap_utf8EncodeChar_prefix_iff]

end Telemetry
