/-!
# Blank characters

The characters with the White_Space property of the Unicode standard, and cutting them off at the
ends of a text.

* `isBlank`: the property;
* `trim`: a text without the blanks at its ends;
* `trim_of_ends`: a text without blanks at its ends is left as it is;
* **`head?_trim`**, **`getLast?_trim`**: a trimmed text has none there.
-/

namespace Telemetry.Text

/-- The White_Space property. -/
def isBlank (c : Char) : Bool :=
  let n := c.toNat
  (9 ≤ n && n ≤ 13) || n == 0x20 || n == 0x85 || n == 0xA0 || n == 0x1680 ||
    (0x2000 ≤ n && n ≤ 0x200A) || n == 0x2028 || n == 0x2029 || n == 0x202F || n == 0x205F ||
    n == 0x3000

/-- The text without the blanks at its end. -/
def trimEnd (cs : List Char) : List Char := (cs.reverse.dropWhile isBlank).reverse

/-- The text without the blanks at its ends. -/
def trim (cs : List Char) : List Char := trimEnd (cs.dropWhile isBlank)

theorem head?_dropWhile_isBlank (cs : List Char) :
    ∀ c ∈ (cs.dropWhile isBlank).head?, isBlank c = false := by
  intro c hc
  induction cs with
  | nil => simp at hc
  | cons x cs ih =>
    rw [List.dropWhile_cons] at hc
    split at hc
    · exact ih hc
    · rename_i hx
      simp only [List.head?_cons, Option.mem_def, Option.some.injEq] at hc
      subst hc; simpa using hx

theorem dropWhile_of_head? {cs : List Char} (h : ∀ c ∈ cs.head?, isBlank c = false) :
    cs.dropWhile isBlank = cs := by
  cases cs with
  | nil => rfl
  | cons c cs => simp [h c rfl]

/-- A text that neither begins nor ends with a blank is left as it is. -/
theorem trim_of_ends {cs : List Char} (h : ∀ c ∈ cs.head?, isBlank c = false)
    (h' : ∀ c ∈ cs.getLast?, isBlank c = false) : trim cs = cs := by
  rw [trim, dropWhile_of_head? h, trimEnd, dropWhile_of_head?, List.reverse_reverse]
  simpa using h'

theorem getLast?_trim (cs : List Char) : ∀ c ∈ (trim cs).getLast?, isBlank c = false := by
  intro c hc
  refine head?_dropWhile_isBlank (cs.dropWhile isBlank).reverse c ?_
  simpa [trim, trimEnd, List.getLast?_reverse] using hc

theorem head?_trim (cs : List Char) : ∀ c ∈ (trim cs).head?, isBlank c = false := by
  intro c hc
  have hp : trim cs <+: cs.dropWhile isBlank := by
    have := List.reverse_prefix.mpr
      (List.dropWhile_suffix isBlank (l := (cs.dropWhile isBlank).reverse))
    simpa [trim, trimEnd] using this
  obtain ⟨s, hs⟩ := hp
  refine head?_dropWhile_isBlank cs c ?_
  cases ht : trim cs with
  | nil => rw [ht] at hc; simp at hc
  | cons d ds => rw [ht] at hc hs; rw [← hs]; simpa using hc

end Telemetry.Text
