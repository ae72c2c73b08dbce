import Mathlib.Data.List.TakeWhile
import Mathlib.Tactic.IntervalCases
import Telemetry.Proofs.Rounding

/-!
# Values of numerals

What a numeral spells is read back as the number for which it was written.

* `digitsValue_toDigits`, `digitsValue_append_zeros`: the value of a run of digits;
* `Numeral.WellFormed`: the parts of a numeral make one that may stand in a document;
* `Numeral.toInt?_ofNat`, `Numeral.toInt?_ofInt`: whole numbers;
* **`Double.toDouble?_numeral`**: the numeral of a finite double is read as that double, bit by bit.
-/

namespace Telemetry

/-! ## Runs of digits -/

theorem digitsValue_toDigits (n : ℕ) : digitsValue (Nat.toDigits 10 n) = n :=
  Nat.ofDigitChars_ten_toDigits

theorem digitsValue_append_zeros (ds : List Char) (z : ℕ) :
    digitsValue (ds ++ List.replicate z '0') = digitsValue ds * 10 ^ z := by
  change Nat.ofDigitChars 10 (ds ++ List.replicate z '0') 0 = _
  rw [Nat.ofDigitChars_append, Nat.ofDigitChars_replicate_zero, mul_comm]
  rfl

theorem digitsValue_zeros_append (z : ℕ) (ds : List Char) :
    digitsValue (List.replicate z '0' ++ ds) = digitsValue ds := by
  change Nat.ofDigitChars 10 (List.replicate z '0' ++ ds) 0 = _
  rw [Nat.ofDigitChars_append, Nat.ofDigitChars_replicate_zero, mul_zero]
  rfl

theorem isDigit_of_mem_toDigits {n : ℕ} {c : Char} (h : c ∈ Nat.toDigits 10 n) :
    c.isDigit = true :=
  Nat.isDigit_of_mem_toDigits (by decide) le_rfl h

theorem head?_toDigits {n : ℕ} (hn : n ≠ 0) : (Nat.toDigits 10 n).head? ≠ some '0' := by
  induction n using Nat.strong_induction_on with
  | _ n ih =>
    rw [Nat.toDigits_eq_if (by decide)]
    split
    · rename_i h
      interval_cases n <;> first | exact absurd rfl hn | decide
    · have hq : n / 10 ≠ 0 := by omega
      have := ih (n / 10) (by omega) hq
      rwa [List.head?_append_of_ne_nil _ Nat.toDigits_ne_nil]

/-! ## Numerals in documents -/

namespace Numeral

/-- The parts of a numeral that may stand in a document: a leading zero stands alone, and digits
follow the mark of an exponent and nothing else. -/
structure WellFormed (n : Numeral) : Prop where
  whole_ne_nil : n.whole ≠ []
  whole_digits : ∀ c ∈ n.whole, c.isDigit = true
  leading_zero : n.whole.head? = some '0' → n.whole.length = 1
  fraction_digits : ∀ c ∈ n.fraction, c.isDigit = true
  power_digits : ∀ c ∈ n.power, c.isDigit = true
  exponent : n.mark = [] ∧ n.power = [] ∨
    n.mark ∈ [['e'], ['E'], ['e', '+'], ['E', '+'], ['e', '-'], ['E', '-']] ∧ n.power ≠ []

theorem WellFormed.withSign {n : Numeral} (h : n.WellFormed) (negative : Bool) :
    WellFormed { n with negative } := ⟨h.1, h.2, h.3, h.4, h.5, h.6⟩

theorem wellFormed_digits (negative : Bool) (n : ℕ) :
    WellFormed { negative, whole := Nat.toDigits 10 n } where
  whole_ne_nil := Nat.toDigits_ne_nil
  whole_digits _ h := isDigit_of_mem_toDigits h
  leading_zero h := by
    by_cases hn : n = 0
    · rw [hn, Nat.toDigits_zero]; rfl
    · exact absurd h (head?_toDigits hn)
  fraction_digits := by simp
  power_digits := by simp
  exponent := .inl ⟨rfl, rfl⟩

theorem wellFormed_ofNat (n : ℕ) : (ofNat n).WellFormed := wellFormed_digits false n

theorem wellFormed_ofInt (i : ℤ) : (ofInt i).WellFormed := wellFormed_digits _ _

/-! ## Whole numbers -/

theorem toInt?_ofNat {n : ℕ} (h : n < UInt64.size) : (ofNat n).toInt? = some (n : ℤ) := by
  simp [toInt?, ofNat, isWhole, digitsValue_toDigits, h]

theorem toInt?_ofInt {i : ℤ} (h₁ : Int64.minValue.toInt ≤ i) (h₂ : i ≤ Int64.maxValue.toInt) :
    (ofInt i).toInt? = some i := by
  have hmin : Int64.minValue.toInt = -9223372036854775808 := rfl
  have hmax : Int64.maxValue.toInt = 9223372036854775807 := rfl
  have hsize : UInt64.size = 18446744073709551616 := rfl
  rw [hmin] at h₁
  rw [hmax] at h₂
  simp only [toInt?, ofInt, isWhole, digitsValue_toDigits, List.isEmpty_nil, Bool.and_self,
    Bool.not_true, Bool.false_eq_true, if_false, decide_eq_true_eq, hmin, hsize]
  split
  · rw [if_pos (by omega)]
    exact congrArg some (by omega)
  · rw [if_pos (by omega)]
    exact congrArg some (by omega)

end Numeral

/-! ## Doubles -/

namespace Decimal

theorem rank_strip (d : Decimal) : d.strip.rank = d.rank := by
  unfold strip
  dsimp only
  split
  · rfl
  · set ds := Nat.toDigits 10 d.digits with hds
    set z := (ds.reverse.takeWhile (· == '0')).length with hz
    have hsplit : ds = (ds.reverse.dropWhile (· == '0')).reverse ++ List.replicate z '0' := by
      have hzeros : ds.reverse.takeWhile (· == '0') = List.replicate z '0' := by
        refine List.eq_replicate_of_mem fun c hc => ?_
        simpa using List.mem_takeWhile_imp hc
      have := congrArg List.reverse (List.takeWhile_append_dropWhile (p := (· == '0'))
        (l := ds.reverse))
      rw [List.reverse_append, List.reverse_reverse, hzeros, List.reverse_replicate] at this
      exact this.symm
    have hval : d.digits =
        digitsValue (ds.reverse.dropWhile (· == '0')).reverse * 10 ^ z := by
      rw [← digitsValue_append_zeros, ← hsplit, hds, digitsValue_toDigits]
    have hdvd : d.digits / tenTo z * 10 ^ z = d.digits := by
      rw [tenTo_eq]
      exact Nat.div_mul_cancel ⟨_, hval.trans (mul_comm _ _)⟩
    rw [← rank_mul_pow, hdvd]

theorem strip_digits_ne_zero {d : Decimal} (h : d.rank ≠ 0) : d.strip.digits ≠ 0 := fun h0 =>
  h (by rw [← rank_strip, rank, if_pos h0])

end Decimal

namespace Double

theorem rank_positional {ds : List Char} (hds : ds ≠ []) (point : ℤ) :
    (positional ds point).decimal.rank = Decimal.rank ⟨digitsValue ds, point - ds.length⟩ := by
  have hlen : 0 < ds.length := List.length_pos_iff.mpr hds
  unfold positional
  split
  · simp only [Numeral.decimal, List.cons_append, List.nil_append, List.length_append,
      List.length_replicate]
    rw [show ('0' :: (List.replicate (-point).toNat '0' ++ ds)) =
      List.replicate ((-point).toNat + 1) '0' ++ ds from rfl, digitsValue_zeros_append]
    congr 2
    simp [digitsValue]
    omega
  · split
    · rename_i hpos hle
      simp only [Numeral.decimal]
      rw [List.append_assoc, ← List.replicate_succ', digitsValue_append_zeros,
        Decimal.rank_mul_pow]
      congr 2
      simp [digitsValue]
      omega
    · simp only [Numeral.decimal, List.take_append_drop, List.length_drop]
      congr 2
      simp [digitsValue]
      omega

theorem rank_scientific {ds : List Char} (hds : ds ≠ []) (point : ℤ) :
    (scientific ds point).decimal.rank = Decimal.rank ⟨digitsValue ds, point - ds.length⟩ := by
  have hlen : 0 < ds.length := List.length_pos_iff.mpr hds
  simp only [scientific, Numeral.decimal, List.take_append_drop, digitsValue_toDigits,
    List.length_drop]
  congr 2
  by_cases hp : point < 1
  · rw [if_pos hp, if_pos (by decide)]
    omega
  · rw [if_neg hp, if_neg (by decide)]
    omega

theorem wellFormed_positional {ds : List Char} (hds : ds ≠ []) (hd : ∀ c ∈ ds, c.isDigit = true)
    (hz : ds.head? ≠ some '0') (point : ℤ) : (positional ds point).WellFormed := by
  unfold positional
  split
  · exact {
      whole_ne_nil := by simp
      whole_digits := by simp
      leading_zero := fun _ => rfl
      fraction_digits := fun c hc => by
        rcases List.mem_append.mp hc with h | h
        · rw [List.eq_of_mem_replicate h]; rfl
        · exact hd c h
      power_digits := by simp
      exponent := .inl ⟨rfl, rfl⟩ }
  · split
    · exact {
        whole_ne_nil := by simp [hds]
        whole_digits := fun c hc => by
          rcases List.mem_append.mp hc with h | h
          · exact hd c h
          · rw [List.eq_of_mem_replicate h]; rfl
        leading_zero := fun h => absurd
          ((List.head?_append_of_ne_nil ds hds).symm.trans h) hz
        fraction_digits := by simp
        power_digits := by simp
        exponent := .inl ⟨rfl, rfl⟩ }
    · exact {
        whole_ne_nil := by simp [hds]; omega
        whole_digits := fun c hc => hd c (List.mem_of_mem_take hc)
        leading_zero := fun h => by
          rw [List.head?_take, if_neg (by omega)] at h
          exact absurd h hz
        fraction_digits := fun c hc => hd c (List.mem_of_mem_drop hc)
        power_digits := by simp
        exponent := .inl ⟨rfl, rfl⟩ }

theorem wellFormed_scientific {ds : List Char} (hds : ds ≠ []) (hd : ∀ c ∈ ds, c.isDigit = true)
    (point : ℤ) : (scientific ds point).WellFormed where
  whole_ne_nil := by simp [scientific, hds]
  whole_digits c hc := hd c (List.mem_of_mem_take hc)
  leading_zero _ := by
    have := List.length_pos_iff.mpr hds
    simp [scientific]; omega
  fraction_digits c hc := hd c (List.mem_of_mem_drop hc)
  power_digits c hc := isDigit_of_mem_toDigits hc
  exponent := .inr ⟨by unfold scientific; dsimp only; split_ifs <;> simp, Nat.toDigits_ne_nil⟩

theorem wellFormed_numeral {x : Double} (hx : x.isFinite = true) : x.numeral.WellFormed := by
  unfold numeral
  split
  · exact ⟨by simp, by simp, by simp, by simp, by simp, .inl ⟨rfl, rfl⟩⟩
  · rename_i h0
    set d := (Decimal.shortest x).strip with hd
    have hne : d.digits ≠ 0 := Decimal.strip_digits_ne_zero (by
      rw [Decimal.rank_shortest hx]
      simpa [isZero] using h0)
    have hds : Nat.toDigits 10 d.digits ≠ [] := Nat.toDigits_ne_nil
    have hdig : ∀ c ∈ Nat.toDigits 10 d.digits, c.isDigit = true := fun c =>
      isDigit_of_mem_toDigits
    dsimp only
    split
    · exact (wellFormed_positional hds hdig (head?_toDigits hne) _).withSign _
    · exact (wellFormed_scientific hds hdig _).withSign _

/-- **The numeral of a finite double is read as that double.** -/
theorem toDouble?_numeral {x : Double} (hx : x.isFinite = true) :
    x.numeral.toDouble? = some x := by
  have hlt : x.rank < infinityRank := of_decide_eq_true hx
  have key : x.numeral.decimal.rank = x.rank ∧ x.numeral.negative = x.negative := by
    unfold numeral
    split
    · rename_i h0
      exact ⟨(eq_of_beq h0).symm, rfl⟩
    · refine ⟨Eq.trans ?_ ((Decimal.rank_strip _).trans (Decimal.rank_shortest hx)), rfl⟩
      set d := (Decimal.shortest x).strip with hd
      have hds : Nat.toDigits 10 d.digits ≠ [] := Nat.toDigits_ne_nil
      have hback : Decimal.rank ⟨digitsValue (Nat.toDigits 10 d.digits),
          ((Nat.toDigits 10 d.digits).length + d.exponent) - (Nat.toDigits 10 d.digits).length⟩ =
          d.rank := by
        rw [digitsValue_toDigits, add_sub_cancel_left]
      dsimp only
      split
      · exact (rank_positional hds _).trans hback
      · exact (rank_scientific hds _).trans hback
  rw [Numeral.toDouble?, key.1, if_neg (by omega), key.2, ofRank_rank]

end Double

end Telemetry
