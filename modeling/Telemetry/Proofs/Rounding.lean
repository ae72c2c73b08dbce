import Mathlib.Tactic.Ring
import Mathlib.Tactic.Positivity
import Telemetry.Numeral

/-!
# Rounding fractions to doubles

The rank of the double nearest to a fraction depends on the value of the fraction only, and a finite
double is nearest to its own magnitude. The same then holds of decimals, whose two cut-offs for very
large and very small ones change nothing.

* `roundHalfEven_mul_right`, `Double.rankOfRatio_congr`: equal fractions round alike;
* **`Double.rankOfRatio_units`**: the magnitude of a finite double rounds to that double;
* `Decimal.rank_eq`: a decimal rounds like the fraction that it stands for;
* **`Decimal.rank_shortest`**: the shortest digits of a finite double read back as that double.
-/

namespace Telemetry

/-! ## Rounding to a whole number -/

/-- The power is that of the monoid. It takes the place of the built-in one here, where the exponent
is a variable, since of large literals both would be computed. -/
theorem shiftLeft_eq_mul (n k : ℕ) : n <<< k = n * 2 ^ k := Nat.shiftLeft_eq n k

theorem roundHalfEven_mul_right (n d : ℕ) {k : ℕ} (hk : 0 < k) :
    roundHalfEven (n * k) (d * k) = roundHalfEven n d := by
  have h₁ : 2 * (n % d * k) < d * k ↔ 2 * (n % d) < d := by
    rw [← mul_assoc]; exact Nat.mul_lt_mul_right hk
  have h₂ : d * k < 2 * (n % d * k) ↔ d < 2 * (n % d) := by
    rw [← mul_assoc]; exact Nat.mul_lt_mul_right hk
  simp only [roundHalfEven, Nat.mul_div_mul_right _ _ hk, Nat.mul_mod_mul_right, h₁, h₂]

theorem roundHalfEven_mul (m : ℕ) {d : ℕ} (hd : 0 < d) : roundHalfEven (m * d) d = m := by
  simp [roundHalfEven, Nat.mul_div_cancel _ hd, hd]

theorem div_le_roundHalfEven (n d : ℕ) : n / d ≤ roundHalfEven n d := by
  unfold roundHalfEven
  dsimp only
  split_ifs <;> omega

theorem roundHalfEven_of_lt {n d : ℕ} (h : 2 * n < d) : roundHalfEven n d = 0 := by
  have hn : n < d := by omega
  simp [roundHalfEven, Nat.div_eq_of_lt hn, Nat.mod_eq_of_lt hn, h]

namespace Double

/-! ## The rank of a fraction -/

theorem rankOfRatio_mul_right (num den : ℕ) {k : ℕ} (hk : 0 < k) :
    rankOfRatio (num * k) (den * k) = rankOfRatio num den := by
  have h : ∀ n p : ℕ, (n * k) <<< p = (n <<< p) * k := fun n p => by
    rw [shiftLeft_eq_mul, shiftLeft_eq_mul, mul_right_comm]
  unfold rankOfRatio
  dsimp only
  rw [h, Nat.mul_div_mul_right _ _ hk, h, roundHalfEven_mul_right _ _ hk]

theorem rankOfRatio_congr {n₁ d₁ n₂ d₂ : ℕ} (h₁ : 0 < d₁) (h₂ : 0 < d₂)
    (h : n₁ * d₂ = n₂ * d₁) : rankOfRatio n₁ d₁ = rankOfRatio n₂ d₂ := by
  rw [← rankOfRatio_mul_right n₁ d₁ h₂, h, mul_comm d₁ d₂, rankOfRatio_mul_right n₂ d₂ h₁]

theorem rankOfRatio_of_large {num den : ℕ} (hd : 0 < den) (h : den * 2 ^ 1024 ≤ num) :
    rankOfRatio num den = infinityRank := by
  unfold rankOfRatio
  dsimp only
  rw [shiftLeft_eq_mul]
  set q := num * 2 ^ 1074 / den with hq
  rw [shiftLeft_eq_mul]
  obtain ⟨k, hk⟩ : ∃ k, 1024 + 1074 = k := ⟨_, rfl⟩
  have hle : 2 ^ k ≤ q := by
    rw [hq, Nat.le_div_iff_mul_le hd]
    calc 2 ^ k * den = den * 2 ^ 1024 * 2 ^ 1074 := by rw [mul_assoc, ← pow_add, hk, mul_comm]
      _ ≤ num * 2 ^ 1074 := Nat.mul_le_mul_right _ h
  have hne : q ≠ 0 := ((Nat.two_pow_pos k).trans_le hle).ne'
  have hlog : k ≤ q.log2 := (Nat.le_log2 hne).mpr hle
  have hmant : 2 ^ 52 ≤ roundHalfEven (num * 2 ^ 1074) (den * 2 ^ (q.log2 - 52)) := by
    refine le_trans ?_ (div_le_roundHalfEven _ _)
    rw [← Nat.div_div_eq_div_mul, ← hq, Nat.le_div_iff_mul_le (Nat.two_pow_pos _), ← pow_add,
      show 52 + (q.log2 - 52) = q.log2 by omega]
    exact Nat.log2_self_le hne
  have hfield : fieldWeight = 2 ^ 52 := by decide
  have hplace : 2046 * fieldWeight ≤ (q.log2 - 52) * fieldWeight :=
    Nat.mul_le_mul_right _ (by omega)
  refine Nat.min_eq_left ?_
  rw [← hfield] at hmant
  unfold infinityRank
  omega

theorem rankOfRatio_of_small {num den : ℕ} (h : num * 2 ^ 1100 < den) :
    rankOfRatio num den = 0 := by
  have hshift : ∀ k, 2 * num <<< k = num * 2 ^ (k + 1) := fun k => by
    rw [shiftLeft_eq_mul, mul_left_comm, ← pow_succ']
  have h' : 2 * num <<< 1074 < den := by
    refine lt_of_le_of_lt ?_ h
    rw [hshift]
    exact Nat.mul_le_mul_left _ (pow_le_pow_right₀ (by decide) (by decide))
  have hq : num <<< 1074 / den = 0 := Nat.div_eq_of_lt (by omega)
  unfold rankOfRatio
  dsimp only
  rw [hq, Nat.log2_zero, Nat.zero_sub, zero_mul, zero_add, Nat.shiftLeft_zero,
    roundHalfEven_of_lt h', Nat.min_zero]

theorem rankOfRatio_zero (den : ℕ) : rankOfRatio 0 den = 0 := by
  simp [rankOfRatio, roundHalfEven]

/-! ## Doubles are nearest to themselves -/

theorem mantissa_lt (x : Double) : x.mantissa < 2 ^ 53 := by
  have hf : fieldWeight = 2 ^ 52 := by decide
  have hpos : 0 < fieldWeight := by decide
  unfold mantissa
  split
  · rename_i h
    have := (Nat.div_eq_zero_iff_lt hpos).mp h
    omega
  · have := Nat.mod_lt x.rank hpos
    omega

theorem mantissa_place (x : Double) : x.place = 0 ∨ 2 ^ 52 ≤ x.mantissa := by
  have hf : fieldWeight = 2 ^ 52 := by decide
  unfold mantissa place
  split
  · rename_i h
    exact .inl (by rw [h])
  · exact .inr (by omega)

theorem log2_units (x : Double) : x.units.log2 - 52 = x.place := by
  have hlt := x.mantissa_lt
  rw [units, shiftLeft_eq_mul]
  rcases x.mantissa_place with hp | hm
  · rw [hp, pow_zero, mul_one]
    by_cases h0 : x.mantissa = 0
    · simp [h0]
    · have := (Nat.log2_lt h0).mpr hlt
      omega
  · have hne : x.mantissa * 2 ^ x.place ≠ 0 := by positivity
    have : (x.mantissa * 2 ^ x.place).log2 = 52 + x.place := by
      rw [Nat.log2_eq_iff hne, pow_add, show 52 + x.place + 1 = 53 + x.place by omega, pow_add]
      exact ⟨Nat.mul_le_mul_right _ hm, Nat.mul_lt_mul_of_pos_right hlt (Nat.two_pow_pos _)⟩
    omega

/-- **The magnitude of a finite double rounds to that double.** -/
theorem rankOfRatio_units {x : Double} (hx : x.isFinite = true) :
    rankOfRatio x.units (2 ^ 1074) = x.rank := by
  have hq : x.units * 2 ^ 1074 / 2 ^ 1074 = x.units := Nat.mul_div_cancel _ (by positivity)
  have hm : roundHalfEven (x.units * 2 ^ 1074) (2 ^ 1074 * 2 ^ x.place) = x.mantissa := by
    rw [units, shiftLeft_eq_mul, mul_assoc, mul_comm (2 ^ x.place)]
    exact roundHalfEven_mul _ (by positivity)
  have hlt : x.rank < infinityRank := of_decide_eq_true hx
  unfold rankOfRatio
  dsimp only
  rw [shiftLeft_eq_mul x.units, hq, log2_units, shiftLeft_eq_mul, hm, ← rank_eq]
  exact Nat.min_eq_right hlt.le

end Double

/-! ## Decimals -/

theorem tenTo_eq (n : ℕ) : tenTo n = 10 ^ n := rfl

theorem two_pow_le_ten_pow (n : ℕ) : 2 ^ (3 * n) ≤ 10 ^ n := by
  rw [pow_mul]
  exact Nat.pow_le_pow_left (by decide) _

namespace Decimal

/-- The cut-offs agree with rounding the fraction that the decimal stands for. -/
theorem rank_eq (d : Decimal) :
    d.rank = Double.rankOfRatio (d.digits * 10 ^ d.exponent.toNat) (10 ^ (-d.exponent).toNat) := by
  unfold rank
  split
  · rename_i h
    rw [h, zero_mul, Double.rankOfRatio_zero]
  · rename_i hne
    split
    · rename_i hlarge
      symm
      rw [show (-d.exponent).toNat = 0 by omega, pow_zero]
      refine Double.rankOfRatio_of_large Nat.one_pos ?_
      refine Nat.mul_le_mul (Nat.one_le_iff_ne_zero.mpr hne) ?_
      refine le_trans ?_ (two_pow_le_ten_pow _)
      exact pow_le_pow_right₀ (by decide) (by omega)
    · split
      · rename_i hsmall
        symm
        rw [show d.exponent.toNat = 0 by omega, pow_zero, mul_one]
        refine Double.rankOfRatio_of_small ?_
        have hk : d.digits.log2 + 1 + 1100 ≤ 3 * (-d.exponent).toNat := by omega
        calc d.digits * 2 ^ 1100 < 2 ^ (d.digits.log2 + 1) * 2 ^ 1100 :=
              Nat.mul_lt_mul_of_pos_right Nat.lt_log2_self (by positivity)
          _ = 2 ^ (d.digits.log2 + 1 + 1100) := (pow_add _ _ _).symm
          _ ≤ 2 ^ (3 * (-d.exponent).toNat) := pow_le_pow_right₀ (by decide) hk
          _ ≤ 10 ^ (-d.exponent).toNat := two_pow_le_ten_pow _
      · split
        · rename_i hpos
          rw [show (-d.exponent).toNat = 0 by omega, pow_zero, tenTo_eq]
        · rename_i hneg
          rw [show d.exponent.toNat = 0 by omega, pow_zero, mul_one, tenTo_eq]

theorem rank_mul_pow (m z : ℕ) (e : ℤ) : rank ⟨m * 10 ^ z, e⟩ = rank ⟨m, e + z⟩ := by
  rw [rank_eq, rank_eq]
  refine Double.rankOfRatio_congr (by positivity) (by positivity) ?_
  dsimp only
  have h : z + e.toNat + (-(e + z)).toNat = (e + z).toNat + (-e).toNat := by omega
  rw [mul_assoc, mul_assoc, mul_assoc, ← pow_add, ← pow_add, ← pow_add, ← add_assoc, h]

theorem rank_exact {x : Double} (hx : x.isFinite = true) :
    (exact x.mantissa x.place).rank = x.rank := by
  rw [rank_eq, ← Double.rankOfRatio_units hx, Double.units, shiftLeft_eq_mul]
  refine Double.rankOfRatio_congr (by positivity) (by positivity) ?_
  unfold exact
  split
  · rename_i hp
    rw [Int.toNat_zero, neg_zero, Int.toNat_zero, pow_zero, mul_one, mul_one, shiftLeft_eq_mul,
      mul_assoc, ← pow_add, Nat.sub_add_cancel hp]
  · rename_i hp
    simp only [neg_neg, Int.toNat_natCast, Int.toNat_neg_natCast, pow_zero, mul_one]
    change x.mantissa * 5 ^ (1074 - x.place) * 2 ^ 1074 = _
    have h10 : (10 : ℕ) ^ (1074 - x.place) = 5 ^ (1074 - x.place) * 2 ^ (1074 - x.place) :=
      mul_pow 5 2 _
    have h2 : (2 : ℕ) ^ 1074 = 2 ^ x.place * 2 ^ (1074 - x.place) := by
      rw [← pow_add]; congr 1; omega
    rw [h10, h2]
    ring

/-- **The shortest digits of a finite double read back as that double.** -/
theorem rank_shortest {x : Double} (hx : x.isFinite = true) : (shortest x).rank = x.rank := by
  unfold shortest
  dsimp only
  generalize hl : ((List.range 17).flatMap fun n : ℕ =>
    neighbours x.units (1 <<< 1074) (magnitude x.units (1 <<< 1074) - 1 - (n : ℤ))) = l
  cases hf : l.find? fun d => d.rank == x.rank with
  | none => exact rank_exact hx
  | some d =>
    have h := List.find?_some hf
    exact eq_of_beq h

end Decimal

end Telemetry
