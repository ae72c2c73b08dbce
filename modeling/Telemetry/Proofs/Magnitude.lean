import Mathlib.Data.Nat.Log
import Mathlib.Tactic.Positivity
import Telemetry.Proofs.Rounding

/-!
# The order of doubles

Rounding keeps the order of fractions, and it moves a fraction by half a unit in the last place at
most. So the ranks of finite doubles are ordered as their magnitudes are, a product grows with its
factors, and a fraction that is nearer to a double than half of its last place rounds to it.

* `roundHalfEven_mono`, **`Double.rankOfRatio_mono`**: rounding keeps the order;
* `Double.rank_le_rank`: ranks and magnitudes are ordered alike;
* `Double.units_ofRatio`, `Double.ofRatio_close`: the magnitude of a rounded fraction, and how far
  it is from the fraction;
* `Double.units_ofNat`: numbers of 53 bits are not rounded;
* **`Double.rankOfRatio_of_near`**: what is next to a double rounds to it;
* `Double.add_eq`, `Double.add_close`, `Double.mul_eq`: sums and products of finite doubles.
-/

namespace Telemetry

/-! ## Rounding to a whole number -/

theorem roundHalfEven_mono {n m : ℕ} (d : ℕ) (h : n ≤ m) :
    roundHalfEven n d ≤ roundHalfEven m d := by
  have hdiv : n / d ≤ m / d := Nat.div_le_div_right h
  have hn := Nat.div_add_mod n d
  have hm := Nat.div_add_mod m d
  rcases hdiv.eq_or_lt with heq | hlt
  · -- the same whole part, so the remainders decide
    rw [heq] at hn
    unfold roundHalfEven
    dsimp only
    rw [heq]
    split_ifs <;> omega
  · refine le_trans ?_ (Nat.le_trans hlt (div_le_roundHalfEven m d))
    unfold roundHalfEven
    dsimp only
    split_ifs <;> omega

theorem mul_roundHalfEven_le (n : ℕ) {d : ℕ} (hd : 0 < d) :
    2 * (roundHalfEven n d * d) ≤ 2 * n + d := by
  have hn := Nat.div_add_mod' n d
  have hr := Nat.mod_lt n hd
  unfold roundHalfEven
  dsimp only
  split_ifs with h₁ h₂
  · omega
  · rw [Nat.add_mul]
    omega
  · rcases Nat.mod_two_eq_zero_or_one (n / d) with h | h <;> rw [h, Nat.add_mul] <;> omega

theorem le_mul_roundHalfEven (n : ℕ) {d : ℕ} (hd : 0 < d) :
    2 * n ≤ 2 * (roundHalfEven n d * d) + d := by
  have hn := Nat.div_add_mod' n d
  have hr := Nat.mod_lt n hd
  unfold roundHalfEven
  dsimp only
  split_ifs with h₁ h₂
  · omega
  · rw [Nat.add_mul]
    omega
  · rw [Nat.add_mul]
    omega

theorem roundHalfEven_eq {n d m : ℕ} (h₁ : 2 * n < 2 * (m * d) + d) (h₂ : 2 * (m * d) < 2 * n + d) :
    roundHalfEven n d = m := by
  have hd : 0 < d := by omega
  have hup := mul_roundHalfEven_le n hd
  have hdown := le_mul_roundHalfEven n hd
  have hle : roundHalfEven n d * d < (m + 1) * d := by rw [Nat.add_mul]; omega
  have hge : m * d < (roundHalfEven n d + 1) * d := by rw [Nat.add_mul]; omega
  have := Nat.lt_of_mul_lt_mul_right hle
  have := Nat.lt_of_mul_lt_mul_right hge
  omega

namespace Double

/-! ## The order of ranks -/

theorem fieldWeight_eq : fieldWeight = 2 ^ 52 := by decide

/-- The place at which a fraction is rounded. -/
def placeOfRatio (num den : ℕ) : ℕ := (num * 2 ^ 1074 / den).log2 - 52

/-- The significand to which a fraction is rounded. -/
def mantissaOfRatio (num den : ℕ) : ℕ :=
  roundHalfEven (num * 2 ^ 1074) (den * 2 ^ placeOfRatio num den)

theorem rankOfRatio_eq (num den : ℕ) : rankOfRatio num den =
    min infinityRank (placeOfRatio num den * fieldWeight + mantissaOfRatio num den) := by
  rw [mantissaOfRatio, placeOfRatio, ← shiftLeft_eq_mul, ← shiftLeft_eq_mul]
  rfl

theorem rankOfRatio_le (num den : ℕ) : rankOfRatio num den ≤ infinityRank := by
  rw [rankOfRatio_eq]
  exact Nat.min_le_left _ _

theorem rank_ofRatio (s : Bool) (num den : ℕ) : (ofRatio s num den).rank = rankOfRatio num den := by
  rw [ofRatio, rank_ofRank]
  exact Nat.mod_eq_of_lt (lt_of_le_of_lt (rankOfRatio_le num den) (by decide))

variable {num den : ℕ}

/-- A significand has 53 bits at most, or is the next power of two. -/
theorem mantissaOfRatio_le (num : ℕ) (hd : 0 < den) : mantissaOfRatio num den ≤ 2 ^ 53 := by
  have hlog : num * 2 ^ 1074 / den < 2 ^ 53 * 2 ^ placeOfRatio num den := by
    rw [← pow_add]
    refine lt_of_lt_of_le Nat.lt_log2_self (Nat.pow_le_pow_right (by decide) ?_)
    rw [placeOfRatio]
    omega
  have hlt : num * 2 ^ 1074 ≤ 2 ^ 53 * (den * 2 ^ placeOfRatio num den) := by
    rw [mul_left_comm, mul_comm den]
    exact ((Nat.div_lt_iff_lt_mul hd).mp hlog).le
  have := roundHalfEven_mono (den * 2 ^ placeOfRatio num den) hlt
  rwa [roundHalfEven_mul _ (Nat.mul_pos hd (Nat.two_pow_pos _))] at this

theorem le_mantissaOfRatio (hd : 0 < den) (hp : placeOfRatio num den ≠ 0) :
    2 ^ 52 ≤ mantissaOfRatio num den := by
  have hne : num * 2 ^ 1074 / den ≠ 0 := by
    intro h
    rw [placeOfRatio, h] at hp
    exact hp rfl
  have hplace : 52 + placeOfRatio num den = (num * 2 ^ 1074 / den).log2 := by
    rw [placeOfRatio] at hp ⊢
    omega
  have hlog : 2 ^ 52 * 2 ^ placeOfRatio num den ≤ num * 2 ^ 1074 / den := by
    rw [← pow_add, hplace]
    exact Nat.log2_self_le hne
  have hle : 2 ^ 52 * (den * 2 ^ placeOfRatio num den) ≤ num * 2 ^ 1074 := by
    rw [mul_left_comm, mul_comm den]
    exact (Nat.le_div_iff_mul_le hd).mp hlog
  have := roundHalfEven_mono (den * 2 ^ placeOfRatio num den) hle
  rwa [roundHalfEven_mul _ (Nat.mul_pos hd (Nat.two_pow_pos _))] at this

theorem placeOfRatio_mono {num' : ℕ} (den : ℕ) (h : num ≤ num') :
    placeOfRatio num den ≤ placeOfRatio num' den := by
  rw [placeOfRatio, placeOfRatio, Nat.log2_eq_log_two, Nat.log2_eq_log_two]
  have hquot := Nat.div_le_div_right (c := den) (Nat.mul_le_mul_right (2 ^ 1074) h)
  exact Nat.sub_le_sub_right (Nat.log_mono_right hquot) 52

theorem rankOfRatio_mono_left {num' : ℕ} (hd : 0 < den) (h : num ≤ num') :
    rankOfRatio num den ≤ rankOfRatio num' den := by
  rw [rankOfRatio_eq, rankOfRatio_eq]
  refine min_le_min_left _ ?_
  have hnum : num * 2 ^ 1074 ≤ num' * 2 ^ 1074 := Nat.mul_le_mul_right _ h
  rcases (placeOfRatio_mono den h).eq_or_lt with heq | hlt
  · rw [mantissaOfRatio, mantissaOfRatio, heq]
    exact Nat.add_le_add_left (roundHalfEven_mono _ hnum) _
  · -- the larger fraction has a place more, which is worth a whole field
    have hup := mantissaOfRatio_le num hd
    have hdown : 2 ^ 52 ≤ mantissaOfRatio num' den := le_mantissaOfRatio hd (by omega)
    rw [fieldWeight_eq]
    have := Nat.mul_le_mul_right (2 ^ 52) hlt
    omega

/-- **A larger fraction does not round to a smaller double.** -/
theorem rankOfRatio_mono {n₁ d₁ n₂ d₂ : ℕ} (h₁ : 0 < d₁) (h₂ : 0 < d₂) (h : n₁ * d₂ ≤ n₂ * d₁) :
    rankOfRatio n₁ d₁ ≤ rankOfRatio n₂ d₂ := by
  rw [← rankOfRatio_mul_right n₁ d₁ h₂, ← rankOfRatio_mul_right n₂ d₂ h₁, mul_comm d₂ d₁]
  exact rankOfRatio_mono_left (Nat.mul_pos h₁ h₂) h

/-! ## Magnitudes -/

theorem isFinite_iff {x : Double} : x.isFinite = true ↔ x.rank < infinityRank := decide_eq_true_iff

theorem units_congr {x y : Double} (h : x.rank = y.rank) : x.units = y.units := by
  unfold units mantissa place
  rw [h]

/-- A rank that is given by a place and a significand, which may be the next power of two. -/
theorem units_of_rank {x : Double} {p m : ℕ} (h : x.rank = p * fieldWeight + m) (hm : m ≤ 2 ^ 53)
    (hp : p = 0 ∨ 2 ^ 52 ≤ m) : x.units = m * 2 ^ p := by
  have hf := fieldWeight_eq
  rw [units, shiftLeft_eq_mul]
  by_cases hsmall : m < 2 ^ 52
  · obtain rfl : p = 0 := hp.resolve_right (by omega)
    have hfield : x.rank / fieldWeight = 0 := Nat.div_eq_of_lt (by omega)
    rw [mantissa, place, hfield, if_pos rfl, h, zero_mul, zero_add]
  · by_cases hcarry : m = 2 ^ 53
    · have hrank : x.rank = (p + 2) * fieldWeight := by rw [h, hcarry, hf]; omega
      have hfield : x.rank / fieldWeight = p + 2 := by
        rw [hrank, Nat.mul_div_cancel _ (by decide)]
      rw [mantissa, place, hfield, if_neg (Nat.succ_ne_zero _), hrank, Nat.mul_mod_left, zero_add,
        hf, hcarry, Nat.add_sub_assoc (by decide), ← pow_add, ← pow_add]
      congr 1
      omega
    · have hrank : x.rank = m - fieldWeight + (p + 1) * fieldWeight := by
        rw [h, Nat.add_mul]
        omega
      have hlt : m - fieldWeight < fieldWeight := by omega
      have hfield : x.rank / fieldWeight = p + 1 := by
        rw [hrank, Nat.add_mul_div_right _ _ (by decide), Nat.div_eq_of_lt hlt, zero_add]
      rw [mantissa, place, hfield, if_neg (Nat.succ_ne_zero _), hrank, Nat.add_mul_mod_self_right,
        Nat.mod_eq_of_lt hlt, Nat.sub_add_cancel (by omega), Nat.add_sub_cancel]

theorem rank_le_rank {x y : Double} (hx : x.isFinite = true) (hy : y.isFinite = true) :
    x.rank ≤ y.rank ↔ x.units ≤ y.units := by
  have hmono : ∀ {a b : Double}, a.isFinite = true → b.isFinite = true → a.units ≤ b.units →
      a.rank ≤ b.rank := by
    intro a b ha hb hab
    rw [← rankOfRatio_units ha, ← rankOfRatio_units hb]
    exact rankOfRatio_mono_left (by positivity) hab
  refine ⟨fun h => ?_, hmono hx hy⟩
  by_contra hlt
  have heq : x.rank = y.rank := le_antisymm h (hmono hy hx (by omega))
  exact hlt (units_congr heq).le

/-! ## How close a rounded fraction is -/

theorem units_ofRatio {s : Bool} (hd : 0 < den) (h : rankOfRatio num den < infinityRank) :
    (ofRatio s num den).units = mantissaOfRatio num den * 2 ^ placeOfRatio num den := by
  have hrank := rankOfRatio_eq num den
  rw [min_eq_right (by omega)] at hrank
  refine units_of_rank (by rw [rank_ofRatio, hrank]) (mantissaOfRatio_le _ hd) ?_
  by_cases hp : placeOfRatio num den = 0
  · exact .inl hp
  · exact .inr (le_mantissaOfRatio hd hp)

theorem placeOfRatio_le {k : ℕ} (h : num * 2 ^ 1074 < den * 2 ^ (53 + k)) :
    placeOfRatio num den ≤ k := by
  have hlt : num * 2 ^ 1074 / den < 2 ^ (53 + k) := Nat.div_lt_of_lt_mul h
  rw [placeOfRatio]
  by_cases hzero : num * 2 ^ 1074 / den = 0
  · rw [hzero, Nat.log2_zero]
    exact Nat.zero_le k
  · have := (Nat.log2_lt hzero).mpr hlt
    omega

theorem rankOfRatio_lt {k : ℕ} (hd : 0 < den) (hk : k < 2045)
    (h : num * 2 ^ 1074 < den * 2 ^ (53 + k)) : rankOfRatio num den < infinityRank := by
  have hplace : placeOfRatio num den ≤ 2044 := (placeOfRatio_le h).trans (Nat.le_of_lt_succ hk)
  have hmantissa := mantissaOfRatio_le num hd
  clear h
  rw [rankOfRatio_eq, infinityRank, fieldWeight_eq]
  omega

/-- A rounded fraction below `2 ^ (k + 53)` units is off by half of `2 ^ k` units at most. -/
theorem ofRatio_close {s : Bool} {k : ℕ} (hd : 0 < den) (hk : k < 2045)
    (h : num * 2 ^ 1074 < den * 2 ^ (53 + k)) :
    2 * ((ofRatio s num den).units * den) ≤ 2 * (num * 2 ^ 1074) + den * 2 ^ k ∧
      2 * (num * 2 ^ 1074) ≤ 2 * ((ofRatio s num den).units * den) + den * 2 ^ k := by
  have hpos : 0 < den * 2 ^ placeOfRatio num den := Nat.mul_pos hd (Nat.two_pow_pos _)
  have hunits : (ofRatio s num den).units * den =
      mantissaOfRatio num den * (den * 2 ^ placeOfRatio num den) := by
    rw [units_ofRatio hd (rankOfRatio_lt hd hk h), mul_assoc, mul_comm den]
  have hplace : den * 2 ^ placeOfRatio num den ≤ den * 2 ^ k :=
    Nat.mul_le_mul_left _ (Nat.pow_le_pow_right (by decide) (placeOfRatio_le h))
  rw [hunits]
  exact ⟨(mul_roundHalfEven_le _ hpos).trans (Nat.add_le_add_left hplace _),
    (le_mul_roundHalfEven _ hpos).trans (Nat.add_le_add_left hplace _)⟩

theorem units_ofNat {n : ℕ} (h : n < 2 ^ 53) : (ofNat n).units = n * 2 ^ 1074 := by
  have hsmall : n * 2 ^ 1074 < 1 * 2 ^ (53 + 1074) := by
    rw [one_mul, pow_add]
    exact Nat.mul_lt_mul_of_pos_right h (by positivity)
  have hplace := placeOfRatio_le hsmall
  have hsplit : n * 2 ^ 1074 = n * 2 ^ (1074 - placeOfRatio n 1) * 2 ^ placeOfRatio n 1 := by
    rw [mul_assoc, ← pow_add, Nat.sub_add_cancel hplace]
  rw [ofNat, units_ofRatio Nat.one_pos (rankOfRatio_lt Nat.one_pos (by decide) hsmall),
    mantissaOfRatio, one_mul, hsplit, roundHalfEven_mul _ (Nat.two_pow_pos _)]

/-- **What is nearer to a double than half of its last place rounds to it.** Below a power of two
the places are narrower. -/
theorem rankOfRatio_of_near {x : Double} (hx : x.isFinite = true) {n : ℕ}
    (habove : 2 * n < 2 * x.units + 2 ^ x.place) (hbelow : 2 * x.units < 2 * n + 2 ^ x.place)
    (h : x.units ≤ n ∨ x.mantissa ≠ 2 ^ 52) : rankOfRatio n (2 ^ 1074) = x.rank := by
  have hunits : x.units = x.mantissa * 2 ^ x.place := by rw [units, shiftLeft_eq_mul]
  rcases x.mantissa_place with hp | hm
  · rw [hp, pow_zero] at habove hbelow
    obtain rfl : n = x.units := by omega
    exact rankOfRatio_units hx
  · rw [hunits] at habove hbelow h
    have hlt : n < 2 ^ 53 * 2 ^ x.place := by
      have := Nat.mul_le_mul_right (2 ^ x.place) x.mantissa_lt
      rw [Nat.succ_mul] at this
      omega
    have hge : 2 ^ 52 * 2 ^ x.place ≤ n := by
      rcases h with hle | hne
      · exact le_trans (Nat.mul_le_mul_right _ hm) hle
      · have := Nat.mul_le_mul_right (2 ^ x.place) (show 2 ^ 52 + 1 ≤ x.mantissa by omega)
        rw [Nat.add_mul, one_mul] at this
        omega
    have hplace : placeOfRatio n (2 ^ 1074) = x.place := by
      have hne : n ≠ 0 := by
        have := Nat.mul_pos (Nat.two_pow_pos 52) (Nat.two_pow_pos x.place)
        omega
      rw [placeOfRatio, Nat.mul_div_cancel _ (Nat.two_pow_pos _),
        (Nat.log2_eq_iff hne (k := 52 + x.place)).mpr ⟨by rwa [pow_add], by
          rwa [show 52 + x.place + 1 = 53 + x.place by omega, pow_add]⟩, Nat.add_sub_cancel_left]
    have hmantissa : mantissaOfRatio n (2 ^ 1074) = x.mantissa := by
      rw [mantissaOfRatio, hplace, mul_comm (2 ^ 1074), roundHalfEven_mul_right _ _
        (Nat.two_pow_pos _)]
      exact roundHalfEven_eq habove hbelow
    rw [rankOfRatio_eq, hplace, hmantissa, ← rank_eq]
    exact min_eq_right (isFinite_iff.mp hx).le

theorem units_lt (x : Double) : x.units < 2 ^ (53 + x.place) := by
  rw [units, shiftLeft_eq_mul, pow_add]
  exact Nat.mul_lt_mul_of_pos_right x.mantissa_lt (Nat.two_pow_pos _)

/-! ## Sums and products -/

variable {a b : Double}

theorem isNaN_of_isFinite (ha : a.isFinite = true) : a.isNaN = false :=
  decide_eq_false (isFinite_iff.mp ha).asymm

theorem isInfinite_of_isFinite (ha : a.isFinite = true) : a.isInfinite = false :=
  beq_false_of_ne (isFinite_iff.mp ha).ne

theorem add_eq (ha : a.isFinite = true) (hb : b.isFinite = true) :
    a.add b = ofRatio false (a.units + b.units) (2 ^ 1074) := by
  rw [add, isNaN_of_isFinite ha, isNaN_of_isFinite hb, isInfinite_of_isFinite ha,
    isInfinite_of_isFinite hb, Bool.or_self, if_neg Bool.false_ne_true, if_neg Bool.false_ne_true,
    shiftLeft_eq_mul, one_mul]

theorem add_close {k : ℕ} (ha : a.isFinite = true) (hb : b.isFinite = true) (hk : k < 2045)
    (h : a.units + b.units < 2 ^ (53 + k)) :
    2 * (a.add b).units ≤ 2 * (a.units + b.units) + 2 ^ k ∧
      2 * (a.units + b.units) ≤ 2 * (a.add b).units + 2 ^ k := by
  have hpos : 0 < 2 ^ 1074 := by positivity
  have hlt : (a.units + b.units) * 2 ^ 1074 < 2 ^ 1074 * 2 ^ (53 + k) := by
    rw [mul_comm]
    exact Nat.mul_lt_mul_of_pos_left h hpos
  have hclose := ofRatio_close (s := false) hpos hk hlt
  rw [← add_eq ha hb, mul_comm (2 ^ 1074), ← mul_assoc, ← mul_assoc, ← Nat.add_mul,
    ← Nat.add_mul] at hclose
  exact ⟨Nat.le_of_mul_le_mul_right hclose.1 hpos, Nat.le_of_mul_le_mul_right hclose.2 hpos⟩

theorem mul_eq (ha : a.isFinite = true) (hb : b.isFinite = true) :
    a.mul b = ofRatio (a.negative != b.negative) (a.units * b.units) (2 ^ 2148) := by
  unfold mul
  rw [isNaN_of_isFinite ha, isNaN_of_isFinite hb, isInfinite_of_isFinite ha,
    isInfinite_of_isFinite hb, Bool.or_self, if_neg Bool.false_ne_true, if_neg Bool.false_ne_true,
    shiftLeft_eq_mul, one_mul]

end Double

end Telemetry
