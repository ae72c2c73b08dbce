import Telemetry.Duration
import Telemetry.Proofs.Magnitude

/-!
# Durations as doubles

To be scaled, a duration is turned to seconds, which are rounded three times: as whole seconds, as
the fraction of a second, and as their sum. This keeps the order of durations, and going back to
nanoseconds undoes it below `2 ^ 23` seconds. Above, nanoseconds are lost, but what comes back has
the same seconds. So scaling keeps the order as well, and a factor of one or more does not shorten a
duration by more than this.

* `Duration.Representable`, `Duration.IsFactor`, `Duration.Fits`: durations with a 64-bit number of
  seconds, factors that are not negative, and products that are durations;
* **`Duration.rank_seconds_mono`**: longer durations do not have fewer seconds;
* `Duration.nearest`: the duration nearest to a number of seconds;
* **`Duration.nearest_seconds`**, **`Duration.rank_seconds_nearest`**: to seconds and back, and to
  seconds again;
* `Duration.scale?_eq_some_iff`: the durations that can be scaled;
* **`Duration.scale?_mono`**, `Duration.nearest_seconds_le_scale?`: how scaling grows.
-/

namespace Telemetry

namespace Duration

/-- The whole seconds are a 64-bit number. -/
def Representable (d : Duration) : Prop := d.nanos < UInt64.size * 1000000000

instance (d : Duration) : Decidable d.Representable :=
  inferInstanceAs (Decidable (d.nanos < UInt64.size * 1000000000))

/-- The whole seconds as a double. -/
def whole (d : Duration) : Double := .ofNat (d.nanos / 1000000000)

/-- The fraction of a second as a double. -/
def rest (d : Duration) : Double := .ofRatio false (d.nanos % 1000000000) 1000000000

variable {d d' : Duration}

/-! ## Whole seconds and the rest -/

theorem seconds_eq (d : Duration) : d.seconds = d.whole.add d.rest := rfl

theorem rank_whole (d : Duration) :
    d.whole.rank = Double.rankOfRatio (d.nanos / 1000000000) 1 :=
  Double.rank_ofRatio _ _ _

theorem rank_rest (d : Duration) :
    d.rest.rank = Double.rankOfRatio (d.nanos % 1000000000) 1000000000 :=
  Double.rank_ofRatio _ _ _

/-- The double of the number of seconds that are too many. -/
def bound : Double := .ofNat UInt64.size

theorem rank_bound : bound.rank = 1087 * Double.fieldWeight := by decide +kernel

theorem isFinite_bound : bound.isFinite = true := by decide +kernel

theorem units_bound : bound.units = UInt64.size * 2 ^ 1074 := by decide +kernel

theorem isFinite_one : (Double.ofNat 1).isFinite = true := by decide +kernel

theorem units_one : (Double.ofNat 1).units = 2 ^ 1074 := by decide +kernel

theorem rank_whole_le (hd : d.Representable) : d.whole.rank ≤ bound.rank := by
  rw [rank_whole, bound, Double.ofNat, Double.rank_ofRatio]
  refine Double.rankOfRatio_mono_left Nat.one_pos ?_
  exact ((Nat.div_lt_iff_lt_mul (by decide)).mpr hd).le

theorem isFinite_whole (hd : d.Representable) : d.whole.isFinite = true :=
  Double.isFinite_iff.mpr
    (lt_of_le_of_lt (rank_whole_le hd) (Double.isFinite_iff.mp isFinite_bound))

theorem rank_rest_lt (d : Duration) : d.rest.rank < (Double.ofNat 1).rank := by
  have hle : Double.rankOfRatio (d.nanos % 1000000000) 1000000000 ≤
      Double.rankOfRatio 999999999 1000000000 := by
    refine Double.rankOfRatio_mono_left (by decide) ?_
    have := Nat.mod_lt d.nanos (show 0 < 1000000000 by decide)
    omega
  rw [rank_rest]
  exact lt_of_le_of_lt hle (by decide +kernel)

theorem isFinite_rest (d : Duration) : d.rest.isFinite = true :=
  Double.isFinite_iff.mpr ((rank_rest_lt d).trans (Double.isFinite_iff.mp isFinite_one))

theorem units_whole_le (hd : d.Representable) : d.whole.units ≤ UInt64.size * 2 ^ 1074 := by
  rw [← units_bound]
  exact (Double.rank_le_rank (isFinite_whole hd) isFinite_bound).mp (rank_whole_le hd)

theorem units_rest_lt (d : Duration) : d.rest.units < 2 ^ 1074 := by
  rw [← units_one]
  refine lt_of_not_ge fun h => ?_
  exact ((Double.rank_le_rank isFinite_one (isFinite_rest d)).mpr h).not_gt (rank_rest_lt d)

theorem units_whole (h : d.nanos / 1000000000 < 2 ^ 53) :
    d.whole.units = d.nanos / 1000000000 * 2 ^ 1074 :=
  Double.units_ofNat h

theorem rank_seconds (hd : d.Representable) :
    d.seconds.rank = Double.rankOfRatio (d.whole.units + d.rest.units) (2 ^ 1074) := by
  rw [seconds_eq, Double.add_eq (isFinite_whole hd) (isFinite_rest d), Double.rank_ofRatio]

theorem negative_seconds (hd : d.Representable) : d.seconds.negative = false := by
  rw [seconds_eq, Double.add_eq (isFinite_whole hd) (isFinite_rest d), Double.ofRatio,
    Double.negative_ofRank]

theorem rank_seconds_le (hd : d.Representable) : d.seconds.rank ≤ bound.rank := by
  have hsum : (d.whole.units + d.rest.units) * 1 ≤ (UInt64.size + 1) * 2 ^ 1074 := by
    have := units_whole_le hd
    have := units_rest_lt d
    rw [Nat.add_mul]
    omega
  rw [rank_seconds hd]
  refine (Double.rankOfRatio_mono (by positivity) Nat.one_pos hsum).trans ?_
  decide +kernel

theorem isFinite_seconds (hd : d.Representable) : d.seconds.isFinite = true :=
  Double.isFinite_iff.mpr
    (lt_of_le_of_lt (rank_seconds_le hd) (Double.isFinite_iff.mp isFinite_bound))

/-! ## The order of seconds -/

theorem rank_whole_le_seconds (hd : d.Representable) : d.whole.rank ≤ d.seconds.rank := by
  rw [rank_seconds hd, ← Double.rankOfRatio_units (isFinite_whole hd)]
  exact Double.rankOfRatio_mono_left (by positivity) (Nat.le_add_right _ _)

/-- The fraction of a second does not carry the seconds past the next whole number. -/
theorem rank_seconds_le_succ (hd : d.Representable) :
    d.seconds.rank ≤ Double.rankOfRatio (d.nanos / 1000000000 + 1) 1 := by
  have hrest := units_rest_lt d
  rw [rank_seconds hd]
  by_cases hwhole : d.whole.units ≤ d.nanos / 1000000000 * 2 ^ 1074
  · refine Double.rankOfRatio_mono (by positivity) Nat.one_pos ?_
    rw [mul_one, Nat.add_mul]
    omega
  · -- the whole seconds were rounded up, so they are many, and the fraction is lost on them
    have hmany : 2 ^ 53 ≤ d.nanos / 1000000000 := by
      refine le_of_not_gt fun h => hwhole ?_
      rw [units_whole h]
    have hplace : 1075 ≤ d.whole.place := by
      have hle : 2 ^ (53 + 1074) ≤ d.whole.units := by
        rw [pow_add]
        exact (Nat.mul_le_mul_right _ hmany).trans (Nat.le_of_not_le hwhole)
      have := (pow_lt_pow_iff_right₀ (by decide)).mp (hle.trans_lt d.whole.units_lt)
      omega
    have hulp : 2 * 2 ^ 1074 ≤ 2 ^ d.whole.place := by
      rw [← pow_succ']
      exact pow_le_pow_right₀ (by decide) hplace
    rw [Double.rankOfRatio_of_near (isFinite_whole hd) (by omega) (by omega)
      (.inl (Nat.le_add_right _ _)), rank_whole]
    exact Double.rankOfRatio_mono_left Nat.one_pos (Nat.le_succ _)

/-- **A longer duration does not have fewer seconds.** -/
theorem rank_seconds_mono (hd' : d'.Representable) (h : d.nanos ≤ d'.nanos) :
    d.seconds.rank ≤ d'.seconds.rank := by
  have hd : d.Representable := lt_of_le_of_lt h hd'
  have hdiv : d.nanos / 1000000000 ≤ d'.nanos / 1000000000 := Nat.div_le_div_right h
  rcases hdiv.eq_or_lt with heq | hlt
  · have hwhole : d.whole = d'.whole := congrArg Double.ofNat heq
    have hrest : d.rest.units ≤ d'.rest.units := by
      refine (Double.rank_le_rank (isFinite_rest d) (isFinite_rest d')).mp ?_
      rw [rank_rest, rank_rest]
      exact Double.rankOfRatio_mono_left (by decide) (by omega)
    rw [rank_seconds hd, rank_seconds hd', hwhole]
    exact Double.rankOfRatio_mono_left (by positivity) (Nat.add_le_add_left hrest _)
  · calc d.seconds.rank ≤ Double.rankOfRatio (d.nanos / 1000000000 + 1) 1 :=
          rank_seconds_le_succ hd
      _ ≤ d'.whole.rank := by
          rw [rank_whole]
          exact Double.rankOfRatio_mono_left Nat.one_pos hlt
      _ ≤ d'.seconds.rank := rank_whole_le_seconds hd'

theorem units_seconds_mono (hd' : d'.Representable) (h : d.nanos ≤ d'.nanos) :
    d.seconds.units ≤ d'.seconds.units :=
  (Double.rank_le_rank (isFinite_seconds (lt_of_le_of_lt h hd')) (isFinite_seconds hd')).mp
    (rank_seconds_mono hd' h)

/-! ## Back to nanoseconds -/

/-- The duration nearest to a number of seconds. -/
def nearest (x : Double) : Duration := ⟨roundHalfEven (x.units * 1000000000) (1 <<< 1074)⟩

theorem nearest_mono {x y : Double} (h : x.units ≤ y.units) :
    (nearest x).nanos ≤ (nearest y).nanos :=
  roundHalfEven_mono _ (Nat.mul_le_mul_right _ h)

/-- The fraction of a second is rounded by `2 ^ -54` at most. -/
theorem rest_close (d : Duration) :
    2 * (d.rest.units * 1000000000) ≤
        2 * (d.nanos % 1000000000 * 2 ^ 1074) + 1000000000 * 2 ^ 1021 ∧
      2 * (d.nanos % 1000000000 * 2 ^ 1074) ≤
        2 * (d.rest.units * 1000000000) + 1000000000 * 2 ^ 1021 := by
  refine Double.ofRatio_close (by decide) (by decide) ?_
  rw [show 53 + 1021 = 1074 from rfl]
  exact Nat.mul_lt_mul_of_pos_right (Nat.mod_lt _ (by decide)) (by positivity)

/-- **Durations of less than `2 ^ 23` seconds come back exactly.** -/
theorem nearest_seconds (h : d.nanos < 2 ^ 23 * 1000000000) : nearest d.seconds = d := by
  have hd : d.Representable := h.trans_le (by decide)
  have hwhole : d.nanos / 1000000000 < 2 ^ 23 := (Nat.div_lt_iff_lt_mul (by decide)).mpr h
  have hexact := units_whole (hwhole.trans (by decide))
  have hrest := rest_close d
  have hlt := units_rest_lt d
  have hsum : d.whole.units + d.rest.units < 2 ^ (53 + 1044) := by
    have := Nat.mul_le_mul_right (2 ^ 1074) (Nat.succ_le_of_lt hwhole)
    rw [Nat.succ_mul, ← pow_add] at this
    rw [show 53 + 1044 = 23 + 1074 from rfl]
    omega
  have hclose := Double.add_close (isFinite_whole hd) (isFinite_rest d) (by decide) hsum
  rw [← seconds_eq] at hclose
  have hnanos := Nat.div_add_mod' d.nanos 1000000000
  rw [nearest]
  congr 1
  refine roundHalfEven_eq ?_ ?_
  · rw [shiftLeft_eq_mul]
    omega
  · rw [shiftLeft_eq_mul]
    omega

theorem rank_seconds_nearest_of_whole {k : ℕ} (hd : d.Representable)
    (hk : d.seconds.units = k * 2 ^ 1074) : (nearest d.seconds).seconds.rank = d.seconds.rank := by
  have hnearest : nearest d.seconds = ⟨k * 1000000000⟩ := by
    rw [nearest, hk, shiftLeft_eq_mul, one_mul, mul_right_comm,
      roundHalfEven_mul _ (by positivity)]
  have hwhole : (nearest d.seconds).whole.rank = d.seconds.rank := by
    rw [← Double.rankOfRatio_units (isFinite_seconds hd), hk, rank_whole, hnearest,
      Nat.mul_div_cancel _ (by decide)]
    exact Double.rankOfRatio_congr Nat.one_pos (by positivity) (by rw [mul_one])
  have hfinite : (nearest d.seconds).whole.isFinite = true := by
    rw [Double.isFinite_iff, hwhole]
    exact Double.isFinite_iff.mp (isFinite_seconds hd)
  have hrest : (nearest d.seconds).rest.units = 0 := by
    rw [hnearest, rest, Nat.mul_mod_left]
    decide +kernel
  rw [seconds_eq, Double.add_eq hfinite (isFinite_rest _), Double.rank_ofRatio, hrest, add_zero,
    Double.rankOfRatio_units hfinite, hwhole]

/-- **Rounding to nanoseconds does not change the seconds.** -/
theorem rank_seconds_nearest (hd : d.Representable) :
    (nearest d.seconds).seconds.rank = d.seconds.rank := by
  by_cases hsmall : d.nanos < 2 ^ 23 * 1000000000
  · rw [nearest_seconds hsmall]
  by_cases hwhole : ∃ k, d.seconds.units = k * 2 ^ 1074
  · obtain ⟨k, hk⟩ := hwhole
    exact rank_seconds_nearest_of_whole hd hk
  -- the seconds are many, and yet not whole: their places are between a nanosecond and a second
  have hfinite := isFinite_seconds hd
  have hunits : d.seconds.units = d.seconds.mantissa * 2 ^ d.seconds.place := by
    rw [Double.units, shiftLeft_eq_mul]
  have hmany : 2 ^ (23 + 1074) ≤ d.seconds.units := by
    have hle : (ofSeconds (2 ^ 23)).seconds.units ≤ d.seconds.units :=
      units_seconds_mono hd (Nat.le_of_not_lt hsmall)
    exact le_trans (by decide +kernel) hle
  have hplace : 1045 ≤ d.seconds.place := by
    have := (pow_lt_pow_iff_right₀ (by decide)).mp (hmany.trans_lt d.seconds.units_lt)
    omega
  have hfine : d.seconds.place < 1074 := by
    refine lt_of_not_ge fun h => hwhole ⟨d.seconds.mantissa * 2 ^ (d.seconds.place - 1074), ?_⟩
    rw [hunits, mul_assoc, ← pow_add, Nat.sub_add_cancel h]
  have hmantissa : d.seconds.mantissa ≠ 2 ^ 52 := by
    intro h
    refine hwhole ⟨2 ^ (52 + d.seconds.place - 1074), ?_⟩
    rw [hunits, h, ← pow_add, ← pow_add, Nat.sub_add_cancel (by omega)]
  have hulp : 2 ^ 1045 ≤ 2 ^ d.seconds.place := pow_le_pow_right₀ (by decide) hplace
  have hlt : d.seconds.units < 2 ^ 52 * 2 ^ 1074 := by
    rw [← pow_add]
    exact d.seconds.units_lt.trans_le (pow_le_pow_right₀ (by decide) (by omega))
  have hup := mul_roundHalfEven_le (d.seconds.units * 1000000000) (d := 2 ^ 1074) (by positivity)
  have hdown := le_mul_roundHalfEven (d.seconds.units * 1000000000) (d := 2 ^ 1074) (by positivity)
  generalize hnearest : nearest d.seconds = e
  have hnanos : roundHalfEven (d.seconds.units * 1000000000) (2 ^ 1074) = e.nanos := by
    rw [← hnearest, nearest, shiftLeft_eq_mul, one_mul]
  rw [hnanos] at hup hdown
  have hsplit := Nat.div_add_mod' e.nanos 1000000000
  have hcount : e.nanos / 1000000000 < 2 ^ 53 := by
    have : e.nanos * 2 ^ 1074 < 2 ^ 53 * 1000000000 * 2 ^ 1074 := by omega
    exact (Nat.div_lt_iff_lt_mul (by decide)).mpr (Nat.lt_of_mul_lt_mul_right this)
  have he : e.Representable :=
    ((Nat.div_lt_iff_lt_mul (by decide)).mp hcount).trans_le (by decide)
  have hexact := units_whole hcount
  have hrest := rest_close e
  rw [rank_seconds he]
  exact Double.rankOfRatio_of_near hfinite (by omega) (by omega) (.inr hmantissa)

/-! ## Scaling -/

/-- A factor that is finite and at least zero, of either sign. -/
structure IsFactor (f : Double) : Prop where
  isFinite : f.isFinite = true
  isZero : f.negative = true → f.isZero = true

/-- The product of the seconds with a factor rounds to less than `2 ^ 64`. -/
def Fits (d : Duration) (f : Double) : Prop :=
  f.units * d.seconds.units < (2 ^ 64 - 2 ^ 10) * 2 ^ 2148

instance (d : Duration) (f : Double) : Decidable (d.Fits f) :=
  inferInstanceAs (Decidable (_ < _))

variable {f : Double}

theorem rankOfRatio_lt_bound {num den : ℕ} (hd : 0 < den) :
    Double.rankOfRatio num den < bound.rank ↔ num < (2 ^ 64 - 2 ^ 10) * den := by
  have hbound : bound.rank = 1087 * 2 ^ 52 := by rw [rank_bound, Double.fieldWeight_eq]
  constructor
  · intro h
    by_contra hle
    have hmono : Double.rankOfRatio (2 ^ 64 - 2 ^ 10) 1 ≤ Double.rankOfRatio num den :=
      Double.rankOfRatio_mono Nat.one_pos hd (by omega)
    have hmid : Double.rankOfRatio (2 ^ 64 - 2 ^ 10) 1 = bound.rank := by decide +kernel
    omega
  · intro h
    have hsmall : num * 2 ^ 1074 < den * 2 ^ (53 + 1085) := by
      rw [show 53 + 1085 = 64 + 1074 from rfl, pow_add, ← mul_assoc]
      exact Nat.mul_lt_mul_of_pos_right (by omega) (by positivity)
    have hplace := Double.placeOfRatio_le hsmall
    have hmantissa := Double.mantissaOfRatio_le num hd
    rw [Double.rankOfRatio_eq, Double.fieldWeight_eq, hbound]
    refine (min_le_right _ _).trans_lt ?_
    rcases hplace.eq_or_lt with heq | hlt
    · -- in the last place below the bound, one half less than the next power is missing
      have hround := mul_roundHalfEven_le (num * 2 ^ 1074) (d := den * 2 ^ 1085) (by positivity)
      have hlt : Double.mantissaOfRatio num den * (den * 2 ^ 1085) < 2 ^ 53 * (den * 2 ^ 1085) := by
        rw [Double.mantissaOfRatio, heq]
        omega
      have := Nat.lt_of_mul_lt_mul_right hlt
      omega
    · omega

theorem mul_seconds (hd : d.Representable) (hf : IsFactor f) : f.mul d.seconds =
    .ofRatio f.negative (f.units * d.seconds.units) (2 ^ 2148) := by
  rw [Double.mul_eq hf.isFinite (isFinite_seconds hd), negative_seconds hd, Bool.bne_false]

theorem rank_mul_seconds (hd : d.Representable) (hf : IsFactor f) :
    (f.mul d.seconds).rank = Double.rankOfRatio (f.units * d.seconds.units) (2 ^ 2148) := by
  rw [mul_seconds hd hf, Double.rank_ofRatio]

theorem fits_iff (hd : d.Representable) (hf : IsFactor f) :
    d.Fits f ↔ (f.mul d.seconds).rank < bound.rank := by
  rw [rank_mul_seconds hd hf, rankOfRatio_lt_bound (by positivity)]
  rfl

theorem isFinite_of_lt_bound {x : Double} (h : x.rank < bound.rank) : x.isFinite = true :=
  Double.isFinite_iff.mpr (h.trans (Double.isFinite_iff.mp isFinite_bound))

theorem bound_le_iff {x : Double} (hx : x.isFinite = true) :
    UInt64.size <<< 1074 ≤ x.units ↔ bound.rank ≤ x.rank := by
  rw [shiftLeft_eq_mul, ← units_bound]
  exact (Double.rank_le_rank isFinite_bound hx).symm

theorem negative_mul_seconds (hd : d.Representable) (hf : IsFactor f)
    (h : (f.mul d.seconds).negative = true) : (f.mul d.seconds).isZero = true := by
  rw [mul_seconds hd hf, Double.ofRatio, Double.negative_ofRank] at h
  have hzero : f.units = 0 := by
    have hrank : f.rank = Double.rank (.ofNat 0) := beq_iff_eq.mp (hf.isZero h)
    rw [Double.units_congr hrank]
    decide +kernel
  rw [Double.isZero, rank_mul_seconds hd hf, hzero, zero_mul, Double.rankOfRatio_zero]
  rfl

/-- **A duration can be scaled where the product fits.** -/
theorem scale?_of_fits (hd : d.Representable) (hf : IsFactor f) (h : d.Fits f) :
    d.scale? f = some (nearest (f.mul d.seconds)) := by
  have hlt := (fits_iff hd hf).mp h
  have hfinite := isFinite_of_lt_bound hlt
  have hunits : ¬ UInt64.size <<< 1074 ≤ (f.mul d.seconds).units := by
    rw [bound_le_iff hfinite, not_le]
    exact hlt
  have hsign : ¬ ((f.mul d.seconds).negative && !(f.mul d.seconds).isZero) = true := by
    cases hneg : (f.mul d.seconds).negative with
    | false => exact Bool.false_ne_true
    | true =>
      rw [negative_mul_seconds hd hf hneg]
      exact Bool.false_ne_true
  rw [scale?, ofDouble?, hfinite, Bool.not_true, if_neg Bool.false_ne_true, if_neg hsign,
    if_neg hunits]
  rfl

theorem scale?_of_not_fits (hd : d.Representable) (hf : IsFactor f) (h : ¬ d.Fits f) :
    d.scale? f = none := by
  rw [fits_iff hd hf] at h
  rw [scale?, ofDouble?]
  cases hfinite : (f.mul d.seconds).isFinite with
  | false => rfl
  | true =>
    have hunits : UInt64.size <<< 1074 ≤ (f.mul d.seconds).units := by
      rw [bound_le_iff hfinite, ← not_lt]
      exact h
    rw [Bool.not_true, if_neg Bool.false_ne_true, if_pos hunits, ite_self]

theorem scale?_eq_some_iff {e : Duration} (hd : d.Representable) (hf : IsFactor f) :
    d.scale? f = some e ↔ d.Fits f ∧ nearest (f.mul d.seconds) = e := by
  by_cases h : d.Fits f
  · rw [scale?_of_fits hd hf h, Option.some_inj, iff_true_intro h, true_and]
  · rw [scale?_of_not_fits hd hf h, iff_false_intro h, false_and]
    exact iff_of_false nofun id

/-! ## How scaling grows -/

theorem units_mul_seconds_mono (hd : d.Representable) (hd' : d'.Representable) (hf : IsFactor f)
    (hfits : d'.Fits f) (h : d.seconds.units ≤ d'.seconds.units) :
    (f.mul d.seconds).units ≤ (f.mul d'.seconds).units := by
  have hle : (f.mul d.seconds).rank ≤ (f.mul d'.seconds).rank := by
    rw [rank_mul_seconds hd hf, rank_mul_seconds hd' hf]
    exact Double.rankOfRatio_mono_left (by positivity) (Nat.mul_le_mul_left _ h)
  have hlt := (fits_iff hd' hf).mp hfits
  exact (Double.rank_le_rank (isFinite_of_lt_bound (hle.trans_lt hlt))
    (isFinite_of_lt_bound hlt)).mp hle

/-- The last number of seconds that a double can tell from `2 ^ 64`. -/
def last : Duration := ofSeconds (2 ^ 64 - 2 ^ 11)

theorem nearest_le_last {x : Double} (h : x.rank < bound.rank) :
    (nearest x).nanos ≤ last.nanos := by
  have hlast : nearest (.ofNat (2 ^ 64 - 2 ^ 11)) = last := by decide +kernel
  rw [← hlast]
  refine nearest_mono ((Double.rank_le_rank (isFinite_of_lt_bound h) (by decide +kernel)).mp ?_)
  refine le_trans (Nat.le_sub_one_of_lt h) (by decide +kernel)

variable {e e' : Duration}

theorem scale?_le_last (hd : d.Representable) (hf : IsFactor f) (h : d.scale? f = some e) :
    e.nanos ≤ last.nanos := by
  obtain ⟨hfits, rfl⟩ := (scale?_eq_some_iff hd hf).mp h
  exact nearest_le_last ((fits_iff hd hf).mp hfits)

theorem representable_of_le_last (h : d.nanos ≤ last.nanos) : d.Representable :=
  h.trans_lt (by decide)

/-- **Scaling keeps the order**, also of durations that only rounding makes equal. -/
theorem scale?_mono (hd : d.Representable) (hd' : d'.Representable) (hf : IsFactor f)
    (hle : d.seconds.units ≤ d'.seconds.units) (h : d.scale? f = some e)
    (h' : d'.scale? f = some e') : e.nanos ≤ e'.nanos := by
  obtain ⟨-, rfl⟩ := (scale?_eq_some_iff hd hf).mp h
  obtain ⟨hfits, rfl⟩ := (scale?_eq_some_iff hd' hf).mp h'
  exact nearest_mono (units_mul_seconds_mono hd hd' hf hfits hle)

theorem Fits.mono (hle : d.seconds.units ≤ d'.seconds.units) (h : d'.Fits f) : d.Fits f :=
  lt_of_le_of_lt (Nat.mul_le_mul_left _ hle) h

/-- What is not close to `2 ^ 64` seconds can be scaled by one and less. -/
theorem fits_of_le_last (hle : d.nanos ≤ last.nanos) (hf : f.units ≤ (Double.ofNat 1).units) :
    d.Fits f := by
  have hunits : d.seconds.units ≤ last.seconds.units := units_seconds_mono (by decide) hle
  exact lt_of_le_of_lt (Nat.mul_le_mul hf hunits) (by decide +kernel)

/-- **A factor of one or more does not shorten a duration**, as far as its seconds are kept. -/
theorem nearest_seconds_le_scale? (hd : d.Representable) (hf : IsFactor f)
    (hone : (Double.ofNat 1).units ≤ f.units) (h : d.scale? f = some e) :
    (nearest d.seconds).nanos ≤ e.nanos := by
  obtain ⟨hfits, rfl⟩ := (scale?_eq_some_iff hd hf).mp h
  have hle : d.seconds.rank ≤ (f.mul d.seconds).rank := by
    rw [← Double.rankOfRatio_units (isFinite_seconds hd), rank_mul_seconds hd hf]
    refine Double.rankOfRatio_mono (by positivity) (by positivity) ?_
    have := Nat.mul_le_mul_right (d.seconds.units * 2 ^ 1074) hone
    rw [units_one] at this
    calc d.seconds.units * 2 ^ 2148 = 2 ^ 1074 * (d.seconds.units * 2 ^ 1074) := by
          rw [mul_left_comm, ← pow_add]
      _ ≤ f.units * (d.seconds.units * 2 ^ 1074) := this
      _ = f.units * d.seconds.units * 2 ^ 1074 := (mul_assoc _ _ _).symm
  have hfinite := isFinite_of_lt_bound ((fits_iff hd hf).mp hfits)
  exact nearest_mono ((Double.rank_le_rank (isFinite_seconds hd) hfinite).mp hle)

end Duration

end Telemetry
