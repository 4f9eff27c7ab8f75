import Arbxx.DyadicRounding
import Mathlib.Algebra.Order.Field.Basic
import Mathlib.Algebra.Order.Ring.Abs

/-!
# Rounding to the nearest number of a grid

Rounding to nearest is described by what it minimizes, whichever way ties are broken.
That is enough for it to be monotone and to fix the grid.  The grids of floating point
formats have a limited number of mantissa bits and a least exponent; on them, scaling to
the unit in the last place and rounding to an integer rounds to the nearest number.
-/

namespace NearestRounding

/-! ### Nearest numbers -/

section Nearest

variable {K : Type*} [Field K] [LinearOrder K] [IsStrictOrderedRing K] {grid : Set K}

/-- No number of the grid is nearer to `q` than `r`. -/
structure IsNearest (grid : Set K) (q r : K) : Prop where
  mem : r ∈ grid
  le : ∀ s ∈ grid, |q - r| ≤ |q - s|

namespace IsNearest

theorem eq_of_mem {q r : K} (nearest : IsNearest grid q r) (member : q ∈ grid) : r = q := by
  have none := nearest.le q member
  rw [sub_self, abs_zero] at none
  exact (sub_eq_zero.mp (abs_nonpos_iff.mp none)).symm

/-- Numbers are not reordered, although each of two ties may be broken its own way. -/
theorem le_of_lt {q q' r r' : K} (below : q < q') (nearest : IsNearest grid q r)
    (nearest' : IsNearest grid q' r') : r ≤ r' := by
  by_contra reversed
  have gap : 0 < r - r' := sub_pos.mpr (not_le.mp reversed)
  have first := sq_le_sq.mpr (nearest.le r' nearest'.mem)
  have second := sq_le_sq.mpr (nearest'.le r nearest.mem)
  -- The middle between `r'` and `r` would be at most `q` and at least `q'`.
  have crossing : 0 ≤ (r - r') * (q - q') := by nlinarith
  exact absurd (nonneg_of_mul_nonneg_right crossing gap) (not_le.mpr (sub_neg.mpr below))

end IsNearest

end Nearest

/-! ### Nearest integers -/

def roundHalfEven (q : ℚ) : ℤ :=
  if q - ⌊q⌋ < 1 / 2 then ⌊q⌋
  else if 1 / 2 < q - ⌊q⌋ then ⌊q⌋ + 1
  else ⌊q⌋ + ⌊q⌋ % 2

theorem abs_sub_roundHalfEven (q : ℚ) : |q - roundHalfEven q| ≤ 1 / 2 := by
  have below := Int.floor_le q
  have above := Int.lt_floor_add_one q
  rw [roundHalfEven]
  split
  · rw [abs_le]
    constructor <;> linarith
  · rename_i notBelow
    split
    · rw [Int.cast_add, Int.cast_one, abs_le]
      constructor <;> linarith
    · have half : q - ⌊q⌋ = 1 / 2 := by linarith
      have parity := Int.emod_two_eq_zero_or_one ⌊q⌋
      rcases parity with even | odd
      · rw [even, add_zero, half, abs_of_pos (by norm_num)]
      · rw [odd, Int.cast_add, Int.cast_one, abs_le]
        constructor <;> linarith

/-- No integer is nearer than one that is at most one half away. -/
theorem abs_sub_le_of_half {q : ℚ} {n : ℤ} (half : |q - n| ≤ 1 / 2) (k : ℤ) :
    |q - n| ≤ |q - k| := by
  by_cases same : n = k
  · rw [same]
  · have apart : (1 : ℚ) ≤ |(n : ℚ) - k| := by
      exact_mod_cast Int.one_le_abs (sub_ne_zero.mpr same)
    have triangle := abs_sub_le (n : ℚ) q k
    rw [abs_sub_comm (n : ℚ) q] at triangle
    linarith

theorem roundHalfEven_neg (q : ℚ) : roundHalfEven (-q) = -roundHalfEven q := by
  have below := Int.floor_le q
  have above := Int.lt_floor_add_one q
  by_cases whole : q = ⌊q⌋
  · have floorNeg : ⌊-q⌋ = -⌊q⌋ := by
      rw [whole, ← Int.cast_neg, Int.floor_intCast, Int.floor_intCast]
    have fraction : -q - (-⌊q⌋ : ℤ) < 1 / 2 := by
      push_cast
      linarith
    rw [roundHalfEven, floorNeg, if_pos fraction, roundHalfEven, if_pos (by linarith)]
  · have floorNeg : ⌊-q⌋ = -⌊q⌋ - 1 := by
      have strict : (⌊q⌋ : ℚ) < q := lt_of_le_of_ne below (Ne.symm whole)
      rw [Int.floor_eq_iff]
      push_cast
      constructor <;> linarith
    have fraction : -q - (-⌊q⌋ - 1 : ℤ) = 1 - (q - ⌊q⌋) := by
      push_cast
      ring
    rw [roundHalfEven, floorNeg, fraction, roundHalfEven]
    rcases lt_trichotomy (q - ⌊q⌋) (1 / 2) with low | tie | high
    · rw [if_neg (by linarith), if_pos (by linarith), if_pos low]
      ring
    · rw [tie]
      norm_num
      omega
    · rw [if_pos (by linarith), if_neg (by linarith), if_pos high]
      ring

/-! ### Grids of floating point numbers -/

/-- Integers of at most `bits` bits, times powers of two from `2^least` on. -/
def floatGrid (bits : ℕ) (least : ℤ) : Set ℚ :=
  {q | ∃ m e : ℤ, |m| < 2 ^ bits ∧ least ≤ e ∧ q = m * 2 ^ e}

/-- The exponent of the unit in the last place. -/
def unitExponent (bits : ℕ) (least : ℤ) (q : ℚ) : ℤ :=
  max (Dyadic.rationalExponent q - bits) least

/-- Round to the nearest number of the grid, and to the even one of two. -/
def roundFloat (bits : ℕ) (least : ℤ) (q : ℚ) : Dyadic :=
  Dyadic.ofIntWithPrec (roundHalfEven (q / 2 ^ unitExponent bits least q))
    (-unitExponent bits least q)

variable {bits : ℕ} {least : ℤ}

theorem toRat_roundFloat (q : ℚ) :
    (roundFloat bits least q).toRat = roundHalfEven (q / 2 ^ unitExponent bits least q) *
      2 ^ unitExponent bits least q := by
  rw [roundFloat, Dyadic.toRat_ofIntWithPrec_eq_mul_two_pow, neg_neg]

theorem zero_mem_floatGrid : (0 : ℚ) ∈ floatGrid bits least :=
  ⟨0, least, by simp, le_rfl, by simp⟩

/-- Among the multiples of its unit in the last place none is nearer. -/
theorem abs_sub_roundFloat_le (q : ℚ) (k : ℤ) :
    |q - (roundFloat bits least q).toRat| ≤
      |q - k * 2 ^ unitExponent bits least q| := by
  have scalePos : (0 : ℚ) < 2 ^ unitExponent bits least q := zpow_pos two_pos _
  have scaled (n : ℤ) : |q - n * 2 ^ unitExponent bits least q| =
      |q / 2 ^ unitExponent bits least q - n| * 2 ^ unitExponent bits least q := by
    rw [← abs_of_pos scalePos, ← abs_mul, abs_of_pos scalePos, sub_mul,
      div_mul_cancel₀ q scalePos.ne']
  rw [toRat_roundFloat, scaled, scaled]
  exact mul_le_mul_of_nonneg_right
    (abs_sub_le_of_half (abs_sub_roundHalfEven _) k) scalePos.le

theorem le_unitExponent_add (q : ℚ) :
    Dyadic.rationalExponent q ≤ unitExponent bits least q + bits := by
  have bound := le_max_left (Dyadic.rationalExponent q - bits) least
  rw [unitExponent]
  omega

theorem abs_roundHalfEven_le (q : ℚ) :
    |roundHalfEven (q / 2 ^ unitExponent bits least q)| ≤ 2 ^ bits := by
  have scalePos : (0 : ℚ) < 2 ^ unitExponent bits least q := zpow_pos two_pos _
  have size : |q / 2 ^ unitExponent bits least q| < 2 ^ bits := by
    rw [abs_div, abs_of_pos scalePos, div_lt_iff₀ scalePos, ← zpow_natCast,
      ← zpow_add₀ two_ne_zero, add_comm]
    exact (Dyadic.abs_lt_two_zpow_rationalExponent q).trans_le
      (zpow_le_zpow_right₀ one_le_two (le_unitExponent_add q))
  have close := abs_sub_roundHalfEven (q / 2 ^ unitExponent bits least q)
  have rounded : |(roundHalfEven (q / 2 ^ unitExponent bits least q) : ℚ)| < 2 ^ bits + 1 := by
    have triangle := abs_sub_abs_le_abs_sub
      (roundHalfEven (q / 2 ^ unitExponent bits least q) : ℚ) (q / 2 ^ unitExponent bits least q)
    rw [abs_sub_comm] at triangle
    linarith
  have below : |roundHalfEven (q / 2 ^ unitExponent bits least q)| < 2 ^ bits + 1 := by
    exact_mod_cast rounded
  omega

theorem roundFloat_mem (positive : 0 < bits) (q : ℚ) :
    (roundFloat bits least q).toRat ∈ floatGrid bits least := by
  have bounded : least ≤ unitExponent bits least q := le_max_right _ _
  rw [toRat_roundFloat]
  rcases (abs_roundHalfEven_le q).lt_or_eq with short | carried
  · exact ⟨_, _, short, bounded, rfl⟩
  · -- Rounding up to a power of two needs one more bit, but only one bit is set.
    generalize roundHalfEven (q / 2 ^ unitExponent bits least q) = n at carried ⊢
    have one : (1 : ℤ) < 2 ^ bits := one_lt_pow₀ one_lt_two positive.ne'
    have nonzero : n ≠ 0 := abs_pos.mp (by omega)
    have whole : (n : ℚ) = n.sign * 2 ^ bits := by
      have product := Int.sign_mul_abs n
      rw [carried] at product
      exact_mod_cast product.symm
    refine ⟨n.sign, unitExponent bits least q + bits, ?_, by omega, ?_⟩
    · rw [Int.abs_sign_of_ne_zero nonzero]
      exact one
    · rw [whole, zpow_add₀ two_ne_zero, zpow_natCast]
      ring

/-- A number of the grid that is no multiple of the unit in the last place of `q` is
small. -/
theorem abs_lt_of_exponent_lt {q : ℚ} {m e : ℤ} (short : |m| < 2 ^ bits) (bounded : least ≤ e)
    (fine : e < unitExponent bits least q) :
    |(m : ℚ) * 2 ^ e| < 2 ^ (Dyadic.rationalExponent q - 1) := by
  have scalePos : (0 : ℚ) < 2 ^ e := zpow_pos two_pos e
  have fineExponent : bits + e ≤ Dyadic.rationalExponent q - 1 := by
    rw [unitExponent] at fine
    omega
  have size : |(m : ℚ)| < 2 ^ bits := by exact_mod_cast short
  calc |(m : ℚ) * 2 ^ e| = |(m : ℚ)| * 2 ^ e := by rw [abs_mul, abs_of_pos scalePos]
    _ < 2 ^ bits * 2 ^ e := mul_lt_mul_of_pos_right size scalePos
    _ = 2 ^ (bits + e) := by rw [zpow_add₀ two_ne_zero, zpow_natCast]
    _ ≤ 2 ^ (Dyadic.rationalExponent q - 1) := zpow_le_zpow_right₀ one_le_two fineExponent

theorem unitExponent_of_lt {q : ℚ} {e : ℤ} (bounded : least ≤ e)
    (fine : e < unitExponent bits least q) :
    unitExponent bits least q = Dyadic.rationalExponent q - bits := by
  rw [unitExponent] at fine ⊢
  omega

/-- The power of two next to `q` towards zero is a multiple of the unit in the last
place, and nearer than what is smaller. -/
theorem abs_sub_roundFloat_le_of_small (positive : 0 < bits) {q s : ℚ} (nonzero : q ≠ 0)
    (unit : unitExponent bits least q = Dyadic.rationalExponent q - bits)
    (small : |s| < 2 ^ (Dyadic.rationalExponent q - 1)) :
    |q - (roundFloat bits least q).toRat| ≤ |q - s| := by
  have leading : (2 : ℚ) ^ (Dyadic.rationalExponent q - 1) =
      (2 ^ (bits - 1) : ℤ) * 2 ^ unitExponent bits least q := by
    push_cast
    rw [unit, ← zpow_natCast, ← zpow_add₀ two_ne_zero]
    congr 1
    omega
  have size := Dyadic.two_zpow_rationalExponent_le nonzero
  have bounds := abs_lt.mp small
  rcases nonzero.lt_or_gt with isNegative | isPositive
  · rw [abs_of_neg isNegative] at size
    have near := @abs_sub_roundFloat_le bits least q (-2 ^ (bits - 1))
    rw [Int.cast_neg, neg_mul, ← leading] at near
    rw [abs_of_nonpos (by linarith : q - -2 ^ (Dyadic.rationalExponent q - 1) ≤ 0)] at near
    have far := neg_le_abs (q - s)
    linarith
  · rw [abs_of_pos isPositive] at size
    have near := @abs_sub_roundFloat_le bits least q (2 ^ (bits - 1))
    rw [← leading] at near
    rw [abs_of_nonneg (by linarith : 0 ≤ q - 2 ^ (Dyadic.rationalExponent q - 1))] at near
    have far := le_abs_self (q - s)
    linarith

theorem isNearest_roundFloat (positive : 0 < bits) (q : ℚ) :
    IsNearest (floatGrid bits least) q (roundFloat bits least q).toRat where
  mem := roundFloat_mem positive q
  le := by
    rintro _ ⟨m, e, short, bounded, rfl⟩
    rcases le_or_gt (unitExponent bits least q) e with coarse | fine
    · obtain ⟨n, rfl⟩ := Int.le.dest coarse
      have multiple : (m : ℚ) * 2 ^ (unitExponent bits least q + n) =
          (m * 2 ^ n : ℤ) * 2 ^ unitExponent bits least q := by
        push_cast
        rw [zpow_add₀ two_ne_zero, zpow_natCast]
        ring
      rw [multiple]
      exact abs_sub_roundFloat_le q (m * 2 ^ n)
    · by_cases zero : q = 0
      · have near := @abs_sub_roundFloat_le bits least q 0
        rw [zero, Int.cast_zero, zero_mul, sub_zero, abs_zero] at near
        rw [zero]
        exact near.trans (abs_nonneg _)
      · exact abs_sub_roundFloat_le_of_small positive zero (unitExponent_of_lt bounded fine)
          (abs_lt_of_exponent_lt short bounded fine)

theorem roundFloat_neg (q : ℚ) : roundFloat bits least (-q) = -roundFloat bits least q := by
  have unit : unitExponent bits least (-q) = unitExponent bits least q := by
    rw [unitExponent, unitExponent, Dyadic.rationalExponent, Dyadic.rationalExponent, abs_neg]
  apply Dyadic.toRat_inj.mp
  rw [toRat_roundFloat, unit, neg_div, roundHalfEven_neg, Dyadic.toRat_neg, toRat_roundFloat,
    Int.cast_neg, neg_mul]

theorem roundFloat_mono (positive : 0 < bits) {q q' : ℚ} (below : q ≤ q') :
    (roundFloat bits least q).toRat ≤ (roundFloat bits least q').toRat := by
  rcases below.lt_or_eq with less | rfl
  · exact (isNearest_roundFloat positive q).le_of_lt less (isNearest_roundFloat positive q')
  · exact le_rfl

/-! ### Integers -/

theorem intCast_mem_floatGrid (leastLe : least ≤ 0) {n : ℤ} (short : |n| < 2 ^ bits) :
    (n : ℚ) ∈ floatGrid bits least :=
  ⟨n, 0, short, leastLe, by simp⟩

/-- Integers are rounded to integers, and only zero to zero. -/
theorem exists_roundFloat_intCast (positive : 0 < bits) (leastLe : least ≤ 0) (n : ℤ) :
    ∃ k : ℤ, (roundFloat bits least n).toRat = k ∧ (n ≠ 0 → k ≠ 0) := by
  have nearest := @isNearest_roundFloat bits least positive (n : ℚ)
  have nonzero : n ≠ 0 → (roundFloat bits least n).toRat ≠ 0 := by
    intro nonzero zero
    have one : (1 : ℤ) < 2 ^ bits := one_lt_pow₀ one_lt_two positive.ne'
    have near := nearest.le n.sign (intCast_mem_floatGrid leastLe (by
      rwa [Int.abs_sign_of_ne_zero nonzero]))
    rw [zero, sub_zero] at near
    have nearer : |n| ≤ |n - n.sign| := by exact_mod_cast near
    rcases lt_or_gt_of_ne nonzero with isNegative | isPositive
    · rw [Int.sign_eq_neg_one_of_neg isNegative, abs_of_neg isNegative,
        abs_of_nonpos (by omega)] at nearer
      omega
    · rw [Int.sign_eq_one_of_pos isPositive, abs_of_pos isPositive,
        abs_of_nonneg (by omega)] at nearer
      omega
  have whole : ∃ k : ℤ, (roundFloat bits least n).toRat = k := by
    rcases le_or_gt 0 (unitExponent bits least n) with coarse | fine
    · obtain ⟨scale, isScale⟩ := Int.eq_ofNat_of_zero_le coarse
      refine ⟨roundHalfEven (n / 2 ^ unitExponent bits least n) * 2 ^ scale, ?_⟩
      rw [toRat_roundFloat, isScale]
      push_cast
      rfl
    · have size := Dyadic.abs_lt_two_zpow_rationalExponent (n : ℚ)
      have exponentLe := @le_unitExponent_add bits least (n : ℚ)
      have short : |(n : ℚ)| < 2 ^ bits := by
        rw [← zpow_natCast]
        exact size.trans_le (zpow_le_zpow_right₀ one_le_two (by omega))
      exact ⟨n, nearest.eq_of_mem (intCast_mem_floatGrid leastLe (by exact_mod_cast short))⟩
  obtain ⟨k, value⟩ := whole
  refine ⟨k, value, fun isNonzero zero => nonzero isNonzero ?_⟩
  rw [value, zero, Int.cast_zero]

/-! ### Overflow -/

private theorem two_zpow_eq_mul (bits : ℕ) (e : ℤ) : (2 : ℚ) ^ e = 2 ^ bits * 2 ^ (e - bits) := by
  rw [← zpow_natCast, ← zpow_add₀ two_ne_zero]
  congr 1
  omega

private theorem two_zpow_sub_one (e : ℤ) : (2 : ℚ) ^ (e - 1) = 1 / 2 * 2 ^ e := by
  rw [zpow_sub_one₀ two_ne_zero]
  ring

/-- The middle between a power of two and the grid below it is rounded to the power of
two, whose mantissa is even. -/
theorem roundFloat_middle (positive : 0 < bits) {e : ℤ} (bounded : least + bits ≤ e) :
    (roundFloat bits least (2 ^ e - 2 ^ (e - bits - 1))).toRat = 2 ^ e := by
  have unitPos : (0 : ℚ) < 2 ^ (e - bits) := zpow_pos two_pos _
  have power := two_zpow_eq_mul bits e
  have half := two_zpow_sub_one (e - bits)
  have scaled : ((2 : ℚ) ^ e - 2 ^ (e - bits - 1)) / 2 ^ (e - bits) = 2 ^ bits - 1 / 2 := by
    rw [power, half]
    field_simp
  have two_le : (2 : ℚ) ≤ 2 ^ bits := by
    calc (2 : ℚ) = 2 ^ 1 := (pow_one 2).symm
      _ ≤ 2 ^ bits := pow_le_pow_right₀ one_le_two positive
  have middlePos : (0 : ℚ) < 2 ^ e - 2 ^ (e - bits - 1) := by
    rw [power, half, ← sub_mul]
    exact mul_pos (by linarith) unitPos
  have exponent : Dyadic.rationalExponent ((2 : ℚ) ^ e - 2 ^ (e - bits - 1)) = e := by
    have atLeast : (2 : ℚ) ^ (e - 1) ≤ 2 ^ e - 2 ^ (e - bits - 1) := by
      rw [two_zpow_sub_one, power, half]
      nlinarith
    have below : (2 : ℚ) ^ e - 2 ^ (e - bits - 1) < 2 ^ e := by
      rw [half]
      linarith
    have logLe : e - 1 ≤ Int.log 2 ((2 : ℚ) ^ e - 2 ^ (e - bits - 1)) :=
      (Int.zpow_le_iff_le_log one_lt_two middlePos).mp (by exact_mod_cast atLeast)
    have logLt : Int.log 2 ((2 : ℚ) ^ e - 2 ^ (e - bits - 1)) < e :=
      (Int.lt_zpow_iff_log_lt one_lt_two middlePos).mp (by exact_mod_cast below)
    rw [Dyadic.rationalExponent, abs_of_pos middlePos]
    omega
  have unit : unitExponent bits least ((2 : ℚ) ^ e - 2 ^ (e - bits - 1)) = e - bits := by
    rw [unitExponent, exponent]
    omega
  have floorEq : ⌊(2 : ℚ) ^ bits - 1 / 2⌋ = 2 ^ bits - 1 := by
    rw [Int.floor_eq_iff]
    push_cast
    constructor <;> linarith
  have odd : (2 ^ bits - 1 : ℤ) % 2 = 1 := by
    obtain ⟨n, rfl⟩ := Nat.exists_eq_succ_of_ne_zero positive.ne'
    rw [pow_succ]
    omega
  have rounded : roundHalfEven ((2 : ℚ) ^ bits - 1 / 2) = 2 ^ bits := by
    rw [roundHalfEven, floorEq, odd]
    push_cast
    norm_num
  rw [toRat_roundFloat, unit, scaled, rounded, power]
  push_cast
  rfl

/-- Numbers are rounded up to a power of two from the middle between it and the grid
below it on. -/
theorem two_zpow_le_roundFloat_iff (positive : 0 < bits) {e : ℤ} (bounded : least + bits ≤ e)
    {q : ℚ} : 2 ^ e ≤ (roundFloat bits least q).toRat ↔ 2 ^ e - 2 ^ (e - bits - 1) ≤ q := by
  constructor
  · intro large
    by_contra less
    rw [not_le] at less
    have nearest := @isNearest_roundFloat bits least positive q
    have unitPos : (0 : ℚ) < 2 ^ (e - bits - 1) := zpow_pos two_pos _
    have half := two_zpow_sub_one (e - bits)
    -- The number of the grid below the power of two is nearer.
    have below : (2 : ℚ) ^ e - 2 ^ (e - bits) ∈ floatGrid bits least := by
      have one : (1 : ℤ) ≤ 2 ^ bits := one_le_pow₀ one_le_two
      refine ⟨2 ^ bits - 1, e - bits, ?_, by omega, ?_⟩
      · rw [abs_of_nonneg (by omega)]
        omega
      · rw [two_zpow_eq_mul bits e]
        push_cast
        ring
    rcases le_or_gt q (2 ^ e - 2 ^ (e - bits)) with small | between
    · have mono := @roundFloat_mono bits least positive _ _ small
      have fixed := (@isNearest_roundFloat bits least positive _).eq_of_mem below
      rw [fixed] at mono
      linarith
    · have near := nearest.le _ below
      rw [abs_of_neg (by linarith), abs_of_pos (by linarith)] at near
      linarith
  · intro atLeast
    rw [← roundFloat_middle positive bounded]
    exact roundFloat_mono positive atLeast

/-- The same on both sides of zero. -/
theorem two_zpow_le_abs_roundFloat_iff (positive : 0 < bits) {e : ℤ} (bounded : least + bits ≤ e)
    {q : ℚ} : 2 ^ e ≤ |(roundFloat bits least q).toRat| ↔ 2 ^ e - 2 ^ (e - bits - 1) ≤ |q| := by
  rw [le_abs, le_abs, two_zpow_le_roundFloat_iff positive bounded, ← Dyadic.toRat_neg,
    ← roundFloat_neg, two_zpow_le_roundFloat_iff positive bounded]

/-! ### Decimal digits -/

/-- Round to some number of significant decimal digits, and to the even one of two. -/
def roundDecimal (digits : ℕ) (q : ℚ) : ℚ :=
  roundHalfEven (q / 10 ^ (Int.log 10 |q| + 1 - digits)) * 10 ^ (Int.log 10 |q| + 1 - digits)

end NearestRounding
