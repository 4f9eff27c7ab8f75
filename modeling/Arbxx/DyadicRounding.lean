import Mathlib.Data.EReal.Operations
import Mathlib.Data.Int.Log
import Mathlib.Data.Rat.Floor
import Mathlib.Order.Bounds.Defs
import Mathlib.Tactic.Linarith
import Mathlib.Tactic.Ring
import Mathlib.Tactic.NormNum
import Mathlib.Tactic.Positivity

/-!
# Dyadic numbers with short mantissas

Core's `Dyadic` holds the numbers `n * 2^k` with an odd or zero mantissa.  This
file places them on the extended real line, measures their binary exponent and
mantissa length, and rounds rational numbers to a given number of mantissa bits
in both directions.
-/

namespace Dyadic

noncomputable def toEReal (d : Dyadic) : EReal :=
  ((d.toRat : ℝ) : EReal)

@[simp]
theorem toEReal_lt_toEReal {d e : Dyadic} : d.toEReal < e.toEReal ↔ d < e := by
  simp [toEReal]

@[simp]
theorem toEReal_le_toEReal {d e : Dyadic} : d.toEReal ≤ e.toEReal ↔ d ≤ e := by
  simp [toEReal]

@[simp]
theorem toEReal_inj {d e : Dyadic} : d.toEReal = e.toEReal ↔ d = e := by
  simp [toEReal, toRat_inj]

@[simp]
theorem toEReal_zero : (0 : Dyadic).toEReal = 0 := by
  simp [toEReal]

@[simp]
theorem toEReal_neg (d : Dyadic) : (-d).toEReal = -d.toEReal := by
  simp [toEReal, toRat_neg]

@[simp]
theorem toEReal_ne_top (d : Dyadic) : d.toEReal ≠ ⊤ :=
  EReal.coe_ne_top _

@[simp]
theorem toEReal_ne_bot (d : Dyadic) : d.toEReal ≠ ⊥ :=
  EReal.coe_ne_bot _

/-- Number of mantissa bits left of the binary point: `2^(e-1) ≤ |d| < 2^e`. -/
def exponent : Dyadic → ℤ
  | .zero => 0
  | .ofOdd n k _ => n.natAbs.log2 + 1 - k

/-- The odd mantissa is shorter than `bits`. -/
def FitsBits (bits : ℕ) : Dyadic → Prop
  | .zero => True
  | .ofOdd n _ _ => n.natAbs < 2 ^ bits

instance (bits : ℕ) : DecidablePred (FitsBits bits)
  | .zero => inferInstanceAs (Decidable True)
  | .ofOdd n _ _ => inferInstanceAs (Decidable (n.natAbs < 2 ^ bits))

@[simp]
theorem fitsBits_zero (bits : ℕ) : FitsBits bits 0 :=
  trivial

theorem FitsBits.neg {bits : ℕ} {d : Dyadic} (fits : FitsBits bits d) : FitsBits bits (-d) := by
  cases d with
  | zero => trivial
  | ofOdd n k odd => simpa [neg_ofOdd, FitsBits] using fits

/-- Any way of writing a dyadic number with a short mantissa bounds the odd one. -/
theorem fitsBits_of_toRat_eq {bits : ℕ} {d : Dyadic} {m e : ℤ}
    (short : m.natAbs < 2 ^ bits) (value : d.toRat = m * 2 ^ e) :
    FitsBits bits d := by
  cases d with
  | zero => trivial
  | ofOdd n k odd =>
      rw [toRat_ofOdd_eq_mul_two_pow] at value
      have scaled : (n : ℚ) * 2 ^ (-k - e) = m := by
        rw [zpow_sub₀ two_ne_zero, ← mul_div_assoc, value]
        field_simp
      rcases le_total 0 (-k - e) with nonneg | nonpos
      · obtain ⟨shift, shiftEq⟩ := Int.eq_ofNat_of_zero_le nonneg
        rw [shiftEq] at scaled
        have product : n * 2 ^ shift = m := by exact_mod_cast scaled
        have longer : n.natAbs ≤ m.natAbs := by
          rw [← product, Int.natAbs_mul]
          exact Nat.le_mul_of_pos_right _ (Int.natAbs_pos.mpr (pow_ne_zero _ two_ne_zero))
        exact lt_of_le_of_lt longer short
      · obtain ⟨shift, shiftEq⟩ := Int.eq_ofNat_of_zero_le (Int.neg_nonneg.mpr nonpos)
        have product : n = m * 2 ^ shift := by
          have negated : -k - e = -(shift : ℤ) := by omega
          rw [negated, zpow_neg, mul_inv_eq_iff_eq_mul₀ (zpow_ne_zero _ two_ne_zero)] at scaled
          exact_mod_cast scaled
        -- The odd mantissa is divided by no power of two, so nothing was shifted.
        cases shift with
        | zero =>
            have same : n = m := by simpa using product
            simpa [FitsBits, same] using short
        | succ shift =>
            have even : n = m * 2 ^ shift * 2 := by rw [product, pow_succ, Int.mul_assoc]
            omega

theorem two_zpow_exponent_bounds {d : Dyadic} (nonzero : d ≠ 0) :
    (2 : ℚ) ^ (d.exponent - 1) ≤ |d.toRat| ∧ |d.toRat| < 2 ^ d.exponent := by
  cases d with
  | zero => exact (nonzero rfl).elim
  | ofOdd n k odd =>
      have natAbsNe : n.natAbs ≠ 0 := by omega
      have lower : (2 : ℚ) ^ n.natAbs.log2 ≤ n.natAbs := by
        exact_mod_cast Nat.log2_self_le natAbsNe
      have upper : (n.natAbs : ℚ) < 2 ^ (n.natAbs.log2 + 1) := by
        exact_mod_cast Nat.lt_log2_self
      have size : |(n : ℚ)| = n.natAbs := by rw [Nat.cast_natAbs, Int.cast_abs]
      rw [toRat_ofOdd_eq_mul_two_pow, abs_mul, size,
        abs_of_pos (zpow_pos (two_pos : (0 : ℚ) < 2) _)]
      have scalePos : (0 : ℚ) < 2 ^ (-k) := zpow_pos two_pos _
      constructor
      · calc (2 : ℚ) ^ ((n.natAbs.log2 : ℤ) + 1 - k - 1)
            = 2 ^ n.natAbs.log2 * 2 ^ (-k) := by
              rw [← zpow_natCast, ← zpow_add₀ two_ne_zero]
              congr 1
              ring
          _ ≤ n.natAbs * 2 ^ (-k) := mul_le_mul_of_nonneg_right lower scalePos.le
      · calc (n.natAbs : ℚ) * 2 ^ (-k)
            < 2 ^ (n.natAbs.log2 + 1) * 2 ^ (-k) := mul_lt_mul_of_pos_right upper scalePos
          _ = 2 ^ ((n.natAbs.log2 : ℤ) + 1 - k) := by
              rw [← zpow_natCast, ← zpow_add₀ two_ne_zero]
              congr 1

/-- The exponent of a rational number, with the same convention. -/
def rationalExponent (q : ℚ) : ℤ :=
  Int.log 2 |q| + 1

theorem abs_lt_two_zpow_rationalExponent (q : ℚ) : |q| < 2 ^ rationalExponent q :=
  Int.lt_zpow_succ_log_self (by norm_num : 1 < 2) |q|

theorem two_zpow_rationalExponent_le {q : ℚ} (nonzero : q ≠ 0) :
    (2 : ℚ) ^ (rationalExponent q - 1) ≤ |q| := by
  have bound := Int.zpow_log_le_self (by norm_num : 1 < 2) (abs_pos.mpr nonzero)
  simpa [rationalExponent] using bound

/-- Round down to at most `bits` mantissa bits. -/
def roundDownBits (bits : ℕ) (q : ℚ) : Dyadic :=
  q.toDyadic (bits - rationalExponent q)

def roundUpBits (bits : ℕ) (q : ℚ) : Dyadic :=
  -roundDownBits bits (-q)

theorem toRat_roundDownBits (bits : ℕ) (q : ℚ) :
    (roundDownBits bits q).toRat =
      ⌊q * 2 ^ ((bits : ℤ) - rationalExponent q)⌋ *
        2 ^ (rationalExponent q - (bits : ℤ)) := by
  rw [roundDownBits, Rat.toRat_toDyadic, ← neg_sub (bits : ℤ), zpow_neg, div_eq_mul_inv]
  rfl

theorem roundDownBits_le (bits : ℕ) (q : ℚ) : (roundDownBits bits q).toRat ≤ q :=
  Rat.toRat_toDyadic_le

theorem lt_roundDownBits_add (bits : ℕ) (q : ℚ) :
    q < (roundDownBits bits q).toRat + 2 ^ (rationalExponent q - (bits : ℤ)) := by
  have bound : q < (roundDownBits bits q + ofIntWithPrec 1 (bits - rationalExponent q)).toRat :=
    Rat.lt_toRat_toDyadic_add
  rw [toRat_add, toRat_ofIntWithPrec_eq_mul_two_pow] at bound
  simpa using bound

private theorem abs_scaled_lt (bits : ℕ) (q : ℚ) :
    |q * 2 ^ ((bits : ℤ) - rationalExponent q)| < 2 ^ bits := by
  have scalePos : (0 : ℚ) < 2 ^ ((bits : ℤ) - rationalExponent q) := zpow_pos two_pos _
  rw [abs_mul, abs_of_pos scalePos]
  calc |q| * 2 ^ ((bits : ℤ) - rationalExponent q)
      < 2 ^ rationalExponent q * 2 ^ ((bits : ℤ) - rationalExponent q) :=
        mul_lt_mul_of_pos_right (abs_lt_two_zpow_rationalExponent q) scalePos
    _ = 2 ^ bits := by
        rw [← zpow_add₀ two_ne_zero, ← zpow_natCast]
        congr 1
        ring

theorem fitsBits_roundDownBits {bits : ℕ} (positive : 0 < bits) (q : ℚ) :
    FitsBits bits (roundDownBits bits q) := by
  have scaled := abs_lt.mp (abs_scaled_lt bits q)
  have value := toRat_roundDownBits bits q
  generalize floorEq : ⌊q * 2 ^ ((bits : ℤ) - rationalExponent q)⌋ = floor at value
  have upper : floor < 2 ^ bits := by
    have floorLe := Int.floor_le (q * 2 ^ ((bits : ℤ) - rationalExponent q))
    rw [floorEq] at floorLe
    exact_mod_cast lt_of_le_of_lt floorLe scaled.2
  have lower : -2 ^ bits ≤ floor := by
    rw [← floorEq, Int.le_floor]
    exact_mod_cast scaled.1.le
  by_cases carries : floor = -2 ^ bits
  · -- Rounding carried into the next binade; the value is a power of two.
    apply fitsBits_of_toRat_eq (m := -1) (e := bits + (rationalExponent q - (bits : ℤ)))
    · simpa using Nat.one_lt_two_pow positive.ne'
    · rw [value, carries, zpow_add₀ two_ne_zero, zpow_natCast]
      push_cast
      ring
  · apply fitsBits_of_toRat_eq (m := floor) _ value
    zify
    rw [abs_lt]
    omega

/-- A mantissa digit beyond the last kept one makes the number small. -/
private theorem abs_toRat_lt_of_precision_lt {bits : ℕ} {n k e : ℤ} {odd : n % 2 = 1}
    (fits : FitsBits bits (ofOdd n k odd)) (fine : (bits : ℤ) - e < k) :
    |(ofOdd n k odd).toRat| < 2 ^ (e - 1) := by
  have short : |(n : ℚ)| < 2 ^ bits := by
    rw [← Int.cast_abs, ← Nat.cast_natAbs]
    exact_mod_cast fits
  rw [toRat_ofOdd_eq_mul_two_pow, abs_mul, abs_of_pos (zpow_pos (two_pos : (0 : ℚ) < 2) _)]
  calc |(n : ℚ)| * 2 ^ (-k)
      < 2 ^ bits * 2 ^ (-k) := mul_lt_mul_of_pos_right short (zpow_pos two_pos _)
    _ = 2 ^ ((bits : ℤ) - k) := by
        rw [← zpow_natCast, ← zpow_add₀ two_ne_zero, ← sub_eq_add_neg]
    _ ≤ 2 ^ (e - 1) := zpow_le_zpow_right₀ one_le_two (by omega)

private theorem two_zpow_le_roundDownBits {bits : ℕ} (positive : 0 < bits) {q : ℚ}
    (qPos : 0 < q) :
    (2 : ℚ) ^ (rationalExponent q - 1) ≤ (roundDownBits bits q).toRat := by
  have bound := two_zpow_rationalExponent_le qPos.ne'
  rw [abs_of_pos qPos] at bound
  have floorLarge : (2 : ℤ) ^ (bits - 1) ≤ ⌊q * 2 ^ ((bits : ℤ) - rationalExponent q)⌋ := by
    rw [Int.le_floor]
    calc (((2 : ℤ) ^ (bits - 1) : ℤ) : ℚ)
        = 2 ^ (rationalExponent q - 1) * 2 ^ ((bits : ℤ) - rationalExponent q) := by
          rw [← zpow_add₀ two_ne_zero]
          push_cast
          rw [← zpow_natCast]
          congr 1
          omega
      _ ≤ q * 2 ^ ((bits : ℤ) - rationalExponent q) :=
          mul_le_mul_of_nonneg_right bound (zpow_pos two_pos _).le
  rw [toRat_roundDownBits]
  calc (2 : ℚ) ^ (rationalExponent q - 1)
      = ((2 : ℤ) ^ (bits - 1) : ℤ) * 2 ^ (rationalExponent q - (bits : ℤ)) := by
        push_cast
        rw [← zpow_natCast, ← zpow_add₀ two_ne_zero]
        congr 1
        omega
    _ ≤ ⌊q * 2 ^ ((bits : ℤ) - rationalExponent q)⌋ * 2 ^ (rationalExponent q - (bits : ℤ)) :=
        mul_le_mul_of_nonneg_right (by exact_mod_cast floorLarge) (zpow_pos two_pos _).le

/-- A number on the rounding grid below the exact value is below the rounded one. -/
private theorem le_roundDownBits_of_grid {bits : ℕ} {q : ℚ} {d : Dyadic} {m : ℤ}
    (grid : d.toRat * 2 ^ ((bits : ℤ) - rationalExponent q) = m) (below : d.toRat ≤ q) :
    d ≤ roundDownBits bits q := by
  have scalePos : (0 : ℚ) < 2 ^ ((bits : ℤ) - rationalExponent q) := zpow_pos two_pos _
  have floorLarge : m ≤ ⌊q * 2 ^ ((bits : ℤ) - rationalExponent q)⌋ := by
    rw [Int.le_floor, ← grid]
    exact mul_le_mul_of_nonneg_right below scalePos.le
  rw [← toRat_le_toRat_iff, toRat_roundDownBits, ← neg_sub (bits : ℤ), zpow_neg,
    ← div_eq_mul_inv, le_div_iff₀ scalePos, grid]
  exact_mod_cast floorLarge

/-- No number with at most `bits` mantissa bits lies between the rounded and the
exact value. -/
theorem le_roundDownBits {bits : ℕ} {q : ℚ} {d : Dyadic}
    (fits : FitsBits bits d) (below : d.toRat ≤ q) :
    d ≤ roundDownBits bits q := by
  cases d with
  | zero => exact le_roundDownBits_of_grid (m := 0) (by simp) below
  | ofOdd n k odd =>
      rcases le_or_gt k ((bits : ℤ) - rationalExponent q) with coarse | fine
      · obtain ⟨shift, shiftEq⟩ :=
          Int.eq_ofNat_of_zero_le (sub_nonneg.mpr coarse)
        apply le_roundDownBits_of_grid (m := n * 2 ^ shift) _ below
        rw [toRat_ofOdd_eq_mul_two_pow, Rat.mul_assoc, ← zpow_add₀ two_ne_zero]
        push_cast
        rw [← zpow_natCast]
        congr 2
        omega
      · have small := abs_toRat_lt_of_precision_lt fits fine
        have bitsPos : 0 < bits := by
          rcases Nat.eq_zero_or_pos bits with rfl | bitsPos
          · simp only [FitsBits, pow_zero] at fits
            omega
          · exact bitsPos
        rcases lt_trichotomy q 0 with qNeg | rfl | qPos
        · -- Below a negative number the mantissa would have to be longer.
          have large := two_zpow_rationalExponent_le qNeg.ne
          rw [abs_of_neg qNeg] at large
          have := neg_le_abs (ofOdd n k odd).toRat
          linarith
        · rw [← toRat_le_toRat_iff, toRat_roundDownBits]
          simpa using below
        · have large := two_zpow_le_roundDownBits bitsPos qPos
          have := le_abs_self (ofOdd n k odd).toRat
          rw [← toRat_le_toRat_iff]
          linarith

/-- Rounding down gives the greatest short number below the exact value. -/
theorem isGreatest_roundDownBits {bits : ℕ} (positive : 0 < bits) (q : ℚ) :
    IsGreatest {d : Dyadic | FitsBits bits d ∧ d.toRat ≤ q} (roundDownBits bits q) :=
  ⟨⟨fitsBits_roundDownBits positive q, roundDownBits_le bits q⟩,
    fun _ member => le_roundDownBits member.1 member.2⟩

theorem le_roundUpBits (bits : ℕ) (q : ℚ) : q ≤ (roundUpBits bits q).toRat := by
  have below := roundDownBits_le bits (-q)
  rw [roundUpBits, toRat_neg]
  linarith

theorem fitsBits_roundUpBits {bits : ℕ} (positive : 0 < bits) (q : ℚ) :
    FitsBits bits (roundUpBits bits q) :=
  (fitsBits_roundDownBits positive (-q)).neg

theorem roundUpBits_le {bits : ℕ} {q : ℚ} {d : Dyadic}
    (fits : FitsBits bits d) (above : q ≤ d.toRat) :
    roundUpBits bits q ≤ d := by
  have below : (-d).toRat ≤ -q := by
    rw [toRat_neg]
    linarith
  have negated := le_roundDownBits fits.neg below
  rw [← toRat_le_toRat_iff, toRat_neg] at negated
  rw [← toRat_le_toRat_iff, roundUpBits, toRat_neg]
  linarith

theorem isLeast_roundUpBits {bits : ℕ} (positive : 0 < bits) (q : ℚ) :
    IsLeast {d : Dyadic | FitsBits bits d ∧ q ≤ d.toRat} (roundUpBits bits q) :=
  ⟨⟨fitsBits_roundUpBits positive q, le_roundUpBits bits q⟩,
    fun _ member => roundUpBits_le member.1 member.2⟩

end Dyadic
