import Arbxx.DyadicRounding

/-!
# Mantissas, exponents and powers of two

A dyadic number is an odd integer times a power of two, or zero.  This file reads
off the two parts, multiplies by powers of two, and relates the size of a number
to the integer part of its binary logarithm and to its neighbouring integers.
-/

namespace Dyadic

/-- The odd mantissa of a nonzero number, and zero for zero. -/
def mantissa : Dyadic → ℤ
  | .zero => 0
  | .ofOdd n _ _ => n

/-- The exponent of two next to the odd mantissa, and zero for zero. -/
def twoExponent : Dyadic → ℤ
  | .zero => 0
  | .ofOdd _ k _ => -k

theorem toRat_eq_mantissa_mul (d : Dyadic) : d.toRat = d.mantissa * 2 ^ d.twoExponent := by
  cases d with
  | zero => simp [mantissa]
  | ofOdd n k odd => exact toRat_ofOdd_eq_mul_two_pow

theorem mantissa_odd {d : Dyadic} (nonzero : d ≠ 0) : d.mantissa % 2 = 1 := by
  cases d with
  | zero => exact (nonzero rfl).elim
  | ofOdd n k odd => exact odd

/-- A number is made again from its mantissa and its exponent. -/
theorem ofIntWithPrec_mantissa (d : Dyadic) : ofIntWithPrec d.mantissa (-d.twoExponent) = d := by
  rw [← toRat_inj, toRat_ofIntWithPrec_eq_mul_two_pow, neg_neg, ← toRat_eq_mantissa_mul]

theorem toRat_ofIntWithPrec_neg (m e : ℤ) : (ofIntWithPrec m (-e)).toRat = m * 2 ^ e := by
  rw [toRat_ofIntWithPrec_eq_mul_two_pow, neg_neg]

theorem ofIntWithPrec_eq_iff {m e m' e' : ℤ} :
    ofIntWithPrec m (-e) = ofIntWithPrec m' (-e') ↔ (m : ℚ) * 2 ^ e = m' * 2 ^ e' := by
  rw [← toRat_inj, toRat_ofIntWithPrec_neg, toRat_ofIntWithPrec_neg]

/-- The integers are the numbers without a negative exponent of two. -/
theorem exists_eq_ofInt_iff {d : Dyadic} : (∃ n, d = Dyadic.ofInt n) ↔ 0 ≤ d.twoExponent := by
  have ofInt_toRat (n : ℤ) : (Dyadic.ofInt n).toRat = n := toRat_intCast n
  constructor
  · rintro ⟨n, isInteger⟩
    by_contra negative
    have nonzero : d ≠ 0 := by
      rintro rfl
      exact negative le_rfl
    have odd := mantissa_odd nonzero
    obtain ⟨k, isPower⟩ : ∃ k : ℕ, d.twoExponent = -(k + 1) :=
      ⟨(-d.twoExponent - 1).toNat, by omega⟩
    have value := toRat_eq_mantissa_mul d
    rw [isInteger, ofInt_toRat, ← isInteger, isPower, zpow_neg, ← div_eq_mul_inv,
      eq_div_iff (zpow_ne_zero _ two_ne_zero)] at value
    have even : n * 2 ^ (k + 1) = d.mantissa := by exact_mod_cast value
    rw [← even, pow_succ, ← Int.mul_assoc, Int.mul_emod_left] at odd
    exact zero_ne_one odd
  · intro whole
    obtain ⟨k, isPower⟩ := Int.eq_ofNat_of_zero_le whole
    refine ⟨d.mantissa * 2 ^ k, toRat_inj.mp ?_⟩
    rw [ofInt_toRat, toRat_eq_mantissa_mul, isPower]
    push_cast
    rfl

theorem ofIntWithPrec_eq_zero_iff {m e : ℤ} : ofIntWithPrec m e = 0 ↔ m = 0 := by
  rw [← toRat_eq_zero_iff, toRat_ofIntWithPrec_eq_mul_two_pow, mul_eq_zero]
  simp [zpow_ne_zero]

/-! ### Multiplication by powers of two -/

@[simp]
theorem toRat_shiftLeft (d : Dyadic) (e : ℤ) : (d <<< e).toRat = d.toRat * 2 ^ e := by
  cases d with
  | zero =>
      have shifted : (zero <<< e : Dyadic) = 0 := rfl
      rw [shifted, Dyadic.zero_eq, toRat_zero, zero_mul]
  | ofOdd n k odd =>
      have shifted : (ofOdd n k odd <<< e : Dyadic) = ofOdd n (k - e) odd := rfl
      rw [shifted, toRat_ofOdd_eq_mul_two_pow, toRat_ofOdd_eq_mul_two_pow, Rat.mul_assoc,
        ← zpow_add₀ two_ne_zero, neg_sub, sub_eq_add_neg, Int.add_comm]

theorem shiftLeft_shiftLeft (d : Dyadic) (a b : ℤ) : d <<< a <<< b = d <<< (a + b) := by
  rw [← toRat_inj, toRat_shiftLeft, toRat_shiftLeft, toRat_shiftLeft, Rat.mul_assoc,
    ← zpow_add₀ two_ne_zero]

@[simp]
theorem shiftLeft_zero (d : Dyadic) : d <<< (0 : ℤ) = d := by
  rw [← toRat_inj, toRat_shiftLeft, zpow_zero, Rat.mul_one]

/-- Different powers of two move a nonzero number to different places. -/
theorem shiftLeft_inj {d : Dyadic} (nonzero : d ≠ 0) {a b : ℤ} : d <<< a = d <<< b ↔ a = b := by
  constructor
  · intro same
    have value : d.toRat ≠ 0 := toRat_eq_zero_iff.not.mpr nonzero
    rw [← toRat_inj, toRat_shiftLeft, toRat_shiftLeft, mul_right_inj' value] at same
    exact zpow_right_injective₀ two_pos (by norm_num) same
  · intro same
    rw [same]

/-! ### Binary logarithms -/

/-- The size of a number between powers of two determines the integer part of its
binary logarithm. -/
theorem log_eq_of_bounds {q : ℚ} {k : ℤ} (lower : (2 : ℚ) ^ k ≤ q) (upper : q < 2 ^ (k + 1)) :
    Int.log 2 q = k := by
  have positive : 0 < q := lt_of_lt_of_le (zpow_pos two_pos k) lower
  have above := (Int.zpow_le_iff_le_log Nat.one_lt_two positive).mp (by exact_mod_cast lower)
  have below := (Int.lt_zpow_iff_log_lt Nat.one_lt_two positive).mp (by exact_mod_cast upper)
  omega

/-- A fraction between one half and one next to a power of two is the logarithm
plus one. -/
theorem log_of_fraction {q f : ℚ} {k : ℤ} (value : q = f * 2 ^ k) (half : 1 / 2 ≤ |f|)
    (one : |f| < 1) : Int.log 2 |q| = k - 1 := by
  have scalePos : (0 : ℚ) < 2 ^ k := zpow_pos two_pos k
  have size : |q| = |f| * 2 ^ k := by rw [value, abs_mul, abs_of_pos scalePos]
  apply log_eq_of_bounds
  · rw [size, zpow_sub_one₀ two_ne_zero, Rat.mul_comm]
    apply mul_le_mul_of_nonneg_right _ scalePos.le
    linarith
  · rw [size, sub_add_cancel]
    calc |f| * 2 ^ k < 1 * 2 ^ k := mul_lt_mul_of_pos_right one scalePos
      _ = 2 ^ k := Rat.one_mul _

theorem log_abs_mul_zpow {m : ℤ} (nonzero : m ≠ 0) (e : ℤ) :
    Int.log 2 |(m : ℚ) * 2 ^ e| = m.natAbs.log2 + e := by
  have scalePos : (0 : ℚ) < 2 ^ e := zpow_pos two_pos e
  have size : |(m : ℚ) * 2 ^ e| = m.natAbs * 2 ^ e := by
    rw [abs_mul, abs_of_pos scalePos, Nat.cast_natAbs, Int.cast_abs]
  have lower : (2 : ℚ) ^ m.natAbs.log2 ≤ m.natAbs := by
    exact_mod_cast Nat.log2_self_le (Int.natAbs_ne_zero.mpr nonzero)
  have upper : (m.natAbs : ℚ) < 2 ^ (m.natAbs.log2 + 1) := by
    exact_mod_cast Nat.lt_log2_self
  rw [size]
  apply log_eq_of_bounds
  · rw [zpow_add₀ two_ne_zero, zpow_natCast]
    exact mul_le_mul_of_nonneg_right lower scalePos.le
  · rw [add_right_comm, zpow_add₀ two_ne_zero]
    apply mul_lt_mul_of_pos_right _ scalePos
    exact_mod_cast upper

theorem mantissa_shiftLeft (d : Dyadic) (e : ℤ) : (d <<< e).mantissa = d.mantissa := by
  cases d <;> rfl

theorem twoExponent_shiftLeft {d : Dyadic} (nonzero : d ≠ 0) (e : ℤ) :
    (d <<< e).twoExponent = d.twoExponent + e := by
  cases d with
  | zero => exact (nonzero rfl).elim
  | ofOdd n k odd =>
      have moved : (ofOdd n k odd <<< e).twoExponent = -(k - e) := rfl
      rw [moved, twoExponent]
      omega

theorem shiftLeft_ne_zero {d : Dyadic} (nonzero : d ≠ 0) (e : ℤ) : d <<< e ≠ 0 := by
  rw [Ne, ← toRat_eq_zero_iff, toRat_shiftLeft, mul_eq_zero, toRat_eq_zero_iff]
  exact not_or.mpr ⟨nonzero, zpow_ne_zero e two_ne_zero⟩

theorem log_shiftLeft {d : Dyadic} (nonzero : d ≠ 0) (e : ℤ) :
    Int.log 2 |(d <<< e).toRat| = Int.log 2 |d.toRat| + e := by
  have mantissaNonzero : d.mantissa ≠ 0 := by
    have odd := mantissa_odd nonzero
    omega
  rw [toRat_eq_mantissa_mul (d <<< e), toRat_eq_mantissa_mul d, mantissa_shiftLeft,
    twoExponent_shiftLeft nonzero, log_abs_mul_zpow mantissaNonzero,
    log_abs_mul_zpow mantissaNonzero, Int.add_assoc]

end Dyadic
