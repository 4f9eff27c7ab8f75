import Arbxx.BallComparison

/-!
# Rational numbers as balls

A rational number is rounded to some bits.  The ball around it is near the number, and
is the number alone where the number has no more bits.  Arb truncates, so that the ends
of the ball can be told from the number.
-/

namespace Arbxx

open ThreeValued

theorem truncateBits_of_fits {bits : ℕ} {q : ℚ} {d : Dyadic} (isNumber : d.toRat = q)
    (fits : d.FitsBits bits) : truncateBits bits q = d := by
  rw [← isNumber, truncateBits]
  split
  · apply Dyadic.le_antisymm
    · rw [← Dyadic.toRat_le_toRat_iff]
      exact Dyadic.roundDownBits_le _ _
    · exact Dyadic.le_roundDownBits fits Rat.le_refl
  · apply Dyadic.le_antisymm
    · exact Dyadic.roundUpBits_le fits Rat.le_refl
    · rw [← Dyadic.toRat_le_toRat_iff]
      exact Dyadic.le_roundUpBits _ _

theorem fitsBits_truncateBits {bits : ℕ} (positive : 0 < bits) (q : ℚ) :
    (truncateBits bits q).FitsBits bits := by
  rw [truncateBits]
  split
  · exact Dyadic.fitsBits_roundDownBits positive _
  · exact Dyadic.fitsBits_roundUpBits positive _

namespace Mpq

/-- The number is a dyadic number with a mantissa of at most so many bits. -/
def FitsBits (bits : ℕ) (q : Mpq) : Prop :=
  ∃ d : Dyadic, d.toRat = q.value ∧ d.FitsBits bits

/-- How far the ends of a ball of some bits may be from the number. -/
def allowance (precision : ℤ) (q : Mpq) : ℚ :=
  2 ^ (2 - precision) * |q.value|

/-- The first bits of the number. -/
def truncated (bits : ℕ) (q : Mpq) : Dyadic :=
  truncateBits bits q.value

/-- One unit in the last place, or nothing if the bits are all that there are. -/
def slack (bits : ℕ) (q : Mpq) : Dyadic :=
  if (q.truncated bits).toRat = q.value then 0 else unitInLastPlace bits q.value

/-- A number fits if nothing of it is cut off. -/
theorem fitsBits_iff {bits : ℕ} (positive : 0 < bits) (q : Mpq) :
    q.FitsBits bits ↔ (q.truncated bits).toRat = q.value := by
  constructor
  · rintro ⟨d, isNumber, fits⟩
    rw [truncated, truncateBits_of_fits isNumber fits, isNumber]
  · intro isExact
    exact ⟨q.truncated bits, isExact, fitsBits_truncateBits positive q.value⟩

end Mpq

namespace CLibrary

variable {model : DataModel} {lib : CLibrary model}

/-- `arb_set_fmpq` rounds to some bits, with an error that is small next to the number,
and with no error if the number has as few bits. -/
structure RoundsRationals (lib : CLibrary model) : Prop where
  setFmpq_exact : ∀ q (precision : ℤ) (d : Dyadic), 2 ≤ precision → d.toRat = q.value →
    d.FitsBits precision.toNat → lib.arbSetFmpq q precision = Arb.exact (.finite d)
  setFmpq_close : ∀ q (precision : ℤ), 2 ≤ precision → ∃ m r : Dyadic,
    (lib.arbSetFmpq q precision).mid = .finite m ∧
      (lib.arbSetFmpq q precision).rad.toArf = .finite r ∧ m.FitsBits precision.toNat ∧
      |q.value - m.toRat| ≤ r.toRat ∧ r.toRat ≤ 2 ^ (1 - precision) * |q.value|

/-- `arb_set_fmpq` truncates, and adds a unit in the last place where that is not exact. -/
structure TruncatesRationals (lib : CLibrary model) : Prop where
  setFmpq_eq : ∀ q (precision : ℤ), 2 ≤ precision →
    lib.arbSetFmpq q precision = Arb.enclosing q.value precision.toNat

theorem reference_truncatesRationals : (reference model).TruncatesRationals where
  setFmpq_eq _ _ _ := rfl

theorem TruncatesRationals.rounds (truncates : lib.TruncatesRationals) : lib.RoundsRationals where
  setFmpq_exact q precision d twoLe isNumber fits := by
    have truncated := truncateBits_of_fits isNumber fits
    rw [truncates.setFmpq_eq q precision twoLe, Arb.enclosing, truncated, if_pos isNumber]
  setFmpq_close q precision twoLe := by
    have fits := fitsBits_truncateBits (by omega : 0 < precision.toNat) q.value
    rw [truncates.setFmpq_eq q precision twoLe]
    by_cases isExact : (truncateBits precision.toNat q.value).toRat = q.value
    · rw [Arb.enclosing, if_pos isExact]
      refine ⟨_, 0, rfl, rfl, fits, ?_, ?_⟩
      · rw [isExact, sub_self, abs_zero, Dyadic.toRat_zero]
      · rw [Dyadic.toRat_zero]
        exact mul_nonneg (zpow_pos two_pos _).le (abs_nonneg _)
    · rw [Arb.enclosing, if_neg isExact]
      refine ⟨_, _, rfl, rfl, fits, truncateBits_close _ _, ?_⟩
      have nonzero : q.value ≠ 0 := by
        intro zero
        rw [zero] at isExact
        exact isExact (by simp [truncateBits, Dyadic.toRat_roundDownBits])
      have unit : (unitInLastPlace precision.toNat q.value).toRat =
          2 ^ (1 - precision) * 2 ^ (Dyadic.rationalExponent q.value - 1) := by
        rw [unitInLastPlace, Dyadic.toRat_ofIntWithPrec_eq_mul_two_pow, ← zpow_add₀ two_ne_zero,
          Int.cast_one, one_mul]
        congr 1
        omega
      rw [unit]
      exact mul_le_mul_of_nonneg_left (Dyadic.two_zpow_rationalExponent_le nonzero)
        (zpow_pos two_pos _).le

theorem reference_roundsRationals : (reference model).RoundsRationals :=
  reference_truncatesRationals.rounds

end CLibrary

namespace Arb

open CLibrary

variable {model : DataModel} {lib : CLibrary model}

/-- The elements of the ball around a rational number are near it. -/
theorem near_of_mem_ofMpqPrec (rounds : lib.RoundsRationals) (q : Mpq) {precision : ℤ}
    (twoLe : 2 ≤ precision) {t : EReal} (member : t ∈ (ofMpqPrec lib q precision).elements) :
    ∃ s : ℝ, t = s ∧ |s - q.value| ≤ ((2 ^ (2 - precision) * |q.value| : ℚ) : ℝ) := by
  obtain ⟨m, r, mid, rad, _, close, small⟩ := rounds.setFmpq_close q precision twoLe
  rw [ofMpqPrec, elements_of_finite mid rad] at member
  obtain ⟨s, rfl, near⟩ := member
  refine ⟨s, rfl, ?_⟩
  have close' : |(q.value : ℝ) - m.toRat| ≤ r.toRat := by exact_mod_cast close
  have small' : (r.toRat : ℝ) ≤ ((2 ^ (1 - precision) * |q.value| : ℚ) : ℝ) := by
    exact_mod_cast small
  have double : (2 ^ (2 - precision) * |q.value| : ℚ) = 2 * (2 ^ (1 - precision) * |q.value|) := by
    rw [← mul_assoc, ← zpow_one_add₀ two_ne_zero]
    congr 2
    omega
  rw [double]
  push_cast at small' ⊢
  calc |s - q.value|
      = |(s - m.toRat) - (q.value - m.toRat)| := by ring_nf
    _ ≤ |s - m.toRat| + |(q.value : ℝ) - m.toRat| := abs_sub _ _
    _ ≤ r.toRat + r.toRat := add_le_add near close'
    _ ≤ 2 * (2 ^ (1 - precision) * |(q.value : ℝ)|) := by linarith

theorem toEReal_mem_ofMpqPrec (rounds : lib.RoundsRationals) (q : Mpq) {precision : ℤ}
    (twoLe : 2 ≤ precision) : q.toEReal ∈ (ofMpqPrec lib q precision).elements := by
  obtain ⟨m, r, mid, rad, _, close, _⟩ := rounds.setFmpq_close q precision twoLe
  rw [ofMpqPrec, elements_of_finite mid rad]
  exact ⟨q.value, rfl, by exact_mod_cast close⟩

/-- The ends of the ball stay within the allowance. -/
theorem ends_near_ofMpqPrec (rounds : lib.RoundsRationals) (q : Mpq) {precision : ℤ}
    (twoLe : 2 ≤ precision) :
    (((q.value - q.allowance precision : ℚ) : ℝ) : EReal) ≤ (ofMpqPrec lib q precision).lower ∧
      (ofMpqPrec lib q precision).upper ≤
        (((q.value + q.allowance precision : ℚ) : ℝ) : EReal) := by
  have member := toEReal_mem_ofMpqPrec rounds q twoLe
  rw [elements_eq_Icc] at member
  have ordered := member.1.trans member.2
  constructor
  · obtain ⟨s, isEnd, near⟩ := near_of_mem_ofMpqPrec rounds q twoLe
      (elements_eq_Icc _ ▸ Set.left_mem_Icc.mpr ordered)
    have below := (abs_le.mp near).1
    rw [isEnd, EReal.coe_le_coe_iff, Mpq.allowance, Rat.cast_sub]
    linarith
  · obtain ⟨s, isEnd, near⟩ := near_of_mem_ofMpqPrec rounds q twoLe
      (elements_eq_Icc _ ▸ Set.right_mem_Icc.mpr ordered)
    have above := (abs_le.mp near).2
    rw [isEnd, EReal.coe_le_coe_iff, Mpq.allowance, Rat.cast_add]
    linarith

/-- The ends of the ball that Arb makes. -/
theorem ends_ofMpqPrec (truncates : lib.TruncatesRationals) (q : Mpq) {precision : ℤ}
    (twoLe : 2 ≤ precision) :
    (ofMpqPrec lib q precision).lower =
        (q.truncated precision.toNat - q.slack precision.toNat).toEReal ∧
      (ofMpqPrec lib q precision).upper =
        (q.truncated precision.toNat + q.slack precision.toNat).toEReal := by
  rw [ofMpqPrec, truncates.setFmpq_eq q precision twoLe, enclosing, Mpq.slack, Mpq.truncated]
  split
  · have lowerEnd : truncateBits precision.toNat q.value - 0 =
        truncateBits precision.toNat q.value := by
      rw [← Dyadic.toRat_inj, Dyadic.toRat_sub, Dyadic.toRat_zero, sub_zero]
    rw [lower_exact (by simp), upper_exact (by simp), lowerEnd, Dyadic.add_zero]
    exact ⟨rfl, rfl⟩
  · exact ⟨rfl, rfl⟩

/-- A number that does not fit is between two ends of its ball. -/
theorem exists_ends_of_not_fits (rounds : lib.RoundsRationals) {q : Mpq} {precision : ℤ}
    (twoLe : 2 ≤ precision) (notFits : ¬ q.FitsBits precision.toNat) :
    ∃ lower upper : Dyadic, lower.toEReal < upper.toEReal ∧ lower.toEReal ≤ q.toEReal ∧
      q.toEReal ≤ upper.toEReal ∧ lower.toEReal ∈ (ofMpqPrec lib q precision).elements ∧
      upper.toEReal ∈ (ofMpqPrec lib q precision).elements := by
  obtain ⟨m, r, mid, rad, fits, close, _⟩ := rounds.setFmpq_close q precision twoLe
  have different : q.value - m.toRat ≠ 0 :=
    sub_ne_zero.mpr fun same => notFits ⟨m, same.symm, fits⟩
  have positive : 0 < r.toRat := (abs_pos.mpr different).trans_le close
  obtain ⟨above, below⟩ := abs_le.mp close
  refine ⟨m - r, m + r, ?_, ?_, ?_, ?_, ?_⟩
  · rw [Dyadic.toEReal_lt_toEReal, ← Dyadic.toRat_lt_toRat_iff, Dyadic.toRat_sub,
      Dyadic.toRat_add]
    linarith
  · rw [Dyadic.toEReal, Mpq.toEReal, EReal.coe_le_coe_iff, Rat.cast_le, Dyadic.toRat_sub]
    linarith
  · rw [Dyadic.toEReal, Mpq.toEReal, EReal.coe_le_coe_iff, Rat.cast_le, Dyadic.toRat_add]
    linarith
  · rw [ofMpqPrec, elements_of_finite mid rad]
    refine ⟨_, rfl, ?_⟩
    rw [Dyadic.toRat_sub]
    have size : |(m.toRat - r.toRat) - m.toRat| ≤ r.toRat := by
      rw [sub_sub_cancel_left, abs_neg, abs_of_pos positive]
    exact_mod_cast size
  · rw [ofMpqPrec, elements_of_finite mid rad]
    refine ⟨_, rfl, ?_⟩
    rw [Dyadic.toRat_add]
    have size : |(m.toRat + r.toRat) - m.toRat| ≤ r.toRat := by
      rw [add_sub_cancel_left, abs_of_pos positive]
    exact_mod_cast size

end Arb

end Arbxx
