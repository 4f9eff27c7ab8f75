import Arbxx.ArfScaling
import Arbxx.IntegerParts
import Mathlib.Data.EReal.Inv

/-!
# Runs of shifts

Shifts only move the exponent, and exponents are unbounded.  So however an element
is shifted to and fro, in whatever order, only the sum of the counts matters, and all
that does not look at the exponent stays as it was.
-/

namespace Arbxx

open ThreeValued TwosComplement

inductive Shift (model : DataModel)
  | left (rhs : model.Value .long)
  | right (rhs : model.Value .long)

namespace Shift

variable {model : DataModel} (numbers : NumberLibrary model)

def apply (self : Arf) : Shift model → Arf
  | left rhs => Arf.shiftLeftAssign numbers self rhs
  | right rhs => Arf.shiftRightAssign numbers self rhs

def applyAll (self : Arf) (shifts : List (Shift model)) : Arf :=
  shifts.foldl (apply numbers) self

/-- The power of two that a shift multiplies by.  The least `long` goes to the left
whichever way it is shifted by. -/
def power : Shift model → ℤ
  | left rhs => rhs.val
  | right rhs => if rhs.val = (model.format .long).minimum then rhs.val else -rhs.val

def totalPower (shifts : List (Shift model)) : ℤ :=
  (shifts.map power).sum

variable {numbers}

theorem apply_eq (scales : numbers.Scales) (self : Arf) (shift : Shift model) :
    apply numbers self shift = self.scale shift.power := by
  cases shift with
  | left rhs => exact Arf.shiftLeftAssign_eq scales self rhs
  | right rhs =>
      by_cases isMinimum : rhs.val = (model.format .long).minimum
      · rw [apply, power, if_pos isMinimum, Arf.shiftRightAssign_minimum scales self isMinimum]
      · rw [apply, power, if_neg isMinimum, Arf.shiftRightAssign_eq scales self isMinimum]

theorem applyAll_eq (scales : numbers.Scales) (self : Arf) (shifts : List (Shift model)) :
    applyAll numbers self shifts = self.scale (totalPower shifts) := by
  induction shifts generalizing self with
  | nil => exact self.scale_zero.symm
  | cons shift shifts induction =>
      have rest : applyAll numbers self (shift :: shifts) =
          applyAll numbers (apply numbers self shift) shifts := rfl
      rw [rest, induction, apply_eq scales, Arf.scale_scale]
      rfl

end Shift

namespace Arf

variable {model : DataModel} {lib : CLibrary model} {numbers : NumberLibrary model}

theorem scale_eq_nan {a : Arf} (e : ℤ) : a.scale e = .nan ↔ a = .nan := by
  cases a <;> simp [scale]

theorem neg_scale (a : Arf) (e : ℤ) : (a.scale e).neg = a.neg.scale e := by
  cases a with
  | finite d =>
      have moved : -(d <<< e) = (-d) <<< e := by
        rw [← Dyadic.toRat_inj, Dyadic.toRat_neg, Dyadic.toRat_shiftLeft, Dyadic.toRat_shiftLeft,
          Dyadic.toRat_neg, neg_mul]
      exact congrArg Arf.finite moved
  | _ => rfl

private theorem mul_zpow_strictMono (e : ℤ) :
    StrictMono fun t : EReal => t * ((2 : ℝ) ^ e : ℝ) := by
  have positive : (0 : EReal) ≤ ((2 : ℝ) ^ e : ℝ) :=
    EReal.coe_nonneg.mpr (zpow_nonneg zero_le_two e)
  have monotone : Monotone fun t : EReal => t * ((2 : ℝ) ^ e : ℝ) :=
    fun _ _ below => mul_le_mul_of_nonneg_right below positive
  have undone : Function.LeftInverse (fun t : EReal => t * ((2 : ℝ) ^ (-e) : ℝ))
      fun t => t * ((2 : ℝ) ^ e : ℝ) := by
    intro t
    have cancels : ((2 : ℝ) ^ e : ℝ) * (2 : ℝ) ^ (-e) = 1 := by
      rw [← zpow_add₀ two_ne_zero, add_neg_cancel, zpow_zero]
    dsimp only
    rw [mul_assoc, ← EReal.coe_mul, cancels, EReal.coe_one, mul_one]
  exact monotone.strictMono_of_injective undone.injective

/-- Every operator answers for two elements what it answers once both are scaled. -/
theorem operator_scale (compares : lib.ComparesFloats) (comparison : Comparison) (a b : Arf)
    (e : ℤ) : operator lib comparison (a.scale e) (b.scale e) = operator lib comparison a b := by
  by_cases someNan : a = .nan ∨ b = .nan
  · have scaledNan : a.scale e = .nan ∨ b.scale e = .nan := by simpa [scale_eq_nan] using someNan
    have equal : a.scale e = b.scale e ↔ a = b := by
      constructor
      · intro same
        have undone := congrArg (scale · (-e)) same
        simpa [scale_scale] using undone
      · exact congrArg (scale · e)
    rw [operator_of_nan compares comparison scaledNan, operator_of_nan compares comparison someNan,
      decide_eq_decide.mpr equal]
  · obtain ⟨aNumber, bNumber⟩ := not_or.mp someNan
    rw [Bool.eq_iff_iff, operator_iff_holds compares comparison aNumber bNumber,
      operator_iff_holds compares comparison ((scale_eq_nan e).not.mpr aNumber)
        ((scale_eq_nan e).not.mpr bNumber), toEReal_scale, toEReal_scale]
    exact Comparison.holds_map (mul_zpow_strictMono e) comparison a.toEReal b.toEReal

/-- A number shifted to the right by its logarithm lies between one and two. -/
theorem shiftRightAssign_logb (takes : numbers.TakesExponents) (scales : numbers.Scales)
    {d : Dyadic} (nonzero : d ≠ 0)
    (representable : (model.format .long).InRange (Int.log 2 |d.toRat|))
    (aboveMinimum : (model.format .long).minimum < Int.log 2 |d.toRat|)
    (belowMaximum : Int.log 2 |d.toRat| < (model.format model.slong).maximum) :
    ∃ (log : model.Value .long) (e : Dyadic), logb numbers (.finite d) = some log ∧
      shiftRightAssign numbers (.finite d) log = .finite e ∧ 1 ≤ |e.toRat| ∧ |e.toRat| < 2 := by
  obtain ⟨log, returned, value⟩ := (logb_returns_iff takes nonzero representable).mpr belowMaximum
  have notMinimum : log.val ≠ (model.format .long).minimum := by omega
  refine ⟨log, d <<< (-log.val), returned, shiftRightAssign_eq scales _ notMinimum, ?_⟩
  have normalized : Int.log 2 |(d <<< (-log.val)).toRat| = 0 := by
    rw [Dyadic.log_shiftLeft nonzero, value]
    omega
  have positive : 0 < |(d <<< (-log.val)).toRat| :=
    abs_pos.mpr (Dyadic.toRat_eq_zero_iff.not.mpr (Dyadic.shiftLeft_ne_zero nonzero _))
  have below := Int.zpow_log_le_self Nat.one_lt_two positive
  have above := Int.lt_zpow_succ_log_self Nat.one_lt_two |(d <<< (-log.val)).toRat|
  rw [normalized] at below above
  simpa using And.intro below above

end Arf

namespace Shift

variable {model : DataModel} {lib : CLibrary model} {numbers : NumberLibrary model}

/-- Of a run of shifts by any counts only the total power of two matters.  It changes
no comparison between two elements, no sign and no mantissa; the exponent moves by the
total, and so does the logarithm as long as it is below the greatest `slong`.  Then a
shift by the logarithm, unless that is the least `long`, ends between one and two. -/
theorem shift_runs (compares : lib.ComparesFloats) (decomposes : numbers.Decomposes)
    (takes : numbers.TakesExponents) (scales : numbers.Scales)
    (rounds : numbers.RoundsToIntegers) (shifts others : List (Shift model)) :
    (∀ a : Arf, applyAll numbers a shifts = applyAll numbers a others ↔
      ¬ a.IsRegular ∨ totalPower shifts = totalPower others) ∧
    (∀ comparison (a b : Arf), totalPower shifts = totalPower others →
      Arf.operator lib comparison (applyAll numbers a shifts) (applyAll numbers b others) =
        Arf.operator lib comparison a b) ∧
    (∀ a, Arf.operatorNeg numbers (applyAll numbers a shifts) =
      applyAll numbers (Arf.operatorNeg numbers a) shifts) ∧
    ∀ d : Dyadic, d ≠ 0 →
      Arf.mantissa numbers (applyAll numbers (.finite d) shifts) =
          Arf.mantissa numbers (.finite d) ∧
        Arf.exponent numbers (applyAll numbers (.finite d) shifts) =
          Arf.exponent numbers (.finite d) + totalPower shifts ∧
        ((model.format .long).InRange (Int.log 2 |d.toRat| + totalPower shifts) →
          ((∃ log, Arf.logb numbers (applyAll numbers (.finite d) shifts) = some log ∧
              log.val = Int.log 2 |d.toRat| + totalPower shifts) ↔
            Int.log 2 |d.toRat| + totalPower shifts < (model.format model.slong).maximum)) ∧
        ((model.format .long).InRange (Int.log 2 |d.toRat| + totalPower shifts) →
          (model.format .long).minimum < Int.log 2 |d.toRat| + totalPower shifts →
          Int.log 2 |d.toRat| + totalPower shifts < (model.format model.slong).maximum →
            ∃ log e, Arf.logb numbers (applyAll numbers (.finite d) shifts) = some log ∧
              applyAll numbers (.finite d) (shifts ++ [right log]) = .finite e ∧
                1 ≤ |e.toRat| ∧ |e.toRat| < 2) := by
  refine ⟨?_, ?_, ?_, ?_⟩
  · intro a
    rw [applyAll_eq scales, applyAll_eq scales]
    by_cases regular : a.IsRegular
    · simp [regular, Arf.scale_inj regular]
    · simp [regular, Arf.scale_of_not_regular regular]
  · intro comparison a b sameTotal
    rw [applyAll_eq scales, applyAll_eq scales, sameTotal, Arf.operator_scale compares]
  · intro a
    rw [applyAll_eq scales, applyAll_eq scales, Arf.operatorNeg, Arf.operatorNeg,
      rounds.arfNeg_eq, rounds.arfNeg_eq, Arf.neg_scale]
  · intro d nonzero
    have moved : applyAll numbers (.finite d) shifts = .finite (d <<< totalPower shifts) :=
      applyAll_eq scales (.finite d) shifts
    rw [moved, Arf.mantissa_finite decomposes, Arf.mantissa_finite decomposes,
      Arf.exponent_finite decomposes, Arf.exponent_finite decomposes, Dyadic.mantissa_shiftLeft,
      Dyadic.twoExponent_shiftLeft nonzero, ← Dyadic.log_shiftLeft nonzero]
    have stillNonzero := Dyadic.shiftLeft_ne_zero nonzero (totalPower shifts)
    refine ⟨rfl, rfl, Arf.logb_returns_iff takes stillNonzero, ?_⟩
    intro representable aboveMinimum belowMaximum
    obtain ⟨log, e, returned, shifted, bounds⟩ := Arf.shiftRightAssign_logb takes scales
      stillNonzero representable aboveMinimum belowMaximum
    refine ⟨log, e, returned, ?_, bounds⟩
    rw [applyAll, List.foldl_append]
    change apply numbers (applyAll numbers (.finite d) shifts) (right log) = _
    rw [moved]
    exact shifted

/-- Shifting to the right by the least `long` and then to the left is shifting twice to
the left. -/
theorem shift_runs_minimum :
    let numbers := NumberLibrary.reference .lp64
    let minimum : DataModel.lp64.Value .long := DataModel.lp64.staticCast .long (-2 ^ 63)
    let five : DataModel.lp64.Value .long := DataModel.lp64.staticCast .long 5
    applyAll numbers (Arf.ofInt 3) [right minimum, left five] =
      applyAll numbers (Arf.ofInt 3) [left five, left minimum] :=
  ((shift_runs (CLibrary.reference_comparesFloats .lp64)
    (NumberLibrary.reference_decomposes .lp64)
    (NumberLibrary.reference_takesExponents .lp64) (NumberLibrary.reference_scales .lp64)
    (NumberLibrary.reference_roundsToIntegers .lp64) _ _).1 _).mpr (.inr (by decide +kernel))

end Shift

end Arbxx
