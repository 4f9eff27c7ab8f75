import Arbxx.ArfDecomposition

/-!
# Logarithms and shifts of `Arf`

`logb` and the shift operators move between unbounded exponents and machine
integers.  `logb` narrows the exponent before it subtracts one, and `operator>>=`
negates its count; both go wrong at one end of the range.
-/

namespace Arbxx

namespace Arf

open TwosComplement

variable {model : DataModel} (lib : CLibrary model) (numbers : NumberLibrary model)

/-- `Arf::logb`; there is no result if the subtraction overflows. -/
def logb (self : Arf) : Option (model.Value .long) :=
  let e := (numbers.arfFrexp self).2
  ((model.format model.slong).checked ((numbers.fmpzGetSi e).val - 1)).map
    fun ret => model.staticCast .long ret.val

/-- `Arf::operator<<=`. -/
def shiftLeftAssign (self : Arf) (rhs : model.Value .long) : Arf :=
  numbers.arfMul2expSi self (model.staticCast model.slong rhs.val)

/-- `Arf::operator>>=`, the left shift by the negated machine integer. -/
def shiftRightAssign (self : Arf) (rhs : model.Value .long) : Arf :=
  shiftLeftAssign numbers self (model.staticCast .long (-rhs.val))

/-! ### The logarithm -/

/-- `logb` returns the integer part of the binary logarithm. -/
def LogbExact (self : Arf) (q : ℚ) : Prop :=
  ∃ ret, logb numbers self = some ret ∧ ret.val = Int.log 2 |q| ∧
    (2 : ℚ) ^ ret.val ≤ |q| ∧ |q| < 2 ^ (ret.val + 1)

variable {lib numbers}

theorem arfFrexp_exponent (takes : numbers.TakesExponents) {d : Dyadic} (nonzero : d ≠ 0) :
    (numbers.arfFrexp (.finite d)).2 = Int.log 2 |d.toRat| + 1 := by
  obtain ⟨f, _, value, half, one⟩ := takes.arfFrexp_spec d nonzero
  have log := Dyadic.log_of_fraction value half one
  omega

theorem logb_of_narrowed {self : Arf} {ret : ℤ}
    (narrowed : (numbers.fmpzGetSi (numbers.arfFrexp self).2).val = ret + 1)
    (inRange : (model.format model.slong).InRange ret) :
    logb numbers self = some (model.staticCast .long ret) := by
  rw [logb, narrowed, add_sub_cancel_right, Format.checked_of_inRange inRange]
  rfl

private theorem inRange_slong {value : ℤ} (inRange : (model.format .long).InRange value) :
    (model.format model.slong).InRange value := by
  have sameSign : IntegerType.long.isSigned = model.slong.isSigned := model.slong_isSigned.symm
  exact inRange.of_within (model.within_of_width_le sameSign model.width_long_le_slong)

private theorem inRange_minusOne {type : IntegerType} (signed : type.isSigned = true) :
    (model.format type).InRange (-1) := by
  have minimumNeg := (model.format type).minimum_neg signed
  have maximumNonneg := (Format.inRange_zero (model.format type)).2
  exact ⟨by omega, by omega⟩

/-- Below the greatest `slong` the exponent is narrowed without loss. -/
theorem logb_of_lt (takes : numbers.TakesExponents) {d : Dyadic} (nonzero : d ≠ 0)
    (representable : (model.format .long).InRange (Int.log 2 |d.toRat|))
    (below : Int.log 2 |d.toRat| < (model.format model.slong).maximum) :
    logb numbers (.finite d) = some (model.staticCast .long (Int.log 2 |d.toRat|)) := by
  have wide := inRange_slong representable
  have next : (model.format model.slong).InRange (Int.log 2 |d.toRat| + 1) :=
    ⟨by have := wide.1; omega, by omega⟩
  apply logb_of_narrowed _ wide
  rw [arfFrexp_exponent takes nonzero]
  exact takes.fmpzGetSi_fits _ next

/-- At the greatest `slong` the exponent is narrowed to zero. -/
theorem logb_of_eq_maximum (takes : numbers.TakesExponents) {d : Dyadic} (nonzero : d ≠ 0)
    (top : Int.log 2 |d.toRat| = (model.format model.slong).maximum) :
    logb numbers (.finite d) = some (model.staticCast .long (-1)) := by
  apply logb_of_narrowed _ (inRange_minusOne model.slong_isSigned)
  rw [arfFrexp_exponent takes nonzero, top, takes.fmpzGetSi_above _ (lt_add_one _), Int.emod_self]
  rfl

theorem logb_returns_iff (takes : numbers.TakesExponents) {d : Dyadic} (nonzero : d ≠ 0)
    (representable : (model.format .long).InRange (Int.log 2 |d.toRat|)) :
    (∃ ret, logb numbers (.finite d) = some ret ∧ ret.val = Int.log 2 |d.toRat|) ↔
      Int.log 2 |d.toRat| < (model.format model.slong).maximum := by
  constructor
  · intro returned
    obtain ⟨ret, returns, value⟩ := returned
    by_contra notBelow
    have top : Int.log 2 |d.toRat| = (model.format model.slong).maximum :=
      le_antisymm (inRange_slong representable).2 (not_lt.mp notBelow)
    have maximumNonneg := (Format.inRange_zero (model.format model.slong)).2
    have minusOne : (model.staticCast .long (-1)).val = -1 :=
      Format.cast_val_of_inRange (inRange_minusOne rfl)
    rw [logb_of_eq_maximum takes nonzero top, Option.some.injEq] at returns
    rw [← returns, minusOne] at value
    omega
  · intro below
    exact ⟨_, logb_of_lt takes nonzero representable below,
      Format.cast_val_of_inRange representable⟩

theorem logbExact_iff (takes : numbers.TakesExponents) {d : Dyadic} (nonzero : d ≠ 0)
    (representable : (model.format .long).InRange (Int.log 2 |d.toRat|)) :
    LogbExact numbers (.finite d) d.toRat ↔
      Int.log 2 |d.toRat| < (model.format model.slong).maximum := by
  rw [← logb_returns_iff takes nonzero representable]
  constructor
  · intro isExact
    obtain ⟨ret, returns, value, _⟩ := isExact
    exact ⟨ret, returns, value⟩
  · intro returned
    obtain ⟨ret, returns, value⟩ := returned
    have positive : 0 < |d.toRat| := abs_pos.mpr (Dyadic.toRat_eq_zero_iff.not.mpr nonzero)
    refine ⟨ret, returns, value, ?_, ?_⟩
    · rw [value]
      exact Int.zpow_log_le_self Nat.one_lt_two positive
    · rw [value]
      exact Int.lt_zpow_succ_log_self Nat.one_lt_two |d.toRat|

/-- Where its result type allows, `logb` is exact for a number, and for one made
from a mantissa and an exponent, exactly if the logarithm is below the greatest
`slong`. -/
theorem logb_exact_iff (sets : lib.SetsIntegers) (takes : numbers.TakesExponents) :
    (∀ d : Dyadic, d ≠ 0 → (model.format .long).InRange (Int.log 2 |d.toRat|) →
      (LogbExact numbers (.finite d) d.toRat ↔
        Int.log 2 |d.toRat| < (model.format model.slong).maximum)) ∧
    (∀ (m : ℤ) (e : model.Value .long), m ≠ 0 →
      (model.format .long).InRange (m.natAbs.log2 + e.val) →
        ((∃ ret, logb numbers (ofMpz lib m e) = some ret ∧ ret.val = m.natAbs.log2 + e.val) ↔
          (m.natAbs.log2 + e.val : ℤ) < (model.format model.slong).maximum)) := by
  refine ⟨fun d nonzero representable => logbExact_iff takes nonzero representable, ?_⟩
  intro m e nonzero representable
  have log : Int.log 2 |(Dyadic.ofIntWithPrec m (-e.val)).toRat| = m.natAbs.log2 + e.val := by
    rw [Dyadic.toRat_ofIntWithPrec_neg, Dyadic.log_abs_mul_zpow nonzero]
  have returns_iff := logb_returns_iff takes (Dyadic.ofIntWithPrec_eq_zero_iff.not.mpr nonzero)
    (log.symm ▸ representable)
  rwa [log, ← ofMpz_eq sets] at returns_iff

/-- `Arf(1025).logb()` is ten. -/
theorem logb_exact_1025 :
    ∃ ret, logb (NumberLibrary.reference .lp64)
      (ofMpz (CLibrary.reference .lp64) 1025 (DataModel.lp64.staticCast .long 0)) = some ret ∧
        ret.val = 10 :=
  ((logb_exact_iff (CLibrary.reference_setsIntegers .lp64)
    (NumberLibrary.reference_takesExponents .lp64)).2 1025
    (DataModel.lp64.staticCast .long 0) (by decide) (by decide +kernel)).mpr (by decide +kernel)

/-- The logarithm of `2^(2^63 - 1)` is a `long`, and `logb` returns minus one. -/
theorem logb_inexact_maximum :
    logb (NumberLibrary.reference .lp64) (ofMpz (CLibrary.reference .lp64) 1
        (DataModel.lp64.staticCast .long (2 ^ 63 - 1))) =
      some (DataModel.lp64.staticCast .long (-1)) ∧
    (DataModel.lp64.format .long).InRange
      ((1 : ℤ).natAbs.log2 + (DataModel.lp64.staticCast .long (2 ^ 63 - 1)).val) ∧
    ¬ ∃ ret, logb (NumberLibrary.reference .lp64) (ofMpz (CLibrary.reference .lp64) 1
        (DataModel.lp64.staticCast .long (2 ^ 63 - 1))) = some ret ∧
      ret.val = (1 : ℤ).natAbs.log2 + (DataModel.lp64.staticCast .long (2 ^ 63 - 1)).val := by
  have returned : logb (NumberLibrary.reference .lp64) (ofMpz (CLibrary.reference .lp64) 1
      (DataModel.lp64.staticCast .long (2 ^ 63 - 1))) =
    some (DataModel.lp64.staticCast .long (-1)) := by decide +kernel
  refine ⟨returned, by decide +kernel, ?_⟩
  intro exact
  obtain ⟨ret, returns, value⟩ := exact
  rw [returned, Option.some.injEq] at returns
  rw [← returns] at value
  exact absurd value (by decide +kernel)

/-! ### The shifts -/

theorem shiftLeftAssign_eq (scales : numbers.Scales) (a : Arf) (rhs : model.Value .long) :
    shiftLeftAssign numbers a rhs = a.scale rhs.val := by
  rw [shiftLeftAssign, scales.arfMul2expSi_eq, DataModel.staticCast_slong_val]

theorem shiftRightAssign_eq (scales : numbers.Scales) (a : Arf) {rhs : model.Value .long}
    (notMinimum : rhs.val ≠ (model.format .long).minimum) :
    shiftRightAssign numbers a rhs = a.scale (-rhs.val) := by
  have negated : (model.staticCast .long (-rhs.val)).val = -rhs.val :=
    (model.format .long).wrap_neg_of_ne_minimum rfl rhs.property notMinimum
  rw [shiftRightAssign, shiftLeftAssign_eq scales, negated]

/-- The least `long` is its own negative. -/
theorem shiftRightAssign_minimum (scales : numbers.Scales) (a : Arf) {rhs : model.Value .long}
    (isMinimum : rhs.val = (model.format .long).minimum) :
    shiftRightAssign numbers a rhs = a.scale rhs.val := by
  have negated : (model.staticCast .long (-rhs.val)).val = rhs.val := by
    rw [isMinimum]
    exact (model.format .long).wrap_neg_minimum rfl
  rw [shiftRightAssign, shiftLeftAssign_eq scales, negated]

/-- Shifting to the left scales exactly, and two counts add up. -/
structure LeftShiftsExactly (numbers : NumberLibrary model) (x : Arf) (a b : model.Value .long) :
    Prop where
  left : shiftLeftAssign numbers x a = x.scale a.val
  left_left : shiftLeftAssign numbers (shiftLeftAssign numbers x a) b = x.scale (a.val + b.val)

/-- Shifting by two counts scales exactly, one undoes the other, and the counts
add up. -/
structure ShiftsExactly (numbers : NumberLibrary model) (x : Arf) (a b : model.Value .long) : Prop
    extends LeftShiftsExactly numbers x a b where
  right : shiftRightAssign numbers x a = x.scale (-a.val)
  right_left : shiftRightAssign numbers (shiftLeftAssign numbers x a) a = x
  left_right : shiftLeftAssign numbers (shiftRightAssign numbers x a) a = x
  right_right : shiftRightAssign numbers (shiftRightAssign numbers x a) b =
    x.scale (-(a.val + b.val))

private theorem leftShiftsExactly (scales : numbers.Scales) (x : Arf) (a b : model.Value .long) :
    LeftShiftsExactly numbers x a b where
  left := shiftLeftAssign_eq scales x a
  left_left := by
    rw [shiftLeftAssign_eq scales, shiftLeftAssign_eq scales, scale_scale]

private theorem shiftsExactly_of_ne_minimum (scales : numbers.Scales) (x : Arf)
    {a b : model.Value .long} (aNe : a.val ≠ (model.format .long).minimum)
    (bNe : b.val ≠ (model.format .long).minimum) : ShiftsExactly numbers x a b where
  toLeftShiftsExactly := leftShiftsExactly scales x a b
  right := shiftRightAssign_eq scales x aNe
  right_left := by
    rw [shiftRightAssign_eq scales _ aNe, shiftLeftAssign_eq scales, scale_scale, add_neg_cancel,
      scale_zero]
  left_right := by
    rw [shiftRightAssign_eq scales _ aNe, shiftLeftAssign_eq scales, scale_scale, neg_add_cancel,
      scale_zero]
  right_right := by
    rw [shiftRightAssign_eq scales _ aNe, shiftRightAssign_eq scales _ bNe, scale_scale, neg_add]

private theorem shiftsExactly_of_not_regular (scales : numbers.Scales) {x : Arf}
    (special : ¬ x.IsRegular) (a b : model.Value .long) : ShiftsExactly numbers x a b := by
  have left : ∀ count, shiftLeftAssign numbers x count = x := by
    intro count
    rw [shiftLeftAssign_eq scales, scale_of_not_regular special]
  have right : ∀ count, shiftRightAssign numbers x count = x := fun count => left _
  have scaled : ∀ e, x.scale e = x := scale_of_not_regular special
  refine ⟨leftShiftsExactly scales x a b, ?_, ?_, ?_, ?_⟩ <;> simp only [left, right, scaled]

/-- Shifts to the left are exact, and all shifts are unless a number other than zero is
shifted by the least `long`. -/
theorem shiftsExactly_iff (scales : numbers.Scales) (x : Arf) (a b : model.Value .long) :
    LeftShiftsExactly numbers x a b ∧
    (ShiftsExactly numbers x a b ↔
      ¬ (x.IsRegular ∧
        (a.val = (model.format .long).minimum ∨ b.val = (model.format .long).minimum))) := by
  have minimumNeg := (model.format .long).minimum_neg rfl
  refine ⟨leftShiftsExactly scales x a b, ?_⟩
  constructor
  · intro exact failing
    obtain ⟨regular, isMinimum⟩ := failing
    by_cases aMinimum : a.val = (model.format .long).minimum
    · have right := exact.right
      rw [shiftRightAssign_minimum scales x aMinimum, scale_inj regular] at right
      omega
    · have bMinimum := isMinimum.resolve_left aMinimum
      have right := exact.right_right
      rw [shiftRightAssign_eq scales x aMinimum, shiftRightAssign_minimum scales _ bMinimum,
        scale_scale, scale_inj regular] at right
      omega
  · intro notFailing
    by_cases regular : x.IsRegular
    · have neither := not_or.mp fun isMinimum => notFailing ⟨regular, isMinimum⟩
      exact shiftsExactly_of_ne_minimum scales x neither.1 neither.2
    · exact shiftsExactly_of_not_regular scales regular a b

theorem shiftsExactly_three :
    ShiftsExactly (NumberLibrary.reference .lp64) (ofInt 3)
      (DataModel.lp64.staticCast .long (2 ^ 63 - 1)) (DataModel.lp64.staticCast .long 8) :=
  (shiftsExactly_iff (NumberLibrary.reference_scales .lp64) _ _ _).2.mpr (by decide +kernel)

/-- Shifting one to the right by the least `long` shifts it to the left by the least
`long`. -/
theorem not_shiftsExactly_minimum :
    ¬ ShiftsExactly (NumberLibrary.reference .lp64) (ofInt 1)
        (DataModel.lp64.staticCast .long (-2 ^ 63)) (DataModel.lp64.staticCast .long 0) ∧
      shiftRightAssign (NumberLibrary.reference .lp64) (ofInt 1)
        (DataModel.lp64.staticCast .long (-2 ^ 63)) = (ofInt 1).scale (-2 ^ 63) := by
  have shifted : shiftRightAssign (NumberLibrary.reference .lp64) (ofInt 1)
      (DataModel.lp64.staticCast .long (-2 ^ 63)) = (ofInt 1).scale (-2 ^ 63) := by
    decide +kernel
  refine ⟨?_, shifted⟩
  intro exact
  have right := exact.right
  rw [shifted] at right
  exact absurd right (by decide +kernel)

end Arf

end Arbxx
