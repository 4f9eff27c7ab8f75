import Arbxx.BallComparison

/-!
# Special balls

The balls that static methods of `Arb` return: zero, one, the infinities, the whole
line, the balls `[-1, 1]` and `[0, 1]`, and the indeterminate ball.  The comparisons
with the infinities see whether a ball is finite.
-/

namespace Arbxx

open ThreeValued TwosComplement

/-- The functions of Arb behind the static methods of `Arb`, and `arf_abs`. -/
structure SpecialLibrary where
  arfAbs : Arf → Arf
  arbPosInf : Arb
  arbNegInf : Arb
  arbZeroPmOne : Arb
  arbZeroPmInf : Arb
  arbIndeterminate : Arb
  arbUnitInterval : Arb

namespace Arf

/-- The number without its sign. -/
def magnitude : Arf → Arf
  | .finite d => .finite (if d < 0 then -d else d)
  | .posInf | .negInf => .posInf
  | .nan => .nan

/-- `Arf::abs`. -/
def abs (special : SpecialLibrary) (self : Arf) : Arf :=
  special.arfAbs self

end Arf

namespace SpecialLibrary

variable (special : SpecialLibrary)

/-- The special balls are given by their midpoints and radii. -/
structure MakesSpecialBalls : Prop where
  arbPosInf_eq : special.arbPosInf = Arb.exact .posInf
  arbNegInf_eq : special.arbNegInf = Arb.exact .negInf
  arbZeroPmOne_eq : special.arbZeroPmOne = Arb.unitBall
  arbZeroPmInf_eq : special.arbZeroPmInf = ⟨.finite 0, .inf⟩
  arbIndeterminate_eq : special.arbIndeterminate = ⟨.nan, .inf⟩
  arbUnitInterval_eq : special.arbUnitInterval =
    ⟨.finite (Dyadic.ofIntWithPrec 1 1),
      .finite (Dyadic.ofIntWithPrec 1 1) (by decide) (by decide)⟩

def reference : SpecialLibrary where
  arfAbs := Arf.magnitude
  arbPosInf := Arb.exact .posInf
  arbNegInf := Arb.exact .negInf
  arbZeroPmOne := Arb.unitBall
  arbZeroPmInf := ⟨.finite 0, .inf⟩
  arbIndeterminate := ⟨.nan, .inf⟩
  arbUnitInterval :=
    ⟨.finite (Dyadic.ofIntWithPrec 1 1),
      .finite (Dyadic.ofIntWithPrec 1 1) (by decide) (by decide)⟩

theorem reference_makesSpecialBalls : reference.MakesSpecialBalls :=
  ⟨rfl, rfl, rfl, rfl, rfl, rfl⟩

end SpecialLibrary

namespace Arb

variable {model : DataModel} (lib : CLibrary model) (special : SpecialLibrary)

/-- `Arb::zero()`, the default constructed element. -/
def zero : Arb :=
  exact (.finite 0)

/-- `Arb::one()`, which is `Arb(1)`. -/
def one : Computation Arb :=
  construct lib (.int (model.staticCast .int 1))

def posInf : Arb :=
  special.arbPosInf

def negInf : Arb :=
  special.arbNegInf

/-- `Arb::zero_pm_one()`. -/
def zeroPmOne : Arb :=
  special.arbZeroPmOne

/-- `Arb::zero_pm_inf()`. -/
def zeroPmInf : Arb :=
  special.arbZeroPmInf

def indeterminate : Arb :=
  special.arbIndeterminate

def unitInterval : Arb :=
  special.arbUnitInterval

section Comparisons

variable {lib special}

/-- A ball is finite if it has elements and neither infinity is one of them. -/
theorem isFinite_iff_notMem (handles : lib.HandlesBalls) (x : Arb) :
    isFinite lib x = true ↔ x.mid ≠ .nan ∧ ⊥ ∉ x.elements ∧ ⊤ ∉ x.elements := by
  rw [isFinite, handles.isFinite_iff]
  obtain ⟨mid, rad⟩ := x
  cases mid with
  | finite m =>
      cases rad with
      | inf => simp [elements]
      | finite r nonneg short => simp [elements]
  | _ => cases rad <;> simp [elements]

private theorem always_univ_iff {elements : Set EReal} (nonempty : elements.Nonempty)
    (comparison : Comparison) :
    Always comparison.Holds Set.univ elements ↔
      comparison = .le ∧ elements = {⊤} ∨ comparison = .ge ∧ elements = {⊥} := by
  obtain ⟨u, uMem⟩ := nonempty
  have singleton_iff (point : EReal) :
      elements = {point} ↔ ∀ v ∈ elements, v = point := by
    rw [Set.eq_singleton_iff_nonempty_unique_mem]
    exact and_iff_right ⟨u, uMem⟩
  cases comparison with
  | lt =>
      have fails : ¬ Always Comparison.lt.Holds Set.univ elements := fun always =>
        lt_irrefl u (always u trivial u uMem)
      simp [fails]
  | gt =>
      have fails : ¬ Always Comparison.gt.Holds Set.univ elements := fun always =>
        lt_irrefl u (always u trivial u uMem)
      simp [fails]
  | ne =>
      have fails : ¬ Always Comparison.ne.Holds Set.univ elements := fun always =>
        always u trivial u uMem rfl
      simp [fails]
  | eq =>
      have fails : ¬ Always Comparison.eq.Holds Set.univ elements := fun always =>
        bot_ne_top ((always ⊥ trivial u uMem).trans (always ⊤ trivial u uMem).symm)
      simp [fails]
  | le =>
      rw [singleton_iff ⊤]
      simp only [true_and, reduceCtorEq, false_and, or_false]
      exact ⟨fun always v vMem => top_le_iff.mp (always ⊤ trivial v vMem),
        fun isTop t _ v vMem => (isTop v vMem).symm ▸ le_top⟩
  | ge =>
      rw [singleton_iff ⊥]
      simp only [true_and, reduceCtorEq, false_and, false_or]
      exact ⟨fun always v vMem => le_bot_iff.mp (always ⊥ trivial v vMem),
        fun isBot t _ v vMem => (isBot v vMem).symm ▸ bot_le⟩

/-- Only the infinities compare with the whole line, and only to the side on which
they are. -/
theorem operator_univ_ne_none_iff (compares : lib.ComparesBalls) {line : Arb}
    (whole : line.elements = Set.univ) (comparison : Comparison) (x : Arb) :
    operator lib comparison line x ≠ none ↔
      (comparison = .le ∨ comparison = .gt) ∧ x.elements = {⊤} ∨
        (comparison = .lt ∨ comparison = .ge) ∧ x.elements = {⊥} := by
  have number : line.mid ≠ .nan := by
    rw [← elements_nonempty_iff, whole]
    exact Set.univ_nonempty
  by_cases isNan : x.mid = .nan
  · have empty : x.elements = ∅ := x.elements_eq_empty_iff.mpr isNan
    rw [operator_of_nan compares comparison (.inr isNan), empty]
    simp [eq_comm (a := (∅ : Set EReal))]
  · obtain ⟨u, uMem⟩ := x.elements_nonempty_iff.mpr isNan
    have always_iff := always_univ_iff ⟨u, uMem⟩
    have decided_iff : operator lib comparison line x ≠ none ↔
        Always comparison.Holds Set.univ x.elements ∨
          Always comparison.negate.Holds Set.univ x.elements := by
      rw [operator_eq_verdict compares comparison number isNan, whole, always_negate_iff,
        ← verdict_eq_true_iff, ← verdict_eq_false_iff Set.univ_nonempty ⟨u, uMem⟩,
        Option.ne_none_iff_exists', Bool.exists_bool, or_comm]
    rw [decided_iff, always_iff, always_iff]
    cases comparison <;> simp [Comparison.negate]

private theorem toEReal_dyadic (n : ℤ) : (Dyadic.ofInt n).toEReal = ((n : ℝ) : EReal) :=
  Arf.toEReal_ofInt n

private theorem elements_unitInterval (makes : special.MakesSpecialBalls) :
    (unitInterval special).elements = Set.Icc 0 1 := by
  have left : Dyadic.ofIntWithPrec 1 1 - Dyadic.ofIntWithPrec 1 1 = Dyadic.ofInt 0 := by
    decide +kernel
  have right : Dyadic.ofIntWithPrec 1 1 + Dyadic.ofIntWithPrec 1 1 = Dyadic.ofInt 1 := by
    decide +kernel
  rw [unitInterval, makes.arbUnitInterval_eq, elements_eq_Icc, lower, upper]
  simp only [left, right, toEReal_dyadic]
  simp

private theorem elements_zeroPmOne (makes : special.MakesSpecialBalls) :
    (zeroPmOne special).elements = Set.Icc (-1) 1 := by
  have left : (0 : Dyadic) - 1 = Dyadic.ofInt (-1) := by decide +kernel
  have right : (0 : Dyadic) + 1 = Dyadic.ofInt 1 := by decide +kernel
  rw [zeroPmOne, makes.arbZeroPmOne_eq, elements_eq_Icc, lower, upper]
  simp only [unitBall, left, right, toEReal_dyadic]
  simp

/-- Being between two points is two comparisons. -/
private theorem operator_le_and_le_iff (compares : lib.ComparesBalls) {low high : Arb}
    {a b : EReal} (lowEq : low.elements = {a}) (highEq : high.elements = {b}) (x : Arb) :
    operator lib .le low x = some true ∧ operator lib .le x high = some true ↔
      x.mid ≠ .nan ∧ x.elements ⊆ Set.Icc a b := by
  have lowNumber : low.mid ≠ .nan := by simp [← elements_nonempty_iff, lowEq]
  have highNumber : high.mid ≠ .nan := by simp [← elements_nonempty_iff, highEq]
  rw [operator_eq_true_iff compares, operator_eq_true_iff compares, lowEq, highEq]
  constructor
  · rintro ⟨⟨_, number, above⟩, _, _, below⟩
    exact ⟨number, fun t tMem => ⟨above a rfl t tMem, below t tMem b rfl⟩⟩
  · rintro ⟨number, inside⟩
    refine ⟨⟨lowNumber, number, ?_⟩, number, highNumber, ?_⟩
    · rintro _ rfl t tMem
      exact (inside tMem).1
    · rintro t tMem _ rfl
      exact (inside tMem).2

/-- A number is strictly between the infinities exactly if it is finite. -/
theorem isFinite_iff_between (compares : lib.ComparesBalls) (handles : lib.HandlesBalls)
    (makes : special.MakesSpecialBalls) (x : Arb) :
    isFinite lib x = true ↔ operator lib .lt (negInf special) x = some true ∧
      operator lib .lt x (posInf special) = some true := by
  rw [isFinite_iff_notMem handles, operator_eq_true_iff compares, operator_eq_true_iff compares,
    negInf, posInf, makes.arbNegInf_eq, makes.arbPosInf_eq, elements_exact (by simp),
    elements_exact (by simp)]
  constructor
  · rintro ⟨number, notBot, notTop⟩
    refine ⟨⟨by simp, number, ?_⟩, number, by simp, ?_⟩
    · rintro t rfl u uMem
      exact bot_lt_iff_ne_bot.mpr fun isBot => notBot (isBot ▸ uMem)
    · rintro t tMem u rfl
      exact lt_top_iff_ne_top.mpr fun isTop => notTop (isTop ▸ tMem)
  · rintro ⟨⟨_, number, above⟩, _, _, below⟩
    exact ⟨number, fun member => lt_irrefl _ (above _ rfl _ member),
      fun member => lt_irrefl _ (below _ member _ rfl)⟩

private theorem elements_zero : zero.elements = {0} := by
  rw [zero, elements_exact (by simp)]
  simp [Arf.toEReal, Dyadic.toEReal]

private theorem elements_of_mem_one (sets : lib.SetsIntegers)
    (oneFits : (model.format .int).InRange 1) {unit : Arb} (member : unit ∈ one lib) :
    unit.elements = {1} := by
  obtain ⟨_, rfl⟩ := (mem_construct_iff lib sets _ unit).mp member
  have value : (model.staticCast .int 1).val = 1 := Format.cast_val_of_inRange oneFits
  rw [elements_ofInt, Operand.integer, value]
  simp

/-- A number is strictly between the infinities exactly if it is finite; no comparison
with the indeterminate ball is decided, and one with the whole line only for an
infinity; `one()` returns, and the balls inside the unit interval are those between zero
and one. -/
theorem special_comparisons (compares : lib.ComparesBalls) (sets : lib.SetsIntegers)
    (handles : lib.HandlesBalls) (makes : special.MakesSpecialBalls)
    (oneFits : (model.format .int).InRange 1) (x : Arb) :
    (isFinite lib x = true ↔ operator lib .lt (negInf special) x = some true ∧
      operator lib .lt x (posInf special) = some true) ∧
    (∀ comparison, operator lib comparison (indeterminate special) x = none ∧
      operator lib comparison x (indeterminate special) = none) ∧
    (∀ comparison, operator lib comparison (zeroPmInf special) x ≠ none ↔
      (comparison = .le ∨ comparison = .gt) ∧ x.elements = {⊤} ∨
        (comparison = .lt ∨ comparison = .ge) ∧ x.elements = {⊥}) ∧
    (∃ unit, unit ∈ one lib) ∧
    ∀ unit ∈ one lib,
      (operator lib .le zero x = some true ∧ operator lib .le x unit = some true ↔
        x.mid ≠ .nan ∧ x.elements ⊆ (unitInterval special).elements) ∧
      (operator lib .le (operatorNeg lib unit) x = some true ∧
          operator lib .le x unit = some true ↔
        x.mid ≠ .nan ∧ x.elements ⊆ (zeroPmOne special).elements) := by
  refine ⟨?_, ?_, ?_, ?_, ?_⟩
  · exact isFinite_iff_between compares handles makes x
  · intro comparison
    rw [indeterminate, makes.arbIndeterminate_eq]
    exact ⟨operator_of_nan compares comparison (.inl rfl),
      operator_of_nan compares comparison (.inr rfl)⟩
  · intro comparison
    apply operator_univ_ne_none_iff compares
    rw [zeroPmInf, makes.arbZeroPmInf_eq]
    rfl
  · exact ⟨_, (mem_construct_iff lib sets _ _).mpr ⟨.inr trivial, rfl⟩⟩
  · intro unit member
    have unitElements := elements_of_mem_one sets oneFits member
    have minusElements : (operatorNeg lib unit).elements = {-1} := by
      rw [operatorNeg, handles.neg_eq, elements_neg, unitElements, Set.image_singleton]
    rw [elements_unitInterval makes, elements_zeroPmOne makes]
    exact ⟨operator_le_and_le_iff compares elements_zero unitElements x,
      operator_le_and_le_iff compares minusElements unitElements x⟩

end Comparisons

/-- `Arb(1/3)` is between the infinities and in the unit interval. -/
theorem special_comparisons_third :
    let third := ofMpq (CLibrary.reference .lp64) ⟨1, 3, by decide⟩
    (operator (CLibrary.reference .lp64) .lt (negInf .reference) third = some true ∧
      operator (CLibrary.reference .lp64) .lt third (posInf .reference) = some true) ∧
    third.elements ⊆ (unitInterval .reference).elements := by
  intro third
  obtain ⟨finite_iff, _, _, ⟨unit, member⟩, inside_iff⟩ :=
    special_comparisons (CLibrary.reference_comparesBalls .lp64)
      (CLibrary.reference_setsIntegers .lp64) (CLibrary.reference_handlesBalls .lp64)
      SpecialLibrary.reference_makesSpecialBalls ⟨by decide, by decide⟩ third
  refine ⟨finite_iff.mp (by decide +kernel), ((inside_iff unit member).1.mp ?_).2⟩
  obtain ⟨_, rfl⟩ := (mem_construct_iff _ (CLibrary.reference_setsIntegers .lp64) _ unit).mp member
  constructor <;> decide +kernel

end Arb

end Arbxx
