import Arbxx.BallComparison

/-!
# From balls to their bounds and back

The conversion of a ball to the pair of its bounds rounds the bounds to as many
bits as the ball is accurate.  Wide balls are accurate to less than the two bits
that rounding needs.
-/

namespace Arbxx

namespace Arb

open CLibrary

variable {model : DataModel} (lib : CLibrary model)

/-- The precision to which `Arb::operator std::pair<Arf, Arf>` rounds. -/
def boundsPrecision (x : Arb) : ℤ :=
  lib.arbRelAccuracyBits x

/-- `Arb::operator std::pair<Arf, Arf>`. -/
def toBounds (x : Arb) : Arf × Arf :=
  lib.arbGetIntervalArf x (boundsPrecision lib x)

/-- `Arb::Arb(const std::pair<Arf, Arf>&, prec)`. -/
def ofBoundsPrec (bounds : Arf × Arf) (precision : ℤ) : Arb :=
  lib.arbSetIntervalArf bounds.1 bounds.2 precision

/-- `Arb::Arb(const std::pair<Arf, Arf>&)`, where the precision defaults to
`ARF_PREC_EXACT`. -/
def ofBounds (bounds : Arf × Arf) : Arb :=
  ofBoundsPrec lib bounds lib.arfPrecExact

/-- The conversion to bounds rounds to an admissible precision, its bounds are
outside the ball, and the ball made of them contains the ball they come from. -/
structure EnclosedByBounds (x : Arb) : Prop where
  admissible : 2 ≤ boundsPrecision lib x
  lower_number : (toBounds lib x).1 ≠ .nan
  upper_number : (toBounds lib x).2 ≠ .nan
  le_lower : (toBounds lib x).1.toEReal ≤ x.lower
  upper_le : x.upper ≤ (toBounds lib x).2.toEReal
  subset : x.elements ⊆ (ofBounds lib (toBounds lib x)).elements

variable {lib}

theorem enclosedByBounds_of_admissible (converts : lib.ConvertsIntervals) {m r : Dyadic}
    {nonneg : 0 ≤ r} {short : r.FitsBits 30}
    (admissible : 2 ≤ boundsPrecision lib ⟨.finite m, .finite r nonneg short⟩) :
    EnclosedByBounds lib ⟨.finite m, .finite r nonneg short⟩ := by
  obtain ⟨lo, hi, boundsEq, loLe, leHi, _⟩ :=
    converts.getInterval_rounds m r nonneg short _ admissible
  change toBounds lib _ = _ at boundsEq
  have le_lower : (Arf.finite lo).toEReal ≤
      (⟨.finite m, .finite r nonneg short⟩ : Arb).lower :=
    Dyadic.toEReal_le_toEReal.mpr loLe
  have upper_le : (⟨.finite m, .finite r nonneg short⟩ : Arb).upper ≤
      (Arf.finite hi).toEReal :=
    Dyadic.toEReal_le_toEReal.mpr leHi
  have ordered := (le_lower.trans ((lower_le_upper_iff _).mpr (by simp))).trans upper_le
  refine ⟨admissible, ?_, ?_, ?_, ?_, ?_⟩
  · simp [boundsEq]
  · simp [boundsEq]
  · rw [boundsEq]
    exact le_lower
  · rw [boundsEq]
    exact upper_le
  · have rebuilt := converts.setInterval_encloses (.finite lo) (.finite hi) lib.arfPrecExact
      converts.two_le_precExact (by simp) (by simp) ordered
    rw [boundsEq, elements_eq_Icc]
    exact (Set.Icc_subset_Icc le_lower upper_le).trans rebuilt

/-- The precision is admissible for exact balls, and for balls whose midpoint has
its leading bit at least three places above that of the radius. -/
theorem two_le_boundsPrecision_iff (converts : lib.ConvertsIntervals) (m r : Dyadic)
    (nonneg : 0 ≤ r) (short : r.FitsBits 30) :
    2 ≤ boundsPrecision lib ⟨.finite m, .finite r nonneg short⟩ ↔
      r = 0 ∨ m ≠ 0 ∧ 2 ≤ m.exponent - r.exponent - 1 := by
  have large := converts.two_le_precExact
  by_cases rZero : r = 0
  · subst rZero
    have exactAccuracy : boundsPrecision lib ⟨.finite m, .finite 0 nonneg short⟩ =
        lib.arfPrecExact := converts.accuracy_exact m
    simp [exactAccuracy, large]
  · by_cases mZero : m = 0
    · subst mZero
      have noAccuracy : boundsPrecision lib ⟨.finite 0, .finite r nonneg short⟩ =
          -lib.arfPrecExact := converts.accuracy_zero r nonneg short rZero
      rw [noAccuracy]
      constructor
      · intro admissible
        omega
      · rintro (isZero | ⟨nonzero, _⟩)
        · exact (rZero isZero).elim
        · exact (nonzero rfl).elim
    · have accuracy : boundsPrecision lib ⟨.finite m, .finite r nonneg short⟩ =
          max (-lib.arfPrecExact) (min lib.arfPrecExact (m.exponent - r.exponent - 1)) :=
        converts.accuracy_ball m r nonneg short mZero rZero
      rw [accuracy]
      constructor
      · intro admissible
        exact .inr ⟨mZero, by omega⟩
      · rintro (isZero | ⟨_, apart⟩)
        · exact (rZero isZero).elim
        · omega

/-- The bounds of a finite ball enclose it, at an admissible precision, exactly if
its radius is zero or its midpoint is not and exceeds the radius by three places. -/
theorem enclosedByBounds_iff (converts : lib.ConvertsIntervals) (m r : Dyadic)
    (nonneg : 0 ≤ r) (short : r.FitsBits 30) :
    EnclosedByBounds lib ⟨.finite m, .finite r nonneg short⟩ ↔
      r = 0 ∨ m ≠ 0 ∧ 2 ≤ m.exponent - r.exponent - 1 := by
  rw [← two_le_boundsPrecision_iff converts m r nonneg short]
  exact ⟨fun enclosed => enclosed.admissible, enclosedByBounds_of_admissible converts⟩

theorem enclosedByBounds_eight_pm_one :
    EnclosedByBounds (reference .lp64) ⟨Arf.ofInt 8, .finite 1 (by decide) (by decide)⟩ :=
  (enclosedByBounds_iff (reference_convertsIntervals .lp64) (Dyadic.ofInt 8) 1 (by decide)
    (by decide)).mpr (by decide +kernel)

/-- The ball of radius one around zero is rounded to minus `ARF_PREC_EXACT` bits. -/
theorem not_enclosedByBounds_zeroPmOne :
    ¬ EnclosedByBounds (reference .lp64) unitBall ∧
      boundsPrecision (reference .lp64) unitBall = -(reference .lp64).arfPrecExact := by
  have precision : boundsPrecision (reference .lp64) unitBall =
      -(reference .lp64).arfPrecExact := by decide +kernel
  refine ⟨fun enclosed => ?_, precision⟩
  have admissible := enclosed.admissible
  rw [precision] at admissible
  exact absurd admissible (by decide +kernel)

end Arb

end Arbxx
