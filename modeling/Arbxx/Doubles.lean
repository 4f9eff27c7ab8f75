import Arbxx.ArfOperators
import Arbxx.BallComparison
import Arbxx.NearestRounding
import Arbxx.NumberLibrary

/-!
# Conversions to and from `double`

An `Arf` is made from a `double` exactly and rounded to the nearest one; an `Arb` is
converted by its midpoint, whatever its radius.
-/

namespace Arbxx

open CLibrary NearestRounding ThreeValued

/-- The doubles without the limit on their size: 53 mantissa bits, down to `2^-1074`. -/
def doubleGrid : Set ℚ :=
  floatGrid 53 (-1074)

/-- The values of a `double`. -/
inductive Double
  | finite (value : Dyadic) (onGrid : value.toRat ∈ doubleGrid)
      (bounded : |value.toRat| < 2 ^ 1024)
  | negZero
  | posInf
  | negInf
  | nan

/-- The number that a `double` stands for; an `Arf` has only one zero. -/
def Double.toArf : Double → Arf
  | finite value _ _ => .finite value
  | negZero => .finite 0
  | posInf => .posInf
  | negInf => .negInf
  | nan => .nan

/-- `operator<=` of `double`, which is false as soon as an operand is NaN. -/
def Double.LessEqual (x y : Double) : Prop :=
  x.toArf ≠ .nan ∧ y.toArf ≠ .nan ∧ x.toArf.toEReal ≤ y.toArf.toEReal

/-- A number too large for a `double` becomes infinite. -/
def Arf.overflowed (rounded : Dyadic) : Arf :=
  if 2 ^ 1024 ≤ rounded.toRat then .posInf
  else if rounded.toRat ≤ -2 ^ 1024 then .negInf
  else .finite rounded

theorem Arf.overflowed_of_bounded {rounded : Dyadic} (bounded : |rounded.toRat| < 2 ^ 1024) :
    overflowed rounded = .finite rounded := by
  obtain ⟨above, below⟩ := abs_lt.mp bounded
  rw [overflowed, if_neg (not_le.mpr below), if_neg (not_le.mpr above)]

/-- The nearest `double`; what is rounded to zero keeps its sign. -/
def Double.rounding (d : Dyadic) : Double :=
  let rounded := roundFloat 53 (-1074) d.toRat
  if bounded : |rounded.toRat| < 2 ^ 1024 then
    if rounded = 0 ∧ d < 0 then negZero
    else finite rounded (roundFloat_mem (by norm_num) d.toRat) bounded
  else if 0 < rounded then posInf
  else negInf

/-- Functions of Arb between `arf_t` and `double`. -/
structure DoubleLibrary where
  arfSetD : Double → Arf
  arfGetD : Arf → Round → Double

namespace DoubleLibrary

section Documentation

variable (doubles : DoubleLibrary)

/-- `arf_set_d` is exact, and `arf_get_d` rounds to a nearest number before it looks for
overflow. -/
structure ConvertsDoubles : Prop where
  arfSetD_eq : ∀ x, doubles.arfSetD x = x.toArf
  arfGetD_finite : ∀ d : Dyadic, ∃ rounded : Dyadic,
    IsNearest doubleGrid d.toRat rounded.toRat ∧
      (doubles.arfGetD (.finite d) .near).toArf = Arf.overflowed rounded
  arfGetD_special : ∀ a, (∀ d, a ≠ .finite d) → (doubles.arfGetD a .near).toArf = a

/-- `arf_get_d` rounds to the even one of two nearest numbers. -/
structure RoundsHalfEven : Prop where
  arfGetD_eq : ∀ d : Dyadic, doubles.arfGetD (.finite d) .near = .rounding d

end Documentation

/-- A reference implementation, for the only rounding mode that is used. -/
def reference : DoubleLibrary where
  arfSetD := Double.toArf
  arfGetD a _ :=
    match a with
    | .finite d => .rounding d
    | .posInf => .posInf
    | .negInf => .negInf
    | .nan => .nan

theorem toArf_rounding (d : Dyadic) :
    (Double.rounding d).toArf = Arf.overflowed (roundFloat 53 (-1074) d.toRat) := by
  simp only [Double.rounding]
  generalize_proofs
  split
  · rename_i bounded
    rw [Arf.overflowed_of_bounded bounded]
    split
    · rename_i underflow
      rw [underflow.1]
      rfl
    · rfl
  · rename_i large
    have limitPos : (0 : ℚ) < 2 ^ 1024 := by positivity
    rcases le_abs.mp (not_lt.mp large) with above | below
    · have positive : 0 < roundFloat 53 (-1074) d.toRat :=
        Dyadic.toRat_lt_toRat_iff.mp (limitPos.trans_le above)
      rw [if_pos positive, Arf.overflowed, if_pos above]
      rfl
    · rw [le_neg] at below
      have negative : (roundFloat 53 (-1074) d.toRat).toRat < 0 :=
        below.trans_lt (neg_neg_of_pos limitPos)
      have notPositive : ¬ 0 < roundFloat 53 (-1074) d.toRat := fun positive =>
        lt_asymm negative (Dyadic.toRat_lt_toRat_iff.mpr positive)
      rw [if_neg notPositive, Arf.overflowed, if_neg (negative.trans limitPos).not_ge,
        if_pos below]
      rfl

/-- A `double` is its own nearest one. -/
theorem rounding_of_mem {d : Dyadic} (onGrid : d.toRat ∈ doubleGrid)
    (bounded : |d.toRat| < 2 ^ 1024) : Double.rounding d = .finite d onGrid bounded := by
  have fixed : roundFloat 53 (-1074) d.toRat = d :=
    Dyadic.toRat_inj.mp ((isNearest_roundFloat (by norm_num) d.toRat).eq_of_mem onGrid)
  simp only [Double.rounding]
  generalize_proofs
  split
  · split
    · rename_i underflow
      rw [fixed] at underflow
      obtain ⟨rfl, negative⟩ := underflow
      exact absurd negative (by decide)
    · simp only [fixed]
  · rename_i large
    rw [fixed] at large
    exact (large bounded).elim

theorem two_pow_le_abs_rounded_iff (q : ℚ) :
    2 ^ 1024 ≤ |(roundFloat 53 (-1074) q).toRat| ↔ 2 ^ 1024 - 2 ^ 970 ≤ |q| := by
  have threshold := @two_zpow_le_abs_roundFloat_iff 53 (-1074) (by decide) 1024 (by decide) q
  have exponent : (1024 : ℤ) - (53 : ℕ) - 1 = (970 : ℕ) := by decide
  rw [exponent, zpow_natCast] at threshold
  exact_mod_cast threshold

/-- Integers from the middle between the greatest finite `double` and `2^1024` on become
infinite. -/
theorem rounding_ofInt_infinite {n : ℤ} (large : 2 ^ 1024 - 2 ^ 970 ≤ |n|) :
    Double.rounding (Dyadic.ofInt n) = .posInf ∨ Double.rounding (Dyadic.ofInt n) = .negInf := by
  have value : (Dyadic.ofInt n).toRat = n := Dyadic.toRat_intCast n
  have overflows : (2 : ℚ) ^ 1024 ≤ |(roundFloat 53 (-1074) n).toRat| :=
    (two_pow_le_abs_rounded_iff n).mpr (by exact_mod_cast large)
  rw [← value] at overflows
  simp only [Double.rounding]
  rw [dif_neg (not_lt.mpr overflows)]
  split
  · exact .inl rfl
  · exact .inr rfl

/-- The other integers are rounded to finite integers. -/
theorem rounding_ofInt_finite {n : ℤ} (nonzero : n ≠ 0) (small : |n| < 2 ^ 1024 - 2 ^ 970) :
    ∃ k : ℤ, k ≠ 0 ∧ (roundFloat 53 (-1074) n).toRat = k ∧
      (Double.rounding (Dyadic.ofInt n)).toArf = .ofInt k := by
  have value : (Dyadic.ofInt n).toRat = n := Dyadic.toRat_intCast n
  obtain ⟨k, rounded, isNonzero⟩ :=
    @exists_roundFloat_intCast 53 (-1074) (by decide) (by decide) n
  have bounded : |(roundFloat 53 (-1074) n).toRat| < 2 ^ 1024 := by
    rw [← not_le, two_pow_le_abs_rounded_iff, not_le]
    exact_mod_cast small
  refine ⟨k, isNonzero nonzero, rounded, ?_⟩
  have same : roundFloat 53 (-1074) n = Dyadic.ofInt k :=
    Dyadic.toRat_inj.mp (rounded.trans (Dyadic.toRat_intCast k).symm)
  rw [toArf_rounding, value, Arf.overflowed_of_bounded bounded, same, Arf.ofInt]

theorem reference_convertsDoubles : reference.ConvertsDoubles where
  arfSetD_eq _ := rfl
  arfGetD_finite d := ⟨_, isNearest_roundFloat (by norm_num) d.toRat, toArf_rounding d⟩
  arfGetD_special a special := by
    cases a with
    | finite d => exact (special d rfl).elim
    | _ => rfl

theorem reference_roundsHalfEven : reference.RoundsHalfEven where
  arfGetD_eq _ := rfl

end DoubleLibrary

namespace Arf

variable (doubles : DoubleLibrary)

/-- `Arf::Arf(double)`. -/
def ofDouble (value : Double) : Arf :=
  doubles.arfSetD value

/-- `Arf::operator=(double)`. -/
def assignDouble (rhs : Double) : Arf :=
  doubles.arfSetD rhs

/-- `Arf::operator double`. -/
def toDouble (self : Arf) : Double :=
  doubles.arfGetD self .near

variable {doubles}

theorem overflowed_eq_finite {rounded d : Dyadic} (finite : overflowed rounded = .finite d) :
    rounded = d := by
  rw [overflowed] at finite
  split at finite
  · cases finite
  · split at finite
    · cases finite
    · exact Arf.finite.inj finite

theorem overflowed_mono {rounded rounded' : Dyadic} (below : rounded.toRat ≤ rounded'.toRat) :
    (overflowed rounded).toEReal ≤ (overflowed rounded').toEReal := by
  rw [overflowed, overflowed]
  split
  · rename_i large
    rw [if_pos (large.trans below)]
  · split
    · exact bot_le
    · rename_i notSmall
      split
      · exact le_top
      · rw [if_neg fun small => notSmall (below.trans small)]
        exact Dyadic.toEReal_le_toEReal.mpr (Dyadic.toRat_le_toRat_iff.mp below)

theorem onGrid_of_toArf {x : Double} {d : Dyadic} (value : x.toArf = .finite d) :
    d.toRat ∈ doubleGrid ∧ |d.toRat| < 2 ^ 1024 := by
  cases x with
  | finite value' onGrid bounded =>
      cases value
      exact ⟨onGrid, bounded⟩
  | negZero =>
      cases value
      exact ⟨zero_mem_floatGrid, by simp⟩
  | posInf | negInf | nan => cases value

theorem toArf_toDouble_special (converts : doubles.ConvertsDoubles) {a : Arf}
    (special : ∀ d, a ≠ .finite d) : (toDouble doubles a).toArf = a :=
  converts.arfGetD_special a special

/-- A `double` comes back, up to the sign of zero. -/
theorem toArf_toDouble_toArf (converts : doubles.ConvertsDoubles) (x : Double) :
    (toDouble doubles x.toArf).toArf = x.toArf := by
  cases value : x.toArf with
  | finite d =>
      obtain ⟨onGrid, bounded⟩ := onGrid_of_toArf value
      obtain ⟨rounded, nearest, equation⟩ := converts.arfGetD_finite d
      have same : rounded = d := Dyadic.toRat_inj.mp (nearest.eq_of_mem onGrid)
      rw [toDouble, equation, same, overflowed_of_bounded bounded]
  | posInf | negInf | nan => exact toArf_toDouble_special converts (by simp)

/-- Rounding to `double` keeps the order. -/
theorem toArf_toDouble_mono (converts : doubles.ConvertsDoubles) {a b : Arf}
    (aNumber : a ≠ .nan) (bNumber : b ≠ .nan) (below : a.toEReal ≤ b.toEReal) :
    (toDouble doubles a).toArf.toEReal ≤ (toDouble doubles b).toArf.toEReal := by
  rcases below.lt_or_eq with less | equal
  · cases a with
    | nan => exact (aNumber rfl).elim
    | posInf => exact absurd less not_top_lt
    | negInf =>
        have bottom : (toDouble doubles .negInf).toArf = .negInf :=
          toArf_toDouble_special converts (by simp)
        rw [bottom]
        exact bot_le
    | finite d =>
        cases b with
        | nan => exact (bNumber rfl).elim
        | negInf => exact absurd less not_lt_bot
        | posInf =>
            have top : (toDouble doubles .posInf).toArf = .posInf :=
              toArf_toDouble_special converts (by simp)
            rw [top]
            exact le_top
        | finite e =>
            obtain ⟨rounded, nearest, equation⟩ := converts.arfGetD_finite d
            obtain ⟨rounded', nearest', equation'⟩ := converts.arfGetD_finite e
            rw [toDouble, toDouble, equation, equation']
            have strictly : d.toRat < e.toRat :=
              Dyadic.toRat_lt_toRat_iff.mpr (Dyadic.toEReal_lt_toEReal.mp less)
            exact overflowed_mono (nearest.le_of_lt strictly nearest')
  · rw [toEReal_injective aNumber bNumber equal]

theorem toArf_toDouble_eq_nan (converts : doubles.ConvertsDoubles) {a : Arf} :
    (toDouble doubles a).toArf = .nan ↔ a = .nan := by
  cases a with
  | finite d =>
      obtain ⟨rounded, _, equation⟩ := converts.arfGetD_finite d
      rw [toDouble, equation, overflowed]
      split
      · simp
      · split <;> simp
  | posInf | negInf | nan =>
      rw [toArf_toDouble_special converts (by simp)]

/-- An element made from a `double` is converted back to it, up to the sign of zero; the
others change when they are converted and made an element again.  The doubles of two
elements other than NaN are in the order of the elements, and no `double` is nearer to a
number than a finite one that it is converted to. -/
theorem double_conversions {model : DataModel} {lib : CLibrary model}
    (compares : lib.ComparesFloats) (converts : doubles.ConvertsDoubles) :
    (∀ x, (toDouble doubles (ofDouble doubles x)).toArf = x.toArf ∧
      (toDouble doubles (assignDouble doubles x)).toArf = x.toArf) ∧
    (∀ a, operatorEqual lib (ofDouble doubles (toDouble doubles a)) a = true ↔
      ∃ x : Double, x.toArf = a) ∧
    (∀ a b, a ≠ .nan → b ≠ .nan → operatorLessEqual lib a b = true →
      (toDouble doubles a).LessEqual (toDouble doubles b)) ∧
    ∀ (d e f : Dyadic) (x : Double), (toDouble doubles (.finite d)).toArf = .finite e →
      x.toArf = .finite f → |d.toRat - e.toRat| ≤ |d.toRat - f.toRat| := by
  simp only [ofDouble, assignDouble, converts.arfSetD_eq, and_self]
  refine ⟨toArf_toDouble_toArf converts, ?_, ?_, ?_⟩
  · intro a
    rw [operatorEqual, compares.equal_iff]
    constructor
    · exact fun same => ⟨_, same⟩
    · rintro ⟨x, rfl⟩
      exact toArf_toDouble_toArf converts x
  · intro a b aNumber bNumber below
    have holds : a.toEReal ≤ b.toEReal :=
      (operator_iff_holds compares .le aNumber bNumber).mp below
    exact ⟨(toArf_toDouble_eq_nan converts).not.mpr aNumber,
      (toArf_toDouble_eq_nan converts).not.mpr bNumber,
      toArf_toDouble_mono converts aNumber bNumber holds⟩
  · intro d e f x converted value
    obtain ⟨rounded, nearest, equation⟩ := converts.arfGetD_finite d
    have same : rounded = e := overflowed_eq_finite (equation.symm.trans converted)
    rw [← same]
    exact nearest.le f.toRat (onGrid_of_toArf value).1

/-- The tie `2^53 + 1` and its upper neighbour stay in order. -/
theorem double_conversions_tie :
    (toDouble .reference (ofInt (2 ^ 53 + 1))).LessEqual
      (toDouble .reference (ofInt (2 ^ 53 + 2))) :=
  (double_conversions (CLibrary.reference_comparesFloats .lp64)
    DoubleLibrary.reference_convertsDoubles).2.2.1 _ _ (by decide) (by decide) (by decide +kernel)

end Arf

namespace Arb

variable (doubles : DoubleLibrary)

/-- `Arb::operator double`. -/
def toDouble (self : Arb) : Double :=
  doubles.arfGetD self.mid .near

variable {doubles}

/-- If a ball contains a number of the grid, then it contains those that are nearest to
its midpoint. -/
theorem mem_elements_of_isNearest {x : Arb} {m rounded e : Dyadic} (mid : x.mid = .finite m)
    (nearest : IsNearest doubleGrid m.toRat rounded.toRat) (onGrid : e.toRat ∈ doubleGrid)
    (member : e.toEReal ∈ x.elements) : rounded.toEReal ∈ x.elements := by
  cases rad : x.rad with
  | inf =>
      rw [elements, mid, rad]
      trivial
  | finite r _ _ =>
      have radius : x.rad.toArf = .finite r := by rw [rad]; rfl
      rw [mem_elements_iff_of_finite mid radius] at member ⊢
      exact (nearest.le e.toRat onGrid).trans member

/-- Only a finite midpoint converts to a finite `double`. -/
theorem exists_mid_of_toDouble (converts : doubles.ConvertsDoubles) {x : Arb} {d : Dyadic}
    (converted : (toDouble doubles x).toArf = .finite d) :
    ∃ m, x.mid = .finite m ∧ IsNearest doubleGrid m.toRat d.toRat := by
  cases mid : x.mid with
  | finite m =>
      obtain ⟨rounded, nearest, equation⟩ := converts.arfGetD_finite m
      rw [toDouble, mid, equation] at converted
      rw [Arf.overflowed_eq_finite converted] at nearest
      exact ⟨m, rfl, nearest⟩
  | posInf | negInf | nan =>
      rw [toDouble, mid, converts.arfGetD_special _ (by simp)] at converted
      cases converted

/-- Balls that compare for certain convert in their order.  A ball that converts to a
finite `double` contains it exactly if it contains any. -/
theorem doubles_of_balls {model : DataModel} {lib : CLibrary model}
    (compares : lib.ComparesBalls) (handles : lib.HandlesBalls)
    (converts : doubles.ConvertsDoubles) :
    (∀ comparison ∈ [Comparison.lt, .le, .eq], ∀ x y : Arb,
      operator lib comparison x y = some true →
        (toDouble doubles x).toArf.toEReal ≤ (toDouble doubles y).toArf.toEReal) ∧
    (∀ (x : Arb) (d : Dyadic), (toDouble doubles x).toArf = .finite d →
      (d.toEReal ∈ x.elements ↔
        ∃ (y : Double) (e : Dyadic), y.toArf = .finite e ∧ e.toEReal ∈ x.elements)) ∧
    ∀ x : Double, (toDouble doubles (ofArf lib (Arf.ofDouble doubles x))).toArf = x.toArf := by
  refine ⟨?_, ?_, ?_⟩
  · intro comparison ordered x y answered
    obtain ⟨xNumber, yNumber, always⟩ := (operator_eq_true_iff compares comparison x y).mp answered
    have holds := always _ (mid_mem_elements xNumber) _ (mid_mem_elements yNumber)
    have below : x.mid.toEReal ≤ y.mid.toEReal := by
      simp only [List.mem_cons, List.not_mem_nil, or_false] at ordered
      rcases ordered with rfl | rfl | rfl
      · exact le_of_lt holds
      · exact holds
      · exact le_of_eq holds
    exact Arf.toArf_toDouble_mono converts xNumber yNumber below
  · intro x d converted
    constructor
    · intro member
      exact ⟨_, d, converted, member⟩
    · rintro ⟨y, e, value, member⟩
      obtain ⟨m, mid, nearest⟩ := exists_mid_of_toDouble converts converted
      exact mem_elements_of_isNearest mid nearest (Arf.onGrid_of_toArf value).1 member
  · intro x
    rw [ofArf, handles.setArf_eq, Arf.ofDouble, converts.arfSetD_eq]
    exact Arf.toArf_toDouble_toArf converts x

/-- The ball of radius one around zero contains the `double` it converts to. -/
theorem doubles_of_balls_zeroPmOne :
    (Dyadic.ofInt 0).toEReal ∈ unitBall.elements ↔
      ∃ (y : Double) (e : Dyadic), y.toArf = .finite e ∧ e.toEReal ∈ unitBall.elements :=
  (doubles_of_balls (CLibrary.reference_comparesBalls .lp64)
    (CLibrary.reference_handlesBalls .lp64) DoubleLibrary.reference_convertsDoubles).2.1
      unitBall (Dyadic.ofInt 0) (by decide +kernel)

end Arb

end Arbxx
