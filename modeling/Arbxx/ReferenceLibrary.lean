import Arbxx.CLibrary

/-!
# A reference implementation of the C libraries

An executable choice of the library functions, with proofs that it behaves as
documented.  It shows that the documented behaviour is consistent, and lets the
classes be evaluated on concrete arguments.
-/

namespace Arbxx

open ThreeValued TwosComplement

namespace Arf

/-- Strict order of floating point numbers; NaN is not related to anything. -/
def blt : Arf → Arf → Bool
  | .nan, _ | _, .nan => false
  | .finite d, .finite e => decide (d < e)
  | .negInf, .negInf => false
  | .negInf, _ => true
  | _, .negInf => false
  | .posInf, _ => false
  | _, .posInf => true

theorem blt_iff {a b : Arf} (aNumber : a ≠ .nan) (bNumber : b ≠ .nan) :
    blt a b = true ↔ a.toEReal < b.toEReal := by
  cases a <;> cases b <;>
    simp_all [blt, toEReal, lt_top_iff_ne_top, bot_lt_iff_ne_bot]

def cmp (a b : Arf) : ℤ :=
  if blt a b then -1 else if blt b a then 1 else 0

theorem cmp_isSignOf {a b : Arf} (aNumber : a ≠ .nan) (bNumber : b ≠ .nan) :
    IsSignOf (cmp a b) a.toEReal b.toEReal := by
  unfold cmp IsSignOf
  simp only [blt_iff aNumber bNumber, blt_iff bNumber aNumber]
  rcases lt_trichotomy a.toEReal b.toEReal with less | equal | greater
  · simp [less, less.ne, less.not_gt]
  · simp [equal]
  · simp [greater, greater.ne', greater.not_gt]

theorem cmp_eq_zero_of_nan {a b : Arf} (someNan : a = .nan ∨ b = .nan) : cmp a b = 0 := by
  have left : blt a b = false := by
    rcases someNan with rfl | rfl <;> cases ‹Arf› <;> rfl
  have right : blt b a = false := by
    rcases someNan with rfl | rfl <;> cases ‹Arf› <;> rfl
  simp [cmp, left, right]

end Arf

namespace Arb

/-- The left end of a ball as a floating point number. -/
def lowerEnd (x : Arb) : Arf :=
  match x.mid, x.rad with
  | .nan, _ => .nan
  | _, .inf => .negInf
  | .finite m, .finite r _ _ => .finite (m - r)
  | .posInf, .finite _ _ _ => .posInf
  | .negInf, .finite _ _ _ => .negInf

def upperEnd (x : Arb) : Arf :=
  match x.mid, x.rad with
  | .nan, _ => .nan
  | _, .inf => .posInf
  | .finite m, .finite r _ _ => .finite (m + r)
  | .posInf, .finite _ _ _ => .posInf
  | .negInf, .finite _ _ _ => .negInf

theorem lowerEnd_spec {x : Arb} (number : x.mid ≠ .nan) :
    x.lowerEnd ≠ .nan ∧ x.lowerEnd.toEReal = x.lower := by
  rcases x with ⟨mid, rad⟩
  cases mid <;> cases rad <;> simp_all [lowerEnd, lower, Arf.toEReal]

theorem upperEnd_spec {x : Arb} (number : x.mid ≠ .nan) :
    x.upperEnd ≠ .nan ∧ x.upperEnd.toEReal = x.upper := by
  rcases x with ⟨mid, rad⟩
  cases mid <;> cases rad <;> simp_all [upperEnd, upper, Arf.toEReal]

/-- The relation holds for all pairs of elements, decided on the ends. -/
def endsRelated (comparison : Comparison) (x y : Arb) : Bool :=
  match comparison with
  | .lt => Arf.blt x.upperEnd y.lowerEnd
  | .gt => Arf.blt y.upperEnd x.lowerEnd
  | .le => !Arf.blt y.lowerEnd x.upperEnd
  | .ge => !Arf.blt x.lowerEnd y.upperEnd
  | .eq => decide (x.lowerEnd = x.upperEnd ∧ y.lowerEnd = y.upperEnd ∧ x.lowerEnd = y.lowerEnd)
  | .ne => Arf.blt x.upperEnd y.lowerEnd || Arf.blt y.upperEnd x.lowerEnd

def related (comparison : Comparison) (x y : Arb) : Bool :=
  decide (x.mid ≠ .nan ∧ y.mid ≠ .nan) && endsRelated comparison x y

theorem endsRelated_iff (comparison : Comparison) {x y : Arb} (xNumber : x.mid ≠ .nan)
    (yNumber : y.mid ≠ .nan) :
    endsRelated comparison x y = true ↔ Always comparison.Holds x.elements y.elements := by
  obtain ⟨xLower, xLowerEq⟩ := lowerEnd_spec xNumber
  obtain ⟨xUpper, xUpperEq⟩ := upperEnd_spec xNumber
  obtain ⟨yLower, yLowerEq⟩ := lowerEnd_spec yNumber
  obtain ⟨yUpper, yUpperEq⟩ := upperEnd_spec yNumber
  have xOrdered := x.lower_le_upper_iff.mpr xNumber
  have yOrdered := y.lower_le_upper_iff.mpr yNumber
  have same : ∀ {a b : Arf}, a ≠ .nan → b ≠ .nan → (a = b ↔ a.toEReal = b.toEReal) :=
    fun aNumber bNumber => ⟨congrArg _, Arf.toEReal_injective aNumber bNumber⟩
  rw [elements_eq_Icc, elements_eq_Icc, always_Icc_iff comparison xOrdered yOrdered]
  cases comparison with
  | lt => rw [endsRelated, Arf.blt_iff xUpper yLower, xUpperEq, yLowerEq, Comparison.OnEnds]
  | gt => rw [endsRelated, Arf.blt_iff yUpper xLower, yUpperEq, xLowerEq, Comparison.OnEnds]
  | le =>
      rw [endsRelated, Bool.not_eq_true', ← Bool.not_eq_true, Arf.blt_iff yLower xUpper, not_lt,
        yLowerEq, xUpperEq, Comparison.OnEnds]
  | ge =>
      rw [endsRelated, Bool.not_eq_true', ← Bool.not_eq_true, Arf.blt_iff xLower yUpper, not_lt,
        xLowerEq, yUpperEq, Comparison.OnEnds]
  | eq =>
      rw [endsRelated, decide_eq_true_iff, same xLower xUpper, same yLower yUpper,
        same xLower yLower, xLowerEq, xUpperEq, yLowerEq, yUpperEq, Comparison.OnEnds]
  | ne =>
      rw [endsRelated, Bool.or_eq_true, Arf.blt_iff xUpper yLower, Arf.blt_iff yUpper xLower,
        xLowerEq, xUpperEq, yLowerEq, yUpperEq, Comparison.OnEnds]

end Arb

/-- Rounding towards zero to a number of mantissa bits. -/
def truncateBits (bits : ℕ) (q : ℚ) : Dyadic :=
  if 0 ≤ q then Dyadic.roundDownBits bits q else Dyadic.roundUpBits bits q

def unitInLastPlace (bits : ℕ) (q : ℚ) : Dyadic :=
  Dyadic.ofIntWithPrec 1 (bits - Dyadic.rationalExponent q)

private theorem toRat_unitInLastPlace (bits : ℕ) (q : ℚ) :
    (unitInLastPlace bits q).toRat = 2 ^ (Dyadic.rationalExponent q - (bits : ℤ)) := by
  simp [unitInLastPlace, Dyadic.toRat_ofIntWithPrec_eq_mul_two_pow]

private theorem unitInLastPlace_nonneg (bits : ℕ) (q : ℚ) : 0 ≤ unitInLastPlace bits q := by
  rw [← Dyadic.toRat_le_toRat_iff, toRat_unitInLastPlace]
  exact (zpow_pos (two_pos : (0 : ℚ) < 2) _).le

private theorem unitInLastPlace_short (bits : ℕ) (q : ℚ) :
    (unitInLastPlace bits q).FitsBits 30 := by
  apply Dyadic.fitsBits_of_toRat_eq (m := 1) (e := Dyadic.rationalExponent q - (bits : ℤ))
  · norm_num
  · rw [toRat_unitInLastPlace, Int.cast_one, one_mul]

theorem truncateBits_close (bits : ℕ) (q : ℚ) :
    |q - (truncateBits bits q).toRat| ≤ (unitInLastPlace bits q).toRat := by
  rw [toRat_unitInLastPlace, abs_le]
  unfold truncateBits
  split
  · have below := Dyadic.roundDownBits_le bits q
    have close := Dyadic.lt_roundDownBits_add bits q
    have unitPos : (0 : ℚ) < 2 ^ (Dyadic.rationalExponent q - (bits : ℤ)) := zpow_pos two_pos _
    constructor <;> linarith
  · have above := Dyadic.le_roundUpBits bits q
    have close := Dyadic.lt_roundDownBits_add bits (-q)
    have sameExponent : Dyadic.rationalExponent (-q) = Dyadic.rationalExponent q := by
      rw [Dyadic.rationalExponent, abs_neg, Dyadic.rationalExponent]
    have unitPos : (0 : ℚ) < 2 ^ (Dyadic.rationalExponent q - (bits : ℤ)) := zpow_pos two_pos _
    rw [sameExponent] at close
    have roundUpEq : (Dyadic.roundUpBits bits q).toRat =
        -(Dyadic.roundDownBits bits (-q)).toRat := by
      rw [Dyadic.roundUpBits, Dyadic.toRat_neg]
    constructor <;> linarith

namespace Arb

/-- A rational number truncated to some bits, with the error bound as radius
unless the truncation is exact. -/
def enclosing (q : ℚ) (bits : ℕ) : Arb :=
  if (truncateBits bits q).toRat = q then
    exact (.finite (truncateBits bits q))
  else
    ⟨.finite (truncateBits bits q),
      .finite (unitInLastPlace bits q) (unitInLastPlace_nonneg bits q)
        (unitInLastPlace_short bits q)⟩

theorem mem_enclosing (q : ℚ) (bits : ℕ) : ((q : ℝ) : EReal) ∈ (enclosing q bits).elements := by
  unfold enclosing
  split
  · rename_i isExact
    rw [elements_exact (by simp), Set.mem_singleton_iff, Arf.toEReal, Dyadic.toEReal, isExact]
  · refine ⟨(q : ℝ), rfl, ?_⟩
    exact_mod_cast truncateBits_close bits q

def half (d : Dyadic) : Dyadic :=
  Dyadic.ofIntWithPrec 1 1 * d

@[simp]
theorem toRat_half (d : Dyadic) : (half d).toRat = d.toRat / 2 := by
  rw [half, Dyadic.toRat_mul, Dyadic.toRat_ofIntWithPrec_eq_mul_two_pow]
  norm_num
  ring

/-- The smallest ball around the exact midpoint of two ends that reaches both. -/
def between : Arf → Arf → Arb
  | .finite a, .finite b => ⟨.finite (half (a + b)), Mag.above ((b.toRat - a.toRat) / 2)⟩
  | .posInf, .posInf => exact .posInf
  | .negInf, .negInf => exact .negInf
  | .nan, _ | _, .nan => ⟨.nan, .inf⟩
  | _, _ => ⟨.finite 0, .inf⟩

theorem Icc_subset_between {a b : Arf} (aNumber : a ≠ .nan) (bNumber : b ≠ .nan) :
    Set.Icc a.toEReal b.toEReal ⊆ (between a b).elements := by
  have whole : ∀ s : Set EReal, s ⊆ (⟨.finite 0, .inf⟩ : Arb).elements :=
    fun s => Set.subset_univ s
  cases a with
  | nan => exact (aNumber rfl).elim
  | posInf =>
      cases b with
      | nan => exact (bNumber rfl).elim
      | posInf => rw [between, elements_exact (by simp), Set.Icc_self]
      | _ => exact whole _
  | negInf =>
      cases b with
      | nan => exact (bNumber rfl).elim
      | negInf => rw [between, elements_exact (by simp), Set.Icc_self]
      | _ => exact whole _
  | finite a =>
      cases b with
      | nan => exact (bNumber rfl).elim
      | finite b =>
          have reach : |(b.toRat - a.toRat) / 2| ≤
              (Dyadic.roundUpBits 30 |(b.toRat - a.toRat) / 2|).toRat :=
            Dyadic.le_roundUpBits 30 _
          have spread := (le_abs_self ((b.toRat - a.toRat) / 2)).trans reach
          have sum : (half (a + b)).toRat = (a.toRat + b.toRat) / 2 := by
            rw [toRat_half, Dyadic.toRat_add]
          rw [elements_eq_Icc]
          apply Set.Icc_subset_Icc
          · simp only [between, lower, Mag.above, Arf.toEReal, Dyadic.toEReal_le_toEReal]
            rw [← Dyadic.toRat_le_toRat_iff, Dyadic.toRat_sub, sum]
            linarith
          · simp only [between, upper, Mag.above, Arf.toEReal, Dyadic.toEReal_le_toEReal]
            rw [← Dyadic.toRat_le_toRat_iff, Dyadic.toRat_add, sum]
            linarith
      | _ => exact whole _

def roundedEnds (x : Arb) (bits : ℕ) : Arf × Arf :=
  match x.lowerEnd, x.upperEnd with
  | .finite lower, .finite upper =>
      (.finite (Dyadic.roundDownBits bits lower.toRat),
        .finite (Dyadic.roundUpBits bits upper.toRat))
  | lower, upper => (lower, upper)

end Arb

namespace CLibrary

/-- `ARF_PREC_EXACT` where an `slong` has 64 bits. -/
def precExact : ℤ :=
  2 ^ 63 - 1

def accuracyBits (x : Arb) : ℤ :=
  match x.mid, x.rad with
  | .nan, _ => -precExact
  | .finite m, .finite r _ _ =>
      if r = 0 then precExact
      else if m = 0 then -precExact
      else max (-precExact) (min precExact (m.exponent - r.exponent - 1))
  | _, rad => if rad = Mag.zero then precExact else -precExact

/-- The reference implementation. -/
def reference (model : DataModel) : CLibrary model where
  mpzClass v := v
  arfSetSi v := Arf.ofInt v.val
  arfSetUi v := Arf.ofInt v.val
  arfSetFmpz z := Arf.ofInt z
  arfSetFmpz2exp m e := .finite (Dyadic.ofIntWithPrec m (-e))
  arfCmp := Arf.cmp
  arfCmpSi a v := Arf.cmp a (Arf.ofInt v.val)
  arfCmpUi a v := Arf.cmp a (Arf.ofInt v.val)
  arfEqual a b := decide (a = b)
  arfEqualSi a v := decide (a = Arf.ofInt v.val)
  arbSetSi v := Arb.exact (Arf.ofInt v.val)
  arbSetUi v := Arb.exact (Arf.ofInt v.val)
  arbSetFmpz z := Arb.exact (Arf.ofInt z)
  arbSetFmpq q precision := Arb.enclosing q.value precision.toNat
  arbSetArf := Arb.exact
  arbNeg x := ⟨x.mid.neg, x.rad⟩
  arbEqual x y := decide (x = y)
  arbIsExact x := decide (x.rad = Mag.zero)
  arbIsFinite x := match x.mid with
    | .finite _ => decide (x.rad ≠ .inf)
    | _ => false
  arbLt := Arb.related .lt
  arbGt := Arb.related .gt
  arbLe := Arb.related .le
  arbGe := Arb.related .ge
  arbEq := Arb.related .eq
  arbNe := Arb.related .ne
  arfPrecExact := precExact
  arbRelAccuracyBits := accuracyBits
  arbGetIntervalArf x precision :=
    if precision = precExact then (x.lowerEnd, x.upperEnd) else x.roundedEnds precision.toNat
  arbSetIntervalArf a b _ := Arb.between a b

section Documented

variable (model : DataModel)

theorem reference_ballPredicate (comparison : Comparison) :
    (reference model).ballPredicate comparison = Arb.related comparison := by
  cases comparison <;> rfl

theorem reference_comparesBalls : (reference model).ComparesBalls where
  predicate_iff comparison x y := by
    rw [reference_ballPredicate, Arb.related, Bool.and_eq_true, decide_eq_true_iff]
    constructor
    · rintro ⟨⟨xNumber, yNumber⟩, related⟩
      exact ⟨xNumber, yNumber, (Arb.endsRelated_iff comparison xNumber yNumber).mp related⟩
    · rintro ⟨xNumber, yNumber, always⟩
      exact ⟨⟨xNumber, yNumber⟩, (Arb.endsRelated_iff comparison xNumber yNumber).mpr always⟩

theorem reference_comparesFloats : (reference model).ComparesFloats where
  cmp_number _ _ aNumber bNumber := Arf.cmp_isSignOf aNumber bNumber
  cmp_nan _ _ someNan := Arf.cmp_eq_zero_of_nan someNan
  cmpSi_number _ v aNumber := Arf.cmp_isSignOf aNumber (Arf.ofInt_ne_nan v.val)
  cmpSi_nan v := Arf.cmp_eq_zero_of_nan (b := Arf.ofInt v.val) (.inl rfl)
  cmpUi_number _ v aNumber := Arf.cmp_isSignOf aNumber (Arf.ofInt_ne_nan v.val)
  cmpUi_nan v := Arf.cmp_eq_zero_of_nan (b := Arf.ofInt v.val) (.inl rfl)
  equal_iff _ _ := decide_eq_true_iff
  equalSi_iff _ _ := decide_eq_true_iff

theorem reference_setsIntegers : (reference model).SetsIntegers where
  mpzClass_eq _ := rfl
  arfSetSi_eq _ := rfl
  arfSetUi_eq _ := rfl
  arfSetFmpz_eq _ := rfl
  arfSetFmpz2exp_eq _ _ := rfl
  arbSetSi_eq _ := rfl
  arbSetUi_eq _ := rfl
  arbSetFmpz_eq _ := rfl

theorem reference_enclosesRationals : (reference model).EnclosesRationals where
  mem_setFmpq q precision := Arb.mem_enclosing q.value precision.toNat

theorem reference_handlesBalls : (reference model).HandlesBalls where
  setArf_eq _ := rfl
  neg_eq _ := rfl
  equal_iff _ _ := decide_eq_true_iff
  isExact_iff _ := decide_eq_true_iff
  isFinite_iff x := by
    rcases x with ⟨mid, rad⟩
    cases mid <;> simp [reference]

theorem reference_convertsIntervals : (reference model).ConvertsIntervals where
  two_le_precExact := show 2 ≤ precExact by decide
  accuracy_exact _ := rfl
  accuracy_zero r nonneg short positive := by
    simp [reference, accuracyBits, positive]
  accuracy_ball m r nonneg short midpoint positive := by
    simp [reference, accuracyBits, midpoint, positive]
  getInterval_rounds m r nonneg short precision admissible := by
    have bitsPos : 0 < precision.toNat := by omega
    by_cases unrounded : precision = precExact
    · refine ⟨m - r, m + r, if_pos unrounded, Dyadic.le_refl _, Dyadic.le_refl _, ?_⟩
      exact fun rounded => (rounded unrounded).elim
    · have greatest := Dyadic.isGreatest_roundDownBits bitsPos (m - r).toRat
      have least := Dyadic.isLeast_roundUpBits bitsPos (m + r).toRat
      simp only [Dyadic.toRat_le_toRat_iff] at greatest least
      exact ⟨_, _, if_neg unrounded, greatest.1.2, least.1.2, fun _ => ⟨greatest, least⟩⟩
  setInterval_encloses _ _ _ _ aNumber bNumber _ := Arb.Icc_subset_between aNumber bNumber

end Documented

end CLibrary

namespace DataModel

/-- A platform with 64-bit `long`, as on Linux. -/
def lp64 : DataModel where
  shortWidth := 16
  intWidth := 32
  longWidth := 64
  longLongWidth := 64
  flintLong := .long
  shortWidth_pos := by decide
  short_le_int := by decide
  int_le_long := by decide
  long_le_longLong := by decide

/-- A platform with 32-bit `long` and 64-bit `slong`, as on Windows. -/
def llp64 : DataModel where
  shortWidth := 16
  intWidth := 32
  longWidth := 32
  longLongWidth := 64
  flintLong := .longLong
  shortWidth_pos := by decide
  short_le_int := by decide
  int_le_long := by decide
  long_le_longLong := by decide

end DataModel

end Arbxx
