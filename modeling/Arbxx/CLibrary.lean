import Arbxx.Balls
import Arbxx.Platform
import Arbxx.ThreeValuedComparison

/-!
# The C libraries under the classes

`Arf` and `Arb` wrap functions of Arb, FLINT and gmpxxll that are not part of
the repository.  They enter as a parameter: a record of functions, and, for each
group of functions, the documented behaviour that the classes rely on.
-/

namespace Arbxx

open ThreeValued TwosComplement

/-- An `mpq_class` with a non-zero denominator, in lowest terms or not. -/
structure Mpq where
  numerator : ℤ
  denominator : ℤ
  denominator_ne_zero : denominator ≠ 0

namespace Mpq

def value (q : Mpq) : ℚ :=
  q.numerator / q.denominator

noncomputable def toEReal (q : Mpq) : EReal :=
  ((q.value : ℝ) : EReal)

def ofInt (n : ℤ) : Mpq :=
  ⟨n, 1, one_ne_zero⟩

@[simp]
theorem toEReal_ofInt (n : ℤ) : (ofInt n).toEReal = ((n : ℝ) : EReal) := by
  simp [ofInt, toEReal, value]

end Mpq

/-- The functions of Arb, FLINT and gmpxxll that the classes call.  A function
that writes to its first argument returns what it writes; an `int` used as a
truth value is a `Bool`. -/
structure CLibrary (model : DataModel) where
  mpzClass : ℤ → ℤ
  arfSetSi : model.Value model.slong → Arf
  arfSetUi : model.Value model.ulong → Arf
  arfSetFmpz : ℤ → Arf
  arfSetFmpz2exp : ℤ → ℤ → Arf
  arfCmp : Arf → Arf → ℤ
  arfCmpSi : Arf → model.Value model.slong → ℤ
  arfCmpUi : Arf → model.Value model.ulong → ℤ
  arfEqual : Arf → Arf → Bool
  arfEqualSi : Arf → model.Value model.slong → Bool
  arbSetSi : model.Value model.slong → Arb
  arbSetUi : model.Value model.ulong → Arb
  arbSetFmpz : ℤ → Arb
  arbSetFmpq : Mpq → ℤ → Arb
  arbSetArf : Arf → Arb
  arbNeg : Arb → Arb
  arbEqual : Arb → Arb → Bool
  arbIsExact : Arb → Bool
  arbIsFinite : Arb → Bool
  arbLt : Arb → Arb → Bool
  arbGt : Arb → Arb → Bool
  arbLe : Arb → Arb → Bool
  arbGe : Arb → Arb → Bool
  arbEq : Arb → Arb → Bool
  arbNe : Arb → Arb → Bool
  arfPrecExact : ℤ
  arbRelAccuracyBits : Arb → ℤ
  arbGetIntervalArf : Arb → ℤ → Arf × Arf
  arbSetIntervalArf : Arf → Arf → ℤ → Arb

def IsSignOf (sign : ℤ) (t u : EReal) : Prop :=
  (sign < 0 ↔ t < u) ∧ (sign = 0 ↔ t = u) ∧ (0 < sign ↔ u < t)

namespace CLibrary

variable {model : DataModel} (lib : CLibrary model)

def ballPredicate : Comparison → Arb → Arb → Bool
  | .lt => lib.arbLt
  | .gt => lib.arbGt
  | .le => lib.arbLe
  | .ge => lib.arbGe
  | .eq => lib.arbEq
  | .ne => lib.arbNe

/-- `arb_lt`, `arb_gt`, `arb_le`, `arb_ge`, `arb_eq` and `arb_ne` decide whether
the relation holds for all pairs of elements, and answer no on NaN. -/
structure ComparesBalls : Prop where
  predicate_iff : ∀ (comparison : Comparison) (x y : Arb),
    lib.ballPredicate comparison x y = true ↔
      x.mid ≠ .nan ∧ y.mid ≠ .nan ∧ Always comparison.Holds x.elements y.elements

/-- Three-way comparison is the sign of the difference, and zero as soon as an
operand is NaN; equality is structural. -/
structure ComparesFloats : Prop where
  cmp_number : ∀ a b, a ≠ .nan → b ≠ .nan → IsSignOf (lib.arfCmp a b) a.toEReal b.toEReal
  cmp_nan : ∀ a b, a = .nan ∨ b = .nan → lib.arfCmp a b = 0
  cmpSi_number : ∀ a v, a ≠ .nan → IsSignOf (lib.arfCmpSi a v) a.toEReal (Arf.ofInt v.val).toEReal
  cmpSi_nan : ∀ v, lib.arfCmpSi .nan v = 0
  cmpUi_number : ∀ a v, a ≠ .nan → IsSignOf (lib.arfCmpUi a v) a.toEReal (Arf.ofInt v.val).toEReal
  cmpUi_nan : ∀ v, lib.arfCmpUi .nan v = 0
  equal_iff : ∀ a b, lib.arfEqual a b = true ↔ a = b
  equalSi_iff : ∀ a v, lib.arfEqualSi a v = true ↔ a = Arf.ofInt v.val

/-- `gmpxxll::mpz_class` and the integer setters of both classes are exact. -/
structure SetsIntegers : Prop where
  mpzClass_eq : ∀ v, lib.mpzClass v = v
  arfSetSi_eq : ∀ v, lib.arfSetSi v = Arf.ofInt v.val
  arfSetUi_eq : ∀ v, lib.arfSetUi v = Arf.ofInt v.val
  arfSetFmpz_eq : ∀ z, lib.arfSetFmpz z = Arf.ofInt z
  arfSetFmpz2exp_eq : ∀ m e, lib.arfSetFmpz2exp m e = .finite (Dyadic.ofIntWithPrec m (-e))
  arbSetSi_eq : ∀ v, lib.arbSetSi v = Arb.exact (Arf.ofInt v.val)
  arbSetUi_eq : ∀ v, lib.arbSetUi v = Arb.exact (Arf.ofInt v.val)
  arbSetFmpz_eq : ∀ z, lib.arbSetFmpz z = Arb.exact (Arf.ofInt z)

/-- `arb_set_fmpq` encloses the rational number at every precision. -/
structure EnclosesRationals : Prop where
  mem_setFmpq : ∀ q precision, q.toEReal ∈ (lib.arbSetFmpq q precision).elements

/-- `arb_set_arf`, `arb_neg`, `arb_equal`, `arb_is_exact` and `arb_is_finite` act
on the midpoint and the radius separately. -/
structure HandlesBalls : Prop where
  setArf_eq : ∀ a, lib.arbSetArf a = Arb.exact a
  neg_eq : ∀ x, lib.arbNeg x = ⟨x.mid.neg, x.rad⟩
  equal_iff : ∀ x y, lib.arbEqual x y = true ↔ x = y
  isExact_iff : ∀ x, lib.arbIsExact x = true ↔ x.rad = Mag.zero
  isFinite_iff : ∀ x, lib.arbIsFinite x = true ↔ (∃ m, x.mid = .finite m) ∧ x.rad ≠ .inf

/-- Accuracy of a ball, and conversion between a ball and its two ends at an
admissible precision.  `ARF_PREC_EXACT` may stand for no rounding at all. -/
structure ConvertsIntervals : Prop where
  two_le_precExact : 2 ≤ lib.arfPrecExact
  accuracy_exact : ∀ m, lib.arbRelAccuracyBits (Arb.exact (.finite m)) = lib.arfPrecExact
  accuracy_zero : ∀ r nonneg short, r ≠ 0 →
    lib.arbRelAccuracyBits ⟨.finite 0, .finite r nonneg short⟩ = -lib.arfPrecExact
  accuracy_ball : ∀ m r nonneg short, m ≠ 0 → r ≠ 0 →
    lib.arbRelAccuracyBits ⟨.finite m, .finite r nonneg short⟩ =
      max (-lib.arfPrecExact) (min lib.arfPrecExact (m.exponent - r.exponent - 1))
  getInterval_rounds : ∀ m r nonneg short (precision : ℤ), 2 ≤ precision →
    ∃ lo hi : Dyadic,
      lib.arbGetIntervalArf ⟨.finite m, .finite r nonneg short⟩ precision =
        (.finite lo, .finite hi) ∧ lo ≤ m - r ∧ m + r ≤ hi ∧
      (precision ≠ lib.arfPrecExact →
        IsGreatest {d : Dyadic | d.FitsBits precision.toNat ∧ d ≤ m - r} lo ∧
        IsLeast {d : Dyadic | d.FitsBits precision.toNat ∧ m + r ≤ d} hi)
  setInterval_encloses : ∀ (a b : Arf) (precision : ℤ), 2 ≤ precision → a ≠ .nan → b ≠ .nan →
    a.toEReal ≤ b.toEReal →
    Set.Icc a.toEReal b.toEReal ⊆ (lib.arbSetIntervalArf a b precision).elements

end CLibrary

end Arbxx
