import Arbxx.DyadicScaling
import Arbxx.RadixNumerals
import Arbxx.ReferenceLibrary

/-!
# Functions on integers and floating point numbers

The functions on `fmpz_t` and `arf_t` behind the constructors and the methods of
`Arf` other than its comparisons, and the one that reads an `arb_t`.  Like the
functions under the comparisons they are not part of the repository; they enter as a
second record, with the documented behaviour of each group, and an executable choice
that behaves so.
-/

namespace Arbxx

open TwosComplement

/-- `Arf::Round`. -/
inductive Round
  | near
  | down
  | up
  | floor
  | ceil
  deriving DecidableEq

/-- Functions of Arb and FLINT.  `fmpz_set_str` and `arb_set_str` take the previous value
of their target, and return whether they report an error along with the new value. -/
structure NumberLibrary (model : DataModel) where
  fmpzSetStr : ℤ → List Char → model.Value .int → Bool × ℤ
  fmpzGetSi : ℤ → model.Value model.slong
  arfSet : Arf → Arf
  arfNeg : Arf → Arf
  arfFloor : Arf → Arf
  arfCeil : Arf → Arf
  arfGetFmpz : Arf → Round → ℤ
  arfGetFmpz2exp : Arf → ℤ × ℤ
  arfFrexp : Arf → Arf × ℤ
  arfMul2expSi : Arf → model.Value model.slong → Arf
  arbSetStr : Arb → List Char → ℤ → Bool × Arb

/-- The value is written if there is one, and the target is kept otherwise. -/
def writeParsed (parsed : Option ℤ) (target : ℤ) : Bool × ℤ :=
  match parsed with
  | some number => (false, number)
  | none => (true, target)

/-- Multiplication by a power of two; zero, infinities and NaN are left alone. -/
def Arf.scale (a : Arf) (e : ℤ) : Arf :=
  match a with
  | .finite d => .finite (d <<< e)
  | .posInf => .posInf
  | .negInf => .negInf
  | .nan => .nan

namespace Arf

theorem toEReal_scale (a : Arf) (e : ℤ) :
    (a.scale e).toEReal = a.toEReal * ((2 : ℝ) ^ e : ℝ) := by
  have scalePos : (0 : EReal) < ((2 : ℝ) ^ e : ℝ) := EReal.coe_pos.mpr (zpow_pos two_pos e)
  cases a with
  | finite d =>
      simp only [scale, toEReal, Dyadic.toEReal, Dyadic.toRat_shiftLeft]
      rw [← EReal.coe_mul]
      push_cast
      rfl
  | posInf => exact (EReal.top_mul_of_pos scalePos).symm
  | negInf => exact (EReal.bot_mul_of_pos scalePos).symm
  | nan => simp [scale, toEReal]

theorem scale_scale (a : Arf) (e f : ℤ) : (a.scale e).scale f = a.scale (e + f) := by
  cases a with
  | finite d => simp [scale, Dyadic.shiftLeft_shiftLeft]
  | _ => rfl

@[simp]
theorem scale_zero (a : Arf) : a.scale 0 = a := by
  cases a <;> simp [scale]

/-- A finite number other than zero. -/
def IsRegular : Arf → Prop
  | .finite d => d ≠ 0
  | _ => False

instance : DecidablePred IsRegular
  | .finite d => inferInstanceAs (Decidable (d ≠ 0))
  | .posInf | .negInf | .nan => inferInstanceAs (Decidable False)

theorem scale_inj {a : Arf} (regular : a.IsRegular) {e f : ℤ} :
    a.scale e = a.scale f ↔ e = f := by
  cases a with
  | finite d => rw [scale, scale, Arf.finite.injEq, Dyadic.shiftLeft_inj regular]
  | _ => exact regular.elim

theorem scale_of_not_regular {a : Arf} (special : ¬ a.IsRegular) (e : ℤ) : a.scale e = a := by
  cases a with
  | finite d =>
      have zero : d = 0 := not_not.mp special
      rw [zero]
      rfl
  | _ => rfl

end Arf

namespace NumberLibrary

variable {model : DataModel} (numbers : NumberLibrary model)

/-- `fmpz_set_str` writes what its grammar accepts and otherwise reports an error;
in the bases from 2 to 36 its grammar includes signed numerals. -/
structure ParsesNumerals (grammar : List Char → ℤ → Option ℤ) : Prop where
  fmpzSetStr_eq : ∀ target data base,
    numbers.fmpzSetStr target data base = writeParsed (grammar data base.val) target
  grammar_parse : ∀ (base : ℕ) data number, 2 ≤ base → base ≤ 36 →
    RadixNumerals.parse base data = some number → grammar data base = some number

/-- `arf_get_fmpz_2exp` returns the odd mantissa and its exponent. -/
structure Decomposes : Prop where
  arfGetFmpz2exp_eq : ∀ d, numbers.arfGetFmpz2exp (.finite d) = (d.mantissa, d.twoExponent)

/-- `arf_frexp` splits off a fraction between one half and one; `fmpz_get_si`
returns an integer that fits, and the low bits of one that is too large. -/
structure TakesExponents : Prop where
  arfFrexp_spec : ∀ d, d ≠ 0 → ∃ f : Dyadic, (numbers.arfFrexp (.finite d)).1 = .finite f ∧
    d.toRat = f.toRat * 2 ^ (numbers.arfFrexp (.finite d)).2 ∧ 1 / 2 ≤ |f.toRat| ∧ |f.toRat| < 1
  fmpzGetSi_fits : ∀ k, (model.format model.slong).InRange k → (numbers.fmpzGetSi k).val = k
  fmpzGetSi_above : ∀ k, (model.format model.slong).maximum < k →
    (numbers.fmpzGetSi k).val = k % ((model.format model.slong).maximum + 1)

/-- `arf_mul_2exp_si` adds to an unbounded exponent. -/
structure Scales : Prop where
  arfMul2expSi_eq : ∀ a e, numbers.arfMul2expSi a e = a.scale e.val

/-- `arf_floor` and `arf_ceil` round to the neighbouring integers, `arf_get_fmpz`
is exact on integers, and `arf_neg` changes the sign. -/
structure RoundsToIntegers : Prop where
  arfFloor_eq : ∀ d, numbers.arfFloor (.finite d) = Arf.ofInt ⌊d.toRat⌋
  arfCeil_eq : ∀ d, numbers.arfCeil (.finite d) = Arf.ofInt ⌈d.toRat⌉
  arfGetFmpz_eq : ∀ n mode, numbers.arfGetFmpz (Arf.ofInt n) mode = n
  arfNeg_eq : ∀ a, numbers.arfNeg a = a.neg

/-- `arf_set` copies. -/
structure Copies : Prop where
  arfSet_eq : ∀ a, numbers.arfSet a = a

/-! ### A reference implementation -/

/-- The low bits of the absolute value, with the sign. -/
def lowBits (model : DataModel) (k : ℤ) : ℤ :=
  k.sign * (|k| % ((model.format model.slong).maximum + 1))

def referenceGrammar (data : List Char) (base : ℤ) : Option ℤ :=
  if 2 ≤ base ∧ base ≤ 36 then RadixNumerals.parse base.toNat data else none

/-- Round the finite numbers to integers. -/
def roundWith (rounding : ℚ → ℤ) : Arf → Arf
  | .finite d => Arf.ofInt (rounding d.toRat)
  | special => special

def nearestInt : Arf → ℤ
  | .finite d => round d.toRat
  | _ => 0

/-- Integers are read, and what cannot be read is indeterminate. -/
def readBall (data : List Char) (precision : ℤ) : Bool × Arb :=
  match RadixNumerals.parse 10 data with
  | some number => (false, Arb.enclosing number precision.toNat)
  | none => (true, ⟨.nan, .inf⟩)

def reference (model : DataModel) : NumberLibrary model where
  fmpzSetStr target data base := writeParsed (referenceGrammar data base.val) target
  fmpzGetSi k :=
    if (model.format model.slong).InRange k then model.staticCast model.slong k
    else model.staticCast model.slong (lowBits model k)
  arfSet a := a
  arfNeg a := a.neg
  arfFloor := roundWith fun q => ⌊q⌋
  arfCeil := roundWith fun q => ⌈q⌉
  arfGetFmpz a _ := nearestInt a
  arfGetFmpz2exp
    | .finite d => (d.mantissa, d.twoExponent)
    | _ => (0, 0)
  arfFrexp
    | .finite d => (.finite (d <<< (-d.exponent)), d.exponent)
    | special => (special, 0)
  arfMul2expSi a e := a.scale e.val
  arbSetStr _ := readBall

section Documented

variable (model : DataModel)

theorem reference_parsesNumerals : (reference model).ParsesNumerals referenceGrammar where
  fmpzSetStr_eq _ _ _ := rfl
  grammar_parse base data number twoLe baseLe parses := by
    have admissible : (2 : ℤ) ≤ base ∧ (base : ℤ) ≤ 36 := by omega
    rw [referenceGrammar, if_pos admissible, Int.toNat_natCast, parses]

theorem reference_decomposes : (reference model).Decomposes where
  arfGetFmpz2exp_eq _ := rfl

private theorem lowBits_above {k : ℤ} (above : (model.format model.slong).maximum < k) :
    lowBits model k = k % ((model.format model.slong).maximum + 1) := by
  have maximumNonneg := (Format.inRange_zero (model.format model.slong)).2
  have positive : 0 < k := by omega
  rw [lowBits, Int.sign_eq_one_of_pos positive, abs_of_pos positive, one_mul]

theorem reference_takesExponents : (reference model).TakesExponents where
  arfFrexp_spec d nonzero := by
    obtain ⟨lower, upper⟩ := Dyadic.two_zpow_exponent_bounds nonzero
    have scalePos : (0 : ℚ) < 2 ^ (-d.exponent) := zpow_pos two_pos _
    refine ⟨d <<< (-d.exponent), rfl, ?_, ?_, ?_⟩
    · rw [Dyadic.toRat_shiftLeft, mul_assoc]
      change d.toRat = d.toRat * (2 ^ (-d.exponent) * 2 ^ d.exponent)
      rw [← zpow_add₀ two_ne_zero, neg_add_cancel, zpow_zero, mul_one]
    · rw [Dyadic.toRat_shiftLeft, abs_mul, abs_of_pos scalePos]
      calc (1 : ℚ) / 2 = 2 ^ (d.exponent - 1) * 2 ^ (-d.exponent) := by
            rw [← zpow_add₀ two_ne_zero, sub_add_eq_add_sub, add_neg_cancel, zero_sub, zpow_neg_one,
              one_div]
        _ ≤ |d.toRat| * 2 ^ (-d.exponent) := mul_le_mul_of_nonneg_right lower scalePos.le
    · rw [Dyadic.toRat_shiftLeft, abs_mul, abs_of_pos scalePos]
      calc |d.toRat| * 2 ^ (-d.exponent)
          < 2 ^ d.exponent * 2 ^ (-d.exponent) := mul_lt_mul_of_pos_right upper scalePos
        _ = 1 := by rw [← zpow_add₀ two_ne_zero, add_neg_cancel, zpow_zero]
  fmpzGetSi_fits k fits := by
    simp only [reference, if_pos fits]
    exact Format.cast_val_of_inRange fits
  fmpzGetSi_above k above := by
    have maximumNonneg := (Format.inRange_zero (model.format model.slong)).2
    have minimumNonpos := (Format.inRange_zero (model.format model.slong)).1
    have notInRange : ¬ (model.format model.slong).InRange k := fun inRange =>
      above.not_ge inRange.2
    have lower := Int.emod_nonneg k (by omega : (model.format model.slong).maximum + 1 ≠ 0)
    have upper := Int.emod_lt_of_pos k (by omega : 0 < (model.format model.slong).maximum + 1)
    simp only [reference, if_neg notInRange]
    rw [lowBits_above model above]
    exact Format.cast_val_of_inRange ⟨by omega, by omega⟩

theorem reference_scales : (reference model).Scales where
  arfMul2expSi_eq _ _ := rfl

theorem reference_roundsToIntegers : (reference model).RoundsToIntegers where
  arfFloor_eq _ := rfl
  arfCeil_eq _ := rfl
  arfGetFmpz_eq n mode := by
    have value : (Dyadic.ofInt n).toRat = n := Dyadic.toRat_intCast n
    change round (Dyadic.ofInt n).toRat = n
    rw [value, round_intCast]
  arfNeg_eq _ := rfl

theorem reference_copies : (reference model).Copies where
  arfSet_eq _ := rfl

end Documented

end NumberLibrary

end Arbxx
