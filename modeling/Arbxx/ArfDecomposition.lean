import Arbxx.ArfOperators
import Arbxx.NumberLibrary
import Arbxx.ReferenceLibrary
import Arbxx.TextLibrary

/-!
# Mantissas, exponents and numerals

An `Arf` is constructed from a mantissa, given as an integer or as a numeral, and
an exponent, and gives back its odd mantissa and the exponent next to it.  The
constructor that reads a numeral does not look at the error code of the parser.
-/

namespace Arbxx

namespace Arf

variable {model : DataModel} (lib : CLibrary model) (numbers : NumberLibrary model)

/-- `mantissa_exponent`. -/
def mantissaExponent (arf : Arf) : ℤ × ℤ :=
  numbers.arfGetFmpz2exp arf

def mantissa (self : Arf) : ℤ :=
  (mantissaExponent numbers self).1

def exponent (self : Arf) : ℤ :=
  (mantissaExponent numbers self).2

/-- `Arf::Arf(const std::string& mantissa, int base, long exponent)`.  The error
code of `fmpz_set_str` is dropped, and nothing is thrown. -/
def ofString (mantissa : List Char) (base : model.Value .int) (exponent : model.Value .long) :
    Arf :=
  let (_, m) := numbers.fmpzSetStr 0 (cString mantissa) base
  lib.arfSetFmpz2exp m (model.staticCast model.slong exponent.val).val

/-- The whole of a string is a numeral of a number. -/
def Numeral (grammar : List Char → ℤ → Option ℤ) (base : ℤ) (s : List Char) (z : ℤ) : Prop :=
  nul ∉ s ∧ grammar s base = some z

variable {lib numbers} {grammar : List Char → ℤ → Option ℤ}

theorem ofMpz_eq (sets : lib.SetsIntegers) (m : ℤ) (e : model.Value .long) :
    ofMpz lib m e = .finite (Dyadic.ofIntWithPrec m (-e.val)) := by
  rw [ofMpz, DataModel.staticCast_slong_val, sets.arfSetFmpz2exp_eq]

/-- The constructor uses whatever number the parser leaves behind: that of the
part before a NUL character, or the initial zero. -/
theorem ofString_eq (sets : lib.SetsIntegers) (parses : numbers.ParsesNumerals grammar)
    (s : List Char) (base : model.Value .int) (e : model.Value .long) :
    ofString lib numbers s base e =
      .finite (Dyadic.ofIntWithPrec ((grammar (cString s) base.val).getD 0) (-e.val)) := by
  rw [ofString, parses.fmpzSetStr_eq, DataModel.staticCast_slong_val]
  cases grammar (cString s) base.val with
  | none => exact sets.arfSetFmpz2exp_eq 0 e.val
  | some z => exact sets.arfSetFmpz2exp_eq z e.val

theorem ofString_of_numeral (sets : lib.SetsIntegers) (parses : numbers.ParsesNumerals grammar)
    {s : List Char} {base : model.Value .int} {z : ℤ} (numeral : Numeral grammar base.val s z)
    (e : model.Value .long) : ofString lib numbers s base e = ofMpz lib z e := by
  rw [ofString_eq sets parses, cString_eq_self numeral.1, numeral.2, ofMpz_eq sets]
  rfl

theorem numeral_print (parses : numbers.ParsesNumerals grammar) {base : ℕ} (twoLe : 2 ≤ base)
    (baseLe : base ≤ 36) (m : ℤ) : Numeral grammar base (RadixNumerals.print base m) m :=
  ⟨RadixNumerals.separator_notMem_print twoLe baseLe m (by decide),
    parses.grammar_parse base _ m twoLe baseLe (RadixNumerals.parse_print twoLe baseLe m)⟩

theorem mantissa_finite (decomposes : numbers.Decomposes) (d : Dyadic) :
    mantissa numbers (.finite d) = d.mantissa := by
  rw [mantissa, mantissaExponent, decomposes.arfGetFmpz2exp_eq]

theorem exponent_finite (decomposes : numbers.Decomposes) (d : Dyadic) :
    exponent numbers (.finite d) = d.twoExponent := by
  rw [exponent, mantissaExponent, decomposes.arfGetFmpz2exp_eq]

/-- An element made from a mantissa and an exponent has the same value with an
odd mantissa, or two zeros. -/
theorem parts_ofMpz (sets : lib.SetsIntegers) (decomposes : numbers.Decomposes) (m : ℤ)
    (e : model.Value .long) :
    (mantissa numbers (ofMpz lib m e) : ℚ) * 2 ^ exponent numbers (ofMpz lib m e) =
        m * 2 ^ e.val ∧
      (m ≠ 0 → mantissa numbers (ofMpz lib m e) % 2 = 1) ∧
      (m = 0 → mantissa numbers (ofMpz lib m e) = 0 ∧ exponent numbers (ofMpz lib m e) = 0) := by
  rw [ofMpz_eq sets, mantissa_finite decomposes, exponent_finite decomposes]
  refine ⟨?_, ?_, ?_⟩
  · rw [← Dyadic.toRat_eq_mantissa_mul, Dyadic.toRat_ofIntWithPrec_neg]
  · intro nonzero
    exact Dyadic.mantissa_odd (Dyadic.ofIntWithPrec_eq_zero_iff.not.mpr nonzero)
  · intro zero
    rw [zero, Dyadic.ofIntWithPrec_zero]
    exact ⟨rfl, rfl⟩

theorem operatorEqual_ofMpz_iff (sets : lib.SetsIntegers) (compares : lib.ComparesFloats)
    (m : ℤ) (e : model.Value .long) (m' : ℤ) (e' : model.Value .long) :
    operatorEqual lib (ofMpz lib m e) (ofMpz lib m' e') = true ↔
      (m : ℚ) * 2 ^ e.val = m' * 2 ^ e'.val := by
  rw [operatorEqual, compares.equal_iff, ofMpz_eq sets, ofMpz_eq sets, Arf.finite.injEq,
    Dyadic.ofIntWithPrec_eq_iff]

theorem operatorEqual_self (compares : lib.ComparesFloats) (a : Arf) :
    operatorEqual lib a a = true :=
  (compares.equal_iff a a).mpr rfl

/-- The constructors and the mantissa and exponent of an element undo each other:
the parts of a constructed element multiply to its value, elements are equal
exactly if their values are, the parts of an element construct it again, and a
numeral constructs what its number does. -/
theorem constructors_parts_inverse (sets : lib.SetsIntegers) (compares : lib.ComparesFloats)
    (decomposes : numbers.Decomposes) (parses : numbers.ParsesNumerals grammar) :
    (∀ (m : ℤ) (e : model.Value .long),
      (mantissa numbers (ofMpz lib m e) : ℚ) * 2 ^ exponent numbers (ofMpz lib m e) =
          m * 2 ^ e.val ∧
        (m ≠ 0 → mantissa numbers (ofMpz lib m e) % 2 = 1) ∧
        (m = 0 → mantissa numbers (ofMpz lib m e) = 0 ∧
          exponent numbers (ofMpz lib m e) = 0)) ∧
    (∀ (m : ℤ) (e : model.Value .long) (m' : ℤ) (e' : model.Value .long),
      operatorEqual lib (ofMpz lib m e) (ofMpz lib m' e') = true ↔
        (m : ℚ) * 2 ^ e.val = m' * 2 ^ e'.val) ∧
    (∀ (d : Dyadic) (e : model.Value .long), e.val = exponent numbers (.finite d) →
      operatorEqual lib (ofMpz lib (mantissa numbers (.finite d)) e) (.finite d) = true) ∧
    (∀ (base : model.Value .int) (m : ℤ) (e : model.Value .long),
      2 ≤ base.val → base.val ≤ 36 →
        operatorEqual lib
          (ofString lib numbers (RadixNumerals.print base.val.toNat m) base e)
          (ofMpz lib m e) = true) ∧
    (∀ (base : model.Value .int) (s : List Char) (m : ℤ) (e : model.Value .long),
      Numeral grammar base.val s m →
        operatorEqual lib (ofString lib numbers s base e) (ofMpz lib m e) = true) := by
  refine ⟨parts_ofMpz sets decomposes, operatorEqual_ofMpz_iff sets compares, ?_, ?_, ?_⟩
  · intro d e fits
    have again : ofMpz lib (mantissa numbers (.finite d)) e = .finite d := by
      rw [ofMpz_eq sets, fits, mantissa_finite decomposes, exponent_finite decomposes,
        Dyadic.ofIntWithPrec_mantissa]
    rw [again]
    exact operatorEqual_self compares _
  · intro base m e twoLe baseLe
    have numeral : Numeral grammar base.val (RadixNumerals.print base.val.toNat m) m := by
      have printed := @numeral_print _ _ _ parses base.val.toNat (by omega) (by omega) m
      rwa [Int.toNat_of_nonneg (by omega)] at printed
    rw [ofString_of_numeral sets parses numeral]
    exact operatorEqual_self compares _
  · intro base s m e numeral
    rw [ofString_of_numeral sets parses numeral]
    exact operatorEqual_self compares _

/-- `Arf("abc", 16, -8) == Arf(2748, -8)`. -/
theorem constructors_parts_inverse_abc :
    operatorEqual (CLibrary.reference .lp64)
      (ofString (CLibrary.reference .lp64) (NumberLibrary.reference .lp64) ['a', 'b', 'c']
        (DataModel.lp64.staticCast .int 16) (DataModel.lp64.staticCast .long (-8)))
      (ofMpz (CLibrary.reference .lp64) 2748 (DataModel.lp64.staticCast .long (-8))) = true := by
  have inverse := constructors_parts_inverse (CLibrary.reference_setsIntegers .lp64)
    (CLibrary.reference_comparesFloats .lp64) (NumberLibrary.reference_decomposes .lp64)
    (NumberLibrary.reference_parsesNumerals .lp64)
  exact inverse.2.2.2.2 _ _ _ _ ⟨by decide, by decide +kernel⟩

/-! ### Malformed numerals -/

/-- What is promised about malformed numerals: a finite value comes from a numeral
that is the whole string, and any other string gives NaN. -/
structure ReportsMalformed (lib : CLibrary model) (numbers : NumberLibrary model)
    (grammar : List Char → ℤ → Option ℤ) (s : List Char) (base : model.Value .int)
    (e : model.Value .long) : Prop where
  finite_of_numeral : ∀ d, ofString lib numbers s base e = .finite d →
    ∃ z, Numeral grammar base.val s z ∧ d.toRat = z * 2 ^ e.val
  nan_of_malformed : (¬ ∃ z, Numeral grammar base.val s z) → ofString lib numbers s base e = .nan

/-- The promise is kept for well formed numerals only. -/
theorem reportsMalformed_iff (sets : lib.SetsIntegers) (parses : numbers.ParsesNumerals grammar)
    (s : List Char) (base : model.Value .int) (e : model.Value .long) :
    ReportsMalformed lib numbers grammar s base e ↔ ∃ z, Numeral grammar base.val s z := by
  constructor
  · intro reports
    by_contra malformed
    have isNan := reports.nan_of_malformed malformed
    rw [ofString_eq sets parses] at isNan
    cases isNan
  · intro wellFormed
    obtain ⟨z, numeral⟩ := wellFormed
    have value := ofString_of_numeral sets parses numeral e
    rw [ofMpz_eq sets] at value
    constructor
    · intro d isFinite
      rw [value, Arf.finite.injEq] at isFinite
      exact ⟨z, numeral, by rw [← isFinite, Dyadic.toRat_ofIntWithPrec_neg]⟩
    · intro malformed
      exact (malformed ⟨z, numeral⟩).elim

theorem reportsMalformed_abc :
    ReportsMalformed (CLibrary.reference .lp64) (NumberLibrary.reference .lp64)
      NumberLibrary.referenceGrammar ['a', 'b', 'c'] (DataModel.lp64.staticCast .int 16)
      (DataModel.lp64.staticCast .long (-8)) :=
  (reportsMalformed_iff (CLibrary.reference_setsIntegers .lp64)
    (NumberLibrary.reference_parsesNumerals .lp64) _ _ _).mpr
    ⟨2748, by decide, by decide +kernel⟩

/-- `Arf("abc", 10, 0)` is zero. -/
theorem not_reportsMalformed_abc_decimal :
    ¬ ReportsMalformed (CLibrary.reference .lp64) (NumberLibrary.reference .lp64)
      NumberLibrary.referenceGrammar ['a', 'b', 'c'] (DataModel.lp64.staticCast .int 10)
      (DataModel.lp64.staticCast .long 0) ∧
    ofString (CLibrary.reference .lp64) (NumberLibrary.reference .lp64) ['a', 'b', 'c']
      (DataModel.lp64.staticCast .int 10) (DataModel.lp64.staticCast .long 0) = .finite 0 := by
  have zero : ofString (CLibrary.reference .lp64) (NumberLibrary.reference .lp64) ['a', 'b', 'c']
      (DataModel.lp64.staticCast .int 10) (DataModel.lp64.staticCast .long 0) = .finite 0 := by
    decide +kernel
  refine ⟨?_, zero⟩
  intro reports
  obtain ⟨z, ⟨_, accepted⟩, _⟩ := reports.finite_of_numeral 0 zero
  have refused : NumberLibrary.referenceGrammar ['a', 'b', 'c']
      (DataModel.lp64.staticCast .int 10).val = none := by decide +kernel
  rw [refused] at accepted
  cases accepted

end Arf

end Arbxx
