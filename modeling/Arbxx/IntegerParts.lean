import Arbxx.ArfOrder
import Arbxx.NumberLibrary

/-!
# Integer parts of `Arf`

`floor` and `ceil` round to an integral `Arf` and convert that to an integer.  The
comparisons with integers go the other way.  The two are adjoint: an integer is
below the floor exactly if it is below the number.
-/

namespace Arbxx

namespace Arf

open ThreeValued

variable {model : DataModel} (lib : CLibrary model) (numbers : NumberLibrary model)

/-- `Arf::operator-`. -/
def operatorNeg (self : Arf) : Arf :=
  numbers.arfNeg self

def floor (self : Arf) : ℤ :=
  let floor := numbers.arfFloor self
  numbers.arfGetFmpz floor .near

def ceil (self : Arf) : ℤ :=
  let ceil := numbers.arfCeil self
  numbers.arfGetFmpz ceil .near

variable {lib numbers}

theorem floor_finite (rounds : numbers.RoundsToIntegers) (d : Dyadic) :
    floor numbers (.finite d) = ⌊d.toRat⌋ := by
  rw [floor, rounds.arfFloor_eq, rounds.arfGetFmpz_eq]

theorem ceil_finite (rounds : numbers.RoundsToIntegers) (d : Dyadic) :
    ceil numbers (.finite d) = ⌈d.toRat⌉ := by
  rw [ceil, rounds.arfCeil_eq, rounds.arfGetFmpz_eq]

theorem operatorNeg_finite (rounds : numbers.RoundsToIntegers) (d : Dyadic) :
    operatorNeg numbers (.finite d) = .finite (-d) :=
  rounds.arfNeg_eq (.finite d)

/-- A comparison of a finite number with an `mpz_class` returns whether its relation
holds of the exact values. -/
theorem mem_operatorInteger_mpz_iff (compares : lib.ComparesFloats) (sets : lib.SetsIntegers)
    (comparison : Comparison) (d : Dyadic) (n : ℤ) (answer : Bool) :
    answer ∈ operatorInteger lib comparison (.finite d) (.mpz n : Operand model) ↔
      (answer = true ↔ comparison.Holds d.toRat (n : ℚ)) := by
  have settles : Overload.arfEqual.Settles (.mpz n : Operand model) := .inr trivial
  have value : (Dyadic.ofInt n).toRat = n := Dyadic.toRat_intCast n
  have embedded : comparison.Holds (Arf.finite d).toEReal (ofInt n).toEReal ↔
      comparison.Holds d.toRat (n : ℚ) := by
    have monotone : StrictMono fun q : ℚ => ((q : ℝ) : EReal) :=
      EReal.coe_strictMono.comp Rat.cast_strictMono
    rw [← value]
    exact Comparison.holds_map monotone comparison d.toRat (Dyadic.ofInt n).toRat
  rw [mem_operatorInteger_iff_of_number compares sets comparison (by simp), and_iff_right settles]
  exact iff_congr Iff.rfl embedded

theorem toRat_le_of_operatorLessEqual (compares : lib.ComparesFloats) {d e : Dyadic}
    (below : operatorLessEqual lib (.finite d) (.finite e) = true) : d.toRat ≤ e.toRat := by
  have holds : (Arf.finite d).toEReal ≤ (Arf.finite e).toEReal :=
    (operator_iff_holds compares .le (by simp) (by simp)).mp below
  exact Dyadic.toRat_le_toRat_iff.mpr (Dyadic.toEReal_le_toEReal.mp holds)

private theorem ceil_sub_floor (q : ℚ) : ⌈q⌉ - ⌊q⌋ = if q = ⌊q⌋ then 0 else 1 := by
  split
  · rename_i integral
    rw [integral, Int.ceil_intCast, Int.floor_intCast, sub_self]
  · rename_i fractional
    have notInteger : q ∉ Set.range ((↑) : ℤ → ℚ) := by
      intro member
      obtain ⟨n, rfl⟩ := member
      exact fractional (by rw [Int.floor_intCast])
    rw [(Int.ceil_eq_floor_add_one_iff_notMem q).mpr notInteger, add_sub_cancel_left]

/-- `floor` and `ceil` are adjoint to the comparisons with integers; they are
mirror images, monotone, and one apart except at integers, where they agree. -/
theorem floor_ceil_adjoint (compares : lib.ComparesFloats) (sets : lib.SetsIntegers)
    (rounds : numbers.RoundsToIntegers) (d : Dyadic) :
    (∀ (n : ℤ) (answer : Bool),
      (answer ∈ operatorInteger lib .ge (.finite d) (.mpz n : Operand model) ↔
        (answer = true ↔ n ≤ floor numbers (.finite d))) ∧
      (answer ∈ operatorInteger lib .le (.finite d) (.mpz n : Operand model) ↔
        (answer = true ↔ ceil numbers (.finite d) ≤ n))) ∧
    ceil numbers (.finite d) = -floor numbers (operatorNeg numbers (.finite d)) ∧
    (∀ e : Dyadic, operatorLessEqual lib (.finite d) (.finite e) = true →
      floor numbers (.finite d) ≤ floor numbers (.finite e) ∧
        ceil numbers (.finite d) ≤ ceil numbers (.finite e)) ∧
    (∃ equal : Bool,
      equal ∈ operatorInteger lib .eq (.finite d)
        (.mpz (floor numbers (.finite d)) : Operand model) ∧
      ceil numbers (.finite d) - floor numbers (.finite d) = if equal then 0 else 1) := by
  simp only [mem_operatorInteger_mpz_iff compares sets, operatorNeg_finite rounds,
    floor_finite rounds, ceil_finite rounds, Dyadic.toRat_neg, Int.floor_neg, neg_neg]
  refine ⟨?_, True.intro, ?_, ?_⟩
  · intro n answer
    exact ⟨iff_congr Iff.rfl Int.le_floor.symm, iff_congr Iff.rfl Int.ceil_le.symm⟩
  · intro e below
    have ordered := toRat_le_of_operatorLessEqual compares below
    exact ⟨Int.floor_le_floor ordered, Int.ceil_le_ceil ordered⟩
  · refine ⟨decide (d.toRat = ⌊d.toRat⌋), decide_eq_true_iff, ?_⟩
    rw [ceil_sub_floor]
    simp only [decide_eq_true_eq]

/-- `Arf(-1, -1).floor()` is minus one: it is at least `n` exactly if minus one
half is. -/
theorem floor_ceil_adjoint_minus_half :
    true ∈ operatorInteger (CLibrary.reference .lp64) .ge
      (.finite (Dyadic.ofIntWithPrec (-1) 1)) (.mpz (-1) : Operand .lp64) :=
  (((floor_ceil_adjoint (CLibrary.reference_comparesFloats .lp64)
    (CLibrary.reference_setsIntegers .lp64) (NumberLibrary.reference_roundsToIntegers .lp64)
    (Dyadic.ofIntWithPrec (-1) 1)).1 (-1) true).1).mpr (by decide +kernel)

end Arf

end Arbxx
