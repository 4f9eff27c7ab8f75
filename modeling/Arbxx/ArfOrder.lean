import Arbxx.ArfOperators
import Arbxx.ReferenceLibrary

/-!
# The order on `Arf`

`Arf` declares itself totally ordered, and comparable with every integer type.
Both hold between numbers.  NaN is neither less than, nor equal to, nor greater
than any number, and is equal to an integer of an unsigned type.
-/

namespace Arbxx

namespace Arf

open ThreeValued CLibrary

variable {model : DataModel} {lib : CLibrary model}

/-! ### Comparisons with integers -/

/-- The comparisons for which the overloads treat NaN differently: equality tests
against an integer that reaches `arf_cmp_ui`. -/
def ComparesNanEqual (comparison : Comparison) (a : Arf) (n : Operand model) : Prop :=
  a = .nan ∧ (comparison = .eq ∨ comparison = .ne) ∧ n.kind = .ui

private theorem unorderedAnswer_eq_iff (comparison : Comparison) (equal : Bool) :
    unorderedAnswer false comparison = unorderedAnswer equal comparison ↔
      ¬ ((comparison = .eq ∨ comparison = .ne) ∧ equal = true) := by
  cases comparison <;> cases equal <;> decide

theorem operator_mem_operatorInteger_iff (compares : lib.ComparesFloats)
    (sets : lib.SetsIntegers) (comparison : Comparison) (a : Arf) (n : Operand model) :
    operator lib comparison a (ofMpzClass lib n.integer) ∈ operatorInteger lib comparison a n ↔
      Overload.arfEqual.Settles n ∧ ¬ ComparesNanEqual comparison a n := by
  rw [ofMpzClass_eq lib sets]
  by_cases number : a = .nan
  · subst number
    have unequal : decide (Arf.nan = ofInt n.integer) = false :=
      decide_eq_false (ofInt_ne_nan n.integer).symm
    rw [mem_operatorInteger_nan_iff compares sets, operator_of_nan compares comparison (.inl rfl),
      unequal, unorderedAnswer_eq_iff, decide_eq_true_iff, ComparesNanEqual, eq_self_iff_true,
      true_and]
  · rw [mem_operatorInteger_iff_of_number compares sets comparison number,
      operator_iff_holds compares comparison number (ofInt_ne_nan n.integer)]
    simp [ComparesNanEqual, number]

theorem operator_swap (comparison : Comparison) (a b : Arf) (compares : lib.ComparesFloats) :
    operator lib comparison a b = operator lib comparison.swap b a := by
  have symmetric : lib.arfEqual a b = lib.arfEqual b a := by
    rw [Bool.eq_iff_iff, compares.equal_iff, compares.equal_iff, eq_comm]
  cases comparison with
  | lt | gt | le | ge => rfl
  | eq => exact symmetric
  | ne => exact congrArg (!·) symmetric

/-- A comparison with an integer returns what the same comparison with the
integer as an `Arf` returns, in both operand orders, exactly if its chain of
delegations settles and it is not an equality test of NaN with an integer that
reaches `arf_cmp_ui`. -/
theorem integer_comparisons_agree_iff (compares : lib.ComparesFloats) (sets : lib.SetsIntegers)
    (comparison : Comparison) (a : Arf) (n : Operand model) :
    (operator lib comparison a (ofMpzClass lib n.integer) ∈ operatorInteger lib comparison a n ↔
      Overload.arfEqual.Settles n ∧ ¬ ComparesNanEqual comparison a n) ∧
    (operator lib comparison (ofMpzClass lib n.integer) a ∈ integerOperator lib comparison n a ↔
      Overload.arfEqual.Settles n ∧ ¬ ComparesNanEqual comparison a n) := by
  refine ⟨operator_mem_operatorInteger_iff compares sets comparison a n, ?_⟩
  have swapped : ComparesNanEqual comparison.swap a n ↔ ComparesNanEqual comparison a n := by
    cases comparison <;> simp [ComparesNanEqual, Comparison.swap]
  rw [integerOperator_eq_swap, operator_swap comparison _ a compares,
    operator_mem_operatorInteger_iff compares sets, swapped]

theorem integer_comparisons_agree_three_five :
    true ∈ operatorInteger (reference .lp64) .lt (ofInt 3)
      (.unsignedLong (DataModel.lp64.staticCast .unsignedLong 5)) := by
  have agrees := (integer_comparisons_agree_iff (reference_comparesFloats .lp64)
    (reference_setsIntegers .lp64) .lt (ofInt 3)
    (.unsignedLong (DataModel.lp64.staticCast .unsignedLong 5))).1
  exact agrees.mpr ⟨.inl rfl, by simp [ComparesNanEqual]⟩

/-- `NaN == 5ul` although NaN is not equal to `Arf(5)`. -/
theorem nan_equals_unsigned :
    true ∈ operatorInteger (reference .lp64) .eq .nan
        (.unsignedLong (DataModel.lp64.staticCast .unsignedLong 5)) ∧
      operator (reference .lp64) .eq .nan (ofMpzClass (reference .lp64) 5) = false := by
  refine ⟨?_, by decide +kernel⟩
  rw [mem_operatorInteger_nan_iff (reference_comparesFloats .lp64) (reference_setsIntegers .lp64)]
  exact ⟨.inl rfl, by decide +kernel⟩

/-! ### Comparisons with each other -/

/-- What a totally ordered type promises about three of its values. -/
structure TotallyOrdered (lib : CLibrary model) (a b c : Arf) : Prop where
  trichotomy : [operatorLess lib a b, operatorEqual lib a b, operatorLess lib b a].count true = 1
  transitive : operatorLess lib a b = true → operatorLess lib b c = true →
    operatorLess lib a c = true
  lessEqual_iff : operatorLessEqual lib a b = true ↔
    operatorLess lib a b = true ∨ operatorEqual lib a b = true
  antisymmetric : operatorLessEqual lib a b = true → operatorLessEqual lib b a = true →
    operatorEqual lib a b = true
  sortable : operatorLess lib a b = false → operatorLess lib b a = false →
    operatorLess lib b c = false → operatorLess lib c b = false →
    operatorLess lib a c = false ∧ operatorLess lib c a = false

private theorem operatorLess_of_nan (compares : lib.ComparesFloats) {a b : Arf}
    (someNan : a = .nan ∨ b = .nan) : operatorLess lib a b = false :=
  operator_of_nan compares .lt someNan

private theorem operatorLess_iff (compares : lib.ComparesFloats) {a b : Arf} (aNumber : a ≠ .nan)
    (bNumber : b ≠ .nan) : operatorLess lib a b = true ↔ a.toEReal < b.toEReal :=
  operator_iff_holds compares .lt aNumber bNumber

theorem operatorLess_trans (compares : lib.ComparesFloats) {a b c : Arf}
    (first : operatorLess lib a b = true) (second : operatorLess lib b c = true) :
    operatorLess lib a c = true := by
  have numbers : ∀ {x y : Arf}, operatorLess lib x y = true → x ≠ .nan ∧ y ≠ .nan := by
    intro x y less
    rw [← not_or]
    intro someNan
    rw [operatorLess_of_nan compares someNan] at less
    cases less
  obtain ⟨aNumber, bNumber⟩ := numbers first
  obtain ⟨_, cNumber⟩ := numbers second
  rw [operatorLess_iff compares aNumber bNumber] at first
  rw [operatorLess_iff compares bNumber cNumber] at second
  exact (operatorLess_iff compares aNumber cNumber).mpr (first.trans second)

private theorem not_trichotomy_of_one_nan (compares : lib.ComparesFloats) {a b : Arf}
    (oneNan : ¬ (a = .nan ↔ b = .nan)) :
    [operatorLess lib a b, operatorEqual lib a b, operatorLess lib b a].count true = 0 := by
  have someNan : a = .nan ∨ b = .nan := by
    by_contra numbers
    exact oneNan ⟨fun aNan => (numbers (.inl aNan)).elim, fun bNan => (numbers (.inr bNan)).elim⟩
  have unequal : operatorEqual lib a b = false := by
    rw [operatorEqual, ← Bool.not_eq_true, compares.equal_iff]
    rintro rfl
    exact oneNan Iff.rfl
  rw [operatorLess_of_nan compares someNan, operatorLess_of_nan compares someNan.symm, unequal]
  rfl

private theorem totallyOrdered_of_nan (compares : lib.ComparesFloats) (c : Arf) :
    TotallyOrdered lib .nan .nan c := by
  have equal : operatorEqual lib .nan .nan = true := (compares.equal_iff .nan .nan).mpr rfl
  have unordered : ∀ b : Arf, operatorLess lib .nan b = false := fun b =>
    operatorLess_of_nan compares (.inl rfl)
  exact {
    trichotomy := by simp [equal, unordered]
    transitive := operatorLess_trans compares
    lessEqual_iff := by simp [operatorLessEqual, equal, unordered]
    antisymmetric := fun _ _ => equal
    sortable := fun _ _ first second => ⟨first, second⟩ }

private theorem totallyOrdered_of_number (compares : lib.ComparesFloats) {a b : Arf}
    (aNumber : a ≠ .nan) (bNumber : b ≠ .nan) (c : Arf) : TotallyOrdered lib a b c := by
  have less_iff := operatorLess_iff compares aNumber bNumber
  have greater_iff := operatorLess_iff compares bNumber aNumber
  have equal_iff : operatorEqual lib a b = true ↔ a.toEReal = b.toEReal :=
    operator_iff_holds compares .eq aNumber bNumber
  have lessEqual_iff : operatorLessEqual lib a b = true ↔ a.toEReal ≤ b.toEReal :=
    operator_iff_holds compares .le aNumber bNumber
  have greaterEqual_iff : operatorLessEqual lib b a = true ↔ b.toEReal ≤ a.toEReal :=
    operator_iff_holds compares .le bNumber aNumber
  exact {
    trichotomy := by
      rcases lt_trichotomy a.toEReal b.toEReal with less | equal | greater
      · have notEqual := mt equal_iff.mp less.ne
        have notGreater := mt greater_iff.mp less.not_gt
        simp_all
      · have notLess := mt less_iff.mp equal.not_lt
        have notGreater := mt greater_iff.mp equal.symm.not_lt
        simp_all
      · have notEqual := mt equal_iff.mp greater.ne'
        have notLess := mt less_iff.mp greater.not_gt
        simp_all
    transitive := operatorLess_trans compares
    lessEqual_iff := by
      rw [lessEqual_iff, less_iff, equal_iff]
      exact le_iff_lt_or_eq
    antisymmetric := by
      rw [lessEqual_iff, greaterEqual_iff, equal_iff]
      exact le_antisymm
    sortable := by
      intro notLess notGreater cNotLess cNotGreater
      have same : a = b := by
        rw [← Bool.not_eq_true, less_iff, not_lt] at notLess
        rw [← Bool.not_eq_true, greater_iff, not_lt] at notGreater
        exact toEReal_injective aNumber bNumber (le_antisymm notGreater notLess)
      rw [same]
      exact ⟨cNotLess, cNotGreater⟩ }

private theorem totallyOrdered_iff_together (compares : lib.ComparesFloats) (a b c : Arf) :
    TotallyOrdered lib a b c ↔ (a = .nan ↔ b = .nan) := by
  constructor
  · intro ordered
    by_contra oneNan
    have none := not_trichotomy_of_one_nan compares oneNan
    rw [ordered.trichotomy] at none
    cases none
  · intro together
    by_cases aNan : a = .nan
    · rw [aNan, together.mp aNan]
      exact totallyOrdered_of_nan compares c
    · exact totallyOrdered_of_number compares aNan (mt together.mpr aNan) c

/-- Three values behave as in a totally ordered type exactly if the first two are
both NaN or both numbers; a set of values is totally ordered exactly if NaN is not
in it, or nothing else is. -/
theorem totallyOrdered_iff (compares : lib.ComparesFloats) :
    (∀ a b c, TotallyOrdered lib a b c ↔ (a = .nan ↔ b = .nan)) ∧
    ∀ values : Set Arf,
      (∀ a ∈ values, ∀ b ∈ values, ∀ c ∈ values, TotallyOrdered lib a b c) ↔
        .nan ∉ values ∨ values ⊆ {.nan} := by
  refine ⟨totallyOrdered_iff_together compares, fun values => ?_⟩
  constructor
  · intro ordered
    by_contra mixed
    obtain ⟨nanMem, a, aMem, aNumber⟩ :
        .nan ∈ values ∧ ∃ a, a ∈ values ∧ a ∉ ({.nan} : Set Arf) := by
      simpa only [not_or, not_not, Set.not_subset] using mixed
    have together := (totallyOrdered_iff_together compares a .nan .nan).mp
      (ordered a aMem .nan nanMem .nan nanMem)
    exact aNumber (together.mpr rfl)
  · intro alike a aMem b bMem c _
    rw [totallyOrdered_iff_together compares]
    rcases alike with noNan | onlyNan
    · exact iff_of_false (fun aNan => noNan (aNan ▸ aMem)) (fun bNan => noNan (bNan ▸ bMem))
    · exact iff_of_true (onlyNan aMem) (onlyNan bMem)

/-- A set without NaN. -/
theorem totallyOrdered_negInf_zero_one :
    TotallyOrdered (reference .lp64) .negInf (ofInt 0) (ofInt 1) := by
  have ordered := ((totallyOrdered_iff (reference_comparesFloats .lp64)).2
    {.negInf, ofInt 0, ofInt 1}).mpr (.inl (by simp [ofInt]))
  exact ordered _ (by simp) _ (by simp) _ (by simp)

/-- NaN and one are incomparable and different, and `NaN <= 1` and `1 <= NaN`. -/
theorem not_totallyOrdered_nan_one :
    ¬ TotallyOrdered (reference .lp64) .nan (ofInt 1) (ofInt 2) ∧
      operatorLess (reference .lp64) .nan (ofInt 1) = false ∧
      operatorEqual (reference .lp64) .nan (ofInt 1) = false ∧
      operatorLess (reference .lp64) (ofInt 1) .nan = false := by
  have less : operatorLess (reference .lp64) .nan (ofInt 1) = false := by decide +kernel
  have equal : operatorEqual (reference .lp64) .nan (ofInt 1) = false := by decide +kernel
  have greater : operatorLess (reference .lp64) (ofInt 1) .nan = false := by decide +kernel
  refine ⟨fun ordered => ?_, less, equal, greater⟩
  have one := ordered.trichotomy
  rw [less, equal, greater] at one
  exact absurd one (by decide)

end Arf

end Arbxx
