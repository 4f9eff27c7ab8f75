import Arbxx.OverloadDelegation

/-!
# Constructors and comparisons of `Arf`

`operator<` and `operator==` between two `Arf`, and `operator<`, `operator>` and
`operator==` between an `Arf` and an integer, are written in the source; the
other operators are the ones `boost::totally_ordered` derives.  The comparisons
with integers follow the delegations of the previous file.
-/

namespace Arbxx

namespace Arf

open ThreeValued TwosComplement

variable {model : DataModel} (lib : CLibrary model)

/-! ### Constructors and assignments -/

/-- `Arf::Arf(const mpz_class& mantissa, long exponent)`. -/
def ofMpz (mantissa : ℤ) (exponent : model.Value .long) : Arf :=
  lib.arfSetFmpz2exp mantissa (model.staticCast model.slong exponent.val).val

/-- `Arf::Arf(const mpz_class& mantissa)`, where the exponent defaults to zero. -/
def ofMpzClass (mantissa : ℤ) : Arf :=
  ofMpz lib mantissa (model.staticCast .long 0)

/-- The element that the end of a chain of constructors or assignments writes. -/
def setCall : Call model → Arf
  | .si value => lib.arfSetSi value
  | .ui value => lib.arfSetUi value
  | .mpz .arfConstructor mantissa => ofMpzClass lib mantissa
  | .mpz _ rhs => lib.arfSetFmpz rhs

/-- `Arf::Arf(T)`. -/
def construct (value : Operand model) : Computation Arf :=
  (run lib .arfConstructor value).map (setCall lib)

/-- `Arf::operator=(T)`. -/
def assign (rhs : Operand model) : Computation Arf :=
  (run lib .arfAssign rhs).map (setCall lib)

theorem ofMpzClass_eq (sets : lib.SetsIntegers) (z : ℤ) : ofMpzClass lib z = ofInt z := by
  have zero : (model.staticCast .long 0).val = 0 :=
    Format.cast_val_of_inRange (Format.inRange_zero _)
  rw [ofMpzClass, ofMpz, DataModel.staticCast_slong_val, zero, sets.arfSetFmpz2exp_eq]
  rfl

theorem setCall_eq (sets : lib.SetsIntegers) (call : Call model) :
    setCall lib call = ofInt call.integer := by
  cases call with
  | si value => exact sets.arfSetSi_eq value
  | ui value => exact sets.arfSetUi_eq value
  | mpz overload value =>
      cases overload with
      | arfConstructor => exact ofMpzClass_eq lib sets value
      | _ => exact sets.arfSetFmpz_eq value

theorem mem_construct_iff (sets : lib.SetsIntegers) (x : Operand model) (value : Arf) :
    value ∈ construct lib x ↔
      Overload.arfConstructor.Settles x ∧ value = ofInt x.integer :=
  mem_map_run_iff lib sets (setCall lib) ofInt (setCall_eq lib sets) .arfConstructor x value

theorem mem_assign_iff (sets : lib.SetsIntegers) (rhs : Operand model) (value : Arf) :
    value ∈ assign lib rhs ↔ Overload.arfAssign.Settles rhs ∧ value = ofInt rhs.integer :=
  mem_map_run_iff lib sets (setCall lib) ofInt (setCall_eq lib sets) .arfAssign rhs value

/-! ### Comparisons

`operatorLess` is `operator<(const Arf&, const Arf&)`, `operatorLessInteger` is
`operator<(const Arf&, T)` and `integerOperatorLess` is `operator<(T, const Arf&)`,
and so on.  Between two `Arf`, `boost::totally_ordered` derives `>`, `<=` and `>=`
from `<`, and `!=` from `==`; with an integer it derives `<=` from `>`, `>=` from
`<`, and the operators with the integer on the left from those with the integer on
the right. -/

def operatorLess (lhs rhs : Arf) : Bool :=
  decide (lib.arfCmp lhs rhs < 0)

def operatorEqual (lhs rhs : Arf) : Bool :=
  lib.arfEqual lhs rhs

def operatorGreater (x y : Arf) : Bool :=
  operatorLess lib y x

def operatorLessEqual (x y : Arf) : Bool :=
  !operatorLess lib y x

def operatorGreaterEqual (x y : Arf) : Bool :=
  !operatorLess lib x y

def operatorNotEqual (x y : Arf) : Bool :=
  !operatorEqual lib x y

/-- The end of a chain of `operator<(const Arf&, T)`. -/
def lessCall (lhs : Arf) : Call model → Bool
  | .si rhs => decide (lib.arfCmpSi lhs rhs < 0)
  | .ui rhs => decide (lib.arfCmpUi lhs rhs < 0)
  | .mpz _ rhs => operatorLess lib lhs (ofMpzClass lib rhs)

def greaterCall (lhs : Arf) : Call model → Bool
  | .si rhs => decide (lib.arfCmpSi lhs rhs > 0)
  | .ui rhs => decide (lib.arfCmpUi lhs rhs > 0)
  | .mpz _ rhs => operatorGreater lib lhs (ofMpzClass lib rhs)

def equalCall (lhs : Arf) : Call model → Bool
  | .si rhs => lib.arfEqualSi lhs rhs
  | .ui rhs => decide (lib.arfCmpUi lhs rhs = 0)
  | .mpz _ rhs => operatorEqual lib lhs (ofMpzClass lib rhs)

def operatorLessInteger (lhs : Arf) (rhs : Operand model) : Computation Bool :=
  (run lib .arfLess rhs).map (lessCall lib lhs)

def operatorGreaterInteger (lhs : Arf) (rhs : Operand model) : Computation Bool :=
  (run lib .arfGreater rhs).map (greaterCall lib lhs)

def operatorEqualInteger (lhs : Arf) (rhs : Operand model) : Computation Bool :=
  (run lib .arfEqual rhs).map (equalCall lib lhs)

def operatorLessEqualInteger (x : Arf) (y : Operand model) : Computation Bool :=
  (operatorGreaterInteger lib x y).map (!·)

def operatorGreaterEqualInteger (x : Arf) (y : Operand model) : Computation Bool :=
  (operatorLessInteger lib x y).map (!·)

def operatorNotEqualInteger (x : Arf) (y : Operand model) : Computation Bool :=
  (operatorEqualInteger lib x y).map (!·)

def integerOperatorLess (x : Operand model) (y : Arf) : Computation Bool :=
  operatorGreaterInteger lib y x

def integerOperatorGreater (x : Operand model) (y : Arf) : Computation Bool :=
  operatorLessInteger lib y x

def integerOperatorLessEqual (x : Operand model) (y : Arf) : Computation Bool :=
  (operatorLessInteger lib y x).map (!·)

def integerOperatorGreaterEqual (x : Operand model) (y : Arf) : Computation Bool :=
  (operatorGreaterInteger lib y x).map (!·)

def integerOperatorEqual (x : Operand model) (y : Arf) : Computation Bool :=
  operatorEqualInteger lib y x

def integerOperatorNotEqual (x : Operand model) (y : Arf) : Computation Bool :=
  (operatorEqualInteger lib y x).map (!·)

def operator : Comparison → Arf → Arf → Bool
  | .lt => operatorLess lib
  | .gt => operatorGreater lib
  | .le => operatorLessEqual lib
  | .ge => operatorGreaterEqual lib
  | .eq => operatorEqual lib
  | .ne => operatorNotEqual lib

def operatorInteger : Comparison → Arf → Operand model → Computation Bool
  | .lt => operatorLessInteger lib
  | .gt => operatorGreaterInteger lib
  | .le => operatorLessEqualInteger lib
  | .ge => operatorGreaterEqualInteger lib
  | .eq => operatorEqualInteger lib
  | .ne => operatorNotEqualInteger lib

def integerOperator : Comparison → Operand model → Arf → Computation Bool
  | .lt => integerOperatorLess lib
  | .gt => integerOperatorGreater lib
  | .le => integerOperatorLessEqual lib
  | .ge => integerOperatorGreaterEqual lib
  | .eq => integerOperatorEqual lib
  | .ne => integerOperatorNotEqual lib

/-! ### What the comparisons return -/

/-- The written comparison behind an operator. -/
def comparisonOverload : Comparison → Overload
  | .lt | .ge => .arfLess
  | .gt | .le => .arfGreater
  | .eq | .ne => .arfEqual

/-- The answer of an operator at the end of its chain. -/
def compareCall (comparison : Comparison) (lhs : Arf) (call : Call model) : Bool :=
  match comparison with
  | .lt => lessCall lib lhs call
  | .gt => greaterCall lib lhs call
  | .le => !greaterCall lib lhs call
  | .ge => !lessCall lib lhs call
  | .eq => equalCall lib lhs call
  | .ne => !equalCall lib lhs call

theorem operatorInteger_eq_map (comparison : Comparison) (lhs : Arf) (rhs : Operand model) :
    operatorInteger lib comparison lhs rhs =
      (run lib (comparisonOverload comparison) rhs).map (compareCall lib comparison lhs) := by
  cases comparison with
  | lt | gt | eq => rfl
  | le => exact (Computation.map_comp (greaterCall lib lhs) (!·) (run lib .arfGreater rhs)).symm
  | ge => exact (Computation.map_comp (lessCall lib lhs) (!·) (run lib .arfLess rhs)).symm
  | ne => exact (Computation.map_comp (equalCall lib lhs) (!·) (run lib .arfEqual rhs)).symm

/-- The overloads for `mpz_class` compare with the `Arf` made from the integer. -/
theorem compareCall_mpz (comparison : Comparison) (lhs : Arf) (overload : Overload) (rhs : ℤ) :
    compareCall lib comparison lhs (.mpz overload rhs) =
      operator lib comparison lhs (ofMpzClass lib rhs) := by
  cases comparison <;> rfl

theorem integerOperator_eq_swap (comparison : Comparison) (lhs : Operand model) (rhs : Arf) :
    integerOperator lib comparison lhs rhs = operatorInteger lib comparison.swap rhs lhs := by
  cases comparison <;> rfl

theorem settles_comparisonOverload_iff (comparison : Comparison) (operand : Operand model) :
    (comparisonOverload comparison).Settles operand ↔ Overload.arfEqual.Settles operand := by
  cases comparison <;> exact Iff.rfl

private theorem operators_iff_holds {t u : EReal} {less greater equal : Bool}
    (less_iff : less = true ↔ t < u) (greater_iff : greater = true ↔ u < t)
    (equal_iff : equal = true ↔ t = u) (comparison : Comparison) :
    (match comparison with
      | .lt => less
      | .gt => greater
      | .le => !greater
      | .ge => !less
      | .eq => equal
      | .ne => !equal) = true ↔ comparison.Holds t u := by
  cases comparison with
  | lt => exact less_iff
  | gt => exact greater_iff
  | eq => exact equal_iff
  | le => rw [Bool.not_eq_true', ← Bool.not_eq_true, greater_iff, Comparison.Holds, not_lt]
  | ge => rw [Bool.not_eq_true', ← Bool.not_eq_true, less_iff, Comparison.Holds, not_lt]
  | ne => rw [Bool.not_eq_true', ← Bool.not_eq_true, equal_iff, Comparison.Holds]

variable {lib}

/-- Between numbers every operator decides its relation. -/
theorem operator_iff_holds (compares : lib.ComparesFloats) (comparison : Comparison) {a b : Arf}
    (aNumber : a ≠ .nan) (bNumber : b ≠ .nan) :
    operator lib comparison a b = true ↔ comparison.Holds a.toEReal b.toEReal := by
  have forward := compares.cmp_number a b aNumber bNumber
  have backward := compares.cmp_number b a bNumber aNumber
  have equal_iff : lib.arfEqual a b = true ↔ a.toEReal = b.toEReal := by
    rw [compares.equal_iff]
    exact ⟨congrArg _, toEReal_injective aNumber bNumber⟩
  have shape := operators_iff_holds (decide_eq_true_iff.trans forward.1)
    (decide_eq_true_iff.trans backward.1) equal_iff comparison
  cases comparison <;> exact shape

theorem compareCall_iff_holds (compares : lib.ComparesFloats) (sets : lib.SetsIntegers)
    (comparison : Comparison) {a : Arf} (number : a ≠ .nan) (call : Call model) :
    compareCall lib comparison a call = true ↔
      comparison.Holds a.toEReal (ofInt call.integer).toEReal := by
  cases call with
  | si value =>
      obtain ⟨less, _, greater⟩ := compares.cmpSi_number a value number
      have equal : lib.arfEqualSi a value = true ↔ a.toEReal = (ofInt value.val).toEReal := by
        rw [compares.equalSi_iff]
        exact ⟨congrArg _, toEReal_injective number (ofInt_ne_nan value.val)⟩
      exact operators_iff_holds (decide_eq_true_iff.trans less) (decide_eq_true_iff.trans greater)
        equal comparison
  | ui value =>
      obtain ⟨less, equal, greater⟩ := compares.cmpUi_number a value number
      exact operators_iff_holds (decide_eq_true_iff.trans less) (decide_eq_true_iff.trans greater)
        (decide_eq_true_iff.trans equal) comparison
  | mpz overload value =>
      rw [compareCall_mpz, ofMpzClass_eq lib sets]
      exact operator_iff_holds compares comparison number (ofInt_ne_nan value)

/-- The answer of an operator when NaN is involved, depending on what equality
answers. -/
def unorderedAnswer (equal : Bool) : Comparison → Bool
  | .lt | .gt => false
  | .le | .ge => true
  | .eq => equal
  | .ne => !equal

theorem operator_of_nan (compares : lib.ComparesFloats) (comparison : Comparison) {a b : Arf}
    (someNan : a = .nan ∨ b = .nan) :
    operator lib comparison a b = unorderedAnswer (decide (a = b)) comparison := by
  have forward := compares.cmp_nan a b someNan
  have backward := compares.cmp_nan b a someNan.symm
  have equal : operatorEqual lib a b = decide (a = b) := by
    rw [Bool.eq_iff_iff, decide_eq_true_iff]
    exact compares.equal_iff a b
  cases comparison <;>
    simp [operator, operatorLess, operatorGreater, operatorLessEqual, operatorGreaterEqual,
      operatorNotEqual, unorderedAnswer, forward, backward, equal]

/-- NaN compares equal to an integer exactly where the chain ends in
`arf_cmp_ui`. -/
theorem compareCall_nan (compares : lib.ComparesFloats) (sets : lib.SetsIntegers)
    (comparison : Comparison) (call : Call model) :
    compareCall lib comparison .nan call =
      unorderedAnswer (decide (call.kind = .ui)) comparison := by
  cases call with
  | si value =>
      have unequal : lib.arfEqualSi .nan value = false := by
        rw [← Bool.not_eq_true, compares.equalSi_iff]
        exact (ofInt_ne_nan value.val).symm
      cases comparison <;>
        simp [compareCall, lessCall, greaterCall, equalCall, unorderedAnswer, Call.kind, unequal,
          compares.cmpSi_nan]
  | ui value =>
      cases comparison <;>
        simp [compareCall, lessCall, greaterCall, equalCall, unorderedAnswer, Call.kind,
          compares.cmpUi_nan]
  | mpz overload value =>
      have unequal : Arf.nan ≠ ofInt value := (ofInt_ne_nan value).symm
      rw [compareCall_mpz, ofMpzClass_eq lib sets, operator_of_nan compares comparison (.inl rfl)]
      simp [unequal, Call.kind]

/-- A comparison of a number with an integer returns exactly where its chain
settles, and decides its relation. -/
theorem mem_operatorInteger_iff_of_number (compares : lib.ComparesFloats)
    (sets : lib.SetsIntegers) (comparison : Comparison) {a : Arf} (number : a ≠ .nan)
    (rhs : Operand model) (value : Bool) :
    value ∈ operatorInteger lib comparison a rhs ↔
      Overload.arfEqual.Settles rhs ∧
        (value = true ↔ comparison.Holds a.toEReal (ofInt rhs.integer).toEReal) := by
  rw [operatorInteger_eq_map, Delegation.mem_map_iff, ← settles_comparisonOverload_iff comparison]
  constructor
  · rintro ⟨call, member, rfl⟩
    rw [compareCall_iff_holds compares sets comparison number,
      (delivers_of_mem_run lib sets member).1]
    exact ⟨(exists_mem_run_iff lib _ _).mp ⟨call, member⟩, Iff.rfl⟩
  · rintro ⟨settles, value_iff⟩
    obtain ⟨call, member⟩ := (exists_mem_run_iff lib _ _).mpr settles
    refine ⟨call, member, ?_⟩
    rw [Bool.eq_iff_iff, value_iff, compareCall_iff_holds compares sets comparison number,
      (delivers_of_mem_run lib sets member).1]

theorem mem_operatorInteger_nan_iff (compares : lib.ComparesFloats) (sets : lib.SetsIntegers)
    (comparison : Comparison) (rhs : Operand model) (value : Bool) :
    value ∈ operatorInteger lib comparison .nan rhs ↔
      Overload.arfEqual.Settles rhs ∧
        value = unorderedAnswer (decide (rhs.kind = .ui)) comparison := by
  rw [operatorInteger_eq_map, Delegation.mem_map_iff, ← settles_comparisonOverload_iff comparison]
  constructor
  · rintro ⟨call, member, rfl⟩
    rw [compareCall_nan compares sets, (delivers_of_mem_run lib sets member).2]
    exact ⟨(exists_mem_run_iff lib _ _).mp ⟨call, member⟩, rfl⟩
  · rintro ⟨settles, rfl⟩
    obtain ⟨call, member⟩ := (exists_mem_run_iff lib _ _).mpr settles
    refine ⟨call, member, ?_⟩
    rw [compareCall_nan compares sets, (delivers_of_mem_run lib sets member).2]

end Arf

end Arbxx
