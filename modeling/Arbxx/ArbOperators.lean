import Arbxx.OverloadDelegation

/-!
# Constructors and comparisons of `Arb`

The comparisons of balls answer yes, no or nothing.  They are glued from the
one-sided predicates of the library, and the comparisons with integers and with
rational numbers first turn the other operand into a ball.
-/

namespace Arbxx

namespace Arb

open ThreeValued

variable {model : DataModel} (lib : CLibrary model)

/-! ### Constructors, assignments, predicates and unary minus -/

/-- `ARB_PRECISION_FAST`. -/
def arbPrecisionFast : ℤ :=
  64

/-- The element that the end of a chain of constructors or assignments writes. -/
def setCall : Call model → Arb
  | .si rhs => lib.arbSetSi rhs
  | .ui rhs => lib.arbSetUi rhs
  | .mpz _ rhs => lib.arbSetFmpz rhs

/-- `Arb::Arb(T)`. -/
def construct (x : Operand model) : Computation Arb :=
  (run lib .arbConstructor x).map (setCall lib)

/-- `Arb::operator=(T)`. -/
def assign (rhs : Operand model) : Computation Arb :=
  (run lib .arbAssign rhs).map (setCall lib)

/-- `Arb::Arb(const Arf&)`. -/
def ofArf (midpoint : Arf) : Arb :=
  lib.arbSetArf midpoint

/-- `Arb::Arb(const mpq_class&, prec)`. -/
def ofMpqPrec (rat : Mpq) (precision : ℤ) : Arb :=
  lib.arbSetFmpq rat precision

/-- `Arb::Arb(const mpq_class&)`. -/
def ofMpq (rat : Mpq) : Arb :=
  ofMpqPrec lib rat arbPrecisionFast

def isExact (x : Arb) : Bool :=
  lib.arbIsExact x

def isFinite (x : Arb) : Bool :=
  lib.arbIsFinite x

def operatorNeg (x : Arb) : Arb :=
  lib.arbNeg x

def equal (x rhs : Arb) : Bool :=
  lib.arbEqual x rhs

theorem setCall_eq (sets : lib.SetsIntegers) (call : Call model) :
    setCall lib call = exact (Arf.ofInt call.integer) := by
  cases call with
  | si rhs => exact sets.arbSetSi_eq rhs
  | ui rhs => exact sets.arbSetUi_eq rhs
  | mpz _ rhs => exact sets.arbSetFmpz_eq rhs

theorem mem_construct_iff (sets : lib.SetsIntegers) (x : Operand model) (value : Arb) :
    value ∈ construct lib x ↔
      Overload.arbConstructor.Settles x ∧ value = exact (Arf.ofInt x.integer) :=
  mem_map_run_iff lib sets (setCall lib) (fun n => exact (Arf.ofInt n)) (setCall_eq lib sets)
    .arbConstructor x value

theorem mem_assign_iff (sets : lib.SetsIntegers) (rhs : Operand model) (value : Arb) :
    value ∈ assign lib rhs ↔
      Overload.arbAssign.Settles rhs ∧ value = exact (Arf.ofInt rhs.integer) :=
  mem_map_run_iff lib sets (setCall lib) (fun n => exact (Arf.ofInt n)) (setCall_eq lib sets)
    .arbAssign rhs value

/-! ### Comparisons of two balls

`operatorLess` is `operator<(const Arb&, const Arb&)`, and so on. -/

def operatorLess (lhs rhs : Arb) : Option Bool :=
  if lib.arbLt lhs rhs then some true
  else if lib.arbGe lhs rhs then some false
  else none

def operatorGreater (lhs rhs : Arb) : Option Bool :=
  if lib.arbGt lhs rhs then some true
  else if lib.arbLe lhs rhs then some false
  else none

def operatorLessEqual (lhs rhs : Arb) : Option Bool :=
  match operatorGreater lib lhs rhs with
  | some gt => some (!gt)
  | none => none

def operatorGreaterEqual (lhs rhs : Arb) : Option Bool :=
  match operatorLess lib lhs rhs with
  | some lt => some (!lt)
  | none => none

def operatorEqual (lhs rhs : Arb) : Option Bool :=
  if lib.arbEq lhs rhs then some true
  else if lib.arbNe lhs rhs then some false
  else none

def operatorNotEqual (lhs rhs : Arb) : Option Bool :=
  match operatorEqual lib lhs rhs with
  | some eq => some (!eq)
  | none => none

theorem operatorLessEqual_eq_map (lhs rhs : Arb) :
    operatorLessEqual lib lhs rhs = (operatorGreater lib lhs rhs).map (!·) := by
  unfold operatorLessEqual
  cases operatorGreater lib lhs rhs <;> rfl

theorem operatorGreaterEqual_eq_map (lhs rhs : Arb) :
    operatorGreaterEqual lib lhs rhs = (operatorLess lib lhs rhs).map (!·) := by
  unfold operatorGreaterEqual
  cases operatorLess lib lhs rhs <;> rfl

theorem operatorNotEqual_eq_map (lhs rhs : Arb) :
    operatorNotEqual lib lhs rhs = (operatorEqual lib lhs rhs).map (!·) := by
  unfold operatorNotEqual
  cases operatorEqual lib lhs rhs <;> rfl

/-! ### Comparisons with integers

`operatorLessInteger` is `operator<(const Arb& lhs, T rhs)` and
`integerOperatorLess` is `operator<(T lhs, const Arb& rhs)`, for each of the eight
built-in types `T` and for `mpz_class`; the nine overloads differ in the type only. -/

def operatorEqualInteger (lhs : Arb) (rhs : Operand model) : Computation (Option Bool) :=
  (construct lib rhs).map fun rhs => operatorEqual lib lhs rhs

def operatorNotEqualInteger (lhs : Arb) (rhs : Operand model) : Computation (Option Bool) :=
  (construct lib rhs).map fun rhs => operatorNotEqual lib lhs rhs

def operatorLessInteger (lhs : Arb) (rhs : Operand model) : Computation (Option Bool) :=
  (construct lib rhs).map fun rhs => operatorLess lib lhs rhs

def operatorGreaterInteger (lhs : Arb) (rhs : Operand model) : Computation (Option Bool) :=
  (construct lib rhs).map fun rhs => operatorGreater lib lhs rhs

def operatorLessEqualInteger (lhs : Arb) (rhs : Operand model) : Computation (Option Bool) :=
  (construct lib rhs).map fun rhs => operatorLessEqual lib lhs rhs

def operatorGreaterEqualInteger (lhs : Arb) (rhs : Operand model) : Computation (Option Bool) :=
  (construct lib rhs).map fun rhs => operatorGreaterEqual lib lhs rhs

def integerOperatorEqual (lhs : Operand model) (rhs : Arb) : Computation (Option Bool) :=
  (construct lib lhs).map fun lhs => operatorEqual lib lhs rhs

def integerOperatorNotEqual (lhs : Operand model) (rhs : Arb) : Computation (Option Bool) :=
  (construct lib lhs).map fun lhs => operatorNotEqual lib lhs rhs

def integerOperatorLess (lhs : Operand model) (rhs : Arb) : Computation (Option Bool) :=
  (construct lib lhs).map fun lhs => operatorLess lib lhs rhs

def integerOperatorGreater (lhs : Operand model) (rhs : Arb) : Computation (Option Bool) :=
  (construct lib lhs).map fun lhs => operatorGreater lib lhs rhs

def integerOperatorLessEqual (lhs : Operand model) (rhs : Arb) : Computation (Option Bool) :=
  (construct lib lhs).map fun lhs => operatorLessEqual lib lhs rhs

def integerOperatorGreaterEqual (lhs : Operand model) (rhs : Arb) : Computation (Option Bool) :=
  (construct lib lhs).map fun lhs => operatorGreaterEqual lib lhs rhs

/-! ### Comparisons with rational numbers

`operatorLessMpq` is `operator<(const Arb& lhs, const mpq_class& rhs)` and
`mpqOperatorLess` is `operator<(const mpq_class& lhs, const Arb& rhs)`. -/

def operatorEqualMpq (lhs : Arb) (rhs : Mpq) : Option Bool :=
  operatorEqual lib lhs (ofMpq lib rhs)

def operatorNotEqualMpq (lhs : Arb) (rhs : Mpq) : Option Bool :=
  operatorNotEqual lib lhs (ofMpq lib rhs)

def operatorLessMpq (lhs : Arb) (rhs : Mpq) : Option Bool :=
  operatorLess lib lhs (ofMpq lib rhs)

def operatorGreaterMpq (lhs : Arb) (rhs : Mpq) : Option Bool :=
  operatorGreater lib lhs (ofMpq lib rhs)

def operatorLessEqualMpq (lhs : Arb) (rhs : Mpq) : Option Bool :=
  operatorLessEqual lib lhs (ofMpq lib rhs)

def operatorGreaterEqualMpq (lhs : Arb) (rhs : Mpq) : Option Bool :=
  operatorGreaterEqual lib lhs (ofMpq lib rhs)

def mpqOperatorEqual (lhs : Mpq) (rhs : Arb) : Option Bool :=
  operatorEqual lib (ofMpq lib lhs) rhs

def mpqOperatorNotEqual (lhs : Mpq) (rhs : Arb) : Option Bool :=
  operatorNotEqual lib (ofMpq lib lhs) rhs

def mpqOperatorLess (lhs : Mpq) (rhs : Arb) : Option Bool :=
  operatorLess lib (ofMpq lib lhs) rhs

def mpqOperatorGreater (lhs : Mpq) (rhs : Arb) : Option Bool :=
  operatorGreater lib (ofMpq lib lhs) rhs

def mpqOperatorLessEqual (lhs : Mpq) (rhs : Arb) : Option Bool :=
  operatorLessEqual lib (ofMpq lib lhs) rhs

def mpqOperatorGreaterEqual (lhs : Mpq) (rhs : Arb) : Option Bool :=
  operatorGreaterEqual lib (ofMpq lib lhs) rhs

/-! ### The operators by relation, between balls and with the other operand on either side -/

def operator : Comparison → Arb → Arb → Option Bool
  | .lt => operatorLess lib
  | .gt => operatorGreater lib
  | .le => operatorLessEqual lib
  | .ge => operatorGreaterEqual lib
  | .eq => operatorEqual lib
  | .ne => operatorNotEqual lib

def operatorInteger : Comparison → Arb → Operand model → Computation (Option Bool)
  | .lt => operatorLessInteger lib
  | .gt => operatorGreaterInteger lib
  | .le => operatorLessEqualInteger lib
  | .ge => operatorGreaterEqualInteger lib
  | .eq => operatorEqualInteger lib
  | .ne => operatorNotEqualInteger lib

def integerOperator : Comparison → Operand model → Arb → Computation (Option Bool)
  | .lt => integerOperatorLess lib
  | .gt => integerOperatorGreater lib
  | .le => integerOperatorLessEqual lib
  | .ge => integerOperatorGreaterEqual lib
  | .eq => integerOperatorEqual lib
  | .ne => integerOperatorNotEqual lib

def operatorMpq : Comparison → Arb → Mpq → Option Bool
  | .lt => operatorLessMpq lib
  | .gt => operatorGreaterMpq lib
  | .le => operatorLessEqualMpq lib
  | .ge => operatorGreaterEqualMpq lib
  | .eq => operatorEqualMpq lib
  | .ne => operatorNotEqualMpq lib

def mpqOperator : Comparison → Mpq → Arb → Option Bool
  | .lt => mpqOperatorLess lib
  | .gt => mpqOperatorGreater lib
  | .le => mpqOperatorLessEqual lib
  | .ge => mpqOperatorGreaterEqual lib
  | .eq => mpqOperatorEqual lib
  | .ne => mpqOperatorNotEqual lib

/-! ### Every operator computes a verdict -/

section Verdicts

variable {lib}

private theorem glued_eq_verdict (compares : lib.ComparesBalls) (comparison : Comparison)
    {x y : Arb} (xNumber : x.mid ≠ .nan) (yNumber : y.mid ≠ .nan) :
    (if lib.ballPredicate comparison x y then some true
      else if lib.ballPredicate comparison.negate x y then some false
      else none) = verdict comparison.Holds x.elements y.elements := by
  apply decide_eq_verdict
  · rw [compares.predicate_iff]
    exact ⟨fun holds => holds.2.2, fun always => ⟨xNumber, yNumber, always⟩⟩
  · rw [compares.predicate_iff]
    constructor
    · rintro ⟨_, _, always⟩ t tMem u uMem
      exact (comparison.holds_negate t u).mp (always t tMem u uMem)
    · intro never
      exact ⟨xNumber, yNumber, fun t tMem u uMem =>
        (comparison.holds_negate t u).mpr (never t tMem u uMem)⟩

private theorem negated_eq_verdict (comparison : Comparison) {x y : Arb} {answer : Option Bool}
    (xNumber : x.mid ≠ .nan) (yNumber : y.mid ≠ .nan)
    (answerEq : answer = verdict comparison.Holds x.elements y.elements) :
    answer.map (!·) = verdict comparison.negate.Holds x.elements y.elements := by
  have relation : (comparison.negate.Holds : EReal → EReal → Prop) =
      fun t u => ¬ comparison.Holds t u := by
    funext t u
    exact propext (comparison.holds_negate t u)
  rw [relation, verdict_not (x.elements_nonempty_iff.mpr xNumber)
    (y.elements_nonempty_iff.mpr yNumber), ← answerEq]

/-- Between balls around numbers every operator is the three-valued lift of its
relation to intervals. -/
theorem operator_eq_verdict (compares : lib.ComparesBalls) (comparison : Comparison) {x y : Arb}
    (xNumber : x.mid ≠ .nan) (yNumber : y.mid ≠ .nan) :
    operator lib comparison x y = verdict comparison.Holds x.elements y.elements := by
  have glued := fun other => glued_eq_verdict compares other xNumber yNumber
  cases comparison with
  | lt => exact glued .lt
  | gt => exact glued .gt
  | eq => exact glued .eq
  | le =>
      rw [operator, operatorLessEqual_eq_map]
      exact negated_eq_verdict .gt xNumber yNumber (glued .gt)
  | ge =>
      rw [operator, operatorGreaterEqual_eq_map]
      exact negated_eq_verdict .lt xNumber yNumber (glued .lt)
  | ne =>
      rw [operator, operatorNotEqual_eq_map]
      exact negated_eq_verdict .eq xNumber yNumber (glued .eq)

/-- A ball around NaN is never decided. -/
theorem operator_of_nan (compares : lib.ComparesBalls) (comparison : Comparison) {x y : Arb}
    (someNan : x.mid = .nan ∨ y.mid = .nan) :
    operator lib comparison x y = none := by
  have refused : ∀ other, lib.ballPredicate other x y = false := by
    intro other
    rw [← Bool.not_eq_true, compares.predicate_iff]
    rintro ⟨xNumber, yNumber, _⟩
    rcases someNan with xNan | yNan
    · exact xNumber xNan
    · exact yNumber yNan
  have lt : lib.arbLt x y = false := refused .lt
  have gt : lib.arbGt x y = false := refused .gt
  have le : lib.arbLe x y = false := refused .le
  have ge : lib.arbGe x y = false := refused .ge
  have eq : lib.arbEq x y = false := refused .eq
  have ne : lib.arbNe x y = false := refused .ne
  cases comparison <;>
    simp [operator, operatorLess, operatorGreater, operatorLessEqual, operatorGreaterEqual,
      operatorEqual, operatorNotEqual, lt, gt, le, ge, eq, ne]

end Verdicts

theorem operatorInteger_eq_map (comparison : Comparison) (lhs : Arb) (rhs : Operand model) :
    operatorInteger lib comparison lhs rhs =
      (construct lib rhs).map (operator lib comparison lhs) := by
  cases comparison <;> rfl

theorem integerOperator_eq_map (comparison : Comparison) (lhs : Operand model) (rhs : Arb) :
    integerOperator lib comparison lhs rhs =
      (construct lib lhs).map (operator lib comparison · rhs) := by
  cases comparison <;> rfl

theorem operatorMpq_eq (comparison : Comparison) (lhs : Arb) (rhs : Mpq) :
    operatorMpq lib comparison lhs rhs = operator lib comparison lhs (ofMpq lib rhs) := by
  cases comparison <;> rfl

theorem mpqOperator_eq (comparison : Comparison) (lhs : Mpq) (rhs : Arb) :
    mpqOperator lib comparison lhs rhs = operator lib comparison (ofMpq lib lhs) rhs := by
  cases comparison <;> rfl

/-- A comparison with an integer on the right returns exactly where the
constructor does, and compares with the exact ball. -/
theorem mem_operatorInteger_iff (sets : lib.SetsIntegers) (comparison : Comparison) (lhs : Arb)
    (rhs : Operand model) (answer : Option Bool) :
    answer ∈ operatorInteger lib comparison lhs rhs ↔
      Overload.arbConstructor.Settles rhs ∧
        answer = operator lib comparison lhs (exact (Arf.ofInt rhs.integer)) := by
  rw [operatorInteger_eq_map, Delegation.mem_map_iff]
  constructor
  · rintro ⟨ball, member, rfl⟩
    obtain ⟨settles, rfl⟩ := (mem_construct_iff lib sets rhs ball).mp member
    exact ⟨settles, rfl⟩
  · rintro ⟨settles, rfl⟩
    exact ⟨_, (mem_construct_iff lib sets rhs _).mpr ⟨settles, rfl⟩, rfl⟩

theorem mem_integerOperator_iff (sets : lib.SetsIntegers) (comparison : Comparison)
    (lhs : Operand model) (rhs : Arb) (answer : Option Bool) :
    answer ∈ integerOperator lib comparison lhs rhs ↔
      Overload.arbConstructor.Settles lhs ∧
        answer = operator lib comparison (exact (Arf.ofInt lhs.integer)) rhs := by
  rw [integerOperator_eq_map, Delegation.mem_map_iff]
  constructor
  · rintro ⟨ball, member, rfl⟩
    obtain ⟨settles, rfl⟩ := (mem_construct_iff lib sets lhs ball).mp member
    exact ⟨settles, rfl⟩
  · rintro ⟨settles, rfl⟩
    exact ⟨_, (mem_construct_iff lib sets lhs _).mpr ⟨settles, rfl⟩, rfl⟩

end Arb

end Arbxx
