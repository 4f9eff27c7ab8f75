import Arbxx.GuardedPrograms
import Arbxx.RationalComparison

/-!
# Comparisons in Python

The Python wrappers replace the comparison operators of `Arb` by functions that
unwrap the optional answers of C++ and raise an error where there is none.
-/

namespace Arbxx

namespace Python

open Arb GuardedPrograms ThreeValued

variable {model : DataModel} (lib : CLibrary model)

structure PrecisionError where
  message : String
  deriving DecidableEq

/-- The error that `unwrap_logical_optional` raises. -/
def undecided : PrecisionError :=
  ⟨"precision insufficient to decide this relation or not well defined for arguments"⟩

/-- `unwrap_logical_optional`, on an `std::optional<bool>`. -/
def unwrapLogicalOptional : Option Bool → Except PrecisionError Bool
  | none => .error undecided
  | some value => .ok value

/-- The numbers that an `Arb` is compared with. -/
inductive Number (model : DataModel)
  | integer (value : Operand model)
  | mpq (value : Mpq)

noncomputable def Number.toEReal : Number model → EReal
  | .integer value => ((value.integer : ℝ) : EReal)
  | .mpq value => value.toEReal

/-- What an `Arb` on the left is compared with. -/
inductive Right (model : DataModel)
  | arb (rhs : Arb)
  | number (rhs : Number model)

/-- `relation`, for the operator of a comparison; `cppyy::lt`, `cppyy::le` and so on
call the C++ operators. -/
def relation (comparison : Comparison) (lhs : Arb) :
    Right model → Computation (Except PrecisionError Bool)
  | .arb rhs => Computation.pure (unwrapLogicalOptional (operator lib comparison lhs rhs))
  | .number (.integer rhs) =>
      (operatorInteger lib comparison lhs rhs).map unwrapLogicalOptional
  | .number (.mpq rhs) =>
      Computation.pure (unwrapLogicalOptional (operatorMpq lib comparison lhs rhs))

/-- A comparison in an expression.  A number on the left whose own method does not know
`Arb`, as that of a Python integer, makes Python turn to the reflected method of the
`Arb` on the right. -/
inductive Expression (model : DataModel)
  | direct (comparison : Comparison) (lhs : Arb) (rhs : Right model)
  | reflected (comparison : Comparison) (lhs : Number model) (rhs : Arb)

namespace Expression

def evaluate : Expression model → Computation (Except PrecisionError Bool)
  | .direct comparison lhs rhs => relation lib comparison lhs rhs
  | .reflected comparison lhs rhs => relation lib comparison.swap rhs (.number lhs)

def comparison : Expression model → Comparison
  | .direct comparison _ _ | .reflected comparison _ _ => comparison

/-- The elements that the comparison is about, on the left and on the right; a number
is its only element. -/
def left : Expression model → Set EReal
  | .direct _ lhs _ => lhs.elements
  | .reflected _ lhs _ => {lhs.toEReal}

def right : Expression model → Set EReal
  | .direct _ _ (.arb rhs) | .reflected _ _ rhs => rhs.elements
  | .direct _ _ (.number rhs) => {rhs.toEReal}

/-- The elements of both sides give a comparison both truth values, or a side is
around NaN and has no elements. -/
def Unsettled (expression : Expression model) : Prop :=
  (expression.left = ∅ ∨ expression.right = ∅) ∨
    (∃ t ∈ expression.left, ∃ u ∈ expression.right, expression.comparison.Holds t u) ∧
    ∃ t ∈ expression.left, ∃ u ∈ expression.right, ¬ expression.comparison.Holds t u

/-- A rational number needs more than 64 bits, and is as near to an end of the ball that
decides the comparison as rounding to 64 bits allows. -/
def TooClose : Expression model → Prop
  | .direct comparison lhs (.number (.mpq rhs)) =>
      ¬ rhs.FitsBits arbPrecisionFast.toNat ∧ IsNear comparison lhs rhs
  | .reflected comparison (.mpq lhs) rhs =>
      ¬ lhs.FitsBits arbPrecisionFast.toNat ∧ IsNear comparison.swap rhs lhs
  | _ => False

/-- What an answer of C++ says about a comparison. -/
structure Answers (expression : Expression model) (answer : Option Bool) : Prop where
  sound : ∀ value, answer = some value → ∀ t ∈ expression.left, ∀ u ∈ expression.right,
    (expression.comparison.Holds t u ↔ value = true)
  undecided : answer = none → expression.Unsettled ∨ expression.TooClose

end Expression

/-- The value of an expression made of comparisons with `not`, `and` and `or`, or the
error raised on the way to it. -/
def Evaluates : Condition (Expression model) → Except PrecisionError Bool → Prop
  | .test expression, outcome => outcome ∈ expression.evaluate lib
  | .negation condition, outcome => ∃ inner, Evaluates condition inner ∧ outcome = inner.map (!·)
  | .conjunction left right, outcome =>
      Evaluates left (.ok true) ∧ Evaluates right outcome ∨
        Evaluates left outcome ∧ outcome ≠ .ok true
  | .disjunction left right, outcome =>
      Evaluates left (.ok false) ∧ Evaluates right outcome ∨
        Evaluates left outcome ∧ outcome ≠ .ok false

variable {lib}

@[simp]
theorem unwrapLogicalOptional_eq_ok {answer : Option Bool} {value : Bool} :
    unwrapLogicalOptional answer = .ok value ↔ answer = some value := by
  cases answer <;> simp [unwrapLogicalOptional]

theorem unwrapLogicalOptional_eq_error {answer : Option Bool} {error : PrecisionError} :
    unwrapLogicalOptional answer = .error error ↔ answer = none ∧ error = undecided := by
  cases answer <;> simp [unwrapLogicalOptional, eq_comm]

theorem unwrapLogicalOptional_inj {answer answer' : Option Bool}
    (same : unwrapLogicalOptional answer = unwrapLogicalOptional answer') : answer = answer' := by
  cases answer' with
  | none => exact (unwrapLogicalOptional_eq_error.mp same).1
  | some value => exact unwrapLogicalOptional_eq_ok.mp same

theorem unwrapLogicalOptional_map (answer : Option Bool) :
    (unwrapLogicalOptional answer).map (!·) = unwrapLogicalOptional (answer.map (!·)) := by
  cases answer <;> rfl

theorem Expression.answers_of_documented {expression : Expression model} {answer : Option Bool}
    (documented : DocumentedAnswer expression.comparison expression.left expression.right answer) :
    expression.Answers answer := by
  refine ⟨?_, ?_⟩
  · intro value answered t tMem u uMem
    rw [answered] at documented
    cases value with
    | true =>
        exact iff_of_true ((documented.true_iff ⟨t, tMem⟩ ⟨u, uMem⟩).mp rfl t tMem u uMem) rfl
    | false =>
        exact iff_of_false ((documented.false_iff ⟨t, tMem⟩ ⟨u, uMem⟩).mp rfl t tMem u uMem)
          Bool.false_ne_true
  · intro unanswered
    by_cases someEmpty : expression.left = ∅ ∨ expression.right = ∅
    · exact .inl (.inl someEmpty)
    · obtain ⟨leftSome, rightSome⟩ := not_or.mp someEmpty
      exact .inl (.inr ((documented.none_iff (Set.nonempty_iff_ne_empty.mpr leftSome)
        (Set.nonempty_iff_ne_empty.mpr rightSome)).mp unanswered))

/-- A comparison with a rational number is undecided for the same reasons as one with
an integer, or because the number is too close. -/
theorem Expression.answers_mpq (compares : lib.ComparesBalls) (rounds : lib.RoundsRationals)
    (comparison : Comparison) (x : Arb) (q : Mpq) :
    (direct comparison x (.number (.mpq q)) : Expression model).Answers
      (operatorMpq lib comparison x q) := by
  refine ⟨?_, ?_⟩
  · rintro value answered t tMem u rfl
    exact holds_iff_of_operatorMpq_eq_some compares rounds answered t tMem
  · intro unanswered
    by_cases isNan : x.mid = .nan
    · exact .inl (.inl (.inl (x.elements_eq_empty_iff.mpr isNan)))
    · by_cases close : (direct comparison x (.number (.mpq q)) : Expression model).TooClose
      · exact .inr close
      · have decisive := operatorMpq_decisive_of_clear compares rounds comparison isNan
          (or_iff_not_imp_left.mpr (not_and.mp close))
        rw [unanswered] at decisive
        obtain ⟨holds, fails⟩ := exists_both_of_decisive_none decisive
        exact .inl (.inr ⟨holds, fails⟩)

/-- A reflected comparison has the answer of the swapped one. -/
theorem Expression.answers_reflected {comparison : Comparison} {lhs : Number model} {rhs : Arb}
    {answer : Option Bool}
    (answers : (direct comparison.swap rhs (.number lhs) : Expression model).Answers answer) :
    (reflected comparison lhs rhs).Answers answer := by
  have swapped (t : EReal) : comparison.Holds lhs.toEReal t ↔ comparison.swap.Holds t lhs.toEReal :=
    (comparison.holds_swap t lhs.toEReal).symm
  refine ⟨?_, ?_⟩
  · rintro value answered _ rfl u uMem
    exact (swapped u).trans (answers.sound value answered u uMem _ rfl)
  · intro unanswered
    rcases answers.undecided unanswered with (empty | ⟨holds, fails⟩) | close
    · exact .inl (.inl empty.symm)
    · obtain ⟨t, tMem, _, rfl, holds⟩ := holds
      obtain ⟨t', tMem', _, rfl, fails⟩ := fails
      exact .inl (.inr ⟨⟨_, rfl, t, tMem, (swapped t).mpr holds⟩, _, rfl, t', tMem',
        (swapped t').not.mpr fails⟩)
    · cases lhs with
      | integer => exact close.elim
      | mpq => exact .inr close

/-- The answers of C++ are about the two sides in the order in which they are written,
also where the comparison is reflected. -/
theorem Expression.exists_answers (compares : lib.ComparesBalls) (sets : lib.SetsIntegers)
    (rounds : lib.RoundsRationals) {expression : Expression model}
    {outcome : Except PrecisionError Bool} (member : outcome ∈ expression.evaluate lib) :
    ∃ answer, outcome = unwrapLogicalOptional answer ∧ expression.Answers answer := by
  have relates (comparison : Comparison) (lhs : Arb) (rhs : Right model)
      (member : outcome ∈ relation lib comparison lhs rhs) :
      ∃ answer, outcome = unwrapLogicalOptional answer ∧
        (direct comparison lhs rhs).Answers answer := by
    cases rhs with
    | arb rhs =>
        exact ⟨_, Computation.eq_of_pure_mem member,
          answers_of_documented (operator_documentedAnswer compares comparison lhs rhs)⟩
    | number rhs =>
        cases rhs with
        | integer rhs =>
            obtain ⟨answer, answers, rfl⟩ := (Delegation.mem_map_iff _ _ _).mp member
            obtain ⟨_, rfl⟩ :=
              (mem_operatorInteger_iff lib sets comparison lhs rhs answer).mp answers
            have documented := operator_documentedAnswer compares comparison lhs
              (exact (Arf.ofInt rhs.integer))
            rw [elements_ofInt] at documented
            exact ⟨_, rfl, answers_of_documented documented⟩
        | mpq rhs =>
            exact ⟨_, Computation.eq_of_pure_mem member,
              answers_mpq compares rounds comparison lhs rhs⟩
  cases expression with
  | direct comparison lhs rhs => exact relates comparison lhs rhs member
  | reflected comparison lhs rhs =>
      obtain ⟨answer, isOutcome, answers⟩ := relates comparison.swap rhs (.number lhs) member
      exact ⟨answer, isOutcome, answers_reflected answers⟩

/-- An integer operand that its overload of the constructor settles. -/
def Expression.Returns : Expression model → Prop
  | .direct _ _ (.number (.integer n)) | .reflected _ (.integer n) _ =>
      Overload.arbConstructor.Settles n
  | _ => True

theorem Expression.exists_mem_evaluate (sets : lib.SetsIntegers) {expression : Expression model}
    (returns : expression.Returns) : ∃ outcome, outcome ∈ expression.evaluate lib := by
  have integer (comparison : Comparison) (lhs : Arb) (n : Operand model)
      (settles : Overload.arbConstructor.Settles n) :
      ∃ outcome, outcome ∈ (operatorInteger lib comparison lhs n).map unwrapLogicalOptional :=
    ⟨_, Computation.mem_map _ ((mem_operatorInteger_iff lib sets comparison lhs n _).mpr
      ⟨settles, rfl⟩)⟩
  cases expression with
  | direct comparison lhs rhs =>
      cases rhs with
      | arb rhs => exact ⟨_, Computation.ret_mem _⟩
      | number rhs =>
          cases rhs with
          | integer rhs => exact integer comparison lhs rhs returns
          | mpq rhs => exact ⟨_, Computation.ret_mem _⟩
  | reflected comparison lhs rhs =>
      cases lhs with
      | integer lhs => exact integer comparison.swap rhs lhs returns
      | mpq lhs => exact ⟨_, Computation.ret_mem _⟩

/-- Raising an error is evaluating to no value. -/
theorem evaluates_iff (compares : lib.ComparesBalls) (sets : lib.SetsIntegers)
    (rounds : lib.RoundsRationals) (condition : Condition (Expression model))
    (outcome : Except PrecisionError Bool) :
    Evaluates lib condition outcome ↔
      ∃ value, outcome = unwrapLogicalOptional value ∧ condition.Evaluates
        (fun expression answer =>
          unwrapLogicalOptional answer ∈ expression.evaluate lib) value := by
  induction condition generalizing outcome with
  | test expression =>
      constructor
      · intro member
        obtain ⟨answer, rfl, _⟩ := expression.exists_answers compares sets rounds member
        exact ⟨answer, rfl, member⟩
      · rintro ⟨answer, rfl, member⟩
        exact member
  | negation condition induction =>
      constructor
      · rintro ⟨inner, evaluates, rfl⟩
        obtain ⟨value, rfl, valued⟩ := (induction inner).mp evaluates
        exact ⟨_, unwrapLogicalOptional_map value, value, valued, rfl⟩
      · rintro ⟨_, rfl, value, valued, rfl⟩
        exact ⟨_, (induction _).mpr ⟨value, rfl, valued⟩, (unwrapLogicalOptional_map value).symm⟩
  | conjunction left right leftInduction rightInduction =>
      constructor
      · rintro (⟨yes, rest⟩ | ⟨settled, no⟩)
        · obtain ⟨first, firstEq, valued⟩ := (leftInduction _).mp yes
          obtain rfl := unwrapLogicalOptional_eq_ok.mp firstEq.symm
          obtain ⟨value, rfl, restValued⟩ := (rightInduction outcome).mp rest
          exact ⟨value, rfl, .inl ⟨valued, restValued⟩⟩
        · obtain ⟨value, rfl, valued⟩ := (leftInduction outcome).mp settled
          exact ⟨value, rfl, .inr ⟨valued, fun yes => no (unwrapLogicalOptional_eq_ok.mpr yes)⟩⟩
      · rintro ⟨value, rfl, ⟨yes, rest⟩ | ⟨settled, no⟩⟩
        · exact .inl ⟨(leftInduction _).mpr ⟨_, rfl, yes⟩,
            (rightInduction _).mpr ⟨value, rfl, rest⟩⟩
        · exact .inr ⟨(leftInduction _).mpr ⟨value, rfl, settled⟩,
            fun yes => no (unwrapLogicalOptional_eq_ok.mp yes)⟩
  | disjunction left right leftInduction rightInduction =>
      constructor
      · rintro (⟨no, rest⟩ | ⟨settled, yes⟩)
        · obtain ⟨first, firstEq, valued⟩ := (leftInduction _).mp no
          obtain rfl := unwrapLogicalOptional_eq_ok.mp firstEq.symm
          obtain ⟨value, rfl, restValued⟩ := (rightInduction outcome).mp rest
          exact ⟨value, rfl, .inl ⟨valued, restValued⟩⟩
        · obtain ⟨value, rfl, valued⟩ := (leftInduction outcome).mp settled
          exact ⟨value, rfl, .inr ⟨valued, fun no => yes (unwrapLogicalOptional_eq_ok.mpr no)⟩⟩
      · rintro ⟨value, rfl, ⟨no, rest⟩ | ⟨settled, yes⟩⟩
        · exact .inl ⟨(leftInduction _).mpr ⟨_, rfl, no⟩, (rightInduction _).mpr ⟨value, rfl, rest⟩⟩
        · exact .inr ⟨(leftInduction _).mpr ⟨value, rfl, settled⟩,
            fun no => yes (unwrapLogicalOptional_eq_ok.mp no)⟩

/-- An expression of comparisons returns a value only if that is its truth value
whichever elements are chosen for each of its comparisons, and raises a
`PrecisionError` only if one of the comparisons is unsettled, or is with a rational
number that is too close.  It does one of both if every integer in it can be made an
`Arb`. -/
theorem python_conditions (compares : lib.ComparesBalls) (sets : lib.SetsIntegers)
    (rounds : lib.RoundsRationals) (condition : Condition (Expression model)) :
    (∀ outcome, Evaluates lib condition outcome →
      (∀ value, outcome = .ok value → ∀ choice : Expression model → EReal × EReal,
        (∀ expression ∈ condition.tests, (choice expression).1 ∈ expression.left ∧
          (choice expression).2 ∈ expression.right) →
        (condition.Truth (fun expression => expression.comparison.Holds (choice expression).1
          (choice expression).2) ↔ value = true)) ∧
      ∀ error, outcome = .error error → error = undecided ∧
        ∃ expression ∈ condition.tests, expression.Unsettled ∨ expression.TooClose) ∧
    ((∀ expression ∈ condition.tests, expression.Returns) →
      ∃ outcome, Evaluates lib condition outcome) := by
  have answered {expression : Expression model} {answer : Option Bool}
      (member : unwrapLogicalOptional answer ∈ expression.evaluate lib) :
      expression.Answers answer := by
    obtain ⟨answer', same, answers⟩ := expression.exists_answers compares sets rounds member
    rwa [unwrapLogicalOptional_inj same]
  have evaluates_iff := evaluates_iff compares sets rounds condition
  constructor
  · intro outcome evaluates
    obtain ⟨result, rfl, valued⟩ := (evaluates_iff outcome).mp evaluates
    constructor
    · intro value isValue choice chosen
      obtain rfl := unwrapLogicalOptional_eq_ok.mp isValue
      apply valued.truth_iff
      intro expression occurs answer member
      exact (answered member).sound answer rfl _ (chosen expression occurs).1 _
        (chosen expression occurs).2
    · intro error isError
      obtain ⟨rfl, rfl⟩ := unwrapLogicalOptional_eq_error.mp isError
      refine ⟨rfl, ?_⟩
      obtain ⟨expression, occurs, member⟩ := valued.exists_undecided
      exact ⟨expression, occurs, (answered member).undecided rfl⟩
  · intro returns
    have answers (expression : Expression model) (occurs : expression ∈ condition.tests) :
        ∃ answer, unwrapLogicalOptional answer ∈ expression.evaluate lib := by
      obtain ⟨outcome, member⟩ := expression.exists_mem_evaluate sets (returns expression occurs)
      obtain ⟨answer, rfl, _⟩ := expression.exists_answers compares sets rounds member
      exact ⟨answer, member⟩
    obtain ⟨value, valued⟩ := condition.exists_evaluates answers
    exact ⟨_, (evaluates_iff _).mpr ⟨value, rfl, valued⟩⟩

/-- For `a = Arb(1/3, 64)`, the expression `a == 1 and a == a` is false, and
`a == 1 or a == a` raises an error because of `a == a`. -/
theorem python_conditions_third :
    let a := ofMpqPrec (CLibrary.reference .lp64) ⟨1, 3, by decide⟩ 64
    let first : Expression .lp64 := .direct .eq a (.number (.integer (.mpz 1)))
    let second : Expression .lp64 := .direct .eq a (.arb a)
    Evaluates (CLibrary.reference .lp64) (.conjunction (.test first) (.test second)) (.ok false) ∧
      Evaluates (CLibrary.reference .lp64) (.disjunction (.test first) (.test second))
        (.error undecided) ∧
      ∃ expression ∈ [first, second], expression.Unsettled ∨ expression.TooClose := by
  intro a first second
  have no : Evaluates (CLibrary.reference .lp64) (.test first) (.ok false) :=
    Computation.mem_map unwrapLogicalOptional ((mem_operatorInteger_iff _
      (CLibrary.reference_setsIntegers .lp64) .eq a (.mpz 1) (some false)).mpr
        ⟨.inl rfl, by decide +kernel⟩)
  have unanswered : operator (CLibrary.reference .lp64) .eq a a = none := by decide +kernel
  have raises : Evaluates (CLibrary.reference .lp64) (.test second) (.error undecided) := by
    change _ ∈ Computation.pure (unwrapLogicalOptional _)
    rw [unanswered]
    exact Computation.ret_mem _
  have either : Evaluates (CLibrary.reference .lp64) (.disjunction (.test first) (.test second))
      (.error undecided) := .inl ⟨no, raises⟩
  refine ⟨.inr ⟨no, by simp⟩, either, ?_⟩
  exact (((python_conditions (CLibrary.reference_comparesBalls .lp64)
    (CLibrary.reference_setsIntegers .lp64) CLibrary.reference_roundsRationals
    (.disjunction (.test first) (.test second))).1 _ either).2 _ rfl).2

end Python

end Arbxx
