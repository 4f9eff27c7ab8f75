import Arbxx.ArfOrder
import Arbxx.BallComparison

/-!
# Exact balls compare like floating point numbers

The comparisons of `Arb` and those of `Arf` are written independently.  On exact
balls they are the same relation, for every operand, operand order and integer
type.
-/

namespace Arbxx

open ThreeValued CLibrary

variable {model : DataModel} {lib : CLibrary model}

theorem Arb.operator_exact (comparesBalls : lib.ComparesBalls)
    (comparesFloats : lib.ComparesFloats) (comparison : Comparison) {a b : Arf} (aNumber : a ≠ .nan)
    (bNumber : b ≠ .nan) :
    Arb.operator lib comparison (Arb.exact a) (Arb.exact b) =
      some (Arf.operator lib comparison a b) := by
  have truth := Arf.operator_iff_holds comparesFloats comparison aNumber bNumber
  rw [Arb.operator_eq_verdict comparesBalls comparison aNumber bNumber,
    Arb.elements_exact aNumber, Arb.elements_exact bNumber,
    verdict_eq_some_iff (Set.singleton_nonempty _) (Set.singleton_nonempty _)]
  rintro t rfl u rfl
  exact truth.symm

private theorem operatorInteger_exact (comparesBalls : lib.ComparesBalls)
    (comparesFloats : lib.ComparesFloats) (sets : lib.SetsIntegers) (comparison : Comparison)
    {a : Arf} (number : a ≠ .nan) (n : Operand model) (answer : Option Bool) :
    answer ∈ Arb.operatorInteger lib comparison (Arb.exact a) n ↔
      Overload.arbConstructor.Settles n ∧
        answer = some (Arf.operator lib comparison a (Arf.ofInt n.integer)) := by
  rw [Arb.mem_operatorInteger_iff lib sets,
    Arb.operator_exact comparesBalls comparesFloats comparison number (Arf.ofInt_ne_nan _)]

/-- Wherever the comparison of a number with an integer returns, it returns the
comparison with the integer as an `Arf`. -/
theorem Arf.mem_operatorInteger_iff (comparesFloats : lib.ComparesFloats)
    (sets : lib.SetsIntegers) (comparison : Comparison) {a : Arf} (number : a ≠ .nan)
    (n : Operand model) (truth : Bool) :
    truth ∈ Arf.operatorInteger lib comparison a n ↔
      Overload.arfEqual.Settles n ∧
        truth = Arf.operator lib comparison a (Arf.ofInt n.integer) := by
  rw [Arf.mem_operatorInteger_iff_of_number comparesFloats sets comparison number,
    ← Arf.operator_iff_holds comparesFloats comparison number (Arf.ofInt_ne_nan _),
    ← Bool.eq_iff_iff]

/-- The constructors of `Arb` end wherever the comparisons of `Arf` do. -/
theorem Overload.settles_arbConstructor_of_arfEqual {n : Operand model}
    (settles : Overload.arfEqual.Settles n) : Overload.arbConstructor.Settles n := by
  rcases settles with native | direct
  · exact .inl native
  · right
    cases n with
    | long | unsignedLong | mpz => trivial
    | _ => exact direct.elim

/-- With an integer on the right, both comparisons return where their chains
settle, and agree. -/
private theorem operatorInteger_agrees (comparesBalls : lib.ComparesBalls)
    (comparesFloats : lib.ComparesFloats) (sets : lib.SetsIntegers) (comparison : Comparison)
    {a : Arf} (number : a ≠ .nan) (n : Operand model) :
    (∀ answer ∈ Arb.operatorInteger lib comparison (Arb.exact a) n,
      ∃ truth, answer = some truth ∧
        ∀ other ∈ Arf.operatorInteger lib comparison a n, other = truth) ∧
    ((∃ answer, answer ∈ Arb.operatorInteger lib comparison (Arb.exact a) n) ↔
      Overload.arbConstructor.Settles n) ∧
    ((∃ truth, some truth ∈ Arb.operatorInteger lib comparison (Arb.exact a) n ∧
        truth ∈ Arf.operatorInteger lib comparison a n) ↔
      Overload.arfEqual.Settles n) := by
  simp only [operatorInteger_exact comparesBalls comparesFloats sets comparison number,
    Arf.mem_operatorInteger_iff comparesFloats sets comparison number]
  refine ⟨?_, ?_, ?_⟩
  · intro answer member
    exact ⟨_, member.2, fun other agrees => agrees.2⟩
  · simp only [exists_and_left, exists_eq, and_true]
  · constructor
    · intro both
      obtain ⟨_, _, settles, _⟩ := both
      exact settles
    · intro settles
      exact ⟨_, ⟨Overload.settles_arbConstructor_of_arfEqual settles, rfl⟩, settles, rfl⟩

/-- On exact balls the comparisons of `Arb` are decided and are the comparisons of
`Arf`, between balls and with an integer on either side; with an integer, each of
the two returns exactly where its chain of delegations settles. -/
theorem exact_comparisons_agree (comparesBalls : lib.ComparesBalls)
    (comparesFloats : lib.ComparesFloats) (sets : lib.SetsIntegers) (handles : lib.HandlesBalls)
    (comparison : Comparison) (a : Arf) (number : a ≠ .nan) :
    (∀ b : Arf, b ≠ .nan →
      Arb.operator lib comparison (Arb.ofArf lib a) (Arb.ofArf lib b) =
        some (Arf.operator lib comparison a b)) ∧
    (∀ n : Operand model,
      (∀ answer ∈ Arb.operatorInteger lib comparison (Arb.ofArf lib a) n,
        ∃ truth, answer = some truth ∧
          ∀ other ∈ Arf.operatorInteger lib comparison a n, other = truth) ∧
      ((∃ answer, answer ∈ Arb.operatorInteger lib comparison (Arb.ofArf lib a) n) ↔
        Overload.arbConstructor.Settles n) ∧
      ((∃ truth, some truth ∈ Arb.operatorInteger lib comparison (Arb.ofArf lib a) n ∧
          truth ∈ Arf.operatorInteger lib comparison a n) ↔
        Overload.arfEqual.Settles n)) ∧
    (∀ n : Operand model,
      (∀ answer ∈ Arb.integerOperator lib comparison n (Arb.ofArf lib a),
        ∃ truth, answer = some truth ∧
          ∀ other ∈ Arf.integerOperator lib comparison n a, other = truth) ∧
      ((∃ answer, answer ∈ Arb.integerOperator lib comparison n (Arb.ofArf lib a)) ↔
        Overload.arbConstructor.Settles n) ∧
      ((∃ truth, some truth ∈ Arb.integerOperator lib comparison n (Arb.ofArf lib a) ∧
          truth ∈ Arf.integerOperator lib comparison n a) ↔
        Overload.arfEqual.Settles n)) := by
  have right := fun comparison =>
    operatorInteger_agrees comparesBalls comparesFloats sets comparison number
  simp only [Arb.ofArf, handles.setArf_eq]
  refine ⟨?_, right comparison, ?_⟩
  · intro b bNumber
    exact Arb.operator_exact comparesBalls comparesFloats comparison number bNumber
  · intro n
    rw [Arb.integerOperator_eq_swap comparesBalls, Arf.integerOperator_eq_swap]
    exact right comparison.swap n

theorem exact_comparisons_agree_posInf :
    Arb.operator (reference .lp64) .gt (Arb.ofArf (reference .lp64) .posInf)
        (Arb.ofArf (reference .lp64) (Arf.ofInt 7)) =
      some (Arf.operator (reference .lp64) .gt .posInf (Arf.ofInt 7)) :=
  (exact_comparisons_agree (reference_comparesBalls .lp64) (reference_comparesFloats .lp64)
    (reference_setsIntegers .lp64) (reference_handlesBalls .lp64) .gt .posInf (by simp)).1
    (Arf.ofInt 7) (by simp)

end Arbxx
