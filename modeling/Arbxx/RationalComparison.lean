import Arbxx.RationalRounding

/-!
# How decisive comparisons with rational numbers are

The comparisons with an `mpq_class` replace the number by a ball of 64 bits
around it, although the constant behind the 64 is documented to affect
performance only.  Nothing is lost for numbers that fit 64 bits.  For any other
number an answer is lost exactly when an end of the other ball lies between the
number and the ends of the number truncated to 64 bits.
-/

namespace Arbxx

namespace Arb

open ThreeValued CLibrary

variable {model : DataModel} {lib : CLibrary model}

/-- An end of a ball that decides the relation lies between the rational number
and a unit in the last place around its first 64 bits. -/
def Obscures (comparison : Comparison) (x : Arb) (q : Mpq) : Prop :=
  let first := q.truncated arbPrecisionFast.toNat
  let unit := q.slack arbPrecisionFast.toNat
  comparison.Obscured x.lower x.upper (first - unit).toEReal q.toEReal (first + unit).toEReal

/-- An end of a ball that decides the relation is as near to the rational number as
rounding to 64 bits allows. -/
def IsNear (comparison : Comparison) (x : Arb) (q : Mpq) : Prop :=
  comparison.Obscured x.lower x.upper
    (((q.value - q.allowance arbPrecisionFast : ℚ) : ℝ) : EReal) q.toEReal
    (((q.value + q.allowance arbPrecisionFast : ℚ) : ℝ) : EReal)

/-- The comparisons of a ball with a rational number, in both operand orders, give
every answer that is true of the exact number. -/
structure ComparesDecisively (lib : CLibrary model) (comparison : Comparison) (x : Arb)
    (q : Mpq) : Prop where
  right : Decisive comparison.Holds x.elements {q.toEReal} (operatorMpq lib comparison x q)
  left : Decisive comparison.Holds {q.toEReal} x.elements (mpqOperator lib comparison q x)

/-- The comparisons with `mpq_class(n)` answer like those with `mpz_class(n)`. -/
structure ComparesLikeInteger (lib : CLibrary model) (comparison : Comparison) (x : Arb)
    (n : ℤ) : Prop where
  right : operatorMpq lib comparison x (.ofInt n) ∈
    operatorInteger lib comparison x (.mpz n : Operand model)
  left : mpqOperator lib comparison (.ofInt n) x ∈
    integerOperator lib comparison (.mpz n : Operand model) x

private theorem ofMpq_spec (rounds : lib.RoundsRationals) (q : Mpq) :
    (ofMpq lib q).mid ≠ .nan ∧ q.toEReal ∈ Set.Icc (ofMpq lib q).lower (ofMpq lib q).upper := by
  have member : q.toEReal ∈ (ofMpq lib q).elements :=
    toEReal_mem_ofMpqPrec rounds q (by decide)
  exact ⟨(ofMpq lib q).elements_nonempty_iff.mp ⟨_, member⟩, elements_eq_Icc _ ▸ member⟩

theorem operatorMpq_decisive_iff (compares : lib.ComparesBalls) (rounds : lib.RoundsRationals)
    (comparison : Comparison) {x : Arb} (number : x.mid ≠ .nan) (q : Mpq) :
    Decisive comparison.Holds x.elements {q.toEReal} (operatorMpq lib comparison x q) ↔
      ¬ comparison.Obscured x.lower x.upper (ofMpq lib q).lower q.toEReal
        (ofMpq lib q).upper := by
  obtain ⟨ballNumber, below, above⟩ := ofMpq_spec rounds q
  rw [operatorMpq_eq, operator_eq_verdict compares comparison number ballNumber, elements_eq_Icc,
    elements_eq_Icc]
  exact decisive_enclosure_iff comparison (x.lower_le_upper_iff.mpr number) below above

theorem mpqOperator_eq_swap (compares : lib.ComparesBalls) (comparison : Comparison) (q : Mpq)
    (x : Arb) :
    mpqOperator lib comparison q x = operatorMpq lib comparison.swap x q := by
  rw [mpqOperator_eq, operatorMpq_eq, operator_swap compares]

private theorem mpqOperator_decisive_swap_iff (compares : lib.ComparesBalls)
    (comparison : Comparison) (x : Arb) (q : Mpq) :
    Decisive comparison.Holds {q.toEReal} x.elements (mpqOperator lib comparison q x) ↔
      Decisive comparison.swap.Holds x.elements {q.toEReal}
        (operatorMpq lib comparison.swap x q) := by
  rw [mpqOperator_eq_swap compares, Decisive, Decisive, always_swap_iff, ← always_negate_iff,
    ← always_negate_iff, ← always_swap_iff comparison.negate]
  cases comparison <;> exact Iff.rfl

theorem mpqOperator_decisive_iff (compares : lib.ComparesBalls) (rounds : lib.RoundsRationals)
    (comparison : Comparison) {x : Arb} (number : x.mid ≠ .nan) (q : Mpq) :
    Decisive comparison.Holds {q.toEReal} x.elements (mpqOperator lib comparison q x) ↔
      ¬ comparison.swap.Obscured x.lower x.upper (ofMpq lib q).lower q.toEReal
        (ofMpq lib q).upper := by
  rw [mpqOperator_decisive_swap_iff compares, operatorMpq_decisive_iff compares rounds _ number]

/-- What is answered is true of the exact number. -/
theorem holds_iff_of_operatorMpq_eq_some (compares : lib.ComparesBalls)
    (rounds : lib.RoundsRationals) {comparison : Comparison} {x : Arb} {q : Mpq} {value : Bool}
    (answered : operatorMpq lib comparison x q = some value) :
    ∀ t ∈ x.elements, (comparison.Holds t q.toEReal ↔ value = true) := by
  rw [operatorMpq_eq] at answered
  obtain ⟨_, _, everywhere⟩ := holds_iff_of_operator_eq_some compares answered
  exact fun t tMem => everywhere t tMem _ (toEReal_mem_ofMpqPrec rounds q (by decide))

/-- Comparing with `mpq_class(n)` answers like comparing with `mpz_class(n)`
exactly if it is decisive. -/
theorem operatorMpq_mem_operatorInteger_iff (compares : lib.ComparesBalls)
    (sets : lib.SetsIntegers) (rounds : lib.RoundsRationals) (comparison : Comparison) {x : Arb}
    (number : x.mid ≠ .nan) (n : ℤ) :
    operatorMpq lib comparison x (.ofInt n) ∈
        operatorInteger lib comparison x (.mpz n : Operand model) ↔
      Decisive comparison.Holds x.elements {(Mpq.ofInt n).toEReal}
        (operatorMpq lib comparison x (.ofInt n)) := by
  have settles : Overload.arbConstructor.Settles (.mpz n : Operand model) := .inr trivial
  have nonempty := x.elements_nonempty_iff.mpr number
  have sound : ∀ value, operatorMpq lib comparison x (.ofInt n) = some value →
      verdict comparison.Holds x.elements {(Mpq.ofInt n).toEReal} = some value := by
    intro value answered
    rw [verdict_eq_some_iff nonempty (Set.singleton_nonempty _)]
    rintro t tMem u rfl
    exact holds_iff_of_operatorMpq_eq_some compares rounds answered t tMem
  rw [decisive_iff_eq_verdict sound nonempty (Set.singleton_nonempty _),
    mem_operatorInteger_iff lib sets, and_iff_right settles,
    operator_eq_verdict compares comparison number (by simp),
    elements_exact (Arf.ofInt_ne_nan _), Arf.toEReal_ofInt, Mpq.toEReal_ofInt]
  exact Iff.rfl

theorem mpqOperator_mem_integerOperator_iff (compares : lib.ComparesBalls)
    (sets : lib.SetsIntegers) (rounds : lib.RoundsRationals) (comparison : Comparison) {x : Arb}
    (number : x.mid ≠ .nan) (n : ℤ) :
    mpqOperator lib comparison (.ofInt n) x ∈
        integerOperator lib comparison (.mpz n : Operand model) x ↔
      Decisive comparison.Holds {(Mpq.ofInt n).toEReal} x.elements
        (mpqOperator lib comparison (.ofInt n) x) := by
  rw [mpqOperator_decisive_swap_iff compares,
    ← operatorMpq_mem_operatorInteger_iff compares sets rounds comparison.swap number n,
    mem_integerOperator_iff lib sets, mem_operatorInteger_iff lib sets,
    mpqOperator_eq_swap compares, operator_swap compares comparison]

/-- The ball around a number that fits is the number alone. -/
theorem not_obscured_of_fits (rounds : lib.RoundsRationals) (comparison : Comparison) (x : Arb)
    {q : Mpq} (fits : q.FitsBits arbPrecisionFast.toNat) :
    ¬ comparison.Obscured x.lower x.upper (ofMpq lib q).lower q.toEReal (ofMpq lib q).upper := by
  obtain ⟨d, isNumber, short⟩ := fits
  have point : (Arf.finite d).toEReal = q.toEReal := by
    rw [Arf.toEReal, Dyadic.toEReal, isNumber, Mpq.toEReal]
  rw [ofMpq, ofMpqPrec, rounds.setFmpq_exact q _ d (by decide) isNumber short,
    lower_exact (by simp), upper_exact (by simp), point]
  exact comparison.not_obscured_self

/-- Every other number is obscured from one of the ends of its ball. -/
theorem exists_obscured_of_not_fits (rounds : lib.RoundsRationals) (comparison : Comparison)
    {q : Mpq} (notFits : ¬ q.FitsBits arbPrecisionFast.toNat) :
    ∃ x : Arb, x.mid ≠ .nan ∧ comparison.Obscured x.lower x.upper (ofMpq lib q).lower q.toEReal
      (ofMpq lib q).upper := by
  obtain ⟨lower, upper, ordered, below, above, lowerMem, upperMem⟩ :=
    exists_ends_of_not_fits rounds (by decide : 2 ≤ arbPrecisionFast) notFits
  obtain ⟨t, isEnd, obscured⟩ := comparison.exists_obscured below above ordered
  rw [elements_eq_Icc] at lowerMem upperMem
  have wider := obscured.mono lowerMem.1 upperMem.2 ordered.le
  rcases isEnd with rfl | rfl
  · refine ⟨exact (.finite lower), by simp, ?_⟩
    rw [lower_exact (by simp), upper_exact (by simp)]
    exact wider
  · refine ⟨exact (.finite upper), by simp, ?_⟩
    rw [lower_exact (by simp), upper_exact (by simp)]
    exact wider

theorem comparesDecisively_everywhere_iff (compares : lib.ComparesBalls)
    (rounds : lib.RoundsRationals) (comparison : Comparison) (q : Mpq) :
    (∀ x : Arb, x.mid ≠ .nan → ComparesDecisively lib comparison x q) ↔
      q.FitsBits arbPrecisionFast.toNat := by
  constructor
  · intro decisive
    by_contra notFits
    obtain ⟨x, number, obscured⟩ := exists_obscured_of_not_fits rounds comparison notFits
    exact (operatorMpq_decisive_iff compares rounds comparison number q).mp
      (decisive x number).right obscured
  · intro fits x number
    exact ⟨(operatorMpq_decisive_iff compares rounds comparison number q).mpr
      (not_obscured_of_fits rounds comparison x fits),
      (mpqOperator_decisive_iff compares rounds comparison number q).mpr
        (not_obscured_of_fits rounds comparison.swap x fits)⟩

theorem comparesLikeInteger_iff (compares : lib.ComparesBalls) (sets : lib.SetsIntegers)
    (rounds : lib.RoundsRationals) (comparison : Comparison) {x : Arb} (number : x.mid ≠ .nan)
    (n : ℤ) :
    ComparesLikeInteger lib comparison x n ↔ ComparesDecisively lib comparison x (.ofInt n) := by
  have right_iff := operatorMpq_mem_operatorInteger_iff compares sets rounds comparison number n
  have left_iff := mpqOperator_mem_integerOperator_iff compares sets rounds comparison number n
  exact ⟨fun like => ⟨right_iff.mp like.right, left_iff.mp like.left⟩,
    fun decisive => ⟨right_iff.mpr decisive.right, left_iff.mpr decisive.left⟩⟩

/-- What is not near is not obscured. -/
theorem not_obscured_of_not_near (rounds : lib.RoundsRationals) {comparison : Comparison} {x : Arb}
    {q : Mpq} (far : ¬ IsNear comparison x q) :
    ¬ comparison.Obscured x.lower x.upper (ofMpq lib q).lower q.toEReal (ofMpq lib q).upper := by
  obtain ⟨_, below, above⟩ := ofMpq_spec rounds q
  obtain ⟨lowest, highest⟩ := ends_near_ofMpqPrec rounds q (by decide : 2 ≤ arbPrecisionFast)
  exact fun obscured => far (obscured.mono lowest highest (below.trans above))

/-- Nothing is lost for a number that fits 64 bits or is not near the ball. -/
theorem operatorMpq_decisive_of_clear (compares : lib.ComparesBalls)
    (rounds : lib.RoundsRationals) (comparison : Comparison) {x : Arb} (number : x.mid ≠ .nan)
    {q : Mpq} (clear : q.FitsBits arbPrecisionFast.toNat ∨ ¬ IsNear comparison x q) :
    Decisive comparison.Holds x.elements {q.toEReal} (operatorMpq lib comparison x q) :=
  (operatorMpq_decisive_iff compares rounds comparison number q).mpr (clear.elim
    (not_obscured_of_fits rounds comparison x) (not_obscured_of_not_near rounds))

theorem obscured_iff (truncates : lib.TruncatesRationals) (comparison : Comparison) (x : Arb)
    (q : Mpq) :
    comparison.Obscured x.lower x.upper (ofMpq lib q).lower q.toEReal (ofMpq lib q).upper ↔
      Obscures comparison x q := by
  obtain ⟨lowerEnd, upperEnd⟩ := ends_ofMpqPrec truncates q (by decide : 2 ≤ arbPrecisionFast)
  rw [ofMpq, lowerEnd, upperEnd, Obscures]

/-- The comparisons with a rational number give every answer that is true of the exact
number, whatever the ball, exactly if the number fits 64 bits; exactly then comparing
with `mpq_class(n)` is comparing with `mpz_class(n)`.  For any number they give every
answer to balls that are not near it, and, as Arb truncates, exactly to those that the
truncated number does not obscure. -/
theorem rational_comparisons_decisive_iff (compares : lib.ComparesBalls)
    (sets : lib.SetsIntegers) (rounds : lib.RoundsRationals) (comparison : Comparison) :
    (∀ q : Mpq, (∀ x : Arb, x.mid ≠ .nan → ComparesDecisively lib comparison x q) ↔
      q.FitsBits arbPrecisionFast.toNat) ∧
    (∀ n : ℤ, (∀ x : Arb, x.mid ≠ .nan → ComparesLikeInteger lib comparison x n) ↔
      (Mpq.ofInt n).FitsBits arbPrecisionFast.toNat) ∧
    ∀ x : Arb, x.mid ≠ .nan →
      (∀ q : Mpq,
        (¬ IsNear comparison x q →
          Decisive comparison.Holds x.elements {q.toEReal} (operatorMpq lib comparison x q)) ∧
        (¬ IsNear comparison.swap x q →
          Decisive comparison.Holds {q.toEReal} x.elements (mpqOperator lib comparison q x))) ∧
      (lib.TruncatesRationals →
        (∀ q : Mpq,
          (Decisive comparison.Holds x.elements {q.toEReal} (operatorMpq lib comparison x q) ↔
            ¬ Obscures comparison x q) ∧
          (Decisive comparison.Holds {q.toEReal} x.elements (mpqOperator lib comparison q x) ↔
            ¬ Obscures comparison.swap x q)) ∧
        (∀ n : ℤ,
          (operatorMpq lib comparison x (.ofInt n) ∈
              operatorInteger lib comparison x (.mpz n : Operand model) ↔
            ¬ Obscures comparison x (.ofInt n)) ∧
          (mpqOperator lib comparison (.ofInt n) x ∈
              integerOperator lib comparison (.mpz n : Operand model) x ↔
            ¬ Obscures comparison.swap x (.ofInt n)))) := by
  refine ⟨comparesDecisively_everywhere_iff compares rounds comparison, ?_, ?_⟩
  · intro n
    rw [← comparesDecisively_everywhere_iff compares rounds comparison]
    exact forall₂_congr fun x number =>
      comparesLikeInteger_iff compares sets rounds comparison number n
  · intro x number
    have right_iff := operatorMpq_decisive_iff compares rounds comparison number
    have left_iff := mpqOperator_decisive_iff compares rounds comparison number
    refine ⟨fun q => ⟨fun far => ?_, fun far => ?_⟩, fun truncates => ?_⟩
    · exact operatorMpq_decisive_of_clear compares rounds comparison number (.inr far)
    · exact (left_iff q).mpr (not_obscured_of_not_near rounds far)
    · simp only [obscured_iff truncates] at right_iff left_iff
      refine ⟨fun q => ⟨right_iff q, left_iff q⟩, fun n => ?_⟩
      rw [operatorMpq_mem_operatorInteger_iff compares sets rounds comparison number,
        mpqOperator_mem_integerOperator_iff compares sets rounds comparison number]
      exact ⟨right_iff (.ofInt n), left_iff (.ofInt n)⟩

/-- Every ball is compared with one half, and zero with one third, as exactly as can be. -/
theorem rational_comparisons_decisive_half :
    (∀ x : Arb, x.mid ≠ .nan → ComparesDecisively (reference .lp64) .lt x ⟨1, 2, by decide⟩) ∧
    Decisive Comparison.lt.Holds (exact (Arf.ofInt 0)).elements
      {(⟨1, 3, by decide⟩ : Mpq).toEReal}
      (operatorMpq (reference .lp64) .lt (exact (Arf.ofInt 0)) ⟨1, 3, by decide⟩) := by
  obtain ⟨everywhere_iff, _, at_ball⟩ := rational_comparisons_decisive_iff
    (reference_comparesBalls .lp64) (reference_setsIntegers .lp64) reference_roundsRationals .lt
  constructor
  · exact (everywhere_iff _).mpr ⟨Dyadic.ofIntWithPrec 1 1, by decide +kernel, by decide +kernel⟩
  · have clear : ¬ Obscures .lt (exact (Arf.ofInt 0)) ⟨1, 3, by decide⟩ := by
      rw [Obscures, lower_exact (by simp), upper_exact (by simp)]
      rintro (⟨near, _⟩ | ⟨near, _⟩)
      · have apart : Dyadic.ofInt 0 < (⟨1, 3, by decide⟩ : Mpq).truncated arbPrecisionFast.toNat -
            (⟨1, 3, by decide⟩ : Mpq).slack arbPrecisionFast.toNat := by decide +kernel
        exact near.not_gt (Dyadic.toEReal_lt_toEReal.mpr apart)
      · have third : (0 : EReal) < (⟨1, 3, by decide⟩ : Mpq).toEReal := by
          simp [Mpq.toEReal, Mpq.value]
        rw [Arf.toEReal_ofInt] at near
        exact near.not_gt (by simpa using third)
    exact (((at_ball (exact (Arf.ofInt 0)) (by decide)).2 reference_truncatesRationals).1 _).1.mpr
      clear

/-- `2^64 + 1` is equal to itself as an integer, and undecided as a rational
number. -/
theorem rational_comparison_undecided :
    ¬ Decisive Comparison.eq.Holds (exact (Arf.ofInt (2 ^ 64 + 1))).elements
        {(Mpq.ofInt (2 ^ 64 + 1)).toEReal}
        (operatorMpq (reference .lp64) .eq (exact (Arf.ofInt (2 ^ 64 + 1))) (.ofInt (2 ^ 64 + 1))) ∧
      operatorMpq (reference .lp64) .eq (exact (Arf.ofInt (2 ^ 64 + 1)))
        (.ofInt (2 ^ 64 + 1)) = none ∧
      some true ∈ operatorInteger (reference .lp64) .eq (exact (Arf.ofInt (2 ^ 64 + 1)))
        (.mpz (2 ^ 64 + 1)) := by
  have undecided : operatorMpq (reference .lp64) .eq (exact (Arf.ofInt (2 ^ 64 + 1)))
      (.ofInt (2 ^ 64 + 1)) = none := by decide +kernel
  refine ⟨?_, undecided, ?_⟩
  · rintro ⟨yes, _⟩
    rw [undecided, elements_exact (Arf.ofInt_ne_nan _), Arf.toEReal_ofInt,
      Mpq.toEReal_ofInt] at yes
    have same : Always Comparison.eq.Holds {(((2 ^ 64 + 1 : ℤ) : ℝ) : EReal)}
        {(((2 ^ 64 + 1 : ℤ) : ℝ) : EReal)} := by
      rintro t rfl u rfl
      rfl
    exact absurd (yes same) (by decide)
  · rw [mem_operatorInteger_iff _ (reference_setsIntegers .lp64)]
    exact ⟨.inl rfl, by decide +kernel⟩

end Arb

end Arbxx
