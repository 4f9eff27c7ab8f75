import Arbxx.ArbOperators
import Arbxx.ReferenceLibrary

/-!
# Comparing balls

What the comparisons of `Arb` answer, for balls and for mixed operands: the
answers themselves, what survives a change of precision, and the laws that link
the six operators.
-/

namespace Arbxx

namespace Arb

open ThreeValued CLibrary

variable {model : DataModel} {lib : CLibrary model}

/-! ### The answers -/

/-- The answer that the comparison operators document, for two sets of extended
reals; balls around NaN are empty. -/
structure DocumentedAnswer (comparison : Comparison) (first second : Set EReal)
    (answer : Option Bool) : Prop where
  true_iff : first.Nonempty → second.Nonempty →
    (answer = some true ↔ ∀ t ∈ first, ∀ u ∈ second, comparison.Holds t u)
  false_iff : first.Nonempty → second.Nonempty →
    (answer = some false ↔ ∀ t ∈ first, ∀ u ∈ second, ¬ comparison.Holds t u)
  none_iff : first.Nonempty → second.Nonempty →
    (answer = none ↔ (∃ t ∈ first, ∃ u ∈ second, comparison.Holds t u) ∧
      ∃ t ∈ first, ∃ u ∈ second, ¬ comparison.Holds t u)
  none_of_nan : first = ∅ ∨ second = ∅ → answer = none

theorem documentedAnswer_of_verdict {comparison : Comparison} {first second : Set EReal}
    {answer : Option Bool}
    (decided : first.Nonempty → second.Nonempty → answer = verdict comparison.Holds first second)
    (undecided : first = ∅ ∨ second = ∅ → answer = none) :
    DocumentedAnswer comparison first second answer where
  true_iff firstNonempty secondNonempty := by
    rw [decided firstNonempty secondNonempty]
    exact verdict_eq_true_iff
  false_iff firstNonempty secondNonempty := by
    rw [decided firstNonempty secondNonempty]
    exact verdict_eq_false_iff firstNonempty secondNonempty
  none_iff firstNonempty secondNonempty := by
    rw [decided firstNonempty secondNonempty, Option.eq_none_iff_forall_ne_some, Bool.forall_bool,
      Ne, Ne, verdict_eq_true_iff, verdict_eq_false_iff firstNonempty secondNonempty, Always, Never]
    push Not
    exact Iff.rfl
  none_of_nan := undecided

theorem operator_documentedAnswer (compares : lib.ComparesBalls) (comparison : Comparison)
    (x y : Arb) :
    DocumentedAnswer comparison x.elements y.elements (operator lib comparison x y) := by
  apply documentedAnswer_of_verdict
  · rw [elements_nonempty_iff, elements_nonempty_iff]
    exact operator_eq_verdict compares comparison
  · rw [elements_eq_empty_iff, elements_eq_empty_iff]
    exact operator_of_nan compares comparison

/-- Any returned answer is the truth value of the relation at all pairs of
elements. -/
theorem holds_iff_of_operator_eq_some (compares : lib.ComparesBalls) {comparison : Comparison}
    {x y : Arb} {value : Bool} (answered : operator lib comparison x y = some value) :
    x.mid ≠ .nan ∧ y.mid ≠ .nan ∧
      ∀ t ∈ x.elements, ∀ u ∈ y.elements, (comparison.Holds t u ↔ value = true) := by
  by_cases someNan : x.mid = .nan ∨ y.mid = .nan
  · rw [operator_of_nan compares comparison someNan] at answered
    cases answered
  · obtain ⟨xNumber, yNumber⟩ := not_or.mp someNan
    rw [operator_eq_verdict compares comparison xNumber yNumber,
      verdict_eq_some_iff (x.elements_nonempty_iff.mpr xNumber)
        (y.elements_nonempty_iff.mpr yNumber)] at answered
    exact ⟨xNumber, yNumber, answered⟩

theorem elements_ofInt (n : ℤ) :
    (exact (Arf.ofInt n)).elements = {((n : ℝ) : EReal)} := by
  rw [elements_exact (Arf.ofInt_ne_nan n), Arf.toEReal_ofInt]

/-- The comparisons of balls answer as documented; the comparisons with integers
return wherever the constructor does, and answer as documented for the integer;
and what the comparisons with rational numbers answer is true of the exact
number. -/
theorem comparisons_answer (compares : lib.ComparesBalls) (sets : lib.SetsIntegers)
    (encloses : lib.EnclosesRationals) (comparison : Comparison) (x : Arb) :
    (∀ y : Arb,
      DocumentedAnswer comparison x.elements y.elements (operator lib comparison x y) ∧
      (x.mid = .nan ∨ y.mid = .nan → operator lib comparison x y = none)) ∧
    (∀ n : Operand model,
      ((∃ answer, answer ∈ operatorInteger lib comparison x n) ↔
        Overload.arbConstructor.Settles n) ∧
      (∀ answer ∈ operatorInteger lib comparison x n,
        DocumentedAnswer comparison x.elements {((n.integer : ℝ) : EReal)} answer) ∧
      ((∃ answer, answer ∈ integerOperator lib comparison n x) ↔
        Overload.arbConstructor.Settles n) ∧
      (∀ answer ∈ integerOperator lib comparison n x,
        DocumentedAnswer comparison {((n.integer : ℝ) : EReal)} x.elements answer)) ∧
    (∀ (q : Mpq) (value : Bool),
      (operatorMpq lib comparison x q = some value →
        x.mid ≠ .nan ∧ ∀ t ∈ x.elements, (comparison.Holds t q.toEReal ↔ value = true)) ∧
      (mpqOperator lib comparison q x = some value →
        x.mid ≠ .nan ∧ ∀ t ∈ x.elements, (comparison.Holds q.toEReal t ↔ value = true))) := by
  refine ⟨fun y => ⟨operator_documentedAnswer compares comparison x y,
    operator_of_nan compares comparison⟩, fun n => ⟨?_, ?_, ?_, ?_⟩, fun q value => ⟨?_, ?_⟩⟩
  · simp only [mem_operatorInteger_iff lib sets, exists_and_left, exists_eq, and_true]
  · intro answer member
    obtain ⟨_, rfl⟩ := (mem_operatorInteger_iff lib sets comparison x n answer).mp member
    rw [← elements_ofInt]
    exact operator_documentedAnswer compares comparison x _
  · simp only [mem_integerOperator_iff lib sets, exists_and_left, exists_eq, and_true]
  · intro answer member
    obtain ⟨_, rfl⟩ := (mem_integerOperator_iff lib sets comparison n x answer).mp member
    rw [← elements_ofInt]
    exact operator_documentedAnswer compares comparison _ x
  · intro answered
    rw [operatorMpq_eq] at answered
    obtain ⟨number, _, everywhere⟩ := holds_iff_of_operator_eq_some compares answered
    exact ⟨number, fun t tMem => everywhere t tMem _ (encloses.mem_setFmpq q _)⟩
  · intro answered
    rw [mpqOperator_eq] at answered
    obtain ⟨_, number, everywhere⟩ := holds_iff_of_operator_eq_some compares answered
    exact ⟨number, fun t tMem => everywhere _ (encloses.mem_setFmpq q _) t tMem⟩

theorem comparisons_answer_third :
    let third := ofMpq (reference .lp64) ⟨1, 3, by decide⟩
    operator (reference .lp64) .lt third third = none ∧
      DocumentedAnswer .lt third.elements third.elements
        (operator (reference .lp64) .lt third third) :=
  ⟨by decide +kernel, ((comparisons_answer (reference_comparesBalls .lp64)
    (reference_setsIntegers .lp64) (reference_enclosesRationals .lp64) .lt _).1 _).1⟩

/-! ### More precise operands -/

theorem operator_agree (compares : lib.ComparesBalls) {comparison : Comparison} {x x' y y' : Arb}
    (xMeet : (x.elements ∩ x'.elements).Nonempty) (yMeet : (y.elements ∩ y'.elements).Nonempty)
    {value value' : Bool} (answered : operator lib comparison x y = some value)
    (answered' : operator lib comparison x' y' = some value') :
    value = value' := by
  obtain ⟨xNumber, yNumber, _⟩ := holds_iff_of_operator_eq_some compares answered
  obtain ⟨xNumber', yNumber', _⟩ := holds_iff_of_operator_eq_some compares answered'
  rw [operator_eq_verdict compares comparison xNumber yNumber] at answered
  rw [operator_eq_verdict compares comparison xNumber' yNumber'] at answered'
  exact verdict_agree xMeet yMeet answered answered'

theorem operator_mono (compares : lib.ComparesBalls) {comparison : Comparison} {x x' y y' : Arb}
    (xNumber : x'.mid ≠ .nan) (yNumber : y'.mid ≠ .nan)
    (xSubset : x'.elements ⊆ x.elements) (ySubset : y'.elements ⊆ y.elements)
    {value : Bool} (answered : operator lib comparison x y = some value) :
    operator lib comparison x' y' = some value := by
  obtain ⟨xWide, yWide, _⟩ := holds_iff_of_operator_eq_some compares answered
  rw [operator_eq_verdict compares comparison xWide yWide] at answered
  rw [operator_eq_verdict compares comparison xNumber yNumber]
  exact verdict_mono (x'.elements_nonempty_iff.mpr xNumber)
    (y'.elements_nonempty_iff.mpr yNumber) xSubset ySubset answered

/-- The balls of a rational number at two precisions share that number. -/
theorem ofMpqPrec_meet (encloses : lib.EnclosesRationals) (q : Mpq) (precision precision' : ℤ) :
    ((ofMpqPrec lib q precision).elements ∩ (ofMpqPrec lib q precision').elements).Nonempty :=
  ⟨q.toEReal, encloses.mem_setFmpq q precision, encloses.mem_setFmpq q precision'⟩

/-- Decided answers on overlapping operands agree, and survive smaller operands;
in particular two precisions never decide a comparison with a rational number in
opposite ways. -/
theorem comparisons_refine (compares : lib.ComparesBalls) (encloses : lib.EnclosesRationals)
    (comparison : Comparison) :
    (∀ x x' y y' : Arb, x.mid ≠ .nan → x'.mid ≠ .nan → y.mid ≠ .nan → y'.mid ≠ .nan →
      (x.elements ∩ x'.elements).Nonempty → (y.elements ∩ y'.elements).Nonempty →
      (∀ value value', operator lib comparison x y = some value →
        operator lib comparison x' y' = some value' → value = value') ∧
      (x'.elements ⊆ x.elements → y'.elements ⊆ y.elements →
        ∀ value, operator lib comparison x y = some value →
          operator lib comparison x' y' = some value)) ∧
    (∀ (x : Arb) (q : Mpq) (precision precision' : ℤ) (value value' : Bool),
      (operator lib comparison x (ofMpqPrec lib q precision) = some value →
        operator lib comparison x (ofMpqPrec lib q precision') = some value' → value = value') ∧
      (operator lib comparison (ofMpqPrec lib q precision) x = some value →
        operator lib comparison (ofMpqPrec lib q precision') x = some value' →
          value = value')) := by
  have self : ∀ x : Arb, x.mid ≠ .nan → (x.elements ∩ x.elements).Nonempty := by
    intro x number
    rw [Set.inter_self]
    exact x.elements_nonempty_iff.mpr number
  constructor
  · intro x x' y y' _ xNumber _ yNumber xMeet yMeet
    constructor
    · intro value value'
      exact operator_agree compares xMeet yMeet
    · intro xSubset ySubset value
      exact operator_mono compares xNumber yNumber xSubset ySubset
  · intro x q precision precision' value value'
    have meet := ofMpqPrec_meet encloses q precision precision'
    constructor
    · intro answered
      obtain ⟨number, _⟩ := holds_iff_of_operator_eq_some compares answered
      exact operator_agree compares (self x number) meet answered
    · intro answered
      obtain ⟨_, number, _⟩ := holds_iff_of_operator_eq_some compares answered
      exact operator_agree compares meet (self x number) answered

/-- Shrinking a ball of radius one to its midpoint keeps a decided answer. -/
theorem comparisons_refine_zeroPmOne :
    operator (reference .lp64) .lt (exact (.finite 0)) (exact (Arf.ofInt 2)) = some true := by
  have inside : (exact (.finite 0)).elements ⊆ unitBall.elements := by
    rw [elements_exact (by simp), Set.singleton_subset_iff]
    exact ⟨0, by simp [Arf.toEReal, Dyadic.toEReal], by simp [show (1 : Dyadic).toRat = 1 from rfl]⟩
  have point : (exact (.finite 0)).elements.Nonempty := by simp [elements_nonempty_iff]
  have two : (exact (Arf.ofInt 2)).elements.Nonempty := by simp [elements_nonempty_iff]
  have refines := (comparisons_refine (reference_comparesBalls .lp64)
    (reference_enclosesRationals .lp64) .lt).1 unitBall (exact (.finite 0))
    (exact (Arf.ofInt 2)) (exact (Arf.ofInt 2)) (by decide) (by decide) (by decide) (by decide)
    (point.mono (Set.subset_inter inside subset_rfl)) (by rwa [Set.inter_self])
  exact refines.2 inside subset_rfl true (by decide +kernel)

/-! ### Laws that link the operators -/

theorem operator_swap (compares : lib.ComparesBalls) (comparison : Comparison) (x y : Arb) :
    operator lib comparison x y = operator lib comparison.swap y x := by
  by_cases someNan : x.mid = .nan ∨ y.mid = .nan
  · rw [operator_of_nan compares _ someNan, operator_of_nan compares _ someNan.symm]
  · obtain ⟨xNumber, yNumber⟩ := not_or.mp someNan
    have relation : (comparison.swap.Holds : EReal → EReal → Prop) =
        fun u t => comparison.Holds t u := by
      funext u t
      exact propext (comparison.holds_swap u t)
    rw [operator_eq_verdict compares _ xNumber yNumber,
      operator_eq_verdict compares _ yNumber xNumber, relation, verdict_swap]

theorem integerOperator_eq_swap (compares : lib.ComparesBalls) (comparison : Comparison)
    (n : Operand model) (x : Arb) :
    integerOperator lib comparison n x = operatorInteger lib comparison.swap x n := by
  rw [integerOperator_eq_map, operatorInteger_eq_map]
  congr 1
  funext ball
  exact operator_swap compares comparison ball x

/-- The complementary relation is decided at the same time and the other way. -/
theorem operator_negate (compares : lib.ComparesBalls) (comparison : Comparison) (x y : Arb) :
    operator lib comparison.negate x y = (operator lib comparison x y).map (!·) := by
  by_cases someNan : x.mid = .nan ∨ y.mid = .nan
  · rw [operator_of_nan compares _ someNan, operator_of_nan compares _ someNan]
    rfl
  · obtain ⟨xNumber, yNumber⟩ := not_or.mp someNan
    have relation : (comparison.negate.Holds : EReal → EReal → Prop) =
        fun t u => ¬ comparison.Holds t u := by
      funext t u
      exact propext (comparison.holds_negate t u)
    rw [operator_eq_verdict compares _ xNumber yNumber,
      operator_eq_verdict compares _ xNumber yNumber, relation,
      verdict_not (x.elements_nonempty_iff.mpr xNumber) (y.elements_nonempty_iff.mpr yNumber)]

theorem operator_eq_true_iff (compares : lib.ComparesBalls) (comparison : Comparison) (x y : Arb) :
    operator lib comparison x y = some true ↔
      x.mid ≠ .nan ∧ y.mid ≠ .nan ∧ Always comparison.Holds x.elements y.elements := by
  constructor
  · intro answered
    obtain ⟨xNumber, yNumber, _⟩ := holds_iff_of_operator_eq_some compares answered
    rw [operator_eq_verdict compares comparison xNumber yNumber, verdict_eq_true_iff] at answered
    exact ⟨xNumber, yNumber, answered⟩
  · rintro ⟨xNumber, yNumber, always⟩
    rw [operator_eq_verdict compares comparison xNumber yNumber, verdict_eq_true_iff]
    exact always

/-- A true answer refutes every relation that excludes it. -/
theorem operator_eq_false_of_excludes (compares : lib.ComparesBalls)
    {comparison other : Comparison}
    (excludes : ∀ t u : EReal, comparison.Holds t u → ¬ other.Holds t u) {x y : Arb}
    (holds : operator lib comparison x y = some true) :
    operator lib other x y = some false := by
  obtain ⟨xNumber, yNumber, always⟩ := (operator_eq_true_iff compares comparison x y).mp holds
  rw [operator_eq_verdict compares other xNumber yNumber,
    verdict_eq_false_iff (x.elements_nonempty_iff.mpr xNumber)
      (y.elements_nonempty_iff.mpr yNumber)]
  exact fun t tMem u uMem => excludes t u (always t tMem u uMem)

/-- Relations that compose on numbers compose on balls. -/
theorem operator_trans (compares : lib.ComparesBalls) {left right composite : Comparison}
    (compose : ∀ t u v : EReal, left.Holds t u → right.Holds u v → composite.Holds t v)
    {x y z : Arb} (leftHolds : operator lib left x y = some true)
    (rightHolds : operator lib right y z = some true) :
    operator lib composite x z = some true := by
  obtain ⟨xNumber, yNumber, leftAlways⟩ := (operator_eq_true_iff compares left x y).mp leftHolds
  obtain ⟨_, zNumber, rightAlways⟩ := (operator_eq_true_iff compares right y z).mp rightHolds
  rw [operator_eq_true_iff compares]
  exact ⟨xNumber, zNumber,
    leftAlways.trans (y.elements_nonempty_iff.mpr yNumber) compose rightAlways⟩

theorem operator_le_and_ge_iff (compares : lib.ComparesBalls) (x y : Arb) :
    operator lib .le x y = some true ∧ operator lib .ge x y = some true ↔
      operator lib .eq x y = some true := by
  simp only [operator_eq_true_iff compares]
  constructor
  · rintro ⟨⟨xNumber, yNumber, below⟩, _, _, above⟩
    exact ⟨xNumber, yNumber, fun t tMem u uMem =>
      le_antisymm (below t tMem u uMem) (above t tMem u uMem)⟩
  · rintro ⟨xNumber, yNumber, equal⟩
    exact ⟨⟨xNumber, yNumber, fun t tMem u uMem => (equal t tMem u uMem).le⟩,
      xNumber, yNumber, fun t tMem u uMem => (equal t tMem u uMem).ge⟩

/-- Finite balls are decidedly equal exactly if they are the same exact number. -/
theorem operator_eq_iff_exact_equal (compares : lib.ComparesBalls) (handles : lib.HandlesBalls)
    {x y : Arb} (xFinite : isFinite lib x = true) (yFinite : isFinite lib y = true) :
    operator lib .eq x y = some true ↔
      isExact lib x = true ∧ isExact lib y = true ∧ equal lib x y = true := by
  obtain ⟨⟨m, xMid⟩, xRad⟩ := (handles.isFinite_iff x).mp xFinite
  obtain ⟨⟨m', yMid⟩, yRad⟩ := (handles.isFinite_iff y).mp yFinite
  rw [isExact, isExact, equal, handles.isExact_iff, handles.isExact_iff, handles.equal_iff,
    operator_eq_true_iff compares]
  have xNumber : x.mid ≠ .nan := by simp [xMid]
  have yNumber : y.mid ≠ .nan := by simp [yMid]
  have always_iff : Always Comparison.eq.Holds x.elements y.elements ↔
      x.lower = x.upper ∧ y.lower = y.upper ∧ x.lower = y.lower := by
    rw [elements_eq_Icc, elements_eq_Icc]
    exact always_eq_Icc_iff (x.lower_le_upper_iff.mpr xNumber) (y.lower_le_upper_iff.mpr yNumber)
  rw [always_iff]
  obtain ⟨mid, rad⟩ := x
  obtain ⟨mid', rad'⟩ := y
  dsimp only at xMid yMid xRad yRad ⊢
  subst xMid yMid
  rw [lower_eq_upper_iff xRad, lower_eq_upper_iff yRad]
  constructor
  · rintro ⟨_, _, rfl, rfl, sameLower⟩
    refine ⟨rfl, rfl, ?_⟩
    have xLower : (⟨.finite m, Mag.zero⟩ : Arb).lower = m.toEReal := lower_exact (by simp)
    have yLower : (⟨.finite m', Mag.zero⟩ : Arb).lower = m'.toEReal := lower_exact (by simp)
    rw [xLower, yLower, Dyadic.toEReal_inj] at sameLower
    rw [sameLower]
  · rintro ⟨rfl, rfl, same⟩
    rw [Arb.mk.injEq] at same
    exact ⟨xNumber, yNumber, rfl, rfl, by rw [same.1]⟩

theorem operator_operatorNeg (compares : lib.ComparesBalls) (handles : lib.HandlesBalls)
    (comparison : Comparison) (x y : Arb) :
    operator lib comparison (operatorNeg lib x) (operatorNeg lib y) =
      operator lib comparison y x := by
  rw [operatorNeg, operatorNeg, handles.neg_eq, handles.neg_eq]
  by_cases someNan : x.mid = .nan ∨ y.mid = .nan
  · rw [operator_of_nan compares _ someNan.symm, operator_of_nan compares]
    simpa using someNan
  · obtain ⟨xNumber, yNumber⟩ := not_or.mp someNan
    have relation : (fun t u : EReal => comparison.Holds (-t) (-u)) =
        fun t u => comparison.Holds u t := by
      funext t u
      exact propext (Comparison.holds_map_anti EReal.neg_strictAnti comparison t u)
    rw [operator_eq_verdict compares _ yNumber xNumber,
      operator_eq_verdict compares _ (by simpa using xNumber) (by simpa using yNumber),
      elements_neg, elements_neg, verdict_image, relation, verdict_swap]

/-- The six operators form one coherent order with negation. -/
theorem comparisons_coherent (compares : lib.ComparesBalls) (handles : lib.HandlesBalls)
    (x y z : Arb) :
    (∀ comparison, operator lib comparison x y = operator lib comparison.swap y x) ∧
    (∀ comparison, operator lib comparison.negate x y =
      (operator lib comparison x y).map (!·)) ∧
    (∀ comparison ∈ [Comparison.lt, .eq, .gt], operator lib comparison x y = some true →
      ∀ other ∈ [Comparison.lt, .eq, .gt], other ≠ comparison →
        operator lib other x y = some false) ∧
    (operator lib .le x y = some true → operator lib .le y z = some true →
      operator lib .le x z = some true ∧
      (operator lib .lt x y = some true ∨ operator lib .lt y z = some true →
        operator lib .lt x z = some true)) ∧
    (operator lib .le x y = some true ∧ operator lib .ge x y = some true ↔
      operator lib .eq x y = some true) ∧
    (isFinite lib x = true → isFinite lib y = true →
      (operator lib .eq x y = some true ↔
        isExact lib x = true ∧ isExact lib y = true ∧ equal lib x y = true)) ∧
    (∀ comparison, operator lib comparison (operatorNeg lib x) (operatorNeg lib y) =
      operator lib comparison y x) ∧
    equal lib (operatorNeg lib (operatorNeg lib x)) x = true := by
  refine ⟨fun comparison => operator_swap compares comparison x y,
    fun comparison => operator_negate compares comparison x y, ?_, ?_,
    operator_le_and_ge_iff compares x y, operator_eq_iff_exact_equal compares handles,
    fun comparison => operator_operatorNeg compares handles comparison x y, ?_⟩
  · intro comparison oneOf holds other otherOneOf distinct
    exact operator_eq_false_of_excludes compares
      (fun t u => Comparison.not_holds_of_holds oneOf otherOneOf distinct) holds
  · intro below above
    refine ⟨operator_trans compares (fun t u v => le_trans) below above, ?_⟩
    rintro (strict | strict)
    · exact operator_trans compares (fun t u v => lt_of_lt_of_le) strict above
    · exact operator_trans compares (fun t u v => lt_of_le_of_lt) below strict
  · rw [equal, operatorNeg, operatorNeg, handles.equal_iff, handles.neg_eq, handles.neg_eq,
      Arf.neg_neg_eq]

theorem comparisons_coherent_one_two_three :
    operator (reference .lp64) .lt (exact (Arf.ofInt 1)) (exact (Arf.ofInt 3)) = some true := by
  obtain ⟨_, _, _, transitive, _⟩ := comparisons_coherent (reference_comparesBalls .lp64)
    (reference_handlesBalls .lp64) (exact (Arf.ofInt 1)) (exact (Arf.ofInt 2))
    (exact (Arf.ofInt 3))
  exact (transitive (by decide +kernel) (by decide +kernel)).2 (.inl (by decide +kernel))

end Arb

end Arbxx
