import Arbxx.RationalRounding

/-!
# How much precision rational numbers need

A rational number can be rounded to any precision.  The balls around two different
numbers are told apart by every comparison as soon as the precisions are fine enough
for their distance; the balls around one number never are, unless they are exact.
-/

namespace ThreeValued.Comparison

variable {α β : Type*} [LinearOrder α] [LinearOrder β] {t u : α} {q r : β}

/-- Between distinct elements a comparison depends on their order only. -/
theorem holds_iff_of_lt (comparison : Comparison) (below : t < u) (below' : q < r) :
    comparison.Holds t u ↔ comparison.Holds q r := by
  cases comparison with
  | lt => exact iff_of_true below below'
  | le => exact iff_of_true below.le below'.le
  | ne => exact iff_of_true below.ne below'.ne
  | gt => exact iff_of_false below.not_gt below'.not_gt
  | ge => exact iff_of_false below.not_ge below'.not_ge
  | eq => exact iff_of_false below.ne below'.ne

theorem holds_iff_of_gt (comparison : Comparison) (above : u < t) (above' : r < q) :
    comparison.Holds t u ↔ comparison.Holds q r := by
  rw [← holds_swap, holds_iff_of_lt comparison.swap above above', holds_swap]

end ThreeValued.Comparison

namespace Arbxx

open ThreeValued

namespace Arb

open CLibrary

variable {model : DataModel} {lib : CLibrary model}

/-- Balls with elements on both sides of each other and a common element are not told
apart by any comparison. -/
theorem operator_eq_none_of_crossing (compares : lib.ComparesBalls) (comparison : Comparison)
    {x y : Arb} (less : ∃ t ∈ x.elements, ∃ u ∈ y.elements, t < u)
    (equal : ∃ t ∈ x.elements, ∃ u ∈ y.elements, t = u)
    (greater : ∃ t ∈ x.elements, ∃ u ∈ y.elements, u < t) :
    operator lib comparison x y = none := by
  rw [Option.eq_none_iff_forall_ne_some]
  intro value answered
  obtain ⟨_, _, everywhere⟩ := holds_iff_of_operator_eq_some compares answered
  obtain ⟨t₁, t₁Mem, u₁, u₁Mem, isLess⟩ := less
  obtain ⟨t₂, t₂Mem, u₂, u₂Mem, isEqual⟩ := equal
  obtain ⟨t₃, t₃Mem, u₃, u₃Mem, isGreater⟩ := greater
  have first := everywhere t₁ t₁Mem u₁ u₁Mem
  have second := everywhere t₂ t₂Mem u₂ u₂Mem
  have third := everywhere t₃ t₃Mem u₃ u₃Mem
  cases comparison with
  | lt =>
      have again : t₃ < u₃ := third.mpr (first.mp isLess)
      exact again.not_gt isGreater
  | le =>
      have again : t₃ ≤ u₃ := third.mpr (first.mp isLess.le)
      exact again.not_gt isGreater
  | gt =>
      have again : u₁ < t₁ := first.mpr (third.mp isGreater)
      exact again.not_gt isLess
  | ge =>
      have again : u₁ ≤ t₁ := first.mpr (third.mp isGreater.le)
      exact again.not_gt isLess
  | eq => exact isLess.ne (first.mpr (second.mp isEqual))
  | ne => exact second.mpr (first.mp isLess.ne) isEqual

/-- An answer that is right for two rational numbers. -/
def Settles (lib : CLibrary model) (comparison : Comparison) (x y : Arb) (q r : ℚ) : Prop :=
  ∃ value, operator lib comparison x y = some value ∧ (comparison.Holds q r ↔ value = true)

open Classical in
theorem settles_of_everywhere (compares : lib.ComparesBalls) {comparison : Comparison} {x y : Arb}
    {q r : ℚ} (xSome : x.elements.Nonempty) (ySome : y.elements.Nonempty)
    (everywhere : ∀ t ∈ x.elements, ∀ u ∈ y.elements,
      (comparison.Holds t u ↔ comparison.Holds q r)) : Settles lib comparison x y q r := by
  refine ⟨decide (comparison.Holds q r), ?_, decide_eq_true_iff.symm⟩
  rw [operator_eq_verdict compares comparison (x.elements_nonempty_iff.mp xSome)
    (y.elements_nonempty_iff.mp ySome), verdict_eq_some_iff xSome ySome]
  intro t tMem u uMem
  rw [decide_eq_true_iff]
  exact everywhere t tMem u uMem

theorem lt_of_mem_ofMpqPrec (rounds : lib.RoundsRationals) {q r : Mpq} {precision precision' : ℤ}
    (twoLe : 2 ≤ precision) (twoLe' : 2 ≤ precision')
    (far : 2 ^ (2 - precision) * |q.value| + 2 ^ (2 - precision') * |r.value| < r.value - q.value)
    {t u : EReal} (tMem : t ∈ (ofMpqPrec lib q precision).elements)
    (uMem : u ∈ (ofMpqPrec lib r precision').elements) : t < u := by
  obtain ⟨s, rfl, near⟩ := near_of_mem_ofMpqPrec rounds q twoLe tMem
  obtain ⟨v, rfl, near'⟩ := near_of_mem_ofMpqPrec rounds r twoLe' uMem
  have apart : ((2 ^ (2 - precision) * |q.value| : ℚ) : ℝ) +
      ((2 ^ (2 - precision') * |r.value| : ℚ) : ℝ) < r.value - q.value := by exact_mod_cast far
  have above := (abs_le.mp near).2
  have below := (abs_le.mp near').1
  rw [EReal.coe_lt_coe_iff]
  linarith

theorem settles_of_far (compares : lib.ComparesBalls) (rounds : lib.RoundsRationals)
    (comparison : Comparison) {q r : Mpq} {precision precision' : ℤ} (twoLe : 2 ≤ precision)
    (twoLe' : 2 ≤ precision')
    (far : 2 ^ (2 - precision) * |q.value| + 2 ^ (2 - precision') * |r.value| <
      |q.value - r.value|) :
    Settles lib comparison (ofMpqPrec lib q precision) (ofMpqPrec lib r precision') q.value
      r.value := by
  apply settles_of_everywhere compares ⟨_, toEReal_mem_ofMpqPrec rounds q twoLe⟩
    ⟨_, toEReal_mem_ofMpqPrec rounds r twoLe'⟩
  intro t tMem u uMem
  have apart : 0 < |q.value - r.value| := by
    have allowed : ∀ (precision : ℤ) (q : ℚ), 0 ≤ 2 ^ (2 - precision) * |q| :=
      fun precision q => mul_nonneg (zpow_pos two_pos _).le (abs_nonneg q)
    exact (add_nonneg (allowed precision q.value) (allowed precision' r.value)).trans_lt far
  rcases lt_or_gt_of_ne (sub_ne_zero.mp (abs_pos.mp apart)) with less | greater
  · rw [abs_of_neg (sub_neg.mpr less), neg_sub] at far
    exact comparison.holds_iff_of_lt (lt_of_mem_ofMpqPrec rounds twoLe twoLe' far tMem uMem) less
  · rw [abs_of_pos (sub_pos.mpr greater), add_comm] at far
    exact comparison.holds_iff_of_gt (lt_of_mem_ofMpqPrec rounds twoLe' twoLe far uMem tMem)
      greater

theorem settles_self_of_fits (compares : lib.ComparesBalls) (rounds : lib.RoundsRationals)
    (comparison : Comparison) {q : Mpq} {precision : ℤ} (twoLe : 2 ≤ precision)
    (fits : ∃ d : Dyadic, d.toRat = q.value ∧ d.FitsBits precision.toNat) :
    Settles lib comparison (ofMpqPrec lib q precision) (ofMpqPrec lib q precision) q.value
      q.value := by
  obtain ⟨d, isNumber, short⟩ := fits
  have single : (ofMpqPrec lib q precision).elements = {q.toEReal} := by
    rw [ofMpqPrec, rounds.setFmpq_exact q precision d twoLe isNumber short,
      elements_exact (by simp), Arf.toEReal, Dyadic.toEReal, isNumber]
    rfl
  have nonempty : (ofMpqPrec lib q precision).elements.Nonempty := by
    rw [single]
    exact Set.singleton_nonempty _
  apply settles_of_everywhere compares nonempty nonempty
  rw [single]
  rintro t rfl u rfl
  cases comparison <;> simp [Comparison.Holds]

theorem operator_self_of_not_fits (compares : lib.ComparesBalls) (rounds : lib.RoundsRationals)
    (comparison : Comparison) {q : Mpq} {precision : ℤ} (twoLe : 2 ≤ precision)
    (notFits : ¬ ∃ d : Dyadic, d.toRat = q.value ∧ d.FitsBits precision.toNat) :
    operator lib comparison (ofMpqPrec lib q precision) (ofMpqPrec lib q precision) = none := by
  obtain ⟨lower, upper, ordered, _, _, lowerMem, upperMem⟩ :=
    exists_ends_of_not_fits rounds twoLe notFits
  exact operator_eq_none_of_crossing compares comparison ⟨_, lowerMem, _, upperMem, ordered⟩
    ⟨_, lowerMem, _, lowerMem, rfl⟩ ⟨_, upperMem, _, lowerMem, ordered⟩

theorem operator_of_not_dyadic (compares : lib.ComparesBalls) (rounds : lib.RoundsRationals)
    (comparison : Comparison) {q r : Mpq} (same : q.value = r.value)
    (notDyadic : ∀ d : Dyadic, d.toRat ≠ q.value) {precision precision' : ℤ}
    (twoLe : 2 ≤ precision) (twoLe' : 2 ≤ precision') :
    operator lib comparison (ofMpqPrec lib q precision) (ofMpqPrec lib r precision') = none := by
  obtain ⟨lower, upper, _, below, above, lowerMem, upperMem⟩ :=
    exists_ends_of_not_fits rounds twoLe fun ⟨d, isNumber, _⟩ => notDyadic d isNumber
  have apart (d : Dyadic) : d.toEReal ≠ q.toEReal := by
    rw [Dyadic.toEReal, Mpq.toEReal, Ne, EReal.coe_eq_coe_iff, Rat.cast_inj]
    exact notDyadic d
  have member : q.toEReal ∈ (ofMpqPrec lib q precision).elements :=
    toEReal_mem_ofMpqPrec rounds q twoLe
  have member' : q.toEReal ∈ (ofMpqPrec lib r precision').elements := by
    rw [Mpq.toEReal, same]
    exact toEReal_mem_ofMpqPrec rounds r twoLe'
  exact operator_eq_none_of_crossing compares comparison
    ⟨_, lowerMem, _, member', below.lt_of_ne (apart lower)⟩ ⟨_, member, _, member', rfl⟩
    ⟨_, upperMem, _, member', above.lt_of_ne (apart upper).symm⟩

/-- The balls around two rational numbers are told apart by every comparison, and in the
right way, if the errors allowed by their precisions do not add up to their distance.  A
number is compared with itself exactly where it fits its precision, and with itself at
another precision never, unless it is a dyadic number. -/
theorem rational_balls_settle (compares : lib.ComparesBalls) (rounds : lib.RoundsRationals)
    (comparison : Comparison) (q r : Mpq) :
    (∀ precision precision', 2 ≤ precision → 2 ≤ precision' →
      2 ^ (2 - precision) * |q.value| + 2 ^ (2 - precision') * |r.value| < |q.value - r.value| →
        Settles lib comparison (ofMpqPrec lib q precision) (ofMpqPrec lib r precision') q.value
          r.value) ∧
    (∀ precision, 2 ≤ precision →
      ((∃ d : Dyadic, d.toRat = q.value ∧ d.FitsBits precision.toNat) →
        Settles lib comparison (ofMpqPrec lib q precision) (ofMpqPrec lib q precision) q.value
          q.value) ∧
      ((¬ ∃ d : Dyadic, d.toRat = q.value ∧ d.FitsBits precision.toNat) →
        operator lib comparison (ofMpqPrec lib q precision) (ofMpqPrec lib q precision) = none)) ∧
    (q.value = r.value → (∀ d : Dyadic, d.toRat ≠ q.value) →
      ∀ precision precision', 2 ≤ precision → 2 ≤ precision' →
        operator lib comparison (ofMpqPrec lib q precision) (ofMpqPrec lib r precision') =
          none) := by
  refine ⟨?_, ?_, ?_⟩
  · intro precision precision' twoLe twoLe' far
    exact settles_of_far compares rounds comparison twoLe twoLe' far
  · intro precision twoLe
    exact ⟨settles_self_of_fits compares rounds comparison twoLe,
      operator_self_of_not_fits compares rounds comparison twoLe⟩
  · intro same notDyadic precision precision' twoLe twoLe'
    exact operator_of_not_dyadic compares rounds comparison same notDyadic twoLe twoLe'

/-- At 64 bits, `Arb(1/3) < Arb(1/2)`. -/
theorem rational_balls_settle_third_half :
    Settles (reference .lp64) .lt (ofMpqPrec (reference .lp64) ⟨1, 3, by decide⟩ 64)
      (ofMpqPrec (reference .lp64) ⟨1, 2, by decide⟩ 64) (1 / 3) (1 / 2) := by
  have third : (⟨1, 3, by decide⟩ : Mpq).value = 1 / 3 := by norm_num [Mpq.value]
  have half : (⟨1, 2, by decide⟩ : Mpq).value = 1 / 2 := by norm_num [Mpq.value]
  rw [← third, ← half]
  apply (rational_balls_settle (reference_comparesBalls .lp64) reference_roundsRationals .lt _
    _).1 64 64 (by norm_num) (by norm_num)
  rw [third, half]
  norm_num

end Arb

end Arbxx
