import Mathlib.Data.Int.Order.Basic
import Mathlib.Tactic.Linarith
import Mathlib.Algebra.Order.Ring.Int

/-!
# Fixed-width machine integers

Ranges of signed and unsigned machine integers of an arbitrary width, and the
modular conversion of an integer to such a type.
-/

namespace TwosComplement

/-- A machine integer type of some positive width. -/
structure Format where
  width : ℕ
  signed : Bool
  width_pos : 0 < width
  deriving DecidableEq

namespace Format

/-- The least representable integer. -/
def minimum (format : Format) : ℤ :=
  if format.signed then -2 ^ (format.width - 1) else 0

def maximum (format : Format) : ℤ :=
  if format.signed then 2 ^ (format.width - 1) - 1 else 2 ^ format.width - 1

def InRange (format : Format) (value : ℤ) : Prop :=
  format.minimum ≤ value ∧ value ≤ format.maximum

instance (format : Format) (value : ℤ) : Decidable (format.InRange value) :=
  inferInstanceAs (Decidable (_ ∧ _))

theorem inRange_zero (format : Format) : format.InRange 0 := by
  have halfPos : (0 : ℤ) < 2 ^ (format.width - 1) := by positivity
  have fullPos : (0 : ℤ) < 2 ^ format.width := by positivity
  unfold InRange minimum maximum
  cases format.signed <;> simp only [if_true, Bool.false_eq_true, if_false] <;> omega

/-- The representable integer congruent to the given one modulo `2^width`. -/
def wrap (format : Format) (value : ℤ) : ℤ :=
  if format.signed then value.bmod (2 ^ format.width) else value % 2 ^ format.width

private theorem two_pow_width (format : Format) :
    (2 : ℤ) ^ format.width = 2 * 2 ^ (format.width - 1) := by
  rw [← pow_succ', Nat.sub_add_cancel format.width_pos]

theorem wrap_inRange (format : Format) (value : ℤ) : format.InRange (format.wrap value) := by
  have double := format.two_pow_width
  have halfPos : (0 : ℤ) < 2 ^ (format.width - 1) := by positivity
  unfold InRange wrap minimum maximum
  cases format.signed with
  | true =>
      have lower := Int.le_bmod (x := value) (m := 2 ^ format.width) (by positivity)
      have upper := Int.bmod_lt (x := value) (m := 2 ^ format.width) (by positivity)
      push_cast at lower upper
      simp only [if_true]
      omega
  | false =>
      have lower := Int.emod_nonneg value (pow_ne_zero format.width (two_ne_zero : (2 : ℤ) ≠ 0))
      have upper := Int.emod_lt_of_pos value (pow_pos (two_pos : (0 : ℤ) < 2) format.width)
      simp only [Bool.false_eq_true, if_false]
      omega

theorem wrap_of_inRange {format : Format} {value : ℤ} (inRange : format.InRange value) :
    format.wrap value = value := by
  have double := format.two_pow_width
  unfold InRange minimum maximum at inRange
  unfold wrap
  cases signedEq : format.signed with
  | true =>
      simp only [signedEq, if_true] at inRange ⊢
      apply Int.bmod_eq_of_le <;> push_cast <;> omega
  | false =>
      simp only [signedEq, Bool.false_eq_true, if_false] at inRange ⊢
      exact Int.emod_eq_of_lt inRange.1 (by omega)

def Value (format : Format) : Type :=
  { value : ℤ // format.InRange value }

instance (format : Format) : DecidableEq format.Value :=
  inferInstanceAs (DecidableEq { value : ℤ // format.InRange value })

/-- Modular conversion into a format. -/
def cast (format : Format) (value : ℤ) : format.Value :=
  ⟨format.wrap value, format.wrap_inRange value⟩

theorem cast_val_of_inRange {format : Format} {value : ℤ} (inRange : format.InRange value) :
    (format.cast value).val = value :=
  wrap_of_inRange inRange

/-- The result of an operation whose overflow is undefined. -/
def checked (format : Format) (value : ℤ) : Option format.Value :=
  if inRange : format.InRange value then some ⟨value, inRange⟩ else none

theorem checked_of_inRange {format : Format} {value : ℤ} (inRange : format.InRange value) :
    format.checked value = some ⟨value, inRange⟩ :=
  dif_pos inRange

theorem minimum_neg (format : Format) (signed : format.signed = true) : format.minimum < 0 := by
  have halfPos : (0 : ℤ) < 2 ^ (format.width - 1) := by positivity
  simp only [minimum, signed, if_true]
  omega

/-- Modular negation is negation except at the least value. -/
theorem wrap_neg_of_ne_minimum (format : Format) (signed : format.signed = true) {value : ℤ}
    (inRange : format.InRange value) (notMinimum : value ≠ format.minimum) :
    format.wrap (-value) = -value := by
  apply wrap_of_inRange
  unfold InRange minimum maximum at *
  simp only [signed, if_true] at *
  omega

theorem wrap_neg_minimum (format : Format) (signed : format.signed = true) :
    format.wrap (-format.minimum) = format.minimum := by
  have double := format.two_pow_width
  have halfPos : (0 : ℤ) < 2 ^ (format.width - 1) := by positivity
  simp only [wrap, minimum, signed, if_true, neg_neg]
  rw [Int.bmod_def, if_neg]
  all_goals push_cast
  · rw [Int.emod_eq_of_lt halfPos.le (by omega)]
    omega
  · rw [Int.emod_eq_of_lt halfPos.le (by omega)]
    omega

def Within (inner outer : Format) : Prop :=
  outer.minimum ≤ inner.minimum ∧ inner.maximum ≤ outer.maximum

instance (inner outer : Format) : Decidable (inner.Within outer) :=
  inferInstanceAs (Decidable (_ ∧ _))

theorem InRange.of_within {inner outer : Format} (within : inner.Within outer) {value : ℤ}
    (inRange : inner.InRange value) : outer.InRange value :=
  ⟨within.1.trans inRange.1, inRange.2.trans within.2⟩

/-- Widening a type without changing its signedness enlarges its range, and only
widening does. -/
theorem within_iff_width_le {inner outer : Format} (sameSign : inner.signed = outer.signed) :
    inner.Within outer ↔ inner.width ≤ outer.width := by
  have innerPos := inner.width_pos
  have outerPos := outer.width_pos
  have powLe (first second : ℕ) : (2 : ℤ) ^ first ≤ 2 ^ second ↔ first ≤ second :=
    pow_le_pow_iff_right₀ (by norm_num)
  unfold Within minimum maximum
  rw [sameSign]
  cases outer.signed with
  | true =>
      have half := powLe (inner.width - 1) (outer.width - 1)
      simp only [if_true]
      omega
  | false =>
      have full := powLe inner.width outer.width
      simp only [Bool.false_eq_true, if_false]
      omega

end Format

end TwosComplement
