import Arbxx.ArfOperators
import Arbxx.IntervalConversion
import Arbxx.NumberLibrary

/-!
# Conversions of exact balls

An exact ball converts to its midpoint, to the pair of its bounds and back.  The
three conversions round to different precisions, and on exact balls none of them
loses anything.
-/

namespace Arbxx

namespace CLibrary

variable {model : DataModel} (lib : CLibrary model)

/-- Accuracy of exact balls, and conversion between a ball and its two ends at the
precision that does not round. -/
structure ConvertsExactly : Prop where
  accuracy_number : ∀ a, a ≠ .nan → lib.arbRelAccuracyBits (Arb.exact a) = lib.arfPrecExact
  getInterval_finite : ∀ m r nonneg short,
    lib.arbGetIntervalArf ⟨.finite m, .finite r nonneg short⟩ lib.arfPrecExact =
      (.finite (m - r), .finite (m + r))
  getInterval_infinite : ∀ a r nonneg short, a = .posInf ∨ a = .negInf →
    lib.arbGetIntervalArf ⟨a, .finite r nonneg short⟩ lib.arfPrecExact = (a, a)
  setInterval_mid : ∀ a b m : Dyadic, a ≤ b → m.toRat = (a.toRat + b.toRat) / 2 →
    (lib.arbSetIntervalArf (.finite a) (.finite b) lib.arfPrecExact).mid = .finite m
  setInterval_rad : ∀ a : Dyadic,
    (lib.arbSetIntervalArf (.finite a) (.finite a) lib.arfPrecExact).rad = Mag.zero
  setInterval_infinite : ∀ a, a = .posInf ∨ a = .negInf →
    lib.arbSetIntervalArf a a lib.arfPrecExact = Arb.exact a

theorem reference_convertsExactly (model : DataModel) : (reference model).ConvertsExactly where
  accuracy_number a number := by
    cases a with
    | nan => exact (number rfl).elim
    | _ => rfl
  getInterval_finite _ _ _ _ := rfl
  getInterval_infinite a _ _ _ infinite := by
    rcases infinite with rfl | rfl <;> rfl
  setInterval_mid a b m _ midpoint := by
    have half : Arb.half (a + b) = m := by
      rw [← Dyadic.toRat_inj, Arb.toRat_half, Dyadic.toRat_add, midpoint]
    change Arf.finite (Arb.half (a + b)) = .finite m
    rw [half]
  setInterval_rad a := by
    change Mag.above ((a.toRat - a.toRat) / 2) = Mag.zero
    rw [sub_self, zero_div]
    decide +kernel
  setInterval_infinite a infinite := by
    rcases infinite with rfl | rfl <;> rfl

end CLibrary

namespace Arb

open CLibrary

variable {model : DataModel} (lib : CLibrary model) (numbers : NumberLibrary model)

/-- `Arb::operator Arf`. -/
def toArf (self : Arb) : Arf :=
  numbers.arfSet self.mid

/-- Conversion to the pair of bounds and back. -/
def throughBounds (self : Arb) : Arb :=
  ofBounds lib (toBounds lib self)

variable {lib numbers}

/-- The bounds of an exact ball are its midpoint. -/
theorem toBounds_exact (converts : lib.ConvertsExactly) {a : Arf} (number : a ≠ .nan) :
    toBounds lib (exact a) = (a, a) := by
  rw [toBounds, boundsPrecision, converts.accuracy_number a number]
  cases a with
  | nan => exact (number rfl).elim
  | posInf => exact converts.getInterval_infinite .posInf _ _ _ (.inl rfl)
  | negInf => exact converts.getInterval_infinite .negInf _ _ _ (.inr rfl)
  | finite m =>
      have lower : m - 0 = m := by
        rw [← Dyadic.toRat_inj, Dyadic.toRat_sub, Dyadic.toRat_zero, sub_zero]
      have upper : m + 0 = m := Dyadic.add_zero m
      rw [exact, Mag.zero, converts.getInterval_finite, lower, upper]

/-- Equal bounds make an exact ball. -/
theorem ofBounds_same (converts : lib.ConvertsExactly) {a : Arf} (number : a ≠ .nan) :
    ofBounds lib (a, a) = exact a := by
  rw [ofBounds, ofBoundsPrec]
  cases a with
  | nan => exact (number rfl).elim
  | posInf => exact converts.setInterval_infinite .posInf (.inl rfl)
  | negInf => exact converts.setInterval_infinite .negInf (.inr rfl)
  | finite m =>
      have middle : m.toRat = (m.toRat + m.toRat) / 2 := by ring
      apply Arb.ext
      · exact converts.setInterval_mid m m m (Dyadic.le_refl m) middle
      · exact converts.setInterval_rad m

theorem throughBounds_exact (converts : lib.ConvertsExactly) {a : Arf} (number : a ≠ .nan) :
    throughBounds lib (exact a) = exact a := by
  rw [throughBounds, toBounds_exact converts number, ofBounds_same converts number]

theorem eq_exact_of_isExact (handles : lib.HandlesBalls) {x : Arb}
    (isExact : isExact lib x = true) : x = exact x.mid :=
  Arb.ext rfl ((handles.isExact_iff x).mp isExact)

/-- An exact ball converts to its midpoint and to equal bounds, is made again from
them, and stays the same however often it is converted to bounds and back. -/
theorem exact_conversions_lossless (compares : lib.ComparesFloats) (handles : lib.HandlesBalls)
    (copies : numbers.Copies) (converts : lib.ConvertsExactly) :
    (∀ a : Arf, a ≠ .nan →
      Arf.operatorEqual lib (toArf numbers (ofArf lib a)) a = true ∧
      toBounds lib (ofArf lib a) = (a, a) ∧
      equal lib (ofBounds lib (a, a)) (ofArf lib a) = true) ∧
    (∀ x : Arb, isExact lib x = true → x.mid ≠ .nan →
      equal lib (throughBounds lib x) x = true ∧
        ∀ count : ℕ, equal lib ((throughBounds lib)^[count] x) x = true) := by
  constructor
  · intro a number
    rw [ofArf, handles.setArf_eq, toArf, copies.arfSet_eq]
    refine ⟨(compares.equal_iff a a).mpr rfl, toBounds_exact converts number, ?_⟩
    rw [ofBounds_same converts number]
    exact (handles.equal_iff _ _).mpr rfl
  · intro x isExact number
    have fixed : throughBounds lib x = x := by
      rw [eq_exact_of_isExact handles isExact]
      exact throughBounds_exact converts number
    refine ⟨(handles.equal_iff _ _).mpr fixed, ?_⟩
    intro count
    have unchanged := Function.iterate_fixed fixed count
    exact (handles.equal_iff _ _).mpr unchanged

theorem exact_conversions_lossless_third :
    toBounds (reference .lp64) (ofArf (reference .lp64)
        (.finite (Dyadic.ofIntWithPrec (3 ^ 100) 7))) =
      (.finite (Dyadic.ofIntWithPrec (3 ^ 100) 7), .finite (Dyadic.ofIntWithPrec (3 ^ 100) 7)) :=
  ((exact_conversions_lossless (reference_comparesFloats .lp64)
    (reference_handlesBalls .lp64) (NumberLibrary.reference_copies .lp64)
    (reference_convertsExactly .lp64)).1 _ (by simp)).2.1

end Arb

end Arbxx
