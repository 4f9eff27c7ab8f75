import Arbxx.DyadicRounding

/-!
# Floating point numbers, radii and balls

The values behind the classes `Arf` and `Arb`: arbitrary precision floating
point numbers with infinities and NaN, radii with 30 mantissa bits, and balls
made of a midpoint and a radius.  A ball whose midpoint is not NaN is an
interval of extended reals.
-/

namespace Arbxx

/-- The value of an `arf_t`. -/
inductive Arf
  | finite (value : Dyadic)
  | posInf
  | negInf
  | nan
  deriving DecidableEq

namespace Arf

/-- The extended real a number stands for; NaN stands for none and is sent to
zero. -/
noncomputable def toEReal : Arf → EReal
  | .finite d => d.toEReal
  | .posInf => ⊤
  | .negInf => ⊥
  | .nan => 0

def ofInt (n : ℤ) : Arf :=
  .finite (Dyadic.ofInt n)

/-- Sign change; infinities trade places and NaN stays. -/
def neg : Arf → Arf
  | .finite d => .finite (-d)
  | .posInf => .negInf
  | .negInf => .posInf
  | .nan => .nan

@[simp]
theorem ofInt_ne_nan (n : ℤ) : ofInt n ≠ .nan := by
  simp [ofInt]

@[simp]
theorem toEReal_ofInt (n : ℤ) : (ofInt n).toEReal = ((n : ℝ) : EReal) := by
  have value : (Dyadic.ofInt n).toRat = n := Dyadic.toRat_intCast n
  simp [ofInt, toEReal, Dyadic.toEReal, value]

/-- Numbers other than NaN are determined by their place on the extended line. -/
theorem toEReal_injective {a b : Arf} (aNumber : a ≠ .nan) (bNumber : b ≠ .nan)
    (same : a.toEReal = b.toEReal) : a = b := by
  cases a <;> cases b <;>
    simp_all [toEReal, (Dyadic.toEReal_ne_top _).symm, (Dyadic.toEReal_ne_bot _).symm]

@[simp]
theorem neg_neg_eq (a : Arf) : a.neg.neg = a := by
  cases a with
  | finite d =>
      have double : - -d = d := by
        rw [← Dyadic.toRat_inj, Dyadic.toRat_neg, Dyadic.toRat_neg, neg_neg]
      simp [neg, double]
  | posInf => rfl
  | negInf => rfl
  | nan => rfl

@[simp]
theorem neg_eq_nan {a : Arf} : a.neg = .nan ↔ a = .nan := by
  cases a <;> simp [neg]

end Arf

/-- The value of a `mag_t`: an unsigned number with a mantissa of at most 30
bits, or infinity. -/
inductive Mag
  | finite (value : Dyadic) (nonneg : 0 ≤ value) (short : value.FitsBits 30)
  | inf
  deriving DecidableEq

namespace Mag

def zero : Mag :=
  .finite 0 (Dyadic.le_refl 0) (Dyadic.fitsBits_zero 30)

/-- The least radius that is at least `|q|`. -/
def above (q : ℚ) : Mag :=
  .finite (Dyadic.roundUpBits 30 |q|)
    (by
      rw [← Dyadic.toRat_le_toRat_iff]
      exact (abs_nonneg q).trans (Dyadic.le_roundUpBits 30 |q|))
    (Dyadic.fitsBits_roundUpBits (by norm_num) |q|)

def toArf : Mag → Arf
  | .finite r _ _ => .finite r
  | .inf => .posInf

end Mag

/-- The value of an `arb_t`. -/
@[ext]
structure Arb where
  mid : Arf
  rad : Mag
  deriving DecidableEq

namespace Arb

def exact (a : Arf) : Arb :=
  ⟨a, Mag.zero⟩

/-- The ball of radius one around zero. -/
def unitBall : Arb :=
  ⟨.finite 0, .finite 1 (by decide) (by decide)⟩

/-- The extended reals in a ball.  An infinite midpoint with a finite radius is
a single point, an infinite radius gives the whole line, and a ball around NaN
has no elements. -/
def elements (x : Arb) : Set EReal :=
  match x.mid, x.rad with
  | .nan, _ => ∅
  | _, .inf => Set.univ
  | .finite m, .finite r _ _ => {t | ∃ s : ℝ, t = s ∧ |s - m.toRat| ≤ r.toRat}
  | .posInf, .finite _ _ _ => {⊤}
  | .negInf, .finite _ _ _ => {⊥}

/-- The left end of a ball; a ball around NaN has its ends in the wrong order. -/
noncomputable def lower (x : Arb) : EReal :=
  match x.mid, x.rad with
  | .nan, _ => ⊤
  | _, .inf => ⊥
  | .finite m, .finite r _ _ => (m - r).toEReal
  | .posInf, .finite _ _ _ => ⊤
  | .negInf, .finite _ _ _ => ⊥

noncomputable def upper (x : Arb) : EReal :=
  match x.mid, x.rad with
  | .nan, _ => ⊥
  | _, .inf => ⊤
  | .finite m, .finite r _ _ => (m + r).toEReal
  | .posInf, .finite _ _ _ => ⊤
  | .negInf, .finite _ _ _ => ⊥

private theorem real_ball_eq_Icc (m r : Dyadic) :
    {t : EReal | ∃ s : ℝ, t = s ∧ |s - m.toRat| ≤ r.toRat} =
      Set.Icc (m - r).toEReal (m + r).toEReal := by
  ext t
  simp only [Set.mem_ofPred_eq, Set.mem_Icc, Dyadic.toEReal, Dyadic.toRat_sub, Dyadic.toRat_add,
    Rat.cast_sub, Rat.cast_add]
  constructor
  · rintro ⟨s, rfl, close⟩
    obtain ⟨above, below⟩ := abs_le.mp close
    rw [EReal.coe_le_coe_iff, EReal.coe_le_coe_iff]
    constructor <;> linarith
  · rintro ⟨above, below⟩
    induction t with
    | bot => exact (EReal.coe_ne_bot _ (le_bot_iff.mp above)).elim
    | top => exact (EReal.coe_ne_top _ (top_le_iff.mp below)).elim
    | coe s =>
        rw [EReal.coe_le_coe_iff] at above below
        exact ⟨s, rfl, abs_le.mpr ⟨by linarith, by linarith⟩⟩

/-- A ball is the closed interval between its ends. -/
theorem elements_eq_Icc (x : Arb) : x.elements = Set.Icc x.lower x.upper := by
  rcases x with ⟨mid, rad⟩
  cases mid <;> cases rad <;>
    simp [elements, lower, upper, real_ball_eq_Icc]

theorem lower_le_upper_iff (x : Arb) : x.lower ≤ x.upper ↔ x.mid ≠ .nan := by
  rcases x with ⟨mid, rad⟩
  cases mid with
  | nan => cases rad <;> simp [lower, upper]
  | posInf => cases rad <;> simp [lower, upper]
  | negInf => cases rad <;> simp [lower, upper]
  | finite m =>
      cases rad with
      | inf => simp [lower, upper]
      | finite r nonneg short =>
          rw [← Dyadic.toRat_le_toRat_iff] at nonneg
          have ordered : m - r ≤ m + r := by
            rw [← Dyadic.toRat_le_toRat_iff, Dyadic.toRat_sub, Dyadic.toRat_add]
            linarith [show (0 : Dyadic).toRat = 0 from rfl]
          simpa [lower, upper] using ordered

theorem elements_nonempty_iff (x : Arb) : x.elements.Nonempty ↔ x.mid ≠ .nan := by
  rw [elements_eq_Icc, Set.nonempty_Icc, lower_le_upper_iff]

theorem elements_eq_empty_iff (x : Arb) : x.elements = ∅ ↔ x.mid = .nan := by
  rw [← Set.not_nonempty_iff_eq_empty, elements_nonempty_iff, not_not]

/-- Among finite balls exactly those of radius zero have a single element. -/
theorem lower_eq_upper_iff {m : Dyadic} {rad : Mag} (radFinite : rad ≠ .inf) :
    (⟨.finite m, rad⟩ : Arb).lower = (⟨.finite m, rad⟩ : Arb).upper ↔ rad = Mag.zero := by
  cases rad with
  | inf => exact (radFinite rfl).elim
  | finite r nonneg short =>
      have zero_iff : m - r = m + r ↔ r = 0 := by
        rw [← Dyadic.toRat_inj, ← Dyadic.toRat_inj, Dyadic.toRat_sub, Dyadic.toRat_add,
          Dyadic.toRat_zero]
        constructor <;> intro equal <;> linarith
      simp [lower, upper, zero_iff, Mag.zero]

theorem elements_neg (x : Arb) :
    (⟨x.mid.neg, x.rad⟩ : Arb).elements = (fun t : EReal => -t) '' x.elements := by
  have ends : (⟨x.mid.neg, x.rad⟩ : Arb).lower = -x.upper ∧
      (⟨x.mid.neg, x.rad⟩ : Arb).upper = -x.lower := by
    rcases x with ⟨mid, rad⟩
    cases mid with
    | finite m =>
        cases rad with
        | inf => simp [lower, upper, Arf.neg]
        | finite r _ _ =>
            have left : -m - r = -(m + r) := by
              rw [← Dyadic.toRat_inj]
              simp only [Dyadic.toRat_sub, Dyadic.toRat_add, Dyadic.toRat_neg]
              ring
            have right : -m + r = -(m - r) := by
              rw [← Dyadic.toRat_inj]
              simp only [Dyadic.toRat_sub, Dyadic.toRat_add, Dyadic.toRat_neg]
              ring
            simp [lower, upper, Arf.neg, left, right]
    | _ => cases rad <;> simp [lower, upper, Arf.neg]
  rw [elements_eq_Icc, elements_eq_Icc, ends.1, ends.2]
  ext t
  constructor
  · rintro ⟨above, below⟩
    exact ⟨-t, ⟨EReal.le_neg_of_le_neg below, EReal.neg_le_of_neg_le above⟩, neg_neg t⟩
  · rintro ⟨s, ⟨above, below⟩, rfl⟩
    exact ⟨EReal.neg_le_neg_iff.mpr below, EReal.neg_le_neg_iff.mpr above⟩

@[simp]
theorem exact_mid (a : Arf) : (exact a).mid = a :=
  rfl

theorem lower_exact {a : Arf} (number : a ≠ .nan) : (exact a).lower = a.toEReal := by
  cases a with
  | nan => exact (number rfl).elim
  | posInf => rfl
  | negInf => rfl
  | finite m =>
      have same : m - 0 = m := by
        rw [← Dyadic.toRat_inj, Dyadic.toRat_sub, Dyadic.toRat_zero, sub_zero]
      simp [lower, exact, Mag.zero, Arf.toEReal, same]

theorem upper_exact {a : Arf} (number : a ≠ .nan) : (exact a).upper = a.toEReal := by
  cases a with
  | nan => exact (number rfl).elim
  | posInf => rfl
  | negInf => rfl
  | finite m =>
      have same : m + 0 = m := by
        rw [← Dyadic.toRat_inj, Dyadic.toRat_add, Dyadic.toRat_zero, add_zero]
      simp [upper, exact, Mag.zero, Arf.toEReal, same]

theorem elements_exact {a : Arf} (number : a ≠ .nan) : (exact a).elements = {a.toEReal} := by
  rw [elements_eq_Icc, lower_exact number, upper_exact number, Set.Icc_self]

theorem elements_of_finite {x : Arb} {m r : Dyadic} (mid : x.mid = .finite m)
    (rad : x.rad.toArf = .finite r) :
    x.elements = {t : EReal | ∃ s : ℝ, t = s ∧ |s - m.toRat| ≤ r.toRat} := by
  rcases x with ⟨_, _ | _⟩
  · cases mid
    cases rad
    rfl
  · cases rad

theorem mem_elements_iff_of_finite {x : Arb} {m r : Dyadic} (mid : x.mid = .finite m)
    (rad : x.rad.toArf = .finite r) (d : Dyadic) :
    d.toEReal ∈ x.elements ↔ |m.toRat - d.toRat| ≤ r.toRat := by
  rw [elements_of_finite mid rad, abs_sub_comm]
  constructor
  · rintro ⟨s, value, close⟩
    rw [Dyadic.toEReal, EReal.coe_eq_coe_iff] at value
    rw [← value] at close
    exact_mod_cast close
  · intro close
    exact ⟨(d.toRat : ℝ), rfl, by exact_mod_cast close⟩

theorem mid_mem_elements {x : Arb} (number : x.mid ≠ .nan) : x.mid.toEReal ∈ x.elements := by
  rcases x with ⟨mid, rad⟩
  cases rad with
  | inf => cases mid <;> simp_all [elements]
  | finite r nonneg short =>
      cases mid with
      | finite m =>
          rw [← Dyadic.toRat_le_toRat_iff] at nonneg
          have center : |m.toRat - m.toRat| ≤ r.toRat := by simpa using nonneg
          exact (mem_elements_iff_of_finite rfl rfl m).mpr center
      | _ => simp_all [elements, Arf.toEReal]

end Arb

end Arbxx
