import Arbxx.ArfDecomposition
import Arbxx.Doubles
import Arbxx.PaddedText

/-!
# Printing `Arf`

`operator<<` writes zero and the special values as words, integers as the nearest
`double`, and every other number as the nearest `double` followed by the exact
mantissa and exponent.  Integers are told apart by the digits of their nearest doubles
that the stream shows, and an infinite `double` passes for an infinity.
-/

namespace Arbxx

open NearestRounding PaddedText RadixNumerals

/-- What is written to a stream at once. -/
inductive Item
  | int (value : ℤ)
  | string (text : List Char)
  | double (value : Double)
  | mpz (value : ℤ)

/-- A stream in some formatting state: how it fills up its next item, how many
significant digits of a `double` it shows, with no limit if it shows all digits of an
integer, and the texts of numbers before they are filled up. -/
structure OutputStream where
  width : ℕ
  fill : Char
  adjustment : Adjustment
  digits : Option ℕ
  intText : ℤ → List Char
  doubleText : Double → List Char
  mpzText : ℤ → List Char

namespace OutputStream

variable (out : OutputStream)

def text : Item → List Char
  | .int value => out.intText value
  | .string text => text
  | .double value => out.doubleText value
  | .mpz value => out.mpzText value

/-- A string has no sign to be filled up behind, and is filled up in front. -/
def place : Item → Adjustment
  | .string _ => if out.adjustment = .internal then .right else out.adjustment
  | _ => out.adjustment

/-- The text of an item, filled up to the width. -/
def field (item : Item) : List Char :=
  pad out.width out.fill (out.place item) (out.text item)

/-- The first item resets the width. -/
def write : List Item → List Char
  | [] => []
  | first :: rest => out.field first ++ (rest.map out.text).flatten

end OutputStream

/-- The characters of the infinity sign in UTF-8. -/
def infinitySign : List Char :=
  ['\xe2', '\x88', '\x9e']

namespace Arf

variable {model : DataModel} (numbers : NumberLibrary model) (doubles : DoubleLibrary)
  (out : OutputStream)

/-- `operator<<(std::ostream&, const Arf&)`. -/
def output (self : Arf) : List Char :=
  if self = .finite 0 then out.write [.int 0]
  else if self = .posInf then out.write [.string ('+' :: infinitySign)]
  else if self = .negInf then out.write [.string ('-' :: infinitySign)]
  else if self = .nan then out.write [.string ['N', 'a', 'N']]
  else if exponent numbers self ≥ 0 then out.write [.double (toDouble doubles self)]
  else
    out.write [.double (toDouble doubles self), .string ['='], .mpz (mantissa numbers self),
      .string ['p'], .mpz (exponent numbers self)]

end Arf

/-! ### What is known of a stream -/

namespace OutputStream

variable (out : OutputStream)

/-- What the stream shows of a `double` that is an integer. -/
def shown (value : ℚ) : ℚ :=
  match out.digits with
  | none => value
  | some digits => roundDecimal digits value

/-- The text of zero, or of a `double` that is another integer. -/
def IsNumberText (text : List Char) : Prop :=
  text = out.intText 0 ∨
    ∃ (x : Double) (k : ℤ), k ≠ 0 ∧ x.toArf = Arf.ofInt k ∧ text = out.doubleText x

/-- The text of a special `Arf`, or of an infinite `double`. -/
def IsSpecialText (text : List Char) : Prop :=
  text ∈ ['+' :: infinitySign, '-' :: infinitySign, ['N', 'a', 'N'], out.doubleText .posInf,
    out.doubleText .negInf]

/-- An `mpz_class` is written in full, and a `double` that is an integer with the digits
that are shown.  The texts of numbers and of special values have no equality signs in them
and are unlike each other, and none ends like a number with a negative exponent. -/
structure WritesNumbers : Prop where
  mpzText_injective : Function.Injective out.mpzText
  p_notMem_mpzText : ∀ n, 'p' ∉ out.mpzText n
  equals_notMem_mpzText : ∀ n, '=' ∉ out.mpzText n
  doubleText_eq_iff : ∀ (x y : Double) (m n : ℤ), m ≠ 0 → n ≠ 0 → x.toArf = Arf.ofInt m →
    y.toArf = Arf.ofInt n → (out.doubleText x = out.doubleText y ↔ out.shown m = out.shown n)
  doubleText_ne_intText : ∀ (x : Double) (k : ℤ), k ≠ 0 → x.toArf = Arf.ofInt k →
    out.doubleText x ≠ out.intText 0
  startsPlainly : ∀ text, out.IsNumberText text → StartsPlainly text
  unlike : ∀ text special, out.IsNumberText text → out.IsSpecialText special →
    Unlike text special
  equals_notMem : ∀ text, out.IsNumberText text ∨ out.IsSpecialText text → '=' ∉ text
  not_suffix : ∀ text, out.IsNumberText text ∨ out.IsSpecialText text → ∀ m e, e < 0 →
    ¬ (out.mpzText m ++ 'p' :: out.mpzText e) <:+ text

/-- The text that an integer is written as before it is filled up. -/
def numberText (n : ℤ) : List Char :=
  if n = 0 then out.intText 0 else out.doubleText (.rounding (Dyadic.ofInt n))

/-- A text that is written for an infinite `Arf` or an infinite `double`. -/
def LooksInfinite (text : List Char) : Prop :=
  text ∈ [out.field (.string ('+' :: infinitySign)), out.field (.string ('-' :: infinitySign)),
    out.field (.double .posInf), out.field (.double .negInf)]

end OutputStream

namespace Arf

variable {model : DataModel} (numbers : NumberLibrary model) (doubles : DoubleLibrary)
  (out : OutputStream)

/-- What is promised about the texts of two elements: they differ, and no finite
number passes for an infinity. -/
structure PrintedApart (x y : Arf) : Prop where
  texts : output numbers doubles out x ≠ output numbers doubles out y
  left_not_infinite : ∀ d, x = .finite d → ¬ out.LooksInfinite (output numbers doubles out x)
  right_not_infinite : ∀ d, y = .finite d → ¬ out.LooksInfinite (output numbers doubles out y)

/-- An integer that is rounded to an infinite `double`. -/
def Overflows (x : Arf) : Prop :=
  ∃ n : ℤ, x = ofInt n ∧ 2 ^ 1024 - 2 ^ 970 ≤ |n|

/-- Integers other than zero of which the stream shows the same, once they are rounded to
53 bits. -/
def ShownAlike (x y : Arf) : Prop :=
  ∃ m n : ℤ, m ≠ 0 ∧ n ≠ 0 ∧ x = ofInt m ∧ y = ofInt n ∧
    out.shown (roundFloat 53 (-1074) m).toRat = out.shown (roundFloat 53 (-1074) n).toRat

/-- Integers of which one has the text of the other one filled up to its length. -/
def FilledAlike (x y : Arf) : Prop :=
  ∃ m n : ℤ, x = ofInt m ∧ y = ofInt n ∧
    (PadsTo out.width out.fill out.adjustment (out.numberText m) (out.numberText n) ∨
      PadsTo out.width out.fill out.adjustment (out.numberText n) (out.numberText m))

variable {numbers doubles out}

theorem not_fractional_ofInt (decomposes : numbers.Decomposes) (n : ℤ) :
    ¬ exponent numbers (ofInt n) < 0 := by
  rw [ofInt, exponent_finite decomposes, not_lt]
  exact Dyadic.exists_eq_ofInt_iff.mp ⟨n, rfl⟩

theorem output_ofInt (decomposes : numbers.Decomposes) (rounds : doubles.RoundsHalfEven) (n : ℤ) :
    output numbers doubles out (ofInt n) =
      pad out.width out.fill out.adjustment (out.numberText n) := by
  have write_one (item : Item) : out.write [item] = out.field item := by
    simp [OutputStream.write]
  by_cases zero : n = 0
  · have isZero : ofInt 0 = .finite 0 := by decide
    rw [zero, isZero, output, if_pos rfl, write_one, OutputStream.numberText, if_pos rfl]
    rfl
  · have nonzero : Dyadic.ofInt n ≠ 0 := by
      intro isZero
      have value : (Dyadic.ofInt n).toRat = n := Dyadic.toRat_intCast n
      rw [isZero, Dyadic.toRat_zero] at value
      exact zero (by exact_mod_cast value.symm)
    have integral := not_lt.mp (not_fractional_ofInt decomposes n)
    rw [output, if_neg (by simpa [ofInt] using nonzero), if_neg (by simp [ofInt]),
      if_neg (by simp [ofInt]), if_neg (by simp), if_pos integral, write_one,
      OutputStream.numberText, if_neg zero, toDouble, ofInt, rounds.arfGetD_eq]
    rfl

theorem output_fractional {x : Arf} (regular : x.IsRegular)
    (fractional : exponent numbers x < 0) :
    output numbers doubles out x = out.field (.double (toDouble doubles x)) ++
      '=' :: (out.mpzText (mantissa numbers x) ++ 'p' :: out.mpzText (exponent numbers x)) := by
  cases x with
  | finite d =>
      have nonzero : d ≠ 0 := regular
      simp [output, nonzero, fractional.not_ge, OutputStream.write, OutputStream.text]
  | _ => exact regular.elim

/-- The word that a special value is written as. -/
def word : Arf → List Char
  | .finite _ => []
  | .posInf => '+' :: infinitySign
  | .negInf => '-' :: infinitySign
  | .nan => ['N', 'a', 'N']

theorem output_special {x : Arf} (special : ∀ d, x ≠ .finite d) :
    output numbers doubles out x = out.field (.string x.word) := by
  cases x with
  | finite d => exact (special d rfl).elim
  | _ => simp [output, OutputStream.write, word]

/-- Every element is an integer, a number with a negative exponent, or special. -/
theorem output_cases (decomposes : numbers.Decomposes) (x : Arf) :
    (∃ n, x = ofInt n) ∨ (x.IsRegular ∧ exponent numbers x < 0) ∨ ∀ d, x ≠ .finite d := by
  cases x with
  | finite d =>
      rcases le_or_gt 0 d.twoExponent with whole | fractional
      · obtain ⟨n, rfl⟩ := Dyadic.exists_eq_ofInt_iff.mpr whole
        exact .inl ⟨n, rfl⟩
      · refine .inr (.inl ⟨?_, by rwa [exponent_finite decomposes]⟩)
        rintro rfl
        exact absurd fractional (by decide)
  | posInf | negInf | nan => exact .inr (.inr (by simp))

end Arf

/-! ### The texts of integers -/

namespace OutputStream

variable {out : OutputStream}

/-- Integers that do not overflow have the text of a number. -/
theorem isNumberText_numberText {n : ℤ} (small : |n| < 2 ^ 1024 - 2 ^ 970) :
    out.IsNumberText (out.numberText n) := by
  by_cases zero : n = 0
  · exact .inl (if_pos zero)
  · obtain ⟨k, nonzero, _, value⟩ := DoubleLibrary.rounding_ofInt_finite zero small
    exact .inr ⟨_, k, nonzero, value, if_neg zero⟩

theorem isSpecialText_word {x : Arf} (special : ∀ d, x ≠ .finite d) :
    out.IsSpecialText x.word := by
  cases x with
  | finite d => exact (special d rfl).elim
  | _ => simp [IsSpecialText, Arf.word]

/-- The others have the text of an infinite `double`. -/
theorem numberText_of_large (out : OutputStream) {n : ℤ} (large : 2 ^ 1024 - 2 ^ 970 ≤ |n|) :
    out.numberText n = out.doubleText .posInf ∨ out.numberText n = out.doubleText .negInf := by
  have nonzero : n ≠ 0 := by
    rintro rfl
    have thresholdPos : (0 : ℤ) < 2 ^ 1024 - 2 ^ 970 :=
      sub_pos.mpr (pow_lt_pow_right₀ one_lt_two (by norm_num))
    rw [abs_zero] at large
    exact thresholdPos.not_ge large
  rw [numberText, if_neg nonzero]
  rcases DoubleLibrary.rounding_ofInt_infinite large with isInfinite | isInfinite
  · exact .inl (congrArg out.doubleText isInfinite)
  · exact .inr (congrArg out.doubleText isInfinite)

theorem isSpecialText_numberText {n : ℤ} (large : 2 ^ 1024 - 2 ^ 970 ≤ |n|) :
    out.IsSpecialText (out.numberText n) := by
  rcases out.numberText_of_large large with same | same
  · simp [IsSpecialText, same]
  · simp [IsSpecialText, same]

theorem looksInfinite_numberText {n : ℤ} (large : 2 ^ 1024 - 2 ^ 970 ≤ |n|) :
    out.LooksInfinite (pad out.width out.fill out.adjustment (out.numberText n)) := by
  rcases out.numberText_of_large large with same | same
  · simp [LooksInfinite, same, field, place, text]
  · simp [LooksInfinite, same, field, place, text]

theorem LooksInfinite.exists_special {padded : List Char} (looks : out.LooksInfinite padded) :
    ∃ text adjustment, out.IsSpecialText text ∧
      padded = pad out.width out.fill adjustment text := by
  simp only [LooksInfinite, List.mem_cons, List.not_mem_nil, or_false] at looks
  rcases looks with rfl | rfl | rfl | rfl
  all_goals exact ⟨_, _, by simp [IsSpecialText, text], rfl⟩

/-- Different integers have the same text if they are shown alike. -/
theorem numberText_eq_iff (writes : out.WritesNumbers) {m n : ℤ} (different : m ≠ n)
    (mSmall : |m| < 2 ^ 1024 - 2 ^ 970) (nSmall : |n| < 2 ^ 1024 - 2 ^ 970) :
    out.numberText m = out.numberText n ↔ m ≠ 0 ∧ n ≠ 0 ∧
      out.shown (roundFloat 53 (-1074) m).toRat = out.shown (roundFloat 53 (-1074) n).toRat := by
  by_cases mZero : m = 0
  · have nZero : n ≠ 0 := fun nZero => different (mZero.trans nZero.symm)
    obtain ⟨k, nonzero, _, value⟩ := DoubleLibrary.rounding_ofInt_finite nZero nSmall
    have texts := writes.doubleText_ne_intText _ k nonzero value
    simp [numberText, mZero, nZero, texts.symm]
  · obtain ⟨k, nonzero, rounded, value⟩ := DoubleLibrary.rounding_ofInt_finite mZero mSmall
    by_cases nZero : n = 0
    · have texts := writes.doubleText_ne_intText _ k nonzero value
      simp [numberText, mZero, nZero, texts]
    · obtain ⟨l, nonzero', rounded', value'⟩ := DoubleLibrary.rounding_ofInt_finite nZero nSmall
      rw [numberText, if_neg mZero, numberText, if_neg nZero,
        writes.doubleText_eq_iff _ _ k l nonzero nonzero' value value', rounded, rounded']
      simp [mZero, nZero]

/-- The exact part of a text is not the end of a text that is filled up. -/
theorem pad_ne_append_exact (writes : out.WritesNumbers) {text : List Char}
    (single : out.IsNumberText text ∨ out.IsSpecialText text) (adjustment : Adjustment)
    (front : List Char) (m : ℤ) {e : ℤ} (negative : e < 0) :
    pad out.width out.fill adjustment text ≠
      front ++ '=' :: (out.mpzText m ++ 'p' :: out.mpzText e) := by
  intro same
  have absent : '=' ∉ out.mpzText m ++ 'p' :: out.mpzText e := by
    simp [writes.equals_notMem_mpzText]
  exact writes.not_suffix text single m e negative
    (suffix_of_pad_eq (writes.equals_notMem text single) absent same)

end OutputStream

namespace Arf

variable {model : DataModel} {numbers : NumberLibrary model} {doubles : DoubleLibrary}
  {out : OutputStream}

/-- Different special values are written as words unlike each other. -/
theorem word_unlike {x y : Arf} (different : x ≠ y) (xSpecial : ∀ d, x ≠ .finite d)
    (ySpecial : ∀ d, y ≠ .finite d) : Unlike x.word y.word := by
  have posNeg : Unlike (word .posInf) (word .negInf) :=
    ⟨⟨'+', by decide, by decide⟩, '-', by decide, by decide⟩
  have posNan : Unlike (word .posInf) (word .nan) :=
    ⟨⟨'+', by decide, by decide⟩, 'N', by decide, by decide⟩
  have negNan : Unlike (word .negInf) (word .nan) :=
    ⟨⟨'-', by decide, by decide⟩, 'N', by decide, by decide⟩
  cases x with
  | finite d => exact (xSpecial d rfl).elim
  | posInf | negInf | nan =>
      cases y with
      | finite d => exact (ySpecial d rfl).elim
      | posInf | negInf | nan =>
          first
          | exact (different rfl).elim
          | assumption
          | exact posNeg.symm
          | exact posNan.symm
          | exact negNan.symm

theorem eq_of_parts (decomposes : numbers.Decomposes) {x y : Arf} (xRegular : x.IsRegular)
    (yRegular : y.IsRegular) (mantissas : mantissa numbers x = mantissa numbers y)
    (exponents : exponent numbers x = exponent numbers y) : x = y := by
  cases x with
  | finite d =>
      cases y with
      | finite e =>
          rw [mantissa_finite decomposes, mantissa_finite decomposes] at mantissas
          rw [exponent_finite decomposes, exponent_finite decomposes] at exponents
          rw [← Dyadic.ofIntWithPrec_mantissa d, ← Dyadic.ofIntWithPrec_mantissa e, mantissas,
            exponents]
      | _ => exact yRegular.elim
  | _ => exact xRegular.elim

/-- The exact part of the text determines the number. -/
theorem eq_of_output_fractional (writes : out.WritesNumbers) (decomposes : numbers.Decomposes)
    {x y : Arf} (xRegular : x.IsRegular) (xFractional : exponent numbers x < 0)
    (yRegular : y.IsRegular) (yFractional : exponent numbers y < 0)
    (same : output numbers doubles out x = output numbers doubles out y) : x = y := by
  have absent (m e : ℤ) : '=' ∉ out.mpzText m ++ 'p' :: out.mpzText e := by
    simp [writes.equals_notMem_mpzText]
  rw [output_fractional xRegular xFractional, output_fractional yRegular yFractional] at same
  have parts := congrArg (splitFirst 'p') (eq_of_append_separator (absent _ _) (absent _ _) same)
  rw [splitFirst_append (writes.p_notMem_mpzText _),
    splitFirst_append (writes.p_notMem_mpzText _), Option.some.injEq, Prod.mk.injEq] at parts
  exact eq_of_parts decomposes xRegular yRegular (writes.mpzText_injective parts.1)
    (writes.mpzText_injective parts.2)

/-- What has no exact part is a single text that is filled up. -/
theorem output_single (decomposes : numbers.Decomposes) (rounds : doubles.RoundsHalfEven) {x : Arf}
    (single : ¬ (x.IsRegular ∧ exponent numbers x < 0)) :
    ∃ text adjustment, (out.IsNumberText text ∨ out.IsSpecialText text) ∧
      output numbers doubles out x = pad out.width out.fill adjustment text := by
  rcases output_cases decomposes x with ⟨n, rfl⟩ | fractional | special
  · refine ⟨_, _, ?_, output_ofInt decomposes rounds n⟩
    rcases lt_or_ge |n| (2 ^ 1024 - 2 ^ 970) with small | large
    · exact .inl (OutputStream.isNumberText_numberText small)
    · exact .inr (OutputStream.isSpecialText_numberText large)
  · exact (single fractional).elim
  · exact ⟨_, _, .inr (OutputStream.isSpecialText_word special), output_special special⟩

theorem output_ne_of_fractional (writes : out.WritesNumbers) (decomposes : numbers.Decomposes)
    (rounds : doubles.RoundsHalfEven) {x y : Arf}
    (xSingle : ¬ (x.IsRegular ∧ exponent numbers x < 0))
    (yFractional : y.IsRegular ∧ exponent numbers y < 0) :
    output numbers doubles out x ≠ output numbers doubles out y := by
  obtain ⟨text, adjustment, single, isPadded⟩ := output_single decomposes rounds xSingle
  rw [isPadded, output_fractional yFractional.1 yFractional.2]
  exact OutputStream.pad_ne_append_exact writes single adjustment _ _ yFractional.2

theorem output_ofInt_ne_special (writes : out.WritesNumbers) (decomposes : numbers.Decomposes)
    (rounds : doubles.RoundsHalfEven) {n : ℤ} (small : |n| < 2 ^ 1024 - 2 ^ 970)
    {text : List Char} (special : out.IsSpecialText text) (adjustment : Adjustment) :
    output numbers doubles out (ofInt n) ≠ pad out.width out.fill adjustment text := by
  rw [output_ofInt decomposes rounds]
  exact (writes.unlike _ _ (OutputStream.isNumberText_numberText small) special).pad_ne _ _

theorem lt_of_not_overflows {n : ℤ} (small : ¬ Overflows (ofInt n)) :
    |n| < 2 ^ 1024 - 2 ^ 970 := by
  by_contra large
  exact small ⟨n, rfl, not_lt.mp large⟩

/-- Nothing is written like an element that is no integer. -/
theorem output_ne_of_not_integer (writes : out.WritesNumbers) (decomposes : numbers.Decomposes)
    (rounds : doubles.RoundsHalfEven) {x y : Arf} (different : x ≠ y)
    (notInteger : ¬ ∃ n, x = ofInt n) (ySmall : ¬ Overflows y) :
    output numbers doubles out x ≠ output numbers doubles out y := by
  by_cases xFractional : x.IsRegular ∧ exponent numbers x < 0
  · by_cases yFractional : y.IsRegular ∧ exponent numbers y < 0
    · exact fun same => different (eq_of_output_fractional writes decomposes xFractional.1
        xFractional.2 yFractional.1 yFractional.2 same)
    · exact (output_ne_of_fractional writes decomposes rounds yFractional xFractional).symm
  · have xSpecial := ((output_cases decomposes x).resolve_left notInteger).resolve_left xFractional
    have wordSpecial : out.IsSpecialText x.word := OutputStream.isSpecialText_word xSpecial
    rcases output_cases decomposes y with ⟨n, rfl⟩ | yFractional | ySpecial
    · rw [output_special xSpecial]
      exact (output_ofInt_ne_special writes decomposes rounds (lt_of_not_overflows ySmall)
        wordSpecial _).symm
    · exact output_ne_of_fractional writes decomposes rounds xFractional yFractional
    · rw [output_special xSpecial, output_special ySpecial]
      exact (word_unlike different xSpecial ySpecial).pad_ne _ _

theorem ofInt_inj {m n : ℤ} : ofInt m = ofInt n ↔ m = n := by
  have toRat (k : ℤ) : (Dyadic.ofInt k).toRat = k := Dyadic.toRat_intCast k
  rw [ofInt, ofInt, Arf.finite.injEq, ← Dyadic.toRat_inj, toRat, toRat, Int.cast_inj]

/-- Two elements that are not written as infinities are written alike exactly if they are
shown alike, or filled up to the same. -/
theorem output_eq_iff (writes : out.WritesNumbers) (decomposes : numbers.Decomposes)
    (rounds : doubles.RoundsHalfEven) {x y : Arf} (different : x ≠ y)
    (xSmall : ¬ Overflows x) (ySmall : ¬ Overflows y) :
    output numbers doubles out x = output numbers doubles out y ↔
      ShownAlike out x y ∨ FilledAlike out x y := by
  by_cases xInteger : ∃ n, x = ofInt n
  · by_cases yInteger : ∃ n, y = ofInt n
    · obtain ⟨m, rfl⟩ := xInteger
      obtain ⟨n, rfl⟩ := yInteger
      have mSmall := lt_of_not_overflows xSmall
      have nSmall := lt_of_not_overflows ySmall
      have distinct : m ≠ n := fun same => different (ofInt_inj.mpr same)
      have plain {k : ℤ} (small : |k| < 2 ^ 1024 - 2 ^ 970) : StartsPlainly (out.numberText k) :=
        writes.startsPlainly _ (OutputStream.isNumberText_numberText small)
      rw [output_ofInt decomposes rounds, output_ofInt decomposes rounds,
        pad_eq_pad_iff (plain mSmall) (plain nSmall),
        OutputStream.numberText_eq_iff writes distinct mSmall nSmall]
      simp [ShownAlike, FilledAlike, ofInt_inj]
    · have apart : output numbers doubles out y ≠ output numbers doubles out x :=
        output_ne_of_not_integer writes decomposes rounds different.symm yInteger xSmall
      constructor
      · exact fun same => (apart same.symm).elim
      · rintro (⟨_, n, _, _, _, isInteger, _⟩ | ⟨_, n, _, isInteger, _⟩)
        · exact (yInteger ⟨n, isInteger⟩).elim
        · exact (yInteger ⟨n, isInteger⟩).elim
  · have apart : output numbers doubles out x ≠ output numbers doubles out y :=
      output_ne_of_not_integer writes decomposes rounds different xInteger ySmall
    constructor
    · exact fun same => (apart same).elim
    · rintro (⟨m, _, _, _, isInteger, _⟩ | ⟨m, _, isInteger, _⟩)
      · exact (xInteger ⟨m, isInteger⟩).elim
      · exact (xInteger ⟨m, isInteger⟩).elim

/-- A finite number is written as an infinity exactly if it is an integer that overflows. -/
theorem looksInfinite_output_iff (writes : out.WritesNumbers) (decomposes : numbers.Decomposes)
    (rounds : doubles.RoundsHalfEven) (d : Dyadic) :
    out.LooksInfinite (output numbers doubles out (.finite d)) ↔ Overflows (.finite d) := by
  constructor
  · intro looks
    obtain ⟨text, adjustment, special, same⟩ := looks.exists_special
    by_contra small
    rcases output_cases decomposes (.finite d) with ⟨n, isInteger⟩ | fractional | notFinite
    · rw [isInteger] at small same
      exact output_ofInt_ne_special writes decomposes rounds (lt_of_not_overflows small) special
        adjustment same
    · rw [output_fractional fractional.1 fractional.2] at same
      exact OutputStream.pad_ne_append_exact writes (.inr special) adjustment _ _ fractional.2
        same.symm
    · exact notFinite d rfl
  · rintro ⟨n, isInteger, large⟩
    rw [isInteger, output_ofInt decomposes rounds]
    exact OutputStream.looksInfinite_numberText large

theorem not_infinite_iff (writes : out.WritesNumbers) (decomposes : numbers.Decomposes)
    (rounds : doubles.RoundsHalfEven) (x : Arf) :
    (∀ d, x = .finite d → ¬ out.LooksInfinite (output numbers doubles out x)) ↔
      ¬ Overflows x := by
  cases x with
  | finite d =>
      rw [← looksInfinite_output_iff writes decomposes rounds d]
      exact ⟨fun promised => promised d rfl, fun apart _ _ => apart⟩
  | posInf | negInf | nan =>
      refine ⟨fun _ overflows => ?_, fun _ d isFinite => by cases isFinite⟩
      obtain ⟨n, isInteger, _⟩ := overflows
      cases isInteger

/-- Nothing is filled up without a width, or with a character that no text has. -/
theorem not_filledAlike {x y : Arf}
    (harmless : out.width = 0 ∨ ∀ n, out.fill ∉ out.numberText n) : ¬ FilledAlike out x y := by
  have never (m n : ℤ) :
      ¬ PadsTo out.width out.fill out.adjustment (out.numberText m) (out.numberText n) := by
    intro pads
    rcases harmless with noWidth | notFill
    · have shorter := pads.shorter
      have fits := pads.fits
      omega
    · exact notFill n pads.fill_mem
  rintro ⟨m, n, _, _, pads | pads⟩
  · exact never m n pads
  · exact never n m pads

/-- The texts of two different elements tell them apart exactly if they are not integers
that are shown alike or filled up to the same, and neither is an integer that overflows.
Without a width, or with a fill character that no integer is written with, none are filled
up to the same. -/
theorem printedApart_iff (writes : out.WritesNumbers) (decomposes : numbers.Decomposes)
    (rounds : doubles.RoundsHalfEven) {x y : Arf} (different : x ≠ y) :
    (PrintedApart numbers doubles out x y ↔
      ¬ ShownAlike out x y ∧ ¬ FilledAlike out x y ∧ ¬ Overflows x ∧ ¬ Overflows y) ∧
    ((out.width = 0 ∨ ∀ n, out.fill ∉ out.numberText n) →
      (PrintedApart numbers doubles out x y ↔
        ¬ ShownAlike out x y ∧ ¬ Overflows x ∧ ¬ Overflows y)) := by
  have apart_iff : PrintedApart numbers doubles out x y ↔
      ¬ ShownAlike out x y ∧ ¬ FilledAlike out x y ∧ ¬ Overflows x ∧ ¬ Overflows y := by
    constructor
    · intro apart
      have xSmall := (not_infinite_iff writes decomposes rounds x).mp apart.left_not_infinite
      have ySmall := (not_infinite_iff writes decomposes rounds y).mp apart.right_not_infinite
      have texts := apart.texts
      rw [ne_eq, output_eq_iff writes decomposes rounds different xSmall ySmall, not_or] at texts
      exact ⟨texts.1, texts.2, xSmall, ySmall⟩
    · rintro ⟨notShown, notFilled, xSmall, ySmall⟩
      refine ⟨?_, (not_infinite_iff writes decomposes rounds x).mpr xSmall,
        (not_infinite_iff writes decomposes rounds y).mpr ySmall⟩
      rw [ne_eq, output_eq_iff writes decomposes rounds different xSmall ySmall, not_or]
      exact ⟨notShown, notFilled⟩
  refine ⟨apart_iff, fun harmless => apart_iff.trans ?_⟩
  have notFilled := not_filledAlike (x := x) (y := y) harmless
  simp [notFilled]

end Arf

/-! ### A reference implementation -/

namespace OutputStream

/-- Fixed notation without decimals, and no width. -/
def reference : OutputStream where
  width := 0
  fill := ' '
  adjustment := .right
  digits := none
  intText := print 10
  doubleText
    | .finite value _ _ => print 10 (roundHalfEven value.toRat)
    | .negZero => ['-', '0']
    | .posInf => ['i', 'n', 'f']
    | .negInf => ['-', 'i', 'n', 'f']
    | .nan => ['n', 'a', 'n']
  mpzText := print 10

private theorem notMem_decimal {character : Char}
    (noDigit : ∀ digit < 10, digitChar digit ≠ character) (noSign : character ≠ '-') (n : ℤ) :
    character ∉ print 10 n :=
  notMem_print (by norm_num) n noDigit noSign

private theorem doubleText_integer {x : Double} {k : ℤ} (nonzero : k ≠ 0)
    (value : x.toArf = Arf.ofInt k) : reference.doubleText x = print 10 k := by
  cases x with
  | finite d onGrid bounded =>
      have isInteger : d = Dyadic.ofInt k := Arf.finite.inj value
      have toRat : (Dyadic.ofInt k).toRat = k := Dyadic.toRat_intCast k
      have whole : roundHalfEven k = k := by simp [roundHalfEven]
      change print 10 (roundHalfEven d.toRat) = print 10 k
      rw [isInteger, toRat, whole]
  | negZero => exact (nonzero (Arf.ofInt_inj.mp value).symm).elim
  | posInf | negInf | nan => cases value

/-- The texts of numbers are decimal. -/
private theorem exists_print {text : List Char} (number : reference.IsNumberText text) :
    ∃ n, text = print 10 n := by
  rcases number with zero | ⟨x, k, nonzero, value, same⟩
  · exact ⟨0, zero⟩
  · exact ⟨k, same.trans (doubleText_integer nonzero value)⟩

/-- The texts of special values have a character in them that decimals lack, and neither
digits nor the characters of the exact form. -/
private theorem special_characters {text : List Char} (special : reference.IsSpecialText text) :
    (∃ character ∈ text, ∀ n, character ∉ print 10 n) ∧
      (∀ digit < 10, digitChar digit ∉ text) ∧ '=' ∉ text ∧ 'p' ∉ text := by
  have sign : ∀ n, '\xe2' ∉ print 10 n := notMem_decimal (by decide) (by decide)
  have capital : ∀ n, 'N' ∉ print 10 n := notMem_decimal (by decide) (by decide)
  have letter : ∀ n, 'i' ∉ print 10 n := notMem_decimal (by decide) (by decide)
  simp only [IsSpecialText, List.mem_cons, List.not_mem_nil, or_false] at special
  rcases special with rfl | rfl | rfl | rfl | rfl
  · exact ⟨⟨_, by decide, sign⟩, by decide⟩
  · exact ⟨⟨_, by decide, sign⟩, by decide⟩
  · exact ⟨⟨_, by decide, capital⟩, by decide⟩
  · exact ⟨⟨_, by decide, letter⟩, by decide⟩
  · exact ⟨⟨_, by decide, letter⟩, by decide⟩

theorem reference_writesNumbers : reference.WritesNumbers where
  mpzText_injective := print_injective (by norm_num) (by norm_num)
  p_notMem_mpzText := notMem_decimal (by decide) (by decide)
  equals_notMem_mpzText := notMem_decimal (by decide) (by decide)
  doubleText_eq_iff x y m n mNonzero nNonzero xValue yValue := by
    rw [doubleText_integer mNonzero xValue, doubleText_integer nNonzero yValue,
      (print_injective (by norm_num) (by norm_num)).eq_iff]
    exact Int.cast_inj.symm
  doubleText_ne_intText x k nonzero value same := by
    rw [doubleText_integer nonzero value] at same
    exact nonzero (print_injective (by norm_num) (by norm_num) same)
  startsPlainly text number character first isMark := by
    obtain ⟨n, rfl⟩ := exists_print number
    have member := List.mem_of_mem_head? first
    rcases isMark with rfl | rfl
    · exact notMem_decimal (by decide) (by decide) n member
    · exact notMem_decimal (by decide) (by decide) n member
  unlike text special number isSpecial := by
    obtain ⟨n, rfl⟩ := exists_print number
    obtain ⟨⟨character, member, absent⟩, noDigit, _⟩ := special_characters isSpecial
    obtain ⟨digit, digitLt, digitMem⟩ := @exists_digit_mem_print 10 (by norm_num) n
    exact ⟨⟨_, digitMem, noDigit digit digitLt⟩, character, member, absent n⟩
  equals_notMem text single := by
    rcases single with number | isSpecial
    · obtain ⟨n, rfl⟩ := exists_print number
      exact notMem_decimal (by decide) (by decide) n
    · exact (special_characters isSpecial).2.2.1
  not_suffix text single m e _ suffix := by
    have member : 'p' ∈ text := suffix.subset (by simp)
    rcases single with number | isSpecial
    · obtain ⟨n, rfl⟩ := exists_print number
      exact notMem_decimal (by decide) (by decide) n member
    · exact (special_characters isSpecial).2.2.2 member

end OutputStream

namespace Arf

theorem printedApart_one_two :
    PrintedApart (NumberLibrary.reference .lp64) .reference .reference (ofInt 1) (ofInt 2) :=
  ((printedApart_iff OutputStream.reference_writesNumbers
    (NumberLibrary.reference_decomposes .lp64) DoubleLibrary.reference_roundsHalfEven
    (by decide)).2 (.inl rfl)).mpr (by
      have small : ∀ n ∈ [(1 : ℤ), 2], ¬ Overflows (ofInt n) := by
        rintro n member ⟨m, isInteger, large⟩
        have limit : ∀ k ∈ [(1 : ℤ), 2], |k| < 2 ^ 1024 - 2 ^ 970 := by decide +kernel
        rw [← ofInt_inj.mp isInteger] at large
        exact (limit n member).not_ge large
      refine ⟨?_, small 1 (by decide), small 2 (by decide)⟩
      rintro ⟨m, n, _, _, isOne, isTwo, alike⟩
      rw [← ofInt_inj.mp isOne, ← ofInt_inj.mp isTwo] at alike
      exact absurd alike (by decide +kernel))

/-- `2^53` and `2^53 + 1` are written alike. -/
theorem not_printedApart_large :
    ofInt (2 ^ 53) ≠ ofInt (2 ^ 53 + 1) ∧
    output (NumberLibrary.reference .lp64) .reference .reference (ofInt (2 ^ 53)) =
      output (NumberLibrary.reference .lp64) .reference .reference (ofInt (2 ^ 53 + 1)) ∧
    ¬ PrintedApart (NumberLibrary.reference .lp64) .reference .reference (ofInt (2 ^ 53))
      (ofInt (2 ^ 53 + 1)) := by
  have alike : output (NumberLibrary.reference .lp64) .reference .reference (ofInt (2 ^ 53)) =
      output (NumberLibrary.reference .lp64) .reference .reference (ofInt (2 ^ 53 + 1)) := by
    decide +kernel
  exact ⟨by decide, alike, fun apart => apart.texts alike⟩

/-- Filled up with `1` to a width of 4, so are 0 and 1110. -/
example :
    let filled := { OutputStream.reference with width := 4, fill := '1' }
    output (NumberLibrary.reference .lp64) .reference filled (ofInt 0) =
      output (NumberLibrary.reference .lp64) .reference filled (ofInt 1110) := by
  decide +kernel

end Arf

end Arbxx
