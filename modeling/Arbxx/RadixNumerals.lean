import Mathlib.Data.List.Basic
import Mathlib.Data.Nat.Digits.Lemmas

/-!
# Signed numerals in a base

Integers written with the digits `0` to `9` and `a` to `z`, most significant
digit first, with a minus sign in front of negative numbers; and lists split at a
separator.  Numerals contain no separator other than digits and signs, so several
of them can share a line of text.
-/

namespace RadixNumerals

/-! ### Digits -/

/-- The character of a digit below 36. -/
def digitChar (digit : ℕ) : Char :=
  if digit < 10 then Char.ofNat ('0'.toNat + digit) else Char.ofNat ('a'.toNat + (digit - 10))

def digitValue (character : Char) : Option ℕ :=
  if '0' ≤ character ∧ character ≤ '9' then some (character.toNat - '0'.toNat)
  else if 'a' ≤ character ∧ character ≤ 'z' then some (character.toNat - 'a'.toNat + 10)
  else none

theorem digitValue_digitChar : ∀ digit < 36, digitValue (digitChar digit) = some digit := by
  decide

/-- A character that is a digit of no base. -/
def IsSeparator (character : Char) : Prop :=
  digitValue character = none ∧ character ≠ '-'

instance (character : Char) : Decidable (IsSeparator character) :=
  inferInstanceAs (Decidable (_ ∧ _))

def digitIn (base : ℕ) (character : Char) : Option ℕ :=
  (digitValue character).filter (· < base)

theorem digitIn_digitChar {base digit : ℕ} (baseLe : base ≤ 36) (digitLt : digit < base) :
    digitIn base (digitChar digit) = some digit := by
  rw [digitIn, digitValue_digitChar digit (by omega), Option.filter_some,
    if_pos (decide_eq_true digitLt)]

/-! ### Natural numbers -/

/-- The digits of a number, most significant first, and a single zero for zero. -/
def printNat (base number : ℕ) : List Char :=
  if number = 0 then [digitChar 0] else ((Nat.digits base number).map digitChar).reverse

def parseNat (base : ℕ) : List Char → Option ℕ
  | [] => none
  | text => (text.reverse.mapM (digitIn base)).map (Nat.ofDigits base)

private theorem mapM_digitIn {base : ℕ} (baseLe : base ≤ 36) (digits : List ℕ)
    (bounded : ∀ digit ∈ digits, digit < base) :
    (digits.map digitChar).mapM (digitIn base) = some digits := by
  induction digits with
  | nil => rfl
  | cons digit digits induction =>
      have head := digitIn_digitChar baseLe (bounded digit (List.mem_cons_self ..))
      have tail := induction fun other member => bounded other (List.mem_cons_of_mem digit member)
      simp [List.mapM_cons, head, tail]

theorem printNat_ne_nil (base number : ℕ) : printNat base number ≠ [] := by
  unfold printNat
  split
  · simp
  · rename_i nonzero
    simpa using Nat.digits_ne_nil_iff_ne_zero.mpr nonzero

private theorem parseNat_of_ne_nil {base : ℕ} {text : List Char} (nonempty : text ≠ []) :
    parseNat base text = (text.reverse.mapM (digitIn base)).map (Nat.ofDigits base) := by
  cases text with
  | nil => exact (nonempty rfl).elim
  | cons => rfl

theorem parseNat_printNat {base : ℕ} (twoLe : 2 ≤ base) (baseLe : base ≤ 36) (number : ℕ) :
    parseNat base (printNat base number) = some number := by
  rw [parseNat_of_ne_nil (printNat_ne_nil base number), printNat]
  split
  · rename_i zero
    have digit := @digitIn_digitChar base 0 baseLe (by omega)
    simp [digit, zero]
  · rw [List.reverse_reverse, mapM_digitIn baseLe _ fun digit => Nat.digits_lt_base (by omega),
      Option.map_some, Nat.ofDigits_digits]

theorem exists_digit_of_mem_printNat {base number : ℕ} (twoLe : 2 ≤ base) {character : Char}
    (member : character ∈ printNat base number) : ∃ digit < base, character = digitChar digit := by
  unfold printNat at member
  split at member
  · rw [List.mem_singleton] at member
    exact ⟨0, by omega, member⟩
  · rw [List.mem_reverse, List.mem_map] at member
    obtain ⟨digit, digitMember, rfl⟩ := member
    exact ⟨digit, Nat.digits_lt_base (by omega) digitMember, rfl⟩

/-! ### Integers -/

def print (base : ℕ) (number : ℤ) : List Char :=
  if number < 0 then '-' :: printNat base number.natAbs else printNat base number.natAbs

def parse (base : ℕ) : List Char → Option ℤ
  | '-' :: text => (parseNat base text).map fun number : ℕ => -(number : ℤ)
  | text => (parseNat base text).map fun number : ℕ => (number : ℤ)

private theorem digitChar_ne_minus : ∀ digit < 36, digitChar digit ≠ '-' := by
  decide

private theorem parse_of_head_ne_minus {base : ℕ} {text : List Char}
    (unsigned : ∀ character ∈ text, character ≠ '-') :
    parse base text = (parseNat base text).map fun number : ℕ => (number : ℤ) := by
  unfold parse
  split
  · exact (unsigned '-' (List.mem_cons_self ..) rfl).elim
  · rfl

/-- Reading a numeral gives back the integer. -/
theorem parse_print {base : ℕ} (twoLe : 2 ≤ base) (baseLe : base ≤ 36) (number : ℤ) :
    parse base (print base number) = some number := by
  unfold print
  split
  · rw [parse, parseNat_printNat twoLe baseLe, Option.map_some]
    congr 1
    omega
  · have unsigned : ∀ character ∈ printNat base number.natAbs, character ≠ '-' := by
      intro character member
      obtain ⟨digit, digitLt, rfl⟩ := exists_digit_of_mem_printNat twoLe member
      exact digitChar_ne_minus digit (by omega)
    rw [parse_of_head_ne_minus unsigned, parseNat_printNat twoLe baseLe, Option.map_some]
    congr 1
    omega

/-- Numerals consist of the digits of their base and signs. -/
theorem notMem_print {base : ℕ} (twoLe : 2 ≤ base) (number : ℤ) {character : Char}
    (noDigit : ∀ digit < base, digitChar digit ≠ character) (noSign : character ≠ '-') :
    character ∉ print base number := by
  have notInDigits : character ∉ printNat base number.natAbs := by
    intro member
    obtain ⟨digit, digitLt, same⟩ := exists_digit_of_mem_printNat twoLe member
    exact noDigit digit digitLt same.symm
  unfold print
  split
  · rw [List.mem_cons, not_or]
    exact ⟨noSign, notInDigits⟩
  · exact notInDigits

theorem exists_digit_mem_print {base : ℕ} (twoLe : 2 ≤ base) (number : ℤ) :
    ∃ digit < base, digitChar digit ∈ print base number := by
  obtain ⟨character, member⟩ := List.exists_mem_of_ne_nil _ (printNat_ne_nil base number.natAbs)
  obtain ⟨digit, digitLt, rfl⟩ := exists_digit_of_mem_printNat twoLe member
  refine ⟨digit, digitLt, ?_⟩
  unfold print
  split
  · exact List.mem_cons_of_mem '-' member
  · exact member

theorem separator_notMem_print {base : ℕ} (twoLe : 2 ≤ base) (baseLe : base ≤ 36) (number : ℤ)
    {character : Char} (separator : IsSeparator character) : character ∉ print base number := by
  refine notMem_print twoLe number ?_ separator.2
  intro digit digitLt same
  have noDigit := separator.1
  rw [← same, digitValue_digitChar digit (by omega)] at noDigit
  cases noDigit

theorem print_injective {base : ℕ} (twoLe : 2 ≤ base) (baseLe : base ≤ 36) :
    Function.Injective (print base) := by
  intro first second same
  have parsed := congrArg (parse base) same
  rw [parse_print twoLe baseLe, parse_print twoLe baseLe, Option.some.injEq] at parsed
  exact parsed

/-! ### Splitting at a separator -/

section Splitting

variable {α : Type*} [DecidableEq α]

/-- The parts of a list before and after the first separator. -/
def splitFirst (separator : α) : List α → Option (List α × List α)
  | [] => none
  | item :: items =>
      if item = separator then some ([], items)
      else (splitFirst separator items).map fun parts => (item :: parts.1, parts.2)

theorem splitFirst_append {separator : α} {first : List α} (absent : separator ∉ first)
    (rest : List α) : splitFirst separator (first ++ separator :: rest) = some (first, rest) := by
  induction first with
  | nil => simp [splitFirst]
  | cons item items induction =>
      rw [List.mem_cons, not_or] at absent
      rw [List.cons_append, splitFirst, if_neg (Ne.symm absent.1), induction absent.2]
      rfl

end Splitting

end RadixNumerals
