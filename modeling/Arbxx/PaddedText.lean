import Arbxx.RadixNumerals
import Mathlib.Data.List.Infix

/-!
# Texts padded to a width

Formatted output fills a text up to a width, behind it, in front of it, or between its
sign and its digits.  Two texts are padded alike exactly if one of them is the other one
padded to its length.
-/

namespace PaddedText

open RadixNumerals

/-! ### Padding -/

/-- Where a text is placed in a wider field. -/
inductive Adjustment
  | left
  | right
  | internal
  deriving DecidableEq

/-- The length of the sign of a number, or of what marks it as hexadecimal. -/
def signLength : List Char → ℕ
  | '-' :: _ => 1
  | '+' :: _ => 1
  | '0' :: 'x' :: _ => 2
  | '0' :: 'X' :: _ => 2
  | _ => 0

/-- How much of a text comes before the fill characters. -/
def Adjustment.lead (adjustment : Adjustment) (text : List Char) : ℕ :=
  match adjustment with
  | .left => text.length
  | .right => 0
  | .internal => signLength text

def insertFill (fill : Char) (lead count : ℕ) (text : List Char) : List Char :=
  text.take lead ++ (List.replicate count fill ++ text.drop lead)

/-- Fill a text up to a width; what is longer is not cut off. -/
def pad (width : ℕ) (fill : Char) (adjustment : Adjustment) (text : List Char) : List Char :=
  insertFill fill (adjustment.lead text) (width - text.length) text

variable {width : ℕ} {fill : Char} {adjustment : Adjustment} {text : List Char}

@[simp]
theorem insertFill_zero (fill : Char) (lead : ℕ) (text : List Char) :
    insertFill fill lead 0 text = text := by
  simp [insertFill]

@[simp]
theorem length_insertFill (fill : Char) (lead count : ℕ) (text : List Char) :
    (insertFill fill lead count text).length = text.length + count := by
  simp only [insertFill, List.length_append, List.length_take, List.length_replicate,
    List.length_drop]
  omega

theorem mem_insertFill {lead count : ℕ} {character : Char} :
    character ∈ insertFill fill lead count text ↔
      count ≠ 0 ∧ character = fill ∨ character ∈ text := by
  have parts : character ∈ text ↔ character ∈ text.take lead ∨ character ∈ text.drop lead := by
    rw [← List.mem_append, List.take_append_drop]
  simp only [insertFill, List.mem_append, List.mem_replicate, parts]
  tauto

theorem pad_of_le_length (long : width ≤ text.length) : pad width fill adjustment text = text := by
  rw [pad, Nat.sub_eq_zero_of_le long, insertFill_zero]

theorem length_pad : (pad width fill adjustment text).length = max text.length width := by
  rw [pad, length_insertFill]
  omega

/-! ### Signs -/

def IsSign (character : Char) : Prop :=
  character = '-' ∨ character = '+'

/-- The character that marks a number as hexadecimal, after a zero. -/
def IsHexMark (character : Char) : Prop :=
  character = 'x' ∨ character = 'X'

instance (character : Char) : Decidable (IsSign character) :=
  inferInstanceAs (Decidable (_ ∨ _))

instance (character : Char) : Decidable (IsHexMark character) :=
  inferInstanceAs (Decidable (_ ∨ _))

@[simp]
theorem signLength_cons_of_sign {character : Char} (sign : IsSign character) (text : List Char) :
    signLength (character :: text) = 1 := by
  rcases sign with rfl | rfl <;> rfl

@[simp]
theorem signLength_cons_of_hexMark {character : Char} (mark : IsHexMark character)
    (text : List Char) : signLength ('0' :: character :: text) = 2 := by
  rcases mark with rfl | rfl <;> rfl

theorem signLength_cases (text : List Char) :
    signLength text = 0 ∨ (∃ sign rest, IsSign sign ∧ text = sign :: rest) ∨
      ∃ mark rest, IsHexMark mark ∧ text = '0' :: mark :: rest := by
  unfold signLength
  split
  · exact .inr (.inl ⟨_, _, .inl rfl, rfl⟩)
  · exact .inr (.inl ⟨_, _, .inr rfl, rfl⟩)
  · exact .inr (.inr ⟨_, _, .inl rfl, rfl⟩)
  · exact .inr (.inr ⟨_, _, .inr rfl, rfl⟩)
  · exact .inl rfl

/-- A text that does not go on like a hexadecimal number behind a zero. -/
def StartsPlainly (text : List Char) : Prop :=
  ∀ character, text.head? = some character → ¬ IsHexMark character

/-! ### Padding twice -/

@[simp]
theorem insertFill_zero_lead (fill : Char) (count : ℕ) (text : List Char) :
    insertFill fill 0 count text = List.replicate count fill ++ text := by
  simp [insertFill]

@[simp]
theorem insertFill_length (fill : Char) (count : ℕ) (text : List Char) :
    insertFill fill text.length count text = text ++ List.replicate count fill := by
  simp [insertFill]

@[simp]
theorem insertFill_succ_cons (fill : Char) (lead count : ℕ) (first : Char) (text : List Char) :
    insertFill fill (lead + 1) count (first :: text) =
      first :: insertFill fill lead count text := by
  simp [insertFill]

theorem replicate_append_cons (fill : Char) (count : ℕ) (text : List Char) :
    List.replicate count fill ++ fill :: text = fill :: (List.replicate count fill ++ text) := by
  rw [← List.cons_append, ← List.replicate_succ, List.replicate_succ', List.append_assoc]
  rfl

/-- A text that a fill character joins in front is placed as if the fill character had
been inserted. -/
theorem insertFill_signLength_cons (plain : fill = '0' → StartsPlainly text) (count : ℕ) :
    insertFill fill (signLength (fill :: text)) count (fill :: text) =
      fill :: (List.replicate count fill ++ text) := by
  rcases signLength_cases (fill :: text) with none | ⟨sign, rest, isSign, same⟩ |
    ⟨mark, rest, isMark, same⟩
  · rw [none, insertFill_zero_lead, replicate_append_cons]
  · rw [List.cons.injEq] at same
    rw [same.1, signLength_cons_of_sign isSign, insertFill_succ_cons, insertFill_zero_lead]
  · rw [List.cons.injEq] at same
    exact (plain same.1 mark (by rw [same.2]; rfl) isMark).elim

theorem StartsPlainly.replicate_append (plain : StartsPlainly text) (isZero : fill = '0')
    (count : ℕ) : StartsPlainly (List.replicate count fill ++ text) := by
  cases count with
  | zero => exact plain
  | succ count =>
      intro character first isMark
      rw [List.replicate_succ, List.cons_append, List.head?_cons, Option.some.injEq] at first
      rw [← first, isZero] at isMark
      exact absurd isMark (by decide)

theorem insertFill_signLength_insertFill (plain : StartsPlainly text) (first second : ℕ) :
    insertFill fill (signLength (insertFill fill (signLength text) first text)) second
        (insertFill fill (signLength text) first text) =
      insertFill fill (signLength text) (second + first) text := by
  have joined (rest : List Char) :
      List.replicate second fill ++ (List.replicate first fill ++ rest) =
        List.replicate (second + first) fill ++ rest := by
    rw [← List.append_assoc, List.replicate_append_replicate]
  rcases signLength_cases text with none | ⟨sign, rest, isSign, rfl⟩ | ⟨mark, rest, isMark, rfl⟩
  · cases first with
    | zero => simp
    | succ first =>
        rw [none, insertFill_zero_lead, insertFill_zero_lead, List.replicate_succ, List.cons_append,
          insertFill_signLength_cons fun isZero => plain.replicate_append isZero first,
          ← replicate_append_cons, ← joined, List.replicate_succ, List.cons_append]
  · simp [isSign, joined]
  · simp [isMark, joined]

/-- Padding to a width and then to a greater one is padding to the greater one. -/
theorem pad_pad (plain : StartsPlainly text) {shorter : ℕ} (shorterLe : shorter ≤ width) :
    pad width fill adjustment (pad shorter fill adjustment text) =
      pad width fill adjustment text := by
  rcases le_or_gt shorter text.length with long | short
  · rw [@pad_of_le_length shorter _ _ _ long]
  · have counts : width - (max text.length shorter) + (shorter - text.length) =
        width - text.length := by omega
    rw [pad, length_pad, pad, pad, ← counts]
    cases adjustment with
    | left =>
        simp only [Adjustment.lead, insertFill_length]
        rw [List.append_assoc, List.replicate_append_replicate, Nat.add_comm]
    | right =>
        simp only [Adjustment.lead, insertFill_zero_lead]
        rw [← List.append_assoc, List.replicate_append_replicate]
    | internal => exact insertFill_signLength_insertFill plain _ _

/-! ### Texts that are padded alike -/

private theorem eq_of_unsigned (plain : fill = '0' → StartsPlainly text) {other : List Char}
    {count : ℕ} (unsigned : signLength text = 0)
    (same : insertFill fill (signLength text) count text =
      insertFill fill (signLength other) count other) : text = other := by
  rw [unsigned, insertFill_zero_lead] at same
  rcases signLength_cases other with none | ⟨sign, rest, isSign, rfl⟩ | ⟨mark, rest, isMark, rfl⟩
  · rw [none, insertFill_zero_lead] at same
    exact List.append_cancel_left same
  · cases count with
    | zero => simpa using same
    | succ count =>
        simp only [isSign, signLength_cons_of_sign, insertFill_succ_cons, insertFill_zero_lead]
          at same
        have first : fill = sign := by simpa [List.replicate_succ] using congrArg List.head? same
        rw [← first, ← replicate_append_cons] at same
        rw [← first]
        exact List.append_cancel_left same
  · cases count with
    | zero => simpa using same
    | succ count =>
        simp only [isMark, signLength_cons_of_hexMark, insertFill_succ_cons, insertFill_zero_lead,
          List.replicate_succ, List.cons_append, List.cons.injEq] at same
        obtain ⟨isZero, continues⟩ := same
        -- Behind the zero stands a mark, but all fill characters are zeros.
        have plainRest := (plain isZero).replicate_append isZero count
        exact (plainRest mark (by rw [continues]; rfl) isMark).elim

theorem insertFill_signLength_injective (plain : fill = '0' → StartsPlainly text)
    {other : List Char} (otherPlain : fill = '0' → StartsPlainly other) {count : ℕ}
    (same : insertFill fill (signLength text) count text =
      insertFill fill (signLength other) count other) : text = other := by
  rcases signLength_cases text with none | ⟨sign, rest, isSign, rfl⟩ | ⟨mark, rest, isMark, rfl⟩
  · exact eq_of_unsigned plain none same
  · rcases signLength_cases other with none | ⟨sign', rest', isSign', rfl⟩ |
      ⟨mark', rest', isMark', rfl⟩
    · exact (eq_of_unsigned otherPlain none same.symm).symm
    · simpa [isSign, isSign'] using same
    · simp only [isSign, isMark', signLength_cons_of_sign, signLength_cons_of_hexMark,
        insertFill_succ_cons, List.cons.injEq] at same
      rw [same.1] at isSign
      exact absurd isSign (by decide)
  · rcases signLength_cases other with none | ⟨sign', rest', isSign', rfl⟩ |
      ⟨mark', rest', isMark', rfl⟩
    · exact (eq_of_unsigned otherPlain none same.symm).symm
    · simp only [isSign', isMark, signLength_cons_of_sign, signLength_cons_of_hexMark,
        insertFill_succ_cons, List.cons.injEq] at same
      rw [← same.1] at isSign'
      exact absurd isSign' (by decide)
    · simpa [isMark, isMark'] using same

/-- Texts of the same length are not padded alike. -/
theorem pad_injective (plain : fill = '0' → StartsPlainly text) {other : List Char}
    (otherPlain : fill = '0' → StartsPlainly other) (sameLength : text.length = other.length)
    (same : pad width fill adjustment text = pad width fill adjustment other) : text = other := by
  rw [pad, pad, sameLength] at same
  cases adjustment with
  | left =>
      simp only [Adjustment.lead, insertFill_length] at same
      exact List.append_cancel_right same
  | right => simpa [Adjustment.lead] using same
  | internal => exact insertFill_signLength_injective plain otherPlain same

theorem StartsPlainly.pad (plain : StartsPlainly text) (isZero : fill = '0') :
    StartsPlainly (pad width fill adjustment text) := by
  rw [PaddedText.pad]
  generalize adjustment.lead text = lead
  cases lead with
  | zero =>
      rw [insertFill_zero_lead]
      exact plain.replicate_append isZero _
  | succ lead =>
      cases text with
      | nil => simpa [insertFill] using plain.replicate_append isZero _
      | cons first rest =>
          rw [insertFill_succ_cons]
          exact plain

/-- A text gets as long as another one, and the same, when it is padded. -/
structure PadsTo (width : ℕ) (fill : Char) (adjustment : Adjustment) (text other : List Char) :
    Prop where
  shorter : text.length < other.length
  fits : other.length ≤ width
  same : pad other.length fill adjustment text = other

/-- Padding can only confuse a text with one that has fill characters in it. -/
theorem PadsTo.fill_mem {other : List Char} (pads : PadsTo width fill adjustment text other) :
    fill ∈ other := by
  rw [← pads.same, PaddedText.pad, mem_insertFill]
  have shorter := pads.shorter
  exact .inl ⟨by omega, rfl⟩

private theorem pad_eq_pad_iff_of_le (plain : StartsPlainly text) {other : List Char}
    (otherPlain : StartsPlainly other) (shorter : text.length ≤ other.length) :
    pad width fill adjustment text = pad width fill adjustment other ↔
      text = other ∨ PadsTo width fill adjustment text other := by
  constructor
  · intro same
    rcases shorter.lt_or_eq with less | equal
    · have lengths := congrArg List.length same
      rw [length_pad, length_pad] at lengths
      have fits : other.length ≤ width := by omega
      refine .inr ⟨less, fits, ?_⟩
      apply pad_injective plain.pad fun _ => otherPlain
      · rw [length_pad]
        omega
      · exact (pad_pad plain fits).trans same
    · exact .inl (pad_injective (fun _ => plain) (fun _ => otherPlain) equal same)
  · rintro (rfl | pads)
    · rfl
    · rw [← pads.same, pad_pad plain pads.fits]

/-- Two texts are padded alike if they are the same, or if one of them is the other one
padded to its length. -/
theorem pad_eq_pad_iff (plain : StartsPlainly text) {other : List Char}
    (otherPlain : StartsPlainly other) :
    pad width fill adjustment text = pad width fill adjustment other ↔
      text = other ∨ PadsTo width fill adjustment text other ∨
        PadsTo width fill adjustment other text := by
  rcases le_or_gt text.length other.length with shorter | longer
  · have reverse : ¬ PadsTo width fill adjustment other text := fun pads =>
      absurd pads.shorter (by omega)
    rw [pad_eq_pad_iff_of_le plain otherPlain shorter, or_iff_left reverse]
  · have reverse : ¬ PadsTo width fill adjustment text other := fun pads =>
      absurd pads.shorter (by omega)
    rw [eq_comm, pad_eq_pad_iff_of_le otherPlain plain longer.le, or_iff_right reverse, eq_comm]

/-! ### Texts that are told apart by their characters -/

/-- Each of two texts has a character that the other one lacks. -/
def Unlike (text other : List Char) : Prop :=
  (∃ character ∈ text, character ∉ other) ∧ ∃ character ∈ other, character ∉ text

theorem Unlike.symm {other : List Char} (unlike : Unlike text other) : Unlike other text :=
  ⟨unlike.2, unlike.1⟩

/-- No padding confuses them. -/
theorem Unlike.pad_ne {other : List Char} (unlike : Unlike text other) (width' : ℕ)
    (adjustment' : Adjustment) :
    pad width fill adjustment text ≠ pad width' fill adjustment' other := by
  obtain ⟨⟨first, firstMem, firstNotMem⟩, second, secondMem, secondNotMem⟩ := unlike
  intro same
  have firstPadded : first ∈ pad width' fill adjustment' other := by
    rw [← same, pad, mem_insertFill]
    exact .inr firstMem
  have secondPadded : second ∈ pad width fill adjustment text := by
    rw [same, pad, mem_insertFill]
    exact .inr secondMem
  rw [pad, mem_insertFill, or_iff_left firstNotMem] at firstPadded
  rw [pad, mem_insertFill, or_iff_left secondNotMem] at secondPadded
  rw [firstPadded.2, ← secondPadded.2] at firstMem
  exact secondNotMem firstMem

/-! ### The last separator -/

theorem eq_of_append_separator {separator : Char} {front front' back back' : List Char}
    (absent : separator ∉ back) (absent' : separator ∉ back')
    (same : front ++ separator :: back = front' ++ separator :: back') : back = back' := by
  have reversed := congrArg List.reverse same
  simp only [List.reverse_append, List.reverse_cons, List.append_assoc, List.singleton_append]
    at reversed
  have parts := congrArg (splitFirst separator) reversed
  rw [splitFirst_append (by simpa using absent), splitFirst_append (by simpa using absent'),
    Option.some.injEq, Prod.mk.injEq] at parts
  exact List.reverse_injective parts.1

/-- What follows the last separator of a padded text without any is the end of the
text, since the separator is a fill character. -/
theorem suffix_of_pad_eq {separator : Char} {front back : List Char} (absent : separator ∉ text)
    (absent' : separator ∉ back)
    (same : pad width fill adjustment text = front ++ separator :: back) : back <:+ text := by
  have member : separator ∈ pad width fill adjustment text := by
    rw [same]
    simp
  rw [pad, mem_insertFill, or_iff_left absent] at member
  obtain ⟨padded, rfl⟩ := member
  obtain ⟨count, counts⟩ := Nat.exists_eq_succ_of_ne_zero padded
  rw [pad, counts, insertFill, List.replicate_succ', List.append_assoc, ← List.append_assoc]
    at same
  have ends := eq_of_append_separator (fun inside => absent (List.mem_of_mem_drop inside)) absent'
    same
  rw [← ends]
  exact List.drop_suffix _ _

end PaddedText
