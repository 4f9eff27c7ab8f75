import Mathlib.Data.Set.Image
import Mathlib.Order.Interval.Set.Basic

/-!
# Three-valued truth of a relation between two sets

A relation between numbers lifts to sets of numbers with three outcomes: it
holds between all elements, it fails between all elements, or the elements
disagree.  This file develops that lift over arbitrary types, for arbitrary
relations and then for the six order relations, independently of any
representation of the sets.
-/

namespace ThreeValued

variable {α β γ δ : Type*}

/-- The relation holds between every element of the first set and every element
of the second. -/
def Always (relation : α → β → Prop) (first : Set α) (second : Set β) : Prop :=
  ∀ t ∈ first, ∀ u ∈ second, relation t u

def Never (relation : α → β → Prop) (first : Set α) (second : Set β) : Prop :=
  ∀ t ∈ first, ∀ u ∈ second, ¬ relation t u

open Classical in
/-- The lift of a relation to sets, with `none` for sets whose elements
disagree. -/
noncomputable def verdict (relation : α → β → Prop) (first : Set α) (second : Set β) :
    Option Bool :=
  if Always relation first second then some true
  else if Never relation first second then some false
  else none

theorem Always.trans {first : Set α} {second : Set β} {third : Set γ} {relation : α → β → Prop}
    {relation' : β → γ → Prop} {composite : α → γ → Prop} (middle : second.Nonempty)
    (compose : ∀ t u v, relation t u → relation' u v → composite t v)
    (left : Always relation first second) (right : Always relation' second third) :
    Always composite first third := by
  obtain ⟨u, uMem⟩ := middle
  intro t tMem v vMem
  exact compose t u v (left t tMem u uMem) (right u uMem v vMem)

section Verdict

variable {relation : α → β → Prop} {first : Set α} {second : Set β}

theorem verdict_eq_true_iff :
    verdict relation first second = some true ↔ Always relation first second := by
  unfold verdict
  split
  · simp_all
  · split <;> simp_all

theorem not_always_of_never (firstNonempty : first.Nonempty) (secondNonempty : second.Nonempty)
    (never : Never relation first second) :
    ¬ Always relation first second := by
  obtain ⟨t, tMem⟩ := firstNonempty
  obtain ⟨u, uMem⟩ := secondNonempty
  intro always
  exact never t tMem u uMem (always t tMem u uMem)

theorem verdict_eq_false_iff (firstNonempty : first.Nonempty) (secondNonempty : second.Nonempty) :
    verdict relation first second = some false ↔ Never relation first second := by
  unfold verdict
  constructor
  · intro verdictEq
    split at verdictEq
    · simp at verdictEq
    · split at verdictEq
      · assumption
      · simp at verdictEq
  · intro never
    rw [if_neg (not_always_of_never firstNonempty secondNonempty never), if_pos never]

/-- A decided verdict is the truth value of the relation at every pair. -/
theorem verdict_eq_some_iff (firstNonempty : first.Nonempty) (secondNonempty : second.Nonempty)
    (value : Bool) :
    verdict relation first second = some value ↔
      ∀ t ∈ first, ∀ u ∈ second, (relation t u ↔ value = true) := by
  cases value with
  | true => simp [verdict_eq_true_iff, Always]
  | false => simp [verdict_eq_false_iff firstNonempty secondNonempty, Never]

/-- Two one-sided tests, glued in the order in which they are tried, compute the
verdict. -/
theorem decide_eq_verdict {yes no : Bool}
    (yes_iff : yes = true ↔ Always relation first second)
    (no_iff : no = true ↔ Never relation first second) :
    (if yes then some true else if no then some false else none) =
      verdict relation first second := by
  by_cases always : Always relation first second
  · rw [if_pos (yes_iff.mpr always), verdict_eq_true_iff.mpr always]
  · rw [if_neg (mt yes_iff.mp always)]
    by_cases never : Never relation first second
    · rw [if_pos (no_iff.mpr never), verdict, if_neg always, if_pos never]
    · rw [if_neg (mt no_iff.mp never), verdict, if_neg always, if_neg never]

private theorem verdict_congr {relation' : γ → δ → Prop} {first' : Set γ} {second' : Set δ}
    (always_iff : Always relation first second ↔ Always relation' first' second')
    (never_iff : Never relation first second ↔ Never relation' first' second') :
    verdict relation first second = verdict relation' first' second' := by
  by_cases always : Always relation' first' second'
  · rw [verdict_eq_true_iff.mpr always, verdict_eq_true_iff.mpr (always_iff.mpr always)]
  · unfold verdict
    rw [if_neg always, if_neg (mt always_iff.mp always)]
    by_cases never : Never relation' first' second'
    · rw [if_pos never, if_pos (never_iff.mpr never)]
    · rw [if_neg never, if_neg (mt never_iff.mp never)]

/-- Negating a three-valued answer answers the complementary relation. -/
theorem verdict_not (firstNonempty : first.Nonempty) (secondNonempty : second.Nonempty) :
    verdict (fun t u => ¬ relation t u) first second =
      (verdict relation first second).map (!·) := by
  apply Option.ext
  intro value
  rw [verdict_eq_some_iff firstNonempty secondNonempty, Option.map_eq_some_iff]
  constructor
  · intro holds
    refine ⟨!value, ?_, by simp⟩
    rw [verdict_eq_some_iff firstNonempty secondNonempty]
    intro t tMem u uMem
    have atPair := holds t tMem u uMem
    cases value <;> simp_all
  · rintro ⟨other, otherEq, rfl⟩ t tMem u uMem
    rw [verdict_eq_some_iff firstNonempty secondNonempty] at otherEq
    have atPair := otherEq t tMem u uMem
    cases other <;> simp_all

theorem verdict_swap (relation : α → β → Prop) (first : Set α) (second : Set β) :
    verdict (fun u t => relation t u) second first = verdict relation first second := by
  apply verdict_congr
  · exact ⟨fun holds t tMem u uMem => holds u uMem t tMem,
      fun holds u uMem t tMem => holds t tMem u uMem⟩
  · exact ⟨fun fails t tMem u uMem => fails u uMem t tMem,
      fun fails u uMem t tMem => fails t tMem u uMem⟩

theorem verdict_image (relation : γ → δ → Prop) (f : α → γ) (g : β → δ)
    (first : Set α) (second : Set β) :
    verdict relation (f '' first) (g '' second) =
      verdict (fun t u => relation (f t) (g u)) first second := by
  apply verdict_congr
  · simp [Always]
  · simp [Never]

/-- Sets that meet pairwise cannot be given opposite decided answers. -/
theorem verdict_agree {first' : Set α} {second' : Set β}
    (firstMeet : (first ∩ first').Nonempty) (secondMeet : (second ∩ second').Nonempty)
    {value value' : Bool}
    (decided : verdict relation first second = some value)
    (decided' : verdict relation first' second' = some value') :
    value = value' := by
  obtain ⟨t, tMem, tMem'⟩ := firstMeet
  obtain ⟨u, uMem, uMem'⟩ := secondMeet
  have here := (verdict_eq_some_iff ⟨t, tMem⟩ ⟨u, uMem⟩ value).mp decided t tMem u uMem
  have there := (verdict_eq_some_iff ⟨t, tMem'⟩ ⟨u, uMem'⟩ value').mp decided' t tMem' u uMem'
  have same : value = true ↔ value' = true := here.symm.trans there
  cases value <;> cases value' <;> simp_all

theorem verdict_mono {first' : Set α} {second' : Set β}
    (firstNonempty : first'.Nonempty) (secondNonempty : second'.Nonempty)
    (firstSubset : first' ⊆ first) (secondSubset : second' ⊆ second)
    {value : Bool} (decided : verdict relation first second = some value) :
    verdict relation first' second' = some value := by
  have everywhere := (verdict_eq_some_iff (firstNonempty.mono firstSubset)
    (secondNonempty.mono secondSubset) value).mp decided
  rw [verdict_eq_some_iff firstNonempty secondNonempty]
  intro t tMem u uMem
  exact everywhere t (firstSubset tMem) u (secondSubset uMem)

/-- An answer that is given as soon as the relation is settled. -/
def Decisive (relation : α → β → Prop) (first : Set α) (second : Set β) (answer : Option Bool) :
    Prop :=
  (Always relation first second → answer = some true) ∧
    (Never relation first second → answer = some false)

/-- Where a decisive answer is missing, the relation both holds and fails. -/
theorem exists_both_of_decisive_none (decisive : Decisive relation first second none) :
    (∃ t ∈ first, ∃ u ∈ second, relation t u) ∧ ∃ t ∈ first, ∃ u ∈ second, ¬ relation t u := by
  constructor
  · by_contra none
    push Not at none
    cases decisive.2 none
  · by_contra none
    push Not at none
    cases decisive.1 none

theorem decisive_iff_eq_verdict {answer : Option Bool}
    (sound : ∀ value, answer = some value → verdict relation first second = some value)
    (firstNonempty : first.Nonempty) (secondNonempty : second.Nonempty) :
    Decisive relation first second answer ↔ answer = verdict relation first second := by
  constructor
  · rintro ⟨yes, no⟩
    cases verdictEq : verdict relation first second with
    | none =>
        rw [Option.eq_none_iff_forall_ne_some]
        intro value answered
        rw [sound value answered] at verdictEq
        cases verdictEq
    | some value =>
        cases value with
        | true => exact yes (verdict_eq_true_iff.mp verdictEq)
        | false => exact no ((verdict_eq_false_iff firstNonempty secondNonempty).mp verdictEq)
  · rintro rfl
    exact ⟨verdict_eq_true_iff.mpr, (verdict_eq_false_iff firstNonempty secondNonempty).mpr⟩

end Verdict

/-! ### Closed intervals of a linear order -/

section Intervals

variable [LinearOrder α] {a b c d : α}

theorem always_lt_Icc_iff (first : a ≤ b) (second : c ≤ d) :
    Always (· < ·) (Set.Icc a b) (Set.Icc c d) ↔ b < c := by
  constructor
  · intro always
    exact always b (Set.right_mem_Icc.mpr first) c (Set.left_mem_Icc.mpr second)
  · intro apart t tMem u uMem
    exact (tMem.2.trans_lt apart).trans_le uMem.1

theorem always_le_Icc_iff (first : a ≤ b) (second : c ≤ d) :
    Always (· ≤ ·) (Set.Icc a b) (Set.Icc c d) ↔ b ≤ c := by
  constructor
  · intro always
    exact always b (Set.right_mem_Icc.mpr first) c (Set.left_mem_Icc.mpr second)
  · intro apart t tMem u uMem
    exact (tMem.2.trans apart).trans uMem.1

theorem always_eq_Icc_iff (first : a ≤ b) (second : c ≤ d) :
    Always (· = ·) (Set.Icc a b) (Set.Icc c d) ↔ a = b ∧ c = d ∧ a = c := by
  constructor
  · intro always
    have aMem := Set.left_mem_Icc.mpr first
    have bMem := Set.right_mem_Icc.mpr first
    have cMem := Set.left_mem_Icc.mpr second
    have dMem := Set.right_mem_Icc.mpr second
    exact ⟨(always a aMem c cMem).trans (always b bMem c cMem).symm,
      (always a aMem c cMem).symm.trans (always a aMem d dMem), always a aMem c cMem⟩
  · rintro ⟨rfl, rfl, rfl⟩ t tMem u uMem
    rw [Set.Icc_self, Set.mem_singleton_iff] at tMem uMem
    rw [tMem, uMem]

theorem always_ne_Icc_iff (first : a ≤ b) (second : c ≤ d) :
    Always (· ≠ ·) (Set.Icc a b) (Set.Icc c d) ↔ b < c ∨ d < a := by
  constructor
  · intro always
    by_contra overlap
    push Not at overlap
    obtain ⟨left, right⟩ := overlap
    exact always (max a c) ⟨le_max_left a c, max_le first left⟩
      (max a c) ⟨le_max_right a c, max_le right second⟩ rfl
  · rintro (apart | apart) t tMem u uMem
    · exact ((tMem.2.trans_lt apart).trans_le uMem.1).ne
    · exact ((uMem.2.trans_lt apart).trans_le tMem.1).ne'

end Intervals

inductive Comparison
  | lt | gt | le | ge | eq | ne
  deriving DecidableEq

namespace Comparison

/-- The relation between two elements of an ordered type. -/
def Holds [Preorder α] : Comparison → α → α → Prop
  | .lt, t, u => t < u
  | .gt, t, u => u < t
  | .le, t, u => t ≤ u
  | .ge, t, u => u ≤ t
  | .eq, t, u => t = u
  | .ne, t, u => t ≠ u

def swap : Comparison → Comparison
  | .lt => .gt
  | .gt => .lt
  | .le => .ge
  | .ge => .le
  | .eq => .eq
  | .ne => .ne

def negate : Comparison → Comparison
  | .lt => .ge
  | .gt => .le
  | .le => .gt
  | .ge => .lt
  | .eq => .ne
  | .ne => .eq

theorem holds_swap [Preorder α] (comparison : Comparison) (t u : α) :
    comparison.swap.Holds t u ↔ comparison.Holds u t := by
  cases comparison <;> simp [swap, Holds, eq_comm]

theorem holds_negate [LinearOrder α] (comparison : Comparison) (t u : α) :
    comparison.negate.Holds t u ↔ ¬ comparison.Holds t u := by
  cases comparison <;> simp [negate, Holds]

/-- At most one of `<`, `=` and `>` holds. -/
theorem not_holds_of_holds [Preorder α] {comparison other : Comparison}
    (oneOf : comparison ∈ [lt, eq, gt]) (otherOneOf : other ∈ [lt, eq, gt])
    (distinct : other ≠ comparison) {t u : α} (holds : comparison.Holds t u) :
    ¬ other.Holds t u := by
  cases comparison with
  | lt =>
      cases other with
      | lt => exact (distinct rfl).elim
      | gt => exact holds.not_gt
      | eq => exact holds.ne
      | _ => simp at otherOneOf
  | gt =>
      cases other with
      | lt => exact holds.not_gt
      | gt => exact (distinct rfl).elim
      | eq => exact holds.ne'
      | _ => simp at otherOneOf
  | eq =>
      cases other with
      | lt => exact holds.not_lt
      | gt => exact holds.not_gt
      | eq => exact (distinct rfl).elim
      | _ => simp at otherOneOf
  | _ => simp at oneOf

/-- An order embedding preserves and reflects all six relations. -/
theorem holds_map [LinearOrder α] [LinearOrder β] {f : α → β} (mono : StrictMono f)
    (comparison : Comparison) (t u : α) :
    comparison.Holds (f t) (f u) ↔ comparison.Holds t u := by
  cases comparison <;> simp [Holds, mono.lt_iff_lt, mono.le_iff_le, mono.injective.eq_iff]

/-- An order-reversing embedding swaps the two sides of all six relations. -/
theorem holds_map_anti [LinearOrder α] [LinearOrder β] {f : α → β} (anti : StrictAnti f)
    (comparison : Comparison) (t u : α) :
    comparison.Holds (f t) (f u) ↔ comparison.Holds u t := by
  cases comparison <;>
    simp [Holds, anti.lt_iff_gt, anti.le_iff_ge, anti.injective.eq_iff, eq_comm]

/-- The relation between two closed intervals, read off their ends. -/
def OnEnds [LinearOrder α] (comparison : Comparison) (a b c d : α) : Prop :=
  match comparison with
  | .lt => b < c
  | .gt => d < a
  | .le => b ≤ c
  | .ge => d ≤ a
  | .eq => a = b ∧ c = d ∧ a = c
  | .ne => b < c ∨ d < a

end Comparison

theorem always_swap_iff [Preorder α] (comparison : Comparison) {first second : Set α} :
    Always comparison.swap.Holds second first ↔ Always comparison.Holds first second :=
  ⟨fun always t tMem u uMem => (comparison.holds_swap u t).mp (always u uMem t tMem),
    fun always u uMem t tMem => (comparison.holds_swap u t).mpr (always t tMem u uMem)⟩

theorem always_negate_iff [LinearOrder α] (comparison : Comparison) {first second : Set α} :
    Always comparison.negate.Holds first second ↔ Never comparison.Holds first second := by
  unfold Always Never
  simp only [comparison.holds_negate]

section Enclosures

variable [LinearOrder α] {a b c d q : α}

theorem always_Icc_iff (comparison : Comparison) (first : a ≤ b) (second : c ≤ d) :
    Always comparison.Holds (Set.Icc a b) (Set.Icc c d) ↔ comparison.OnEnds a b c d := by
  cases comparison with
  | lt => exact always_lt_Icc_iff first second
  | gt => exact (always_swap_iff .lt).trans (always_lt_Icc_iff second first)
  | le => exact always_le_Icc_iff first second
  | ge => exact (always_swap_iff .le).trans (always_le_Icc_iff second first)
  | eq => exact always_eq_Icc_iff first second
  | ne => exact always_ne_Icc_iff first second

/-- An end of the interval from `a` to `b` that decides the relation to `q` lies
between `q` and the enclosure of `q` from `c` to `d`. -/
def Comparison.Obscured (comparison : Comparison) (a b c q d : α) : Prop :=
  match comparison with
  | .lt | .ge => c ≤ b ∧ b < q ∨ q ≤ a ∧ a < d
  | .gt | .le => q < a ∧ a ≤ d ∨ c < b ∧ b ≤ q
  | .eq | .ne => a = q ∧ b = q ∧ c ≠ d ∨ c ≤ b ∧ b < q ∨ q < a ∧ a ≤ d

private theorem lt_enclosure_iff :
    (b < q → b < c) ∧ (q ≤ a → d ≤ a) ↔ ¬ (c ≤ b ∧ b < q ∨ q ≤ a ∧ a < d) := by
  rw [not_or, not_and', not_and, not_le, not_lt]

private theorem gt_enclosure_iff :
    (q < a → d < a) ∧ (b ≤ q → b ≤ c) ↔ ¬ (q < a ∧ a ≤ d ∨ c < b ∧ b ≤ q) := by
  rw [not_or, not_and, not_and', not_le, not_lt]

private theorem eq_enclosure_iff (below : c ≤ q) (above : q ≤ d) :
    (a = b ∧ q = q ∧ a = q → a = b ∧ c = d ∧ a = c) ↔ ¬ (a = q ∧ b = q ∧ c ≠ d) := by
  constructor
  · intro implied wide
    obtain ⟨rfl, rfl, differ⟩ := wide
    exact differ (implied ⟨rfl, rfl, rfl⟩).2.1
  · intro precise point
    obtain ⟨rfl, _, rfl⟩ := point
    have same : c = d := by
      by_contra differ
      exact precise ⟨rfl, rfl, differ⟩
    exact ⟨rfl, same, le_antisymm (above.trans same.ge) below⟩

private theorem ne_enclosure_iff (first : a ≤ b) (below : c ≤ q) (above : q ≤ d) :
    (b < q ∨ q < a → b < c ∨ d < a) ↔ ¬ (c ≤ b ∧ b < q) ∧ ¬ (q < a ∧ a ≤ d) := by
  constructor
  · intro implied
    constructor
    · intro near
      rcases implied (.inl near.2) with apart | apart
      · exact near.1.not_gt apart
      · exact (first.trans_lt (near.2.trans_le above)).not_gt apart
    · intro near
      rcases implied (.inr near.1) with apart | apart
      · exact (below.trans_lt (near.1.trans_le first)).not_gt apart
      · exact near.2.not_gt apart
  · intro clear apart
    rcases apart with less | greater
    · exact .inl (not_le.mp fun near => clear.1 ⟨near, less⟩)
    · exact .inr (not_le.mp fun near => clear.2 ⟨greater, near⟩)

/-- Replacing `q` by its enclosure keeps a settled relation settled exactly if no
deciding end is obscured. -/
private theorem onEnds_enclosure_iff (comparison : Comparison) (first : a ≤ b) (below : c ≤ q)
    (above : q ≤ d) :
    (comparison.OnEnds a b q q → comparison.OnEnds a b c d) ∧
      (comparison.negate.OnEnds a b q q → comparison.negate.OnEnds a b c d) ↔
      ¬ comparison.Obscured a b c q d := by
  have equal := eq_enclosure_iff (a := a) (b := b) below above
  have apart := ne_enclosure_iff first below above
  cases comparison with
  | lt => exact lt_enclosure_iff
  | gt => exact gt_enclosure_iff
  | le => exact and_comm.trans gt_enclosure_iff
  | ge => exact and_comm.trans lt_enclosure_iff
  | eq =>
      rw [Comparison.Obscured, not_or, not_or, ← equal, ← apart]
      exact Iff.rfl
  | ne =>
      rw [Comparison.Obscured, not_or, not_or, ← equal, ← apart, and_comm]
      exact Iff.rfl

/-- Answering for an enclosure of a number in place of the number loses an answer
exactly if the enclosure obscures a deciding end. -/
theorem decisive_enclosure_iff (comparison : Comparison) (first : a ≤ b) (below : c ≤ q)
    (above : q ≤ d) :
    Decisive comparison.Holds (Set.Icc a b) {q}
        (verdict comparison.Holds (Set.Icc a b) (Set.Icc c d)) ↔
      ¬ comparison.Obscured a b c q d := by
  have second := below.trans above
  rw [← onEnds_enclosure_iff comparison first below above, ← Set.Icc_self, Decisive,
    verdict_eq_true_iff, verdict_eq_false_iff (Set.nonempty_Icc.mpr first)
      (Set.nonempty_Icc.mpr second), ← always_negate_iff, ← always_negate_iff,
    always_Icc_iff _ first le_rfl, always_Icc_iff _ first second, always_Icc_iff _ first le_rfl,
    always_Icc_iff _ first second]

/-- A number that is its own enclosure obscures nothing. -/
theorem Comparison.not_obscured_self (comparison : Comparison) :
    ¬ comparison.Obscured a b q q q := by
  cases comparison with
  | lt | ge =>
      rintro (left | right)
      · exact left.1.not_gt left.2
      · exact right.1.not_gt right.2
  | gt | le =>
      rintro (right | left)
      · exact right.2.not_gt right.1
      · exact left.2.not_gt left.1
  | eq | ne =>
      rintro (point | left | right)
      · exact point.2.2 rfl
      · exact left.1.not_gt left.2
      · exact right.2.not_gt right.1

/-- A wider enclosure obscures more. -/
theorem Comparison.Obscured.mono {comparison : Comparison} {c' d' : α}
    (obscured : comparison.Obscured a b c q d) (below : c' ≤ c) (above : d ≤ d')
    (ordered : c ≤ d) : comparison.Obscured a b c' q d' := by
  cases comparison with
  | lt | ge =>
      rcases obscured with left | right
      · exact .inl ⟨below.trans left.1, left.2⟩
      · exact .inr ⟨right.1, right.2.trans_le above⟩
  | gt | le =>
      rcases obscured with right | left
      · exact .inl ⟨right.1, right.2.trans above⟩
      · exact .inr ⟨below.trans_lt left.1, left.2⟩
  | eq | ne =>
      rcases obscured with point | left | right
      · have wide := (below.trans_lt (ordered.lt_of_ne point.2.2)).trans_le above
        exact .inl ⟨point.1, point.2.1, wide.ne⟩
      · exact .inr (.inl ⟨below.trans left.1, left.2⟩)
      · exact .inr (.inr ⟨right.1, right.2.trans above⟩)

/-- Every enclosure of more than one point obscures one of its ends. -/
theorem Comparison.exists_obscured (comparison : Comparison) (below : c ≤ q) (above : q ≤ d)
    (wide : c < d) : ∃ t, (t = c ∨ t = d) ∧ comparison.Obscured t t c q d := by
  cases comparison with
  | lt | ge =>
      refine ⟨c, .inl rfl, ?_⟩
      rcases below.lt_or_eq with less | equal
      · exact .inl ⟨le_rfl, less⟩
      · exact .inr ⟨equal.ge, wide⟩
  | gt | le =>
      refine ⟨d, .inr rfl, ?_⟩
      rcases above.lt_or_eq with less | equal
      · exact .inl ⟨less, le_rfl⟩
      · exact .inr ⟨wide, equal.ge⟩
  | eq | ne =>
      rcases below.lt_or_eq with less | equal
      · exact ⟨c, .inl rfl, .inr (.inl ⟨le_rfl, less⟩)⟩
      · exact ⟨d, .inr rfl, .inr (.inr ⟨equal ▸ wide, le_rfl⟩)⟩

end Enclosures

end ThreeValued
