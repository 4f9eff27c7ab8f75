import Mathlib.Data.Option.Basic
import Mathlib.Tactic.Common

/-!
# Programs with guards that may stay undecided

Imperative programs over arbitrary actions and tests, where a test answers yes, no or
nothing.  A condition asks its tests from left to right, as far as its value depends
on them, and a program stops for good at a condition without a value.

Two machines may run the same programs on different states.  If the answers of one
are answers of the other, then they go through the same control points.
-/

namespace GuardedPrograms

/-! ### Conditions -/

inductive Condition (Test : Type*)
  | test (question : Test)
  | negation (condition : Condition Test)
  | conjunction (left right : Condition Test)
  | disjunction (left right : Condition Test)

namespace Condition

variable {Test : Type*} {answers answers' : Test → Option Bool → Prop}

/-- The values of a condition.  The right operand counts only if the left operand
leaves the value open, and `none` in place of a value that counts is the result. -/
def Evaluates (answers : Test → Option Bool → Prop) : Condition Test → Option Bool → Prop
  | .test question, value => answers question value
  | .negation condition, value =>
      ∃ inner, condition.Evaluates answers inner ∧ value = inner.map (!·)
  | .conjunction left right, value =>
      left.Evaluates answers (some true) ∧ right.Evaluates answers value ∨
        left.Evaluates answers value ∧ value ≠ some true
  | .disjunction left right, value =>
      left.Evaluates answers (some false) ∧ right.Evaluates answers value ∨
        left.Evaluates answers value ∧ value ≠ some false

/-- The tests that occur in a condition. -/
def tests : Condition Test → List Test
  | .test question => [question]
  | .negation condition => condition.tests
  | .conjunction left right | .disjunction left right => left.tests ++ right.tests

/-- A decided value only depends on decided answers. -/
theorem Evaluates.transfer {condition : Condition Test}
    (decided : ∀ question value, answers question (some value) → answers' question (some value))
    {value : Bool} (evaluates : condition.Evaluates answers (some value)) :
    condition.Evaluates answers' (some value) := by
  induction condition generalizing value with
  | test question => exact decided question value evaluates
  | negation condition induction =>
      obtain ⟨inner, evaluates, valueEq⟩ := evaluates
      cases inner with
      | none => cases valueEq
      | some inner => exact ⟨some inner, induction evaluates, valueEq⟩
  | conjunction left right leftInduction rightInduction =>
      rcases evaluates with ⟨yes, rest⟩ | ⟨settled, no⟩
      · exact .inl ⟨leftInduction yes, rightInduction rest⟩
      · exact .inr ⟨leftInduction settled, no⟩
  | disjunction left right leftInduction rightInduction =>
      rcases evaluates with ⟨no, rest⟩ | ⟨settled, yes⟩
      · exact .inl ⟨leftInduction no, rightInduction rest⟩
      · exact .inr ⟨leftInduction settled, yes⟩

theorem Evaluates.unique {condition : Condition Test}
    (functional : ∀ question value value', answers question value → answers question value' →
      value = value') {value value' : Option Bool} (evaluates : condition.Evaluates answers value)
    (evaluates' : condition.Evaluates answers value') : value = value' := by
  induction condition generalizing value value' with
  | test question => exact functional question value value' evaluates evaluates'
  | negation condition induction =>
      obtain ⟨inner, evaluates, rfl⟩ := evaluates
      obtain ⟨inner', evaluates', rfl⟩ := evaluates'
      rw [induction evaluates evaluates']
  | conjunction left right leftInduction rightInduction =>
      rcases evaluates with ⟨yes, rest⟩ | ⟨settled, no⟩ <;>
        rcases evaluates' with ⟨yes', rest'⟩ | ⟨settled', no'⟩
      · exact rightInduction rest rest'
      · exact (no' (leftInduction settled' yes)).elim
      · exact (no (leftInduction settled yes')).elim
      · exact leftInduction settled settled'
  | disjunction left right leftInduction rightInduction =>
      rcases evaluates with ⟨no, rest⟩ | ⟨settled, yes⟩ <;>
        rcases evaluates' with ⟨no', rest'⟩ | ⟨settled', yes'⟩
      · exact rightInduction rest rest'
      · exact (yes' (leftInduction settled' no)).elim
      · exact (yes (leftInduction settled no')).elim
      · exact leftInduction settled settled'

theorem exists_evaluates (condition : Condition Test)
    (answered : ∀ question ∈ condition.tests, ∃ value, answers question value) :
    ∃ value, condition.Evaluates answers value := by
  induction condition with
  | test question => exact answered question (List.mem_singleton_self question)
  | negation condition induction =>
      obtain ⟨inner, evaluates⟩ := induction answered
      exact ⟨inner.map (!·), inner, evaluates, rfl⟩
  | conjunction left right leftInduction rightInduction =>
      obtain ⟨leftAnswered, rightAnswered⟩ := List.forall_mem_append.mp answered
      obtain ⟨first, evaluates⟩ := leftInduction leftAnswered
      by_cases yes : first = some true
      · obtain ⟨value, rest⟩ := rightInduction rightAnswered
        exact ⟨value, .inl ⟨yes ▸ evaluates, rest⟩⟩
      · exact ⟨first, .inr ⟨evaluates, yes⟩⟩
  | disjunction left right leftInduction rightInduction =>
      obtain ⟨leftAnswered, rightAnswered⟩ := List.forall_mem_append.mp answered
      obtain ⟨first, evaluates⟩ := leftInduction leftAnswered
      by_cases no : first = some false
      · obtain ⟨value, rest⟩ := rightInduction rightAnswered
        exact ⟨value, .inl ⟨no ▸ evaluates, rest⟩⟩
      · exact ⟨first, .inr ⟨evaluates, no⟩⟩

/-- The truth value of a condition on tests that all have one. -/
def Truth (holds : Test → Prop) : Condition Test → Prop
  | .test question => holds question
  | .negation condition => ¬ condition.Truth holds
  | .conjunction left right => left.Truth holds ∧ right.Truth holds
  | .disjunction left right => left.Truth holds ∨ right.Truth holds

/-- If answers are truth values then decided values are. -/
theorem Evaluates.truth_iff {condition : Condition Test} {holds : Test → Prop}
    (sound : ∀ question ∈ condition.tests, ∀ value, answers question (some value) →
      (holds question ↔ value = true)) {value : Bool}
    (evaluates : condition.Evaluates answers (some value)) :
    condition.Truth holds ↔ value = true := by
  induction condition generalizing value with
  | test question => exact sound question (List.mem_singleton_self question) value evaluates
  | negation condition induction =>
      obtain ⟨inner, evaluates, valueEq⟩ := evaluates
      cases inner with
      | none => cases valueEq
      | some inner =>
          have truth := induction sound evaluates
          obtain rfl := Option.some.inj valueEq
          cases inner <;> simp_all [Truth]
  | conjunction left right leftInduction rightInduction =>
      obtain ⟨leftSound, rightSound⟩ := List.forall_mem_append.mp sound
      rcases evaluates with ⟨yes, rest⟩ | ⟨settled, no⟩
      · simp [Truth, leftInduction leftSound yes, rightInduction rightSound rest]
      · have isFalse : value = false := by simpa using no
        subst isFalse
        simp [Truth, leftInduction leftSound settled]
  | disjunction left right leftInduction rightInduction =>
      obtain ⟨leftSound, rightSound⟩ := List.forall_mem_append.mp sound
      rcases evaluates with ⟨no, rest⟩ | ⟨settled, yes⟩
      · simp [Truth, leftInduction leftSound no, rightInduction rightSound rest]
      · have isTrue : value = true := by simpa using yes
        subst isTrue
        simp [Truth, leftInduction leftSound settled]

/-- A condition without a value has a test without an answer. -/
theorem Evaluates.exists_undecided {condition : Condition Test}
    (evaluates : condition.Evaluates answers none) :
    ∃ question ∈ condition.tests, answers question none := by
  induction condition with
  | test question => exact ⟨question, List.mem_singleton_self question, evaluates⟩
  | negation condition induction =>
      obtain ⟨inner, evaluates, valueEq⟩ := evaluates
      cases inner with
      | none => exact induction evaluates
      | some inner => cases valueEq
  | conjunction left right leftInduction rightInduction =>
      rcases evaluates with ⟨_, rest⟩ | ⟨settled, _⟩
      · obtain ⟨question, member, undecided⟩ := rightInduction rest
        exact ⟨question, List.mem_append_right _ member, undecided⟩
      · obtain ⟨question, member, undecided⟩ := leftInduction settled
        exact ⟨question, List.mem_append_left _ member, undecided⟩
  | disjunction left right leftInduction rightInduction =>
      rcases evaluates with ⟨_, rest⟩ | ⟨settled, _⟩
      · obtain ⟨question, member, undecided⟩ := rightInduction rest
        exact ⟨question, List.mem_append_right _ member, undecided⟩
      · obtain ⟨question, member, undecided⟩ := leftInduction settled
        exact ⟨question, List.mem_append_left _ member, undecided⟩

end Condition

/-! ### Programs and machines -/

inductive Program (Action Test : Type*)
  | skip
  | act (action : Action)
  | sequence (first second : Program Action Test)
  | branch (condition : Condition Test) (yes no : Program Action Test)
  | loop (condition : Condition Test) (body : Program Action Test)

/-- What actions do to states, and how tests are answered in them. -/
structure Machine (State Action Test : Type*) where
  Performs : Action → State → State → Prop
  Answers : Test → State → Option Bool → Prop

/-- The programs that are still to be run, and the state they start from. -/
structure Configuration (State Action Test : Type*) where
  rest : List (Program Action Test)
  state : State

namespace Machine

variable {State Action Test : Type*} (machine : Machine State Action Test)

def Evaluates (condition : Condition Test) (state : State) (value : Option Bool) : Prop :=
  condition.Evaluates (fun question => machine.Answers question state) value

inductive Step : Configuration State Action Test → Configuration State Action Test → Prop
  | skip {rest state} : Step ⟨.skip :: rest, state⟩ ⟨rest, state⟩
  | act {action rest state state'} (performs : machine.Performs action state state') :
      Step ⟨.act action :: rest, state⟩ ⟨rest, state'⟩
  | sequence {first second rest state} :
      Step ⟨.sequence first second :: rest, state⟩ ⟨first :: second :: rest, state⟩
  | yes {condition yes no rest state} (evaluates : machine.Evaluates condition state (some true)) :
      Step ⟨.branch condition yes no :: rest, state⟩ ⟨yes :: rest, state⟩
  | no {condition yes no rest state} (evaluates : machine.Evaluates condition state (some false)) :
      Step ⟨.branch condition yes no :: rest, state⟩ ⟨no :: rest, state⟩
  | again {condition body rest state} (evaluates : machine.Evaluates condition state (some true)) :
      Step ⟨.loop condition body :: rest, state⟩ ⟨body :: .loop condition body :: rest, state⟩
  | leave {condition body rest state} (evaluates : machine.Evaluates condition state (some false)) :
      Step ⟨.loop condition body :: rest, state⟩ ⟨rest, state⟩

/-- A run of some number of steps. -/
inductive Run : ℕ → Configuration State Action Test → Configuration State Action Test → Prop
  | start (configuration) : Run 0 configuration configuration
  | step {count first middle last} (run : Run count first middle)
      (step : machine.Step middle last) : Run (count + 1) first last

/-- The next program is guarded by a condition without a value. -/
inductive Undecided : Configuration State Action Test → Prop
  | branch {condition yes no rest state} (evaluates : machine.Evaluates condition state none) :
      Undecided ⟨.branch condition yes no :: rest, state⟩
  | loop {condition body rest state} (evaluates : machine.Evaluates condition state none) :
      Undecided ⟨.loop condition body :: rest, state⟩

structure Deterministic : Prop where
  performs : ∀ action state state' state'', machine.Performs action state state' →
    machine.Performs action state state'' → state' = state''
  answers : ∀ question state value value', machine.Answers question state value →
    machine.Answers question state value' → value = value'

structure Total : Prop where
  performs : ∀ action state, ∃ state', machine.Performs action state state'
  answers : ∀ question state, ∃ value, machine.Answers question state value

variable {machine} {first middle last : Configuration State Action Test} {count rounds : ℕ}

theorem Deterministic.value_eq (deterministic : machine.Deterministic)
    {condition : Condition Test} {state : State} {value value' : Option Bool}
    (evaluates : machine.Evaluates condition state value)
    (evaluates' : machine.Evaluates condition state value') : value = value' :=
  Condition.Evaluates.unique (fun question => deterministic.answers question state)
    evaluates evaluates'

theorem Deterministic.step_eq (deterministic : machine.Deterministic)
    (step : machine.Step first middle) (step' : machine.Step first last) : middle = last := by
  cases step with
  | skip =>
      cases step'
      rfl
  | act performs =>
      cases step' with
      | act performs' => rw [deterministic.performs _ _ _ _ performs performs']
  | sequence =>
      cases step'
      rfl
  | yes evaluates =>
      cases step' with
      | yes _ => rfl
      | no evaluates' => cases deterministic.value_eq evaluates evaluates'
  | no evaluates =>
      cases step' with
      | yes evaluates' => cases deterministic.value_eq evaluates evaluates'
      | no _ => rfl
  | again evaluates =>
      cases step' with
      | again _ => rfl
      | leave evaluates' => cases deterministic.value_eq evaluates evaluates'
  | leave evaluates =>
      cases step' with
      | again evaluates' => cases deterministic.value_eq evaluates evaluates'
      | leave _ => rfl

theorem Deterministic.run_eq (deterministic : machine.Deterministic)
    (run : machine.Run count first middle) (run' : machine.Run count first last) :
    middle = last := by
  induction run generalizing last with
  | start configuration =>
      cases run'
      rfl
  | step run step induction =>
      cases run' with
      | step run' step' =>
          have same := induction run'
          subst same
          exact deterministic.step_eq step step'

/-- A longer run goes on from where a shorter one ends. -/
theorem Deterministic.run_suffix (deterministic : machine.Deterministic)
    (run : machine.Run count first middle) (longer : machine.Run (count + rounds) first last) :
    machine.Run rounds middle last := by
  induction rounds generalizing last with
  | zero =>
      rw [deterministic.run_eq run longer]
      exact .start last
  | succ rounds induction =>
      cases longer with
      | step longer step => exact .step (induction longer) step

theorem not_step_of_nil {state : State} : ¬ machine.Step ⟨[], state⟩ last :=
  fun step => by cases step

theorem run_nil {state : State} (run : machine.Run count ⟨[], state⟩ last) :
    count = 0 ∧ last = ⟨[], state⟩ := by
  generalize startEq : (⟨[], state⟩ : Configuration State Action Test) = start at run
  induction run with
  | start configuration =>
      subst startEq
      exact ⟨rfl, rfl⟩
  | step run step induction =>
      obtain ⟨_, middleEq⟩ := induction startEq
      rw [middleEq, ← startEq] at step
      exact (not_step_of_nil step).elim

/-- A program that is not done goes on unless a condition is undecided. -/
theorem Total.progress (total : machine.Total) (configuration : Configuration State Action Test) :
    configuration.rest = [] ∨ (∃ next, machine.Step configuration next) ∨
      machine.Undecided configuration := by
  obtain ⟨rest, state⟩ := configuration
  have valued (condition : Condition Test) : ∃ value, machine.Evaluates condition state value :=
    condition.exists_evaluates fun question _ => total.answers question state
  cases rest with
  | nil => exact .inl rfl
  | cons program rest =>
      right
      cases program with
      | skip => exact .inl ⟨_, .skip⟩
      | act action =>
          obtain ⟨state', performs⟩ := total.performs action state
          exact .inl ⟨_, .act performs⟩
      | sequence first second => exact .inl ⟨_, .sequence⟩
      | branch condition yes no =>
          obtain ⟨value, evaluates⟩ := valued condition
          rcases value with _ | _ | _
          · exact .inr (.branch evaluates)
          · exact .inl ⟨_, .no evaluates⟩
          · exact .inl ⟨_, .yes evaluates⟩
      | loop condition body =>
          obtain ⟨value, evaluates⟩ := valued condition
          rcases value with _ | _ | _
          · exact .inr (.loop evaluates)
          · exact .inl ⟨_, .leave evaluates⟩
          · exact .inl ⟨_, .again evaluates⟩

end Machine

/-! ### Machines that give the same answers -/

variable {State State' Action Test : Type*}

/-- From related states, actions lead to related states again, and what the first
machine answers the second answers as well. -/
structure Simulates (abstract : Machine State' Action Test) (concrete : Machine State Action Test)
    (Related : State → State' → Prop) : Prop where
  performs : ∀ action state after state', Related state state' →
    concrete.Performs action state after →
      ∃ after', abstract.Performs action state' after' ∧ Related after after'
  answers : ∀ question state state' value, Related state state' →
    concrete.Answers question state (some value) → abstract.Answers question state' (some value)

namespace Simulates

variable {abstract : Machine State' Action Test} {concrete : Machine State Action Test}
  {Related : State → State' → Prop} {configuration next : Configuration State Action Test}
  {rest : List (Program Action Test)} {state : State} {state' done : State'} {count total : ℕ}

theorem evaluates (simulates : Simulates abstract concrete Related) (related : Related state state')
    {condition : Condition Test} {value : Bool}
    (evaluates : concrete.Evaluates condition state (some value)) :
    abstract.Evaluates condition state' (some value) :=
  Condition.Evaluates.transfer
    (fun question value => simulates.answers question state state' value related) evaluates

theorem step (simulates : Simulates abstract concrete Related)
    (related : Related configuration.state state') (step : concrete.Step configuration next) :
    ∃ after', abstract.Step ⟨configuration.rest, state'⟩ ⟨next.rest, after'⟩ ∧
      Related next.state after' := by
  cases step with
  | skip => exact ⟨state', .skip, related⟩
  | act performs =>
      obtain ⟨after', performs', related'⟩ := simulates.performs _ _ _ _ related performs
      exact ⟨after', .act performs', related'⟩
  | sequence => exact ⟨state', .sequence, related⟩
  | yes evaluates => exact ⟨state', .yes (simulates.evaluates related evaluates), related⟩
  | no evaluates => exact ⟨state', .no (simulates.evaluates related evaluates), related⟩
  | again evaluates => exact ⟨state', .again (simulates.evaluates related evaluates), related⟩
  | leave evaluates => exact ⟨state', .leave (simulates.evaluates related evaluates), related⟩

/-- The second machine follows every run of the first through the same control
points and related states. -/
theorem run (simulates : Simulates abstract concrete Related) (related : Related state state')
    (run : concrete.Run count ⟨rest, state⟩ configuration) :
    ∃ after', abstract.Run count ⟨rest, state'⟩ ⟨configuration.rest, after'⟩ ∧
      Related configuration.state after' := by
  generalize startEq : (⟨rest, state⟩ : Configuration State Action Test) = start at run
  induction run with
  | start configuration =>
      subst startEq
      exact ⟨state', .start _, related⟩
  | step run step induction =>
      obtain ⟨middle', run', middleRelated⟩ := induction startEq
      obtain ⟨after', step', lastRelated⟩ := simulates.step middleRelated step
      exact ⟨after', .step run' step', lastRelated⟩

/-- No run is longer than the run of the second machine to its end, and a run that
comes to its end takes as many steps and ends in a related state. -/
theorem run_le (simulates : Simulates abstract concrete Related)
    (deterministic : abstract.Deterministic) (related : Related state state')
    (finishes : abstract.Run total ⟨rest, state'⟩ ⟨[], done⟩)
    (run : concrete.Run count ⟨rest, state⟩ configuration) :
    count ≤ total ∧
      (configuration.rest = [] → count = total ∧ Related configuration.state done) := by
  obtain ⟨after', run', afterRelated⟩ := simulates.run related run
  rcases Nat.le_total count total with le | le
  · obtain ⟨rounds, rfl⟩ := Nat.exists_eq_add_of_le le
    refine ⟨le, ?_⟩
    intro ended
    rw [ended] at run'
    obtain ⟨rfl, doneEq⟩ := Machine.run_nil (deterministic.run_suffix run' finishes)
    obtain ⟨_, rfl⟩ := Configuration.mk.inj doneEq
    exact ⟨rfl, afterRelated⟩
  · obtain ⟨rounds, rfl⟩ := Nat.exists_eq_add_of_le le
    obtain ⟨rfl, endEq⟩ := Machine.run_nil (deterministic.run_suffix finishes run')
    obtain ⟨_, rfl⟩ := Configuration.mk.inj endEq
    exact ⟨Nat.le_refl total, fun _ => ⟨rfl, afterRelated⟩⟩

private theorem run_or_stops (isTotal : concrete.Total) (rest : List (Program Action Test))
    (state : State) (bound : ℕ) :
    (∃ configuration, concrete.Run bound ⟨rest, state⟩ configuration) ∨
      ∃ count configuration, concrete.Run count ⟨rest, state⟩ configuration ∧
        (configuration.rest = [] ∨ concrete.Undecided configuration) := by
  induction bound with
  | zero => exact .inl ⟨_, .start _⟩
  | succ bound induction =>
      rcases induction with ⟨configuration, run⟩ | stops
      · rcases isTotal.progress configuration with ended | ⟨next, step⟩ | undecided
        · exact .inr ⟨bound, configuration, run, .inl ended⟩
        · exact .inl ⟨next, .step run step⟩
        · exact .inr ⟨bound, configuration, run, .inr undecided⟩
      · exact .inr stops

/-- Where the second machine comes to its end, the first one does so, or it stops at
an undecided condition on the way. -/
theorem finishes_or_undecided (simulates : Simulates abstract concrete Related)
    (isTotal : concrete.Total) (deterministic : abstract.Deterministic)
    (related : Related state state') (finishes : abstract.Run total ⟨rest, state'⟩ ⟨[], done⟩) :
    (∃ after, concrete.Run total ⟨rest, state⟩ ⟨[], after⟩ ∧ Related after done) ∨
      ∃ count ≤ total, ∃ configuration, concrete.Run count ⟨rest, state⟩ configuration ∧
        concrete.Undecided configuration := by
  rcases run_or_stops isTotal rest state (total + 1) with ⟨_, tooLong⟩ | stops
  · have bounded := (simulates.run_le deterministic related finishes tooLong).1
    exact absurd bounded (Nat.not_succ_le_self total)
  · obtain ⟨count, ⟨rest', after⟩, run, ended | undecided⟩ := stops
    · obtain ⟨countEq, afterRelated⟩ :=
        (simulates.run_le deterministic related finishes run).2 ended
      change rest' = [] at ended
      subst ended countEq
      exact .inl ⟨after, run, afterRelated⟩
    · have bounded := (simulates.run_le deterministic related finishes run).1
      exact .inr ⟨count, bounded, _, run, undecided⟩

end Simulates

/-- Machines that give the answers of one and the same machine run in step. -/
theorem run_agree {State₁ State₂ : Type*} {abstract : Machine State' Action Test}
    {concrete₁ : Machine State₁ Action Test} {concrete₂ : Machine State₂ Action Test}
    {Related₁ : State₁ → State' → Prop} {Related₂ : State₂ → State' → Prop}
    (simulates₁ : Simulates abstract concrete₁ Related₁)
    (simulates₂ : Simulates abstract concrete₂ Related₂) (deterministic : abstract.Deterministic)
    {rest : List (Program Action Test)} {state₁ : State₁} {state₂ : State₂} {state' : State'}
    (related₁ : Related₁ state₁ state') (related₂ : Related₂ state₂ state') {count : ℕ}
    {last₁ : Configuration State₁ Action Test} {last₂ : Configuration State₂ Action Test}
    (run₁ : concrete₁.Run count ⟨rest, state₁⟩ last₁)
    (run₂ : concrete₂.Run count ⟨rest, state₂⟩ last₂) :
    last₁.rest = last₂.rest ∧
      ∃ after', Related₁ last₁.state after' ∧ Related₂ last₂.state after' := by
  obtain ⟨after₁, abstract₁, afterRelated₁⟩ := simulates₁.run related₁ run₁
  obtain ⟨after₂, abstract₂, afterRelated₂⟩ := simulates₂.run related₂ run₂
  obtain ⟨restEq, rfl⟩ := Configuration.mk.inj (deterministic.run_eq abstract₁ abstract₂)
  exact ⟨restEq, after₁, afterRelated₁, afterRelated₂⟩

end GuardedPrograms
