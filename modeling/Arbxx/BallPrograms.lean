import Arbxx.BallComparison
import Arbxx.GuardedPrograms

/-!
# Programs that compute with balls

Programs over variables of type `Arb` that construct, assign, move and negate, that
call functions of the library on the elements behind `arb_t()`, and that branch and
loop on comparisons.  Where a comparison returns no answer, such a program does not
go on.

The same programs run on extended reals.  A run on balls takes the way of the run on
the numbers in its balls.
-/

namespace Arbxx

open GuardedPrograms ThreeValued

/-! ### Programs and their interpretations -/

/-- Statements on variables of type `Arb`.  The external functions write to a target
what they compute from some sources. -/
inductive BallAction (model : DataModel) (Name External : Type)
  | construct (target : Name) (x : Operand model)
  | assign (target : Name) (rhs : Operand model)
  | ofMpq (target : Name) (rat : Mpq)
  | copyAssign (target source : Name)
  | moveAssign (target source : Name)
  | operatorNeg (target source : Name)
  | external (function : External) (target : Name) (sources : List Name)

/-- The comparison operators of `Arb`, with the other operand on either side. -/
inductive BallTest (model : DataModel) (Name : Type)
  | operator (comparison : Comparison) (lhs rhs : Name)
  | operatorInteger (comparison : Comparison) (lhs : Name) (rhs : Operand model)
  | integerOperator (comparison : Comparison) (lhs : Operand model) (rhs : Name)
  | operatorMpq (comparison : Comparison) (lhs : Name) (rhs : Mpq)
  | mpqOperator (comparison : Comparison) (lhs : Mpq) (rhs : Name)

/-- What the statements and comparisons compute, for variables of some type. -/
structure Interpretation (model : DataModel) (External V : Type) where
  Construct : Operand model → V → Prop
  Assign : Operand model → V → Prop
  ofMpq : Mpq → V
  neg : V → V
  external : External → List V → V
  Operator : Comparison → V → V → Option Bool → Prop
  OperatorInteger : Comparison → V → Operand model → Option Bool → Prop
  IntegerOperator : Comparison → Operand model → V → Option Bool → Prop
  OperatorMpq : Comparison → V → Mpq → Option Bool → Prop
  MpqOperator : Comparison → Mpq → V → Option Bool → Prop

namespace Interpretation

variable {model : DataModel} {Name External V V' : Type} [DecidableEq Name]

/-- Move assignment swaps the two elements. -/
def machine (interpretation : Interpretation model External V) :
    Machine (Name → V) (BallAction model Name External) (BallTest model Name) where
  Performs
    | .construct target x, state, after =>
        ∃ value, interpretation.Construct x value ∧ after = Function.update state target value
    | .assign target rhs, state, after =>
        ∃ value, interpretation.Assign rhs value ∧ after = Function.update state target value
    | .ofMpq target rat, state, after =>
        after = Function.update state target (interpretation.ofMpq rat)
    | .copyAssign target source, state, after =>
        after = Function.update state target (state source)
    | .moveAssign target source, state, after =>
        after = Function.update (Function.update state target (state source)) source (state target)
    | .operatorNeg target source, state, after =>
        after = Function.update state target (interpretation.neg (state source))
    | .external function target sources, state, after =>
        after = Function.update state target (interpretation.external function (sources.map state))
  Answers
    | .operator comparison lhs rhs, state, answer =>
        interpretation.Operator comparison (state lhs) (state rhs) answer
    | .operatorInteger comparison lhs rhs, state, answer =>
        interpretation.OperatorInteger comparison (state lhs) rhs answer
    | .integerOperator comparison lhs rhs, state, answer =>
        interpretation.IntegerOperator comparison lhs (state rhs) answer
    | .operatorMpq comparison lhs rhs, state, answer =>
        interpretation.OperatorMpq comparison (state lhs) rhs answer
    | .mpqOperator comparison lhs rhs, state, answer =>
        interpretation.MpqOperator comparison lhs (state rhs) answer

/-- All operations keep a relation between the values of two interpretations, and
comparisons of related values are answered alike where the first one answers. -/
structure Transfers (abstract : Interpretation model External V')
    (concrete : Interpretation model External V) (Related : V → V' → Prop) : Prop where
  construct : ∀ x value, concrete.Construct x value →
    ∃ value', abstract.Construct x value' ∧ Related value value'
  assign : ∀ rhs value, concrete.Assign rhs value →
    ∃ value', abstract.Assign rhs value' ∧ Related value value'
  ofMpq : ∀ rat, Related (concrete.ofMpq rat) (abstract.ofMpq rat)
  neg : ∀ value value', Related value value' → Related (concrete.neg value) (abstract.neg value')
  external : ∀ function values values', List.Forall₂ Related values values' →
    Related (concrete.external function values) (abstract.external function values')
  operator : ∀ comparison lhs lhs' rhs rhs' answer, Related lhs lhs' → Related rhs rhs' →
    concrete.Operator comparison lhs rhs (some answer) →
      abstract.Operator comparison lhs' rhs' (some answer)
  operatorInteger : ∀ comparison lhs lhs' rhs answer, Related lhs lhs' →
    concrete.OperatorInteger comparison lhs rhs (some answer) →
      abstract.OperatorInteger comparison lhs' rhs (some answer)
  integerOperator : ∀ comparison lhs rhs rhs' answer, Related rhs rhs' →
    concrete.IntegerOperator comparison lhs rhs (some answer) →
      abstract.IntegerOperator comparison lhs rhs' (some answer)
  operatorMpq : ∀ comparison lhs lhs' rhs answer, Related lhs lhs' →
    concrete.OperatorMpq comparison lhs rhs (some answer) →
      abstract.OperatorMpq comparison lhs' rhs (some answer)
  mpqOperator : ∀ comparison lhs rhs rhs' answer, Related rhs rhs' →
    concrete.MpqOperator comparison lhs rhs (some answer) →
      abstract.MpqOperator comparison lhs rhs' (some answer)

/-- Variables hold related values. -/
def Pointwise (Related : V → V' → Prop) (state : Name → V) (state' : Name → V') : Prop :=
  ∀ name, Related (state name) (state' name)

variable {Related : V → V' → Prop} {state : Name → V} {state' : Name → V'}

omit [DecidableEq Name] in
theorem Pointwise.map (related : Pointwise Related state state') (sources : List Name) :
    List.Forall₂ Related (sources.map state) (sources.map state') := by
  induction sources with
  | nil => exact .nil
  | cons source sources induction => exact .cons (related source) induction

theorem Pointwise.update (related : Pointwise Related state state') (target : Name) {value : V}
    {value' : V'} (values : Related value value') :
    Pointwise Related (Function.update state target value)
      (Function.update state' target value') := by
  intro name
  by_cases same : name = target
  · subst same
    rw [Function.update_self, Function.update_self]
    exact values
  · rw [Function.update_of_ne same, Function.update_of_ne same]
    exact related name

theorem Transfers.simulates {abstract : Interpretation model External V'}
    {concrete : Interpretation model External V}
    (transfers : abstract.Transfers concrete Related) :
    Simulates abstract.machine concrete.machine
      fun state : Name → V => Pointwise Related state where
  performs action state after state' related performs := by
    cases action with
    | construct target x =>
        obtain ⟨value, constructs, rfl⟩ := performs
        obtain ⟨value', constructs', values⟩ := transfers.construct x value constructs
        exact ⟨_, ⟨value', constructs', rfl⟩, related.update target values⟩
    | assign target rhs =>
        obtain ⟨value, assigns, rfl⟩ := performs
        obtain ⟨value', assigns', values⟩ := transfers.assign rhs value assigns
        exact ⟨_, ⟨value', assigns', rfl⟩, related.update target values⟩
    | ofMpq target rat =>
        subst performs
        exact ⟨_, rfl, related.update target (transfers.ofMpq rat)⟩
    | copyAssign target source =>
        subst performs
        exact ⟨_, rfl, related.update target (related source)⟩
    | moveAssign target source =>
        subst performs
        exact ⟨_, rfl, (related.update target (related source)).update source (related target)⟩
    | operatorNeg target source =>
        subst performs
        exact ⟨_, rfl, related.update target (transfers.neg _ _ (related source))⟩
    | external function target sources =>
        subst performs
        exact ⟨_, rfl,
          related.update target (transfers.external function _ _ (related.map sources))⟩
  answers question state state' answer related answers := by
    cases question with
    | operator comparison lhs rhs =>
        exact transfers.operator comparison _ _ _ _ answer (related lhs) (related rhs) answers
    | operatorInteger comparison lhs rhs =>
        exact transfers.operatorInteger comparison _ _ rhs answer (related lhs) answers
    | integerOperator comparison lhs rhs =>
        exact transfers.integerOperator comparison lhs _ _ answer (related rhs) answers
    | operatorMpq comparison lhs rhs =>
        exact transfers.operatorMpq comparison _ _ rhs answer (related lhs) answers
    | mpqOperator comparison lhs rhs =>
        exact transfers.mpqOperator comparison lhs _ _ answer (related rhs) answers

end Interpretation

/-! ### Balls and numbers -/

namespace Arb

variable {model : DataModel} {Name External : Type} [DecidableEq Name]

/-- Programs on balls, with rational numbers at some precision. -/
def interpretation (lib : CLibrary model) (external : External → List Arb → Arb)
    (precision : ℤ) : Interpretation model External Arb where
  Construct x value := value ∈ construct lib x
  Assign rhs value := value ∈ assign lib rhs
  ofMpq rat := ofMpqPrec lib rat precision
  neg := operatorNeg lib
  external := external
  Operator comparison lhs rhs answer := answer = operator lib comparison lhs rhs
  OperatorInteger comparison lhs rhs answer := answer ∈ operatorInteger lib comparison lhs rhs
  IntegerOperator comparison lhs rhs answer := answer ∈ integerOperator lib comparison lhs rhs
  OperatorMpq comparison lhs rhs answer := answer = operatorMpq lib comparison lhs rhs
  MpqOperator comparison lhs rhs answer := answer = mpqOperator lib comparison lhs rhs

open Classical in
/-- Programs on extended reals, where every comparison has its truth value. -/
noncomputable def numbers (model : DataModel) (external : External → List EReal → EReal) :
    Interpretation model External EReal where
  Construct x value := value = ((x.integer : ℝ) : EReal)
  Assign rhs value := value = ((rhs.integer : ℝ) : EReal)
  ofMpq rat := rat.toEReal
  neg value := -value
  external := external
  Operator comparison lhs rhs answer := answer = some (decide (comparison.Holds lhs rhs))
  OperatorInteger comparison lhs rhs answer :=
    answer = some (decide (comparison.Holds lhs ((rhs.integer : ℝ) : EReal)))
  IntegerOperator comparison lhs rhs answer :=
    answer = some (decide (comparison.Holds ((lhs.integer : ℝ) : EReal) rhs))
  OperatorMpq comparison lhs rhs answer := answer = some (decide (comparison.Holds lhs rhs.toEReal))
  MpqOperator comparison lhs rhs answer := answer = some (decide (comparison.Holds lhs.toEReal rhs))

/-- The external functions on balls enclose functions on numbers. -/
def EnclosesExternal (external : External → List Arb → Arb)
    (exactExternal : External → List EReal → EReal) : Prop :=
  ∀ function balls values, List.Forall₂ (fun (x : Arb) t => t ∈ x.elements) balls values →
    exactExternal function values ∈ (external function balls).elements

/-- Every ball contains the number of the same name. -/
def Enclosed (balls : Name → Arb) (values : Name → EReal) : Prop :=
  Interpretation.Pointwise (fun (x : Arb) t => t ∈ x.elements) balls values

/-- Inside another ball, and not around NaN. -/
def Refines (x x' : Arb) : Prop :=
  x'.mid ≠ .nan ∧ x'.elements ⊆ x.elements

variable (model Name) in
theorem numbers_deterministic (external : External → List EReal → EReal) :
    ((numbers model external).machine : Machine (Name → EReal) _ _).Deterministic where
  performs action state state' state'' performs performs' := by
    cases action with
    | construct target x | assign target x =>
        obtain ⟨value, rfl, rfl⟩ := performs
        obtain ⟨value', rfl, rfl⟩ := performs'
        rfl
    | _ => exact performs.trans performs'.symm
  answers question state value value' answers answers' := by
    cases question <;> exact answers.trans answers'.symm

section Enclosures

variable {lib : CLibrary model} {external external' : External → List Arb → Arb}
  {exactExternal : External → List EReal → EReal} {precision precision' : ℤ}

open Classical in
private theorem some_eq_decide {proposition : Prop} {answer : Bool}
    (truth : proposition ↔ answer = true) : some answer = some (decide proposition) := by
  cases answer with
  | true => rw [decide_eq_true (truth.mpr rfl)]
  | false => rw [decide_eq_false (fun holds => Bool.false_ne_true (truth.mp holds))]

theorem neg_mem (handles : lib.HandlesBalls) {x : Arb} {t : EReal} (member : t ∈ x.elements) :
    -t ∈ (operatorNeg lib x).elements := by
  rw [operatorNeg, handles.neg_eq, elements_neg]
  exact Set.mem_image_of_mem _ member

theorem Refines.neg (handles : lib.HandlesBalls) {x x' : Arb} (refines : Refines x x') :
    Refines (operatorNeg lib x) (operatorNeg lib x') := by
  obtain ⟨number, subset⟩ := refines
  rw [operatorNeg, operatorNeg, handles.neg_eq, handles.neg_eq]
  refine ⟨fun isNan => number (Arf.neg_eq_nan.mp isNan), ?_⟩
  rw [elements_neg, elements_neg]
  exact Set.image_mono subset

/-- Whatever is computed from balls contains what is computed from their numbers,
and answers are true of the numbers. -/
theorem numbers_transfers (compares : lib.ComparesBalls) (sets : lib.SetsIntegers)
    (encloses : lib.EnclosesRationals) (handles : lib.HandlesBalls)
    (enclosesExternal : EnclosesExternal external exactExternal) :
    (numbers model exactExternal).Transfers (interpretation lib external precision)
      (fun x t => t ∈ x.elements) where
  construct x value member := by
    obtain ⟨_, rfl⟩ := (mem_construct_iff lib sets x value).mp member
    refine ⟨_, rfl, ?_⟩
    rw [elements_ofInt]
    exact Set.mem_singleton _
  assign rhs value member := by
    obtain ⟨_, rfl⟩ := (mem_assign_iff lib sets rhs value).mp member
    refine ⟨_, rfl, ?_⟩
    rw [elements_ofInt]
    exact Set.mem_singleton _
  ofMpq rat := encloses.mem_setFmpq rat precision
  neg x t := neg_mem handles
  external := enclosesExternal
  operator comparison lhs t rhs u answer lhsMem rhsMem answered := by
    obtain ⟨_, _, everywhere⟩ := holds_iff_of_operator_eq_some compares answered.symm
    exact some_eq_decide (everywhere t lhsMem u rhsMem)
  operatorInteger comparison lhs t rhs answer lhsMem answered := by
    obtain ⟨_, answerEq⟩ := (mem_operatorInteger_iff lib sets comparison lhs rhs _).mp answered
    obtain ⟨_, _, everywhere⟩ := holds_iff_of_operator_eq_some compares answerEq.symm
    apply some_eq_decide
    apply everywhere t lhsMem
    rw [elements_ofInt]
    exact Set.mem_singleton _
  integerOperator comparison lhs rhs u answer rhsMem answered := by
    obtain ⟨_, answerEq⟩ := (mem_integerOperator_iff lib sets comparison lhs rhs _).mp answered
    obtain ⟨_, _, everywhere⟩ := holds_iff_of_operator_eq_some compares answerEq.symm
    apply some_eq_decide
    refine everywhere _ ?_ u rhsMem
    rw [elements_ofInt]
    exact Set.mem_singleton _
  operatorMpq comparison lhs t rhs answer lhsMem answered := by
    change some answer = operatorMpq lib comparison lhs rhs at answered
    rw [operatorMpq_eq] at answered
    obtain ⟨_, _, everywhere⟩ := holds_iff_of_operator_eq_some compares answered.symm
    exact some_eq_decide (everywhere t lhsMem _ (encloses.mem_setFmpq rhs _))
  mpqOperator comparison lhs rhs u answer rhsMem answered := by
    change some answer = mpqOperator lib comparison lhs rhs at answered
    rw [mpqOperator_eq] at answered
    obtain ⟨_, _, everywhere⟩ := holds_iff_of_operator_eq_some compares answered.symm
    exact some_eq_decide (everywhere _ (encloses.mem_setFmpq lhs _) u rhsMem)

variable (Name precision) in
theorem numbers_simulates (compares : lib.ComparesBalls) (sets : lib.SetsIntegers)
    (encloses : lib.EnclosesRationals) (handles : lib.HandlesBalls)
    (enclosesExternal : EnclosesExternal external exactExternal) :
    Simulates (numbers model exactExternal).machine
      (interpretation lib external precision).machine fun balls : Name → Arb => Enclosed balls :=
  (numbers_transfers compares sets encloses handles enclosesExternal).simulates

/-- Where FLINT's `slong` is `long` every overload returns. -/
theorem interpretation_total (sets : lib.SetsIntegers) (native : model.flintLong = .long) :
    ((interpretation lib external precision).machine : Machine (Name → Arb) _ _).Total where
  performs action state := by
    cases action with
    | construct target x =>
        exact ⟨_, _, (mem_construct_iff lib sets x _).mpr ⟨.inl native, rfl⟩, rfl⟩
    | assign target rhs =>
        exact ⟨_, _, (mem_assign_iff lib sets rhs _).mpr ⟨.inl native, rfl⟩, rfl⟩
    | _ => exact ⟨_, rfl⟩
  answers question state := by
    cases question with
    | operatorInteger comparison lhs rhs =>
        exact ⟨_, (mem_operatorInteger_iff lib sets comparison _ rhs _).mpr ⟨.inl native, rfl⟩⟩
    | integerOperator comparison lhs rhs =>
        exact ⟨_, (mem_integerOperator_iff lib sets comparison lhs _ _).mpr ⟨.inl native, rfl⟩⟩
    | _ => exact ⟨_, rfl⟩

/-- A program on balls takes the same way as on any numbers inside its balls, and its
balls contain the numbers at every point.  If it ends for the numbers, then it ends
for the balls after the same number of steps or stops before at an undecided
comparison; in particular it does not run on forever. -/
theorem ballProgram_follows_numbers (compares : lib.ComparesBalls) (sets : lib.SetsIntegers)
    (encloses : lib.EnclosesRationals) (handles : lib.HandlesBalls)
    (enclosesExternal : EnclosesExternal external exactExternal) {balls : Name → Arb}
    {values : Name → EReal} (enclosed : Enclosed balls values)
    (program : Program (BallAction model Name External) (BallTest model Name)) :
    (∀ count configuration,
      (interpretation lib external precision).machine.Run count ⟨[program], balls⟩ configuration →
      ∃ values', (numbers model exactExternal).machine.Run count ⟨[program], values⟩
        ⟨configuration.rest, values'⟩ ∧ Enclosed configuration.state values') ∧
    ∀ total result,
      (numbers model exactExternal).machine.Run total ⟨[program], values⟩ ⟨[], result⟩ →
      (∀ count configuration,
        (interpretation lib external precision).machine.Run count ⟨[program], balls⟩
          configuration → count ≤ total) ∧
      (model.flintLong = .long →
        (∃ balls', (interpretation lib external precision).machine.Run total ⟨[program], balls⟩
          ⟨[], balls'⟩ ∧ Enclosed balls' result) ∨
        ∃ count ≤ total, ∃ configuration,
          (interpretation lib external precision).machine.Run count ⟨[program], balls⟩
            configuration ∧
          (interpretation lib external precision).machine.Undecided configuration) := by
  have simulates := numbers_simulates Name precision compares sets encloses handles
    enclosesExternal
  have deterministic := numbers_deterministic model Name exactExternal
  refine ⟨fun count configuration run => simulates.run enclosed run, ?_⟩
  intro total result finishes
  refine ⟨fun count configuration run =>
    (simulates.run_le deterministic enclosed finishes run).1, ?_⟩
  intro native
  exact simulates.finishes_or_undecided (interpretation_total sets native) deterministic enclosed
    finishes

/-- At two precisions, with other roundings of the external functions, and from other
balls around the same numbers, a program takes the same way as far as it gets, the
balls of every variable meet, and runs that come to their end have the same length. -/
theorem ballPrograms_agree (compares : lib.ComparesBalls) (sets : lib.SetsIntegers)
    (encloses : lib.EnclosesRationals) (handles : lib.HandlesBalls)
    (enclosesExternal : EnclosesExternal external exactExternal)
    (enclosesExternal' : EnclosesExternal external' exactExternal) {balls balls' : Name → Arb}
    {values : Name → EReal} (enclosed : Enclosed balls values) (enclosed' : Enclosed balls' values)
    (program : Program (BallAction model Name External) (BallTest model Name)) :
    (∀ count configuration configuration',
      (interpretation lib external precision).machine.Run count ⟨[program], balls⟩ configuration →
      (interpretation lib external' precision').machine.Run count ⟨[program], balls'⟩
        configuration' →
      configuration.rest = configuration'.rest ∧
        ∀ x, ((configuration.state x).elements ∩ (configuration'.state x).elements).Nonempty) ∧
    ∀ count count' final final',
      (interpretation lib external precision).machine.Run count ⟨[program], balls⟩ ⟨[], final⟩ →
      (interpretation lib external' precision').machine.Run count' ⟨[program], balls'⟩
        ⟨[], final'⟩ →
      count = count' ∧ ∀ x, ((final x).elements ∩ (final' x).elements).Nonempty := by
  have simulates := numbers_simulates Name precision compares sets encloses handles
    enclosesExternal
  have simulates' := numbers_simulates Name precision' compares sets encloses handles
    enclosesExternal'
  have deterministic := numbers_deterministic model Name exactExternal
  constructor
  · intro count configuration configuration' run run'
    obtain ⟨restEq, values', here, there⟩ :=
      run_agree simulates simulates' deterministic enclosed enclosed' run run'
    exact ⟨restEq, fun x => ⟨values' x, here x, there x⟩⟩
  · intro count count' final final' run run'
    obtain ⟨values', finishes, here⟩ := simulates.run enclosed run
    obtain ⟨countEq, there⟩ :=
      (simulates'.run_le deterministic enclosed' finishes run').2 rfl
    exact ⟨countEq.symm, fun x => ⟨values' x, here x, there x⟩⟩

theorem Refines.rfl {x : Arb} (number : x.mid ≠ .nan) : Refines x x :=
  ⟨number, subset_rfl⟩

/-- Operations on smaller balls compute smaller balls, and keep the answers. -/
theorem refines_transfers (compares : lib.ComparesBalls) (sets : lib.SetsIntegers)
    (encloses : lib.EnclosesRationals) (handles : lib.HandlesBalls)
    (isotone : ∀ function balls balls', List.Forall₂ Refines balls balls' →
      Refines (external function balls) (external function balls')) :
    (interpretation lib external precision).Transfers (interpretation lib external precision)
      Refines where
  construct x value member := by
    obtain ⟨_, rfl⟩ := (mem_construct_iff lib sets x value).mp member
    exact ⟨_, member, Refines.rfl (Arf.ofInt_ne_nan _)⟩
  assign rhs value member := by
    obtain ⟨_, rfl⟩ := (mem_assign_iff lib sets rhs value).mp member
    exact ⟨_, member, Refines.rfl (Arf.ofInt_ne_nan _)⟩
  ofMpq rat := Refines.rfl
    ((elements_nonempty_iff _).mp ⟨rat.toEReal, encloses.mem_setFmpq rat precision⟩)
  neg _ _ := Refines.neg handles
  external := isotone
  operator comparison x x' y y' answer xRefines yRefines answered :=
    (operator_mono compares xRefines.1 yRefines.1 xRefines.2 yRefines.2 answered.symm).symm
  operatorInteger comparison x x' n answer refines answered := by
    obtain ⟨settles, answerEq⟩ := (mem_operatorInteger_iff lib sets comparison x n _).mp answered
    apply (mem_operatorInteger_iff lib sets comparison x' n _).mpr
    exact ⟨settles, (operator_mono compares refines.1 (Arf.ofInt_ne_nan _) refines.2 subset_rfl
      answerEq.symm).symm⟩
  integerOperator comparison n x x' answer refines answered := by
    obtain ⟨settles, answerEq⟩ := (mem_integerOperator_iff lib sets comparison n x _).mp answered
    apply (mem_integerOperator_iff lib sets comparison n x' _).mpr
    exact ⟨settles, (operator_mono compares (Arf.ofInt_ne_nan _) refines.1 subset_rfl refines.2
      answerEq.symm).symm⟩
  operatorMpq comparison x x' q answer refines answered := by
    change some answer = operatorMpq lib comparison x q at answered
    change some answer = operatorMpq lib comparison x' q
    rw [operatorMpq_eq] at answered ⊢
    obtain ⟨_, number, _⟩ := holds_iff_of_operator_eq_some compares answered.symm
    exact (operator_mono compares refines.1 number refines.2 subset_rfl answered.symm).symm
  mpqOperator comparison q x x' answer refines answered := by
    change some answer = mpqOperator lib comparison q x at answered
    change some answer = mpqOperator lib comparison q x'
    rw [mpqOperator_eq] at answered ⊢
    obtain ⟨number, _, _⟩ := holds_iff_of_operator_eq_some compares answered.symm
    exact (operator_mono compares number refines.1 subset_rfl refines.2 answered.symm).symm

/-- From smaller balls a program gets at least as far, by the same way, and its balls
stay inside those it had before; where it ended it ends after as many steps. -/
theorem ballProgram_refines (compares : lib.ComparesBalls) (sets : lib.SetsIntegers)
    (encloses : lib.EnclosesRationals) (handles : lib.HandlesBalls)
    (isotone : ∀ function balls balls', List.Forall₂ Refines balls balls' →
      Refines (external function balls) (external function balls')) {balls balls' : Name → Arb}
    (refines : ∀ x, Refines (balls x) (balls' x))
    (program : Program (BallAction model Name External) (BallTest model Name)) (count : ℕ)
    (configuration : Configuration (Name → Arb) (BallAction model Name External)
      (BallTest model Name))
    (run : (interpretation lib external precision).machine.Run count ⟨[program], balls⟩
      configuration) :
    ∃ final, (interpretation lib external precision).machine.Run count ⟨[program], balls'⟩
        ⟨configuration.rest, final⟩ ∧
      ∀ x, Refines (configuration.state x) (final x) :=
  (refines_transfers compares sets encloses handles isotone).simulates.run refines run

end Enclosures

/-! ### A loop -/

section Loop

open CLibrary

/-- `arb_neg` on the first of some balls. -/
def negateFirst (balls : List Arb) : Arb :=
  operatorNeg (reference .lp64) (balls.headD (exact (.finite 0)))

theorem enclosesExternal_negateFirst :
    EnclosesExternal (fun _ : Unit => negateFirst) fun _ values => -values.headD 0 := by
  intro _ balls values related
  apply neg_mem (reference_handlesBalls .lp64)
  cases related with
  | nil =>
      rw [List.headD_nil, List.headD_nil, elements_exact (by simp)]
      simp [Arf.toEReal, Dyadic.toEReal]
  | cons member _ => exact member

theorem refines_negateFirst {balls balls' : List Arb}
    (related : List.Forall₂ Refines balls balls') :
    Refines (negateFirst balls) (negateFirst balls') := by
  apply Refines.neg (reference_handlesBalls .lp64)
  cases related with
  | nil => exact Refines.rfl (by simp)
  | cons refines _ => exact refines

def third : Mpq :=
  ⟨1, 3, by decide⟩

/-- `x = Arb(1/3, precision); while ((x > 0).value()) arb_neg(x, x);` -/
def negateWhilePositive : Program (BallAction .lp64 Unit Unit) (BallTest .lp64 Unit) :=
  .sequence (.act (.ofMpq () third))
    (.loop (.test (.operatorInteger .gt () (.mpz 0))) (.act (.external () () [()])))

theorem run_negateWhilePositive (precision : ℤ) (start : Arb)
    (positive : operator (reference .lp64) .gt (ofMpqPrec (reference .lp64) third precision)
      (exact (Arf.ofInt 0)) = some true)
    (negative : operator (reference .lp64) .gt
      (negateFirst [ofMpqPrec (reference .lp64) third precision]) (exact (Arf.ofInt 0)) =
        some false) :
    ∃ final, (interpretation (reference .lp64) (fun _ => negateFirst) precision).machine.Run 5
      ⟨[negateWhilePositive], fun _ => start⟩ ⟨[], final⟩ := by
  have answers {x : Arb} {answer : Bool}
      (operatorEq : operator (reference .lp64) .gt x (exact (Arf.ofInt 0)) = some answer) :
      some answer ∈ operatorInteger (reference .lp64) .gt x (.mpz 0) :=
    (mem_operatorInteger_iff _ (reference_setsIntegers .lp64) .gt x (.mpz 0) _).mpr
      ⟨.inl rfl, operatorEq.symm⟩
  exact ⟨_, .step (.step (.step (.step (.step (.start _) .sequence) (.act rfl))
    (.again (answers positive))) (.act rfl)) (.leave (answers negative))⟩

private theorem run_at_64 (start : Arb) :
    ∃ final, (interpretation (reference .lp64) (fun _ => negateFirst) 64).machine.Run 5
      ⟨[negateWhilePositive], fun _ => start⟩ ⟨[], final⟩ :=
  run_negateWhilePositive 64 start (by decide +kernel) (by decide +kernel)

private theorem zero_enclosed : Enclosed (fun _ : Unit => exact (.finite 0)) fun _ => 0 := by
  intro _
  rw [elements_exact (by simp)]
  simp [Arf.toEReal, Dyadic.toEReal]

private theorem zero_mem_zeroPmOne : 0 ∈ unitBall.elements :=
  ⟨0, by simp, by simp [show (1 : Dyadic).toRat = 1 from rfl]⟩

/-- Neither the loop on balls nor that on numbers runs on after five steps. -/
theorem ballProgram_follows_numbers_loop :
    ∃ final values,
      (interpretation (reference .lp64) (fun _ => negateFirst) 64).machine.Run 5
        ⟨[negateWhilePositive], fun _ : Unit => exact (.finite 0)⟩ ⟨[], final⟩ ∧
      (numbers .lp64 fun (_ : Unit) values => -values.headD 0).machine.Run 5
        ⟨[negateWhilePositive], fun _ => 0⟩ ⟨[], values⟩ ∧ Enclosed final values := by
  obtain ⟨final, run⟩ := run_at_64 (exact (.finite 0))
  obtain ⟨values, run', enclosed'⟩ := (ballProgram_follows_numbers
    (reference_comparesBalls .lp64) (reference_setsIntegers .lp64)
    (reference_enclosesRationals .lp64) (reference_handlesBalls .lp64)
    enclosesExternal_negateFirst zero_enclosed negateWhilePositive).1 5 _ run
  exact ⟨final, values, run, run', enclosed'⟩

/-- At 64 and at 128 bits the loop ends with balls that meet. -/
theorem ballPrograms_agree_loop :
    ∃ final final',
      (interpretation (reference .lp64) (fun _ => negateFirst) 64).machine.Run 5
        ⟨[negateWhilePositive], fun _ : Unit => exact (.finite 0)⟩ ⟨[], final⟩ ∧
      (interpretation (reference .lp64) (fun _ => negateFirst) 128).machine.Run 5
        ⟨[negateWhilePositive], fun _ : Unit => unitBall⟩ ⟨[], final'⟩ ∧
      ((final ()).elements ∩ (final' ()).elements).Nonempty := by
  obtain ⟨final, run⟩ := run_at_64 (exact (.finite 0))
  obtain ⟨final', run'⟩ := run_negateWhilePositive 128 unitBall
    (by decide +kernel) (by decide +kernel)
  have agree := (ballPrograms_agree (reference_comparesBalls .lp64) (reference_setsIntegers .lp64)
    (reference_enclosesRationals .lp64) (reference_handlesBalls .lp64)
    enclosesExternal_negateFirst enclosesExternal_negateFirst zero_enclosed
    (fun _ => zero_mem_zeroPmOne) negateWhilePositive).2 5 5 final final' run run'
  exact ⟨final, final', run, run', agree.2 ()⟩

theorem ballProgram_refines_loop :
    ∃ final final',
      (interpretation (reference .lp64) (fun _ => negateFirst) 64).machine.Run 5
        ⟨[negateWhilePositive], fun _ : Unit => unitBall⟩ ⟨[], final⟩ ∧
      (interpretation (reference .lp64) (fun _ => negateFirst) 64).machine.Run 5
        ⟨[negateWhilePositive], fun _ : Unit => exact (.finite 0)⟩ ⟨[], final'⟩ ∧
      Refines (final ()) (final' ()) := by
  have inside : Refines unitBall (exact (.finite 0)) := by
    refine ⟨by simp, ?_⟩
    rw [elements_exact (by simp), Set.singleton_subset_iff]
    have zero : (Arf.finite 0).toEReal = 0 := by simp [Arf.toEReal, Dyadic.toEReal]
    rw [zero]
    exact zero_mem_zeroPmOne
  obtain ⟨final, run⟩ := run_at_64 unitBall
  obtain ⟨final', run', refines⟩ := ballProgram_refines (reference_comparesBalls .lp64)
    (reference_setsIntegers .lp64) (reference_enclosesRationals .lp64)
    (reference_handlesBalls .lp64) (fun _ _ _ => refines_negateFirst) (fun _ => inside)
    negateWhilePositive 5 _ run
  exact ⟨final, final', run, run', refines ()⟩

end Loop

end Arb

end Arbxx
