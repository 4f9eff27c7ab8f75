import Mathlib.Data.Seq.Computation

/-!
# Chains of delegation

A call either answers or delegates to another call.  Iterating one such step is
`Computation.corec`; this file gives the rules for following a chain one step
at a time, and the invariant rule for chains that never answer.
-/

namespace Delegation

variable {State Answer : Type*} {step : State → Answer ⊕ State}

theorem corec_of_answer {state : State} {answer : Answer} (answers : step state = .inl answer) :
    Computation.corec step state = Computation.pure answer := by
  apply Computation.destruct_eq_pure
  rw [Computation.corec_eq, answers]
  rfl

theorem corec_of_delegate {state next : State} (delegates : step state = .inr next) :
    Computation.corec step state = Computation.think (Computation.corec step next) := by
  apply Computation.destruct_eq_think
  rw [Computation.corec_eq, delegates]
  rfl

theorem mem_corec_of_answer {state : State} {answer : Answer} (answers : step state = .inl answer) :
    answer ∈ Computation.corec step state := by
  rw [corec_of_answer answers]
  exact Computation.ret_mem answer

/-- Delegating changes neither whether nor what a chain answers. -/
theorem mem_corec_iff_of_delegate {state next : State} (delegates : step state = .inr next)
    (answer : Answer) :
    answer ∈ Computation.corec step state ↔ answer ∈ Computation.corec step next := by
  rw [corec_of_delegate delegates]
  exact ⟨Computation.of_think_mem, Computation.think_mem⟩

private theorem results_property {invariant : State → Prop} {property : Answer → Prop}
    (answered : ∀ state answer, invariant state → step state = .inl answer → property answer)
    (delegated : ∀ state next, invariant state → step state = .inr next → invariant next)
    {answer : Answer} {count : ℕ} {state : State} (holds : invariant state)
    (results : Computation.Results (Computation.corec step state) answer count) :
    property answer := by
  induction count using Nat.strong_induction_on generalizing state with
  | _ count induction =>
      cases stepEq : step state with
      | inl other =>
          rw [corec_of_answer stepEq] at results
          rw [Computation.eq_of_pure_mem results.mem]
          exact answered state other holds stepEq
      | inr next =>
          rw [corec_of_delegate stepEq] at results
          obtain ⟨remaining, nextResults, rfl⟩ := Computation.of_results_think results
          exact induction remaining (Nat.lt_succ_self remaining)
            (delegated state next holds stepEq) nextResults

/-- Whatever delegation preserves and answers inherit holds of the answer of a
whole chain. -/
theorem property_of_mem_corec {invariant : State → Prop} {property : Answer → Prop}
    (answered : ∀ state answer, invariant state → step state = .inl answer → property answer)
    (delegated : ∀ state next, invariant state → step state = .inr next → invariant next)
    {state : State} (holds : invariant state) {answer : Answer}
    (member : answer ∈ Computation.corec step state) :
    property answer := by
  obtain ⟨count, results⟩ := Computation.exists_results_of_mem member
  exact results_property answered delegated holds results

/-- A chain that stays inside a set of delegating states never answers. -/
theorem notMem_corec_of_invariant {invariant : State → Prop}
    (preserved : ∀ state, invariant state → ∃ next, step state = .inr next ∧ invariant next)
    {state : State} (holds : invariant state) (answer : Answer) :
    answer ∉ Computation.corec step state := by
  intro member
  have answered : ∀ state (other : Answer), invariant state → step state = .inl other → False := by
    intro state other stateHolds answers
    obtain ⟨next, delegates, _⟩ := preserved state stateHolds
    simp [answers] at delegates
  have delegated : ∀ state next, invariant state → step state = .inr next → invariant next := by
    intro state next stateHolds delegates
    obtain ⟨other, delegates', otherHolds⟩ := preserved state stateHolds
    rw [delegates, Sum.inr.injEq] at delegates'
    exact delegates' ▸ otherHolds
  exact property_of_mem_corec answered delegated holds member

theorem exists_mem_corec_of_rank {invariant : State → Prop} (rank : State → ℕ)
    (progress : ∀ state, invariant state → (∃ answer, step state = .inl answer) ∨
      ∃ next, step state = .inr next ∧ invariant next ∧ rank next < rank state)
    {state : State} (holds : invariant state) :
    ∃ answer, answer ∈ Computation.corec step state := by
  induction rankEq : rank state using Nat.strong_induction_on generalizing state with
  | _ count induction =>
      rcases progress state holds with ⟨answer, answers⟩ | ⟨next, delegates, nextHolds, smaller⟩
      · exact ⟨answer, mem_corec_of_answer answers⟩
      · obtain ⟨answer, member⟩ := induction (rank next) (rankEq ▸ smaller) nextHolds rfl
        exact ⟨answer, (mem_corec_iff_of_delegate delegates answer).mpr member⟩

theorem mem_map_iff {Result : Type*} (function : Answer → Result) (chain : Computation Answer)
    (result : Result) :
    result ∈ Computation.map function chain ↔ ∃ answer ∈ chain, function answer = result :=
  ⟨Computation.exists_of_mem_map, fun ⟨_, member, equal⟩ =>
    equal ▸ Computation.mem_map function member⟩

end Delegation
