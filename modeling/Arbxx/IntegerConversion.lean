import Arbxx.ArbOperators
import Arbxx.ArfOperators
import Arbxx.ReferenceLibrary

/-!
# Where integer arguments arrive

Every chain of delegations that ends hands over the integer it was given, so
constructors and assignments make the same exact element of it.  The chains end
on every platform where FLINT's `slong` is `long`.  Where it is `long long`,
`to_supported_integer` answers with a `long long` type, and the overloads that
consult it call themselves.
-/

namespace Arbxx

open CLibrary

variable {model : DataModel} {lib : CLibrary model}

/-- For an argument of a built-in type, an overload hands its exact value to the
library exactly if its chain settles; and then constructor and assignment make
the same exact element of it. -/
theorem delegations_deliver_iff (sets : lib.SetsIntegers) (type : IntegerType)
    (value : model.Value type) :
    (∀ overload : Overload,
      ((∃ call ∈ run lib overload (.ofType type value), call.integer = value.val) ↔
        overload.Settles (.ofType type value))) ∧
    ((∃ x ∈ Arb.construct lib (.ofType type value), x ∈ Arb.assign lib (.ofType type value) ∧
        x = Arb.exact (Arf.ofInt value.val)) ↔
      Overload.arbConstructor.Settles (.ofType type value) ∧
        Overload.arbAssign.Settles (.ofType type value)) ∧
    ((∃ a ∈ Arf.construct lib (.ofType type value), a ∈ Arf.assign lib (.ofType type value) ∧
        a = Arf.ofInt value.val) ↔
      Overload.arfConstructor.Settles (.ofType type value) ∧
        Overload.arfAssign.Settles (.ofType type value)) := by
  have arrives : (Operand.ofType type value).integer = value.val :=
    Operand.integer_ofType type value
  refine ⟨fun overload => ?_, ?_, ?_⟩
  · rw [← exists_mem_run_iff lib]
    constructor
    · rintro ⟨call, member, _⟩
      exact ⟨call, member⟩
    · rintro ⟨call, member⟩
      exact ⟨call, member, (delivers_of_mem_run lib sets member).1.trans arrives⟩
  · simp only [Arb.mem_construct_iff lib sets, Arb.mem_assign_iff lib sets, arrives]
    constructor
    · rintro ⟨x, ⟨constructs, _⟩, ⟨assigns, _⟩, _⟩
      exact ⟨constructs, assigns⟩
    · rintro ⟨constructs, assigns⟩
      exact ⟨_, ⟨constructs, rfl⟩, ⟨assigns, rfl⟩, rfl⟩
  · simp only [Arf.mem_construct_iff lib sets, Arf.mem_assign_iff lib sets, arrives]
    constructor
    · rintro ⟨a, ⟨constructs, _⟩, ⟨assigns, _⟩, _⟩
      exact ⟨constructs, assigns⟩
    · rintro ⟨constructs, assigns⟩
      exact ⟨_, ⟨constructs, rfl⟩, ⟨assigns, rfl⟩, rfl⟩

/-- `Arf < unsigned short` arrives where `slong` is `long`. -/
theorem delegations_deliver_unsignedShort :
    ∃ call ∈ run (reference .lp64) .arfLess
        (.unsignedShort (DataModel.lp64.staticCast .unsignedShort 65535)),
      call.integer = 65535 :=
  ((delegations_deliver_iff (reference_setsIntegers .lp64) .unsignedShort
    (DataModel.lp64.staticCast .unsignedShort 65535)).1 .arfLess).mpr (.inl rfl)

/-- Where `slong` is `long long`, neither `Arb(1ll)` nor `Arf = short(1)` ever
returns. -/
theorem delegations_diverge_windows :
    (∀ call, call ∉ run (reference .llp64) .arbConstructor
      (.longLong (DataModel.llp64.staticCast .longLong 1))) ∧
    (∀ call, call ∉ run (reference .llp64) .arfAssign
      (.short (DataModel.llp64.staticCast .short 1))) := by
  have native : DataModel.llp64.flintLong ≠ .long := by decide
  constructor
  · intro call member
    rcases (exists_mem_run_iff _ _ _).mp ⟨call, member⟩ with isLong | direct
    · exact native isLong
    · exact direct
  · intro call member
    rcases (exists_mem_run_iff _ _ _).mp ⟨call, member⟩ with isLong | direct
    · exact native isLong
    · exact direct

end Arbxx
