import Arbxx.ObjectCalls

/-!
# Bodies of the methods

What the constructors, destructors, operators and conversions of `Arf` and `Arb` do
with raw structures: the objects of their own that they initialize, the calls they
make on them and the order in which they clear them.  An object that is returned is
constructed in place, or in a local object that is moved out and destroyed.
-/

namespace Arbxx

open OwnedHeap ThreeValued TwosComplement

abbrev CallSequence (model : DataModel) (Name : Type) : Type :=
  List (Statement (calls model) Name)

/-- What `to_supported_integer` returns. -/
inductive Supported (model : DataModel)
  | slong (value : model.Value model.slong)
  | ulong (value : model.Value model.ulong)
  | mpz (value : ℤ)

/-- The call of an overload for the integer. -/
def Supported.call {model : DataModel} (overload : Overload) : Supported model → Call model
  | .slong value => .si value
  | .ulong value => .ui value
  | .mpz value => .mpz overload value

/-- The overload to which `to_supported_integer` hands its integer. -/
def Overload.supported : Overload → Overload
  | .arbConstructor => .arbAssign
  | .arfConstructor => .arfAssign
  | overload => overload

/-- An integer goes on to the same overload, and an `mpz_class` only arrives there. -/
private theorem body_supported {model : DataModel} (lib : CLibrary model) (overload : Overload)
    (operand : Operand model) (arrives : ∀ z, operand = .mpz z → overload.supported = overload) :
    (∀ call, body lib overload operand = .inl call →
      ∀ last z, call = .mpz last z → last = overload.supported) ∧
    ∀ next, body lib overload operand = .inr next →
      next.1.supported = overload.supported ∧
        ∀ z, next.2 = .mpz z → next.1.supported = next.1 := by
  cases overload <;> cases operand <;>
    simp_all [body, arbConstructorBody, arbAssignBody, arfConstructorBody, arfAssignBody,
      arfLessBody, arfGreaterBody, arfEqualBody, supportedBody, Overload.supported]

/-- Wherever the delegations for a machine integer end, they end in the call for an integer
that `to_supported_integer` may return. -/
theorem exists_supported_of_mem_run {model : DataModel} {lib : CLibrary model}
    {overload : Overload} {operand : Operand model} (machine : ∀ z, operand ≠ .mpz z)
    {call : Call model} (member : call ∈ run lib overload operand) :
    ∃ value : Supported model, value.call overload.supported = call := by
  have last : ∀ last z, call = .mpz last z → last = overload.supported := by
    have answered (state : Overload × Operand model) (answer : Call model)
        (invariant : state.1.supported = overload.supported ∧
          ∀ z, state.2 = .mpz z → state.1.supported = state.1)
        (answers : body lib state.1 state.2 = .inl answer) :
        ∀ last z, answer = .mpz last z → last = overload.supported := by
      rw [← invariant.1]
      exact (body_supported lib state.1 state.2 invariant.2).1 answer answers
    have delegated (state next : Overload × Operand model)
        (invariant : state.1.supported = overload.supported ∧
          ∀ z, state.2 = .mpz z → state.1.supported = state.1)
        (delegates : body lib state.1 state.2 = .inr next) :
        next.1.supported = overload.supported ∧
          ∀ z, next.2 = .mpz z → next.1.supported = next.1 := by
      rw [← invariant.1]
      exact (body_supported lib state.1 state.2 invariant.2).2 next delegates
    exact Delegation.property_of_mem_corec answered delegated
      ⟨rfl, fun z isMpz => (machine z isMpz).elim⟩ member
  cases call with
  | si value => exact ⟨.slong value, rfl⟩
  | ui value => exact ⟨.ulong value, rfl⟩
  | mpz overload' value =>
      rw [last overload' value rfl]
      exact ⟨.mpz value, rfl⟩

/-- A value of a built-in integer type. -/
structure MachineInteger (model : DataModel) where
  type : IntegerType
  value : model.Value type

namespace MachineInteger

variable {model : DataModel} (x : MachineInteger model)

def operand : Operand model :=
  .ofType x.type x.value

/-- The integer that its overload passes on, by casts and by `to_supported_integer`. -/
def supported : Supported model :=
  match model.callKind x.type with
  | .si => .slong (model.staticCast model.slong x.value.val)
  | .ui => .ulong (model.staticCast model.ulong x.value.val)
  | .mpz => .mpz x.value.val

theorem operand_ne_mpz (z : ℤ) : x.operand ≠ .mpz z := by
  obtain ⟨type, value⟩ := x
  cases type <;> simp [operand, Operand.ofType]

/-- Delegations that end do so in the call for the supported integer. -/
theorem supported_mem_run {lib : CLibrary model} (sets : lib.SetsIntegers) {overload : Overload}
    (settles : overload.Settles x.operand) :
    x.supported.call overload.supported ∈ run lib overload x.operand := by
  obtain ⟨call, member⟩ := (exists_mem_run_iff lib overload x.operand).mpr settles
  obtain ⟨integer, kind⟩ := delivers_of_mem_run lib sets member
  obtain ⟨value, rfl⟩ := exists_supported_of_mem_run x.operand_ne_mpz member
  rw [operand, Operand.integer_ofType] at integer
  rw [operand, Operand.kind_ofType] at kind
  suffices same : x.supported = value by rwa [same]
  cases value with
  | slong value =>
      have callKind : model.callKind x.type = .si := kind.symm
      have kept : model.staticCast model.slong x.value.val = value :=
        Subtype.ext (by rw [← integer]; exact Format.cast_val_of_inRange value.property)
      simp only [supported, callKind, kept]
  | ulong value =>
      have callKind : model.callKind x.type = .ui := kind.symm
      have kept : model.staticCast model.ulong x.value.val = value :=
        Subtype.ext (by rw [← integer]; exact Format.cast_val_of_inRange value.property)
      simp only [supported, callKind, kept]
  | mpz value =>
      have callKind : model.callKind x.type = .mpz := kind.symm
      have kept : x.value.val = value := integer.symm
      simp only [supported, callKind, kept]

end MachineInteger

/-- The balls that the static methods of `Arb` return. -/
inductive SpecialBall
  | posInf
  | negInf
  | zeroPmOne
  | zeroPmInf
  | indeterminate
  | unitInterval

namespace SpecialBall

def call {model : DataModel} : SpecialBall → ConstantCall model .arb
  | .posInf => .arbPosInf
  | .negInf => .arbNegInf
  | .zeroPmOne => .arbZeroPmOne
  | .zeroPmInf => .arbZeroPmInf
  | .indeterminate => .arbIndeterminate
  | .unitInterval => .arbUnitInterval

def value (special : SpecialLibrary) : SpecialBall → Arb
  | .posInf => Arb.posInf special
  | .negInf => Arb.negInf special
  | .zeroPmOne => Arb.zeroPmOne special
  | .zeroPmInf => Arb.zeroPmInf special
  | .indeterminate => Arb.indeterminate special
  | .unitInterval => Arb.unitInterval special

end SpecialBall

variable {model : DataModel} {Name : Type}

/-- The local object that a function returns. -/
def localResult : Slot Name :=
  .temporary 9

/-- The moved elements of `Arf` are swapped with new ones, the others are taken as
they are and initialized again. -/
def moveConstruct : Kind → Slot Name → Slot Name → CallSequence model Name
  | .arf, this, value => [.init .arf this, .swap .arf this value]
  | kind, this, value => [.move kind this value]

/-- A function that constructs the object it returns. -/
def returning (elided : Bool) (kind : Kind) (result : Slot Name)
    (body : Slot Name → CallSequence model Name) : CallSequence model Name :=
  if elided then body result
  else body localResult ++ moveConstruct kind result localResult ++ [.clear kind localResult]

/-- An integer that `to_supported_integer` returns lives while it is used. -/
def withInteger (z : ℤ) (body : Slot Name → CallSequence model Name) : CallSequence model Name :=
  [.init .mpz (.temporary 0), .constant (.mpzClass z) (.temporary 0)] ++ body (.temporary 0) ++
    [.clear .mpz (.temporary 0)]

/-! ### Methods of both classes -/

namespace Class

abbrev kind : Class → Kind
  | .arf => .arf
  | .arb => .arb

def setCall : ∀ cls : Class, UnaryCall model cls.kind cls.kind
  | .arf => .arfSet
  | .arb => .arbSet

def negCall : ∀ cls : Class, UnaryCall model cls.kind cls.kind
  | .arf => .arfNeg
  | .arb => .arbNeg

def setFmpzCall : ∀ cls : Class, UnaryCall model cls.kind .mpz
  | .arf => .arfSetFmpz
  | .arb => .arbSetFmpz

def setSiCall (value : model.Value model.slong) : ∀ cls : Class, ConstantCall model cls.kind
  | .arf => .arfSetSi value
  | .arb => .arbSetSi value

def setUiCall (value : model.Value model.ulong) : ∀ cls : Class, ConstantCall model cls.kind
  | .arf => .arfSetUi value
  | .arb => .arbSetUi value

variable (cls : Class)

def constructBody (this : Slot Name) : CallSequence model Name :=
  [.init cls.kind this]

def copyAssignBody (this rhs : Slot Name) : CallSequence model Name :=
  [.unary cls.setCall this rhs]

def copyConstructBody (this value : Slot Name) : CallSequence model Name :=
  cls.constructBody this ++ cls.copyAssignBody this value

def moveAssignBody (this rhs : Slot Name) : CallSequence model Name :=
  [.swap cls.kind this rhs]

/-- `operator=(const mpz_class&)`; the view of the integer owns nothing. -/
def assignMpzBody (this rhs : Slot Name) : CallSequence model Name :=
  [.unary cls.setFmpzCall this rhs]

/-- The overloads of `operator=` for machine integers. -/
def assignIntegerBody (this : Slot Name) : Supported model → CallSequence model Name
  | .slong rhs => [.constant (cls.setSiCall rhs) this]
  | .ulong rhs => [.constant (cls.setUiCall rhs) this]
  | .mpz rhs => withInteger rhs (cls.assignMpzBody this)

/-- The constructors for machine integers. -/
def constructIntegerBody (this : Slot Name) (value : Supported model) : CallSequence model Name :=
  cls.constructBody this ++ cls.assignIntegerBody this value

def destructBody (this : Slot Name) : CallSequence model Name :=
  [.clear cls.kind this]

def operatorNegBody (elided : Bool) (result this : Slot Name) : CallSequence model Name :=
  returning elided cls.kind result fun ret =>
    cls.constructBody ret ++ [.unary cls.negCall ret this]

end Class

/-! ### Methods of `Arf` -/

namespace Arf

/-- `Arf::Arf(const std::string& mantissa, int base, long exponent)`. -/
def ofStringBody (this : Slot Name) (mantissa : List Char) (base : model.Value .int)
    (exponent : model.Value .long) : CallSequence model Name :=
  let m := .temporary 0
  let e := .temporary 1
  Class.arf.constructBody this ++
    [.init .fmpz m, .init .fmpz e, .unary (.fmpzSetStr (cString mantissa) base) m m,
      .constant (.fmpzSetSi (model.staticCast model.slong exponent.val)) e,
      .binary .arfSetFmpz2exp this m e, .clear .fmpz e, .clear .fmpz m]

/-- `Arf::Arf(const mpz_class& mantissa, long exponent)`. -/
def ofMpzBody (this mantissa : Slot Name) (exponent : model.Value .long) :
    CallSequence model Name :=
  let m := .temporary 0
  let e := .temporary 1
  Class.arf.constructBody this ++
    [.init .fmpz m, .init .fmpz e, .unary .fmpzSetMpz m mantissa,
      .constant (.fmpzSetSi (model.staticCast model.slong exponent.val)) e,
      .binary .arfSetFmpz2exp this m e, .clear .fmpz e, .clear .fmpz m]

/-- `Arf::operator=(double)`. -/
def assignDoubleBody (this : Slot Name) (rhs : Double) : CallSequence model Name :=
  [.constant (.arfSetD rhs) this]

/-- `Arf::Arf(double)`. -/
def ofDoubleBody (this : Slot Name) (value : Double) : CallSequence model Name :=
  Class.arf.constructBody this ++ [.constant (.arfSetD value) this]

/-- `Arf::operator double`. -/
def toDoubleBody (result this : Slot Name) : CallSequence model Name :=
  [.init .double result, .unary (.arfGetD .near) result this]

def shiftLeftAssignBody (this : Slot Name) (rhs : model.Value .long) : CallSequence model Name :=
  [.unary (.arfMul2expSi (model.staticCast model.slong rhs.val)) this this]

def shiftRightAssignBody (this : Slot Name) (rhs : model.Value .long) : CallSequence model Name :=
  shiftLeftAssignBody this (model.staticCast .long (-rhs.val))

def absBody (elided : Bool) (result this : Slot Name) : CallSequence model Name :=
  returning elided .arf result fun ret => Class.arf.constructBody ret ++ [.unary .arfAbs ret this]

/-- `floor` and `ceil`, by the function that rounds. -/
def integerPartBody (round : UnaryCall model .arf .arf) (elided : Bool) (result this : Slot Name) :
    CallSequence model Name :=
  let rounded := .temporary 0
  let fmpzRounded := .temporary 0
  Class.arf.constructBody rounded ++
    [.unary round rounded this, .init .fmpz fmpzRounded,
      .unary (.arfGetFmpz .near) fmpzRounded rounded] ++
    returning elided .mpz result (fun ret =>
      [.init .mpz ret, .unary .fmpzGetMpz ret fmpzRounded, .clear .fmpz fmpzRounded]) ++
    Class.arf.destructBody rounded

def floorBody : Bool → Slot Name → Slot Name → CallSequence model Name :=
  integerPartBody .arfFloor

def ceilBody : Bool → Slot Name → Slot Name → CallSequence model Name :=
  integerPartBody .arfCeil

/-- `mantissa_exponent`; the two members of the pair are copies of local integers. -/
def mantissaExponentBody (first second arf : Slot Name) : CallSequence model Name :=
  let mantissa := .temporary 0
  let exponent := .temporary 1
  let m := .temporary 0
  let e := .temporary 1
  [.init .fmpz mantissa, .init .fmpz exponent, .split .arfGetFmpz2exp mantissa exponent arf,
    .init .mpz m, .init .mpz e, .unary .fmpzGetMpz m mantissa, .unary .fmpzGetMpz e exponent,
    .clear .fmpz mantissa, .clear .fmpz exponent, .init .mpz first, .unary .mpzSet first m,
    .init .mpz second, .unary .mpzSet second e, .clear .mpz e, .clear .mpz m]

/-- The result is moved out of a member of the pair, before the pair is destroyed. -/
def mantissaBody (result this : Slot Name) : CallSequence model Name :=
  let first := .temporary 2
  let second := .temporary 3
  mantissaExponentBody first second this ++ moveConstruct .mpz result first ++
    [.clear .mpz second, .clear .mpz first]

def exponentBody (result this : Slot Name) : CallSequence model Name :=
  let first := .temporary 2
  let second := .temporary 3
  mantissaExponentBody first second this ++ moveConstruct .mpz result second ++
    [.clear .mpz second, .clear .mpz first]

def logbBody (result this : Slot Name) : CallSequence model Name :=
  let fraction := .temporary 0
  let e := .temporary 0
  Class.arf.constructBody fraction ++
    [.init .fmpz e, .split .arfFrexp fraction e this, .init .long result,
      .unary .fmpzGetSiMinusOne result e, .clear .fmpz e] ++
    Class.arf.destructBody fraction

def operatorBody (comparison : Comparison) (result lhs rhs : Slot Name) :
    CallSequence model Name :=
  [.init .truth result, .binary (.arfCompare comparison) result lhs rhs]

/-- The comparisons with `mpz_class`. -/
def operatorMpzBody (comparison : Comparison) (result lhs rhs : Slot Name) :
    CallSequence model Name :=
  let rhs_ := .temporary 0
  ofMpzBody rhs_ rhs (model.staticCast .long 0) ++ operatorBody comparison result lhs rhs_ ++
    Class.arf.destructBody rhs_

/-- The comparisons with machine integers. -/
def operatorIntegerBody (comparison : Comparison) (result lhs : Slot Name) :
    Supported model → CallSequence model Name
  | .slong rhs => [.init .truth result, .unary (.arfCompareSi comparison rhs) result lhs]
  | .ulong rhs => [.init .truth result, .unary (.arfCompareUi comparison rhs) result lhs]
  | .mpz rhs => withInteger rhs (operatorMpzBody comparison result lhs)

end Arf

/-! ### Methods of `Arb` -/

namespace Arb

/-- `Arb::Arb(const mpz_class&)`. -/
def ofMpzClassBody (this value : Slot Name) : CallSequence model Name :=
  Class.arb.constructBody this ++ Class.arb.assignMpzBody this value

/-- `Arb::Arb(const mpq_class&, prec)`; the view of the rational number owns nothing. -/
def ofMpqPrecBody (this rat : Slot Name) (precision : ℤ) : CallSequence model Name :=
  Class.arb.constructBody this ++ [.unary (.arbSetFmpq precision) this rat]

/-- `Arb::Arb(const std::string&, prec)`. -/
def ofStringBody (this : Slot Name) (value : List Char) (precision : ℤ) :
    CallSequence model Name :=
  Class.arb.constructBody this ++ [.unary (.arbSetStr (cString value) precision) this this]

/-- `Arb::Arb(const Arf&)`. -/
def ofArfBody (this midpoint : Slot Name) : CallSequence model Name :=
  Class.arb.constructBody this ++ [.unary .arbSetArf this midpoint]

/-- `Arb::Arb(const std::pair<Arf, Arf>&, prec)`. -/
def ofBoundsPrecBody (this first second : Slot Name) (precision : ℤ) : CallSequence model Name :=
  Class.arb.constructBody this ++ [.binary (.arbSetIntervalArf precision) this first second]

def specialBody (ball : SpecialBall) (elided : Bool) (result : Slot Name) :
    CallSequence model Name :=
  returning elided .arb result fun ret => Class.arb.constructBody ret ++ [.constant ball.call ret]

def isExactBody (result this : Slot Name) : CallSequence model Name :=
  [.init .truth result, .unary .arbIsExact result this]

def isFiniteBody (result this : Slot Name) : CallSequence model Name :=
  [.init .truth result, .unary .arbIsFinite result this]

def equalBody (result this rhs : Slot Name) : CallSequence model Name :=
  [.init .truth result, .binary .arbEqual result this rhs]

def operatorBody (comparison : Comparison) (result lhs rhs : Slot Name) :
    CallSequence model Name :=
  [.init .truth result, .binary (.arbCompare comparison) result lhs rhs]

/-- A comparison with a temporary element, on the side where it stands. -/
def operatorTemporaryBody (construct : Slot Name → CallSequence model Name)
    (comparison : Comparison) (temporaryLeft : Bool) (result other : Slot Name) :
    CallSequence model Name :=
  let temporary := .temporary 0
  construct temporary ++
    (if temporaryLeft then operatorBody comparison result temporary other
      else operatorBody comparison result other temporary) ++
    Class.arb.destructBody temporary

/-- `Arb::operator std::pair<Arf, Arf>`. -/
def toBoundsBody (elided : Bool) (first second this : Slot Name) : CallSequence model Name :=
  let body first second : CallSequence model Name :=
    Class.arf.constructBody first ++ Class.arf.constructBody second ++
      [.split .arbGetIntervalArf first second this]
  if elided then body first second
  else
    let retFirst := .temporary 0
    let retSecond := .temporary 1
    body retFirst retSecond ++ moveConstruct .arf first retFirst ++
      moveConstruct .arf second retSecond ++ Class.arf.destructBody retSecond ++
      Class.arf.destructBody retFirst

/-- `Arb::operator double`. -/
def toDoubleBody (result this : Slot Name) : CallSequence model Name :=
  [.init .double result, .unary (.arfGetDMidref .near) result this]

/-- `Arb::operator Arf`. -/
def toArfBody (elided : Bool) (result this : Slot Name) : CallSequence model Name :=
  returning elided .arf result fun midpoint =>
    Class.arf.constructBody midpoint ++ [.unary .arfSetMidref midpoint this]

end Arb

end Arbxx
