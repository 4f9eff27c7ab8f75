import Arbxx.MethodBodies

/-!
# Effects of the methods

What the methods of `Arf` and `Arb` do for a client, who knows objects and their
values and nothing of raw structures and temporaries.  A machine integer is what the
delegations of its overload end in.
-/

namespace Arbxx

open OwnedHeap ThreeValued

/-- What a client calls; results are new objects of the client. -/
inductive Method (model : DataModel) (Name : Type)
  | mpzClass (target : Name) (z : ℤ)
  | mpqClass (target : Name) (q : Mpq)
  | destruct (kind : Kind) (this : Name)
  | construct (cls : Class) (this : Name)
  | constructInteger (cls : Class) (this : Name) (value : MachineInteger model)
  | copyConstruct (cls : Class) (this value : Name)
  | moveConstruct (cls : Class) (this value : Name)
  | copyAssign (cls : Class) (this rhs : Name)
  | moveAssign (cls : Class) (this rhs : Name)
  | swap (cls : Class) (a b : Name)
  | assignInteger (cls : Class) (this : Name) (rhs : MachineInteger model)
  | assignMpz (cls : Class) (this rhs : Name)
  | operatorNeg (cls : Class) (result this : Name)
  | arfOfString (this : Name) (mantissa : List Char) (base : model.Value .int)
      (exponent : model.Value .long)
  | arfOfMpz (this mantissa : Name) (exponent : model.Value .long)
  | arfOfDouble (this : Name) (value : Double)
  | arfAssignDouble (this : Name) (rhs : Double)
  | arfToDouble (result this : Name)
  | arfShiftLeftAssign (this : Name) (rhs : model.Value .long)
  | arfShiftRightAssign (this : Name) (rhs : model.Value .long)
  | arfAbs (result this : Name)
  | arfFloor (result this : Name)
  | arfCeil (result this : Name)
  | arfMantissa (result this : Name)
  | arfExponent (result this : Name)
  | arfLogb (result this : Name)
  | arfOperator (comparison : Comparison) (result lhs rhs : Name)
  | arfOperatorMpz (comparison : Comparison) (result lhs rhs : Name)
  | arfOperatorInteger (comparison : Comparison) (result lhs : Name) (rhs : MachineInteger model)
  | arbOfMpzClass (this value : Name)
  | arbOfMpqPrec (this rat : Name) (precision : ℤ)
  | arbOfString (this : Name) (value : List Char) (precision : ℤ)
  | arbOfArf (this midpoint : Name)
  | arbOfBoundsPrec (this first second : Name) (precision : ℤ)
  | arbSpecial (ball : SpecialBall) (result : Name)
  | arbIsExact (result this : Name)
  | arbIsFinite (result this : Name)
  | arbEqual (result this rhs : Name)
  | arbOperator (comparison : Comparison) (result lhs rhs : Name)
  | arbOperatorInteger (comparison : Comparison) (result lhs : Name) (rhs : MachineInteger model)
  | integerOperatorArb (comparison : Comparison) (result : Name) (lhs : MachineInteger model)
      (rhs : Name)
  | arbOperatorMpz (comparison : Comparison) (result lhs rhs : Name)
  | mpzOperatorArb (comparison : Comparison) (result lhs rhs : Name)
  | arbOperatorMpq (comparison : Comparison) (result lhs rhs : Name)
  | mpqOperatorArb (comparison : Comparison) (result lhs rhs : Name)
  | arbToBounds (first second this : Name)
  | arbToDouble (result this : Name)
  | arbToArf (result this : Name)

namespace Method

variable {model : DataModel} {Name : Type}

/-- The body of a method, on the objects of the client. -/
def body (elided : Bool) : Method model Name → CallSequence model Name
  | mpzClass target z => [.init .mpz (.given target), .constant (.mpzClass z) (.given target)]
  | mpqClass target q => [.init .mpq (.given target), .constant (.mpqClass q) (.given target)]
  | destruct kind this => [.clear kind (.given this)]
  | construct cls this => cls.constructBody (.given this)
  | constructInteger cls this value => cls.constructIntegerBody (.given this) value.supported
  | copyConstruct cls this value => cls.copyConstructBody (.given this) (.given value)
  | moveConstruct cls this value => Arbxx.moveConstruct cls.kind (.given this) (.given value)
  | copyAssign cls this rhs => cls.copyAssignBody (.given this) (.given rhs)
  | moveAssign cls this rhs => cls.moveAssignBody (.given this) (.given rhs)
  | swap cls a b => [.swap cls.kind (.given a) (.given b)]
  | assignInteger cls this rhs => cls.assignIntegerBody (.given this) rhs.supported
  | assignMpz cls this rhs => cls.assignMpzBody (.given this) (.given rhs)
  | operatorNeg cls result this => cls.operatorNegBody elided (.given result) (.given this)
  | arfOfString this mantissa base exponent =>
      Arf.ofStringBody (.given this) mantissa base exponent
  | arfOfMpz this mantissa exponent => Arf.ofMpzBody (.given this) (.given mantissa) exponent
  | arfOfDouble this value => Arf.ofDoubleBody (.given this) value
  | arfAssignDouble this rhs => Arf.assignDoubleBody (.given this) rhs
  | arfToDouble result this => Arf.toDoubleBody (.given result) (.given this)
  | arfShiftLeftAssign this rhs => Arf.shiftLeftAssignBody (.given this) rhs
  | arfShiftRightAssign this rhs => Arf.shiftRightAssignBody (.given this) rhs
  | arfAbs result this => Arf.absBody elided (.given result) (.given this)
  | arfFloor result this => Arf.floorBody elided (.given result) (.given this)
  | arfCeil result this => Arf.ceilBody elided (.given result) (.given this)
  | arfMantissa result this => Arf.mantissaBody (.given result) (.given this)
  | arfExponent result this => Arf.exponentBody (.given result) (.given this)
  | arfLogb result this => Arf.logbBody (.given result) (.given this)
  | arfOperator comparison result lhs rhs =>
      Arf.operatorBody comparison (.given result) (.given lhs) (.given rhs)
  | arfOperatorMpz comparison result lhs rhs =>
      Arf.operatorMpzBody comparison (.given result) (.given lhs) (.given rhs)
  | arfOperatorInteger comparison result lhs rhs =>
      Arf.operatorIntegerBody comparison (.given result) (.given lhs) rhs.supported
  | arbOfMpzClass this value => Arb.ofMpzClassBody (.given this) (.given value)
  | arbOfMpqPrec this rat precision => Arb.ofMpqPrecBody (.given this) (.given rat) precision
  | arbOfString this value precision => Arb.ofStringBody (.given this) value precision
  | arbOfArf this midpoint => Arb.ofArfBody (.given this) (.given midpoint)
  | arbOfBoundsPrec this first second precision =>
      Arb.ofBoundsPrecBody (.given this) (.given first) (.given second) precision
  | arbSpecial ball result => Arb.specialBody ball elided (.given result)
  | arbIsExact result this => Arb.isExactBody (.given result) (.given this)
  | arbIsFinite result this => Arb.isFiniteBody (.given result) (.given this)
  | arbEqual result this rhs => Arb.equalBody (.given result) (.given this) (.given rhs)
  | arbOperator comparison result lhs rhs =>
      Arb.operatorBody comparison (.given result) (.given lhs) (.given rhs)
  | arbOperatorInteger comparison result lhs rhs =>
      Arb.operatorTemporaryBody (Class.arb.constructIntegerBody · rhs.supported) comparison false
        (.given result) (.given lhs)
  | integerOperatorArb comparison result lhs rhs =>
      Arb.operatorTemporaryBody (Class.arb.constructIntegerBody · lhs.supported) comparison true
        (.given result) (.given rhs)
  | arbOperatorMpz comparison result lhs rhs =>
      Arb.operatorTemporaryBody (Arb.ofMpzClassBody · (.given rhs)) comparison false
        (.given result) (.given lhs)
  | mpzOperatorArb comparison result lhs rhs =>
      Arb.operatorTemporaryBody (Arb.ofMpzClassBody · (.given lhs)) comparison true
        (.given result) (.given rhs)
  | arbOperatorMpq comparison result lhs rhs =>
      Arb.operatorTemporaryBody (Arb.ofMpqPrecBody · (.given rhs) Arb.arbPrecisionFast)
        comparison false (.given result) (.given lhs)
  | mpqOperatorArb comparison result lhs rhs =>
      Arb.operatorTemporaryBody (Arb.ofMpqPrecBody · (.given lhs) Arb.arbPrecisionFast)
        comparison true (.given result) (.given rhs)
  | arbToBounds first second this =>
      Arb.toBoundsBody elided (.given first) (.given second) (.given this)
  | arbToDouble result this => Arb.toDoubleBody (.given result) (.given this)
  | arbToArf result this => Arb.toArfBody elided (.given result) (.given this)

end Method

variable {model : DataModel} {Name : Type}

/-! ### Methods on values -/

/-- The values of the objects of a client. -/
abbrev Client (model : DataModel) (Name : Type) : Type :=
  ∀ kind : Kind, Name → Option (kind.Value model)

/-- Neither an infinity nor NaN. -/
def Arf.isFinite : Arf → Bool
  | .finite _ => true
  | .posInf | .negInf | .nan => false

namespace Client

/-- An element for which `arf_get_fmpz` does not abort. -/
def finite (client : Client model Name) (x : Name) : Option Arf :=
  (client .arf x).filter Arf.isFinite

theorem eq_some_of_finite {client : Client model Name} {x : Name} {a : Arf}
    (isFinite : client.finite x = some a) : client .arf x = some a :=
  (Option.filter_eq_some_iff.mp isFinite).1

variable [DecidableEq Name]

def set (client : Client model Name) (kind : Kind) (x : Name) (value : Option (kind.Value model)) :
    Client model Name :=
  Function.update client kind (Function.update (client kind) x value)

section Set

variable {client : Client model Name} {kind kind' : Kind} {name name' : Name}
  {value value' : Option (kind.Value model)}

@[simp]
theorem set_self : client.set kind name value kind name = value := by
  simp [set]

theorem set_of_kind_ne (different : kind' ≠ kind) :
    client.set kind name value kind' name' = client kind' name' := by
  simp [set, different]

theorem set_of_name_ne (different : name' ≠ name) :
    client.set kind name value kind name' = client kind name' := by
  simp [set, different]

@[simp]
theorem set_set : (client.set kind name value).set kind name value' =
    client.set kind name value' := by
  simp [set]

theorem set_comm (different : name ≠ name') :
    (client.set kind name value).set kind name' value' =
      (client.set kind name' value').set kind name value := by
  simp [set, Function.update_comm different.symm]

theorem set_of_eq (same : client kind name = value) : client.set kind name value = client := by
  rw [set, ← same, Function.update_eq_self, Function.update_eq_self]

end Set

/-- A new object. -/
def produce (client : Client model Name) (kind : Kind) (target : Name)
    (value : kind.Value model) : Option (Client model Name) :=
  match client kind target with
  | none => some (client.set kind target (some value))
  | some _ => none

/-- A new value for an object. -/
def overwrite (client : Client model Name) (kind : Kind) (target : Name)
    (value : kind.Value model) : Option (Client model Name) :=
  (client kind target).map fun _ => client.set kind target (some value)

def exchange (client : Client model Name) (kind : Kind) (a b : Name) :
    Option (Client model Name) :=
  (client kind a).bind fun first =>
    (client kind b).map fun second =>
      (client.set kind a (some second)).set kind b (some first)

theorem produce_eq_some_iff {client client' : Client model Name} {kind : Kind} {target : Name}
    {value : kind.Value model} :
    client.produce kind target value = some client' ↔
      client kind target = none ∧ client.set kind target (some value) = client' := by
  rw [produce]
  cases client kind target <;> simp

theorem bind_produce_eq_some_iff {client client' : Client model Name} {kind source : Kind}
    {target x : Name} {f : source.Value model → kind.Value model} :
    ((client source x).bind fun value => client.produce kind target (f value)) = some client' ↔
      ∃ value, client source x = some value ∧ client kind target = none ∧
        client.set kind target (some (f value)) = client' := by
  simp only [Option.bind_eq_some_iff, produce_eq_some_iff]

end Client

section Values

variable (lib : CLibrary model) (numbers : NumberLibrary model) (special : SpecialLibrary)
  (doubles : DoubleLibrary)

namespace Class

/-- A value that is default constructed. -/
def initial : ∀ cls : Class, cls.kind.Value model
  | .arf => .finite 0
  | .arb => Arb.zero

def copy : ∀ cls : Class, cls.kind.Value model → cls.kind.Value model
  | .arf => numbers.arfSet
  | .arb => id

def operatorNeg : ∀ cls : Class, cls.kind.Value model → cls.kind.Value model
  | .arf => Arf.operatorNeg numbers
  | .arb => Arb.operatorNeg lib

def constructor : Class → Overload
  | .arf => .arfConstructor
  | .arb => .arbConstructor

def assignment : Class → Overload
  | .arf => .arfAssign
  | .arb => .arbAssign

/-- The end of the chain of assignments of an integer. -/
def assigned (rhs : Supported model) : ∀ cls : Class, cls.kind.Value model
  | .arf => Arf.setCall lib (rhs.call .arfAssign)
  | .arb => Arb.setCall lib (rhs.call .arbAssign)

end Class

/-- `Arb::Arb(const std::string&, prec)`.  The error code of `arb_set_str` is dropped. -/
def Arb.ofString (value : List Char) (precision : ℤ) : Arb :=
  (numbers.arbSetStr zero (cString value) precision).2

variable [DecidableEq Name]

namespace Method

/-- What a method does for a client that knows nothing of raw structures.  There is no
result if an object that should exist does not, or the other way around, if a documented
abort is reached, or if the overload for a machine integer delegates without end. -/
def effect (client : Client model Name) : Method model Name → Option (Client model Name)
  | mpzClass target z => client.produce .mpz target z
  | mpqClass target q => client.produce .mpq target q
  | destruct kind this =>
      (client kind this).map fun _ => client.set kind this none
  | construct cls this => client.produce cls.kind this cls.initial
  | constructInteger cls this value =>
      if cls.constructor.Settles value.operand then
        client.produce cls.kind this (cls.assigned lib value.supported)
      else none
  | copyConstruct cls this value => do
      let source ← client cls.kind value
      client.produce cls.kind this (cls.copy numbers source)
  | moveConstruct cls this value => do
      let source ← client cls.kind value
      let client' ← client.produce cls.kind this source
      client'.overwrite cls.kind value cls.initial
  | copyAssign cls this rhs => do
      let source ← client cls.kind rhs
      client.overwrite cls.kind this (cls.copy numbers source)
  | moveAssign cls this rhs => client.exchange cls.kind this rhs
  | swap cls a b => client.exchange cls.kind a b
  | assignInteger cls this rhs =>
      if cls.assignment.Settles rhs.operand then
        client.overwrite cls.kind this (cls.assigned lib rhs.supported)
      else none
  | assignMpz cls this rhs => do
      let z ← client .mpz rhs
      client.overwrite cls.kind this (cls.assigned lib (.mpz z))
  | operatorNeg cls result this => do
      let value ← client cls.kind this
      client.produce cls.kind result (cls.operatorNeg lib numbers value)
  | arfOfString this mantissa base exponent =>
      client.produce .arf this (Arf.ofString lib numbers mantissa base exponent)
  | arfOfMpz this mantissa exponent => do
      let m ← client .mpz mantissa
      client.produce .arf this (Arf.ofMpz lib m exponent)
  | arfOfDouble this value => client.produce .arf this (Arf.ofDouble doubles value)
  | arfAssignDouble this rhs => client.overwrite .arf this (Arf.assignDouble doubles rhs)
  | arfToDouble result this => do
      let a ← client .arf this
      client.produce .double result (some (Arf.toDouble doubles a))
  | arfShiftLeftAssign this rhs => do
      let a ← client .arf this
      client.overwrite .arf this (Arf.shiftLeftAssign numbers a rhs)
  | arfShiftRightAssign this rhs => do
      let a ← client .arf this
      client.overwrite .arf this (Arf.shiftRightAssign numbers a rhs)
  | arfAbs result this => do
      let a ← client .arf this
      client.produce .arf result (Arf.abs special a)
  | arfFloor result this => do
      let a ← client.finite this
      client.produce .mpz result (Arf.floor numbers a)
  | arfCeil result this => do
      let a ← client.finite this
      client.produce .mpz result (Arf.ceil numbers a)
  | arfMantissa result this => do
      let a ← client .arf this
      client.produce .mpz result (Arf.mantissa numbers a)
  | arfExponent result this => do
      let a ← client .arf this
      client.produce .mpz result (Arf.exponent numbers a)
  | arfLogb result this => do
      let a ← client .arf this
      client.produce .long result (Arf.logb numbers a)
  | arfOperator comparison result lhs rhs => do
      let a ← client .arf lhs
      let b ← client .arf rhs
      client.produce .truth result (some (Arf.operator lib comparison a b))
  | arfOperatorMpz comparison result lhs rhs => do
      let a ← client .arf lhs
      let z ← client .mpz rhs
      client.produce .truth result (some (Arf.operator lib comparison a (Arf.ofMpzClass lib z)))
  | arfOperatorInteger comparison result lhs rhs =>
      if (Arf.comparisonOverload comparison).Settles rhs.operand then do
        let a ← client .arf lhs
        client.produce .truth result (some (Arf.compareCall lib comparison a
          (rhs.supported.call (Arf.comparisonOverload comparison))))
      else none
  | arbOfMpzClass this value => do
      let z ← client .mpz value
      client.produce .arb this (Arb.setCall lib (.mpz .arbConstructor z))
  | arbOfMpqPrec this rat precision => do
      let q ← client .mpq rat
      client.produce .arb this (Arb.ofMpqPrec lib q precision)
  | arbOfString this value precision =>
      client.produce .arb this (Arb.ofString numbers value precision)
  | arbOfArf this midpoint => do
      let a ← client .arf midpoint
      client.produce .arb this (Arb.ofArf lib a)
  | arbOfBoundsPrec this first second precision => do
      let a ← client .arf first
      let b ← client .arf second
      client.produce .arb this (Arb.ofBoundsPrec lib (a, b) precision)
  | arbSpecial ball result => client.produce .arb result (ball.value special)
  | arbIsExact result this => do
      let x ← client .arb this
      client.produce .truth result (some (Arb.isExact lib x))
  | arbIsFinite result this => do
      let x ← client .arb this
      client.produce .truth result (some (Arb.isFinite lib x))
  | arbEqual result this rhs => do
      let x ← client .arb this
      let y ← client .arb rhs
      client.produce .truth result (some (Arb.equal lib x y))
  | arbOperator comparison result lhs rhs => do
      let x ← client .arb lhs
      let y ← client .arb rhs
      client.produce .truth result (Arb.operator lib comparison x y)
  | arbOperatorInteger comparison result lhs rhs =>
      if Overload.arbConstructor.Settles rhs.operand then do
        let x ← client .arb lhs
        client.produce .truth result
          (Arb.operator lib comparison x (Class.arb.assigned lib rhs.supported))
      else none
  | integerOperatorArb comparison result lhs rhs =>
      if Overload.arbConstructor.Settles lhs.operand then do
        let y ← client .arb rhs
        client.produce .truth result
          (Arb.operator lib comparison (Class.arb.assigned lib lhs.supported) y)
      else none
  | arbOperatorMpz comparison result lhs rhs => do
      let x ← client .arb lhs
      let z ← client .mpz rhs
      client.produce .truth result
        (Arb.operator lib comparison x (Arb.setCall lib (.mpz .arbConstructor z)))
  | mpzOperatorArb comparison result lhs rhs => do
      let z ← client .mpz lhs
      let y ← client .arb rhs
      client.produce .truth result
        (Arb.operator lib comparison (Arb.setCall lib (.mpz .arbConstructor z)) y)
  | arbOperatorMpq comparison result lhs rhs => do
      let x ← client .arb lhs
      let q ← client .mpq rhs
      client.produce .truth result (Arb.operatorMpq lib comparison x q)
  | mpqOperatorArb comparison result lhs rhs => do
      let q ← client .mpq lhs
      let y ← client .arb rhs
      client.produce .truth result (Arb.mpqOperator lib comparison q y)
  | arbToBounds first second this => do
      let x ← client .arb this
      let client' ← client.produce .arf first (Arb.toBounds lib x).1
      client'.produce .arf second (Arb.toBounds lib x).2
  | arbToDouble result this => do
      let x ← client .arb this
      client.produce .double result (some (Arb.toDouble doubles x))
  | arbToArf result this => do
      let x ← client .arb this
      client.produce .arf result (Arb.toArf numbers x)

end Method

end Values

/-! ### The integers of the overloads

What a method is said to compute for a machine integer is the result of its overload. -/

section Integers

variable {lib : CLibrary model} {x : MachineInteger model}

theorem Arf.assigned_mem_construct (sets : lib.SetsIntegers)
    (settles : Class.arf.constructor.Settles x.operand) :
    Class.arf.assigned lib x.supported ∈ Arf.construct lib x.operand :=
  Computation.mem_map (Arf.setCall lib) (x.supported_mem_run sets settles)

theorem Arf.assigned_mem_assign (sets : lib.SetsIntegers)
    (settles : Class.arf.assignment.Settles x.operand) :
    Class.arf.assigned lib x.supported ∈ Arf.assign lib x.operand :=
  Computation.mem_map (Arf.setCall lib) (x.supported_mem_run sets settles)

theorem Arf.compareCall_mem_operatorInteger (sets : lib.SetsIntegers) (comparison : Comparison)
    (a : Arf) (settles : (Arf.comparisonOverload comparison).Settles x.operand) :
    Arf.compareCall lib comparison a (x.supported.call (Arf.comparisonOverload comparison)) ∈
      Arf.operatorInteger lib comparison a x.operand := by
  have last : (Arf.comparisonOverload comparison).supported =
      Arf.comparisonOverload comparison := by cases comparison <;> rfl
  have member := x.supported_mem_run sets settles
  rw [last] at member
  rw [Arf.operatorInteger_eq_map]
  exact Computation.mem_map _ member

theorem Arb.assigned_mem_construct (sets : lib.SetsIntegers)
    (settles : Class.arb.constructor.Settles x.operand) :
    Class.arb.assigned lib x.supported ∈ Arb.construct lib x.operand :=
  Computation.mem_map (Arb.setCall lib) (x.supported_mem_run sets settles)

theorem Arb.assigned_mem_assign (sets : lib.SetsIntegers)
    (settles : Class.arb.assignment.Settles x.operand) :
    Class.arb.assigned lib x.supported ∈ Arb.assign lib x.operand :=
  Computation.mem_map (Arb.setCall lib) (x.supported_mem_run sets settles)

theorem Arb.operator_mem_operatorInteger (sets : lib.SetsIntegers) (comparison : Comparison)
    (y : Arb) (settles : Overload.arbConstructor.Settles x.operand) :
    Arb.operator lib comparison y (Class.arb.assigned lib x.supported) ∈
      Arb.operatorInteger lib comparison y x.operand := by
  rw [Arb.operatorInteger_eq_map]
  exact Computation.mem_map _ (Arb.assigned_mem_construct sets settles)

theorem Arb.operator_mem_integerOperator (sets : lib.SetsIntegers) (comparison : Comparison)
    (y : Arb) (settles : Overload.arbConstructor.Settles x.operand) :
    Arb.operator lib comparison (Class.arb.assigned lib x.supported) y ∈
      Arb.integerOperator lib comparison x.operand y := by
  rw [Arb.integerOperator_eq_map]
  exact Computation.mem_map (Arb.operator lib comparison · y)
    (Arb.assigned_mem_construct sets settles)

end Integers

end Arbxx
