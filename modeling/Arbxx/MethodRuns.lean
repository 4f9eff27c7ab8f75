import Arbxx.MethodEffects

/-!
# Runs of methods

A client creates objects, calls methods on them in any order and destroys them.  The
bodies of the methods do on raw structures what the methods do on values, and leave
nothing behind.
-/

namespace Arbxx

open OwnedHeap ThreeValued

variable {model : DataModel} {Name : Type} [DecidableEq Name]

section Values

variable (lib : CLibrary model) (numbers : NumberLibrary model) (special : SpecialLibrary)
  (doubles : DoubleLibrary)

/-- A body runs on the objects of a client and leaves some objects, without
temporaries. -/
def Computes (body : CallSequence model Name) (client client' : Client model Name) : Prop :=
  Statement.AllowedAll (callMeaning lib numbers special doubles) body (Store.ofGiven client) ∧
    Statement.applyAll (callMeaning lib numbers special doubles) body (Store.ofGiven client) =
      Store.ofGiven client'

end Values

section Bodies

variable {lib : CLibrary model} {numbers : NumberLibrary model}
  {special : SpecialLibrary} {doubles : DoubleLibrary} {client client' : Client model Name}

theorem givenValues_set_given {store : Store (Kind.Value model) Name} {kind : Kind} {name : Name}
    {value : Option (kind.Value model)} :
    (store.set kind (.given name) value).givenValues =
      Client.set store.givenValues kind name value := by
  funext kind' name'
  by_cases sameKind : kind' = kind
  · subst sameKind
    by_cases sameName : name' = name
    · subst sameName
      rw [Client.set_self]
      exact Store.get_set_self
    · rw [Client.set_of_name_ne sameName]
      exact Store.get_set_of_ne (by simp [sameName])
  · rw [Client.set_of_kind_ne sameKind]
    exact Store.get_set_of_ne (by simp [sameKind])

attribute [local simp] Computes Statement.AllowedAll Statement.applyAll Statement.Allowed
  Statement.apply Store.Live Store.eq_ofGiven_iff Store.get_set_of_ne givenValues_set_given
  callMeaning returning localResult moveConstruct Class.kind Class.constructBody
  Class.destructBody

section Classes

variable {this rhs result : Name} (cls : Class)

theorem computes_construct (fresh : client cls.kind this = none) :
    Computes lib numbers special doubles (cls.constructBody (.given this)) client
      (client.set cls.kind this (some cls.initial)) := by
  cases cls <;> simp [fresh] <;> rfl

theorem computes_assignInteger (value : Supported model) (live : (client cls.kind this).isSome) :
    Computes lib numbers special doubles (cls.assignIntegerBody (.given this) value) client
      (client.set cls.kind this (some (cls.assigned lib value))) := by
  cases cls <;> cases value <;>
    simp [Class.assignIntegerBody, withInteger, Class.assignMpzBody, live] <;> rfl

theorem computes_constructInteger (value : Supported model)
    (fresh : client cls.kind this = none) :
    Computes lib numbers special doubles (cls.constructIntegerBody (.given this) value) client
      (client.set cls.kind this (some (cls.assigned lib value))) := by
  cases cls <;> cases value <;>
    simp [Class.constructIntegerBody, Class.assignIntegerBody, withInteger, Class.assignMpzBody,
      fresh] <;> rfl

theorem computes_copyConstruct {source : cls.kind.Value model} (fresh : client cls.kind this = none)
    (found : client cls.kind rhs = some source) :
    Computes lib numbers special doubles (cls.copyConstructBody (.given this) (.given rhs)) client
      (client.set cls.kind this (some (cls.copy numbers source))) := by
  have different : rhs ≠ this := fun same => by simp [same, fresh] at found
  cases cls <;>
    simp [Class.copyConstructBody, Class.copyAssignBody, fresh, found, different] <;> rfl

theorem computes_copyAssign {source : cls.kind.Value model} (live : (client cls.kind this).isSome)
    (found : client cls.kind rhs = some source) :
    Computes lib numbers special doubles (cls.copyAssignBody (.given this) (.given rhs)) client
      (client.set cls.kind this (some (cls.copy numbers source))) := by
  cases cls <;> simp [Class.copyAssignBody, live, found] <;> rfl

theorem computes_moveConstruct {source : cls.kind.Value model} (fresh : client cls.kind this = none)
    (found : client cls.kind rhs = some source) :
    Computes lib numbers special doubles
      (Arbxx.moveConstruct cls.kind (.given this) (.given rhs)) client
      ((client.set cls.kind this (some source)).set cls.kind rhs (some cls.initial)) := by
  have different : rhs ≠ this := fun same => by simp [same, fresh] at found
  cases cls <;> simp [fresh, found, different] <;> rfl

theorem computes_exchange {first second : cls.kind.Value model}
    (foundFirst : client cls.kind this = some first)
    (foundSecond : client cls.kind rhs = some second) :
    Computes lib numbers special doubles (cls.moveAssignBody (.given this) (.given rhs)) client
      ((client.set cls.kind this (some second)).set cls.kind rhs (some first)) := by
  cases cls <;> simp [Class.moveAssignBody, foundFirst, foundSecond]

theorem computes_assignMpz {z : ℤ} (live : (client cls.kind this).isSome)
    (found : client .mpz rhs = some z) :
    Computes lib numbers special doubles (cls.assignMpzBody (.given this) (.given rhs)) client
      (client.set cls.kind this (some (cls.assigned lib (.mpz z)))) := by
  cases cls <;> simp [Class.assignMpzBody, live, found] <;> rfl

theorem computes_operatorNeg (elided : Bool) {value : cls.kind.Value model}
    (fresh : client cls.kind result = none) (found : client cls.kind this = some value) :
    Computes lib numbers special doubles
      (cls.operatorNegBody elided (.given result) (.given this)) client
      (client.set cls.kind result (some (cls.operatorNeg lib numbers value))) := by
  have different : this ≠ result := fun same => by simp [same, fresh] at found
  cases cls <;> cases elided <;> simp [Class.operatorNegBody, fresh, found, different] <;> rfl

end Classes

namespace Arf

variable {this rhs result : Name} {a b : Arf} {z : ℤ}

theorem computes_ofString (mantissa : List Char) (base : model.Value .int)
    (exponent : model.Value .long) (fresh : client .arf this = none) :
    Computes lib numbers special doubles (ofStringBody (.given this) mantissa base exponent) client
      (client.set .arf this (some (ofString lib numbers mantissa base exponent))) := by
  simp [ofStringBody, fresh]
  rfl

theorem computes_ofMpz (exponent : model.Value .long) (fresh : client .arf this = none)
    (found : client .mpz rhs = some z) :
    Computes lib numbers special doubles (ofMpzBody (.given this) (.given rhs) exponent) client
      (client.set .arf this (some (ofMpz lib z exponent))) := by
  simp [ofMpzBody, fresh, found]
  rfl

theorem computes_ofDouble (value : Double) (fresh : client .arf this = none) :
    Computes lib numbers special doubles (ofDoubleBody (.given this) value) client
      (client.set .arf this (some (ofDouble doubles value))) := by
  simp [ofDoubleBody, fresh]
  rfl

theorem computes_assignDouble (value : Double) (live : (client .arf this).isSome) :
    Computes lib numbers special doubles (assignDoubleBody (.given this) value) client
      (client.set .arf this (some (assignDouble doubles value))) := by
  simp [assignDoubleBody, live]
  rfl

theorem computes_toDouble (fresh : client .double result = none)
    (found : client .arf this = some a) :
    Computes lib numbers special doubles (toDoubleBody (.given result) (.given this)) client
      (client.set .double result (some (some (toDouble doubles a)))) := by
  simp [toDoubleBody, fresh, found]
  rfl

theorem computes_shiftLeftAssign (shift : model.Value .long) (found : client .arf this = some a) :
    Computes lib numbers special doubles (shiftLeftAssignBody (.given this) shift) client
      (client.set .arf this (some (shiftLeftAssign numbers a shift))) := by
  simp [shiftLeftAssignBody, found]
  rfl

theorem computes_abs (elided : Bool) (fresh : client .arf result = none)
    (found : client .arf this = some a) :
    Computes lib numbers special doubles (absBody elided (.given result) (.given this)) client
      (client.set .arf result (some (abs special a))) := by
  have different : this ≠ result := fun same => by simp [same, fresh] at found
  cases elided <;> simp [absBody, fresh, found, different] <;> rfl

theorem computes_integerPart (round : UnaryCall model .arf .arf) (elided : Bool)
    (fresh : client .mpz result = none) (found : client .arf this = some a) :
    Computes lib numbers special doubles
      (integerPartBody round elided (.given result) (.given this)) client
      (client.set .mpz result (some
        (numbers.arfGetFmpz (UnaryCall.value lib numbers special doubles round a) .near))) := by
  cases elided <;> simp [integerPartBody, fresh, found] <;> rfl

theorem computes_mantissa (fresh : client .mpz result = none) (found : client .arf this = some a) :
    Computes lib numbers special doubles (mantissaBody (.given result) (.given this)) client
      (client.set .mpz result (some (mantissa numbers a))) := by
  simp [mantissaBody, mantissaExponentBody, fresh, found]
  rfl

theorem computes_exponent (fresh : client .mpz result = none) (found : client .arf this = some a) :
    Computes lib numbers special doubles (exponentBody (.given result) (.given this)) client
      (client.set .mpz result (some (exponent numbers a))) := by
  simp [exponentBody, mantissaExponentBody, fresh, found]
  rfl

theorem computes_logb (fresh : client .long result = none) (found : client .arf this = some a) :
    Computes lib numbers special doubles (logbBody (.given result) (.given this)) client
      (client.set .long result (some (logb numbers a))) := by
  simp [logbBody, fresh, found]
  rfl

theorem computes_operator (comparison : Comparison) (fresh : client .truth result = none)
    (left : client .arf this = some a) (right : client .arf rhs = some b) :
    Computes lib numbers special doubles
      (operatorBody comparison (.given result) (.given this) (.given rhs)) client
      (client.set .truth result (some (some (operator lib comparison a b)))) := by
  simp [operatorBody, fresh, left, right]
  rfl

theorem computes_operatorMpz (comparison : Comparison) (fresh : client .truth result = none)
    (left : client .arf this = some a) (right : client .mpz rhs = some z) :
    Computes lib numbers special doubles
      (operatorMpzBody comparison (.given result) (.given this) (.given rhs)) client
      (client.set .truth result (some (some (operator lib comparison a (ofMpzClass lib z))))) := by
  simp [operatorMpzBody, ofMpzBody, operatorBody, fresh, left, right]
  rfl

theorem computes_operatorInteger (comparison : Comparison) (value : Supported model)
    (fresh : client .truth result = none) (left : client .arf this = some a) :
    Computes lib numbers special doubles
      (operatorIntegerBody comparison (.given result) (.given this) value) client
      (client.set .truth result
        (some (some
          (compareCall lib comparison a (value.call (comparisonOverload comparison)))))) := by
  cases value with
  | slong value | ulong value =>
      simp [operatorIntegerBody, fresh, left]
      rfl
  | mpz value =>
      rw [Supported.call, compareCall_mpz]
      simp [operatorIntegerBody, withInteger, operatorMpzBody, ofMpzBody, operatorBody, fresh, left]
      rfl

end Arf

namespace Arb

variable {this rhs result first second : Name} {x y : Arb} {a b : Arf}

theorem computes_ofMpzClass {z : ℤ} (fresh : client .arb this = none)
    (found : client .mpz rhs = some z) :
    Computes lib numbers special doubles (ofMpzClassBody (.given this) (.given rhs)) client
      (client.set .arb this (some (setCall lib (.mpz .arbConstructor z)))) := by
  simp [ofMpzClassBody, Class.assignMpzBody, fresh, found]
  rfl

theorem computes_ofMpqPrec (precision : ℤ) {q : Mpq} (fresh : client .arb this = none)
    (found : client .mpq rhs = some q) :
    Computes lib numbers special doubles (ofMpqPrecBody (.given this) (.given rhs) precision) client
      (client.set .arb this (some (ofMpqPrec lib q precision))) := by
  simp [ofMpqPrecBody, fresh, found]
  rfl

theorem computes_ofString (value : List Char) (precision : ℤ) (fresh : client .arb this = none) :
    Computes lib numbers special doubles (ofStringBody (.given this) value precision) client
      (client.set .arb this (some (ofString numbers value precision))) := by
  simp [ofStringBody, fresh]
  rfl

theorem computes_ofArf (fresh : client .arb this = none) (found : client .arf rhs = some a) :
    Computes lib numbers special doubles (ofArfBody (.given this) (.given rhs)) client
      (client.set .arb this (some (ofArf lib a))) := by
  simp [ofArfBody, fresh, found]
  rfl

theorem computes_ofBoundsPrec (precision : ℤ) (fresh : client .arb this = none)
    (lower : client .arf first = some a) (upper : client .arf second = some b) :
    Computes lib numbers special doubles
      (ofBoundsPrecBody (.given this) (.given first) (.given second) precision) client
      (client.set .arb this (some (ofBoundsPrec lib (a, b) precision))) := by
  simp [ofBoundsPrecBody, fresh, lower, upper]
  rfl

theorem computes_special (ball : SpecialBall) (elided : Bool) (fresh : client .arb result = none) :
    Computes lib numbers special doubles (specialBody ball elided (.given result)) client
      (client.set .arb result (some (ball.value special))) := by
  cases elided <;> cases ball <;> simp [specialBody, fresh] <;> rfl

theorem computes_isExact (fresh : client .truth result = none) (found : client .arb this = some x) :
    Computes lib numbers special doubles (isExactBody (.given result) (.given this)) client
      (client.set .truth result (some (some (isExact lib x)))) := by
  simp [isExactBody, fresh, found]
  rfl

theorem computes_isFinite (fresh : client .truth result = none)
    (found : client .arb this = some x) :
    Computes lib numbers special doubles (isFiniteBody (.given result) (.given this)) client
      (client.set .truth result (some (some (isFinite lib x)))) := by
  simp [isFiniteBody, fresh, found]
  rfl

theorem computes_equal (fresh : client .truth result = none) (left : client .arb this = some x)
    (right : client .arb rhs = some y) :
    Computes lib numbers special doubles
      (equalBody (.given result) (.given this) (.given rhs)) client
      (client.set .truth result (some (some (equal lib x y)))) := by
  simp [equalBody, fresh, left, right]
  rfl

theorem computes_operator (comparison : Comparison) (fresh : client .truth result = none)
    (left : client .arb this = some x) (right : client .arb rhs = some y) :
    Computes lib numbers special doubles
      (operatorBody comparison (.given result) (.given this) (.given rhs)) client
      (client.set .truth result (some (operator lib comparison x y))) := by
  simp [operatorBody, fresh, left, right]
  rfl

/-- The answer for a temporary element, on the side where it stands. -/
def temporaryAnswer (lib : CLibrary model) (comparison : Comparison) (temporaryLeft : Bool)
    (temporary other : Arb) : Option Bool :=
  if temporaryLeft then operator lib comparison temporary other
  else operator lib comparison other temporary

theorem computes_operatorInteger (comparison : Comparison) (temporaryLeft : Bool)
    (value : Supported model) (fresh : client .truth result = none)
    (found : client .arb this = some x) :
    Computes lib numbers special doubles
      (operatorTemporaryBody (Class.arb.constructIntegerBody · value) comparison temporaryLeft
        (.given result) (.given this)) client
      (client.set .truth result
        (some
          (temporaryAnswer lib comparison temporaryLeft (Class.arb.assigned lib value) x))) := by
  cases temporaryLeft <;> cases value <;>
    simp [operatorTemporaryBody, Class.constructIntegerBody, Class.assignIntegerBody, withInteger,
      Class.assignMpzBody, operatorBody, fresh, found] <;> rfl

theorem computes_operatorMpz (comparison : Comparison) (temporaryLeft : Bool) {z : ℤ}
    (fresh : client .truth result = none) (found : client .arb this = some x)
    (other : client .mpz rhs = some z) :
    Computes lib numbers special doubles
      (operatorTemporaryBody (ofMpzClassBody · (.given rhs)) comparison temporaryLeft
        (.given result) (.given this)) client
      (client.set .truth result
        (some (temporaryAnswer lib comparison temporaryLeft
          (setCall lib (.mpz .arbConstructor z)) x))) := by
  cases temporaryLeft <;>
    simp [operatorTemporaryBody, ofMpzClassBody, Class.assignMpzBody, operatorBody, fresh, found,
      other] <;> rfl

theorem computes_operatorMpq (comparison : Comparison) (temporaryLeft : Bool) {q : Mpq}
    (fresh : client .truth result = none) (found : client .arb this = some x)
    (other : client .mpq rhs = some q) :
    Computes lib numbers special doubles
      (operatorTemporaryBody (ofMpqPrecBody · (.given rhs) arbPrecisionFast) comparison
        temporaryLeft (.given result) (.given this)) client
      (client.set .truth result
        (some (temporaryAnswer lib comparison temporaryLeft (ofMpq lib q) x))) := by
  cases temporaryLeft <;>
    simp [operatorTemporaryBody, ofMpqPrecBody, operatorBody, fresh, found, other] <;> rfl

theorem computes_toBounds (elided : Bool) (different : first ≠ second)
    (fresh : client .arf first = none) (fresh' : client .arf second = none)
    (found : client .arb this = some x) :
    Computes lib numbers special doubles
      (toBoundsBody elided (.given first) (.given second) (.given this)) client
      ((client.set .arf first (some (toBounds lib x).1)).set .arf second
        (some (toBounds lib x).2)) := by
  cases elided with
  | true =>
      simp [toBoundsBody, fresh, fresh', found, different, different.symm]
      rw [Client.set_comm different, Client.set_set, Client.set_comm different.symm,
        Client.set_set]
      rfl
  | false =>
      simp [toBoundsBody, fresh, fresh', found, different.symm]
      rfl

theorem computes_toDouble (fresh : client .double result = none)
    (found : client .arb this = some x) :
    Computes lib numbers special doubles (toDoubleBody (.given result) (.given this)) client
      (client.set .double result (some (some (toDouble doubles x)))) := by
  simp [toDoubleBody, fresh, found]
  rfl

theorem computes_toArf (elided : Bool) (fresh : client .arf result = none)
    (found : client .arb this = some x) :
    Computes lib numbers special doubles (toArfBody elided (.given result) (.given this)) client
      (client.set .arf result (some (toArf numbers x))) := by
  cases elided <;> simp [toArfBody, fresh, found] <;> rfl

end Arb

namespace Method

/-- The body of a method does what the method does on values, whether or not the
construction of returned objects is elided. -/
theorem computes_of_effect (elided : Bool) (method : Method model Name)
    (effect : method.effect lib numbers special doubles client = some client') :
    Computes lib numbers special doubles (method.body elided) client client' := by
  cases method with
  | mpzClass target z | mpqClass target q =>
      obtain ⟨fresh, rfl⟩ := Client.produce_eq_some_iff.mp effect
      simp [body, fresh]
      rfl
  | destruct kind this =>
      obtain ⟨value, found, rfl⟩ := Option.map_eq_some_iff.mp effect
      simp [body, found]
  | construct cls this =>
      obtain ⟨fresh, rfl⟩ := Client.produce_eq_some_iff.mp effect
      exact computes_construct cls fresh
  | constructInteger cls this value =>
      obtain ⟨_, produced⟩ := Option.ite_none_right_eq_some.mp effect
      obtain ⟨fresh, rfl⟩ := Client.produce_eq_some_iff.mp produced
      exact computes_constructInteger cls value.supported fresh
  | copyConstruct cls this value =>
      obtain ⟨source, found, fresh, rfl⟩ := Client.bind_produce_eq_some_iff.mp effect
      exact computes_copyConstruct cls fresh found
  | moveConstruct cls this value =>
      obtain ⟨source, found, moved⟩ := Option.bind_eq_some_iff.mp effect
      obtain ⟨middle, produced, overwritten⟩ := Option.bind_eq_some_iff.mp moved
      obtain ⟨fresh, rfl⟩ := Client.produce_eq_some_iff.mp produced
      obtain ⟨_, _, rfl⟩ := Option.map_eq_some_iff.mp overwritten
      exact computes_moveConstruct cls fresh found
  | copyAssign cls this rhs =>
      obtain ⟨source, found, overwritten⟩ := Option.bind_eq_some_iff.mp effect
      obtain ⟨old, live, rfl⟩ := Option.map_eq_some_iff.mp overwritten
      exact computes_copyAssign cls (Option.isSome_of_eq_some live) found
  | moveAssign cls this rhs | swap cls this rhs =>
      obtain ⟨first, foundFirst, exchanged⟩ := Option.bind_eq_some_iff.mp effect
      obtain ⟨second, foundSecond, rfl⟩ := Option.map_eq_some_iff.mp exchanged
      exact computes_exchange cls foundFirst foundSecond
  | assignInteger cls this rhs =>
      obtain ⟨_, overwritten⟩ := Option.ite_none_right_eq_some.mp effect
      obtain ⟨old, live, rfl⟩ := Option.map_eq_some_iff.mp overwritten
      exact computes_assignInteger cls rhs.supported (Option.isSome_of_eq_some live)
  | assignMpz cls this rhs =>
      obtain ⟨z, found, overwritten⟩ := Option.bind_eq_some_iff.mp effect
      obtain ⟨old, live, rfl⟩ := Option.map_eq_some_iff.mp overwritten
      exact computes_assignMpz cls (Option.isSome_of_eq_some live) found
  | operatorNeg cls result this =>
      obtain ⟨value, found, fresh, rfl⟩ := Client.bind_produce_eq_some_iff.mp effect
      exact computes_operatorNeg cls elided fresh found
  | arfOfString this mantissa base exponent =>
      obtain ⟨fresh, rfl⟩ := Client.produce_eq_some_iff.mp effect
      exact Arf.computes_ofString mantissa base exponent fresh
  | arfOfDouble this value =>
      obtain ⟨fresh, rfl⟩ := Client.produce_eq_some_iff.mp effect
      exact Arf.computes_ofDouble value fresh
  | arfAssignDouble this rhs =>
      obtain ⟨old, live, rfl⟩ := Option.map_eq_some_iff.mp effect
      exact Arf.computes_assignDouble rhs (Option.isSome_of_eq_some live)
  | arfToDouble result this =>
      obtain ⟨a, found, fresh, rfl⟩ := Client.bind_produce_eq_some_iff.mp effect
      exact Arf.computes_toDouble fresh found
  | arfShiftLeftAssign this rhs | arfShiftRightAssign this rhs =>
      obtain ⟨a, found, overwritten⟩ := Option.bind_eq_some_iff.mp effect
      obtain ⟨_, _, rfl⟩ := Option.map_eq_some_iff.mp overwritten
      exact Arf.computes_shiftLeftAssign _ found
  | arfOfMpz this value exponent =>
      obtain ⟨z, found, fresh, rfl⟩ := Client.bind_produce_eq_some_iff.mp effect
      exact Arf.computes_ofMpz exponent fresh found
  | arfAbs result this =>
      obtain ⟨a, found, fresh, rfl⟩ := Client.bind_produce_eq_some_iff.mp effect
      exact Arf.computes_abs elided fresh found
  | arfFloor result this =>
      obtain ⟨a, isFinite, produced⟩ := Option.bind_eq_some_iff.mp effect
      obtain ⟨fresh, rfl⟩ := Client.produce_eq_some_iff.mp produced
      exact Arf.computes_integerPart .arfFloor elided fresh (Client.eq_some_of_finite isFinite)
  | arfCeil result this =>
      obtain ⟨a, isFinite, produced⟩ := Option.bind_eq_some_iff.mp effect
      obtain ⟨fresh, rfl⟩ := Client.produce_eq_some_iff.mp produced
      exact Arf.computes_integerPart .arfCeil elided fresh (Client.eq_some_of_finite isFinite)
  | arfMantissa result this =>
      obtain ⟨a, found, fresh, rfl⟩ := Client.bind_produce_eq_some_iff.mp effect
      exact Arf.computes_mantissa fresh found
  | arfExponent result this =>
      obtain ⟨a, found, fresh, rfl⟩ := Client.bind_produce_eq_some_iff.mp effect
      exact Arf.computes_exponent fresh found
  | arfLogb result this =>
      obtain ⟨a, found, fresh, rfl⟩ := Client.bind_produce_eq_some_iff.mp effect
      exact Arf.computes_logb fresh found
  | arfOperator comparison result lhs rhs =>
      obtain ⟨a, left, rest⟩ := Option.bind_eq_some_iff.mp effect
      obtain ⟨b, right, fresh, rfl⟩ := Client.bind_produce_eq_some_iff.mp rest
      exact Arf.computes_operator comparison fresh left right
  | arfOperatorMpz comparison result lhs rhs =>
      obtain ⟨a, left, rest⟩ := Option.bind_eq_some_iff.mp effect
      obtain ⟨z, right, fresh, rfl⟩ := Client.bind_produce_eq_some_iff.mp rest
      exact Arf.computes_operatorMpz comparison fresh left right
  | arfOperatorInteger comparison result lhs rhs =>
      obtain ⟨_, answered⟩ := Option.ite_none_right_eq_some.mp effect
      obtain ⟨a, left, fresh, rfl⟩ := Client.bind_produce_eq_some_iff.mp answered
      exact Arf.computes_operatorInteger comparison rhs.supported fresh left
  | arbOfMpzClass this value =>
      obtain ⟨z, found, fresh, rfl⟩ := Client.bind_produce_eq_some_iff.mp effect
      exact Arb.computes_ofMpzClass fresh found
  | arbOfMpqPrec this rat precision =>
      obtain ⟨q, found, fresh, rfl⟩ := Client.bind_produce_eq_some_iff.mp effect
      exact Arb.computes_ofMpqPrec precision fresh found
  | arbOfString this value precision =>
      obtain ⟨fresh, rfl⟩ := Client.produce_eq_some_iff.mp effect
      exact Arb.computes_ofString value precision fresh
  | arbOfArf this midpoint =>
      obtain ⟨a, found, fresh, rfl⟩ := Client.bind_produce_eq_some_iff.mp effect
      exact Arb.computes_ofArf fresh found
  | arbOfBoundsPrec this first second precision =>
      obtain ⟨a, lower, rest⟩ := Option.bind_eq_some_iff.mp effect
      obtain ⟨b, upper, fresh, rfl⟩ := Client.bind_produce_eq_some_iff.mp rest
      exact Arb.computes_ofBoundsPrec precision fresh lower upper
  | arbSpecial ball result =>
      obtain ⟨fresh, rfl⟩ := Client.produce_eq_some_iff.mp effect
      exact Arb.computes_special ball elided fresh
  | arbIsExact result this =>
      obtain ⟨x, found, fresh, rfl⟩ := Client.bind_produce_eq_some_iff.mp effect
      exact Arb.computes_isExact fresh found
  | arbIsFinite result this =>
      obtain ⟨x, found, fresh, rfl⟩ := Client.bind_produce_eq_some_iff.mp effect
      exact Arb.computes_isFinite fresh found
  | arbEqual result this rhs =>
      obtain ⟨x, left, rest⟩ := Option.bind_eq_some_iff.mp effect
      obtain ⟨y, right, fresh, rfl⟩ := Client.bind_produce_eq_some_iff.mp rest
      exact Arb.computes_equal fresh left right
  | arbOperator comparison result lhs rhs =>
      obtain ⟨x, left, rest⟩ := Option.bind_eq_some_iff.mp effect
      obtain ⟨y, right, fresh, rfl⟩ := Client.bind_produce_eq_some_iff.mp rest
      exact Arb.computes_operator comparison fresh left right
  | arbOperatorInteger comparison result lhs rhs =>
      obtain ⟨_, answered⟩ := Option.ite_none_right_eq_some.mp effect
      obtain ⟨x, found, fresh, rfl⟩ := Client.bind_produce_eq_some_iff.mp answered
      exact Arb.computes_operatorInteger comparison false rhs.supported fresh found
  | integerOperatorArb comparison result lhs rhs =>
      obtain ⟨_, answered⟩ := Option.ite_none_right_eq_some.mp effect
      obtain ⟨y, found, fresh, rfl⟩ := Client.bind_produce_eq_some_iff.mp answered
      exact Arb.computes_operatorInteger comparison true lhs.supported fresh found
  | arbOperatorMpz comparison result lhs rhs =>
      obtain ⟨x, found, rest⟩ := Option.bind_eq_some_iff.mp effect
      obtain ⟨z, other, fresh, rfl⟩ := Client.bind_produce_eq_some_iff.mp rest
      exact Arb.computes_operatorMpz comparison false fresh found other
  | mpzOperatorArb comparison result lhs rhs =>
      obtain ⟨z, other, rest⟩ := Option.bind_eq_some_iff.mp effect
      obtain ⟨y, found, fresh, rfl⟩ := Client.bind_produce_eq_some_iff.mp rest
      exact Arb.computes_operatorMpz comparison true fresh found other
  | arbOperatorMpq comparison result lhs rhs =>
      obtain ⟨x, found, rest⟩ := Option.bind_eq_some_iff.mp effect
      obtain ⟨q, other, fresh, rfl⟩ := Client.bind_produce_eq_some_iff.mp rest
      rw [Arb.operatorMpq_eq]
      exact Arb.computes_operatorMpq comparison false fresh found other
  | mpqOperatorArb comparison result lhs rhs =>
      obtain ⟨q, other, rest⟩ := Option.bind_eq_some_iff.mp effect
      obtain ⟨y, found, fresh, rfl⟩ := Client.bind_produce_eq_some_iff.mp rest
      rw [Arb.mpqOperator_eq]
      exact Arb.computes_operatorMpq comparison true fresh found other
  | arbToBounds first second this =>
      obtain ⟨x, found, rest⟩ := Option.bind_eq_some_iff.mp effect
      obtain ⟨middle, produced, produced'⟩ := Option.bind_eq_some_iff.mp rest
      obtain ⟨fresh, rfl⟩ := Client.produce_eq_some_iff.mp produced
      obtain ⟨fresh', rfl⟩ := Client.produce_eq_some_iff.mp produced'
      have different : first ≠ second := fun same => by simp [same] at fresh'
      rw [Client.set_of_name_ne different.symm] at fresh'
      exact Arb.computes_toBounds elided different fresh fresh' found
  | arbToDouble result this =>
      obtain ⟨x, found, fresh, rfl⟩ := Client.bind_produce_eq_some_iff.mp effect
      exact Arb.computes_toDouble fresh found
  | arbToArf result this =>
      obtain ⟨x, found, fresh, rfl⟩ := Client.bind_produce_eq_some_iff.mp effect
      exact Arb.computes_toArf elided fresh found

end Method

end Bodies

/-! ### Runs -/

section Runs

variable (lib : CLibrary model) (numbers : NumberLibrary model)
  (special : SpecialLibrary) (doubles : DoubleLibrary)

/-- The effects of calls, one after the other. -/
def effects : List (Method model Name) → Client model Name → Option (Client model Name)
  | [], client => some client
  | method :: methods, client =>
      (method.effect lib numbers special doubles client).bind (effects methods)

/-- The bodies of calls, each with its own choice of elision. -/
def bodies (calls : List (Bool × Method model Name)) : CallSequence model Name :=
  calls.flatMap fun call => call.2.body call.1

variable {lib numbers special doubles} {Address Content : Type}
  {implementation : Implementation (calls model) (Kind.Value model) Address Content}

theorem bodies_spec (calls : List (Bool × Method model Name)) {client client' : Client model Name}
    (run : effects lib numbers special doubles (calls.map Prod.snd) client = some client') :
    Computes lib numbers special doubles (bodies calls) client client' := by
  induction calls generalizing client with
  | nil =>
      obtain rfl := Option.some.inj run
      exact ⟨trivial, rfl⟩
  | cons call calls induction =>
      obtain ⟨middle, effect, rest⟩ := Option.bind_eq_some_iff.mp run
      obtain ⟨allowed, applied⟩ := call.2.computes_of_effect call.1 effect
      obtain ⟨allowedRest, appliedRest⟩ := induction rest
      rw [bodies, List.flatMap_cons]
      constructor
      · rw [Statement.allowedAll_append_iff, applied]
        exact ⟨allowed, allowedRest⟩
      · rw [Statement.applyAll_append, applied]
        exact appliedRest

/-- The live objects are those of the client with their values, and no temporaries;
every live block belongs to one of them, and to it alone. -/
structure Mirrors (m : implementation.State Name) (client : Client model Name) : Prop where
  live_iff : ∀ kind x, ⟨kind, .given x⟩ ∈ m.live ↔ (client kind x).isSome
  value_eq : ∀ kind x value, client kind x = some value →
    implementation.stateValue m kind (.given x) = value
  no_temporaries : ∀ kind index, ⟨kind, .temporary index⟩ ∉ m.live
  owner : ∀ block ∈ m.heap.live, ∃! place : Place Kind Name,
    place ∈ m.live ∧ block ∈ implementation.blocks place.kind (m.raw place)
  referenced : ∀ place ∈ m.live,
    implementation.blocks place.kind (m.raw place) ≤ m.heap.live.val
  nothing_left : (∀ kind x, client kind x = none) → m.heap.live = ∅

theorem mirrors_of_represents {m : implementation.State Name} {client : Client model Name}
    (represents : implementation.Represents m (Store.ofGiven client)) : Mirrors m client where
  live_iff kind x := represents.live_iff kind (.given x)
  value_eq kind x value found := represents.value_eq kind (.given x) value found
  no_temporaries kind index := by
    rw [represents.live_iff]
    exact Bool.false_ne_true
  owner block live := represents.owned.existsUnique_owner live
  referenced place live := represents.owned.blocks_le live
  nothing_left missing := by
    apply represents.owned.heap_empty
    rw [Finset.eq_empty_iff_forall_notMem]
    rintro ⟨kind, x | index⟩ live
    · rw [represents.live_iff] at live
      change (client kind x).isSome at live
      rw [missing] at live
      exact Bool.false_ne_true live
    · rw [represents.live_iff] at live
      exact Bool.false_ne_true live

end Runs

/-- No objects and no blocks. -/
def noObjects : (referenceCalls (CLibrary.reference .lp64) (NumberLibrary.reference .lp64)
    SpecialLibrary.reference DoubleLibrary.reference).State ℕ :=
  ⟨⟨∅, fun _ => 0⟩, ∅, fun _ => []⟩

/-- A large number is taken apart and converted, and everything is destroyed again. -/
def takeApart : List (Bool × Method .lp64 ℕ) :=
  [(true, .mpzClass 0 (3 ^ 50)), (true, .arfOfMpz 0 0 (DataModel.lp64.staticCast .long (-3))),
    (false, .arfFloor 1 0), (true, .arbOfArf 0 0), (false, .arbToBounds 1 2 0),
    (true, .arbToDouble 0 0),
    (true, .constructInteger .arf 3 ⟨.longLong, DataModel.lp64.staticCast .longLong (-7)⟩),
    (true, .destruct .arf 3),
    (true, .destruct .double 0), (true, .destruct .arf 2), (true, .destruct .arf 1),
    (true, .destruct .arb 0), (true, .destruct .mpz 1), (true, .destruct .arf 0),
    (true, .destruct .mpz 0)]

private theorem isFinite_ofMpz (m : ℤ) (e : DataModel.lp64.Value .long) :
    (Arf.ofMpz (CLibrary.reference .lp64) m e).isFinite = true := by
  rw [Arf.ofMpz_eq (CLibrary.reference_setsIntegers .lp64), Arf.isFinite]

private theorem settles_lp64 (overload : Overload) (operand : Operand .lp64) :
    overload.Settles operand :=
  .inl rfl

theorem effects_takeApart :
    effects (CLibrary.reference .lp64) (NumberLibrary.reference .lp64) SpecialLibrary.reference
      DoubleLibrary.reference (takeApart.map Prod.snd) (fun _ _ => none) =
        some fun _ _ => none := by
  simp [effects, takeApart, Method.effect, Client.finite, Option.filter_some, isFinite_ofMpz,
    settles_lp64,
    Client.produce, Client.set_of_kind_ne, Client.set_of_name_ne, Client.set_of_eq]

end Arbxx
