import Arbxx.CLibrary
import Arbxx.DelegationChains

/-!
# Delegation between the integer overloads

Constructors, assignments and comparisons of `Arf` and `Arb` are overloaded over
the built-in integer types.  Most overloads delegate to another one, through a
cast named in the source or through `to_supported_integer`, until one of them
calls a library function for a machine word or the argument is an `mpz_class`.

The body of every overload is one step of a chain.  This file follows the chains:
what one step preserves, which chains end, and what they end in.
-/

namespace Arbxx

open TwosComplement

variable {model : DataModel} (lib : CLibrary model)

/-- `std::conditional_t<std::numeric_limits<S>::is_signed, slong, ulong>`. -/
def DataModel.wordType (model : DataModel) (type : IntegerType) : IntegerType :=
  if type.isSigned then model.slong else model.ulong

/-- `to_supported_integer`: a value of `slong` or `ulong` if these hold every
value of the type, and an `mpz_class` otherwise. -/
def toSupportedInteger (type : IntegerType) (value : model.Value type) : Operand model :=
  let Long := model.wordType type
  if (model.format Long).minimum ≤ (model.format type).minimum ∧
      (model.format Long).maximum ≥ (model.format type).maximum then
    .ofType Long (model.staticCast Long value.val)
  else
    .mpz (lib.mpzClass value.val)

/-- The sets of overloads that delegate among themselves. -/
inductive Overload
  | arbConstructor
  | arbAssign
  | arfConstructor
  | arfAssign
  | arfLess
  | arfGreater
  | arfEqual
  deriving DecidableEq

/-- What a chain ends in: a library function for an `slong`, one for a `ulong`,
or the overload of a set for `mpz_class`. -/
inductive Call (model : DataModel)
  | si (value : model.Value model.slong)
  | ui (value : model.Value model.ulong)
  | mpz (overload : Overload) (value : ℤ)

def Call.integer : Call model → ℤ
  | .si value => value.val
  | .ui value => value.val
  | .mpz _ value => value

/-- One overload: it ends in a call, or passes an argument to another overload. -/
abbrev Body (model : DataModel) : Type :=
  Operand model → Call model ⊕ (Overload × Operand model)

/-- `Arb::Arb(T)`: the small types are cast to the `long` types, and these and
the `long long` types are assigned to a fresh element. -/
def arbConstructorBody : Body model
  | .short x => .inr (.arbConstructor, .long (model.staticCast .long x.val))
  | .unsignedShort x => .inr (.arbConstructor, .unsignedLong (model.staticCast .unsignedLong x.val))
  | .int x => .inr (.arbConstructor, .long (model.staticCast .long x.val))
  | .unsignedInt x => .inr (.arbConstructor, .unsignedLong (model.staticCast .unsignedLong x.val))
  | .long x => .inr (.arbAssign, .long x)
  | .unsignedLong x => .inr (.arbAssign, .unsignedLong x)
  | .longLong x => .inr (.arbAssign, .longLong x)
  | .unsignedLongLong x => .inr (.arbAssign, .unsignedLongLong x)
  | .mpz value => .inl (.mpz .arbConstructor value)

/-- `Arb::operator=(T)`: `arb_set_si` and `arb_set_ui` take the `long` types. -/
def arbAssignBody : Body model
  | .short rhs => .inr (.arbAssign, .long (model.staticCast .long rhs.val))
  | .unsignedShort rhs => .inr (.arbAssign, .unsignedLong (model.staticCast .unsignedLong rhs.val))
  | .int rhs => .inr (.arbAssign, .long (model.staticCast .long rhs.val))
  | .unsignedInt rhs => .inr (.arbAssign, .unsignedLong (model.staticCast .unsignedLong rhs.val))
  | .long rhs => .inl (.si (model.staticCast model.slong rhs.val))
  | .unsignedLong rhs => .inl (.ui (model.staticCast model.ulong rhs.val))
  | .longLong rhs => .inr (.arbAssign, toSupportedInteger lib .longLong rhs)
  | .unsignedLongLong rhs => .inr (.arbAssign, toSupportedInteger lib .unsignedLongLong rhs)
  | .mpz rhs => .inl (.mpz .arbAssign rhs)

/-- `Arf::Arf(T)`: `arf_set_si` and `arf_set_ui` take the `long` types, and the
`long long` types are assigned to a fresh element. -/
def arfConstructorBody : Body model
  | .short value => .inr (.arfConstructor, .long (model.staticCast .long value.val))
  | .unsignedShort value =>
      .inr (.arfConstructor, .unsignedLong (model.staticCast .unsignedLong value.val))
  | .int value => .inr (.arfConstructor, .long (model.staticCast .long value.val))
  | .unsignedInt value =>
      .inr (.arfConstructor, .unsignedLong (model.staticCast .unsignedLong value.val))
  | .long value => .inl (.si (model.staticCast model.slong value.val))
  | .unsignedLong value => .inl (.ui (model.staticCast model.ulong value.val))
  | .longLong value => .inr (.arfAssign, .longLong value)
  | .unsignedLongLong value => .inr (.arfAssign, .unsignedLongLong value)
  | .mpz mantissa => .inl (.mpz .arfConstructor mantissa)

/-- The shape shared by `Arf::operator=(T)` and the comparisons `Arf < T`,
`Arf > T` and `Arf == T`: the `long` types reach the library, and every other
built-in type goes through `to_supported_integer`. -/
def supportedBody (overload : Overload) : Body model
  | .short rhs => .inr (overload, toSupportedInteger lib .short rhs)
  | .unsignedShort rhs => .inr (overload, toSupportedInteger lib .unsignedShort rhs)
  | .int rhs => .inr (overload, toSupportedInteger lib .int rhs)
  | .unsignedInt rhs => .inr (overload, toSupportedInteger lib .unsignedInt rhs)
  | .long rhs => .inl (.si (model.staticCast model.slong rhs.val))
  | .unsignedLong rhs => .inl (.ui (model.staticCast model.ulong rhs.val))
  | .longLong rhs => .inr (overload, toSupportedInteger lib .longLong rhs)
  | .unsignedLongLong rhs => .inr (overload, toSupportedInteger lib .unsignedLongLong rhs)
  | .mpz rhs => .inl (.mpz overload rhs)

/-- `Arf::operator=(T)`, with `arf_set_si` and `arf_set_ui`. -/
def arfAssignBody : Body model :=
  supportedBody lib .arfAssign

/-- `operator<(Arf, T)`, with `arf_cmp_si` and `arf_cmp_ui`. -/
def arfLessBody : Body model :=
  supportedBody lib .arfLess

def arfGreaterBody : Body model :=
  supportedBody lib .arfGreater

/-- `operator==(Arf, T)`, with `arf_equal_si` and `arf_cmp_ui`. -/
def arfEqualBody : Body model :=
  supportedBody lib .arfEqual

def body : Overload → Body model
  | .arbConstructor => arbConstructorBody
  | .arbAssign => arbAssignBody lib
  | .arfConstructor => arfConstructorBody
  | .arfAssign => arfAssignBody lib
  | .arfLess => arfLessBody lib
  | .arfGreater => arfGreaterBody lib
  | .arfEqual => arfEqualBody lib

/-- Call an overload and follow the delegations. -/
def run (overload : Overload) (operand : Operand model) : Computation (Call model) :=
  Computation.corec (fun state => body lib state.1 state.2) (overload, operand)

/-! ### What delegation preserves -/

inductive CallKind
  | si
  | ui
  | mpz
  deriving DecidableEq

def Call.kind : Call model → CallKind
  | .si _ => .si
  | .ui _ => .ui
  | .mpz _ _ => .mpz

/-- The way of ending that a built-in type leads to: a word of its signedness if
that holds all its values, and an `mpz_class` otherwise. -/
def DataModel.callKind (model : DataModel) (type : IntegerType) : CallKind :=
  if (model.format type).Within (model.format (model.wordType type)) then
    if type.isSigned then .si else .ui
  else
    .mpz

def Operand.kind : Operand model → CallKind
  | .short _ => model.callKind .short
  | .unsignedShort _ => model.callKind .unsignedShort
  | .int _ => model.callKind .int
  | .unsignedInt _ => model.callKind .unsignedInt
  | .long _ => model.callKind .long
  | .unsignedLong _ => model.callKind .unsignedLong
  | .longLong _ => model.callKind .longLong
  | .unsignedLongLong _ => model.callKind .unsignedLongLong
  | .mpz _ => .mpz

@[simp]
theorem Operand.kind_ofType (type : IntegerType) (value : model.Value type) :
    (Operand.ofType type value).kind = model.callKind type := by
  cases type <;> rfl

@[simp]
theorem isSigned_wordType (type : IntegerType) :
    (model.wordType type).isSigned = type.isSigned := by
  unfold DataModel.wordType
  cases signed : type.isSigned <;> simp

/-- The word types hold their own values, so they lead to a call at once. -/
theorem callKind_wordType (type : IntegerType) :
    model.callKind (model.wordType type) = if type.isSigned then .si else .ui := by
  have same : model.wordType (model.wordType type) = model.wordType type := by
    rw [DataModel.wordType, isSigned_wordType, DataModel.wordType]
  have self : (model.format (model.wordType type)).Within
      (model.format (model.wordType (model.wordType type))) := by
    rw [same]
    exact ⟨le_rfl, le_rfl⟩
  rw [DataModel.callKind, if_pos self, isSigned_wordType]

/-- The `long` types and all smaller ones lead to a machine word. -/
theorem callKind_of_width_le {type : IntegerType}
    (small : model.width type ≤ model.width .long) :
    model.callKind type = if type.isSigned then .si else .ui := by
  have widthLe : model.width type ≤ model.width (model.wordType type) := by
    unfold DataModel.wordType
    cases type.isSigned with
    | true => exact small.trans model.width_long_le_slong
    | false => exact small.trans model.width_unsignedLong_le_ulong
  rw [DataModel.callKind, if_pos (model.within_of_width_le (isSigned_wordType type).symm widthLe)]

/-- Two arguments carry the same integer to the same way of ending. -/
def Operand.Equivalent (first second : Operand model) : Prop :=
  first.integer = second.integer ∧ first.kind = second.kind

/-- A call hands on the integer of an argument in the way its type leads to. -/
def Call.Delivers (call : Call model) (operand : Operand model) : Prop :=
  call.integer = operand.integer ∧ call.kind = operand.kind

theorem toSupportedInteger_of_within {type : IntegerType}
    (within : (model.format type).Within (model.format (model.wordType type)))
    (value : model.Value type) :
    toSupportedInteger lib type value =
      .ofType (model.wordType type) (model.staticCast (model.wordType type) value.val) :=
  if_pos within

theorem toSupportedInteger_of_not_within {type : IntegerType}
    (notWithin : ¬ (model.format type).Within (model.format (model.wordType type)))
    (value : model.Value type) :
    toSupportedInteger lib type value = .mpz (lib.mpzClass value.val) :=
  if_neg notWithin

theorem toSupportedInteger_equivalent (sets : lib.SetsIntegers) (type : IntegerType)
    (value : model.Value type) :
    (toSupportedInteger lib type value).Equivalent (.ofType type value) := by
  unfold Operand.Equivalent
  by_cases within : (model.format type).Within (model.format (model.wordType type))
  · have kept : (model.staticCast (model.wordType type) value.val).val = value.val :=
      Format.cast_val_of_inRange (value.property.of_within within)
    rw [toSupportedInteger_of_within lib within]
    refine ⟨by simp [kept], ?_⟩
    rw [Operand.kind_ofType, Operand.kind_ofType, callKind_wordType, DataModel.callKind,
      if_pos within]
  · rw [toSupportedInteger_of_not_within lib within]
    refine ⟨?_, ?_⟩
    · rw [Operand.integer_ofType]
      exact sets.mpzClass_eq value.val
    · rw [Operand.kind_ofType, DataModel.callKind, if_neg within]
      rfl

private theorem cast_equivalent (inner outer : IntegerType)
    (sameSign : inner.isSigned = outer.isSigned)
    (widthLe : model.width inner ≤ model.width outer)
    (small : model.width outer ≤ model.width .long) (value : model.Value inner) :
    (Operand.ofType outer (model.staticCast outer value.val)).Equivalent (.ofType inner value) := by
  refine ⟨?_, ?_⟩
  · rw [Operand.integer_ofType, Operand.integer_ofType,
      model.staticCast_val inner outer sameSign widthLe]
  · rw [Operand.kind_ofType, Operand.kind_ofType, callKind_of_width_le small,
      callKind_of_width_le (widthLe.trans small), sameSign]

/-- One step hands on, to a call or to another overload, the integer it was
given. -/
def Delivered (operand : Operand model) : Call model ⊕ (Overload × Operand model) → Prop
  | .inl call => call.Delivers operand
  | .inr next => next.2.Equivalent operand

private theorem call_si_delivers (value : model.Value .long) :
    (Call.si (model.staticCast model.slong value.val)).Delivers (.long value) :=
  ⟨model.staticCast_slong_val value, (callKind_of_width_le le_rfl).symm⟩

private theorem call_ui_delivers (value : model.Value .unsignedLong) :
    (Call.ui (model.staticCast model.ulong value.val)).Delivers (.unsignedLong value) := by
  have kind : model.callKind .unsignedLong = .ui := callKind_of_width_le le_rfl
  exact ⟨model.staticCast_ulong_val value, kind.symm⟩

private theorem supportedBody_delivered (sets : lib.SetsIntegers) (overload : Overload)
    (operand : Operand model) : Delivered operand (supportedBody lib overload operand) := by
  cases operand with
  | short rhs => exact toSupportedInteger_equivalent lib sets .short rhs
  | unsignedShort rhs => exact toSupportedInteger_equivalent lib sets .unsignedShort rhs
  | int rhs => exact toSupportedInteger_equivalent lib sets .int rhs
  | unsignedInt rhs => exact toSupportedInteger_equivalent lib sets .unsignedInt rhs
  | long rhs => exact call_si_delivers rhs
  | unsignedLong rhs => exact call_ui_delivers rhs
  | longLong rhs => exact toSupportedInteger_equivalent lib sets .longLong rhs
  | unsignedLongLong rhs => exact toSupportedInteger_equivalent lib sets .unsignedLongLong rhs
  | mpz rhs => exact ⟨rfl, rfl⟩

/-- The casts named in the source, from a small type to a `long` type, go on with
the same integer. -/
private theorem smallCast_delivered (overload : Overload) :
    (∀ x : model.Value .short, Delivered (.short x)
      (.inr (overload, .long (model.staticCast .long x.val)))) ∧
    (∀ x : model.Value .unsignedShort, Delivered (.unsignedShort x)
      (.inr (overload, .unsignedLong (model.staticCast .unsignedLong x.val)))) ∧
    (∀ x : model.Value .int, Delivered (.int x)
      (.inr (overload, .long (model.staticCast .long x.val)))) ∧
    (∀ x : model.Value .unsignedInt, Delivered (.unsignedInt x)
      (.inr (overload, .unsignedLong (model.staticCast .unsignedLong x.val)))) := by
  have shortLe : model.shortWidth ≤ model.longWidth := model.short_le_int.trans model.int_le_long
  exact ⟨fun x => cast_equivalent .short .long rfl shortLe le_rfl x,
    fun x => cast_equivalent .unsignedShort .unsignedLong rfl shortLe le_rfl x,
    fun x => cast_equivalent .int .long rfl model.int_le_long le_rfl x,
    fun x => cast_equivalent .unsignedInt .unsignedLong rfl model.int_le_long le_rfl x⟩

theorem body_delivered (sets : lib.SetsIntegers) (overload : Overload) (operand : Operand model) :
    Delivered operand (body lib overload operand) := by
  obtain ⟨short, unsignedShort, int, unsignedInt⟩ := @smallCast_delivered model overload
  cases overload with
  | arbConstructor =>
      cases operand with
      | short x => exact short x
      | unsignedShort x => exact unsignedShort x
      | int x => exact int x
      | unsignedInt x => exact unsignedInt x
      | _ => exact ⟨rfl, rfl⟩
  | arbAssign =>
      cases operand with
      | short rhs => exact short rhs
      | unsignedShort rhs => exact unsignedShort rhs
      | int rhs => exact int rhs
      | unsignedInt rhs => exact unsignedInt rhs
      | long rhs => exact call_si_delivers rhs
      | unsignedLong rhs => exact call_ui_delivers rhs
      | longLong rhs => exact toSupportedInteger_equivalent lib sets .longLong rhs
      | unsignedLongLong rhs => exact toSupportedInteger_equivalent lib sets .unsignedLongLong rhs
      | mpz rhs => exact ⟨rfl, rfl⟩
  | arfConstructor =>
      cases operand with
      | short value => exact short value
      | unsignedShort value => exact unsignedShort value
      | int value => exact int value
      | unsignedInt value => exact unsignedInt value
      | long value => exact call_si_delivers value
      | unsignedLong value => exact call_ui_delivers value
      | _ => exact ⟨rfl, rfl⟩
  | arfAssign => exact supportedBody_delivered lib sets .arfAssign operand
  | arfLess => exact supportedBody_delivered lib sets .arfLess operand
  | arfGreater => exact supportedBody_delivered lib sets .arfGreater operand
  | arfEqual => exact supportedBody_delivered lib sets .arfEqual operand

/-- Every chain that ends hands on the integer it started with. -/
theorem delivers_of_mem_run (sets : lib.SetsIntegers) {overload : Overload}
    {operand : Operand model} {call : Call model} (member : call ∈ run lib overload operand) :
    call.Delivers operand := by
  have answered : ∀ (state : Overload × Operand model) (answer : Call model),
      state.2.Equivalent operand → body lib state.1 state.2 = .inl answer →
        answer.Delivers operand := by
    intro state answer equivalent answers
    have delivered := body_delivered lib sets state.1 state.2
    rw [answers] at delivered
    exact ⟨delivered.1.trans equivalent.1, delivered.2.trans equivalent.2⟩
  have delegated : ∀ (state next : Overload × Operand model),
      state.2.Equivalent operand → body lib state.1 state.2 = .inr next →
        next.2.Equivalent operand := by
    intro state next equivalent delegates
    have delivered := body_delivered lib sets state.1 state.2
    rw [delegates] at delivered
    exact ⟨delivered.1.trans equivalent.1, delivered.2.trans equivalent.2⟩
  exact Delegation.property_of_mem_corec answered delegated ⟨rfl, rfl⟩ member

/-! ### Which chains end -/

/-- The overloads reached from here never consult `to_supported_integer`. -/
def Overload.Direct : Overload → Operand model → Prop
  | .arbConstructor, operand | .arbAssign, operand | .arfConstructor, operand =>
      match operand with
      | .longLong _ | .unsignedLongLong _ => False
      | _ => True
  | .arfAssign, operand | .arfLess, operand | .arfGreater, operand | .arfEqual, operand =>
      match operand with
      | .long _ | .unsignedLong _ | .mpz _ => True
      | _ => False

/-- FLINT's `slong` is `long`, or the chain never asks for an `slong`. -/
def Overload.Settles (overload : Overload) (operand : Operand model) : Prop :=
  model.flintLong = .long ∨ overload.Direct operand

instance (overload : Overload) (operand : Operand model) : Decidable (overload.Direct operand) :=
  match overload, operand with
  | .arbConstructor, operand | .arbAssign, operand | .arfConstructor, operand =>
      match operand with
      | .longLong _ | .unsignedLongLong _ => isFalse id
      | .short _ | .unsignedShort _ | .int _ | .unsignedInt _ | .long _ | .unsignedLong _
      | .mpz _ => isTrue trivial
  | .arfAssign, operand | .arfLess, operand | .arfGreater, operand | .arfEqual, operand =>
      match operand with
      | .long _ | .unsignedLong _ | .mpz _ => isTrue trivial
      | .short _ | .unsignedShort _ | .int _ | .unsignedInt _ | .longLong _
      | .unsignedLongLong _ => isFalse id

instance (overload : Overload) (operand : Operand model) : Decidable (overload.Settles operand) :=
  inferInstanceAs (Decidable (_ ∨ _))

/-- Delegations until a word type or an `mpz_class` is reached. -/
private def distance : Operand model → ℕ
  | .long _ | .unsignedLong _ | .mpz _ => 0
  | _ => 1

private def Overload.entry : Overload → ℕ
  | .arbConstructor | .arfConstructor => 1
  | _ => 0

private def rank (state : Overload × Operand model) : ℕ :=
  distance state.2 + state.1.entry

private theorem distance_toSupportedInteger (native : model.flintLong = .long)
    (type : IntegerType) (value : model.Value type) :
    distance (toSupportedInteger lib type value) = 0 := by
  have wordType : model.wordType type = .long ∨ model.wordType type = .unsignedLong := by
    unfold DataModel.wordType DataModel.slong DataModel.ulong
    cases type.isSigned <;> simp [native]
  have distance_ofType : ∀ word (value : model.Value word), word = .long ∨ word = .unsignedLong →
      distance (Operand.ofType word value) = 0 := by
    rintro word value (rfl | rfl) <;> rfl
  by_cases within : (model.format type).Within (model.format (model.wordType type))
  · rw [toSupportedInteger_of_within lib within]
    exact distance_ofType _ _ wordType
  · rw [toSupportedInteger_of_not_within lib within]
    rfl

/-- Where `slong` is `long long`, `to_supported_integer` returns a `long long`
type whatever it is given. -/
private theorem not_direct_toSupportedInteger (windows : model.flintLong = .longLong)
    (overload : Overload) (type : IntegerType) (value : model.Value type) :
    ¬ overload.Direct (toSupportedInteger lib type value) := by
  have wordType : model.wordType type = .longLong ∨ model.wordType type = .unsignedLongLong := by
    unfold DataModel.wordType DataModel.slong DataModel.ulong
    cases type.isSigned <;> simp [windows]
  have not_direct_ofType : ∀ word (value : model.Value word),
      word = .longLong ∨ word = .unsignedLongLong →
        ¬ overload.Direct (Operand.ofType word value) := by
    rintro word value (rfl | rfl) direct <;> cases overload <;> exact direct
  have widest : model.width type ≤ model.longLongWidth := by
    have := model.short_le_int
    have := model.int_le_long
    have := model.long_le_longLong
    cases type <;> simp only [DataModel.width] <;> omega
  have within : (model.format type).Within (model.format (model.wordType type)) := by
    apply model.within_of_width_le (isSigned_wordType type).symm
    rcases wordType with wordEq | wordEq <;> rw [wordEq] <;> exact widest
  rw [toSupportedInteger_of_within lib within]
  exact not_direct_ofType _ _ wordType

/-- An overload answers, or gets closer to a settling one. -/
private def Progresses (state : Overload × Operand model) : Prop :=
  (∃ answer, body lib state.1 state.2 = .inl answer) ∨
    ∃ next, body lib state.1 state.2 = .inr next ∧ next.1.Settles next.2 ∧ rank next < rank state

private theorem progresses_of_native (native : model.flintLong = .long)
    (overload : Overload) (operand : Operand model) : Progresses lib (overload, operand) := by
  have settles : ∀ next : Overload × Operand model, next.1.Settles next.2 := fun _ => .inl native
  have near : ∀ type (value : model.Value type) entry,
      distance (toSupportedInteger lib type value) + entry < 1 + entry := by
    intro type value entry
    rw [distance_toSupportedInteger lib native]
    omega
  have supported : ∀ overload operand, body lib overload = supportedBody lib overload →
      Progresses lib (overload, operand) := by
    intro overload operand bodyEq
    unfold Progresses
    simp only [bodyEq]
    cases operand with
    | long _ | unsignedLong _ | mpz _ => exact .inl ⟨_, rfl⟩
    | _ => exact .inr ⟨_, rfl, settles _, near _ _ _⟩
  cases overload with
  | arbConstructor =>
      cases operand with
      | mpz _ => exact .inl ⟨_, rfl⟩
      | long _ | unsignedLong _ => exact .inr ⟨_, rfl, settles _, Nat.zero_lt_one⟩
      | _ => exact .inr ⟨_, rfl, settles _, Nat.one_lt_two⟩
  | arbAssign =>
      cases operand with
      | long _ | unsignedLong _ | mpz _ => exact .inl ⟨_, rfl⟩
      | longLong _ | unsignedLongLong _ => exact .inr ⟨_, rfl, settles _, near _ _ _⟩
      | _ => exact .inr ⟨_, rfl, settles _, Nat.zero_lt_one⟩
  | arfConstructor =>
      cases operand with
      | long _ | unsignedLong _ | mpz _ => exact .inl ⟨_, rfl⟩
      | _ => exact .inr ⟨_, rfl, settles _, Nat.one_lt_two⟩
  | _ => exact supported _ operand rfl

private theorem progresses_of_direct (overload : Overload) (operand : Operand model)
    (direct : overload.Direct operand) : Progresses lib (overload, operand) := by
  cases overload with
  | arbConstructor =>
      cases operand with
      | mpz _ => exact .inl ⟨_, rfl⟩
      | long _ | unsignedLong _ => exact .inr ⟨_, rfl, .inr trivial, Nat.zero_lt_one⟩
      | longLong _ | unsignedLongLong _ => exact direct.elim
      | _ => exact .inr ⟨_, rfl, .inr trivial, Nat.one_lt_two⟩
  | arbAssign =>
      cases operand with
      | long _ | unsignedLong _ | mpz _ => exact .inl ⟨_, rfl⟩
      | longLong _ | unsignedLongLong _ => exact direct.elim
      | _ => exact .inr ⟨_, rfl, .inr trivial, Nat.zero_lt_one⟩
  | arfConstructor =>
      cases operand with
      | long _ | unsignedLong _ | mpz _ => exact .inl ⟨_, rfl⟩
      | longLong _ | unsignedLongLong _ => exact direct.elim
      | _ => exact .inr ⟨_, rfl, .inr trivial, Nat.one_lt_two⟩
  | _ =>
      cases operand with
      | long _ | unsignedLong _ | mpz _ => exact .inl ⟨_, rfl⟩
      | _ => exact direct.elim

/-- An overload that does not settle delegates to one that does not either. -/
private theorem not_settles_preserved (state : Overload × Operand model)
    (notSettles : ¬ state.1.Settles state.2) :
    ∃ next, body lib state.1 state.2 = .inr next ∧ ¬ next.1.Settles next.2 := by
  obtain ⟨overload, operand⟩ := state
  obtain ⟨notNative, notDirect⟩ := not_or.mp notSettles
  have windows : model.flintLong = .longLong := by
    cases choice : model.flintLong with
    | long => exact (notNative choice).elim
    | longLong => rfl
  have loops : ∀ overload type (value : model.Value type),
      ¬ Overload.Settles overload (toSupportedInteger lib type value) := fun overload type value =>
    not_or.mpr ⟨notNative, not_direct_toSupportedInteger lib windows overload type value⟩
  have stays : ∀ next : Overload × Operand model, ¬ next.1.Direct next.2 →
      ¬ next.1.Settles next.2 := fun next nextNotDirect => not_or.mpr ⟨notNative, nextNotDirect⟩
  cases overload with
  | arbConstructor =>
      cases operand with
      | longLong _ | unsignedLongLong _ => exact ⟨_, rfl, stays _ id⟩
      | _ => exact (notDirect trivial).elim
  | arbAssign =>
      cases operand with
      | longLong _ | unsignedLongLong _ => exact ⟨_, rfl, loops _ _ _⟩
      | _ => exact (notDirect trivial).elim
  | arfConstructor =>
      cases operand with
      | longLong _ | unsignedLongLong _ => exact ⟨_, rfl, stays _ id⟩
      | _ => exact (notDirect trivial).elim
  | _ =>
      cases operand with
      | long _ | unsignedLong _ | mpz _ => exact (notDirect trivial).elim
      | _ => exact ⟨_, rfl, loops _ _ _⟩

/-- A chain ends exactly if it settles. -/
theorem exists_mem_run_iff (overload : Overload) (operand : Operand model) :
    (∃ call, call ∈ run lib overload operand) ↔ overload.Settles operand := by
  constructor
  · rintro ⟨call, member⟩
    by_contra notSettles
    have preserved := not_settles_preserved lib
    exact Delegation.notMem_corec_of_invariant preserved notSettles call member
  · intro settles
    have progresses : ∀ state : Overload × Operand model, state.1.Settles state.2 →
        Progresses lib state := by
      rintro ⟨overload, operand⟩ (native | direct)
      · exact progresses_of_native lib native overload operand
      · exact progresses_of_direct lib overload operand direct
    exact Delegation.exists_mem_corec_of_rank rank progresses settles

/-- A result that depends only on the integer handed to the library is returned
exactly if the chain settles, and is the result for the integer that was given. -/
theorem mem_map_run_iff {Result : Type*} (sets : lib.SetsIntegers) (finish : Call model → Result)
    (result : ℤ → Result) (finish_eq : ∀ call, finish call = result call.integer)
    (overload : Overload) (operand : Operand model) (value : Result) :
    value ∈ (run lib overload operand).map finish ↔
      overload.Settles operand ∧ value = result operand.integer := by
  rw [Delegation.mem_map_iff, ← exists_mem_run_iff lib]
  constructor
  · rintro ⟨call, member, rfl⟩
    rw [finish_eq, (delivers_of_mem_run lib sets member).1]
    exact ⟨⟨call, member⟩, rfl⟩
  · rintro ⟨⟨call, member⟩, rfl⟩
    refine ⟨call, member, ?_⟩
    rw [finish_eq, (delivers_of_mem_run lib sets member).1]

end Arbxx
