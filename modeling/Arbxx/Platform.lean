import Arbxx.TwosComplement

/-!
# Integer types of a platform

The built-in integer types the classes accept, their widths on a platform, and
the overload argument that each call passes on.  FLINT's `slong` and `ulong`
are either the `long` or the `long long` types, depending on the platform.
-/

namespace Arbxx

open TwosComplement

/-- The built-in integer types `Arf` and `Arb` accept. -/
inductive IntegerType
  | short
  | unsignedShort
  | int
  | unsignedInt
  | long
  | unsignedLong
  | longLong
  | unsignedLongLong
  deriving DecidableEq

def IntegerType.isSigned : IntegerType → Bool
  | .short | .int | .long | .longLong => true
  | .unsignedShort | .unsignedInt | .unsignedLong | .unsignedLongLong => false

/-- The built-in types behind FLINT's `slong` and `ulong`. -/
inductive FlintLong
  | long
  | longLong
  deriving DecidableEq

/-- Widths of the integer types of a platform, and FLINT's choice among them. -/
structure DataModel where
  shortWidth : ℕ
  intWidth : ℕ
  longWidth : ℕ
  longLongWidth : ℕ
  flintLong : FlintLong
  shortWidth_pos : 0 < shortWidth
  short_le_int : shortWidth ≤ intWidth
  int_le_long : intWidth ≤ longWidth
  long_le_longLong : longWidth ≤ longLongWidth

namespace DataModel

variable (model : DataModel)

def width : IntegerType → ℕ
  | .short | .unsignedShort => model.shortWidth
  | .int | .unsignedInt => model.intWidth
  | .long | .unsignedLong => model.longWidth
  | .longLong | .unsignedLongLong => model.longLongWidth

theorem width_pos (type : IntegerType) : 0 < model.width type := by
  have := model.shortWidth_pos
  have := model.short_le_int
  have := model.int_le_long
  have := model.long_le_longLong
  cases type <;> simp only [width] <;> omega

def format (type : IntegerType) : Format where
  width := model.width type
  signed := type.isSigned
  width_pos := model.width_pos type

abbrev Value (type : IntegerType) : Type :=
  (model.format type).Value

/-- FLINT's `slong`. -/
def slong : IntegerType :=
  match model.flintLong with
  | .long => .long
  | .longLong => .longLong

def ulong : IntegerType :=
  match model.flintLong with
  | .long => .unsignedLong
  | .longLong => .unsignedLongLong

/-- `static_cast<T>(value)`, and the implicit conversion to a parameter of type
`T`. -/
def staticCast (type : IntegerType) (value : ℤ) : model.Value type :=
  (model.format type).cast value

/-- The `long` types of either signedness hold every value of the smaller types
of the same signedness. -/
theorem within_of_width_le {inner outer : IntegerType} (sameSign : inner.isSigned = outer.isSigned)
    (widthLe : model.width inner ≤ model.width outer) :
    (model.format inner).Within (model.format outer) :=
  (Format.within_iff_width_le sameSign).mpr widthLe

theorem staticCast_val (inner outer : IntegerType) (sameSign : inner.isSigned = outer.isSigned)
    (widthLe : model.width inner ≤ model.width outer) (value : model.Value inner) :
    (model.staticCast outer value.val).val = value.val :=
  Format.cast_val_of_inRange (value.property.of_within (model.within_of_width_le sameSign widthLe))

@[simp]
theorem slong_isSigned : model.slong.isSigned = true := by
  unfold slong
  cases model.flintLong <;> rfl

@[simp]
theorem ulong_isSigned : model.ulong.isSigned = false := by
  unfold ulong
  cases model.flintLong <;> rfl

theorem width_long_le_slong : model.width .long ≤ model.width model.slong := by
  unfold slong
  cases model.flintLong with
  | long => exact le_rfl
  | longLong => exact model.long_le_longLong

theorem width_unsignedLong_le_ulong :
    model.width .unsignedLong ≤ model.width model.ulong := by
  unfold ulong
  cases model.flintLong with
  | long => exact le_rfl
  | longLong => exact model.long_le_longLong

@[simp]
theorem staticCast_slong_val (value : model.Value .long) :
    (model.staticCast model.slong value.val).val = value.val :=
  model.staticCast_val .long model.slong model.slong_isSigned.symm model.width_long_le_slong value

@[simp]
theorem staticCast_ulong_val (value : model.Value .unsignedLong) :
    (model.staticCast model.ulong value.val).val = value.val :=
  model.staticCast_val .unsignedLong model.ulong model.ulong_isSigned.symm
    model.width_unsignedLong_le_ulong value

end DataModel

/-- An argument of an overloaded function: a value of a built-in integer type or
an `mpz_class`. -/
inductive Operand (model : DataModel)
  | short (value : model.Value .short)
  | unsignedShort (value : model.Value .unsignedShort)
  | int (value : model.Value .int)
  | unsignedInt (value : model.Value .unsignedInt)
  | long (value : model.Value .long)
  | unsignedLong (value : model.Value .unsignedLong)
  | longLong (value : model.Value .longLong)
  | unsignedLongLong (value : model.Value .unsignedLongLong)
  | mpz (value : ℤ)

namespace Operand

variable {model : DataModel}

/-- The integer an argument carries. -/
def integer : Operand model → ℤ
  | .short value => value.val
  | .unsignedShort value => value.val
  | .int value => value.val
  | .unsignedInt value => value.val
  | .long value => value.val
  | .unsignedLong value => value.val
  | .longLong value => value.val
  | .unsignedLongLong value => value.val
  | .mpz value => value

def ofType : (type : IntegerType) → model.Value type → Operand model
  | .short, value => .short value
  | .unsignedShort, value => .unsignedShort value
  | .int, value => .int value
  | .unsignedInt, value => .unsignedInt value
  | .long, value => .long value
  | .unsignedLong, value => .unsignedLong value
  | .longLong, value => .longLong value
  | .unsignedLongLong, value => .unsignedLongLong value

@[simp]
theorem integer_ofType (type : IntegerType) (value : model.Value type) :
    (ofType type value).integer = value.val := by
  cases type <;> rfl

end Operand

end Arbxx
