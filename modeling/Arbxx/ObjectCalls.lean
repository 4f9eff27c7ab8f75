import Arbxx.ArfScaling
import Arbxx.Doubles
import Arbxx.ExactConversion
import Arbxx.IntegerParts
import Arbxx.ObjectLibrary
import Arbxx.OwnedPrograms
import Arbxx.SpecialBalls

/-!
# Calls on raw structures

The calls of Arb, FLINT and GMP that the methods of `Arf` and `Arb` make on the raw
structures of numbers, by the kinds of the structures they write and read, and what
they compute.
-/

namespace Arbxx

open OwnedHeap ThreeValued

/-- The objects that methods work with. -/
inductive Kind
  | arf
  | arb
  | fmpz
  | mpz
  | mpq
  | double
  | long
  | truth
  deriving DecidableEq

/-- What an object of a kind stands for.  A `long` whose computation overflows has no
value, and neither has a truth value that is not decided, or a `double` before it is
computed. -/
abbrev Kind.Value (model : DataModel) : Kind → Type
  | .arf => Arf
  | .arb => Arb
  | .fmpz | .mpz => ℤ
  | .mpq => Mpq
  | .double => Option Double
  | .long => Option (model.Value .long)
  | .truth => Option Bool

/-! ### The calls -/

/-- Calls that only write; integers and rational numbers come with a value. -/
inductive ConstantCall (model : DataModel) : Kind → Type
  | mpzClass (z : ℤ) : ConstantCall model .mpz
  | mpqClass (q : Mpq) : ConstantCall model .mpq
  | fmpzSetSi (value : model.Value model.slong) : ConstantCall model .fmpz
  | arfSetSi (value : model.Value model.slong) : ConstantCall model .arf
  | arfSetUi (value : model.Value model.ulong) : ConstantCall model .arf
  | arfSetD (value : Double) : ConstantCall model .arf
  | arbSetSi (value : model.Value model.slong) : ConstantCall model .arb
  | arbSetUi (value : model.Value model.ulong) : ConstantCall model .arb
  | arbPosInf : ConstantCall model .arb
  | arbNegInf : ConstantCall model .arb
  | arbZeroPmOne : ConstantCall model .arb
  | arbZeroPmInf : ConstantCall model .arb
  | arbIndeterminate : ConstantCall model .arb
  | arbUnitInterval : ConstantCall model .arb

/-- Calls that write what they compute from one object.  A call that takes a read-only
view of an `mpz_class` or an `mpq_class` reads that. -/
inductive UnaryCall (model : DataModel) : Kind → Kind → Type
  | mpzSet : UnaryCall model .mpz .mpz
  | fmpzSetStr (data : List Char) (base : model.Value .int) : UnaryCall model .fmpz .fmpz
  | fmpzSetMpz : UnaryCall model .fmpz .mpz
  | fmpzGetMpz : UnaryCall model .mpz .fmpz
  | fmpzGetSiMinusOne : UnaryCall model .long .fmpz
  | arfSet : UnaryCall model .arf .arf
  | arfNeg : UnaryCall model .arf .arf
  | arfAbs : UnaryCall model .arf .arf
  | arfFloor : UnaryCall model .arf .arf
  | arfCeil : UnaryCall model .arf .arf
  | arfMul2expSi (e : model.Value model.slong) : UnaryCall model .arf .arf
  | arfSetFmpz : UnaryCall model .arf .mpz
  | arfGetFmpz (mode : Round) : UnaryCall model .fmpz .arf
  | arfGetD (mode : Round) : UnaryCall model .double .arf
  | arfCompareSi (comparison : Comparison) (rhs : model.Value model.slong) :
      UnaryCall model .truth .arf
  | arfCompareUi (comparison : Comparison) (rhs : model.Value model.ulong) :
      UnaryCall model .truth .arf
  | arfSetMidref : UnaryCall model .arf .arb
  | arfGetDMidref (mode : Round) : UnaryCall model .double .arb
  | arbSet : UnaryCall model .arb .arb
  | arbNeg : UnaryCall model .arb .arb
  | arbSetArf : UnaryCall model .arb .arf
  | arbSetFmpz : UnaryCall model .arb .mpz
  | arbSetFmpq (precision : ℤ) : UnaryCall model .arb .mpq
  | arbSetStr (value : List Char) (precision : ℤ) : UnaryCall model .arb .arb
  | arbIsExact : UnaryCall model .truth .arb
  | arbIsFinite : UnaryCall model .truth .arb

/-- Calls that write what they compute from two objects; comparisons only read. -/
inductive BinaryCall (model : DataModel) : Kind → Kind → Kind → Type
  | arfSetFmpz2exp : BinaryCall model .arf .fmpz .fmpz
  | arfCompare (comparison : Comparison) : BinaryCall model .truth .arf .arf
  | arbSetIntervalArf (precision : ℤ) : BinaryCall model .arb .arf .arf
  | arbCompare (comparison : Comparison) : BinaryCall model .truth .arb .arb
  | arbEqual : BinaryCall model .truth .arb .arb

/-- Calls that write to two objects; the precision of the bounds is the accuracy of
the ball. -/
inductive SplitCall : Kind → Kind → Kind → Type
  | arfGetFmpz2exp : SplitCall .fmpz .fmpz .arf
  | arfFrexp : SplitCall .arf .fmpz .arf
  | arbGetIntervalArf : SplitCall .arf .arf .arb

def calls (model : DataModel) : Signature Kind where
  Constant := ConstantCall model
  Unary := UnaryCall model
  Binary := BinaryCall model
  Split := SplitCall

section Meanings

variable {model : DataModel} (lib : CLibrary model) (numbers : NumberLibrary model)
  (special : SpecialLibrary) (doubles : DoubleLibrary)

def ConstantCall.value {kind : Kind} : ConstantCall model kind → kind.Value model
  | .mpzClass z => z
  | .mpqClass q => q
  | .fmpzSetSi value => value.val
  | .arfSetSi value => lib.arfSetSi value
  | .arfSetUi value => lib.arfSetUi value
  | .arfSetD value => doubles.arfSetD value
  | .arbSetSi value => lib.arbSetSi value
  | .arbSetUi value => lib.arbSetUi value
  | .arbPosInf => special.arbPosInf
  | .arbNegInf => special.arbNegInf
  | .arbZeroPmOne => special.arbZeroPmOne
  | .arbZeroPmInf => special.arbZeroPmInf
  | .arbIndeterminate => special.arbIndeterminate
  | .arbUnitInterval => special.arbUnitInterval

def UnaryCall.value {kind source : Kind} :
    UnaryCall model kind source → source.Value model → kind.Value model
  | .mpzSet, z => z
  | .fmpzSetStr data base, z => (numbers.fmpzSetStr z data base).2
  | .fmpzSetMpz, z => z
  | .fmpzGetMpz, z => z
  | .fmpzGetSiMinusOne, e =>
      ((model.format model.slong).checked ((numbers.fmpzGetSi e).val - 1)).map
        fun ret => model.staticCast .long ret.val
  | .arfSet, a => numbers.arfSet a
  | .arfNeg, a => numbers.arfNeg a
  | .arfAbs, a => special.arfAbs a
  | .arfFloor, a => numbers.arfFloor a
  | .arfCeil, a => numbers.arfCeil a
  | .arfMul2expSi e, a => numbers.arfMul2expSi a e
  | .arfSetFmpz, z => lib.arfSetFmpz z
  | .arfGetFmpz mode, a => numbers.arfGetFmpz a mode
  | .arfGetD mode, a => some (doubles.arfGetD a mode)
  | .arfCompareSi comparison rhs, a => some (Arf.compareCall lib comparison a (.si rhs))
  | .arfCompareUi comparison rhs, a => some (Arf.compareCall lib comparison a (.ui rhs))
  | .arfSetMidref, x => numbers.arfSet x.mid
  | .arfGetDMidref mode, x => some (doubles.arfGetD x.mid mode)
  | .arbSet, x => x
  | .arbNeg, x => lib.arbNeg x
  | .arbSetArf, a => lib.arbSetArf a
  | .arbSetFmpz, z => lib.arbSetFmpz z
  | .arbSetFmpq precision, q => lib.arbSetFmpq q precision
  | .arbSetStr value precision, x => (numbers.arbSetStr x value precision).2
  | .arbIsExact, x => some (lib.arbIsExact x)
  | .arbIsFinite, x => some (lib.arbIsFinite x)

def BinaryCall.value {kind left right : Kind} :
    BinaryCall model kind left right → left.Value model → right.Value model → kind.Value model
  | .arfSetFmpz2exp, m, e => lib.arfSetFmpz2exp m e
  | .arfCompare comparison, a, b => some (Arf.operator lib comparison a b)
  | .arbSetIntervalArf precision, a, b => lib.arbSetIntervalArf a b precision
  | .arbCompare comparison, x, y => Arb.operator lib comparison x y
  | .arbEqual, x, y => some (lib.arbEqual x y)

def SplitCall.value {kind kind' source : Kind} :
    SplitCall kind kind' source → source.Value model → kind.Value model × kind'.Value model
  | .arfGetFmpz2exp, a => numbers.arfGetFmpz2exp a
  | .arfFrexp, a => numbers.arfFrexp a
  | .arbGetIntervalArf, x => lib.arbGetIntervalArf x (lib.arbRelAccuracyBits x)

/-- Initialized objects are zero, and the scalars have no value yet. -/
def callMeaning : Meaning (calls model) (Kind.Value model) where
  zero
    | .arf => .finite 0
    | .arb => Arb.exact (.finite 0)
    | .fmpz | .mpz => (0 : ℤ)
    | .mpq => Mpq.ofInt 0
    | .double | .long | .truth => none
  constant := ConstantCall.value lib special doubles
  unary := UnaryCall.value lib numbers special doubles
  binary := BinaryCall.value lib
  split := SplitCall.value lib numbers

end Meanings

/-! ### A reference implementation -/

namespace Kind

/-- The mantissa and the exponent of a finite `double`, and a code for the others. -/
def encodeDouble : Double → List ℤ
  | .finite value _ _ => Class.encodeArf (.finite value)
  | .negZero => [0]
  | .posInf => [1]
  | .negInf => [2]
  | .nan => [3]

def decodeDouble : List ℤ → Option Double
  | [mantissa, exponent] =>
      match Class.decodeArf mantissa exponent with
      | .finite value => some (.rounding value)
      | _ => none
  | [0] => some .negZero
  | [1] => some .posInf
  | [2] => some .negInf
  | [3] => some .nan
  | _ => none

theorem decodeDouble_encodeDouble (value : Double) :
    decodeDouble (encodeDouble value) = some value := by
  cases value with
  | finite value onGrid bounded =>
      simp only [encodeDouble, Class.encodeArf, decodeDouble, Class.decodeArf_fields,
        DoubleLibrary.rounding_of_mem onGrid bounded]
  | _ => rfl

/-- Values as lists of integers. -/
def encoding (model : DataModel) : ∀ kind : Kind, Encoding (kind.Value model)
  | .arf => Class.encoding .arf
  | .arb => Class.encoding .arb
  | .fmpz | .mpz => {
      encode := fun z => [z]
      decode := fun numbers => numbers.headD 0
      decode_encode := fun _ => rfl }
  | .mpq => {
      encode := fun q => [q.numerator, q.denominator]
      decode := fun numbers => match numbers with
        | [numerator, denominator] =>
            if nonzero : denominator ≠ 0 then ⟨numerator, denominator, nonzero⟩ else Mpq.ofInt 0
        | _ => Mpq.ofInt 0
      decode_encode := fun q => dif_pos q.denominator_ne_zero }
  | .double => {
      encode := fun value => (value.map encodeDouble).getD []
      decode := decodeDouble
      decode_encode := by
        intro value
        cases value with
        | none => rfl
        | some value => exact decodeDouble_encodeDouble value }
  | .long => {
      encode := fun value => value.toList.map (·.val)
      decode := fun numbers => numbers.head?.map (model.staticCast .long)
      decode_encode := by
        intro value
        cases value with
        | none => rfl
        | some value =>
            change some (model.staticCast .long value.val) = some value
            rw [Option.some.injEq]
            exact Subtype.ext (TwosComplement.Format.cast_val_of_inRange value.property) }
  | .truth => {
      encode := fun value => value.toList.map fun answer => if answer then 1 else 0
      decode := fun numbers => numbers.head?.map (· = 1)
      decode_encode := by
        intro value
        rcases value with _ | _ | _ <;> rfl }

end Kind

section Reference

open Word

variable {model : DataModel} (lib : CLibrary model) (numbers : NumberLibrary model)
  (special : SpecialLibrary) (doubles : DoubleLibrary)

/-- The value that a structure encodes. -/
def decodeWords (kind : Kind) (heap : Heap ℕ ℤ) (words : List Word) : kind.Value model :=
  (kind.encoding model).decode (words.map (read heap))

/-- The blocks of both targets are released, then those of the values allocated. -/
def assignPair {kind kind' : Kind} (heap : Heap ℕ ℤ) (first second : List Word)
    (values : kind.Value model × kind'.Value model) :
    Option (Heap ℕ ℤ × List Word × List Word) :=
  (heap.release (blocksAll first + blocksAll second)).map fun released =>
    let (heap', words) := storeAll released ((kind.encoding model).encode values.1)
    let (heap'', words') := storeAll heap' ((kind'.encoding model).encode values.2)
    (heap'', words, words')

def referenceCalls : Implementation (calls model) (Kind.Value model) ℕ ℤ where
  Raw _ := List Word
  blocks _ := blocksAll
  value := decodeWords
  init kind :=
    ((kind.encoding model).encode ((callMeaning lib numbers special doubles).zero kind)).map
      Word.inline
  constant f heap target :=
    ObjectLibrary.assign (Kind.encoding model _) heap target
      (ConstantCall.value lib special doubles f)
  unary f heap target source :=
    ObjectLibrary.assign (Kind.encoding model _) heap target
      (UnaryCall.value lib numbers special doubles f (decodeWords _ heap source))
  binary f heap target left right :=
    ObjectLibrary.assign (Kind.encoding model _) heap target
      (BinaryCall.value lib f (decodeWords _ heap left) (decodeWords _ heap right))
  split f heap first second source :=
    assignPair heap first second (SplitCall.value lib numbers f (decodeWords _ heap source))

variable {lib numbers special doubles}

private theorem writes_assign_kind {kind : Kind} {heap : Heap ℕ ℤ} {target : List Word}
    (owned : blocksAll target ≤ heap.live.val) (value : kind.Value model) :
    @Implementation.Writes _ _ _ _ _ (referenceCalls lib numbers special doubles) kind heap target
      (ObjectLibrary.assign (kind.encoding model) heap target value) value :=
  ObjectLibrary.writes_assign (kind.encoding model) value id (fun _ => value) owned value

theorem decodeWords_storeAll {kind : Kind} (heap : Heap ℕ ℤ) (value : kind.Value model) :
    decodeWords kind (storeAll heap ((kind.encoding model).encode value)).1
      (storeAll heap ((kind.encoding model).encode value)).2 = value := by
  rw [decodeWords, read_storeAll, (kind.encoding model).decode_encode]

theorem decodeWords_local {kind : Kind} {heap heap' : Heap ℕ ℤ} {words : List Word}
    (same : ∀ block ∈ blocksAll words, heap'.content block = heap.content block) :
    (decodeWords kind heap' words : kind.Value model) = decodeWords kind heap words := by
  rw [decodeWords, decodeWords, readAll_local same]

private theorem writes_assignPair {kind kind' : Kind} {heap : Heap ℕ ℤ} {first second : List Word}
    (owned : blocksAll first + blocksAll second ≤ heap.live.val)
    (values : kind.Value model × kind'.Value model) :
    ∃ heap' raw raw', assignPair heap first second values = some (heap', raw, raw') ∧
      heap.Replaces (blocksAll first + blocksAll second) heap' (blocksAll raw + blocksAll raw') ∧
      decodeWords kind heap' raw = values.1 ∧ decodeWords kind' heap' raw' = values.2 := by
  obtain ⟨released, releases, replaces⟩ := Heap.release_of_le owned
  have firstStored := storeAll_replaces released ((kind.encoding model).encode values.1)
  have firstValue := decodeWords_storeAll released values.1
  set stored := storeAll released ((kind.encoding model).encode values.1) with storedEq
  have secondStored := storeAll_replaces stored.1 ((kind'.encoding model).encode values.2)
  have secondValue := decodeWords_storeAll stored.1 values.2
  set stored' := storeAll stored.1 ((kind'.encoding model).encode values.2) with storedEq'
  refine ⟨stored'.1, stored.2, stored'.2, ?_, ?_, ?_, secondValue⟩
  · rw [assignPair, releases, Option.map_some]
  · have both := (replaces.allocate firstStored).allocate secondStored
    rw [zero_add] at both
    exact both
  · rw [← firstValue]
    apply decodeWords_local
    intro block member
    -- The blocks of the second value are new, so those of the first keep their content.
    have live : stored.1.live.val = released.live.val + blocksAll stored.2 := by
      rw [← firstStored.live, add_zero]
    apply secondStored.content block _ (Multiset.notMem_zero block)
    rw [← Finset.mem_val, live]
    exact Multiset.mem_add.mpr (.inr member)

theorem referenceCalls_implements :
    (referenceCalls lib numbers special doubles).Implements
      (callMeaning lib numbers special doubles) where
  value_local _ _ _ _ same := decodeWords_local same
  blocks_init _ := blocksAll_inline _
  value_init kind heap := by
    change decodeWords kind heap (List.map Word.inline _) = _
    rw [decodeWords, readAll_inline, (kind.encoding model).decode_encode]
  constant_writes _ _ _ owned := writes_assign_kind owned _
  unary_writes _ _ _ _ owned := writes_assign_kind ((Multiset.le_add_right _ _).trans owned) _
  unary_inPlace _ _ _ owned := writes_assign_kind owned _
  binary_writes _ _ _ _ _ owned _ := writes_assign_kind ((Multiset.le_add_right _ _).trans owned) _
  split_writes _ _ _ _ _ owned := writes_assignPair ((Multiset.le_add_right _ _).trans owned) _

end Reference

end Arbxx
