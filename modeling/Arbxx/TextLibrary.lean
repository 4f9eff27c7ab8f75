import Arbxx.Balls
import Arbxx.RadixNumerals
import Mathlib.Data.List.TakeWhile

/-!
# The text format of Arb

Arb dumps a floating point number as two hexadecimal integers, and a ball as the
text of its midpoint followed by the text of its radius.  The functions that dump
and load are not part of the repository; like the other library functions they
enter as a parameter with their documented behaviour.
-/

namespace Arbxx

open RadixNumerals

/-! ### The text format -/

/-- The exponents that stand for special values next to a mantissa of zero. -/
structure SpecialCodes where
  zero : ℤ
  posInf : ℤ
  negInf : ℤ
  nan : ℤ
  nodup : [zero, posInf, negInf, nan].Nodup

/-- The mantissa and the exponent that a number is written as. -/
def Arf.fields (codes : SpecialCodes) : Arf → ℤ × ℤ
  | .finite .zero => (0, codes.zero)
  | .finite (.ofOdd mantissa precision _) => (mantissa, -precision)
  | .posInf => (0, codes.posInf)
  | .negInf => (0, codes.negInf)
  | .nan => (0, codes.nan)

/-- The number that a mantissa and an exponent are read as. -/
def Arf.ofFields (codes : SpecialCodes) (mantissa exponent : ℤ) : Option Arf :=
  if mantissa ≠ 0 then some (.finite (Dyadic.ofIntWithPrec mantissa (-exponent)))
  else if exponent = codes.zero then some (.finite 0)
  else if exponent = codes.posInf then some .posInf
  else if exponent = codes.negInf then some .negInf
  else if exponent = codes.nan then some .nan
  else none

theorem Arf.ofFields_fields (codes : SpecialCodes) (a : Arf) :
    Arf.ofFields codes (a.fields codes).1 (a.fields codes).2 = some a := by
  have distinct := codes.nodup
  simp only [List.nodup_cons, List.mem_cons, List.not_mem_nil, or_false, not_or] at distinct
  obtain ⟨⟨zeroPos, zeroNeg, zeroNan⟩, ⟨posNeg, posNan⟩, negNan, _⟩ := distinct
  cases a with
  | finite d =>
      cases d with
      | zero =>
          simp only [Arf.fields, Arf.ofFields, ne_eq, not_true_eq_false, if_false, if_true]
          rfl
      | ofOdd mantissa precision odd =>
          have nonzero : mantissa ≠ 0 := by omega
          simp only [Arf.fields, Arf.ofFields, if_pos nonzero, neg_neg]
          rw [← @Dyadic.ofOdd_eq_ofIntWithPrec _ _ odd]
  | posInf => simp [Arf.fields, Arf.ofFields, Ne.symm zeroPos]
  | negInf => simp [Arf.fields, Arf.ofFields, Ne.symm zeroNeg, Ne.symm posNeg]
  | nan => simp [Arf.fields, Arf.ofFields, Ne.symm zeroNan, Ne.symm posNan, Ne.symm negNan]

/-- Two signed hexadecimal integers separated by a blank. -/
def fieldsText (fields : ℤ × ℤ) : List Char :=
  print 16 fields.1 ++ ' ' :: print 16 fields.2

/-- The character that ends a C string. -/
def nul : Char :=
  Char.ofNat 0

/-- The C string at the front of some characters, `std::string(char*)` and
`std::string::c_str`. -/
def cString (characters : List Char) : List Char :=
  characters.takeWhile (· ≠ nul)

theorem cString_eq_self {characters : List Char} (absent : nul ∉ characters) :
    cString characters = characters := by
  rw [cString, List.takeWhile_eq_self_iff]
  intro character member
  exact decide_eq_true fun isNul => absent (isNul ▸ member)

theorem blank_notMem_print (number : ℤ) : ' ' ∉ print 16 number :=
  separator_notMem_print (by norm_num) (by norm_num) number (by decide)

theorem nul_notMem_fieldsText (fields : ℤ × ℤ) : nul ∉ fieldsText fields := by
  have absent : ∀ number, nul ∉ print 16 number := fun number =>
    separator_notMem_print (by norm_num) (by norm_num) number (by decide)
  have notBlank : nul ≠ ' ' := by decide
  simp [fieldsText, absent, notBlank]

/-! ### The functions that dump and load -/

/-- The number written as two integers on either side of the first blank. -/
def readFields (codes : SpecialCodes) (fmpzSetStr : List Char → ℕ → Option ℤ)
    (data : List Char) : Option Arf := do
  let (mantissa, exponent) ← splitFirst ' ' data
  Arf.ofFields codes (← fmpzSetStr mantissa 16) (← fmpzSetStr exponent 16)

/-- The texts of the midpoint and of the radius, before and after the second
blank. -/
def splitBall (data : List Char) : Option (List Char × List Char) := do
  let (mantissa, rest) ← splitFirst ' ' data
  let (exponent, radius) ← splitFirst ' ' rest
  some (mantissa ++ ' ' :: exponent, radius)

/-- A loading function takes the previous value of its target, and returns whether
it reports an error along with the new value of the target. -/
abbrev Loader (Target : Type) : Type :=
  Target → List Char → Bool × Target

/-- A number is written only after both of its integers have parsed. -/
def loadNumber (read : List Char → Option Arf) : Loader Arf := fun target data =>
  match read data with
  | some a => (false, a)
  | none => (true, target)

/-- The midpoint is loaded before the radius, and stays if the radius fails. -/
def loadBall (loadMid : Loader Arf) (loadRad : Loader Mag) : Loader Arb := fun target data =>
  match splitBall data with
  | none => (true, target)
  | some (midpoint, radius) =>
      let (midFails, mid) := loadMid target.mid midpoint
      if midFails then (true, ⟨mid, target.rad⟩)
      else
        let (radFails, rad) := loadRad target.rad radius
        (radFails, ⟨mid, rad⟩)

/-- The text functions of Arb and FLINT, and the conversion to a `double`. -/
structure TextLibrary (Double : Type) where
  codes : SpecialCodes
  fmpzSetStr : List Char → ℕ → Option ℤ
  arfDumpStr : Arf → List Char
  arfLoadStr : Loader Arf
  magLoadStr : Loader Mag
  arbDumpStr : Arb → List Char
  arbLoadStr : Loader Arb
  arfGetD : Arf → Double

namespace TextLibrary

variable {Double : Type} (text : TextLibrary Double)

structure DocumentedText : Prop where
  fmpzSetStr_parse : ∀ base data number, 2 ≤ base → base ≤ 36 →
    parse base data = some number → text.fmpzSetStr data base = some number
  arfDumpStr_eq : ∀ a, text.arfDumpStr a = fieldsText (a.fields text.codes)
  arfLoadStr_eq : text.arfLoadStr = loadNumber (readFields text.codes text.fmpzSetStr)
  magLoadStr_eq : ∀ target (r : Mag) data,
    readFields text.codes text.fmpzSetStr data = some r.toArf →
      text.magLoadStr target data = (false, r)
  arbDumpStr_eq : ∀ x, text.arbDumpStr x =
    fieldsText (x.mid.fields text.codes) ++ ' ' :: fieldsText (x.rad.toArf.fields text.codes)
  arbLoadStr_eq : text.arbLoadStr = loadBall text.arfLoadStr text.magLoadStr

variable {text}

theorem readFields_fieldsText (documented : text.DocumentedText) (a : Arf) :
    readFields text.codes text.fmpzSetStr (fieldsText (a.fields text.codes)) = some a := by
  have reads : ∀ number, text.fmpzSetStr (print 16 number) 16 = some number := fun number =>
    documented.fmpzSetStr_parse 16 _ number (by norm_num) (by norm_num)
      (parse_print (by norm_num) (by norm_num) number)
  rw [readFields, fieldsText, splitFirst_append (blank_notMem_print _)]
  simp [reads, Arf.ofFields_fields]

theorem splitBall_fieldsText (fields : ℤ × ℤ) (radius : List Char) :
    splitBall (fieldsText fields ++ ' ' :: radius) = some (fieldsText fields, radius) := by
  rw [splitBall, fieldsText, List.append_assoc, List.cons_append,
    splitFirst_append (blank_notMem_print _)]
  simp [splitFirst_append (blank_notMem_print _)]

/-- A number is loaded from its own text, whatever the target held. -/
theorem arfLoadStr_arfDumpStr (documented : text.DocumentedText) (target a : Arf) :
    text.arfLoadStr target (text.arfDumpStr a) = (false, a) := by
  rw [documented.arfLoadStr_eq, documented.arfDumpStr_eq, loadNumber,
    readFields_fieldsText documented]

theorem arbLoadStr_arbDumpStr (documented : text.DocumentedText) (target x : Arb) :
    text.arbLoadStr target (text.arbDumpStr x) = (false, x) := by
  have midLoads : text.arfLoadStr target.mid (fieldsText (x.mid.fields text.codes)) =
      (false, x.mid) := by
    rw [documented.arfLoadStr_eq, loadNumber, readFields_fieldsText documented]
  have radLoads : text.magLoadStr target.rad (fieldsText (x.rad.toArf.fields text.codes)) =
      (false, x.rad) :=
    documented.magLoadStr_eq target.rad x.rad _ (readFields_fieldsText documented x.rad.toArf)
  rw [documented.arbLoadStr_eq, documented.arbDumpStr_eq, loadBall, splitBall_fieldsText]
  simp [midLoads, radLoads]

theorem nul_notMem_arfDumpStr (documented : text.DocumentedText) (a : Arf) :
    nul ∉ text.arfDumpStr a := by
  rw [documented.arfDumpStr_eq]
  exact nul_notMem_fieldsText _

theorem nul_notMem_arbDumpStr (documented : text.DocumentedText) (x : Arb) :
    nul ∉ text.arbDumpStr x := by
  have notBlank : nul ≠ ' ' := by decide
  rw [documented.arbDumpStr_eq]
  simp [nul_notMem_fieldsText, notBlank]

/-! ### A reference implementation -/

def referenceCodes : SpecialCodes where
  zero := 0
  posInf := -1
  negInf := -2
  nan := -3
  nodup := by decide

def radiusOf : Arf → Mag
  | .finite d =>
      if exact : 0 ≤ d ∧ d.FitsBits 30 then .finite d exact.1 exact.2 else Mag.above d.toRat
  | _ => .inf

theorem radiusOf_toArf (r : Mag) : radiusOf r.toArf = r := by
  cases r with
  | inf => rfl
  | finite value nonneg short => exact dif_pos ⟨nonneg, short⟩

def loadRadius : Loader Mag := fun target data =>
  match readFields referenceCodes (fun data base => parse base data) data with
  | some a => (false, radiusOf a)
  | none => (true, target)

def reference (arfGetD : Arf → Double) : TextLibrary Double where
  codes := referenceCodes
  fmpzSetStr data base := parse base data
  arfDumpStr a := fieldsText (a.fields referenceCodes)
  arfLoadStr := loadNumber (readFields referenceCodes fun data base => parse base data)
  magLoadStr := loadRadius
  arbDumpStr x :=
    fieldsText (x.mid.fields referenceCodes) ++
      ' ' :: fieldsText (x.rad.toArf.fields referenceCodes)
  arbLoadStr :=
    loadBall (loadNumber (readFields referenceCodes fun data base => parse base data)) loadRadius
  arfGetD := arfGetD

theorem reference_documentedText (arfGetD : Arf → Double) : (reference arfGetD).DocumentedText where
  fmpzSetStr_parse _ _ _ _ _ parses := parses
  arfDumpStr_eq _ := rfl
  arfLoadStr_eq := rfl
  magLoadStr_eq target r data reads := by
    change readFields referenceCodes (fun data base => parse base data) data = some r.toArf at reads
    simp [reference, loadRadius, reads, radiusOf_toArf]
  arbDumpStr_eq _ := rfl
  arbLoadStr_eq := rfl

end TextLibrary

end Arbxx
