import Arbxx.Serialization

/-!
# Loading that fails

Loading parses straight into its target.  A floating point number is written only
once it has parsed completely; a ball gets its new midpoint before its radius is
looked at, and keeps it when the radius turns out to be malformed.
-/

namespace Arbxx

namespace TextLibrary

variable {Double : Type} (text : TextLibrary Double)

/-- `mag_load_str` reports an error exactly if its data does not parse, and then
leaves its target alone. -/
structure DocumentedFailures : Prop where
  magLoadStr_malformed : ∀ target data, readFields text.codes text.fmpzSetStr data = none →
    text.magLoadStr target data = (true, target)
  magLoadStr_parsed : ∀ target data a, readFields text.codes text.fmpzSetStr data = some a →
    (text.magLoadStr target data).1 = false

theorem reference_documentedFailures (arfGetD : Arf → Double) :
    (reference arfGetD).DocumentedFailures where
  magLoadStr_malformed target data malformed := by
    change readFields referenceCodes (fun data base => RadixNumerals.parse base data) data = none
      at malformed
    simp [reference, loadRadius, malformed]
  magLoadStr_parsed target data a parsed := by
    change readFields referenceCodes (fun data base => RadixNumerals.parse base data) data = some a
      at parsed
    simp [reference, loadRadius, parsed]

end TextLibrary

section Failures

variable {Double : Type} {text : TextLibrary Double}

/-- What is promised about a load that fails: it throws whenever the loading
function reports an error, and whatever it throws, the target is as before. -/
structure IntactOnFailure {Self : Type} (loadStr : Loader Self)
    (load : List (Field Double) → Self → Except LoadException (List (Field Double)) × Self)
    (archive : List (Field Double)) (target : Self) : Prop where
  throws : ∀ data ignored rest, readData archive = .ok (data, ignored, rest) →
    (loadStr target (cString data)).1 = true →
      ∃ exception, (load archive target).1 = .error exception
  intact : ∀ exception, (load archive target).1 = .error exception →
    (load archive target).2 = target

theorem load_of_unreadable {Self : Type} (loadStr : Loader Self) (message : String)
    {archive : List (Field Double)} {exception : LoadException}
    (unreadable : readData archive = .error exception) (self : Self) :
    load loadStr message archive self = (.error exception, self) := by
  rw [load, unreadable]

theorem load_of_readable {Self : Type} (loadStr : Loader Self) (message : String)
    {archive rest : List (Field Double)} {data : List Char} {ignored : Double}
    (readable : readData archive = .ok (data, ignored, rest)) (self : Self) :
    load loadStr message archive self =
      (if (loadStr self (cString data)).1 then .error (.logicError message) else .ok rest,
        (loadStr self (cString data)).2) := by
  rw [load, readable]
  dsimp only
  split <;> rfl

/-- The promise comes down to the loading function: where it reports an error it
must not have written. -/
theorem intactOnFailure_load_iff {Self : Type} (loadStr : Loader Self) (message : String)
    (archive : List (Field Double)) (self : Self) :
    IntactOnFailure loadStr (load loadStr message) archive self ↔
      ∀ data ignored rest, readData archive = .ok (data, ignored, rest) →
        (loadStr self (cString data)).1 = true → (loadStr self (cString data)).2 = self := by
  have throws : ∀ {data ignored rest}, readData archive = .ok (data, ignored, rest) →
      (loadStr self (cString data)).1 = true →
        (load loadStr message archive self).1 = .error (.logicError message) := by
    intro data ignored rest readable reports
    rw [load_of_readable loadStr message readable, reports]
    rfl
  constructor
  · intro promised data ignored rest readable reports
    have intact := promised.intact (.logicError message) (throws readable reports)
    rwa [load_of_readable loadStr message readable] at intact
  · intro kept
    refine ⟨fun data ignored rest readable reports => ⟨_, throws readable reports⟩, ?_⟩
    intro exception thrown
    cases read : readData archive with
    | error unreadable => rw [load_of_unreadable loadStr message read]
    | ok fields =>
        obtain ⟨data, ignored, rest⟩ := fields
        rw [load_of_readable loadStr message read] at thrown ⊢
        cases reports : (loadStr self (cString data)).1 with
        | true => exact kept data ignored rest read reports
        | false =>
            rw [reports] at thrown
            cases thrown

/-- The data is split into a midpoint that parses, to another number than the
target has, and a radius that does not parse. -/
def HalfMalformed (text : TextLibrary Double) (archive : List (Field Double)) (self : Arb) : Prop :=
  ∃ data ignored rest parts a, readData archive = .ok (data, ignored, rest) ∧
    splitBall (cString data) = some parts ∧
    readFields text.codes text.fmpzSetStr parts.1 = some a ∧
    readFields text.codes text.fmpzSetStr parts.2 = none ∧ a ≠ self.mid

private theorem loadNumber_keeps (read : List Char → Option Arf) {target : Arf}
    {data : List Char} (reports : (loadNumber read target data).1 = true) :
    (loadNumber read target data).2 = target := by
  unfold loadNumber at reports ⊢
  cases parsed : read data with
  | none => rfl
  | some a =>
      rw [parsed] at reports
      cases reports

/-- Where `arb_load_str` reports an error it has written at most the midpoint. -/
theorem arbLoadStr_keeps_iff (documented : text.DocumentedText)
    (failures : text.DocumentedFailures) (target : Arb) (data : List Char) :
    ((text.arbLoadStr target data).1 = true → (text.arbLoadStr target data).2 = target) ↔
      ∀ parts, splitBall data = some parts →
        ∀ a, readFields text.codes text.fmpzSetStr parts.1 = some a →
          readFields text.codes text.fmpzSetStr parts.2 = none → a = target.mid := by
  rw [documented.arbLoadStr_eq, documented.arfLoadStr_eq, loadBall]
  cases split : splitBall data with
  | none => simp
  | some parts =>
      obtain ⟨midpoint, radius⟩ := parts
      cases midParsed : readFields text.codes text.fmpzSetStr midpoint with
      | none => simp [loadNumber, midParsed]
      | some a =>
          cases radParsed : readFields text.codes text.fmpzSetStr radius with
          | none =>
              simp [loadNumber, midParsed, radParsed, Arb.ext_iff,
                failures.magLoadStr_malformed target.rad radius radParsed]
          | some r =>
              simp [loadNumber, midParsed, radParsed,
                failures.magLoadStr_parsed target.rad radius r radParsed]

end Failures

end Arbxx
