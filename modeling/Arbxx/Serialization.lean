import Arbxx.ArfOrder
import Arbxx.BallComparison
import Arbxx.TextLibrary

/-!
# Saving and loading

An element is saved as two fields, the text that Arb dumps and an approximation
by a `double`, and loaded by reading two fields and parsing the first.  Saving
writes named fields and loading reads by position, so a sequence of elements
comes back only if both keep in step.
-/

namespace Arbxx

open CLibrary

/-! ### Archives -/

inductive Field (Double : Type)
  | string (name : String) (value : List Char)
  | double (name : String) (value : Double)

/-- What loading throws: the archive's own exception, or a `std::logic_error`. -/
inductive LoadException
  | archive
  | logicError (message : String)
  deriving DecidableEq

section Archives

variable {Double : Type} (text : TextLibrary Double)

/-- The shape shared by both `save` functions. -/
def save {Self : Type} (dumpStr : Self → List Char) (toDouble : Self → Double)
    (archive : List (Field Double)) (self : Self) : List (Field Double) :=
  archive ++ [.string "data" (cString (dumpStr self)), .double "approximation" (toDouble self)]

/-- `save(Archive&, const Arb&)`. -/
def saveArb : List (Field Double) → Arb → List (Field Double) :=
  save text.arbDumpStr fun self => text.arfGetD self.mid

/-- `save(Archive&, const Arf&)`. -/
def saveArf : List (Field Double) → Arf → List (Field Double) :=
  save text.arfDumpStr text.arfGetD

/-- `archive(data, ignored)`, reading a string and a double by position. -/
def readData : List (Field Double) →
    Except LoadException (List Char × Double × List (Field Double))
  | .string _ data :: .double _ ignored :: archive => .ok (data, ignored, archive)
  | _ => .error .archive

/-- The shape shared by both `load` functions: the rest of the archive or what is
thrown, and the target afterwards. -/
def load {Self : Type} (loadStr : Loader Self) (message : String)
    (archive : List (Field Double)) (self : Self) :
    Except LoadException (List (Field Double)) × Self :=
  match readData archive with
  | .error exception => (.error exception, self)
  | .ok (data, _, archive) =>
      let (fails, self) := loadStr self (cString data)
      if fails then (.error (.logicError message), self) else (.ok archive, self)

/-- `load(Archive&, Arb&)`. -/
def loadArb : List (Field Double) → Arb → Except LoadException (List (Field Double)) × Arb :=
  load text.arbLoadStr "malformed archive, failed to parse Arb"

/-- `load(Archive&, Arf&)`. -/
def loadArf : List (Field Double) → Arf → Except LoadException (List (Field Double)) × Arf :=
  load text.arfLoadStr "malformed archive, failed to parse Arf"

inductive Value
  | arb (value : Arb)
  | arf (value : Arf)

def Value.save (archive : List (Field Double)) : Value → List (Field Double)
  | .arb self => saveArb text archive self
  | .arf self => saveArf text archive self

def Value.load (archive : List (Field Double)) :
    Value → Except LoadException (List (Field Double)) × Value
  | .arb self => (loadArb text archive self).map id .arb
  | .arf self => (loadArf text archive self).map id .arf

def saveAll (archive : List (Field Double)) (values : List Value) : List (Field Double) :=
  values.foldl (Value.save text) archive

/-- Load into elements one after the other, up to the first exception. -/
def loadAll : List (Field Double) → List Value →
    Except LoadException (List Value × List (Field Double))
  | archive, [] => .ok ([], archive)
  | archive, target :: targets =>
      match target.load text archive with
      | (.error exception, _) => .error exception
      | (.ok archive, loaded) =>
          (loadAll archive targets).map fun result => (loaded :: result.1, result.2)

/-! ### The round trip -/

/-- An archive gives back every string as written, and any double. -/
inductive Field.Returned : Field Double → Field Double → Prop
  | string (name : String) (value : List Char) : Returned (.string name value) (.string name value)
  | double (name : String) (written read : Double) :
      Returned (.double name written) (.double name read)

inductive Value.SameType : Value → Value → Prop
  | arb (x y : Arb) : SameType (.arb x) (.arb y)
  | arf (a b : Arf) : SameType (.arf a) (.arf b)

/-- The loaded element is `equal()` to the saved one for balls, and `==` to it for
floating point numbers. -/
def Value.Reproduced {model : DataModel} (lib : CLibrary model) : Value → Value → Prop
  | .arb saved, .arb loaded => Arb.equal lib saved loaded = true
  | .arf saved, .arf loaded => Arf.operatorEqual lib saved loaded = true
  | _, _ => False

theorem Value.save_eq_append (archive : List (Field Double)) (value : Value) :
    value.save text archive = archive ++ value.save text [] := by
  cases value <;> rfl

theorem saveAll_cons (value : Value) (values : List Value) :
    saveAll text [] (value :: values) = value.save text [] ++ saveAll text [] values := by
  have appends : ∀ archive, saveAll text archive values = archive ++ saveAll text [] values := by
    induction values with
    | nil => intro archive; simp [saveAll]
    | cons other others induction =>
        intro archive
        have restart : ∀ archive, saveAll text archive (other :: others) =
            saveAll text (other.save text archive) others := fun archive => rfl
        rw [restart, restart, induction, induction (other.save text []), Value.save_eq_append,
          List.append_assoc]
  exact appends (value.save text [])

variable {text}

/-- Loading consumes exactly the two fields of one element and gives back what was
dumped. -/
private theorem load_of_returned {Self : Type} {dumpStr : Self → List Char}
    {toDouble : Self → Double} {loadStr : Loader Self} {target self : Self}
    (loads : loadStr target (dumpStr self) = (false, self)) (noNul : nul ∉ dumpStr self)
    {returned : List (Field Double)}
    (returns : List.Forall₂ Field.Returned (save dumpStr toDouble [] self) returned)
    (message : String) (rest : List (Field Double)) :
    load loadStr message (returned ++ rest) target = (.ok rest, self) := by
  rw [save, cString_eq_self noNul, List.nil_append] at returns
  cases returns with
  | cons first others =>
      cases first with
      | string =>
          cases others with
          | cons second nothing =>
              cases second with
              | double =>
                  cases nothing with
                  | nil => simp [load, readData, cString_eq_self noNul, loads]

/-- One element comes back from its two fields, whatever the target held. -/
theorem Value.load_returned (documented : text.DocumentedText) {value target : Value}
    (sameType : value.SameType target) {returned : List (Field Double)}
    (returns : List.Forall₂ Field.Returned (value.save text []) returned)
    (rest : List (Field Double)) :
    target.load text (returned ++ rest) = (.ok rest, value) := by
  cases sameType with
  | arb x y =>
      have fields : List.Forall₂ Field.Returned
        (Arbxx.save text.arbDumpStr (fun self => text.arfGetD self.mid) [] x) returned := returns
      have loaded := load_of_returned (TextLibrary.arbLoadStr_arbDumpStr documented y x)
        (TextLibrary.nul_notMem_arbDumpStr documented x) fields
      rw [Value.load, loadArb, loaded]
      rfl
  | arf a b =>
      have fields : List.Forall₂ Field.Returned
        (Arbxx.save text.arfDumpStr text.arfGetD [] a) returned := returns
      have loaded := load_of_returned (TextLibrary.arfLoadStr_arfDumpStr documented b a)
        (TextLibrary.nul_notMem_arfDumpStr documented a) fields
      rw [Value.load, loadArf, loaded]
      rfl

theorem forall₂_append_left {α β : Type*} {relation : α → β → Prop} {first rest : List α}
    {whole : List β} (related : List.Forall₂ relation (first ++ rest) whole) :
    ∃ front back, List.Forall₂ relation first front ∧ List.Forall₂ relation rest back ∧
      whole = front ++ back := by
  have front := List.forall₂_take first.length related
  have back := List.forall₂_drop first.length related
  rw [List.take_left] at front
  rw [List.drop_left] at back
  exact ⟨_, _, front, back, (List.take_append_drop first.length whole).symm⟩

/-- A sequence of elements comes back field by field, with nothing left over. -/
theorem loadAll_returned (documented : text.DocumentedText) {values targets : List Value}
    (sameTypes : List.Forall₂ Value.SameType values targets) {returned : List (Field Double)}
    (returns : List.Forall₂ Field.Returned (saveAll text [] values) returned) :
    loadAll text returned targets = .ok (values, []) := by
  induction sameTypes generalizing returned with
  | nil =>
      cases returns
      rfl
  | @cons value target values targets sameType _ induction =>
      rw [saveAll_cons] at returns
      obtain ⟨first, rest, firstReturns, restReturns, rfl⟩ := forall₂_append_left returns
      rw [loadAll, Value.load_returned documented sameType firstReturns]
      simp only [induction restReturns]
      rfl

/-- Whatever elements are saved one after the other, and whatever doubles come
back, loading elements of the same classes in the same order throws nothing,
reproduces every element and leaves no field unread. -/
theorem serialization_round_trip {model : DataModel} {lib : CLibrary model}
    (documented : text.DocumentedText) (compares : lib.ComparesFloats)
    (handles : lib.HandlesBalls) (values targets : List Value)
    (sameTypes : List.Forall₂ Value.SameType values targets) (returned : List (Field Double))
    (returns : List.Forall₂ Field.Returned (saveAll text [] values) returned) :
    ∃ loaded, loadAll text returned targets = .ok (loaded, []) ∧
      List.Forall₂ (Value.Reproduced lib) values loaded := by
  refine ⟨values, loadAll_returned documented sameTypes returns, ?_⟩
  rw [List.forall₂_same]
  intro value _
  cases value with
  | arb x => exact (handles.equal_iff x x).mpr rfl
  | arf a => exact (compares.equal_iff a a).mpr rfl

/-- A ball, NaN and an infinity come back into targets that held something else,
whatever their approximations come back as. -/
theorem serialization_round_trip_special :
    let text := TextLibrary.reference fun a : Arf => a
    let saved : List Value := [.arb Arb.unitBall, .arf .nan, .arf .negInf]
    let targets : List Value := [.arb (Arb.exact .nan), .arf .posInf, .arf (Arf.ofInt 3)]
    ∃ loaded, loadAll text
        [.string "data" (cString (text.arbDumpStr Arb.unitBall)), .double "approximation" .nan,
          .string "data" (cString (text.arfDumpStr .nan)), .double "approximation" (Arf.ofInt 1),
          .string "data" (cString (text.arfDumpStr .negInf)), .double "approximation" .negInf]
        targets = .ok (loaded, []) ∧
      List.Forall₂ (Value.Reproduced (reference .lp64)) saved loaded :=
  serialization_round_trip (TextLibrary.reference_documentedText _)
    (reference_comparesFloats .lp64) (reference_handlesBalls .lp64) _ _
    (.cons (.arb _ _) (.cons (.arf _ _) (.cons (.arf _ _) .nil))) _
    (.cons (.string _ _) (.cons (.double _ _ _) (.cons (.string _ _) (.cons (.double _ _ _)
      (.cons (.string _ _) (.cons (.double _ _ _) .nil))))))

end Archives

end Arbxx
