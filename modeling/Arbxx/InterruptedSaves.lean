import Arbxx.LoadFailures

/-!
# Saving that is interrupted

`save` dumps an element to a string of its own, hands two fields to the archive
and frees the string.  An archive that throws in between keeps the fields it had
taken and leaves the string to nobody.
-/

namespace Arbxx

/-- What saving writes to, and how many of the dumped strings are not freed. -/
structure Output (Double : Type) where
  archive : List (Field Double)
  dumped : ℕ

section Interruptions

variable {Double : Type} (text : TextLibrary Double)
variable (accepts : List (Field Double) → Field Double → Bool)

/-- Write fields one after the other.  The archive throws at the first one that it
does not accept; whatever it took of that one can not be read as a field. -/
def writeFields : List (Field Double) → List (Field Double) → Bool × List (Field Double)
  | archive, [] => (false, archive)
  | archive, field :: fields =>
      if accepts archive field then writeFields (archive ++ [field]) fields else (true, archive)

/-- Both `save` functions on an archive that can throw: whether it does, and what is
left then. -/
def saveTo {Self : Type} (dumpStr : Self → List Char) (toDouble : Self → Double)
    (output : Output Double) (self : Self) : Bool × Output Double :=
  let serialized := dumpStr self
  let dumped := output.dumped + 1
  let (throws, archive) := writeFields accepts output.archive
    [.string "data" (cString serialized), .double "approximation" (toDouble self)]
  -- `flint_free` is only reached when nothing was thrown.
  if throws then (true, ⟨archive, dumped⟩) else (false, ⟨archive, dumped - 1⟩)

def Value.saveTo (output : Output Double) : Value → Bool × Output Double
  | .arb self =>
      Arbxx.saveTo accepts text.arbDumpStr (fun self => text.arfGetD self.mid) output self
  | .arf self => Arbxx.saveTo accepts text.arfDumpStr text.arfGetD output self

/-- Save one element after the other, up to the first exception. -/
def saveAllTo : Output Double → List Value → Bool × Output Double
  | output, [] => (false, output)
  | output, value :: values =>
      match value.saveTo text accepts output with
      | (true, output) => (true, output)
      | (false, output) => saveAllTo output values

/-- Load into elements one after the other, up to the first exception, with the
elements as they are then. -/
def loadInto : List (Field Double) → List Value →
    Except LoadException (List (Field Double)) × List Value
  | archive, [] => (.ok archive, [])
  | archive, target :: targets =>
      match target.load text archive with
      | (.error exception, target) => (.error exception, target :: targets)
      | (.ok archive, target) => (loadInto archive targets).map id (target :: ·)

/-- The archive takes the first `count` of some fields and no more. -/
structure TakesFirst (fields : List (Field Double)) (count : ℕ) : Prop where
  le_length : count ≤ fields.length
  takes : ∀ index (bounded : index < fields.length), index < count →
    accepts (fields.take index) fields[index] = true
  refuses : ∀ bounded : count < fields.length, accepts (fields.take count) fields[count] = false

/-! ### Writing -/

theorem writeFields_append (archive first rest : List (Field Double)) :
    writeFields accepts archive (first ++ rest) =
      if (writeFields accepts archive first).1 then writeFields accepts archive first
      else writeFields accepts (writeFields accepts archive first).2 rest := by
  induction first generalizing archive with
  | nil => rfl
  | cons field first induction =>
      rw [List.cons_append, writeFields, writeFields]
      split
      · exact induction (archive ++ [field])
      · rfl

/-- Writing throws at the first field that is refused, with the fields before it
written. -/
theorem exists_writeFields_eq (before fields : List (Field Double))
    (takes : ∀ index (bounded : index < (before ++ fields).length), index < before.length →
      accepts ((before ++ fields).take index) (before ++ fields)[index] = true) :
    ∃ count, before.length ≤ count ∧ TakesFirst accepts (before ++ fields) count ∧
      writeFields accepts before fields =
        (decide (count < (before ++ fields).length), (before ++ fields).take count) := by
  induction fields generalizing before with
  | nil =>
      refine ⟨before.length, le_rfl, ⟨by simp, takes, ?_⟩, ?_⟩
      · intro bounded
        simp at bounded
      · simp [writeFields]
  | cons field fields induction =>
      have next : before.length < (before ++ field :: fields).length := by simp
      have nextField : (before ++ field :: fields)[before.length] = field := by simp
      have written : (before ++ field :: fields).take before.length = before := List.take_left
      by_cases accepted : accepts before field = true
      · have regroup : before ++ [field] ++ fields = before ++ field :: fields := by simp
        have furtherTakes : ∀ index (bounded : index < (before ++ [field] ++ fields).length),
            index < (before ++ [field]).length →
              accepts ((before ++ [field] ++ fields).take index)
                (before ++ [field] ++ fields)[index] = true := by
          rw [regroup]
          intro index bounded short
          rcases Nat.lt_succ_iff_lt_or_eq.mp (by simpa using short) with earlier | rfl
          · exact takes index bounded earlier
          · rw [written, nextField]
            exact accepted
        obtain ⟨count, enough, first, equation⟩ := induction (before ++ [field]) furtherTakes
        rw [regroup] at first equation
        refine ⟨count, ?_, first, ?_⟩
        · rw [List.length_append] at enough
          omega
        · rw [writeFields, if_pos accepted, equation]
      · refine ⟨before.length, le_rfl, ⟨next.le, takes, ?_⟩, ?_⟩
        · intro _
          rw [written, nextField]
          exact Bool.eq_false_iff.mpr accepted
        · rw [writeFields, if_neg accepted, written, decide_eq_true next]

/-- Saving writes its two fields, and leaves a string behind exactly if it throws. -/
theorem saveTo_eq {Self : Type} (dumpStr : Self → List Char) (toDouble : Self → Double)
    (output : Output Double) (self : Self) :
    saveTo accepts dumpStr toDouble output self =
      let written := writeFields accepts output.archive (save dumpStr toDouble [] self)
      (written.1, ⟨written.2, output.dumped + if written.1 then 1 else 0⟩) := by
  rw [saveTo, save, List.nil_append]
  dsimp only
  split
  · simp [*]
  · simp_all

theorem Value.saveTo_eq (output : Output Double) (value : Value) :
    value.saveTo text accepts output =
      let written := writeFields accepts output.archive (value.save text [])
      (written.1, ⟨written.2, output.dumped + if written.1 then 1 else 0⟩) := by
  cases value with
  | arb self =>
      exact Arbxx.saveTo_eq accepts text.arbDumpStr (fun self => text.arfGetD self.mid) output self
  | arf self => exact Arbxx.saveTo_eq accepts text.arfDumpStr text.arfGetD output self

/-- Saving one element after the other writes as if all fields were written at once. -/
theorem saveAllTo_eq (output : Output Double) (values : List Value) :
    saveAllTo text accepts output values =
      let written := writeFields accepts output.archive (saveAll text [] values)
      (written.1, ⟨written.2, output.dumped + if written.1 then 1 else 0⟩) := by
  induction values generalizing output with
  | nil => rfl
  | cons value values induction =>
      have first := Value.saveTo_eq text accepts output value
      dsimp only at first ⊢
      rw [saveAll_cons, writeFields_append, saveAllTo, first]
      cases throws : (writeFields accepts output.archive (value.save text [])).1 with
      | true => simp [throws]
      | false => simpa using induction _

/-! ### Loading what was written -/

theorem length_saveAll (values : List Value) :
    (saveAll text [] values).length = 2 * values.length := by
  induction values with
  | nil => rfl
  | cons value values induction =>
      have twoFields : (value.save text []).length = 2 := by cases value <;> rfl
      rw [saveAll_cons, List.length_append, twoFields, induction, List.length_cons]
      omega

variable {text}

/-- Less than two fields are no element. -/
theorem Value.load_of_short {archive : List (Field Double)} (short : archive.length < 2)
    (target : Value) : target.load text archive = (.error .archive, target) := by
  have unreadable : readData archive = .error .archive := by
    match archive, short with
    | [], _ => rfl
    | [.string _ _], _ => rfl
    | [.double _ _], _ => rfl
  cases target with
  | arb self =>
      rw [Value.load, loadArb, load_of_unreadable _ _ unreadable]
      rfl
  | arf self =>
      rw [Value.load, loadArf, load_of_unreadable _ _ unreadable]
      rfl

/-- From the first fields of a saved sequence the elements come back that are complete.
The first one that is not throws, and it and the others stay what they were. -/
theorem loadInto_take (documented : text.DocumentedText) {values targets : List Value}
    (sameTypes : List.Forall₂ Value.SameType values targets) {count : ℕ}
    (bounded : count ≤ 2 * values.length) {returned : List (Field Double)}
    (returns : List.Forall₂ Field.Returned ((saveAll text [] values).take count) returned) :
    loadInto text returned targets =
      (if count < 2 * values.length then .error .archive else .ok [],
        values.take (count / 2) ++ targets.drop (count / 2)) := by
  induction sameTypes generalizing count returned with
  | nil =>
      have none : count = 0 := by simpa using bounded
      subst none
      cases returns
      rfl
  | @cons value target values targets sameType _ induction =>
      have twoFields : (value.save text []).length = 2 := by cases value <;> rfl
      by_cases complete : 2 ≤ count
      · obtain ⟨count, rfl⟩ := Nat.exists_eq_add_of_le complete
        have half : (2 + count) / 2 = count / 2 + 1 := by omega
        rw [saveAll_cons, ← twoFields, List.take_length_add_append] at returns
        obtain ⟨first, rest, firstReturns, restReturns, rfl⟩ := forall₂_append_left returns
        rw [List.length_cons] at bounded ⊢
        rw [loadInto, Value.load_returned documented sameType firstReturns]
        dsimp only
        rw [induction (by omega) restReturns, half]
        have shifted : 2 + count < 2 * (values.length + 1) ↔ count < 2 * values.length := by omega
        simp [shifted]
      · have none : count / 2 = 0 := by omega
        have short : returned.length < 2 := by
          rw [← returns.length_eq, List.length_take]
          omega
        have interrupted : count < 2 * (value :: values).length := by
          rw [List.length_cons]
          omega
        rw [loadInto, Value.load_of_short short, if_pos interrupted, none]
        rfl

/-- Whatever an archive refuses, saving elements one after the other throws at the
first field that is refused and leaves exactly one dumped string behind then.  What
was written loads into elements of the same classes as a prefix of what was saved; the
element in whose fields saving was interrupted throws, and the elements from there on
stay what they were. -/
theorem interrupted_saves (documented : text.DocumentedText) (values : List Value) (dumped : ℕ) :
    ∃ count, TakesFirst accepts (saveAll text [] values) count ∧
      saveAllTo text accepts ⟨[], dumped⟩ values =
        (decide (count < 2 * values.length), ⟨(saveAll text [] values).take count,
          dumped + if count < 2 * values.length then 1 else 0⟩) ∧
      ∀ targets returned, List.Forall₂ Value.SameType values targets →
        List.Forall₂ Field.Returned ((saveAll text [] values).take count) returned →
          loadInto text returned targets =
            (if count < 2 * values.length then .error .archive else .ok [],
              values.take (count / 2) ++ targets.drop (count / 2)) := by
  obtain ⟨count, _, first, written⟩ :=
    exists_writeFields_eq accepts [] (saveAll text [] values) (by simp)
  rw [List.nil_append, length_saveAll] at written
  rw [List.nil_append] at first
  have bounded := first.le_length
  rw [length_saveAll] at bounded
  refine ⟨count, first, ?_, fun targets returned sameTypes returns =>
    loadInto_take documented sameTypes bounded returns⟩
  rw [saveAllTo_eq, written]
  simp

/-- A third field too many. -/
theorem interrupted_saves_third :
    let text := TextLibrary.reference fun a : Arf => a
    let values : List Value := [.arb Arb.unitBall, .arf .negInf]
    ∃ count, TakesFirst (fun archive _ => decide (archive.length < 3))
        (saveAll text [] values) count ∧
      saveAllTo text (fun archive _ => decide (archive.length < 3)) ⟨[], 5⟩ values =
        (decide (count < 4), ⟨(saveAll text [] values).take count,
          5 + if count < 4 then 1 else 0⟩) ∧
      ∀ targets returned, List.Forall₂ Value.SameType values targets →
        List.Forall₂ Field.Returned ((saveAll text [] values).take count) returned →
          loadInto text returned targets =
            (if count < 4 then .error .archive else .ok [],
              values.take (count / 2) ++ targets.drop (count / 2)) :=
  interrupted_saves _ (TextLibrary.reference_documentedText _) _ _

end Interruptions

end Arbxx
