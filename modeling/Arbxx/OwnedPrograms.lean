import Arbxx.OwnedHeap
import Mathlib.Data.List.Basic

/-!
# Programs over owned objects

Straight-line programs over objects of several kinds that own blocks of a heap.  An
object comes to life without blocks, functions replace its blocks by those of a new
value, and at the end of its life its blocks are released.

The same programs run on stores, which have values in place of structures and blocks.
A program that runs on a store runs on a memory that represents it, and the memory
represents the store afterwards.
-/

namespace OwnedHeap

/-- A variable that a program is given, or a temporary of its own. -/
inductive Slot (Name : Type)
  | given (name : Name)
  | temporary (index : ℕ)
  deriving DecidableEq

/-- The storage of an object. -/
structure Place (Kind Name : Type) where
  kind : Kind
  slot : Slot Name
  deriving DecidableEq

/-- The functions, by the kinds of the objects that they write to and read from. -/
structure Signature (Kind : Type) where
  Constant : Kind → Type
  Unary : Kind → Kind → Type
  Binary : Kind → Kind → Kind → Type
  Split : Kind → Kind → Kind → Type

variable {Kind Name : Type} {signature : Signature Kind}

/-- A statement initializes or clears an object, calls a function on the targets
before the sources, or exchanges structures as they are. -/
inductive Statement (signature : Signature Kind) (Name : Type)
  | init (kind : Kind) (x : Slot Name)
  | clear (kind : Kind) (x : Slot Name)
  | constant {kind : Kind} (f : signature.Constant kind) (target : Slot Name)
  | unary {kind kind₁ : Kind} (f : signature.Unary kind kind₁) (target source : Slot Name)
  | binary {kind kind₁ kind₂ : Kind} (f : signature.Binary kind kind₁ kind₂)
      (target left right : Slot Name)
  | split {kind kind' kind₁ : Kind} (f : signature.Split kind kind' kind₁)
      (first second source : Slot Name)
  | move (kind : Kind) (target source : Slot Name)
  | swap (kind : Kind) (left right : Slot Name)

/-! ### Stores -/

/-- What the functions compute on values. -/
structure Meaning (signature : Signature Kind) (Value : Kind → Type) where
  zero : ∀ kind, Value kind
  constant : ∀ {kind}, signature.Constant kind → Value kind
  unary : ∀ {kind kind₁}, signature.Unary kind kind₁ → Value kind₁ → Value kind
  binary : ∀ {kind kind₁ kind₂}, signature.Binary kind kind₁ kind₂ → Value kind₁ → Value kind₂ →
    Value kind
  split : ∀ {kind kind' kind₁}, signature.Split kind kind' kind₁ → Value kind₁ →
    Value kind × Value kind'

/-- The values of the live objects. -/
def Store (Value : Kind → Type) (Name : Type) : Type :=
  ∀ place : Place Kind Name, Option (Value place.kind)

variable {Value : Kind → Type}

namespace Store

def get (store : Store Value Name) (kind : Kind) (x : Slot Name) : Option (Value kind) :=
  store ⟨kind, x⟩

def Live (store : Store Value Name) (kind : Kind) (x : Slot Name) : Prop :=
  (store.get kind x).isSome

variable [DecidableEq Kind] [DecidableEq Name]

/-- The object gets a value, or its life ends. -/
def set (store : Store Value Name) (kind : Kind) (x : Slot Name) (value : Option (Value kind)) :
    Store Value Name :=
  Function.update store ⟨kind, x⟩ value

variable {store : Store Value Name} {kind kind' : Kind} {x y : Slot Name}
  {value : Option (Value kind)}

@[simp]
theorem get_set_self : (store.set kind x value).get kind x = value :=
  Function.update_self _ _ _

theorem get_set_of_ne (different : (⟨kind', y⟩ : Place Kind Name) ≠ ⟨kind, x⟩) :
    (store.set kind x value).get kind' y = store.get kind' y :=
  Function.update_of_ne different _ _

/-! ### Temporaries -/

/-- The store of the variables that a program is given. -/
def ofGiven (given : ∀ kind, Name → Option (Value kind)) : Store Value Name
  | ⟨kind, .given name⟩ => given kind name
  | ⟨_, .temporary _⟩ => none

def givenValues (store : Store Value Name) (kind : Kind) (name : Name) : Option (Value kind) :=
  store.get kind (.given name)

/-- Temporaries outside some list are not live. -/
def Vacant (store : Store Value Name) (exceptions : List (Kind × ℕ)) : Prop :=
  ∀ kind index, (kind, index) ∉ exceptions → store.get kind (.temporary index) = none

variable {given : ∀ kind, Name → Option (Value kind)} {exceptions : List (Kind × ℕ)}
  {index : ℕ} {name : Name}

omit [DecidableEq Kind] [DecidableEq Name] in
@[simp]
theorem get_ofGiven : (ofGiven given).get kind (.given name) = given kind name :=
  rfl

omit [DecidableEq Kind] [DecidableEq Name] in
@[simp]
theorem get_ofGiven_temporary : (ofGiven given).get kind (.temporary index : Slot Name) = none :=
  rfl

omit [DecidableEq Kind] [DecidableEq Name] in
theorem eq_ofGiven_iff : store = ofGiven given ↔ store.givenValues = given ∧ store.Vacant [] := by
  constructor
  · rintro rfl
    exact ⟨rfl, fun _ _ _ => rfl⟩
  · rintro ⟨rfl, vacant⟩
    funext place
    obtain ⟨kind, name | index⟩ := place
    · rfl
    · exact vacant kind index List.not_mem_nil

omit [DecidableEq Kind] [DecidableEq Name] in
@[simp]
theorem vacant_ofGiven : (ofGiven given).Vacant exceptions :=
  fun _ _ _ => rfl

@[simp]
theorem vacant_set_given : (store.set kind (.given name) value).Vacant exceptions ↔
    store.Vacant exceptions := by
  simp [Vacant, get_set_of_ne]

theorem get_set_temporary_of_ne {index' : ℕ} (different : (kind', index') ≠ (kind, index)) :
    (store.set kind (.temporary index) value).get kind' (.temporary index') =
      store.get kind' (.temporary index') := by
  apply get_set_of_ne
  intro same
  simp only [Place.mk.injEq, Slot.temporary.injEq] at same
  exact different (Prod.ext same.1 same.2)

@[simp]
theorem vacant_set_temporary_none :
    (store.set kind (.temporary index) none).Vacant exceptions ↔
      store.Vacant ((kind, index) :: exceptions) := by
  constructor
  · intro vacant kind' index' outside
    obtain ⟨different, notException⟩ := not_or.mp (List.mem_cons.not.mp outside)
    rw [← vacant kind' index' notException, get_set_temporary_of_ne different]
  · intro vacant kind' index' notException
    by_cases same : (kind', index') = (kind, index)
    · obtain ⟨rfl, rfl⟩ := Prod.mk.inj same
      exact get_set_self
    · rw [get_set_temporary_of_ne same]
      exact vacant kind' index' (List.mem_cons.not.mpr (not_or.mpr ⟨same, notException⟩))

@[simp]
theorem vacant_set_temporary_some {value : Value kind} :
    (store.set kind (.temporary index) (some value)).Vacant exceptions ↔
      (kind, index) ∈ exceptions ∧ store.Vacant exceptions := by
  constructor
  · intro vacant
    have isException : (kind, index) ∈ exceptions := by
      by_contra notException
      have isNone := vacant kind index notException
      rw [get_set_self] at isNone
      cases isNone
    refine ⟨isException, ?_⟩
    intro kind' index' notException
    have different : (kind', index') ≠ (kind, index) :=
      fun same => notException (same ▸ isException)
    rw [← vacant kind' index' notException, get_set_temporary_of_ne different]
  · intro both kind' index' notException
    have different : (kind', index') ≠ (kind, index) := fun same => notException (same ▸ both.1)
    rw [get_set_temporary_of_ne different]
    exact both.2 kind' index' notException

@[simp]
theorem givenValues_set_temporary :
    (store.set kind (.temporary index) value).givenValues = store.givenValues := by
  funext kind' name
  exact get_set_of_ne (by simp)

omit [DecidableEq Kind] [DecidableEq Name] in
@[simp]
theorem givenValues_ofGiven : (ofGiven given).givenValues = given :=
  rfl

end Store

/-! ### Programs on stores -/

namespace Statement

/-- New objects need unused storage, and operands are live.  A target may be a source
of a function with one of each only. -/
def Allowed (store : Store Value Name) : Statement signature Name → Prop
  | .init kind x => store.get kind x = none
  | .clear kind x => store.Live kind x
  | @constant _ _ _ kind _ target => store.Live kind target
  | @unary _ _ _ kind kind₁ _ target source => store.Live kind target ∧ store.Live kind₁ source
  | @binary _ _ _ kind kind₁ kind₂ _ target left right =>
      (store.Live kind target ∧ store.Live kind₁ left ∧ store.Live kind₂ right) ∧
        (⟨kind, target⟩ : Place Kind Name) ≠ ⟨kind₁, left⟩ ∧
        (⟨kind, target⟩ : Place Kind Name) ≠ ⟨kind₂, right⟩
  | @split _ _ _ kind kind' kind₁ _ first second source =>
      (store.Live kind first ∧ store.Live kind' second ∧ store.Live kind₁ source) ∧
        (⟨kind, first⟩ : Place Kind Name) ≠ ⟨kind', second⟩ ∧
        (⟨kind, first⟩ : Place Kind Name) ≠ ⟨kind₁, source⟩ ∧
        (⟨kind', second⟩ : Place Kind Name) ≠ ⟨kind₁, source⟩
  | .move kind target source => store.get kind target = none ∧ store.Live kind source
  | .swap kind left right => store.Live kind left ∧ store.Live kind right

variable [DecidableEq Kind] [DecidableEq Name] (meaning : Meaning signature Value)

/-- The effect of an allowed statement. -/
def apply (store : Store Value Name) : Statement signature Name → Store Value Name
  | .init kind x => store.set kind x (some (meaning.zero kind))
  | .clear kind x => store.set kind x none
  | @constant _ _ _ kind f target => store.set kind target (some (meaning.constant f))
  | @unary _ _ _ kind kind₁ f target source =>
      store.set kind target ((store.get kind₁ source).map (meaning.unary f))
  | @binary _ _ _ kind kind₁ kind₂ f target left right =>
      store.set kind target
        (Option.map₂ (meaning.binary f) (store.get kind₁ left) (store.get kind₂ right))
  | @split _ _ _ kind kind' kind₁ f first second source =>
      (store.set kind first ((store.get kind₁ source).map fun value =>
        (meaning.split f value).1)).set kind' second
          ((store.get kind₁ source).map fun value => (meaning.split f value).2)
  | .move kind target source =>
      (store.set kind target (store.get kind source)).set kind source (some (meaning.zero kind))
  | .swap kind left right =>
      (store.set kind left (store.get kind right)).set kind right (store.get kind left)

def AllowedAll : List (Statement signature Name) → Store Value Name → Prop
  | [], _ => True
  | statement :: statements, store =>
      statement.Allowed store ∧ AllowedAll statements (statement.apply meaning store)

def applyAll : List (Statement signature Name) → Store Value Name → Store Value Name
  | [], store => store
  | statement :: statements, store => applyAll statements (statement.apply meaning store)

theorem applyAll_append (statements statements' : List (Statement signature Name))
    (store : Store Value Name) :
    applyAll meaning (statements ++ statements') store =
      applyAll meaning statements' (applyAll meaning statements store) := by
  induction statements generalizing store with
  | nil => rfl
  | cons statement statements induction => exact induction _

theorem allowedAll_append_iff (statements statements' : List (Statement signature Name))
    (store : Store Value Name) :
    AllowedAll meaning (statements ++ statements') store ↔
      AllowedAll meaning statements store ∧
        AllowedAll meaning statements' (applyAll meaning statements store) := by
  induction statements generalizing store with
  | nil => rw [List.nil_append, AllowedAll, applyAll, true_and]
  | cons statement statements induction =>
      exact (and_congr_right fun _ => induction _).trans and_assoc.symm

end Statement

/-! ### Two targets of one function -/

namespace Memory

variable {Address Content Object : Type*} {Raw : Object → Type*} [DecidableEq Object]
  {m : Memory Address Content Raw} {x y : Object} {r : Raw x} {s : Raw y}
  {heap' : Heap Address Content} {blocks : ∀ object, Raw object → Multiset Address}

theorem Owned.install_pair (owned : m.Owned blocks) (xLive : x ∈ m.live) (yLive : y ∈ m.live)
    (different : x ≠ y)
    (replaces : m.heap.Replaces (blocks x (m.raw x) + blocks y (m.raw y)) heap'
      (blocks x r + blocks y s)) :
    ((m.install x (heap', r)).write y s).Owned blocks := by
  have first : (m.install x (heap', r)).total blocks + blocks x (m.raw x) =
      m.total blocks + blocks x r := total_write xLive
  have second : ((m.install x (heap', r)).write y s).total blocks + blocks y (m.raw y) =
      (m.install x (heap', r)).total blocks + blocks y s := by
    have kept : (m.install x (heap', r)).raw y = m.raw y := raw_install_of_ne different.symm
    rw [← kept]
    exact total_write (m := m.install x (heap', r)) yLive
  have balance := replaces.live
  rw [owned, ← add_assoc, ← add_assoc, ← first, add_right_comm _ _ (blocks y s), ← second,
    add_right_comm _ (blocks y (m.raw y)), add_right_cancel_iff, add_right_cancel_iff] at balance
  exact balance

theorem Owned.keeps_install_pair (owned : m.Owned blocks) (xLive : x ∈ m.live)
    (yLive : y ∈ m.live)
    (replaces : m.heap.Replaces (blocks x (m.raw x) + blocks y (m.raw y)) heap'
      (blocks x r + blocks y s)) :
    Keeps blocks {x, y} m ((m.install x (heap', r)).write y s) where
  live _ live _ := live
  raw z _ other := by
    rw [Finset.mem_insert, Finset.mem_singleton, not_or] at other
    rw [raw_write_of_ne other.2, raw_install_of_ne other.1]
  content z live other block member := by
    rw [Finset.mem_insert, Finset.mem_singleton, not_or] at other
    apply replaces.content block (owned.mem_live live member)
    rw [Multiset.mem_add, not_or]
    exact ⟨owned.notMem_of_ne live xLive other.1 member,
      owned.notMem_of_ne live yLive other.2 member⟩

theorem Owned.blocks_add_add_le {z : Object} (owned : m.Owned blocks) (xLive : x ∈ m.live)
    (yLive : y ∈ m.live) (zLive : z ∈ m.live) (xy : x ≠ y) (xz : x ≠ z) (yz : y ≠ z) :
    blocks x (m.raw x) + blocks y (m.raw y) + blocks z (m.raw z) ≤ m.heap.live.val := by
  have subset : {x, y, z} ⊆ m.live := by
    intro object member
    simp only [Finset.mem_insert, Finset.mem_singleton] at member
    rcases member with rfl | rfl | rfl <;> assumption
  have sum : ∑ object ∈ {x, y, z}, blocks object (m.raw object) =
      blocks x (m.raw x) + blocks y (m.raw y) + blocks z (m.raw z) := by
    rw [Finset.sum_insert (by simp [xy, xz]), Finset.sum_pair yz, add_assoc]
  rw [owned, total, ← sum]
  exact Finset.sum_le_sum_of_subset subset

end Memory

/-! ### Programs on memories -/

/-- The functions on structures: each takes the structures of its targets before those
of its sources, and gives nothing if it touches a block that is not live. -/
structure Implementation (signature : Signature Kind) (Value : Kind → Type)
    (Address Content : Type) where
  Raw : Kind → Type
  blocks : ∀ kind, Raw kind → Multiset Address
  value : ∀ kind, Heap Address Content → Raw kind → Value kind
  init : ∀ kind, Raw kind
  constant : ∀ {kind}, signature.Constant kind → Heap Address Content → Raw kind →
    Option (Heap Address Content × Raw kind)
  unary : ∀ {kind kind₁}, signature.Unary kind kind₁ → Heap Address Content → Raw kind →
    Raw kind₁ → Option (Heap Address Content × Raw kind)
  binary : ∀ {kind kind₁ kind₂}, signature.Binary kind kind₁ kind₂ → Heap Address Content →
    Raw kind → Raw kind₁ → Raw kind₂ → Option (Heap Address Content × Raw kind)
  split : ∀ {kind kind' kind₁}, signature.Split kind kind' kind₁ → Heap Address Content →
    Raw kind → Raw kind' → Raw kind₁ → Option (Heap Address Content × Raw kind × Raw kind')

namespace Implementation

variable {Address Content : Type} (implementation : Implementation signature Value Address Content)

/-- The blocks of the target are replaced by those of a structure with some value. -/
def Writes {kind : Kind} (heap : Heap Address Content) (target : implementation.Raw kind)
    (result : Option (Heap Address Content × implementation.Raw kind)) (value : Value kind) :
    Prop :=
  ∃ heap' raw, result = some (heap', raw) ∧
    heap.Replaces (implementation.blocks kind target) heap' (implementation.blocks kind raw) ∧
    implementation.value kind heap' raw = value

/-- Structures are initialized without blocks, and on live blocks the functions write
what they mean. -/
structure Implements (meaning : Meaning signature Value) : Prop where
  value_local : ∀ kind heap heap' raw,
    (∀ block ∈ implementation.blocks kind raw, heap'.content block = heap.content block) →
      implementation.value kind heap' raw = implementation.value kind heap raw
  blocks_init : ∀ kind, implementation.blocks kind (implementation.init kind) = 0
  value_init : ∀ kind heap, implementation.value kind heap (implementation.init kind) =
    meaning.zero kind
  constant_writes : ∀ {kind} (f : signature.Constant kind) heap target,
    implementation.blocks kind target ≤ heap.live.val →
      implementation.Writes heap target (implementation.constant f heap target)
        (meaning.constant f)
  unary_writes : ∀ {kind kind₁} (f : signature.Unary kind kind₁) heap target source,
    implementation.blocks kind target + implementation.blocks kind₁ source ≤ heap.live.val →
      implementation.Writes heap target (implementation.unary f heap target source)
        (meaning.unary f (implementation.value kind₁ heap source))
  unary_inPlace : ∀ {kind} (f : signature.Unary kind kind) heap target,
    implementation.blocks kind target ≤ heap.live.val →
      implementation.Writes heap target (implementation.unary f heap target target)
        (meaning.unary f (implementation.value kind heap target))
  binary_writes : ∀ {kind kind₁ kind₂} (f : signature.Binary kind kind₁ kind₂) heap target left
    right, implementation.blocks kind target + implementation.blocks kind₁ left ≤ heap.live.val →
    implementation.blocks kind target + implementation.blocks kind₂ right ≤ heap.live.val →
      implementation.Writes heap target (implementation.binary f heap target left right)
        (meaning.binary f (implementation.value kind₁ heap left)
          (implementation.value kind₂ heap right))
  split_writes : ∀ {kind kind' kind₁} (f : signature.Split kind kind' kind₁) heap first second
    source, implementation.blocks kind first + implementation.blocks kind' second +
        implementation.blocks kind₁ source ≤ heap.live.val →
      ∃ heap' raw raw', implementation.split f heap first second source = some (heap', raw, raw') ∧
        heap.Replaces (implementation.blocks kind first + implementation.blocks kind' second) heap'
          (implementation.blocks kind raw + implementation.blocks kind' raw') ∧
        implementation.value kind heap' raw =
          (meaning.split f (implementation.value kind₁ heap source)).1 ∧
        implementation.value kind' heap' raw' =
          (meaning.split f (implementation.value kind₁ heap source)).2

/-- The heap and the structures of all objects. -/
abbrev State (Name : Type) : Type :=
  Memory Address Content fun place : Place Kind Name => implementation.Raw place.kind

def placeBlocks (place : Place Kind Name) (raw : implementation.Raw place.kind) :
    Multiset Address :=
  implementation.blocks place.kind raw

def stateValue (m : implementation.State Name) (kind : Kind) (x : Slot Name) : Value kind :=
  implementation.value kind m.heap (m.raw ⟨kind, x⟩)

/-- The live objects own the live blocks and hold the values of the store. -/
structure Represents (m : implementation.State Name) (store : Store Value Name) : Prop where
  owned : m.Owned implementation.placeBlocks
  live_iff : ∀ kind x, ⟨kind, x⟩ ∈ m.live ↔ (store.get kind x).isSome
  value_eq : ∀ kind x value, store.get kind x = some value →
    implementation.stateValue m kind x = value

variable {implementation} {meaning : Meaning signature Value} {m m' : implementation.State Name}
  {store store' : Store Value Name} {kind : Kind} {x : Slot Name}

theorem Represents.mem_live (represents : implementation.Represents m store) {value : Value kind}
    (found : store.get kind x = some value) : ⟨kind, x⟩ ∈ m.live := by
  rw [represents.live_iff, found]
  rfl

theorem Represents.notMem_live (represents : implementation.Represents m store)
    (missing : store.get kind x = none) : ⟨kind, x⟩ ∉ m.live := by
  rw [represents.live_iff, missing]
  exact Bool.false_ne_true

/-- A memory without objects and blocks represents the store without values. -/
theorem represents_empty {m : implementation.State Name} (noObjects : m.live = ∅)
    (noBlocks : m.heap.live = ∅) :
    implementation.Represents m (Store.ofGiven fun _ _ => none) where
  owned := by
    rw [Memory.Owned, Memory.total, noObjects, noBlocks, Finset.sum_empty, Finset.empty_val]
  live_iff kind x := by
    rw [noObjects]
    cases x <;> exact iff_of_false (Finset.notMem_empty _) Bool.false_ne_true
  value_eq kind x value found := by
    cases x <;> cases found

/-- A step that keeps the objects outside some set leads to a represented store if it
does so for the objects in that set. -/
theorem Represents.of_keeps (implements : implementation.Implements meaning)
    (represents : implementation.Represents m store) (changed : Finset (Place Kind Name))
    (owned : m'.Owned implementation.placeBlocks)
    (keeps : Memory.Keeps implementation.placeBlocks changed m m')
    (others : ∀ kind x, ⟨kind, x⟩ ∉ changed → store'.get kind x = store.get kind x ∧
      (⟨kind, x⟩ ∈ m'.live → ⟨kind, x⟩ ∈ m.live))
    (live : ∀ kind x, ⟨kind, x⟩ ∈ changed →
      (⟨kind, x⟩ ∈ m'.live ↔ (store'.get kind x).isSome))
    (written : ∀ kind x value, ⟨kind, x⟩ ∈ changed → store'.get kind x = some value →
      implementation.stateValue m' kind x = value) :
    implementation.Represents m' store' where
  owned := owned
  live_iff kind x := by
    by_cases isChanged : ⟨kind, x⟩ ∈ changed
    · exact live kind x isChanged
    · rw [(others kind x isChanged).1, ← represents.live_iff]
      exact ⟨(others kind x isChanged).2, fun isLive => keeps.live _ isLive isChanged⟩
  value_eq kind x value found := by
    by_cases isChanged : ⟨kind, x⟩ ∈ changed
    · exact written kind x value isChanged found
    · rw [(others kind x isChanged).1] at found
      have isLive := represents.mem_live found
      rw [← represents.value_eq kind x value found, stateValue, stateValue,
        keeps.raw _ isLive isChanged]
      exact implements.value_local kind _ _ _ (keeps.content _ isLive isChanged)

/-! ### Steps -/

variable (implementation) [DecidableEq Kind] [DecidableEq Name]

/-- A step that releases blocks which are not live gives no memory. -/
def perform [DecidableEq Address] : Statement signature Name → implementation.State Name →
    Option (implementation.State Name)
  | .init kind x, m => some (m.enter ⟨kind, x⟩ (implementation.init kind))
  | .clear kind x, m => m.destroy implementation.placeBlocks ⟨kind, x⟩
  | @Statement.constant _ _ _ kind f target, m =>
      (implementation.constant f m.heap (m.raw ⟨kind, target⟩)).map (m.install ⟨kind, target⟩)
  | @Statement.unary _ _ _ kind kind₁ f target source, m =>
      (implementation.unary f m.heap (m.raw ⟨kind, target⟩) (m.raw ⟨kind₁, source⟩)).map
        (m.install ⟨kind, target⟩)
  | @Statement.binary _ _ _ kind kind₁ kind₂ f target left right, m =>
      (implementation.binary f m.heap (m.raw ⟨kind, target⟩) (m.raw ⟨kind₁, left⟩)
        (m.raw ⟨kind₂, right⟩)).map (m.install ⟨kind, target⟩)
  | @Statement.split _ _ _ kind kind' kind₁ f first second source, m =>
      (implementation.split f m.heap (m.raw ⟨kind, first⟩) (m.raw ⟨kind', second⟩)
        (m.raw ⟨kind₁, source⟩)).map fun result =>
          (m.install ⟨kind, first⟩ (result.1, result.2.1)).write ⟨kind', second⟩ result.2.2
  | .move kind target source, m =>
      some ((m.enter ⟨kind, target⟩ (m.raw ⟨kind, source⟩)).write ⟨kind, source⟩
        (implementation.init kind))
  | .swap kind left right, m =>
      some ((m.write ⟨kind, left⟩ (m.raw ⟨kind, right⟩)).write ⟨kind, right⟩ (m.raw ⟨kind, left⟩))

def performAll [DecidableEq Address] : List (Statement signature Name) → implementation.State Name →
    Option (implementation.State Name)
  | [], m => some m
  | statement :: statements, m => (implementation.perform statement m).bind (performAll statements)

section Simulation

variable {implementation} (implements : implementation.Implements meaning)
include implements

/-- A function writes one target. -/
theorem Represents.install (represents : implementation.Represents m store)
    (live : ⟨kind, x⟩ ∈ m.live)
    {result : Option (Heap Address Content × implementation.Raw kind)} {value : Value kind}
    (writes : implementation.Writes m.heap (m.raw ⟨kind, x⟩) result value) :
    ∃ m', result.map (m.install ⟨kind, x⟩) = some m' ∧
      implementation.Represents m' (store.set kind x (some value)) := by
  obtain ⟨heap', raw, rfl, replaces, valueEq⟩ := writes
  refine ⟨m.install ⟨kind, x⟩ (heap', raw), rfl, ?_⟩
  apply represents.of_keeps implements {⟨kind, x⟩}
  · exact represents.owned.install live replaces
  · exact represents.owned.keeps_install live replaces (Finset.mem_singleton_self _)
  · intro kind' y other
    rw [Finset.mem_singleton] at other
    exact ⟨Store.get_set_of_ne other, id⟩
  · intro kind' y same
    obtain ⟨rfl, rfl⟩ := Place.mk.inj (Finset.mem_singleton.mp same)
    rw [Store.get_set_self]
    exact iff_of_true live rfl
  · intro kind' y value' same found
    obtain ⟨rfl, rfl⟩ := Place.mk.inj (Finset.mem_singleton.mp same)
    rw [Store.get_set_self, Option.some.injEq] at found
    rw [← found, ← valueEq, stateValue, Memory.raw_install_self]
    rfl

theorem Represents.enter (represents : implementation.Represents m store)
    (fresh : ⟨kind, x⟩ ∉ m.live) :
    implementation.Represents (m.enter ⟨kind, x⟩ (implementation.init kind))
      (store.set kind x (some (meaning.zero kind))) := by
  apply represents.of_keeps implements {⟨kind, x⟩}
  · exact represents.owned.enter fresh (implements.blocks_init kind)
  · exact Memory.keeps_enter fresh
  · intro kind' y other
    rw [Finset.mem_singleton] at other
    exact ⟨Store.get_set_of_ne other, fun live => Finset.mem_of_mem_insert_of_ne live other⟩
  · intro kind' y same
    obtain ⟨rfl, rfl⟩ := Place.mk.inj (Finset.mem_singleton.mp same)
    rw [Store.get_set_self]
    exact iff_of_true (Finset.mem_insert_self _ _) rfl
  · intro kind' y value same found
    obtain ⟨rfl, rfl⟩ := Place.mk.inj (Finset.mem_singleton.mp same)
    rw [Store.get_set_self, Option.some.injEq] at found
    rw [← found, stateValue, Memory.raw_enter_self, implements.value_init]

theorem Represents.destroy [DecidableEq Address] (represents : implementation.Represents m store)
    (live : ⟨kind, x⟩ ∈ m.live) :
    ∃ m', m.destroy implementation.placeBlocks ⟨kind, x⟩ = some m' ∧
      implementation.Represents m' (store.set kind x none) := by
  obtain ⟨heap', destroys, replaces, owned⟩ := represents.owned.destroy live
  refine ⟨_, destroys, ?_⟩
  apply represents.of_keeps implements {⟨kind, x⟩}
  · exact owned
  · exact represents.owned.keeps_destroy live replaces (Finset.mem_singleton_self _)
  · intro kind' y other
    rw [Finset.mem_singleton] at other
    exact ⟨Store.get_set_of_ne other, fun live' => Finset.mem_of_mem_erase live'⟩
  · intro kind' y same
    obtain ⟨rfl, rfl⟩ := Place.mk.inj (Finset.mem_singleton.mp same)
    rw [Store.get_set_self]
    exact iff_of_false (Finset.notMem_erase _ _) Bool.false_ne_true
  · intro kind' y value same found
    obtain ⟨rfl, rfl⟩ := Place.mk.inj (Finset.mem_singleton.mp same)
    rw [Store.get_set_self] at found
    cases found

/-- Two objects change, to values that the store has for them afterwards. -/
private theorem Represents.of_keeps_pair (represents : implementation.Represents m store)
    {kind' : Kind} {y : Slot Name} {value : Value kind} {value' : Value kind'}
    (owned : m'.Owned implementation.placeBlocks)
    (keeps : Memory.Keeps implementation.placeBlocks {⟨kind, x⟩, ⟨kind', y⟩} m m')
    (live : ∀ place, place ∈ m'.live ↔ place ∈ m.live ∨ place = ⟨kind, x⟩ ∨ place = ⟨kind', y⟩)
    (first : implementation.stateValue m' kind x = value)
    (second : implementation.stateValue m' kind' y = value')
    (same : (⟨kind, x⟩ : Place Kind Name) = ⟨kind', y⟩ → HEq value value') :
    implementation.Represents m' ((store.set kind x (some value)).set kind' y (some value')) := by
  have get_first : ((store.set kind x (some value)).set kind' y (some value')).get kind x =
      some value := by
    by_cases samePlace : (⟨kind, x⟩ : Place Kind Name) = ⟨kind', y⟩
    · have values := same samePlace
      obtain ⟨rfl, rfl⟩ := Place.mk.inj samePlace
      rw [Store.get_set_self, eq_of_heq values]
    · rw [Store.get_set_of_ne samePlace, Store.get_set_self]
  apply represents.of_keeps implements _ owned keeps
  · intro kind'' z other
    rw [Finset.mem_insert, Finset.mem_singleton, not_or] at other
    refine ⟨by rw [Store.get_set_of_ne other.2, Store.get_set_of_ne other.1], ?_⟩
    intro isLive
    exact ((live _).mp isLive).resolve_right fun changed => changed.elim other.1 other.2
  · intro kind'' z isChanged
    rcases Finset.mem_insert.mp isChanged with isFirst | isSecond
    · obtain ⟨rfl, rfl⟩ := Place.mk.inj isFirst
      rw [get_first]
      exact iff_of_true ((live _).mpr (.inr (.inl rfl))) rfl
    · obtain ⟨rfl, rfl⟩ := Place.mk.inj (Finset.mem_singleton.mp isSecond)
      rw [Store.get_set_self]
      exact iff_of_true ((live _).mpr (.inr (.inr rfl))) rfl
  · intro kind'' z value'' isChanged found
    rcases Finset.mem_insert.mp isChanged with isFirst | isSecond
    · obtain ⟨rfl, rfl⟩ := Place.mk.inj isFirst
      rw [get_first, Option.some.injEq] at found
      exact first.trans found
    · obtain ⟨rfl, rfl⟩ := Place.mk.inj (Finset.mem_singleton.mp isSecond)
      rw [Store.get_set_self, Option.some.injEq] at found
      exact second.trans found

theorem Represents.move (represents : implementation.Represents m store) {y : Slot Name}
    (fresh : ⟨kind, x⟩ ∉ m.live) {value : Value kind} (found : store.get kind y = some value) :
    implementation.Represents
      ((m.enter ⟨kind, x⟩ (m.raw ⟨kind, y⟩)).write ⟨kind, y⟩ (implementation.init kind))
      ((store.set kind x (some value)).set kind y (some (meaning.zero kind))) := by
  have live := represents.mem_live found
  have different : (⟨kind, y⟩ : Place Kind Name) ≠ ⟨kind, x⟩ := fun same => fresh (same ▸ live)
  apply represents.of_keeps_pair implements
  · exact represents.owned.relocate fresh live rfl (implements.blocks_init kind)
  · exact (Memory.keeps_enter fresh).trans (Memory.keeps_write (by simp))
  · intro place
    change place ∈ insert _ m.live ↔ _
    rw [Finset.mem_insert]
    constructor
    · rintro (rfl | old)
      · exact .inr (.inl rfl)
      · exact .inl old
    · rintro (old | rfl | rfl)
      · exact .inr old
      · exact .inl rfl
      · exact .inr live
  · rw [stateValue, Memory.raw_write_of_ne different.symm, Memory.raw_enter_self]
    exact represents.value_eq kind y value found
  · rw [stateValue, Memory.raw_write_self, implements.value_init]
  · intro same
    exact (different same.symm).elim

theorem Represents.swap (represents : implementation.Represents m store) {y : Slot Name}
    {value value' : Value kind} (left : store.get kind x = some value)
    (right : store.get kind y = some value') :
    implementation.Represents
      ((m.write ⟨kind, x⟩ (m.raw ⟨kind, y⟩)).write ⟨kind, y⟩ (m.raw ⟨kind, x⟩))
      ((store.set kind x (some value')).set kind y (some value)) := by
  have leftLive := represents.mem_live left
  have rightLive := represents.mem_live right
  apply represents.of_keeps_pair implements
  · exact represents.owned.exchange leftLive rightLive rfl rfl
  · exact (Memory.keeps_write (by simp)).trans (Memory.keeps_write (by simp))
  · intro place
    change place ∈ m.live ↔ _
    constructor
    · exact .inl
    · rintro (old | rfl | rfl)
      · exact old
      · exact leftLive
      · exact rightLive
  · by_cases same : (⟨kind, x⟩ : Place Kind Name) = ⟨kind, y⟩
    · obtain ⟨_, rfl⟩ := Place.mk.inj same
      rw [stateValue, Memory.raw_write_self]
      exact represents.value_eq kind x value' right
    · rw [stateValue, Memory.raw_write_of_ne same, Memory.raw_write_self]
      exact represents.value_eq kind y value' right
  · rw [stateValue, Memory.raw_write_self]
    exact represents.value_eq kind x value left
  · intro same
    obtain ⟨_, rfl⟩ := Place.mk.inj same
    rw [left, Option.some.injEq] at right
    rw [right]

theorem Represents.split (represents : implementation.Represents m store) {kind' kind₁ : Kind}
    {y z : Slot Name} (f : signature.Split kind kind' kind₁) (xLive : ⟨kind, x⟩ ∈ m.live)
    (yLive : ⟨kind', y⟩ ∈ m.live) {value : Value kind₁} (found : store.get kind₁ z = some value)
    (xy : (⟨kind, x⟩ : Place Kind Name) ≠ ⟨kind', y⟩)
    (xz : (⟨kind, x⟩ : Place Kind Name) ≠ ⟨kind₁, z⟩)
    (yz : (⟨kind', y⟩ : Place Kind Name) ≠ ⟨kind₁, z⟩) :
    ∃ m', ((implementation.split f m.heap (m.raw ⟨kind, x⟩) (m.raw ⟨kind', y⟩)
        (m.raw ⟨kind₁, z⟩)).map fun result =>
          (m.install ⟨kind, x⟩ (result.1, result.2.1)).write ⟨kind', y⟩ result.2.2) = some m' ∧
      implementation.Represents m' ((store.set kind x (some (meaning.split f value).1)).set kind' y
        (some (meaning.split f value).2)) := by
  have accessible := represents.owned.blocks_add_add_le xLive yLive (represents.mem_live found)
    xy xz yz
  obtain ⟨heap', raw, raw', splits, replaces, first, second⟩ :=
    implements.split_writes f m.heap _ _ _ accessible
  have sourceEq : implementation.value kind₁ m.heap (m.raw ⟨kind₁, z⟩) = value :=
    represents.value_eq kind₁ z value found
  rw [sourceEq] at first second
  refine ⟨(m.install ⟨kind, x⟩ (heap', raw)).write ⟨kind', y⟩ raw', ?_, ?_⟩
  · rw [splits]
    rfl
  · apply represents.of_keeps_pair implements
    · exact represents.owned.install_pair xLive yLive xy replaces
    · exact represents.owned.keeps_install_pair xLive yLive replaces
    · intro place
      change place ∈ m.live ↔ _
      constructor
      · exact .inl
      · rintro (old | rfl | rfl)
        · exact old
        · exact xLive
        · exact yLive
    · rw [stateValue, Memory.raw_write_of_ne xy, Memory.raw_install_self]
      exact first
    · rw [stateValue, Memory.raw_write_self]
      exact second
    · intro same
      exact (xy same).elim

variable [DecidableEq Address]

/-- A statement that is allowed on a store performs on the memories that represent it. -/
theorem Represents.perform (represents : implementation.Represents m store)
    {statement : Statement signature Name} (allowed : statement.Allowed store) :
    ∃ m', implementation.perform statement m = some m' ∧
      implementation.Represents m' (statement.apply meaning store) := by
  cases statement with
  | init kind x => exact ⟨_, rfl, represents.enter implements (represents.notMem_live allowed)⟩
  | clear kind x =>
      obtain ⟨value, found⟩ := Option.isSome_iff_exists.mp allowed
      exact represents.destroy implements (represents.mem_live found)
  | constant f target =>
      obtain ⟨value, found⟩ := Option.isSome_iff_exists.mp allowed
      have live := represents.mem_live found
      exact represents.install implements live
        (implements.constant_writes f _ _ (represents.owned.blocks_le live))
  | @unary kind kind₁ f target source =>
      obtain ⟨old, targetFound⟩ := Option.isSome_iff_exists.mp allowed.1
      obtain ⟨value, found⟩ := Option.isSome_iff_exists.mp allowed.2
      have live := represents.mem_live targetFound
      have sourceLive := represents.mem_live found
      have sourceEq := represents.value_eq kind₁ source value found
      subst sourceEq
      rw [Statement.apply, found, Option.map_some]
      by_cases same : (⟨kind, target⟩ : Place Kind Name) = ⟨kind₁, source⟩
      · obtain ⟨rfl, rfl⟩ := Place.mk.inj same
        exact represents.install implements live
          (implements.unary_inPlace f _ _ (represents.owned.blocks_le live))
      · exact represents.install implements live (implements.unary_writes f _ _ _
          (represents.owned.blocks_add_le live sourceLive same))
  | @binary kind kind₁ kind₂ f target left right =>
      obtain ⟨⟨targetLive, leftLive, rightLive⟩, notLeft, notRight⟩ := allowed
      obtain ⟨old, targetFound⟩ := Option.isSome_iff_exists.mp targetLive
      obtain ⟨leftValue, leftFound⟩ := Option.isSome_iff_exists.mp leftLive
      obtain ⟨rightValue, rightFound⟩ := Option.isSome_iff_exists.mp rightLive
      have live := represents.mem_live targetFound
      have leftEq := represents.value_eq kind₁ left leftValue leftFound
      have rightEq := represents.value_eq kind₂ right rightValue rightFound
      subst leftEq rightEq
      rw [Statement.apply, leftFound, rightFound, Option.map₂_some_some]
      exact represents.install implements live (implements.binary_writes f _ _ _ _
        (represents.owned.blocks_add_le live (represents.mem_live leftFound) notLeft)
        (represents.owned.blocks_add_le live (represents.mem_live rightFound) notRight))
  | split f first second source =>
      obtain ⟨⟨firstLive, secondLive, sourceLive⟩, apart, firstApart, secondApart⟩ := allowed
      obtain ⟨firstValue, firstFound⟩ := Option.isSome_iff_exists.mp firstLive
      obtain ⟨secondValue, secondFound⟩ := Option.isSome_iff_exists.mp secondLive
      obtain ⟨value, found⟩ := Option.isSome_iff_exists.mp sourceLive
      rw [Statement.apply, found, Option.map_some, Option.map_some]
      exact represents.split implements f (represents.mem_live firstFound)
        (represents.mem_live secondFound) found apart firstApart secondApart
  | move kind target source =>
      obtain ⟨value, found⟩ := Option.isSome_iff_exists.mp allowed.2
      rw [Statement.apply, found]
      exact ⟨_, rfl, represents.move implements (represents.notMem_live allowed.1) found⟩
  | swap kind left right =>
      obtain ⟨value, leftFound⟩ := Option.isSome_iff_exists.mp allowed.1
      obtain ⟨value', rightFound⟩ := Option.isSome_iff_exists.mp allowed.2
      rw [Statement.apply, leftFound, rightFound]
      exact ⟨_, rfl, represents.swap implements leftFound rightFound⟩

/-- A program that is allowed on a store performs on the memories that represent it. -/
theorem Represents.performAll (represents : implementation.Represents m store)
    {statements : List (Statement signature Name)}
    (allowed : Statement.AllowedAll meaning statements store) :
    ∃ m', implementation.performAll statements m = some m' ∧
      implementation.Represents m' (Statement.applyAll meaning statements store) := by
  induction statements generalizing m store with
  | nil => exact ⟨m, rfl, represents⟩
  | cons statement statements induction =>
      obtain ⟨middle, performs, middleRepresents⟩ := represents.perform implements allowed.1
      obtain ⟨m', performsRest, represents'⟩ := induction middleRepresents allowed.2
      refine ⟨m', ?_, represents'⟩
      rw [Implementation.performAll, performs, Option.bind_some, performsRest]

end Simulation

end Implementation

end OwnedHeap
