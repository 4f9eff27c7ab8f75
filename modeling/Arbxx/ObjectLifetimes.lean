import Arbxx.ObjectLibrary

/-!
# Lifetimes of `Arf` and `Arb` objects

Construction, assignment, exchange and destruction of any number of objects over
one heap.  Every statement of the source that works on a raw structure is a step on
the heap and the structures of all objects; a step that releases a block which is
not live gives no state.
-/

namespace Arbxx

open OwnedHeap

/-- An object of a class, by the name of its storage. -/
structure Object (Name : Type) where
  cls : Class
  name : Name
  deriving DecidableEq

theorem Object.ne_of_name {Name : Type} {cls : Class} {left right : Name}
    (different : left ≠ right) : (⟨cls, left⟩ : Object Name) ≠ ⟨cls, right⟩ := by
  intro same
  exact different (congrArg Object.name same)

/-- The heap, the live objects and the raw structure in the storage of each object. -/
abbrev State {Address Content : Type}
    (library : ∀ cls : Class, ObjectLibrary Address Content cls.Value) (Name : Type) : Type :=
  Memory Address Content fun object : Object Name => (library object.cls).Raw

namespace State

variable {Address Content Name : Type}
  {library : ∀ cls : Class, ObjectLibrary Address Content cls.Value}

/-- The blocks an object with some structure refers to. -/
def blocks (library : ∀ cls : Class, ObjectLibrary Address Content cls.Value)
    (object : Object Name) (raw : (library object.cls).Raw) : Multiset Address :=
  (library object.cls).blocks raw

/-- The value that an object holds. -/
def value (state : State library Name) (cls : Class) (name : Name) : cls.Value :=
  (library cls).value state.heap (state.raw ⟨cls, name⟩)

/-- The values that the live objects hold. -/
def values (state : State library Name) : Multiset (Σ cls : Class, cls.Value) :=
  state.total fun object raw => {⟨object.cls, (library object.cls).value state.heap raw⟩}

variable {state after : State library Name} {cls : Class} {target source : Name}
  {live changed : Finset (Object Name)}

/-- The live objects own the blocks, and objects outside `changed` are kept. -/
structure Continues (live changed : Finset (Object Name)) (before after : State library Name) :
    Prop where
  owned : after.Owned (blocks library)
  live : after.live = live
  keeps : Memory.Keeps (blocks library) changed before after

theorem Continues.trans {live' : Finset (Object Name)} {middle : State library Name}
    (first : Continues live changed state middle) (second : Continues live' changed middle after) :
    Continues live' changed state after :=
  ⟨second.owned, second.live, first.keeps.trans second.keeps⟩

theorem Continues.value_eq
    (manages : ∀ cls, (library cls).ManagesObjects cls.zero cls.neg cls.ofInteger)
    (continues : Continues live changed state after) {name : Name}
    (isLive : ⟨cls, name⟩ ∈ state.live) (other : ⟨cls, name⟩ ∉ changed) :
    after.value cls name = state.value cls name := by
  rw [value, continues.keeps.raw _ isLive other]
  exact (manages cls).value_local _ _ _ (continues.keeps.content _ isLive other)

/-! ### Statements on raw structures -/

variable [DecidableEq Name]

/-- `arf_init(target)` or `arb_init(target)`, in the storage of a new object. -/
def init (cls : Class) (target : Name) (state : State library Name) : State library Name :=
  state.enter ⟨cls, target⟩ (library cls).init

/-- `arf_set(target, source)` and functions with the same arguments. -/
def call (cls : Class)
    (function : Heap Address Content → (library cls).Raw → (library cls).Raw →
      Option (Heap Address Content × (library cls).Raw))
    (target source : Name) (state : State library Name) : Option (State library Name) :=
  (function state.heap (state.raw ⟨cls, target⟩) (state.raw ⟨cls, source⟩)).map
    (state.install ⟨cls, target⟩)

/-! ### Functions of the classes

Both classes do the same, apart from how a new object is made from one that is
moved from. -/

/-- `Arf()` and `Arb()`. -/
def defaultConstruct (cls : Class) (target : Name) (state : State library Name) :
    Option (State library Name) :=
  some (init cls target state)

/-- `Arf(const Arf&)` and `Arb(const Arb&)`. -/
def copyConstruct (cls : Class) (target source : Name) (state : State library Name) :
    Option (State library Name) :=
  call cls (library cls).set target source (init cls target state)

/-- `operator=(const Arf&)` and `operator=(const Arb&)`. -/
def copyAssign (cls : Class) (target source : Name) (state : State library Name) :
    Option (State library Name) :=
  call cls (library cls).set target source state

/-- `swap(Arf&, Arf&)` and `swap(Arb&, Arb&)`. -/
def swap (cls : Class) (left right : Name) (state : State library Name) :
    Option (State library Name) :=
  let exchanged := (library cls).swap (state.raw ⟨cls, left⟩) (state.raw ⟨cls, right⟩)
  some ((state.write ⟨cls, left⟩ exchanged.1).write ⟨cls, right⟩ exchanged.2)

/-- `operator=(Arf&&)` and `operator=(Arb&&)`. -/
def moveAssign (cls : Class) (target source : Name) (state : State library Name) :
    Option (State library Name) :=
  swap cls target source state

/-- `Arf(Arf&&)` delegates to `Arf()` and the move assignment; `Arb(Arb&&)` copies
the structure bit by bit and initializes that of its argument again. -/
def moveConstruct (cls : Class) (target source : Name) (state : State library Name) :
    Option (State library Name) :=
  match cls with
  | .arf => moveAssign .arf target source (init .arf target state)
  | .arb =>
      -- Between the two writes both structures refer to the same blocks.
      let copied := state.enter ⟨.arb, target⟩ (state.raw ⟨.arb, source⟩)
      some (copied.write ⟨.arb, source⟩ (library .arb).init)

/-- `operator-() const`, with the object that is returned as target. -/
def negate (cls : Class) (target source : Name) (state : State library Name) :
    Option (State library Name) :=
  call cls (library cls).neg target source (init cls target state)

/-- `operator=(const mpz_class&)`. -/
def assignInteger (cls : Class) (target : Name) (n : ℤ) (state : State library Name) :
    Option (State library Name) :=
  ((library cls).setFmpz state.heap (state.raw ⟨cls, target⟩) n).map
    (state.install ⟨cls, target⟩)

/-- `~Arf()` and `~Arb()`. -/
def destruct [DecidableEq Address] (cls : Class) (target : Name) (state : State library Name) :
    Option (State library Name) :=
  state.destroy (blocks library) ⟨cls, target⟩

/-! ### What one statement does -/

theorem accessible (owned : state.Owned (blocks library)) (targetLive : ⟨cls, target⟩ ∈ state.live)
    (sourceLive : ⟨cls, source⟩ ∈ state.live) :
    (library cls).Accessible state.heap (state.raw ⟨cls, target⟩) (state.raw ⟨cls, source⟩) := by
  by_cases same : target = source
  · subst same
    exact .inl ⟨rfl, owned.blocks_le targetLive⟩
  · exact .inr (owned.blocks_add_le targetLive sourceLive (Object.ne_of_name same))

/-- A function of the library writes to one live object. -/
theorem install_spec (owned : state.Owned (blocks library)) (isLive : ⟨cls, target⟩ ∈ state.live)
    {result : Option (Heap Address Content × (library cls).Raw)} {v : cls.Value}
    (writes : (library cls).Writes state.heap (state.raw ⟨cls, target⟩) result v)
    (isChanged : ⟨cls, target⟩ ∈ changed) :
    ∃ after : State library Name, result.map (state.install ⟨cls, target⟩) = some after ∧
      Continues state.live changed state after ∧ after.value cls target = v := by
  obtain ⟨heap', raw, isSome, replaces, isValue⟩ := writes
  refine ⟨state.install ⟨cls, target⟩ (heap', raw), by rw [isSome, Option.map_some], ?_, ?_⟩
  · exact ⟨owned.install isLive replaces, rfl, owned.keeps_install isLive replaces isChanged⟩
  · rw [value, Memory.raw_install_self]
    exact isValue

/-- A function of the library reads one live object and writes to one, possibly the same. -/
theorem call_spec
    {function : Heap Address Content → (library cls).Raw → (library cls).Raw →
      Option (Heap Address Content × (library cls).Raw)} {g : cls.Value → cls.Value}
    (writes : (library cls).WritesFrom function g) (owned : state.Owned (blocks library))
    (targetLive : ⟨cls, target⟩ ∈ state.live) (sourceLive : ⟨cls, source⟩ ∈ state.live)
    (isChanged : ⟨cls, target⟩ ∈ changed) :
    ∃ after : State library Name, call cls function target source state = some after ∧
      Continues state.live changed state after ∧
      after.value cls target = g (state.value cls source) :=
  install_spec owned targetLive (writes _ _ _ (accessible owned targetLive sourceLive)) isChanged

theorem destruct_spec [DecidableEq Address] (owned : state.Owned (blocks library))
    (isLive : ⟨cls, target⟩ ∈ state.live) (isChanged : ⟨cls, target⟩ ∈ changed) :
    ∃ after : State library Name, destruct cls target state = some after ∧
      Continues (state.live.erase ⟨cls, target⟩) changed state after := by
  obtain ⟨heap', destroys, replaces, owned'⟩ := owned.destroy isLive
  exact ⟨_, destroys, owned', rfl, owned.keeps_destroy isLive replaces isChanged⟩

section Constructions

variable (manages : ∀ cls, (library cls).ManagesObjects cls.zero cls.neg cls.ofInteger)
include manages

theorem init_spec (changed : Finset (Object Name)) (owned : state.Owned (blocks library))
    (fresh : ⟨cls, target⟩ ∉ state.live) :
    Continues (insert ⟨cls, target⟩ state.live) changed state (init cls target state) ∧
      (init cls target state).value cls target = cls.zero ∧
      (init cls target state).values = state.values + {⟨cls, cls.zero⟩} := by
  refine ⟨⟨owned.enter fresh (manages cls).blocks_init, rfl, Memory.keeps_enter fresh⟩, ?_, ?_⟩
  · rw [value, init, Memory.raw_enter_self]
    exact (manages cls).value_init _
  · rw [← (manages cls).value_init state.heap]
    exact Memory.total_enter fresh

/-- A new object is initialized and then written to by a function that reads another. -/
theorem construct_spec
    {function : Heap Address Content → (library cls).Raw → (library cls).Raw →
      Option (Heap Address Content × (library cls).Raw)} {g : cls.Value → cls.Value}
    (writes : (library cls).WritesFrom function g) (owned : state.Owned (blocks library))
    (fresh : ⟨cls, target⟩ ∉ state.live) (sourceLive : ⟨cls, source⟩ ∈ state.live) :
    ∃ after : State library Name,
      call cls function target source (init cls target state) = some after ∧
      Continues (insert ⟨cls, target⟩ state.live) {⟨cls, target⟩} state after ∧
      after.value cls target = g (state.value cls source) ∧
      after.value cls source = state.value cls source := by
  have other : (⟨cls, source⟩ : Object Name) ∉ ({⟨cls, target⟩} : Finset (Object Name)) := by
    intro member
    rw [Finset.mem_singleton] at member
    exact fresh (member ▸ sourceLive)
  obtain ⟨inits, _, _⟩ := init_spec manages {⟨cls, target⟩} owned fresh
  obtain ⟨after, calls, continues, isValue⟩ := call_spec writes inits.owned
    (Finset.mem_insert_self _ _) (Finset.mem_insert_of_mem sourceLive)
    (Finset.mem_singleton_self _)
  rw [inits.value_eq manages sourceLive other] at isValue
  have both := inits.trans continues
  exact ⟨after, calls, both, isValue, both.value_eq manages sourceLive other⟩

/-- Two live objects, possibly the same, trade their values. -/
theorem swap_spec (owned : state.Owned (blocks library))
    (targetLive : ⟨cls, target⟩ ∈ state.live) (sourceLive : ⟨cls, source⟩ ∈ state.live) :
    ∃ after : State library Name, swap cls target source state = some after ∧
      Continues state.live {⟨cls, target⟩, ⟨cls, source⟩} state after ∧
      after.value cls target = state.value cls source ∧
      after.value cls source = state.value cls target ∧ after.values = state.values := by
  let taken : State library Name := state.write ⟨cls, target⟩ (state.raw ⟨cls, source⟩)
  refine ⟨taken.write ⟨cls, source⟩ (state.raw ⟨cls, target⟩), ?_, ?_, ?_, ?_, ?_⟩
  · rw [swap, (manages cls).swap_eq]
  · refine ⟨owned.exchange targetLive sourceLive rfl rfl, rfl, ?_⟩
    have left : Memory.Keeps (blocks library) {⟨cls, target⟩, ⟨cls, source⟩} state taken :=
      Memory.keeps_write (Finset.mem_insert_self _ _)
    apply left.trans
    apply Memory.keeps_write
    exact Finset.mem_insert_of_mem (Finset.mem_singleton_self _)
  · rw [value, value]
    by_cases same : target = source
    · subst same
      rw [Memory.raw_write_self]
      rfl
    · rw [Memory.raw_write_of_ne (Object.ne_of_name same), Memory.raw_write_self]
      rfl
  · rw [value, Memory.raw_write_self]
    rfl
  · exact Memory.total_exchange targetLive sourceLive rfl rfl

/-- A new object has taken over the value of a live one, and one zero is added. -/
structure Takes (cls : Class) (target source : Name) (before after : State library Name) :
    Prop where
  continues : Continues (insert ⟨cls, target⟩ before.live) {⟨cls, target⟩, ⟨cls, source⟩}
    before after
  taken : after.value cls target = before.value cls source
  left : after.value cls source = cls.zero
  values : after.values = before.values + {⟨cls, cls.zero⟩}

theorem takes_of_swap (owned : state.Owned (blocks library))
    (fresh : ⟨cls, target⟩ ∉ state.live) (sourceLive : ⟨cls, source⟩ ∈ state.live) :
    ∃ after : State library Name, swap cls target source (init cls target state) = some after ∧
      Takes cls target source state after := by
  have different : source ≠ target := by
    intro same
    exact fresh (same ▸ sourceLive)
  have kept : (init cls target state).value cls source = state.value cls source := by
    rw [value, init, Memory.raw_enter_of_ne (Object.ne_of_name different)]
    rfl
  obtain ⟨inits, isZero, values⟩ :=
    init_spec manages {⟨cls, target⟩, ⟨cls, source⟩} owned fresh
  obtain ⟨after, swaps, continues, taken, left, permuted⟩ := swap_spec manages inits.owned
    (Finset.mem_insert_self _ _) (Finset.mem_insert_of_mem sourceLive)
  exact ⟨after, swaps, inits.trans continues, taken.trans kept, left.trans isZero,
    permuted.trans values⟩

/-- The structure is copied bit by bit, and the source is initialized next. -/
theorem takes_of_copy (owned : state.Owned (blocks library))
    (fresh : ⟨cls, target⟩ ∉ state.live) (sourceLive : ⟨cls, source⟩ ∈ state.live) :
    Takes cls target source state ((state.enter ⟨cls, target⟩ (state.raw ⟨cls, source⟩)).write
      ⟨cls, source⟩ (library cls).init) := by
  have different : target ≠ source := by
    intro same
    exact fresh (same ▸ sourceLive)
  refine ⟨⟨?_, rfl, ?_⟩, ?_, ?_, ?_⟩
  · exact owned.relocate fresh sourceLive rfl (manages cls).blocks_init
  · apply (Memory.keeps_enter fresh).trans
    apply Memory.keeps_write
    exact Finset.mem_insert_of_mem (Finset.mem_singleton_self _)
  · rw [value, Memory.raw_write_of_ne (Object.ne_of_name different), Memory.raw_enter_self]
    rfl
  · rw [value, Memory.raw_write_self]
    exact (manages cls).value_init _
  · rw [← (manages cls).value_init state.heap]
    exact Memory.total_relocate fresh sourceLive rfl

/-- Both ways to make a new object from one that is moved from come to the same. -/
theorem moveConstruct_spec (owned : state.Owned (blocks library))
    (fresh : ⟨cls, target⟩ ∉ state.live) (sourceLive : ⟨cls, source⟩ ∈ state.live) :
    ∃ after : State library Name, moveConstruct cls target source state = some after ∧
      Takes cls target source state after := by
  cases cls with
  | arf => exact takes_of_swap manages owned fresh sourceLive
  | arb => exact ⟨_, rfl, takes_of_copy manages owned fresh sourceLive⟩

end Constructions

end State

/-! ### Runs -/

/-- What a program does next, with the names of the objects it works on. -/
inductive Operation (Name : Type)
  | defaultConstruct (cls : Class) (target : Name)
  | copyConstruct (cls : Class) (target source : Name)
  | moveConstruct (cls : Class) (target source : Name)
  | copyAssign (cls : Class) (target source : Name)
  | moveAssign (cls : Class) (target source : Name)
  | swap (cls : Class) (left right : Name)
  | negate (cls : Class) (target source : Name)
  | assignInteger (cls : Class) (target : Name) (n : ℤ)
  | destruct (cls : Class) (target : Name)

namespace Operation

variable {Name : Type}

/-- New objects are made in unused storage, and other operands are live. -/
def Legal (live : Finset (Object Name)) : Operation Name → Prop
  | .defaultConstruct cls target => ⟨cls, target⟩ ∉ live
  | .copyConstruct cls target source | .moveConstruct cls target source
  | .negate cls target source => ⟨cls, target⟩ ∉ live ∧ ⟨cls, source⟩ ∈ live
  | .copyAssign cls target source | .moveAssign cls target source
  | .swap cls target source => ⟨cls, target⟩ ∈ live ∧ ⟨cls, source⟩ ∈ live
  | .assignInteger cls target _ | .destruct cls target => ⟨cls, target⟩ ∈ live

/-- Only moves and swaps rearrange values without making new ones. -/
def IsMove : Operation Name → Prop
  | .moveConstruct _ _ _ | .moveAssign _ _ _ | .swap _ _ _ => True
  | _ => False

/-- The zero that a move construction adds to the values of the live objects. -/
def addedZero : Operation Name → Multiset (Σ cls : Class, cls.Value)
  | .moveConstruct cls _ _ => {⟨cls, cls.zero⟩}
  | _ => 0

variable [DecidableEq Name]

/-- The live objects afterwards. -/
def scope (live : Finset (Object Name)) : Operation Name → Finset (Object Name)
  | .defaultConstruct cls target | .copyConstruct cls target _ | .moveConstruct cls target _
  | .negate cls target _ => insert ⟨cls, target⟩ live
  | .destruct cls target => live.erase ⟨cls, target⟩
  | _ => live

/-- The objects that may change. -/
def changed : Operation Name → Finset (Object Name)
  | .moveConstruct cls target source | .moveAssign cls target source
  | .swap cls target source => {⟨cls, target⟩, ⟨cls, source⟩}
  | .defaultConstruct cls target | .copyConstruct cls target _ | .copyAssign cls target _
  | .negate cls target _ | .assignInteger cls target _ | .destruct cls target => {⟨cls, target⟩}

instance (live : Finset (Object Name)) : DecidablePred (Legal live)
  | .defaultConstruct _ _ => inferInstanceAs (Decidable (_ ∉ live))
  | .copyConstruct _ _ _ | .moveConstruct _ _ _ | .negate _ _ _ =>
      inferInstanceAs (Decidable (_ ∉ live ∧ _ ∈ live))
  | .copyAssign _ _ _ | .moveAssign _ _ _ | .swap _ _ _ =>
      inferInstanceAs (Decidable (_ ∈ live ∧ _ ∈ live))
  | .assignInteger _ _ _ | .destruct _ _ => inferInstanceAs (Decidable (_ ∈ live))

/-- A sequence of operations each of which is legal in its place. -/
def LegalRun (live : Finset (Object Name)) : List (Operation Name) → Prop
  | [] => True
  | operation :: operations => operation.Legal live ∧ LegalRun (operation.scope live) operations

instance decidableLegalRun : ∀ (live : Finset (Object Name)) (operations : List (Operation Name)),
    Decidable (LegalRun live operations)
  | _, [] => inferInstanceAs (Decidable True)
  | live, operation :: operations =>
      have := decidableLegalRun (operation.scope live) operations
      inferInstanceAs (Decidable (operation.Legal live ∧ _))

end Operation

namespace State

variable {Address Content Name : Type} [DecidableEq Name]
  {library : ∀ cls : Class, ObjectLibrary Address Content cls.Value}

/-- What happens to the values of the operands: copies leave their source as it was,
moves and swaps rearrange the values of all objects. -/
def Effect : Operation Name → State library Name → State library Name → Prop
  | .defaultConstruct cls target, _, after => after.value cls target = cls.zero
  | .copyConstruct cls target source, before, after
  | .copyAssign cls target source, before, after =>
      after.value cls target = before.value cls source ∧
        after.value cls source = before.value cls source
  | .moveConstruct cls target source, before, after =>
      after.value cls target = before.value cls source ∧ after.value cls source = cls.zero ∧
        after.values = before.values + {⟨cls, cls.zero⟩}
  | .moveAssign cls target source, before, after
  | .swap cls target source, before, after =>
      after.value cls target = before.value cls source ∧
        after.value cls source = before.value cls target ∧ after.values = before.values
  | .negate cls target source, before, after =>
      after.value cls target = cls.neg (before.value cls source) ∧
        after.value cls source = before.value cls source
  | .assignInteger cls target n, _, after => after.value cls target = cls.ofInteger n
  | .destruct _ _, _, _ => True

/-- The operands change as they should, and no other object does. -/
structure Outcome (operation : Operation Name) (before after : State library Name) : Prop where
  live : after.live = operation.scope before.live
  raw : ∀ object ∈ before.live, object ∉ operation.changed → after.raw object = before.raw object
  value : ∀ cls name, ⟨cls, name⟩ ∈ before.live → ⟨cls, name⟩ ∉ operation.changed →
    after.value cls name = before.value cls name
  effect : Effect operation before after

variable {state after : State library Name} {operation : Operation Name}

theorem values_of_isMove (outcome : Outcome operation state after) (isMove : operation.IsMove) :
    after.values = state.values + operation.addedZero := by
  have effect := outcome.effect
  cases operation with
  | moveConstruct cls target source => exact effect.2.2
  | moveAssign cls target source =>
      change after.values = state.values + 0
      rw [add_zero]
      exact effect.2.2
  | swap cls left right =>
      change after.values = state.values + 0
      rw [add_zero]
      exact effect.2.2
  | _ => exact isMove.elim

variable [DecidableEq Address]

def step : Operation Name → State library Name → Option (State library Name)
  | .defaultConstruct cls target => defaultConstruct cls target
  | .copyConstruct cls target source => copyConstruct cls target source
  | .moveConstruct cls target source => moveConstruct cls target source
  | .copyAssign cls target source => copyAssign cls target source
  | .moveAssign cls target source => moveAssign cls target source
  | .swap cls left right => swap cls left right
  | .negate cls target source => negate cls target source
  | .assignInteger cls target n => assignInteger cls target n
  | .destruct cls target => destruct cls target

def run : List (Operation Name) → State library Name → Option (State library Name)
  | [], state => some state
  | operation :: operations, state => (step operation state).bind (run operations)

section Conservation

variable (manages : ∀ cls, (library cls).ManagesObjects cls.zero cls.neg cls.ofInteger)
include manages

/-- A legal operation does not fault, keeps ownership and does what it should. -/
theorem step_spec (owned : state.Owned (blocks library)) (legal : operation.Legal state.live) :
    ∃ after, step operation state = some after ∧ after.Owned (blocks library) ∧
      Outcome operation state after := by
  have reached {after : State library Name}
      (continues : Continues (operation.scope state.live) operation.changed state after)
      (effect : Effect operation state after) :
      after.Owned (blocks library) ∧ Outcome operation state after :=
    ⟨continues.owned, continues.live, continues.keeps.raw,
      fun _ _ isLive other => continues.value_eq manages isLive other, effect⟩
  cases operation with
  | defaultConstruct cls target =>
      obtain ⟨continues, isZero, _⟩ := init_spec manages _ owned legal
      exact ⟨_, rfl, reached continues isZero⟩
  | copyConstruct cls target source =>
      obtain ⟨fresh, sourceLive⟩ := legal
      obtain ⟨after, steps, continues, effect⟩ :=
        construct_spec manages (manages cls).set_writes owned fresh sourceLive
      exact ⟨after, steps, reached continues effect⟩
  | moveConstruct cls target source =>
      obtain ⟨after, steps, takes⟩ := moveConstruct_spec manages owned legal.1 legal.2
      exact ⟨after, steps, reached takes.continues ⟨takes.taken, takes.left, takes.values⟩⟩
  | copyAssign cls target source =>
      obtain ⟨targetLive, sourceLive⟩ := legal
      obtain ⟨after, steps, continues, isValue⟩ :=
        call_spec (manages cls).set_writes owned targetLive sourceLive
          (Finset.mem_singleton_self _)
      refine ⟨after, steps, reached continues ⟨isValue, ?_⟩⟩
      by_cases same : source = target
      · subst same
        exact isValue
      · apply continues.value_eq manages sourceLive
        rw [Finset.mem_singleton]
        exact Object.ne_of_name same
  | moveAssign cls target source =>
      obtain ⟨after, steps, continues, effect⟩ := swap_spec manages owned legal.1 legal.2
      exact ⟨after, steps, reached continues effect⟩
  | swap cls left right =>
      obtain ⟨after, steps, continues, effect⟩ := swap_spec manages owned legal.1 legal.2
      exact ⟨after, steps, reached continues effect⟩
  | negate cls target source =>
      obtain ⟨fresh, sourceLive⟩ := legal
      obtain ⟨after, steps, continues, effect⟩ :=
        construct_spec manages (manages cls).neg_writes owned fresh sourceLive
      exact ⟨after, steps, reached continues effect⟩
  | assignInteger cls target n =>
      obtain ⟨after, steps, continues, isValue⟩ := install_spec owned legal
        ((manages cls).setFmpz_writes _ _ n (owned.blocks_le legal)) (Finset.mem_singleton_self _)
      exact ⟨after, steps, reached continues isValue⟩
  | destruct cls target =>
      obtain ⟨after, steps, continues⟩ :=
        destruct_spec owned legal (Finset.mem_singleton_self _)
      exact ⟨after, steps, reached continues trivial⟩

/-- A run of legal operations does not fault, keeps ownership and makes the objects
live that it should. -/
theorem run_spec (owned : state.Owned (blocks library)) {operations : List (Operation Name)}
    (legal : Operation.LegalRun state.live operations) :
    ∃ after, run operations state = some after ∧ after.Owned (blocks library) ∧
      after.live = operations.foldl Operation.scope state.live := by
  induction operations generalizing state with
  | nil => exact ⟨state, rfl, owned, rfl⟩
  | cons operation operations induction =>
      obtain ⟨first, rest⟩ := legal
      obtain ⟨middle, steps, middleOwned, outcome⟩ := step_spec manages owned first
      rw [← outcome.live] at rest
      obtain ⟨after, runs, afterOwned, live⟩ := induction middleOwned rest
      refine ⟨after, ?_, afterOwned, ?_⟩
      · rw [run, steps, Option.bind_some, runs]
      · rw [live, outcome.live, List.foldl_cons]

/-- A run of moves and swaps adds one zero for each move construction to the values. -/
theorem run_moves_spec (owned : state.Owned (blocks library)) {operations : List (Operation Name)}
    (legal : Operation.LegalRun state.live operations)
    (moves : ∀ operation ∈ operations, operation.IsMove) :
    ∃ after, run operations state = some after ∧
      after.values = state.values + (operations.map Operation.addedZero).sum := by
  induction operations generalizing state with
  | nil => exact ⟨state, rfl, (add_zero _).symm⟩
  | cons operation operations induction =>
      obtain ⟨first, rest⟩ := legal
      obtain ⟨middle, steps, middleOwned, outcome⟩ := step_spec manages owned first
      have values := values_of_isMove outcome (moves operation List.mem_cons_self)
      rw [← outcome.live] at rest
      obtain ⟨after, runs, afterValues⟩ := induction middleOwned rest fun operation member =>
        moves operation (List.mem_cons_of_mem _ member)
      refine ⟨after, ?_, ?_⟩
      · rw [run, steps, Option.bind_some, runs]
      · rw [afterValues, values, List.map_cons, List.sum_cons, add_assoc]

/-- Every live block has one owner, objects refer to live blocks only and to none
twice, and without objects no block is left. -/
structure Accounted (state : State library Name) : Prop where
  owner : ∀ block ∈ state.heap.live,
    ∃! object, object ∈ state.live ∧ block ∈ blocks library object (state.raw object)
  referenced : ∀ object ∈ state.live, blocks library object (state.raw object) ≤
    state.heap.live.val
  nothing_left : state.live = ∅ → state.heap.live = ∅

/-- Whatever a program does with any number of objects, starting from none, no block
is released twice, every block has one owner, and each next operation copies or
moves values as it should, without a change to other objects. -/
theorem ownership_conserved {start : State library Name} (noObjects : start.live = ∅)
    (noBlocks : start.heap.live = ∅) {operations : List (Operation Name)}
    (legal : Operation.LegalRun ∅ operations) :
    ∃ state, run operations start = some state ∧
      state.live = operations.foldl Operation.scope ∅ ∧ state.Accounted ∧
      (∀ operation, operation.Legal state.live →
        ∃ after, step operation state = some after ∧ Outcome operation state after) ∧
      ∀ moves, Operation.LegalRun state.live moves → (∀ move ∈ moves, move.IsMove) →
        ∃ after, run moves state = some after ∧
          after.values = state.values + (moves.map Operation.addedZero).sum := by
  have startOwned : start.Owned (blocks library) := by
    rw [Memory.Owned, Memory.total, noObjects, noBlocks, Finset.sum_empty, Finset.empty_val]
  rw [← noObjects] at legal
  obtain ⟨state, runs, owned, live⟩ := run_spec manages startOwned legal
  rw [noObjects] at live
  refine ⟨state, runs, live, ⟨?_, ?_, owned.heap_empty⟩, ?_, ?_⟩
  · intro block live
    exact owned.existsUnique_owner live
  · intro object live
    exact owned.blocks_le live
  · intro operation next
    obtain ⟨after, steps, _, outcome⟩ := step_spec manages owned next
    exact ⟨after, steps, outcome⟩
  · intro moves next areMoves
    exact run_moves_spec manages owned next areMoves

end Conservation

/-- No objects and no blocks. -/
def emptyState : State Class.reference ℕ :=
  ⟨⟨∅, fun _ => 0⟩, ∅, fun object => (Class.reference object.cls).init⟩

/-- Large integers are copied, moved and negated, also onto the same object. -/
def lifetimes : List (Operation ℕ) :=
  [.defaultConstruct .arf 0, .assignInteger .arf 0 (3 ^ 50), .copyConstruct .arf 1 0,
    .moveConstruct .arf 2 0, .defaultConstruct .arb 0, .assignInteger .arb 0 (3 ^ 60),
    .moveConstruct .arb 1 0, .negate .arb 2 1, .swap .arf 1 1, .moveAssign .arb 2 2,
    .copyAssign .arf 1 1, .moveAssign .arf 0 2, .destruct .arf 0, .destruct .arf 1,
    .destruct .arf 2, .destruct .arb 0, .destruct .arb 1, .destruct .arb 2]

theorem ownership_conserved_lifetimes :
    ∃ state, run lifetimes emptyState = some state ∧ state.heap.live = ∅ := by
  have legal : Operation.LegalRun ∅ lifetimes := by decide
  obtain ⟨state, runs, live, accounted, _⟩ :=
    ownership_conserved Class.reference_managesObjects (rfl : emptyState.live = ∅) rfl legal
  have allDestroyed : lifetimes.foldl Operation.scope ∅ = ∅ := by decide
  exact ⟨state, runs, accounted.nothing_left (live.trans allDestroyed)⟩

example : (run (lifetimes.take 8) emptyState).map (fun state => state.heap.live.card) = some 4 := by
  decide +kernel

end State

end Arbxx
