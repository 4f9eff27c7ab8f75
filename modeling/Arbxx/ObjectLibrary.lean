import Arbxx.OwnedHeap
import Arbxx.TextLibrary

/-!
# Raw structures of Arb and Arf objects

What Arb and FLINT keep in an `arf_t` or an `arb_t`, and the functions that manage
it: small mantissas and exponents are part of the structure, larger ones live in
heap blocks.  The functions enter as a record for each class, with their
documented behaviour and an executable choice that behaves so.
-/

namespace Arbxx

open OwnedHeap

/-- The classes with objects of their own. -/
inductive Class
  | arf
  | arb
  deriving DecidableEq

namespace Class

/-- What an object of the class stands for. -/
abbrev Value : Class → Type
  | .arf => Arf
  | .arb => Arb

def zero : ∀ cls : Class, cls.Value
  | .arf => .finite 0
  | .arb => Arb.exact (.finite 0)

def neg : ∀ cls : Class, cls.Value → cls.Value
  | .arf => Arf.neg
  | .arb => fun x => ⟨x.mid.neg, x.rad⟩

def ofInteger : ∀ cls : Class, ℤ → cls.Value
  | .arf => Arf.ofInt
  | .arb => fun n => Arb.exact (Arf.ofInt n)

end Class

/-- The functions `arf_init`, `arf_set`, ... or `arb_init`, `arb_set`, ... on raw
structures.  A function that writes to a target takes the previous structure of the
target first, and gives `none` if it touches a block that is not live. -/
structure ObjectLibrary (Address Content Value : Type) where
  Raw : Type
  blocks : Raw → Multiset Address
  value : Heap Address Content → Raw → Value
  init : Raw
  set : Heap Address Content → Raw → Raw → Option (Heap Address Content × Raw)
  neg : Heap Address Content → Raw → Raw → Option (Heap Address Content × Raw)
  setFmpz : Heap Address Content → Raw → ℤ → Option (Heap Address Content × Raw)
  swap : Raw → Raw → Raw × Raw

namespace ObjectLibrary

variable {Address Content Value : Type} (lib : ObjectLibrary Address Content Value)

/-- A target and a source coincide, or own separate live blocks. -/
def Accessible (heap : Heap Address Content) (target source : lib.Raw) : Prop :=
  target = source ∧ lib.blocks target ≤ heap.live.val ∨
    lib.blocks target + lib.blocks source ≤ heap.live.val

/-- The blocks of the target are replaced by those of a structure with some value. -/
def Writes (heap : Heap Address Content) (target : lib.Raw)
    (result : Option (Heap Address Content × lib.Raw)) (value : Value) : Prop :=
  ∃ heap' raw, result = some (heap', raw) ∧
    heap.Replaces (lib.blocks target) heap' (lib.blocks raw) ∧ lib.value heap' raw = value

/-- A function that reads a source and writes some function of its value to a target. -/
def WritesFrom
    (function : Heap Address Content → lib.Raw → lib.Raw → Option (Heap Address Content × lib.Raw))
    (g : Value → Value) : Prop :=
  ∀ heap target source, lib.Accessible heap target source →
    lib.Writes heap target (function heap target source) (g (lib.value heap source))

/-- Initialization makes a zero without blocks, copies are deep and safe when the
target is the source, and swapping exchanges the structures. -/
structure ManagesObjects (zero : Value) (negate : Value → Value) (ofInteger : ℤ → Value) :
    Prop where
  value_local : ∀ heap heap' raw,
    (∀ block ∈ lib.blocks raw, heap'.content block = heap.content block) →
      lib.value heap' raw = lib.value heap raw
  blocks_init : lib.blocks lib.init = 0
  value_init : ∀ heap, lib.value heap lib.init = zero
  set_writes : lib.WritesFrom lib.set id
  neg_writes : lib.WritesFrom lib.neg negate
  setFmpz_writes : ∀ heap target n, lib.blocks target ≤ heap.live.val →
    lib.Writes heap target (lib.setFmpz heap target n) (ofInteger n)
  swap_eq : ∀ a b, lib.swap a b = (b, a)

variable {lib}

theorem Accessible.blocks_le {heap : Heap Address Content} {target source : lib.Raw}
    (accessible : lib.Accessible heap target source) : lib.blocks target ≤ heap.live.val := by
  rcases accessible with ⟨_, owned⟩ | separate
  · exact owned
  · exact (Multiset.le_add_right _ _).trans separate

end ObjectLibrary

/-! ### A reference implementation -/

/-- An integer of a structure, or the block that holds it. -/
inductive Word
  | inline (number : ℤ)
  | block (address : ℕ)

namespace Word

def blocks : Word → Multiset ℕ
  | .inline _ => 0
  | .block address => {address}

def read (heap : Heap ℕ ℤ) : Word → ℤ
  | .inline number => number
  | .block address => heap.content address

theorem read_local {heap heap' : Heap ℕ ℤ} {word : Word}
    (same : ∀ block ∈ word.blocks, heap'.content block = heap.content block) :
    word.read heap' = word.read heap := by
  cases word with
  | inline number => rfl
  | block address => exact same address (Multiset.mem_singleton_self address)

def fresh (live : Finset ℕ) : ℕ :=
  live.fold max 0 id + 1

theorem fresh_notMem (live : Finset ℕ) : fresh live ∉ live := by
  intro member
  have bound : fresh live ≤ live.fold max 0 id :=
    (Finset.le_fold_max _).mpr (.inr ⟨_, member, le_rfl⟩)
  exact absurd bound (Nat.not_succ_le_self _)

/-- Integers of up to 62 bits are kept in the structure. -/
def store (heap : Heap ℕ ℤ) (number : ℤ) : Heap ℕ ℤ × Word :=
  if number.natAbs < 2 ^ 62 then (heap, .inline number)
  else
    let address := fresh heap.live
    (⟨insert address heap.live, Function.update heap.content address number⟩, .block address)

theorem store_replaces (heap : Heap ℕ ℤ) (number : ℤ) :
    heap.Replaces 0 (store heap number).1 (store heap number).2.blocks := by
  simp only [store]
  split
  · exact Heap.Replaces.refl heap
  · refine ⟨?_, ?_⟩
    · rw [add_zero, Finset.insert_val_of_notMem (fresh_notMem heap.live), blocks,
        Multiset.add_comm, Multiset.singleton_add]
    · intro block live _
      have different : block ≠ fresh heap.live := by
        intro same
        rw [same] at live
        exact fresh_notMem heap.live live
      exact Function.update_of_ne different _ _

theorem read_store (heap : Heap ℕ ℤ) (number : ℤ) :
    (store heap number).2.read (store heap number).1 = number := by
  simp only [store]
  split
  · rfl
  · exact Function.update_self _ _ _

def storeAll (heap : Heap ℕ ℤ) : List ℤ → Heap ℕ ℤ × List Word
  | [] => (heap, [])
  | number :: numbers =>
      let (heap', word) := store heap number
      let (heap'', words) := storeAll heap' numbers
      (heap'', word :: words)

def blocksAll (words : List Word) : Multiset ℕ :=
  (words : Multiset Word).bind blocks

theorem storeAll_replaces (heap : Heap ℕ ℤ) (numbers : List ℤ) :
    heap.Replaces 0 (storeAll heap numbers).1 (blocksAll (storeAll heap numbers).2) := by
  induction numbers generalizing heap with
  | nil => exact Heap.Replaces.refl heap
  | cons number numbers induction =>
      have first := store_replaces heap number
      have rest := induction (store heap number).1
      have both := first.allocate rest
      rw [storeAll, blocksAll, ← Multiset.cons_coe, Multiset.cons_bind]
      exact both

theorem read_storeAll (heap : Heap ℕ ℤ) (numbers : List ℤ) :
    (storeAll heap numbers).2.map (read (storeAll heap numbers).1) = numbers := by
  induction numbers generalizing heap with
  | nil => rfl
  | cons number numbers induction =>
      have rest := storeAll_replaces (store heap number).1 numbers
      have live : (store heap number).1.live.val =
          heap.live.val + (store heap number).2.blocks := by
        rw [← (store_replaces heap number).live, add_zero]
      -- The blocks allocated for the rest leave those of the first alone.
      have first : (store heap number).2.read (storeAll (store heap number).1 numbers).1 =
          (store heap number).2.read (store heap number).1 := by
        apply read_local
        intro block member
        apply rest.content block _ (Multiset.notMem_zero block)
        rw [← Finset.mem_val, live]
        exact Multiset.mem_add.mpr (.inr member)
      simp only [storeAll, List.map_cons]
      rw [induction, first, read_store]

theorem readAll_local {heap heap' : Heap ℕ ℤ} {words : List Word}
    (same : ∀ block ∈ blocksAll words, heap'.content block = heap.content block) :
    words.map (read heap') = words.map (read heap) := by
  apply List.map_congr_left
  intro word member
  apply read_local
  intro block inWord
  apply same block
  exact Multiset.mem_bind.mpr ⟨word, Multiset.mem_coe.mpr member, inWord⟩

theorem blocksAll_inline (numbers : List ℤ) : blocksAll (numbers.map .inline) = 0 := by
  rw [blocksAll, ← Multiset.map_coe, Multiset.bind_map]
  exact Multiset.bind_zero _

theorem readAll_inline (heap : Heap ℕ ℤ) (numbers : List ℤ) :
    (numbers.map .inline).map (read heap) = numbers := by
  have same : read heap ∘ .inline = id := rfl
  rw [List.map_map, same, List.map_id]

end Word

/-- Values as lists of integers. -/
structure Encoding (Value : Type) where
  encode : Value → List ℤ
  decode : List ℤ → Value
  decode_encode : ∀ value, decode (encode value) = value

namespace ObjectLibrary

open Word

variable {Value : Type} (encoding : Encoding Value)

/-- The blocks of the target are released, then those of the value allocated. -/
def assign (heap : Heap ℕ ℤ) (target : List Word) (value : Value) :
    Option (Heap ℕ ℤ × List Word) :=
  (heap.release (blocksAll target)).map fun released => storeAll released (encoding.encode value)

def reference (zero : Value) (negate : Value → Value) (ofInteger : ℤ → Value) :
    ObjectLibrary ℕ ℤ Value where
  Raw := List Word
  blocks := blocksAll
  value heap words := encoding.decode (words.map (read heap))
  init := (encoding.encode zero).map Word.inline
  set heap target source :=
    assign encoding heap target (encoding.decode (source.map (read heap)))
  neg heap target source :=
    assign encoding heap target (negate (encoding.decode (source.map (read heap))))
  setFmpz heap target n := assign encoding heap target (ofInteger n)
  swap a b := (b, a)

variable (zero : Value) (negate : Value → Value) (ofInteger : ℤ → Value)

theorem writes_assign {heap : Heap ℕ ℤ} {target : List Word}
    (owned : blocksAll target ≤ heap.live.val) (value : Value) :
    (reference encoding zero negate ofInteger).Writes heap target
      (assign encoding heap target value) value := by
  obtain ⟨released, releases, replaces⟩ := Heap.release_of_le owned
  have allocates := storeAll_replaces released (encoding.encode value)
  have assigns : assign encoding heap target value =
      some (storeAll released (encoding.encode value)) := by
    rw [assign, releases, Option.map_some]
  refine ⟨_, _, assigns, ?_, ?_⟩
  · have both := replaces.allocate allocates
    rw [zero_add] at both
    exact both
  · change encoding.decode _ = value
    rw [read_storeAll, encoding.decode_encode]

theorem reference_managesObjects :
    (reference encoding zero negate ofInteger).ManagesObjects zero negate ofInteger where
  value_local heap heap' words same := by
    change encoding.decode _ = encoding.decode _
    rw [readAll_local same]
  blocks_init := blocksAll_inline _
  value_init heap := by
    change encoding.decode (((encoding.encode zero).map .inline).map (read heap)) = zero
    rw [readAll_inline, encoding.decode_encode]
  set_writes _ _ _ accessible := writes_assign _ _ _ _ accessible.blocks_le _
  neg_writes _ _ _ accessible := writes_assign _ _ _ _ accessible.blocks_le _
  setFmpz_writes _ _ _ owned := writes_assign _ _ _ _ owned _
  swap_eq _ _ := rfl

end ObjectLibrary

namespace Class

/-- The mantissa and the exponent of a number. -/
def encodeArf (a : Arf) : List ℤ :=
  [(a.fields TextLibrary.referenceCodes).1, (a.fields TextLibrary.referenceCodes).2]

def decodeArf (mantissa exponent : ℤ) : Arf :=
  (Arf.ofFields TextLibrary.referenceCodes mantissa exponent).getD .nan

theorem decodeArf_fields (a : Arf) :
    decodeArf (a.fields TextLibrary.referenceCodes).1 (a.fields TextLibrary.referenceCodes).2 =
      a := by
  rw [decodeArf, Arf.ofFields_fields, Option.getD_some]

def encoding : ∀ cls : Class, Encoding cls.Value
  | .arf => {
      encode := encodeArf
      decode := fun numbers => match numbers with
        | [mantissa, exponent] => decodeArf mantissa exponent
        | _ => .nan
      decode_encode := decodeArf_fields }
  | .arb => {
      encode := fun x => encodeArf x.mid ++ encodeArf x.rad.toArf
      decode := fun numbers => match numbers with
        | [midMantissa, midExponent, radMantissa, radExponent] =>
            ⟨decodeArf midMantissa midExponent,
              TextLibrary.radiusOf (decodeArf radMantissa radExponent)⟩
        | _ => ⟨.nan, .inf⟩
      decode_encode := by
        intro x
        simp only [encodeArf, List.cons_append, List.nil_append, decodeArf_fields,
          TextLibrary.radiusOf_toArf] }

def reference (cls : Class) : ObjectLibrary ℕ ℤ cls.Value :=
  ObjectLibrary.reference cls.encoding cls.zero cls.neg cls.ofInteger

theorem reference_managesObjects (cls : Class) :
    cls.reference.ManagesObjects cls.zero cls.neg cls.ofInteger :=
  ObjectLibrary.reference_managesObjects _ _ _ _

end Class

end Arbxx
