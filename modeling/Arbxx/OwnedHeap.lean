import Mathlib.Algebra.BigOperators.Group.Finset.Piecewise
import Mathlib.Algebra.Order.BigOperators.Group.Finset
import Mathlib.Algebra.Order.Group.Multiset
import Mathlib.Data.Multiset.UnionInter

/-!
# Heap blocks owned by objects

A heap of blocks, and objects with a raw structure each that refers to some of
them.  A memory is owned if every live block is referred to by one live object,
once.  The steps that write, exchange, relocate and destroy structures are general
in what a structure looks like, which may differ from object to object.
-/

namespace OwnedHeap

/-! ### Blocks -/

structure Heap (Address Content : Type*) where
  live : Finset Address
  content : Address → Content

namespace Heap

variable {Address Content : Type*}

/-- Releasing blocks faults if one of them is not live, or is released twice. -/
def release [DecidableEq Address] (heap : Heap Address Content) (blocks : Multiset Address) :
    Option (Heap Address Content) :=
  if blocks ≤ heap.live.val then
    some { heap with live := ⟨heap.live.val - blocks,
      Multiset.nodup_of_le (Multiset.sub_le_self _ _) heap.live.nodup⟩ }
  else none

/-- The blocks of `old` are released and those of `new` are allocated; no other
block is written to. -/
structure Replaces (heap : Heap Address Content) (old : Multiset Address)
    (heap' : Heap Address Content) (new : Multiset Address) : Prop where
  live : heap'.live.val + old = heap.live.val + new
  content : ∀ block ∈ heap.live, block ∉ old → heap'.content block = heap.content block

variable {heap heap' heap'' : Heap Address Content} {old mid new : Multiset Address}

theorem Replaces.refl (heap : Heap Address Content) : heap.Replaces 0 heap 0 where
  live := rfl
  content _ _ _ := rfl

theorem Replaces.mem_live (replaces : heap.Replaces old heap' new) {block : Address}
    (live : block ∈ heap.live) (notOld : block ∉ old) : block ∈ heap'.live := by
  have member : block ∈ heap'.live.val + old := by
    rw [replaces.live]
    exact Multiset.mem_add.mpr (.inl live)
  exact (Multiset.mem_add.mp member).resolve_right notOld

theorem Replaces.allocate (replaces : heap.Replaces old heap' mid)
    (allocates : heap'.Replaces 0 heap'' new) : heap.Replaces old heap'' (mid + new) where
  live := by
    have balance := allocates.live
    rw [add_zero] at balance
    rw [balance, add_right_comm, replaces.live, add_assoc]
  content block live notOld := by
    rw [allocates.content block (replaces.mem_live live notOld) (Multiset.notMem_zero block),
      replaces.content block live notOld]

theorem release_of_le [DecidableEq Address] (owned : old ≤ heap.live.val) :
    ∃ heap', heap.release old = some heap' ∧ heap.Replaces old heap' 0 := by
  refine ⟨_, if_pos owned, ?_, fun _ _ _ => rfl⟩
  rw [add_zero]
  exact Multiset.sub_add_cancel owned

end Heap

/-! ### Objects -/

/-- A heap and the raw structures of the live objects; the structures of other
objects are arbitrary. -/
structure Memory (Address Content : Type*) {Object : Type*} (Raw : Object → Type*) where
  heap : Heap Address Content
  live : Finset Object
  raw : ∀ object, Raw object

namespace Memory

variable {Address Content Object : Type*} {Raw : Object → Type*} {m : Memory Address Content Raw}
  {x y : Object} {blocks : ∀ object, Raw object → Multiset Address}

/-- The sum of a quantity over the live objects. -/
def total {M : Type*} [AddCommMonoid M] (m : Memory Address Content Raw)
    (f : ∀ object, Raw object → M) : M :=
  ∑ x ∈ m.live, f x (m.raw x)

/-- The live blocks are those the live objects refer to, each once. -/
def Owned (blocks : ∀ object, Raw object → Multiset Address)
    (m : Memory Address Content Raw) : Prop :=
  m.heap.live.val = m.total blocks

theorem Owned.blocks_le (owned : m.Owned blocks) (live : x ∈ m.live) :
    blocks x (m.raw x) ≤ m.heap.live.val := by
  rw [owned]
  exact Finset.single_le_sum_of_canonicallyOrdered (f := fun x => blocks x (m.raw x)) live

theorem Owned.mem_live (owned : m.Owned blocks) (live : x ∈ m.live) {block : Address}
    (member : block ∈ blocks x (m.raw x)) : block ∈ m.heap.live :=
  Multiset.mem_of_le (owned.blocks_le live) member

/-- Without objects no block is left. -/
theorem Owned.heap_empty (owned : m.Owned blocks) (empty : m.live = ∅) : m.heap.live = ∅ := by
  rw [← Finset.val_eq_zero, owned, total, empty, Finset.sum_empty]

/-- The objects outside some set stay live and keep their structures and the
contents of their blocks. -/
structure Keeps (blocks : ∀ object, Raw object → Multiset Address) (changed : Finset Object)
    (m m' : Memory Address Content Raw) : Prop where
  live : ∀ x ∈ m.live, x ∉ changed → x ∈ m'.live
  raw : ∀ x ∈ m.live, x ∉ changed → m'.raw x = m.raw x
  content : ∀ x ∈ m.live, x ∉ changed → ∀ block ∈ blocks x (m.raw x),
    m'.heap.content block = m.heap.content block

variable {changed : Finset Object} {m' m'' : Memory Address Content Raw}

theorem Keeps.trans (first : Keeps blocks changed m m') (second : Keeps blocks changed m' m'') :
    Keeps blocks changed m m'' where
  live x live other := second.live x (first.live x live other) other
  raw x live other := by
    rw [second.raw x (first.live x live other) other, first.raw x live other]
  content x live other block member := by
    have member' : block ∈ blocks x (m'.raw x) := by
      rw [first.raw x live other]
      exact member
    rw [second.content x (first.live x live other) other block member',
      first.content x live other block member]

variable [DecidableEq Object]

theorem Owned.blocks_add_le (owned : m.Owned blocks) (xLive : x ∈ m.live) (yLive : y ∈ m.live)
    (different : x ≠ y) : blocks x (m.raw x) + blocks y (m.raw y) ≤ m.heap.live.val := by
  have subset : {x, y} ⊆ m.live :=
    Finset.insert_subset xLive (Finset.singleton_subset_iff.mpr yLive)
  rw [owned, total, ← Finset.sum_pair (f := fun x => blocks x (m.raw x)) different]
  exact Finset.sum_le_sum_of_subset subset

theorem Owned.notMem_of_ne (owned : m.Owned blocks) (xLive : x ∈ m.live) (yLive : y ∈ m.live)
    (different : x ≠ y) {block : Address} (member : block ∈ blocks x (m.raw x)) :
    block ∉ blocks y (m.raw y) := by
  have nodup := Multiset.nodup_of_le (owned.blocks_add_le xLive yLive different)
    m.heap.live.nodup
  obtain ⟨_, _, disjoint⟩ := Multiset.nodup_add.mp nodup
  exact Multiset.disjoint_left.mp disjoint member

/-- Every live block has exactly one owner. -/
theorem Owned.existsUnique_owner (owned : m.Owned blocks) {block : Address}
    (live : block ∈ m.heap.live) : ∃! x, x ∈ m.live ∧ block ∈ blocks x (m.raw x) := by
  have member : block ∈ m.total blocks := by
    rw [← owned]
    exact live
  obtain ⟨x, xLive, inBlocks⟩ := Multiset.mem_sum.mp member
  refine ⟨x, ⟨xLive, inBlocks⟩, ?_⟩
  intro y owner
  by_contra different
  exact owned.notMem_of_ne owner.1 xLive different owner.2 inBlocks

/-! ### Steps -/

/-- The lifetime of an object begins, with some raw structure. -/
def enter (m : Memory Address Content Raw) (x : Object) (r : Raw x) : Memory Address Content Raw :=
  { m with live := insert x m.live, raw := Function.update m.raw x r }

def write (m : Memory Address Content Raw) (x : Object) (r : Raw x) : Memory Address Content Raw :=
  { m with raw := Function.update m.raw x r }

/-- A function has worked on the heap and written the structure of one object. -/
def install (m : Memory Address Content Raw) (x : Object) (result : Heap Address Content × Raw x) :
    Memory Address Content Raw :=
  { m with heap := result.1, raw := Function.update m.raw x result.2 }

/-- The blocks of an object are released and its lifetime ends. -/
def destroy [DecidableEq Address] (blocks : ∀ object, Raw object → Multiset Address)
    (m : Memory Address Content Raw) (x : Object) : Option (Memory Address Content Raw) :=
  (m.heap.release (blocks x (m.raw x))).map fun heap' =>
    { m with heap := heap', live := m.live.erase x }

variable {r : Raw x} {s : Raw y} {heap' : Heap Address Content}

@[simp]
theorem raw_enter_self : (m.enter x r).raw x = r :=
  Function.update_self _ _ _

@[simp]
theorem raw_write_self : (m.write x r).raw x = r :=
  Function.update_self _ _ _

@[simp]
theorem raw_install_self : (m.install x (heap', r)).raw x = r :=
  Function.update_self _ _ _

theorem raw_enter_of_ne (different : y ≠ x) : (m.enter x r).raw y = m.raw y :=
  Function.update_of_ne different _ _

theorem raw_write_of_ne (different : y ≠ x) : (m.write x r).raw y = m.raw y :=
  Function.update_of_ne different _ _

theorem raw_install_of_ne (different : y ≠ x) : (m.install x (heap', r)).raw y = m.raw y :=
  Function.update_of_ne different _ _

/-! ### Steps conserve totals -/

section Totals

variable {M : Type*} [AddCancelCommMonoid M] {f : ∀ object, Raw object → M}

theorem total_enter (fresh : x ∉ m.live) : (m.enter x r).total f = m.total f + f x r := by
  simp only [total, enter, Finset.sum_insert fresh, Function.apply_update f,
    Finset.sum_update_of_notMem fresh, Function.update_self]
  exact add_comm _ _

theorem total_write (live : x ∈ m.live) :
    (m.write x r).total f + f x (m.raw x) = m.total f + f x r := by
  simp only [total, write, Function.apply_update f, Finset.sum_update_of_mem live,
    ← Finset.erase_eq]
  rw [add_assoc, Finset.sum_erase_add _ _ live, add_comm]

/-- Two live objects, possibly the same, exchange what they hold. -/
theorem total_exchange (xLive : x ∈ m.live) (yLive : y ∈ m.live) (toLeft : f x r = f y (m.raw y))
    (toRight : f y s = f x (m.raw x)) : ((m.write x r).write y s).total f = m.total f := by
  have held : f y ((m.write x r).raw y) = f y (m.raw y) := by
    by_cases same : y = x
    · subst same
      rw [raw_write_self, toLeft]
    · rw [raw_write_of_ne same]
  have second : ((m.write x r).write y s).total f + f y ((m.write x r).raw y) =
      (m.write x r).total f + f y s :=
    total_write yLive
  have first := total_write (f := f) (r := r) xLive
  rw [held, toRight, first, toLeft, add_right_cancel_iff] at second
  exact second

/-- A new object takes over what a live object holds, which is written to next. -/
theorem total_relocate (fresh : x ∉ m.live) (yLive : y ∈ m.live) (taken : f x r = f y (m.raw y)) :
    ((m.enter x r).write y s).total f = m.total f + f y s := by
  have different : y ≠ x := fun same => fresh (same ▸ yLive)
  have written : ((m.enter x r).write y s).total f + f y ((m.enter x r).raw y) =
      (m.enter x r).total f + f y s :=
    total_write (Finset.mem_insert_of_mem yLive)
  rw [raw_enter_of_ne different, total_enter fresh, taken, add_right_comm,
    add_right_cancel_iff] at written
  exact written

end Totals

/-! ### Steps keep ownership -/

theorem Owned.enter (owned : m.Owned blocks) (fresh : x ∉ m.live) (none : blocks x r = 0) :
    (m.enter x r).Owned blocks := by
  rw [Owned, total_enter fresh, none, add_zero]
  exact owned

theorem Owned.install (owned : m.Owned blocks) (live : x ∈ m.live)
    (replaces : m.heap.Replaces (blocks x (m.raw x)) heap' (blocks x r)) :
    (m.install x (heap', r)).Owned blocks := by
  have balance := replaces.live
  rw [owned, ← total_write live] at balance
  exact add_right_cancel balance

theorem Owned.exchange (owned : m.Owned blocks) (xLive : x ∈ m.live) (yLive : y ∈ m.live)
    (toLeft : blocks x r = blocks y (m.raw y)) (toRight : blocks y s = blocks x (m.raw x)) :
    ((m.write x r).write y s).Owned blocks := by
  rw [Owned, total_exchange xLive yLive toLeft toRight]
  exact owned

theorem Owned.relocate (owned : m.Owned blocks) (fresh : x ∉ m.live) (yLive : y ∈ m.live)
    (taken : blocks x r = blocks y (m.raw y)) (none : blocks y s = 0) :
    ((m.enter x r).write y s).Owned blocks := by
  rw [Owned, total_relocate fresh yLive taken, none, add_zero]
  exact owned

theorem Owned.destroy [DecidableEq Address] (owned : m.Owned blocks) (live : x ∈ m.live) :
    ∃ heap', m.destroy blocks x = some { m with heap := heap', live := m.live.erase x } ∧
      m.heap.Replaces (blocks x (m.raw x)) heap' 0 ∧
      Owned blocks { m with heap := heap', live := m.live.erase x } := by
  obtain ⟨heap', releases, replaces⟩ := Heap.release_of_le (owned.blocks_le live)
  refine ⟨heap', by rw [Memory.destroy, releases, Option.map_some], replaces, ?_⟩
  have balance := replaces.live
  rw [owned, total, ← Finset.sum_erase_add _ _ live, add_zero] at balance
  exact add_right_cancel balance

/-! ### Steps keep other objects -/

theorem keeps_enter (fresh : x ∉ m.live) : Keeps blocks changed m (m.enter x r) where
  live _ live _ := Finset.mem_insert_of_mem live
  raw _ live _ := raw_enter_of_ne fun same => fresh (same ▸ live)
  content _ _ _ _ _ := rfl

theorem keeps_write (isChanged : x ∈ changed) : Keeps blocks changed m (m.write x r) where
  live _ live _ := live
  raw _ _ other := raw_write_of_ne fun same => other (same ▸ isChanged)
  content _ _ _ _ _ := rfl

private theorem content_eq (owned : m.Owned blocks) {new : Multiset Address} (xLive : x ∈ m.live)
    (replaces : m.heap.Replaces (blocks x (m.raw x)) heap' new) (yLive : y ∈ m.live)
    (different : y ≠ x) {block : Address} (member : block ∈ blocks y (m.raw y)) :
    heap'.content block = m.heap.content block :=
  replaces.content block (owned.mem_live yLive member)
    (owned.notMem_of_ne yLive xLive different member)

theorem Owned.keeps_install (owned : m.Owned blocks) (live : x ∈ m.live)
    (replaces : m.heap.Replaces (blocks x (m.raw x)) heap' (blocks x r))
    (isChanged : x ∈ changed) : Keeps blocks changed m (m.install x (heap', r)) where
  live _ live _ := live
  raw _ _ other := raw_install_of_ne fun same => other (same ▸ isChanged)
  content _ yLive other _ member :=
    content_eq owned live replaces yLive (fun same => other (same ▸ isChanged)) member

theorem Owned.keeps_destroy (owned : m.Owned blocks) (live : x ∈ m.live)
    (replaces : m.heap.Replaces (blocks x (m.raw x)) heap' 0) (isChanged : x ∈ changed) :
    Keeps blocks changed m { m with heap := heap', live := m.live.erase x } where
  live _ live other := Finset.mem_erase.mpr ⟨fun same => other (same ▸ isChanged), live⟩
  raw _ _ _ := rfl
  content _ yLive other _ member :=
    content_eq owned live replaces yLive (fun same => other (same ▸ isChanged)) member

end Memory

end OwnedHeap
