import CodingSample.Prog.Basic
import CodingSample.Data.FreeList

/-!
# The slab allocator

One allocator. Objects and slabs are named by their addresses, and the slabs are a list. What
`page_alloc_n` answers is an input. The two red zones of an object are kept as one truth value,
whether both hold `SLAB_REDZONE`. Sizes are below `2 ^ 31 - 24`, where `minsize` is not negative.
-/

namespace CodingSample.Mm

open Prog

@[simp] def sizeofBufctl : Nat := 8
@[simp] def sizeofSlab : Nat := 16
@[simp] def sizeofRedzone : Nat := 4

def slabSize (objsize nobjs : Nat) : Nat := nobjs * (objsize + sizeofBufctl) + sizeofSlab

def slabNobjs (objsize order : Nat) : Nat :=
  (4096 * 2 ^ order - sizeofSlab) / (objsize + sizeofBufctl)

def slabWaste (objsize order : Nat) : Nat :=
  4096 * 2 ^ order - slabSize objsize (slabNobjs objsize order)

/-- The loop over the larger orders in `_calc_slab_size`, with the best order so far. -/
def bestOrder (objsize : Nat) : List Nat → Nat → Nat
  | [], best => best
  | order :: rest, best =>
      let less := slabWaste objsize order < slabWaste objsize best
      bestOrder objsize rest (if less then order else best)

/-- `_calc_slab_size`: the order and the number of objects, or a panic. -/
def calcSlabSize (objsize : Nat) : Option (Nat × Nat) :=
  match (List.range 8).find? fun order => slabSize objsize 1 ≤ 4096 * 2 ^ order with
  | none => none
  | some minorder =>
      let best := bestOrder objsize (List.range' (minorder + 1) (5 - (minorder + 1))) minorder
      some (best, slabNobjs objsize best)

/-- What `_allocator_init` sets. -/
structure SlabKind where
  saObjsize : Nat
  saOrder : Nat
  saSlabNobjs : Nat
  size : calcSlabSize saObjsize = some (saOrder, saSlabNobjs)

structure Slab where
  sInuse : Nat
  /-- The first free object, zero for `NULL`. -/
  sFree : Nat
  sAddr : Nat

structure SlabBufctl where
  /-- `sb_next` of a free object, `sb_slab` of an object in use. -/
  u : Nat
  sbFree : Bool

structure SlabState where
  saSlabs : List Nat
  slab : Nat → Slab
  /-- The control word of an object. -/
  bufctl : Nat → SlabBufctl
  redzones : Nat → Bool

inductive SlabFault where
  /-- A failed `KASSERT`. -/
  | kassert
  /-- A red zone has been overwritten. -/
  | redzone
  /-- The loop of `slab_obj_alloc` goes on for ever. -/
  | spins
  deriving DecidableEq

abbrev SlabProg := Prog SlabFault SlabState

section

variable (k : SlabKind)

/-- From one object to the next. -/
def SlabKind.stride : Nat := k.saObjsize + sizeofBufctl

/-- The address of an object of a new slab. -/
def SlabKind.object (addr i : Nat) : Nat := addr + i * k.stride

/-- The number of the object at an address in a block. -/
def SlabKind.index (addr obj : Nat) : Nat := (obj - addr) / k.stride

/-- The object of a block that begins at an address. -/
def SlabKind.IsObject (addr obj : Nat) : Prop :=
  k.index addr obj < k.saSlabNobjs ∧ obj = k.object addr (k.index addr obj)

instance (addr obj : Nat) : Decidable (k.IsObject addr obj) := instDecidableAnd

/-- `_slab_allocator_grow`. It is called when all slabs are full, so that `page_alloc_n`, which may
reclaim slabs, takes none of this allocator. -/
def slabAllocatorGrow (fresh : Option Nat) : SlabProg Bool := do
  match fresh with
  | none => pure false
  | some addr => do
      let slab := k.object addr k.saSlabNobjs
      modify fun s => { s with
        bufctl := fun obj => if k.IsObject addr obj then
            ⟨if k.index addr obj + 1 < k.saSlabNobjs then obj + k.stride else 0, true⟩
          else s.bufctl obj
        redzones := fun obj => if k.IsObject addr obj then true else s.redzones obj
        slab := Function.update s.slab slab ⟨0, addr, addr⟩
        saSlabs := slab :: s.saSlabs }
      pure true

/-- The first slab that is not full. -/
def SlabState.partly (s : SlabState) : Option Nat :=
  s.saSlabs.find? fun slab => (s.slab slab).sInuse ≠ k.saSlabNobjs

/-- An object is taken from the free list of a slab. -/
def slabTake (slab : Nat) : SlabProg Nat := do
  let s ← get
  let obj := (s.slab slab).sFree
  modify fun s => { s with
    slab := Function.update s.slab slab
      ⟨(s.slab slab).sInuse + 1, (s.bufctl obj).u, (s.slab slab).sAddr⟩
    bufctl := Function.update s.bufctl obj ⟨slab, false⟩ }
  -- `VERIFY_REDZONES`, and the pointer past the first one
  check .redzone (s.redzones obj)
  pure (obj + sizeofRedzone)

def slabObjAlloc (fresh : Option Nat) : SlabProg (Option Nat) := do
  let s ← get
  match s.partly k with
  | some slab => slabTake slab >>= fun obj => pure (some obj)
  | none => do
      match ← slabAllocatorGrow k fresh with
      | false => pure none
      | true => do
          let s ← get
          match s.partly k with
          | some slab => slabTake slab >>= fun obj => pure (some obj)
          | none => fail .spins

def slabObjFree (addr : Nat) : SlabProg Unit := do
  let obj := addr - sizeofRedzone
  let s ← get
  check .redzone (s.redzones obj)
  check .kassert (!(s.bufctl obj).sbFree)
  let slab := (s.bufctl obj).u
  modify fun s => { s with
    bufctl := Function.update s.bufctl obj ⟨(s.slab slab).sFree, true⟩
    slab := Function.update s.slab slab
      ⟨(s.slab slab).sInuse - 1, obj, (s.slab slab).sAddr⟩ }

/-- The loop of `slab_allocators_reclaim` over the slabs of the allocator: the slabs that stay, and
the number of pages. -/
def reclaimSlabs (s : SlabState) (target : Int) : Nat → List Nat → List Nat × Nat
  | freed, [] => ([], freed)
  | freed, slab :: rest =>
      let unused := (s.slab slab).sInuse = 0
      let freed := if unused then freed + 2 ^ k.saOrder else freed
      let more := if 0 < target ∧ target ≤ freed then (rest, freed)
        else reclaimSlabs s target freed rest
      (if unused then more.1 else slab :: more.1, more.2)

def slabAllocatorsReclaim (target : Int) (freed : Nat) : SlabProg Nat := do
  let s ← get
  let r := reclaimSlabs k s target freed s.saSlabs
  modify fun s => { s with saSlabs := r.1 }
  pure r.2

end

end CodingSample.Mm
