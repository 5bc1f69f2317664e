import CodingSample.Prog.Basic
import Mathlib.Data.Nat.Bitwise
import Mathlib.Logic.Function.Basic

/-!
# The page allocator

Pages are named by their numbers, addresses divided by the size of a page. The lists are lists of
page numbers, and the bitmaps are read and written in the memory where they are, so that a bit past
the end of one bitmap is a bit of the next. When there is no memory left, `_page_split` lets the
slab allocators give theirs back before it returns `NULL`; those are calls of `page_free_n` after
the one that failed.
-/

namespace CodingSample.Mm

open Prog

@[simp] def pageShift : Nat := 12
@[simp] def pageSize : Nat := 4096
@[simp] def pageNsizes : Nat := 8

/-- The size of `struct pagegroup`. -/
@[simp] def sizeofPagegroup : Nat := 112

/-- `struct pagegroup`, and the memory that its bitmaps are in. -/
structure Pagegroup where
  pgFreelist : Nat → List Nat
  /-- The address of the bitmap of an order. -/
  pgMap : Nat → Nat
  pgBaseaddr : Nat
  pgEndaddr : Nat
  /-- The memory, bit by bit. -/
  memory : Nat → Bool

/-- The groups are named by their addresses. -/
structure PageState where
  pagegroupList : List Nat
  pagegroup : Nat → Pagegroup
  pageFreecount : Nat

inductive PageFault where
  /-- A failed `KASSERT`. -/
  | kassert
  /-- `list_remove` of a page that is on no list of the group. -/
  | badLink
  /-- `panic` for a size that no order has. -/
  | panic
  deriving DecidableEq

/-- Programs over one group. -/
abbrev GroupProg := Prog PageFault Pagegroup

abbrev PageProg := Prog PageFault PageState

namespace Pagegroup

variable (g : Pagegroup)

def setFreelist (order : Nat) (l : List Nat) : Pagegroup :=
  { g with pgFreelist := Function.update g.pgFreelist order l }

def insertHead (order addr : Nat) : Pagegroup :=
  g.setFreelist order (addr :: g.pgFreelist order)

/-- The bit with an index in the bitmap of an order. -/
def bit (order index : Nat) : Bool := g.memory (8 * g.pgMap order + index)

def flip (order index : Nat) : Pagegroup :=
  let m := Function.update g.memory (8 * g.pgMap order + index) (!g.bit order index)
  { g with memory := m }

def onList (addr order : Nat) : Bool := addr ∈ g.pgFreelist order

end Pagegroup

def pageCheck (test : Bool) : GroupProg Unit := check .kassert test

/-- `_pagegroup_calculate_index` checks that the address is in the group. -/
def pagegroupCalculateIndex (order addr : Nat) : GroupProg Nat := do
  let g ← get
  pageCheck (order < pageNsizes)
  pageCheck (g.pgBaseaddr ≤ addr ∧ addr < g.pgEndaddr)
  pure ((addr - g.pgBaseaddr) >>> order)

def bitFlip (order addr : Nat) : GroupProg Unit := do
  let index ← pagegroupCalculateIndex order addr
  modify fun g => g.flip order index

/-- Turn over the bit of the block that the block is half of, if the order has a larger one. -/
def bitFlipAbove (order addr : Nat) : GroupProg Unit :=
  if order < pageNsizes - 1 then bitFlip (order + 1) addr else pure ()

def bitCheck (order addr : Nat) : GroupProg Bool := do
  let index ← pagegroupCalculateIndex order addr
  let g ← get
  pure (g.bit order index)

/-- `list_remove` of a free page, which does not name the list. -/
def listRemove (addr : Nat) : GroupProg Unit := do
  let g ← get
  match (List.range pageNsizes).find? (g.onList addr) with
  | none => fail .badLink
  | some order => modify fun g => g.setFreelist order ((g.pgFreelist order).erase addr)

/-- The head of a list is taken from it. -/
def listTakeHead (order : Nat) : GroupProg Nat := do
  let g ← get
  match g.pgFreelist order with
  | [] => fail .kassert
  | addr :: rest => do
      modify fun g => g.setFreelist order rest
      pure addr

/-! ### Making a group -/

/-- The bytes of the bitmap of an order. The subtraction is one of `uintptr_t`. -/
def mapBytes (npages order : Nat) : Nat :=
  let count := (npages >>> order + 4294967295) % 4294967296 / 8 * 8 + 8
  (count % 4294967296) >>> 3

/-- Where the bitmap of an order begins, with the structure at `group`. -/
def mapStart (npages group : Nat) : Nat → Nat
  | 0 => group
  | order + 1 => mapStart npages group order - mapBytes npages (order + 1)

/-- The end of the pages that are left when the lists below `order` have got theirs. -/
def leftEnd (npages : Nat) : Nat → Nat
  | 0 => npages
  | order + 1 =>
      if npages.testBit order then leftEnd npages order - 2 ^ order else leftEnd npages order

/-- The free lists of a new group. -/
def initialFreelist (base npages order : Nat) : List Nat :=
  if order < pageNsizes - 1 then
    if npages.testBit order then [base + leftEnd npages (order + 1)] else []
  else if order = pageNsizes - 1 then
    ((List.range (leftEnd npages order / 2 ^ order)).map fun k => base + k * 2 ^ order).reverse
  else []

/-- `_pagegroup_create`; the structure lies at `end - sizeof(struct pagegroup)`. -/
def pagegroupCreate (start stop : Nat) (memory : Nat → Bool) : Pagegroup :=
  let npages := (stop - start) >>> pageShift
  let group := stop - sizeofPagegroup
  let pgEnd := mapStart npages group (pageNsizes - 1) / pageSize
  { pgFreelist := initialFreelist (start / pageSize) (pgEnd - start / pageSize)
    pgMap := fun order => if order = 0 then 0 else mapStart npages group order
    pgBaseaddr := start / pageSize
    pgEndaddr := pgEnd
    -- the bitmaps lie one below the other and are all cleared
    memory := fun bit =>
      if 8 * mapStart npages group (pageNsizes - 1) ≤ bit ∧ bit < 8 * group then false
      else memory bit }

def pageAddRange (start stop : Nat) : PageProg Unit := do
  let start := start / pageSize * pageSize
  let stop := stop / pageSize * pageSize
  let group := stop - sizeofPagegroup
  modify fun s =>
    let g := pagegroupCreate start stop (s.pagegroup group).memory
    let s := { s with pagegroup := Function.update s.pagegroup group g }
    if g.pgBaseaddr < g.pgEndaddr then
      { s with
        pagegroupList := s.pagegroupList ++ [group]
        pageFreecount := s.pageFreecount + (g.pgEndaddr - g.pgBaseaddr) }
    else s

/-! ### Splitting and joining -/

/-- `__page_split` -/
def pageSplitHead (order : Nat) : GroupProg Unit := do
  pageCheck (0 < order ∧ order < pageNsizes)
  let target ← listTakeHead order
  bitFlipAbove order target
  let set ← bitCheck order target
  pageCheck (!set)
  let buddy := target + 2 ^ (order - 1)
  modify fun g => (g.insertHead (order - 1) target).insertHead (order - 1) buddy

/-- `while (norder > order) { __page_split(group, norder); --norder; }`, with the number of
rounds. -/
def pageSplitDown (order : Nat) : Nat → GroupProg Unit
  | 0 => pure ()
  | rounds + 1 => do
      pageSplitHead (order + rounds + 1)
      pageSplitDown order rounds

/-- `__page_join`, with the number of orders above `order`. -/
def pageJoin : Nat → Nat → Nat → GroupProg Unit
  | 0, _, _ => pure ()
  | above + 1, order, addr => do
      let set ← bitCheck (order + 1) addr
      if set then pure ()
      else do
        let g ← get
        let buddy := if (addr - g.pgBaseaddr) >>> order % 2 = 1 then addr - 2 ^ order
          else addr + 2 ^ order
        listRemove addr
        listRemove buddy
        modify fun g => g.insertHead (order + 1) (min addr buddy)
        bitFlipAbove (order + 1) (min addr buddy)
        pageJoin above (order + 1) (min addr buddy)

/-! ### Allocating and freeing -/

def onGroup (group : Nat) {α : Type} (m : GroupProg α) : PageProg α :=
  zoom (fun s => s.pagegroup group)
    (fun g s => { s with pagegroup := Function.update s.pagegroup group g }) m

/-- The first group with a free block of the order. -/
def PageState.withFree (s : PageState) (order : Nat) : Option Nat :=
  s.pagegroupList.find? fun group => (s.pagegroup group).pgFreelist order ≠ []

/-- The loop of `_page_split` over the orders that are larger. -/
def pageSplit (order : Nat) : List Nat → PageProg (Option Nat)
  | [] => pure none
  | norder :: rest => do
      let s ← get
      match s.withFree norder with
      | some group => do
          onGroup group (pageSplitDown order (norder - order))
          pure (some group)
      | none => pageSplit order rest

/-- The orders above `order`. -/
def ordersAbove (order : Nat) : List Nat := List.range' (order + 1) (pageNsizes - (order + 1))

def pageTake (order : Nat) : GroupProg Nat := do
  let addr ← listTakeHead order
  bitFlipAbove order addr
  pure addr

/-- What `_page_alloc_order` does at `found`. -/
def pageFound (order group : Nat) : PageProg (Option Nat) := do
  let addr ← onGroup group (pageTake order)
  modify fun s => { s with pageFreecount := s.pageFreecount - 2 ^ order }
  pure (some addr)

def pageAllocOrder (order : Nat) : PageProg (Option Nat) := do
  let s ← get
  match s.withFree order with
  | some group => pageFound order group
  | none => do
      match ← pageSplit order (ordersAbove order) with
      | some group => pageFound order group
      | none => pure none

def PageState.pagegroupFromAddress (s : PageState) (addr : Nat) : Option Nat :=
  s.pagegroupList.find? fun group =>
    (s.pagegroup group).pgBaseaddr ≤ addr ∧ addr < (s.pagegroup group).pgEndaddr

def pageFreeOrder (addr order : Nat) : PageProg Unit := do
  let s ← get
  match s.pagegroupFromAddress addr with
  | none => pure ()
  | some group => do
      onGroup group (modify fun g => g.insertHead order addr)
      modify fun s => { s with pageFreecount := s.pageFreecount + 2 ^ order }
      onGroup group (
        if order < pageNsizes - 1 then do
          bitFlip (order + 1) addr
          pageJoin (pageNsizes - 1 - order) order addr
        else pure ())

/-- The order of a block of `npages` pages: the argument is compared as an `int`. -/
def orderOf (npages : UInt32) : Option Nat :=
  (List.range pageNsizes).find? fun order => npages.toInt32.toInt ≤ 2 ^ order

def pageAlloc : PageProg (Option Nat) := pageAllocOrder 0

def pageFree (addr : Nat) : PageProg Unit := pageFreeOrder addr 0

def pageAllocN (npages : UInt32) : PageProg (Option Nat) :=
  match orderOf npages with
  | none => fail .panic
  | some order => pageAllocOrder order

def pageFreeN (start : Nat) (npages : UInt32) : PageProg Unit :=
  match orderOf npages with
  | none => fail .panic
  | some order => pageFreeOrder start order

def pageInit : PageState := ⟨[], fun _ => ⟨fun _ => [], fun _ => 0, 0, 0, fun _ => false⟩, 0⟩

end CodingSample.Mm
