import CodingSample.Mm.Page

/-!
# Page tables

Page directories and page tables are named by the numbers of their pages. What `page_alloc` answers
is an input, and the blocks that it gave and that are not freed are kept, so that a call of
`page_free` for another block is a fault. Addresses below `USER_MEM_HIGH` do not overflow.
-/

namespace CodingSample.Mm

open Prog

@[simp] def ptEntryCount : Nat := 1024

/-- The memory that one page table maps. -/
@[simp] def ptVaddrSize : Nat := 4194304

@[simp] def userMemLow : Nat := 4194304
@[simp] def userMemHigh : Nat := 3221225472

def ptPresent : UInt32 := 1
def pageMask : UInt32 := 4294963200

def enomem : Int := 12

/-- `struct pagedir` -/
structure Pagedir where
  pdPhysical : Nat → UInt32
  /-- The pages of the tables, zero for `NULL`. -/
  pdVirtual : Nat → Nat

def Pagedir.present (d : Pagedir) (index : Nat) : Bool := d.pdPhysical index &&& ptPresent ≠ 0

/-- The entries of a directory for user memory. -/
def UserIndex (i : Nat) : Prop := 0 < i ∧ i < 768

instance (i : Nat) : Decidable (UserIndex i) := instDecidableAnd

/-- What `pt_init` and `pt_template_init` leave. -/
class KernelTables where
  templatePagedir : Pagedir
  /-- The entries that the page tables of the kernel have for the pages of its memory. -/
  kernel : Nat → UInt32
  /-- The template maps no user memory. -/
  absent : ∀ i, UserIndex i → templatePagedir.present i = false

structure PtState where
  pagedir : Nat → Pagedir
  /-- The entries of the page at a number, as a page table. -/
  pagetable : Nat → Nat → UInt32
  /-- The blocks that `page_alloc` and `page_alloc_n` gave: the first page and the order. -/
  out : List (Nat × Nat)

inductive PtFault where
  /-- A failed `KASSERT`. -/
  | kassert
  /-- `page_free` of a block that is not in use. -/
  | badFree
  deriving DecidableEq

abbrev PtProg := Prog PtFault PtState

def ptCheck (test : Bool) : PtProg Unit := check .kassert test

def pageAligned (addr : Nat) : Bool := addr % pageSize = 0

def vaddrToPdindex (vaddr : Nat) : Nat := vaddr / pageSize / ptEntryCount
def vaddrToPtindex (vaddr : Nat) : Nat := vaddr / pageSize % ptEntryCount

namespace PtState

variable (s : PtState)

def setPagedir (pd : Nat) (d : Pagedir) : PtState :=
  { s with pagedir := Function.update s.pagedir pd d }

/-- Write both entries of a directory for a table. -/
def setPde (pd index : Nat) (physical : UInt32) (pt : Nat) : PtState :=
  let d := s.pagedir pd
  s.setPagedir pd
    ⟨Function.update d.pdPhysical index physical, Function.update d.pdVirtual index pt⟩

def setTable (pt : Nat) (entries : Nat → UInt32) : PtState :=
  { s with pagetable := Function.update s.pagetable pt entries }

end PtState

section

variable [KernelTables]

/-- `pt_virt_to_phys` of a page of kernel memory. -/
def ptVirtToPhys (page : Nat) : UInt32 := KernelTables.kernel page &&& pageMask

/-- `page_alloc` and `page_alloc_n`, with the answer. -/
def ptPageAlloc (order : Nat) (fresh : Option Nat) : PtProg (Option Nat) := do
  modify fun s => { s with out := (fresh.map (·, order)).toList ++ s.out }
  pure fresh

/-- `page_free` and `page_free_n` -/
def ptPageFree (order page : Nat) : PtProg Unit := do
  let s ← get
  check .badFree ((page, order) ∈ s.out)
  modify fun s => { s with out := s.out.erase (page, order) }

/-- The first half of `pt_map`: the page table for an entry, made if the directory has none. -/
def ptMapTable (pd index : Nat) (pdflags : UInt32) (fresh : Option Nat) : PtProg (Option Nat) := do
  let s ← get
  let d := s.pagedir pd
  if d.present index then do
    -- `pd_virtual` stays as it is
    modify fun s => s.setPde pd index (d.pdPhysical index ||| pdflags) (d.pdVirtual index)
    pure (some (d.pdVirtual index))
  else do
    match ← ptPageAlloc 0 fresh with
    | none => pure none
    | some pt => do
        ptCheck (pdflags &&& ~~~pageMask = pdflags)
        modify fun s => s.setTable pt fun _ => 0
        modify fun s => s.setPde pd index (ptVirtToPhys pt ||| pdflags) pt
        pure (some pt)

def ptMap (pd vaddr : Nat) (paddr pdflags ptflags : UInt32) (fresh : Option Nat) : PtProg Int := do
  ptCheck (pageAligned vaddr && pageAligned paddr.toNat)
  ptCheck (userMemLow ≤ vaddr ∧ vaddr < userMemHigh)
  match ← ptMapTable pd (vaddrToPdindex vaddr) pdflags fresh with
  | none => pure (-enomem)
  | some pt => do
      ptCheck (ptflags &&& ~~~pageMask = ptflags)
      modify fun s => s.setTable pt
        (Function.update (s.pagetable pt) (vaddrToPtindex vaddr) (paddr ||| ptflags))
      pure 0

/-- Write over the entries of a page table, if the directory has it. -/
def onTable (pd index : Nat) (f : (Nat → UInt32) → Nat → UInt32) : PtProg Unit := modify fun s =>
  let d := s.pagedir pd
  let pt := d.pdVirtual index
  if d.present index then s.setTable pt (f (s.pagetable pt)) else s

def ptUnmap (pd vaddr : Nat) : PtProg Unit := do
  ptCheck (pageAligned vaddr)
  ptCheck (userMemLow ≤ vaddr ∧ vaddr < userMemHigh)
  onTable pd (vaddrToPdindex vaddr) fun entries =>
    Function.update entries (vaddrToPtindex vaddr) 0

/-- `memset` of the entries from `first` on and below `stop`. -/
def clearEntries (first stop : Nat) (entries : Nat → UInt32) : Nat → UInt32 := fun i =>
  if first ≤ i ∧ i < stop then 0 else entries i

/-- Clear entries of the table of an address that is not the first one of its table. -/
def clearPart (pd vaddr first stop : Nat) : PtProg Unit :=
  if vaddrToPtindex vaddr ≠ 0 then onTable pd (vaddrToPdindex vaddr) (clearEntries first stop)
  else pure ()

/-- The body of the loop of `pt_unmap_range`. -/
def freeTable (pd index : Nat) : PtProg Unit := do
  let s ← get
  let d := s.pagedir pd
  if d.present index then do
    ptPageFree 0 (d.pdVirtual index)
    modify fun s => s.setPde pd index 0 0
  else pure ()

def ptUnmapRange (pd vlow vhigh : Nat) : PtProg Unit := do
  ptCheck (vlow < vhigh)
  ptCheck (pageAligned vlow && pageAligned vhigh)
  ptCheck (userMemLow ≤ vlow ∧ vhigh ≤ userMemHigh)
  clearPart pd vlow (vaddrToPtindex vlow) ptEntryCount
  let vlow := vlow + pageSize * ((ptEntryCount - vaddrToPtindex vlow) % ptEntryCount)
  clearPart pd vhigh 0 (vaddrToPtindex vhigh)
  let vhigh := vhigh - pageSize * vaddrToPtindex vhigh
  each (freeTable pd)
    (List.range' (vaddrToPdindex vlow) (vaddrToPdindex vhigh - vaddrToPdindex vlow))

def ptCreatePagedir (fresh : Option Nat) : PtProg (Option Nat) := do
  match ← ptPageAlloc 1 fresh with
  | none => pure none
  | some pdir => do
      modify fun s => s.setPagedir pdir KernelTables.templatePagedir
      pure (some pdir)

/-- The body of the loop of `pt_destroy_pagedir`, which leaves the entries as they are. -/
def releaseTable (pdir index : Nat) : PtProg Unit := do
  let s ← get
  let d := s.pagedir pdir
  if d.present index then ptPageFree 0 (d.pdVirtual index) else pure ()

def ptDestroyPagedir (pdir : Nat) : PtProg Unit := do
  let first := userMemLow / ptVaddrSize
  let last := (userMemHigh - 1) / ptVaddrSize
  ptCheck (first < last ∧ 0 < first)
  each (releaseTable pdir) (List.range' first (last + 1 - first))
  ptPageFree 1 pdir

end

end CodingSample.Mm
