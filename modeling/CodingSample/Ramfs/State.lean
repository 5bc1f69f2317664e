import CodingSample.Prog.Basic
import CodingSample.Vfs.Files

/-!
# The in-memory file system

The inode table of `ramfs.c` with the vnodes of its files that are in core, and the functions that
allocate an inode, bring a vnode into core and give it up.
-/

namespace CodingSample.Ramfs

open Prog

/-- How a kernel function stops without returning. -/
inductive Fault where
  /-- A `KASSERT` fails. -/
  | kassert
  /-- An explicit `panic`. -/
  | panic
  /-- Memory outside a page or a freed inode is used. -/
  | badAccess
  /-- A missing vnode operation is called. -/
  | nullOp
  deriving DecidableEq, Repr

@[simp] def enoent : Int := 2
@[simp] def enomem : Int := 12
@[simp] def eexist : Int := 17
@[simp] def enospc : Int := 28
@[simp] def enotempty : Int := 39

@[simp] def pageSize : Nat := 4096
@[simp] def nameLen : Nat := 28
@[simp] def ramfsMaxFiles : Nat := 64
/-- `sizeof(ramfs_dirent_t)` -/
@[simp] def sizeofDirent : Nat := 32
@[simp] def ramfsMaxDirent : Nat := 128

/-- The bytes of a C string before its terminator. -/
abbrev Name : Type := List UInt8

@[simp] def dot : Name := [46]
@[simp] def dotdot : Name := [46, 46]

/-- `ramfs_dirent_t` -/
structure Dirent where
  rdIno : Nat
  rdName : Name
  deriving DecidableEq

/-- `vn_mode` -/
inductive VnMode where
  | reg | dir | chr | blk
  deriving DecidableEq

/-- `rf_mode`, with what `rf_mem` is for it. -/
inductive Contents where
  | data (page : Nat → UInt8)
  | dir (entries : Nat → Dirent)
  | chr (devid : UInt32)
  | blk (devid : UInt32)

namespace Contents

def vnMode : Contents → VnMode
  | data _ => .reg
  | dir _ => .dir
  | chr _ => .chr
  | blk _ => .blk

/-- The memory of the inode is a page. -/
def paged : Contents → Bool
  | data _ | dir _ => true
  | chr _ | blk _ => false

def zeroData : Contents := data fun _ => 0

def zeroDir : Contents := dir fun _ => ⟨0, []⟩

end Contents

/-- `ramfs_inode_t` -/
structure Inode where
  rfSize : Int
  rfIno : Nat
  rfLinkcount : Int
  contents : Contents

/-- `vnode_t`. No page of a ramfs file is ever resident in its memory object, and `vn_i` is the
inode that the table has under the number of the vnode. -/
structure Vnode where
  vnMode : VnMode
  vnLen : Int
  vnRefcount : Int

/-- A mounted ramfs: `rfs_inodes`, and its vnodes in `vnode_inuse_list`. -/
structure Fs where
  rfsInodes : Nat → Option Inode
  vnodes : Nat → Option Vnode

abbrev R : Type → Type := Prog Fault Fs

def kassert (test : Bool) : R Unit := check .kassert test

namespace Fs

def setInode (s : Fs) (ino : Nat) (i : Option Inode) : Fs :=
  { s with rfsInodes := Function.update s.rfsInodes ino i }

def setVnode (s : Fs) (ino : Nat) (v : Option Vnode) : Fs :=
  { s with vnodes := Function.update s.vnodes ino v }

section

variable {s : Fs} {ino j : Nat} {i : Option Inode} {v : Option Vnode}

@[simp] theorem rfsInodes_setInode_self : (s.setInode ino i).rfsInodes ino = i := by
  simp [setInode]

theorem rfsInodes_setInode_of_ne (h : j ≠ ino) :
    (s.setInode ino i).rfsInodes j = s.rfsInodes j := by
  simp [setInode, h]

@[simp] theorem vnodes_setVnode_self : (s.setVnode ino v).vnodes ino = v := by
  simp [setVnode]

theorem vnodes_setVnode_of_ne (h : j ≠ ino) : (s.setVnode ino v).vnodes j = s.vnodes j := by
  simp [setVnode, h]

end

end Fs

/-- `VNODE_TO_RAMFSINODE` -/
def getInode (ino : Nat) : R Inode := do
  let s ← get
  match s.rfsInodes ino with
  | some inode => pure inode
  | none => fail .badAccess

def modifyInode (ino : Nat) (f : Inode → Inode) : R Unit := do
  let inode ← getInode ino
  modify fun s => s.setInode ino (some (f inode))

def getVnode (ino : Nat) : R Vnode := do
  let s ← get
  match s.vnodes ino with
  | some v => pure v
  | none => fail .badAccess

/-- `inode->rf_linkcount += n` -/
def addLinks (ino : Nat) (n : Int) : R Unit :=
  modifyInode ino fun inode => { inode with rfLinkcount := inode.rfLinkcount + n }

/-- `inode->rf_size += n` -/
def addSize (ino : Nat) (n : Int) : R Unit :=
  modifyInode ino fun inode => { inode with rfSize := inode.rfSize + n }

/-- Whether the kernel has memory for an inode and for a page. -/
structure Supply where
  kmalloc : Bool
  pageAlloc : Bool

/-- `ramfs_alloc_inode`, for an inode with the given memory. -/
def ramfsAllocInode (fresh : Contents) (mem : Supply) : R Int := do
  let s ← get
  match (List.range ramfsMaxFiles).find? fun i => (s.rfsInodes i).isNone with
  | none => pure (-enospc)
  | some i =>
      if mem.kmalloc = false then pure (-enospc)
      else if fresh.paged = true ∧ mem.pageAlloc = false then pure (-enospc)
      else do
        modify fun s => s.setInode i (some ⟨0, i, 1, fresh⟩)
        pure i

/-- `ramfs_read_vnode`, which makes the new vnode of inode `ino`. -/
def ramfsReadVnode (ino : Nat) : R Vnode := do
  let s ← get
  match s.rfsInodes ino with
  | none => fail .kassert
  | some inode => do
      kassert (inode.rfIno = ino)
      addLinks ino 1
      pure ⟨inode.contents.vnMode, inode.rfSize, 0⟩

def ramfsDeleteVnode (ino : Nat) : R Unit := do
  addLinks ino (-1)
  let inode ← getInode ino
  if inode.rfLinkcount = 0 then modify fun s => s.setInode ino none else pure ()

def ramfsQueryVnode (ino : Nat) : R Bool := do
  let inode ← getInode ino
  pure (1 < inode.rfLinkcount)

def vget (ino : Nat) : R Unit := do
  let s ← get
  match s.vnodes ino with
  | some v => do
      kassert (0 < v.vnRefcount)
      modify fun s => s.setVnode ino (some { v with vnRefcount := v.vnRefcount + 1 })
  | none => do
      let v ← ramfsReadVnode ino
      modify fun s => s.setVnode ino (some { v with vnRefcount := 1 })

/-- `vput` of a vnode without resident pages. -/
def vput (ino : Nat) : R Unit := do
  let v ← getVnode ino
  kassert (0 < v.vnRefcount)
  if 0 < v.vnRefcount - 1 then
    modify fun s => s.setVnode ino (some { v with vnRefcount := v.vnRefcount - 1 })
  else do
    ramfsDeleteVnode ino
    modify fun s => s.setVnode ino none

/-! ### Directories -/

/-- `VNODE_TO_DIRENT` -/
def getEntries (dir : Nat) : R (Nat → Dirent) := do
  let inode ← getInode dir
  match inode.contents with
  | .dir entries => pure entries
  | .data _ | .chr _ | .blk _ => fail .badAccess

def setEntry (dir i : Nat) (entry : Dirent) : R Unit := do
  let entries ← getEntries dir
  modifyInode dir fun inode => { inode with contents := .dir (Function.update entries i entry) }

/-- The first entry of a directory that passes a test. -/
def findEntry (entries : Nat → Dirent) (test : Dirent → Bool) : Option Nat :=
  (List.range ramfsMaxDirent).find? fun i => test (entries i)

/-- `name_match`: the same length, and the same bytes. -/
def nameMatch (fname name : Name) : Bool := fname == name

/-- `ramfs_lookup`: the vnode found, or nothing for `-ENOENT`. -/
def ramfsLookup (dir : Nat) (name : Name) : R (Option Nat) := do
  let entries ← getEntries dir
  match findEntry entries fun e => nameMatch e.rdName name with
  | some i => do
      vget (entries i).rdIno
      pure (some (entries i).rdIno)
  | none => pure none

/-- `ramfs_mount` -/
def ramfsMount (mem : Supply) : R Int :=
  if mem.kmalloc = false then pure (-enomem)
  else do
    modify fun s => { s with rfsInodes := fun _ => none }
    let rootIno ← ramfsAllocInode .zeroDir mem
    if rootIno < 0 then pure rootIno
    else do
      kassert (rootIno = 0)
      setEntry 0 0 ⟨0, dot⟩
      setEntry 0 1 ⟨0, dotdot⟩
      addSize 0 (2 * sizeofDirent)
      vget 0
      pure 0

end CodingSample.Ramfs
