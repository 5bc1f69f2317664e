import CodingSample.Prog.Basic
import CodingSample.Data.Block

/-!
# The state of a mounted S5 file system

The superblock and the inode table are kept as typed tables: the pages of the block device that
hold them are pinned while they are in use, so a program sees one copy of each. Every other disk
block is a block of bytes that can be cached twice, as a page of the block device and as a page
of the file it belongs to, and both caches are explicit here.
-/

namespace CodingSample.S5fs

/-- How a kernel function stops without returning. -/
inductive Fault where
  /-- A `KASSERT` fails. -/
  | kassert
  /-- An explicit `panic`. -/
  | panic
  /-- A freed page or memory outside a page or buffer is used. -/
  | badAccess
  /-- A missing vnode operation is called. -/
  | nullOp
  | notYetImplemented
  deriving DecidableEq, Repr

@[simp] def s5NblksPerFnode : Nat := 30
@[simp] def s5NdirectBlocks : Nat := 28
@[simp] def s5NidirectBlocks : Nat := 1024
/-- `S5_BLOCK_SIZE`, which is also `PAGE_SIZE` -/
@[simp] def s5BlockSize : Nat := 4096
@[simp] def s5MaxFileBlocks : Nat := 1052

@[simp] def enoent : Int := 2
@[simp] def eio : Int := 5
@[simp] def enospc : Int := 28

/-- The word `(uint32_t) -1`, which ends the free lists. -/
@[simp] def noBlock : UInt32 := 0xffffffff

/-- A word as the C type `int`. -/
def toInt32 (w : UInt32) : Int :=
  if w.toNat < 2147483648 then w.toNat else w.toNat - 4294967296

/-- An `int` stored in a `uint32_t`. -/
def ofInt32 (n : Int) : UInt32 := UInt32.ofNat (n % 4294967296).toNat

/-- Reduction to the range of `int16_t`. -/
def toInt16 (n : Int) : Int :=
  if n % 65536 < 32768 then n % 65536 else n % 65536 - 65536

/-- The type of an inode: `S5_TYPE_FREE` and so on. -/
inductive S5Type where
  | free | data | dir | chr | blk
  deriving DecidableEq, Repr

/-- `s5_super_t`, without the magic number and the version. -/
structure Super where
  s5sFreeInode : Nat
  s5sNfree : Nat
  s5sFreeBlocks : Nat → UInt32
  s5sRootInode : Nat
  s5sNumInodes : Nat

/-- `s5_inode_t`. `s5Un` is the union of `s5_size` and `s5_next_free`. -/
structure Inode where
  s5Un : Nat
  s5Number : Nat
  s5Type : S5Type
  s5Linkcount : Int
  s5DirectBlocks : Nat → UInt32
  s5IndirectBlock : UInt32

namespace Inode

def s5Size (i : Inode) : Nat := i.s5Un

def s5NextFree (i : Inode) : Nat := i.s5Un

end Inode

/-- A resident page: the memory at `pf_addr` and the flag `PF_DIRTY`. -/
structure PFrame where
  data : Block
  dirty : Bool

/-- The file type in `vn_mode`. -/
inductive VnMode where
  | chr | dir | blk | reg
  deriving DecidableEq, Repr

/-- `vnode_t`. The pages resident in `vn_mmobj` are listed in `vnRespages`. -/
structure Vnode where
  vnMode : VnMode
  vnLen : Int
  vnDevid : UInt32
  vnRefcount : Int
  vnRespages : List Nat
  vnFrame : Nat → PFrame

namespace Vnode

def vnNrespages (v : Vnode) : Int := v.vnRespages.length

/-- The resident page with number `n`. -/
def page (v : Vnode) (n : Nat) : Option PFrame :=
  if n ∈ v.vnRespages then some (v.vnFrame n) else none

def setFrame (v : Vnode) (n : Nat) (p : PFrame) : Vnode :=
  { v with vnFrame := Function.update v.vnFrame n p }

end Vnode

/-- A mounted file system: `s5fs_t`, the memory object of its block device, the disk, and the
vnodes in `vnode_inuse_list`. -/
structure S5 where
  super : Super
  inodes : Nat → Inode
  bdev : UInt32 → Option PFrame
  disk : UInt32 → Block
  vnodes : Nat → Option Vnode

/-- The block device. Its driver is not part of the repository; the file system relies on it to
refuse block number `-1` and to serve the blocks of the disk. -/
class BlockDev where
  /-- The blocks that `read_block` and `write_block` accept. -/
  serves : UInt32 → Bool
  refuses_noBlock : serves noBlock = false

/-- Kernel code. -/
abbrev K : Type → Type := Prog Fault S5

/-- `KASSERT` -/
def kassert (test : Bool) : K Unit := Prog.check .kassert test

namespace S5

def setSuper (s : S5) (sup : Super) : S5 := { s with super := sup }

def setInode (s : S5) (ino : Nat) (i : Inode) : S5 :=
  { s with inodes := Function.update s.inodes ino i }

def setVnode (s : S5) (ino : Nat) (v : Option Vnode) : S5 :=
  { s with vnodes := Function.update s.vnodes ino v }

def setBdev (s : S5) (b : UInt32) (p : Option PFrame) : S5 :=
  { s with bdev := Function.update s.bdev b p }

def setDisk (s : S5) (b : UInt32) (d : Block) : S5 :=
  { s with disk := Function.update s.disk b d }

section

variable {s : S5}

@[simp] theorem inodes_setInode_self {ino : Nat} {i : Inode} :
    (s.setInode ino i).inodes ino = i := by
  simp [setInode]

theorem inodes_setInode_of_ne {ino j : Nat} {i : Inode} (h : j ≠ ino) :
    (s.setInode ino i).inodes j = s.inodes j := by
  simp [setInode, h]

@[simp] theorem vnodes_setVnode_self {ino : Nat} {v : Option Vnode} :
    (s.setVnode ino v).vnodes ino = v := by
  simp [setVnode]

theorem vnodes_setVnode_of_ne {ino j : Nat} {v : Option Vnode} (h : j ≠ ino) :
    (s.setVnode ino v).vnodes j = s.vnodes j := by
  simp [setVnode, h]

@[simp] theorem bdev_setBdev_self {b : UInt32} {p : Option PFrame} :
    (s.setBdev b p).bdev b = p := by
  simp [setBdev]

theorem bdev_setBdev_of_ne {b c : UInt32} {p : Option PFrame} (h : c ≠ b) :
    (s.setBdev b p).bdev c = s.bdev c := by
  simp [setBdev, h]

end

/-- What the block device shows for a block: its cached page if there is one. -/
def bview (s : S5) (b : UInt32) : Block :=
  match s.bdev b with
  | some p => p.data
  | none => s.disk b

end S5

theorem ofInt32_toInt32 (w : UInt32) : ofInt32 (toInt32 w) = w := by
  have hw := w.toNat_lt
  apply UInt32.toNat_inj.mp
  have hmod : toInt32 w % 4294967296 = w.toNat := by
    rw [toInt32]
    split <;> omega
  rw [ofInt32, hmod, Int.toNat_natCast, UInt32.toNat_ofNat']
  omega

theorem toInt32_of_lt {w : UInt32} (h : w.toNat < 2147483648) : toInt32 w = w.toNat :=
  if_pos h

theorem toInt32_neg_iff {w : UInt32} : toInt32 w < 0 ↔ 2147483648 ≤ w.toNat := by
  have hw := w.toNat_lt
  unfold toInt32
  split <;> omega

end CodingSample.S5fs
