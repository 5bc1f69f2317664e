import CodingSample.Prog.Raise
import CodingSample.Data.Block

/-!
# The image editor

`api.py` of `fsmaker`: the superblock, the free lists, inodes and directories of an image, edited
as bytes of one file.
-/

namespace CodingSample.Fsmaker

open Raise

/-- The blocks of the image file. -/
abbrev Simfile : Type := Nat → Block

/-- A file just truncated. -/
def Simfile.empty : Simfile := fun _ => CodingSample.Block.zero

/-- What the editor raises. `S5fsException` is told apart by the check that raised it, and
`struct.error` is no `S5fsException`. -/
inductive PyErr where
  | s5fs (cause : String)
  | diskSpace
  | structError
  deriving DecidableEq, Repr

/-- `except S5fsException` -/
def PyErr.isS5fs : PyErr → Bool
  | .s5fs _ | .diskSpace => true
  | .structError => false

abbrev Py : Type → Type := Raise PyErr Simfile

@[simp] def s5BlockSize : Nat := 4096
@[simp] def s5NblksPerFnode : Nat := 30
@[simp] def s5NdirectBlocks : Nat := 28
@[simp] def s5MaxFileBlocks : Nat := s5NdirectBlocks + s5BlockSize / 4
@[simp] def s5MaxFileSize : Nat := s5MaxFileBlocks * s5BlockSize
@[simp] def s5NameLen : Nat := 28
@[simp] def s5DirentSize : Nat := s5NameLen + 4
@[simp] def s5InodeSize : Nat := 16 + s5NdirectBlocks * 4
@[simp] def s5InodesPerBlock : Nat := s5BlockSize / s5InodeSize

@[simp] def s5TypeFree : Nat := 0
@[simp] def s5TypeData : Nat := 1
@[simp] def s5TypeDir : Nat := 2
@[simp] def s5TypeChr : Nat := 4
@[simp] def s5TypeBlk : Nat := 8

/-- `struct.pack("I", val)` -/
def pack (val : Nat) : Py UInt32 :=
  if val < 4294967296 then pure (UInt32.ofNat val) else raise .structError

/-- Read the word at index `i` of block `b`. -/
def word (b i : Nat) : Py UInt32 := gets fun f => (f b).word i

/-- The file with bytes `src` written at an offset of block `b`. -/
def Simfile.write (f : Simfile) (b off : Nat) (src : List UInt8) : Simfile :=
  Function.update f b ((f b).copyIn off src.length fun j => src.getD j 0)

/-- The file with a word written at index `i` of block `b`. -/
def Simfile.setWord (f : Simfile) (b i : Nat) (w : UInt32) : Simfile :=
  Function.update f b ((f b).setWord i w)

def setWord (b i : Nat) (w : UInt32) : Py Unit := modify fun f => f.setWord b i w

/-! ### The superblock -/

namespace Simdisk

def getFreeInode : Py UInt32 := word 0 1

def setFreeInode (val : UInt32) : Py Unit := setWord 0 1 val

def getNfree : Py UInt32 := word 0 2

def setNfree (val : UInt32) : Py Unit := setWord 0 2 val

def getFreeBlock (index : Nat) : Py UInt32 := do
  raiseIf (¬ index < s5NblksPerFnode - 1) (.s5fs "free block index")
  word 0 (3 + index)

def setFreeBlock (index : Nat) (val : UInt32) : Py Unit := do
  raiseIf (¬ index < s5NblksPerFnode - 1) (.s5fs "free block index")
  setWord 0 (3 + index) val

def getLastFreeBlock : Py UInt32 := word 0 (3 + (s5NblksPerFnode - 1))

def setLastFreeBlock (val : UInt32) : Py Unit := setWord 0 (3 + (s5NblksPerFnode - 1)) val

def getRootInode : Py UInt32 := word 0 (3 + s5NblksPerFnode)

def getNumInodes : Py UInt32 := word 0 (4 + s5NblksPerFnode)

def setNumInodes (val : UInt32) : Py Unit := setWord 0 (4 + s5NblksPerFnode) val

/-! ### Blocks -/

def allocBlock : Py UInt32 := do
  let nfree ← getNfree
  raiseIf (nfree.toNat > s5NblksPerFnode - 1) (.s5fs "nfree is invalid")
  if nfree = 0 then do
    let block ← getLastFreeBlock
    if block = 0xffffffff then
      raise .diskSpace
    else do
      each (fun i => word block.toNat i >>= setFreeBlock i) (List.range (s5NblksPerFnode - 1))
      word block.toNat (s5NblksPerFnode - 1) >>= setLastFreeBlock
      setNfree (UInt32.ofNat (s5NblksPerFnode - 1))
      pure block
  else do
    setNfree (nfree - 1)
    let nfree ← getNfree
    getFreeBlock nfree.toNat

end Simdisk

open Simdisk

/-- `Block.free` -/
def Block.free (blockno : UInt32) : Py Unit := do
  let nfree ← getNfree
  if nfree.toNat < s5NblksPerFnode - 1 then do
    setFreeBlock nfree.toNat blockno
    setNfree (nfree + 1)
  else do
    each (fun i => getFreeBlock i >>= setWord blockno.toNat i)
      (List.range (s5NblksPerFnode - 1))
    getLastFreeBlock >>= setWord blockno.toNat (s5NblksPerFnode - 1)
    setLastFreeBlock blockno
    setNfree 0

/-- `Block.zero` -/
def Block.zero (blockno : UInt32) : Py Unit :=
  modify fun f => Function.update f blockno.toNat CodingSample.Block.zero

/-! ### Inodes -/

namespace Inode

/-- The block of an inode and the index of its first word there. -/
def block (n : Nat) : Nat := 1 + n / s5InodesPerBlock

def base (n : Nat) : Nat := s5InodeSize / 4 * (n % s5InodesPerBlock)

def getSize (n : Nat) : Py Nat := gets fun f => ((f (block n)).word (base n)).toNat

def setSize (n val : Nat) : Py Unit := pack val >>= setWord (block n) (base n)

def getNextFree (n : Nat) : Py UInt32 := word (block n) (base n)

def setNextFree (n : Nat) (val : UInt32) : Py Unit := setWord (block n) (base n) val

def getNumber (n : Nat) : Py UInt32 := word (block n) (base n + 1)

def setNumber (n : Nat) (val : UInt32) : Py Unit := setWord (block n) (base n + 1) val

/-- `struct.unpack("H", ..)` -/
def getType (n : Nat) : Py Nat := gets fun f => (f (block n)).half (2 * (base n + 2))

/-- `struct.pack("H", ..)` of one of the type codes. -/
def setType (n val : Nat) : Py Unit :=
  modify fun f => Function.update f (block n) ((f (block n)).setHalf (2 * (base n + 2)) val)

/-- `struct.unpack("h", ..)` -/
def getLinkCount (n : Nat) : Py Int :=
  gets fun f => Block.signed ((f (block n)).half (2 * (base n + 2) + 1))

/-- `struct.pack("h", ..)` -/
def setLinkCount (n : Nat) (val : Int) : Py Unit :=
  if -32768 ≤ val ∧ val < 32768 then
    modify fun f => Function.update f (block n)
      ((f (block n)).setHalf (2 * (base n + 2) + 1) (val % 65536).toNat)
  else
    raise .structError

def getDirectBlockno (n index : Nat) : Py UInt32 := do
  raiseIf (¬ index < s5NdirectBlocks) (.s5fs "direct block index")
  word (block n) (base n + 3 + index)

def setDirectBlockno (n index : Nat) (val : UInt32) : Py Unit := do
  raiseIf (¬ index < s5NdirectBlocks) (.s5fs "direct block index")
  setWord (block n) (base n + 3 + index) val

def getIndirectBlockno (n : Nat) : Py UInt32 := word (block n) (base n + 3 + s5NdirectBlocks)

def setIndirectBlockno (n : Nat) (val : UInt32) : Py Unit :=
  setWord (block n) (base n + 3 + s5NdirectBlocks) val

/-- `Simdisk.get_inode`: an inode object is its index. -/
def get (index : Nat) : Py Nat := do
  let inodes ← getNumInodes
  raiseIf (inodes.toNat ≤ index) (.s5fs "cannot get inode")
  pure index

def IsFileType (t : Nat) : Bool := t = s5TypeData ∨ t = s5TypeDir

/-- `Block.read` -/
def blockRead (blockno : UInt32) (offset size : Nat) : Py (List UInt8) := do
  raiseIf (s5BlockSize < offset + size) (.s5fs "cannot read")
  gets fun f => (List.range size).map fun j => f blockno.toNat (offset + j)

/-- `Block.write` -/
def blockWrite (blockno : UInt32) (offset : Nat) (data : List UInt8) : Py Unit := do
  raiseIf (s5BlockSize < offset + data.length) (.s5fs "cannot write")
  modify fun f => f.write blockno.toNat offset data

/-- Entry `i` of an indirect block. -/
def indirectRead (indirect : UInt32) (i : Nat) : Py UInt32 := do
  raiseIf (s5BlockSize < i * 4 + 4) (.s5fs "cannot read")
  word indirect.toNat i

def indirectWrite (indirect : UInt32) (i : Nat) (val : UInt32) : Py Unit := do
  raiseIf (s5BlockSize < i * 4 + 4) (.s5fs "cannot write")
  setWord indirect.toNat i val

/-- The block `read` uses for block `blockloc` of the file, `0` for a sparse one. -/
def readBlockno (n blockloc : Nat) : Py UInt32 :=
  if blockloc < s5NdirectBlocks then
    getDirectBlockno n blockloc
  else do
    let indirect ← getIndirectBlockno n
    if indirect = 0 then pure 0 else indirectRead indirect (blockloc - s5NdirectBlocks)

/-- The loop of `read`. Each round reads at least one byte, so `size` rounds are enough. -/
def readLoop (n : Nat) : Nat → Nat → Nat → List UInt8 → Py (List UInt8)
  | 0, _, _, res => pure res
  | fuel + 1, offset, size, res =>
      if 0 < size then do
        let ammount := min (s5BlockSize - offset % s5BlockSize) size
        let blockno ← readBlockno n (offset / s5BlockSize)
        let part ← if blockno = 0 then pure (List.replicate ammount 0)
          else blockRead blockno (offset % s5BlockSize) ammount
        readLoop n fuel (offset + ammount) (size - ammount) (res ++ part)
      else
        pure res

def read (n offset size : Nat) : Py (List UInt8) := do
  let type ← getType n
  raiseIf (¬ IsFileType type) (.s5fs "cannot read from inode")
  let fileSize ← getSize n
  let size := min size (min s5MaxFileSize fileSize - offset)
  readLoop n size offset size []

/-- The block `write` uses for block `blockloc` of the file, allocated if need be. -/
def writeBlockno (n blockloc : Nat) : Py UInt32 := do
  let blockno ← if blockloc < s5NdirectBlocks then
      getDirectBlockno n blockloc
    else do
      let indirect ← getIndirectBlockno n
      if indirect = 0 then do
        let indirect ← allocBlock
        Block.zero indirect
        setIndirectBlockno n indirect
        pure 0
      else
        indirectRead indirect (blockloc - s5NdirectBlocks)
  if blockno = 0 then do
    let block ← allocBlock
    Block.zero block
    if blockloc < s5NdirectBlocks then
      setDirectBlockno n blockloc block
    else do
      let indirect ← getIndirectBlockno n
      indirectWrite indirect (blockloc - s5NdirectBlocks) block
    pure block
  else
    pure blockno

/-- The loop of `write`, which returns the offset it reached. -/
def writeLoop (n : Nat) : Nat → Nat → List UInt8 → Py Nat
  | 0, offset, _ => pure offset
  | fuel + 1, offset, data =>
      if 0 < data.length then do
        let ammount := min (s5BlockSize - offset % s5BlockSize) data.length
        let block ← writeBlockno n (offset / s5BlockSize)
        blockWrite block (offset % s5BlockSize) (data.take ammount)
        writeLoop n fuel (offset + ammount) (data.drop ammount)
      else
        pure offset

def write (n offset : Nat) (data : List UInt8) : Py Unit := do
  let type ← getType n
  raiseIf (¬ IsFileType type) (.s5fs "cannot write to inode")
  raiseIf (s5MaxFileSize < offset + data.length) (.s5fs "cannot write up to byte")
  let offset ← writeLoop n data.length offset data
  let size ← getSize n
  if size < offset then setSize n offset else pure ()

/-- One round of the first loop of `truncate`. -/
def truncateBlock (n curr : Nat) : Py Unit := do
  let blockno ← readBlockno n curr
  if blockno = 0 then
    pure ()
  else do
    Block.free blockno
    if curr < s5NdirectBlocks then
      setDirectBlockno n curr 0
    else do
      let indirect ← getIndirectBlockno n
      indirectWrite indirect (curr - s5NdirectBlocks) 0
      if curr = s5NdirectBlocks then do
        Block.free indirect
        setIndirectBlockno n 0
      else
        pure ()

/-- `truncate` to size `0`, the only size it is called with. -/
def truncate (n : Nat) : Py Unit := do
  let size ← getSize n
  each (truncateBlock n) (List.range (size / s5BlockSize + 1)).reverse
  setSize n 0

def free (n : Nat) : Py Unit := do
  let size ← getSize n
  if size ≠ 0 then truncate n else pure ()
  setType n s5TypeFree
  getFreeInode >>= setNextFree n
  pack n >>= setFreeInode

/-! ### Directories -/

/-- `Dirent`, without its parent. -/
structure Dirent where
  inode : UInt32
  name : List UInt8
  offset : Nat
  deriving DecidableEq

/-- `Dirent.remove` -/
def Dirent.remove (n : Nat) (d : Dirent) : Py Unit := write n (d.offset + 4) [0]

/-- The bytes before the first null character. -/
def cstr (bytes : List UInt8) : List UInt8 := bytes.takeWhile (· ≠ 0)

/-- `struct.unpack("I", ..)` -/
def unpack : List UInt8 → Py UInt32
  | [b0, b1, b2, b3] => pure (CodingSample.Block.ofBytes b0 b1 b2 b3)
  | _ => raise .structError

/-- Read the entry at offset `i`, insisting on a null character in the name. -/
def readDirent (n i : Nat) : Py Dirent := do
  let inode ← read n i 4 >>= unpack
  let name ← read n (i + 4) s5NameLen
  raiseIf (0 ∉ name) (.s5fs "directory entry name does not contain a null character")
  pure ⟨inode, cstr name, i⟩

/-- `xrange(0, size, S5_DIRENT_SIZE)` -/
def direntOffsets (size : Nat) : List Nat :=
  (List.range ((size + (s5DirentSize - 1)) / s5DirentSize)).map (s5DirentSize * ·)

def checkDir (n : Nat) : Py Unit := do
  let type ← getType n
  raiseIf (type ≠ s5TypeDir) (.s5fs "non-directory inode")
  let size ← getSize n
  raiseIf (size % s5DirentSize ≠ 0) (.s5fs "size not a multiple of dirent size")

def checkName (name : List UInt8) : Py Unit :=
  raiseIf (s5NameLen ≤ name.length) (.s5fs "directory entry name too long")

def findDirentLoop (n : Nat) (name : List UInt8) : List Nat → Py (Option Dirent)
  | [] => pure none
  | i :: rest => do
      let dirent ← readDirent n i
      if name = dirent.name then pure (some dirent) else findDirentLoop n name rest

/-- `_find_dirent` -/
def findDirent (n : Nat) (name : List UInt8) : Py (Option Dirent) := do
  checkDir n
  checkName name
  let size ← getSize n
  findDirentLoop n name (direntOffsets size)

/-- The loop of `_make_dirent`, which returns the entry an empty name replaces. -/
def makeDirentLoop (n : Nat) (name : List UInt8) : List Nat → Option Nat → Py (Option Nat)
  | [], empty => pure empty
  | i :: rest, empty => do
      let direntname ← read n (i + 4) s5NameLen
      raiseIf (cstr direntname = name) (.s5fs "directory already has entry with same name")
      makeDirentLoop n name rest (if name.length = 0 then some i else empty)

/-- `struct.pack("I", ..)` of a word. -/
def wordBytes (w : UInt32) : List UInt8 := (List.range 4).map (CodingSample.Block.byteOf w)

/-- `name.ljust(S5_NAME_LEN, '\0')` -/
def ljust (name : List UInt8) : List UInt8 :=
  name ++ List.replicate (s5NameLen - name.length) 0

/-- `_make_dirent` -/
def makeDirent (n : Nat) (inode : UInt32) (name : List UInt8) : Py Unit := do
  checkDir n
  checkName name
  let size ← getSize n
  match ← makeDirentLoop n name (direntOffsets size) none with
  | some empty => do
      write n empty (wordBytes inode)
      write n (empty + 4) (ljust name)
  | none => do
      let size ← getSize n
      write n size (wordBytes inode)
      let size ← getSize n
      write n size (ljust name)

def getdentsLoop (n : Nat) : List Nat → Py (List Dirent)
  | [] => pure []
  | i :: rest => do
      let dirent ← readDirent n i
      let dirents ← getdentsLoop n rest
      pure (if 0 < dirent.name.length then dirent :: dirents else dirents)

def getdents (n : Nat) : Py (List Dirent) := do
  checkDir n
  let size ← getSize n
  getdentsLoop n (direntOffsets size)

/-- `.` -/
def dot : List UInt8 := [46]

/-- `..` -/
def dotdot : List UInt8 := [46, 46]

/-- `is_empty` stops reading at the first entry that is not a special one. -/
def isEmptyLoop (n : Nat) : List Nat → Py Bool
  | [] => pure true
  | i :: rest => do
      let dirent ← readDirent n i
      if 0 < dirent.name.length ∧ dirent.name ≠ dot ∧ dirent.name ≠ dotdot then
        pure false
      else
        isEmptyLoop n rest

def isEmpty (n : Nat) : Py Bool := do
  checkDir n
  let size ← getSize n
  isEmptyLoop n (direntOffsets size)

def findOrRaise (n : Nat) (name : List UInt8) : Py Dirent := do
  match ← findDirent n name with
  | none => raise (.s5fs "no such file or directory")
  | some dirent => pure dirent

def unlink (n : Nat) (name : List UInt8) : Py Unit := do
  let dirent ← findOrRaise n name
  let inode ← get dirent.inode.toNat
  let type ← getType inode
  raiseIf (type = s5TypeDir) (.s5fs "cannot unlink directory")
  let links ← getLinkCount inode
  raiseIf (links < 1) (.s5fs "inode being unlinked has invalid link count")
  dirent.remove n
  let links ← getLinkCount inode
  if links = 1 then do
    setLinkCount inode 0
    free inode
  else
    setLinkCount inode (links - 1)

def rmdir (n : Nat) (name : List UInt8) : Py Unit := do
  raiseIf (name = dot ∨ name = dotdot) (.s5fs "cannot rmdir special directory")
  let dirent ← findOrRaise n name
  let inode ← get dirent.inode.toNat
  let type ← getType inode
  raiseIf (type ≠ s5TypeDir) (.s5fs "cannot rmdir non-directory")
  let empty ← isEmpty inode
  raiseIf (¬ empty) (.s5fs "cannot rmdir non-empty directory")
  let links ← getLinkCount inode
  raiseIf (links ≠ 1) (.s5fs "empty directory has link count")
  dirent.remove n
  let links ← getLinkCount n
  setLinkCount n (links - 1)
  setLinkCount inode 0
  free inode

end Inode

/-- `Simdisk.alloc_inode` -/
def allocInode : Py Nat := do
  let index ← getFreeInode
  raiseIf (index = 0xffffffff) (.s5fs "disk is out of inodes")
  let inode ← Inode.get index.toNat
  Inode.getNextFree inode >>= setFreeInode
  pure inode

namespace Inode

/-- Set up a new inode of the given type. -/
def init (n type : Nat) : Py Unit := do
  setType n type
  setSize n 0
  setLinkCount n 1
  each (fun i => setDirectBlockno n i 0) (List.range s5NdirectBlocks)
  setIndirectBlockno n 0

/-- `except S5fsException as e: inode.free(); raise e` -/
def freeOnRaise (n : Nat) (m : Py Nat) : Py Nat := tryExcept m fun e =>
  if e.isS5fs then free n >>= fun _ => raise e else raise e

def create (n : Nat) (name : List UInt8) : Py Nat := do
  let inode ← allocInode
  freeOnRaise inode do
    init inode s5TypeData
    let number ← getNumber inode
    makeDirent n number name
    pure inode

def mkdir (n : Nat) (name : List UInt8) : Py Nat := do
  let inode ← allocInode
  freeOnRaise inode do
    init inode s5TypeDir
    let number ← getNumber inode
    makeDirent inode number dot
    let parent ← getNumber n
    makeDirent inode parent dotdot
    let links ← getLinkCount n
    setLinkCount n (links + 1)
    makeDirent n number name
    pure inode

end Inode

/-! ### Formatting -/

/-- The first loop of `format`. -/
def formatInode (i : Nat) : Py Unit := do
  let inode ← Inode.get i
  pack i >>= Inode.setNumber inode
  Inode.setType inode s5TypeFree
  pack (i + 1) >>= Inode.setNextFree inode

/-- The second loop of `format`, over the block numbers, which returns how many slots it filled. -/
def formatBlocks : Nat → List Nat → Py Nat
  | i, [] => pure i
  | i, num :: rest =>
      if i = s5NblksPerFnode - 1 then do
        each (fun j => getFreeBlock j >>= setWord num j) (List.range (s5NblksPerFnode - 1))
        getLastFreeBlock >>= setWord num (s5NblksPerFnode - 1)
        pack num >>= setLastFreeBlock
        formatBlocks 0 rest
      else do
        pack num >>= setFreeBlock i
        formatBlocks (i + 1) rest

/-- The number of inode blocks. -/
def iblocks (inodes : Nat) : Nat := (inodes - 1) / s5InodesPerBlock + 1

/-- `format` up to the loop over the data blocks, of a file just opened, which its `truncate()`
empties. -/
def formatTables (inodes : Nat) : Py Unit := do
  modify fun _ => Simfile.empty
  setWord 0 0 0x727f
  setWord 0 (5 + s5NblksPerFnode) 3
  pack inodes >>= setNumInodes
  each formatInode (List.range inodes)
  Inode.setNextFree (inodes - 1) 0xffffffff
  setFreeInode 0
  setLastFreeBlock 0xffffffff

/-- The data blocks of an image. -/
def dataBlocks (inodes size : Nat) : List Nat :=
  (List.range (size / s5BlockSize - (iblocks inodes + 1))).map (iblocks inodes + 1 + ·)

def formatFreeList (inodes size : Nat) : Py Unit := do
  let nfree ← formatBlocks 0 (dataBlocks inodes size)
  setNfree (UInt32.ofNat nfree)

def formatRoot : Py Unit := do
  let root ← allocInode
  each (fun i => Inode.setDirectBlockno root i 0) (List.range s5NdirectBlocks)
  Inode.setIndirectBlockno root 0
  Inode.setType root s5TypeDir
  Inode.setSize root 0
  Inode.setLinkCount root 1
  let number ← Inode.getNumber root
  Inode.makeDirent root number Inode.dot
  Inode.makeDirent root number Inode.dotdot
  Inode.setLinkCount root 1

/-- `Simdisk.format` -/
def format (inodes size : Nat) : Py Unit := do
  raiseIf (inodes < 1) (.s5fs "cannot format disk with less than one inode")
  raiseIf (size % s5BlockSize ≠ 0) (.s5fs "size is not a multiple of the block size")
  raiseIf (size / s5BlockSize ≤ iblocks inodes + 1) (.s5fs "the inodes require more space")
  formatTables inodes
  formatFreeList inodes size
  formatRoot

end CodingSample.Fsmaker
