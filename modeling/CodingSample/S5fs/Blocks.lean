import CodingSample.S5fs.State

/-!
# Disk blocks and inodes

`s5_alloc_block`, `s5_free_block`, `s5_seek_to_block`, `s5_alloc_inode` and `s5_free_inode`, over
the pages of the block device they use.
-/

namespace CodingSample.S5fs

open Prog

variable [BlockDev]

/-! ### Pages of the block device -/

/-- `pframe_get` on the block device's memory object. -/
def pframeGetBdev (b : UInt32) : K Int := do
  let s ← get
  match s.bdev b with
  | some _ => pure 0
  | none =>
      if BlockDev.serves b then do
        modify fun s => s.setBdev b (some ⟨s.disk b, false⟩)
        pure 0
      else
        pure (-eio)

/-- Change the memory of a resident page of the block device. -/
def pokeBdev (b : UInt32) (f : Block → Block) : K Unit := do
  let s ← get
  match s.bdev b with
  | some p => modify fun s => s.setBdev b (some { p with data := f p.data })
  | none => fail .badAccess

/-- `pframe_dirty` on a page of the block device, whose `dirtypage` does nothing. -/
def pframeDirtyBdev (b : UInt32) : K Unit := do
  let s ← get
  match s.bdev b with
  | some p => modify fun s => s.setBdev b (some { p with dirty := true })
  | none => fail .badAccess

/-- `pframe_clean` on a page of the block device. -/
def pframeCleanBdev (b : UInt32) : K Unit := do
  let s ← get
  match s.bdev b with
  | some p => do
      kassert p.dirty
      if BlockDev.serves b then
        modify fun s => (s.setBdev b (some { p with dirty := false })).setDisk b p.data
      else
        pure ()
  | none => fail .badAccess

/-- `pframe_free` on a page of the block device. -/
def pframeFreeBdev (b : UInt32) : K Unit := do
  let s ← get
  match s.bdev b with
  | some _ => modify fun s => s.setBdev b none
  | none => fail .badAccess

/-! ### The free-block list -/

/-- The last word of the array, which links to the first free-list node. -/
def Super.link (sup : Super) : UInt32 := sup.s5sFreeBlocks (s5NblksPerFnode - 1)

def s5AllocBlock : K Int := do
  let s ← get
  if s.super.s5sNfree = 0 then do
    let ret ← pframeGetBdev s.super.link
    if ret < 0 then
      pure (-enospc)
    else do
      -- copy the node into the super block, then wipe it and write it out
      modify fun s => s.setSuper { s.super with
        s5sFreeBlocks := fun i =>
          if i < s5NblksPerFnode then (s.bview s.super.link).word i else s.super.s5sFreeBlocks i }
      pokeBdev s.super.link fun _ => Block.zero
      pframeDirtyBdev s.super.link
      pframeCleanBdev s.super.link
      pframeFreeBdev s.super.link
      modify fun s => s.setSuper { s.super with s5sNfree := s5NblksPerFnode - 1 }
      pure (toInt32 s.super.link)
  else do
    modify fun s => s.setSuper { s.super with s5sNfree := s.super.s5sNfree - 1 }
    pure (toInt32 (s.super.s5sFreeBlocks (s.super.s5sNfree - 1)))

def s5FreeBlock (blockno : UInt32) : K Unit := do
  let s ← get
  kassert (s.super.s5sNfree < s5NblksPerFnode)
  if s5NblksPerFnode - 1 = s.super.s5sNfree then do
    let ret ← pframeGetBdev blockno
    -- a failed fill leaves a pointer to a frame that is already freed
    check .badAccess (0 ≤ ret)
    pokeBdev blockno fun d => d.writeWords s.super.s5sFreeBlocks s5NblksPerFnode
    pframeDirtyBdev blockno
    modify fun s => s.setSuper { s.super with
      s5sNfree := 0
      s5sFreeBlocks :=
        Function.update s.super.s5sFreeBlocks (s5NblksPerFnode - 1) blockno }
  else
    modify fun s => s.setSuper { s.super with
      s5sNfree := s.super.s5sNfree + 1
      s5sFreeBlocks := Function.update s.super.s5sFreeBlocks s.super.s5sNfree blockno }

/-! ### Block maps -/

def setDirect (ino k : Nat) (b : UInt32) : K Unit :=
  modify fun s => s.setInode ino { s.inodes ino with
    s5DirectBlocks := Function.update (s.inodes ino).s5DirectBlocks k b }

def setIndirect (ino : Nat) (b : UInt32) : K Unit :=
  modify fun s => s.setInode ino { s.inodes ino with s5IndirectBlock := b }

/-- The direct part of `s5_seek_to_block`. -/
def s5SeekDirect (ino blockNumber : Nat) (alloc : Bool) : K Int := do
  let s ← get
  if (s.inodes ino).s5DirectBlocks blockNumber = 0 then
    if alloc then do
      let blockNum ← s5AllocBlock
      if blockNum < 0 then
        pure blockNum
      else do
        setDirect ino blockNumber (ofInt32 blockNum)
        pure blockNum
    else
      pure 0
  else
    pure (toInt32 ((s.inodes ino).s5DirectBlocks blockNumber))

/-- The part of `s5_seek_to_block` that brings in the indirect block, allocating it whatever
`alloc` says. -/
def s5GetIndirect (ino : Nat) : K Int := do
  let s ← get
  if (s.inodes ino).s5IndirectBlock = 0 then do
    let blockNum ← s5AllocBlock
    if blockNum < 0 then
      pure blockNum
    else do
      let ret ← pframeGetBdev (ofInt32 blockNum)
      if ret < 0 then
        pure ret
      else do
        pokeBdev (ofInt32 blockNum) fun _ => Block.zero
        pframeDirtyBdev (ofInt32 blockNum)
        setIndirect ino (ofInt32 blockNum)
        pure 0
  else
    pframeGetBdev (s.inodes ino).s5IndirectBlock

/-- The part of `s5_seek_to_block` that reads, and may fill, entry `off` of the indirect block. -/
def s5SeekIndirect (ino off : Nat) (alloc : Bool) : K Int := do
  let s ← get
  if (s.bview (s.inodes ino).s5IndirectBlock).word off = 0 then
    if alloc then do
      let blockNum ← s5AllocBlock
      if blockNum < 0 then
        pure blockNum
      else do
        pokeBdev (s.inodes ino).s5IndirectBlock fun d => d.setWord off (ofInt32 blockNum)
        pframeDirtyBdev (s.inodes ino).s5IndirectBlock
        pure blockNum
    else
      pure 0
  else
    pure (toInt32 ((s.bview (s.inodes ino).s5IndirectBlock).word off))

def s5SeekToBlock (ino : Nat) (seekptr : Int) (alloc : Bool) : K Int := do
  kassert (0 ≤ seekptr)
  let blockNumber := (seekptr / s5BlockSize).toNat
  if s5NidirectBlocks + s5NdirectBlocks ≤ blockNumber then
    pure (-1)
  else if blockNumber < s5NdirectBlocks then
    s5SeekDirect ino blockNumber alloc
  else do
    let ret ← s5GetIndirect ino
    if ret < 0 then pure ret else s5SeekIndirect ino (blockNumber - s5NdirectBlocks) alloc

/-! ### Inodes -/

def s5AllocInode (type : S5Type) (devid : UInt32) : K Int := do
  kassert (type ≠ .free)
  let s ← get
  if s.super.s5sFreeInode = noBlock.toNat then
    pure (-enospc)
  else do
    let ino := s.super.s5sFreeInode
    kassert ((s.inodes ino).s5Number = ino)
    modify fun s => s.setSuper { s.super with s5sFreeInode := (s.inodes ino).s5NextFree }
    modify fun s => s.setInode ino { s.inodes ino with
      s5Un := 0
      s5Type := type
      s5Linkcount := 0
      s5DirectBlocks := fun _ => 0
      s5IndirectBlock := if type = .chr ∨ type = .blk then devid else 0 }
    pure (s.inodes ino).s5Number

/-- One round of the loop of `s5_free_inode` over the direct blocks. -/
def s5FreeDirect (ino k : Nat) : K Unit := do
  let s ← get
  if (s.inodes ino).s5DirectBlocks k ≠ 0 then do
    s5FreeBlock ((s.inodes ino).s5DirectBlocks k)
    setDirect ino k 0
  else
    pure ()

/-- One round of the loop of `s5_free_inode` over the indirect block. -/
def s5FreeIndirectEntry (ino k : Nat) : K Unit := do
  let s ← get
  let b := (s.bview (s.inodes ino).s5IndirectBlock).word k
  kassert (b ≠ (s.inodes ino).s5IndirectBlock)
  if b ≠ 0 then s5FreeBlock b else pure ()

/-- The part of `s5_free_inode` that frees the indirect block and what it lists. -/
def s5FreeIndirect (ino : Nat) : K Unit := do
  let s ← get
  if ((s.inodes ino).s5Type = .data ∨ (s.inodes ino).s5Type = .dir) ∧
      (s.inodes ino).s5IndirectBlock ≠ 0 then do
    let ret ← pframeGetBdev (s.inodes ino).s5IndirectBlock
    check .badAccess (0 ≤ ret)
    each (s5FreeIndirectEntry ino) (List.range s5NidirectBlocks)
    s5FreeBlock (s.inodes ino).s5IndirectBlock
  else
    pure ()

def s5FreeInode (ino : Nat) : K Unit := do
  let s ← get
  kassert ((s.inodes ino).s5Type ≠ .free)
  each (s5FreeDirect ino) (List.range s5NdirectBlocks)
  s5FreeIndirect ino
  modify fun s => s.setInode ino { s.inodes ino with s5IndirectBlock := 0, s5Type := .free }
  modify fun s => s.setInode ino { s.inodes ino with s5Un := s.super.s5sFreeInode }
  modify fun s => s.setSuper { s.super with s5sFreeInode := (s.inodes ino).s5Number }

end CodingSample.S5fs
