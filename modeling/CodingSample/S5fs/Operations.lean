import CodingSample.S5fs.BlockCount
import CodingSample.S5fs.Linking
import CodingSample.S5fs.Readdir
import CodingSample.Vfs.Special

/-!
# The vnode operations of S5

`s5fs.c` over the functions of `s5fs_subr.c`, for the system calls on files.
-/

namespace CodingSample.S5fs

open Prog Vfs

@[simp] def enotdir : Int := 20

/-- A name in a zeroed buffer. -/
def bufferOf (name : List UInt8) : Block := fun j => name.getD j 0

/-- The type that `s5fs_mknod` asks `s5_alloc_inode` for. -/
def specialType (mode : Nat) : S5Type :=
  if mode &&& 0xFF00 = Sys.sIfchr then .chr else .blk

/-- `vn_mode` as it is in `st_mode`. -/
def VnMode.bits : VnMode → Int
  | .reg => 0x800
  | .dir => 0x200
  | .chr => 0x100
  | .blk => 0x400

variable [BlockDev]

/-- `s5fs_read` -/
def s5fsRead (vnode : Nat) (offset : Int) (len : Nat) : K (Int × List UInt8) := do
  let r ← s5ReadFile vnode offset Block.zero len
  pure (r.1, (List.range r.1.toNat).map r.2)

/-- `s5fs_write` -/
def s5fsWrite (vnode : Nat) (offset : Int) (buf : List UInt8) : K Int :=
  s5WriteFile vnode offset (bufferOf buf) buf.length

/-- `s5fs_lookup`, whose result is the vnode or the error. -/
def s5fsLookup (base : Nat) (name : List UInt8) : K (Except Int Nat) := do
  kassert (name.length ≤ s5NameLen - 1)
  let inodeNumber ← s5FindDirent base name
  if inodeNumber < 0 then
    pure (.error inodeNumber)
  else do
    vget inodeNumber.toNat
    pure (.ok inodeNumber.toNat)

/-- The operations that make an entry assert that there is none of the name yet. -/
def assertNew (dir : Nat) (name : List UInt8) : K Unit := do
  kassert (name.length ≤ s5NameLen - 1)
  match ← s5fsLookup dir name with
  | .ok _ => fail .kassert
  | .error _ => pure ()

/-- `vput(vn); return ret;` -/
def putReturn {α : Type} (vn : Nat) (ret : α) : K α := do
  vput vn
  pure ret

/-- A new inode, its vnode and an entry for it in `dir`. Without an inode `failed` is returned, and
without the entry `unlinked`. -/
def withNew {α : Type} (type : S5Type) (devid : UInt32) (dir : Nat) (name : List UInt8)
    (failed unlinked : Int → α) (body : Nat → K α) : K α := do
  let ino ← s5AllocInode type devid
  if ino < 0 then
    pure (failed ino)
  else do
    vget ino.toNat
    let ret ← s5Link dir ino.toNat (bufferOf name) name.length
    if ret < 0 then putReturn ino.toNat (unlinked ret) else body ino.toNat

/-- `s5fs_create` -/
def s5fsCreate (dir : Nat) (name : List UInt8) : K (Except Int Nat) := do
  assertNew dir name
  withNew .data 0 dir name .error .error fun vn => do
    let s ← get
    kassert ((s.inodes vn).s5Linkcount = 2)
    let v ← getVnode vn
    kassert (v.vnRefcount = 1)
    pure (.ok vn)

/-- `s5fs_mknod` -/
def s5fsMknod (dir : Nat) (name : List UInt8) (mode : Nat) (devid : UInt32) : K Int := do
  kassert (Sys.isSpecial mode)
  assertNew dir name
  withNew (specialType mode) devid dir name id id fun vn => do
    let v ← getVnode vn
    kassert (v.vnRefcount = 1)
    putReturn vn 0

/-- `s5fs_link`, which asserts that the count went up whatever `s5_link` returned. -/
def s5fsLink (src dir : Nat) (name : List UInt8) : K Int := do
  assertNew dir name
  let s ← get
  let ret ← s5Link dir src (bufferOf name) name.length
  let t ← get
  kassert ((s.inodes src).s5Linkcount + 1 = (t.inodes src).s5Linkcount)
  pure ret

/-- `s5fs_unlink` -/
def s5fsUnlink (dir : Nat) (name : List UInt8) : K Int := do
  kassert (name.length ≤ s5NameLen - 1)
  s5RemoveDirent dir name

/-- The part of `s5fs_mkdir` that makes the entries `.` and `..`; the parent had `parentLink`
links. -/
def s5fsFillDir (dir : Nat) (parentLink : Int) (vn : Nat) : K Int := do
  let ret ← s5Link vn vn (bufferOf [46]) 1
  if ret < 0 then
    putReturn vn (-1)
  else do
    let a ← get
    let ret ← s5Link vn dir (bufferOf [46, 46]) 2
    if ret < 0 then
      putReturn vn (-1)
    else do
      let b ← get
      kassert ((a.inodes vn).s5DirectBlocks 0 = (b.inodes vn).s5DirectBlocks 0)
      kassert ((b.inodes vn).s5Linkcount = 2)
      kassert (parentLink + 1 = (b.inodes dir).s5Linkcount)
      vput vn
      kassert (ret = 0)
      pure ret

/-- `s5fs_mkdir` -/
def s5fsMkdir (dir : Nat) (name : List UInt8) : K Int := do
  assertNew dir name
  let s ← get
  withNew .dir 0 dir name id (fun _ => -1) (s5fsFillDir dir (s.inodes dir).s5Linkcount)

/-- `s5fs_rmdir`. A directory counts as empty up to the size of two entries of `getdent`, which are
longer than the entries on the disk. -/
def s5fsRmdir (parent : Nat) (name : List UInt8) : K Int := do
  kassert (name.length ≤ s5NameLen - 1)
  let p ← getVnode parent
  let s ← get
  kassert (ofInt32 p.vnLen = UInt32.ofNat (s.inodes parent).s5Size)
  let inodeNumber ← s5FindDirent parent name
  if inodeNumber < 0 then
    pure inodeNumber
  else do
    vget inodeNumber.toNat
    let vn ← getVnode inodeNumber.toNat
    let s ← get
    if vn.vnMode ≠ .dir then
      putReturn inodeNumber.toNat (-enotdir)
    else if sizeofDirent * 2 < (s.inodes inodeNumber.toNat).s5Size then
      putReturn inodeNumber.toNat (-Sys.enotempty)
    else do
      let ret ← s5RemoveDirent parent name
      if ret < 0 then
        putReturn inodeNumber.toNat ret
      else do
        -- `..` is gone
        let s ← get
        setLinkcount parent ((s.inodes parent).s5Linkcount - 1)
        putReturn inodeNumber.toNat ret

/-- `s5fs_stat` -/
def s5fsStat (vnode : Nat) : K (Int × Sys.Stat) := do
  let v ← getVnode vnode
  let s ← get
  let blocks ← s5InodeBlocks vnode
  pure (0, {
    stMode := v.vnMode.bits
    stIno := vnode
    stRdev := 0
    stNlink := (s.inodes vnode).s5Linkcount - 1
    stSize := toInt32 (UInt32.ofNat (s.inodes vnode).s5Size)
    stBlksize := s5BlockSize
    stBlocks := blocks })

section Calls

variable {δ α : Type} (m : Devices δ)

/-- An operation of a vnode of the given kind; block devices have none to read or write. -/
def byMode (vnode : Nat) (regular : Prog Fault (S5 × δ) α)
    (special : UInt32 → Prog Fault (S5 × δ) α) : Prog Fault (S5 × δ) α := do
  let v ← onDisk (getVnode vnode)
  match v.vnMode with
  | .chr => special v.vnDevid
  | .blk => fail .nullOp
  | .reg | .dir => regular

/-- The operations of the vnodes of S5. -/
def fileOps : Sys.FsOps Fault (S5 × δ) where
  vref := fun v => onDisk (vref v)
  vput := fun v => onDisk (vput v)
  isDir := fun v s => (s.1.vnodes v).any fun vn => vn.vnMode = .dir
  lookup := fun dir name => onDisk (s5fsLookup dir name)
  create := fun dir name => onDisk (s5fsCreate dir name)
  fault := .kassert
  vnLen := fun v s => ((s.1.vnodes v).map Vnode.vnLen).getD 0
  read := fun v pos n => byMode v (onDisk (s5fsRead v pos n)) fun devid =>
    specialFileRead m devid pos n
  write := fun v pos buf => byMode v (onDisk (s5fsWrite v pos buf)) fun devid =>
    specialFileWrite m devid pos buf
  mknod := fun dir name mode devid => onDisk (s5fsMknod dir name mode devid)
  mkdir := fun dir name => onDisk (s5fsMkdir dir name)
  rmdir := fun dir name => onDisk (s5fsRmdir dir name)
  unlink := fun dir name => onDisk (s5fsUnlink dir name)
  link := fun v dir name => onDisk (s5fsLink v dir name)
  readdir := fun v pos => onDisk (s5fsReaddir v pos)
  stat := fun v => onDisk (s5fsStat v)

end Calls

end CodingSample.S5fs
