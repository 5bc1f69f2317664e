import CodingSample.Ramfs.State

/-!
# The vnode operations of the ramfs

The operations on directories and files, and the calls of the VFS that check a name in its
directory before they make them.
-/

namespace CodingSample.Ramfs

open Prog Vfs

/-! ### The operations of a directory -/

/-- How `ramfs_create`, `ramfs_mknod`, `ramfs_link` and `ramfs_mkdir` begin: the name is new, and
the first entry without a name is the place for it. -/
def withSlot {α : Type} (dir : Nat) (name : Name) (full : α) (body : Nat → R α) : R α := do
  let found ← ramfsLookup dir name
  kassert found.isNone
  let entries ← getEntries dir
  match findEntry entries fun e => e.rdName.isEmpty with
  | none => pure full
  | some i => body i

/-- Set the entry in the directory. -/
def enter (dir i ino : Nat) (name : Name) : R Unit := do
  setEntry dir i ⟨ino, name.take (nameLen - 1)⟩
  addSize dir sizeofDirent

/-- The value of `ramfs_create`, and the inode of the vnode in `*result`. -/
def ramfsCreate (dir : Nat) (name : Name) (mem : Supply) : R (Int × Option Nat) :=
  withSlot dir name (-enospc, none) fun i => do
    let ino ← ramfsAllocInode .zeroData mem
    if ino < 0 then pure (ino, none)
    else do
      vget ino.toNat
      enter dir i ino.toNat name
      pure (0, some ino.toNat)

/-- The memory of an inode for `ramfs_mknod`. -/
def deviceContents (mode : VnMode) (devid : UInt32) : Option Contents :=
  match mode with
  | .chr => some (.chr devid)
  | .blk => some (.blk devid)
  | .reg | .dir => none

def ramfsMknod (dir : Nat) (name : Name) (mode : VnMode) (devid : UInt32) (mem : Supply) :
    R Int :=
  withSlot dir name (-enospc) fun i =>
    match deviceContents mode devid with
    | none => fail .panic
    | some fresh => do
        let ino ← ramfsAllocInode fresh mem
        if ino < 0 then pure ino
        else do
          enter dir i ino.toNat name
          pure 0

def ramfsLink (oldvnode dir : Nat) (name : Name) : R Int :=
  withSlot dir name (-enospc) fun i => do
    enter dir i oldvnode name
    addLinks oldvnode 1
    pure 0

def ramfsMkdir (dir : Nat) (name : Name) (mem : Supply) : R Int :=
  withSlot dir name (-enospc) fun i => do
    let ino ← ramfsAllocInode .zeroDir mem
    if ino < 0 then pure ino
    else do
      enter dir i ino.toNat name
      setEntry ino.toNat 0 ⟨ino.toNat, dot⟩
      setEntry ino.toNat 1 ⟨dir, dotdot⟩
      modifyInode ino.toNat fun inode => { inode with rfSize := 2 * sizeofDirent }
      pure 0

/-- How `ramfs_unlink` and `ramfs_rmdir` end: the name of the entry is cleared, and `vn` has one
link less. -/
def removeEntry (dir vn : Nat) (name : Name) : R Int := do
  let entries ← getEntries dir
  match findEntry entries fun e => nameMatch e.rdName name with
  | some i => setEntry dir i { entries i with rdName := [] }
  | none => pure ()
  addSize dir (-sizeofDirent)
  addLinks vn (-1)
  vput vn
  pure 0

def ramfsUnlink (dir : Nat) (name : Name) : R Int := do
  match ← ramfsLookup dir name with
  | none => fail .kassert
  | some vn => do
      let v ← getVnode vn
      kassert (v.vnMode ≠ .dir)
      removeEntry dir vn name

/-- An entry that keeps a directory from being removed. -/
def Dirent.live (e : Dirent) : Bool :=
  !(e.rdName == dot || e.rdName == dotdot) && !e.rdName.isEmpty

def ramfsRmdir (dir : Nat) (name : Name) : R Int := do
  kassert (!nameMatch dot name && !nameMatch dotdot name)
  match ← ramfsLookup dir name with
  | none => pure (-enoent)
  | some vn => do
      let v ← getVnode vn
      if v.vnMode ≠ .dir then do
        vput vn
        pure (-enotdir)
      else do
        let entries ← getEntries vn
        match findEntry entries Dirent.live with
        | some _ => do
            vput vn
            pure (-enotempty)
        | none => removeEntry dir vn name

/-! ### Reading and writing -/

/-- The page of a regular file. -/
def getPage (file : Nat) : R (Nat → UInt8) := do
  let inode ← getInode file
  match inode.contents with
  | .data page => pure page
  | .dir _ | .chr _ | .blk _ => fail .nullOp

/-- What `memcpy` leaves of a page when it copies `buf` to `offset`. -/
def patch (page : Nat → UInt8) (offset : Nat) (buf : List UInt8) : Nat → UInt8 := fun k =>
  if offset ≤ k then buf.getD (k - offset) (page k) else page k

/-- `memcpy` of `n` bytes into the page of a file; the `size_t` of a negative number is past any
page. -/
def copyIn (file : Nat) (offset n : Int) (buf : List UInt8) : R Unit := do
  let page ← getPage file
  check .badAccess (0 ≤ offset ∧ 0 ≤ n ∧ offset + n ≤ pageSize)
  modifyInode file fun inode =>
    { inode with contents := .data (patch page offset.toNat (buf.take n.toNat)) }

/-- `memcpy` of `n` bytes from the page of a file. -/
def copyOut (file : Nat) (offset n : Int) : R (List UInt8) := do
  let page ← getPage file
  check .badAccess (n = 0 ∨ 0 ≤ offset ∧ 0 ≤ n ∧ offset + n ≤ pageSize)
  pure ((List.range n.toNat).map fun k => page (offset.toNat + k))

/-- `ramfs_read` of `count` bytes: what it returns, and the buffer. -/
def ramfsRead (file : Nat) (offset : Int) (count : Nat) : R (Int × List UInt8) := do
  let inode ← getInode file
  let v ← getVnode file
  kassert (v.vnMode ≠ .dir)
  let ret := max 0 (min (int32 count) (inode.rfSize - offset))
  let buf ← copyOut file offset ret
  pure (ret, buf)

/-- `ramfs_write` of the bytes of a buffer. -/
def ramfsWrite (file : Nat) (offset : Int) (buf : List UInt8) : R Int := do
  let v ← getVnode file
  kassert (v.vnMode ≠ .dir)
  let ret := min (int32 buf.length) (pageSize - offset)
  copyIn file offset ret buf
  let inode ← getInode file
  kassert (v.vnLen = inode.rfSize)
  let len := max v.vnLen (offset + ret)
  modify fun s => s.setVnode file (some { v with vnLen := len })
  modifyInode file fun inode => { inode with rfSize := len }
  pure ret

/-! ### The calls of the VFS -/

/-- What a call returns, with the bytes it read. -/
structure Outcome where
  ret : Int
  data : List UInt8

def returns (ret : Int) : Outcome := ⟨ret, []⟩

/-- `-EEXIST` for a name that is there. -/
def unlessFound (dir : Nat) (name : Name) (body : R Int) : R Outcome := do
  match ← ramfsLookup dir name with
  | some target => do
      vput target
      pure (returns (-eexist))
  | none => do
      let ret ← body
      pure (returns ret)

/-- `open_namev` with `O_CREAT`, at the directory that has the last component. -/
def openCreate (dir : Nat) (name : Name) (mem : Supply) : R Outcome := do
  match ← ramfsLookup dir name with
  | some _ => pure (returns 0)
  | none => do
      let (ret, _) ← ramfsCreate dir name mem
      pure (returns ret)

def doMknod (dir : Nat) (name : Name) (mode : VnMode) (devid : UInt32) (mem : Supply) :
    R Outcome :=
  if mode ≠ .chr ∧ mode ≠ .blk then pure (returns (-einval))
  else unlessFound dir name (ramfsMknod dir name mode devid mem)

def doMkdir (dir : Nat) (name : Name) (mem : Supply) : R Outcome :=
  unlessFound dir name (ramfsMkdir dir name mem)

/-- The end of `do_link`, at the directory of the new name. -/
def doLink (fromNode dir : Nat) (name : Name) : R Outcome :=
  unlessFound dir name (ramfsLink fromNode dir name)

def doUnlink (dir : Nat) (name : Name) : R Outcome := do
  match ← ramfsLookup dir name with
  | none => pure (returns (-enoent))
  | some target => do
      let v ← getVnode target
      if v.vnMode = .dir then do
        vput target
        pure (returns (-eisdir))
      else do
        let ret ← ramfsUnlink dir name
        vput target
        pure (returns ret)

def doRmdir (dir : Nat) (name : Name) : R Outcome :=
  if name = dot then pure (returns (-einval))
  else if name = dotdot then pure (returns (-enotempty))
  else do
    let ret ← ramfsRmdir dir name
    pure (returns ret)

/-- `lookup`, which leaves the vnode it finds referenced. -/
def doLookup (dir : Nat) (name : Name) : R Outcome := do
  match ← ramfsLookup dir name with
  | some _ => pure (returns 0)
  | none => pure (returns (-enoent))

inductive Call where
  | create (dir : Nat) (name : Name) (mem : Supply)
  | mknod (dir : Nat) (name : Name) (mode : VnMode) (devid : UInt32) (mem : Supply)
  | link (fromNode dir : Nat) (name : Name)
  | unlink (dir : Nat) (name : Name)
  | mkdir (dir : Nat) (name : Name) (mem : Supply)
  | rmdir (dir : Nat) (name : Name)
  | lookup (dir : Nat) (name : Name)
  | vput (vn : Nat)
  | read (file : Nat) (offset : Int) (count : Nat)
  | write (file : Nat) (offset : Int) (buf : List UInt8)

def Call.run : Call → R Outcome
  | create dir name mem => openCreate dir name mem
  | mknod dir name mode devid mem => doMknod dir name mode devid mem
  | link fromNode dir name => doLink fromNode dir name
  | unlink dir name => doUnlink dir name
  | mkdir dir name mem => doMkdir dir name mem
  | rmdir dir name => doRmdir dir name
  | lookup dir name => doLookup dir name
  | vput vn => Ramfs.vput vn >>= fun _ => pure (returns 0)
  | read file offset count => ramfsRead file offset count >>= fun r => pure ⟨r.1, r.2⟩
  | write file offset buf => ramfsWrite file offset buf >>= fun ret => pure (returns ret)

end CodingSample.Ramfs
