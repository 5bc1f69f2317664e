import CodingSample.Vfs.Getdent
import CodingSample.Vfs.Paths
import Mathlib.Data.Finset.Erase
import Mathlib.Data.Finset.Insert

/-!
# The system calls on files

The calls of `open.c` and `vfs_syscall.c` with the open files of `file.c`, for any number of
processes and over any file system.
-/

namespace CodingSample.Vfs.Sys

open Prog

@[simp] def enomem : Int := 12
@[simp] def eexist : Int := 17
@[simp] def emfile : Int := 24
@[simp] def enotempty : Int := 39

@[simp] def oRdonly : Nat := 0
@[simp] def oWronly : Nat := 1
@[simp] def oRdwr : Nat := 2
@[simp] def oTrunc : Nat := 0x200
@[simp] def oAppend : Nat := 0x400

@[simp] def sIfchr : Nat := 0x0100
@[simp] def sIfblk : Nat := 0x0400

/-- The fields of `struct stat` that are filled in. -/
structure Stat where
  stMode : Int
  stIno : Int
  stRdev : Int
  stNlink : Int
  stSize : Int
  stBlksize : Int
  stBlocks : Int

/-- The operations of the vnodes of a file system. -/
structure FsOps (ε σ : Type) extends VnodeOps ε σ where
  /-- How the kernel stops when an assertion fails or freed memory is used. -/
  fault : ε
  vnLen : Nat → σ → Int
  read : Nat → Int → Nat → Prog ε σ (Int × List UInt8)
  write : Nat → Int → List UInt8 → Prog ε σ Int
  mknod : Nat → List UInt8 → Nat → UInt32 → Prog ε σ Int
  mkdir : Nat → List UInt8 → Prog ε σ Int
  rmdir : Nat → List UInt8 → Prog ε σ Int
  unlink : Nat → List UInt8 → Prog ε σ Int
  link : Nat → Nat → List UInt8 → Prog ε σ Int
  readdir : Readdir ε σ
  stat : Nat → Prog ε σ (Int × Stat)

/-- The `file_t` objects that are in use, over a file system. -/
structure Files (σ : Type) where
  fs : σ
  opened : Finset Nat
  files : Nat → File

namespace Files

variable {σ : Type} {s : Files σ} {f g : Nat} {file : File}

def set (s : Files σ) (f : Nat) (file : File) : Files σ :=
  { s with files := Function.update s.files f file }

@[simp] theorem files_set_self : (s.set f file).files f = file := Function.update_self ..

theorem files_set_of_ne (h : g ≠ f) : (s.set f file).files g = s.files g :=
  Function.update_of_ne h ..

end Files

/-- The kernel: `p_files` and `p_cwd` of the processes `ι`. -/
structure Kernel (ι σ : Type) where
  sys : Files σ
  pFiles : ι → Nat → Option Nat
  pCwd : ι → Nat

variable {ε σ ι α τ : Type} [DecidableEq ι] (ops : FsOps ε σ)

/-- What the calls do to the file system. -/
def onFs (m : Prog ε σ α) : Prog ε (Files σ) α := zoom Files.fs (fun fs s => { s with fs }) m

def onSys (m : Prog ε (Files σ) α) : Prog ε (Kernel ι σ) α :=
  zoom Kernel.sys (fun sys k => { k with sys }) m

def kassert (test : Bool) : Prog ε τ Unit := check ops.fault test

/-! ### `file.c` -/

def getFile (f : Nat) : Prog ε (Files σ) File := do
  let s ← get
  kassert ops (f ∈ s.opened)
  pure (s.files f)

def setFile (f : Nat) (file : File) : Prog ε (Files σ) Unit := modify fun s => s.set f file

def fref (f : Nat) : Prog ε (Files σ) Unit := do
  let file ← getFile ops f
  kassert ops (file.fMode < 8)
  kassert ops (-1 ≤ file.fPos)
  kassert ops (0 ≤ file.fRefcount)
  kassert ops (file.fRefcount = 0 ∨ file.fVnode ≠ none)
  setFile f { file with fRefcount := file.fRefcount + 1 }

def fput (f : Nat) : Prog ε (Files σ) Unit := do
  let file ← getFile ops f
  kassert ops (file.fMode < 8)
  kassert ops (-1 ≤ file.fPos)
  kassert ops (0 < file.fRefcount)
  kassert ops (file.fRefcount = 1 ∨ file.fVnode ≠ none)
  setFile f { file with fRefcount := file.fRefcount - 1 }
  if file.fRefcount - 1 = 0 then do
    match file.fVnode with
    | some vn => onFs (ops.vput vn)
    | none => pure ()
    modify fun s => { s with opened := s.opened.erase f }
  else
    pure ()

/-- `fget` of a descriptor. -/
def fget (p : ι) (fd : Int) : Prog ε (Kernel ι σ) (Option Nat) :=
  if fd < 0 ∨ nfiles ≤ fd then pure none
  else do
    let k ← get
    match k.pFiles p fd.toNat with
    | none => pure none
    | some f => do
        onSys (fref ops f)
        pure (some f)

/-- `fget(-1)`, where `slab_obj_alloc` returns `fresh`. -/
def fgetNew (fresh : Option Nat) : Prog ε (Files σ) (Option Nat) :=
  match fresh with
  | none => pure none
  | some f => do
      modify fun s => { s with opened := insert f s.opened }
      setFile f ⟨0, 0, 0, none⟩
      fref ops f
      pure (some f)

def getEmptyFd (p : ι) : Prog ε (Kernel ι σ) Int := do
  let k ← get
  match (List.range nfiles.toNat).find? fun fd => (k.pFiles p fd).isNone with
  | some fd => pure fd
  | none => pure (-emfile)

/-- `curproc->p_files[fd] = file` -/
def setSlot (p : ι) (fd : Int) (file : Option Nat) : Prog ε (Kernel ι σ) Unit :=
  modify fun k => { k with
    pFiles := Function.update k.pFiles p (Function.update (k.pFiles p) fd.toNat file) }

/-- `fput(file); return ret;` -/
def putReturn (f : Nat) (ret : α) : Prog ε (Kernel ι σ) α := do
  onSys (fput ops f)
  pure ret

/-- The vnode of a file, which is not `NULL`. -/
def vnodeOf (f : Nat) : Prog ε (Files σ) Nat := do
  let file ← getFile ops f
  match file.fVnode with
  | some v => pure v
  | none => fail ops.fault

/-- `file->f_pos = pos` -/
def setPos (f : Nat) (pos : Int) : Prog ε (Files σ) Unit := do
  let file ← getFile ops f
  setFile f { file with fPos := pos }

/-- `S_ISDIR(vnode->vn_mode)` -/
def isDir (v : Nat) : Prog ε (Files σ) Bool := do
  let s ← get
  pure (ops.isDir v s.fs)

/-! ### `open.c` -/

/-- `open_namev` with the directories of a process. -/
def openPath (root : Nat) (p : ι) (path : List UInt8) (flag : Nat) :
    Prog ε (Kernel ι σ) (Except Int Nat) := do
  let k ← get
  onSys (onFs (openNamev ops.toVnodeOps root (k.pCwd p) path flag none))

/-- `dir_namev` with the directories of a process. -/
def dirPath (root : Nat) (p : ι) (path : List UInt8) :
    Prog ε (Kernel ι σ) (Except Int (List UInt8 × Nat)) := do
  let k ← get
  onSys (onFs (dirNamev ops.toVnodeOps root (k.pCwd p) path none))

def openMode (oflags : Nat) : Nat :=
  let mode := if oflags &&& oWronly ≠ 0 then fmodeWrite
    else if oflags &&& oRdwr ≠ 0 then fmodeWrite ||| fmodeRead
    else fmodeRead
  if oflags &&& oAppend ≠ 0 then mode ||| fmodeAppend else mode

/-- `do_open` from where the file is in the table. -/
def openInto (root : Nat) (p : ι) (path : List UInt8) (oflags : Nat) (fd : Int) (f : Nat) :
    Prog ε (Kernel ι σ) Int := do
  let file ← onSys (getFile ops f)
  kassert ops (file.fPos = 0)
  onSys (setFile f { file with fMode := openMode oflags })
  match ← openPath ops root p path oflags with
  | .error ret => do
      setSlot p fd none
      putReturn ops f ret
  | .ok target => do
      let dir ← onSys (isDir ops target)
      if (oflags &&& oWronly ≠ 0 ∨ oflags &&& oRdwr ≠ 0) ∧ dir = true then do
        setSlot p fd none
        onSys (onFs (ops.vput target))
        putReturn ops f (-eisdir)
      else do
        let file ← onSys (getFile ops f)
        onSys (setFile f { file with fVnode := some target })
        pure fd

def doOpen (root : Nat) (p : ι) (filename : List UInt8) (oflags : Int) (fresh : Option Nat) :
    Prog ε (Kernel ι σ) Int :=
  if ¬ (0 ≤ oflags ∧ oflags ≤ 0x703) then pure (-einval)
  else
    let flags := oflags.toNat
    if flags &&& oRdwr ≠ 0 ∧ flags &&& oWronly ≠ 0 then pure (-einval)
    else if flags &&& oTrunc ≠ 0 ∧ flags &&& oRdwr = 0 ∧ flags &&& oWronly = 0 then pure (-einval)
    else do
      let fd ← getEmptyFd p
      if fd < 0 then pure fd
      else do
        match ← onSys (fgetNew ops fresh) with
        | none => pure (-enomem)
        | some f => do
            setSlot p fd (some f)
            openInto ops root p filename flags fd f

/-! ### `vfs_syscall.c`: descriptors -/

/-- How the calls on a descriptor begin. -/
def withFile (p : ι) (fd : Int) (body : Nat → Prog ε (Kernel ι σ) Int) : Prog ε (Kernel ι σ) Int :=
  if ¬ (0 ≤ fd ∧ fd < nfiles) then pure (-ebadf)
  else do
    match ← fget ops p fd with
    | none => pure (-ebadf)
    | some f => body f

def doRead (p : ι) (fd : Int) (nbytes : Nat) : Prog ε (Kernel ι σ) Int :=
  withFile ops p fd fun f => do
    let file ← onSys (getFile ops f)
    if fmodeIsread file.fMode = false then putReturn ops f (-ebadf)
    else do
      let vnode ← onSys (vnodeOf ops f)
      let dir ← onSys (isDir ops vnode)
      if dir = true then putReturn ops f (-eisdir)
      else do
        let r ← onSys (onFs (ops.read vnode file.fPos nbytes))
        onSys (setPos ops f (int32 (file.fPos + r.1)))
        putReturn ops f r.1

/-- The position that `do_lseek` sets. -/
def seekTarget (pos len offset whence : Int) : Option Int :=
  if whence = seekSet then
    if offset < 0 then none else some offset
  else if whence = seekCur then
    if pos < int32 (-offset) then none else some (int32 (pos + offset))
  else if whence = seekEnd then
    if int32 (offset + len) < 0 then none else some (int32 (len + offset))
  else none

def doLseek (p : ι) (fd offset whence : Int) : Prog ε (Kernel ι σ) Int :=
  withFile ops p fd fun f => do
    let vnode ← onSys (vnodeOf ops f)
    let file ← onSys (getFile ops f)
    let k ← get
    match seekTarget file.fPos (ops.vnLen vnode k.sys.fs) offset whence with
    | none => putReturn ops f (-einval)
    | some pos => do
        onSys (setPos ops f pos)
        putReturn ops f pos

/-- `do_write` from where the position is right. -/
def writeAt (f : Nat) (buf : List UInt8) : Prog ε (Kernel ι σ) Int := do
  let vnode ← onSys (vnodeOf ops f)
  let dir ← onSys (isDir ops vnode)
  -- directories have no `write` operation
  kassert ops (!dir)
  let file ← onSys (getFile ops f)
  let ret ← onSys (onFs (ops.write vnode file.fPos buf))
  onSys (setPos ops f (int32 (file.fPos + ret)))
  putReturn ops f ret

def doWrite (p : ι) (fd : Int) (buf : List UInt8) : Prog ε (Kernel ι σ) Int :=
  withFile ops p fd fun f => do
    let file ← onSys (getFile ops f)
    if fmodeIsread file.fMode = true ∧ fmodeIswrite file.fMode = false then
      putReturn ops f (-ebadf)
    else if fmodeIsappend file.fMode = true then do
      let ret ← doLseek ops p fd 0 seekEnd
      if ret < 0 then putReturn ops f ret else writeAt ops f buf
    else writeAt ops f buf

def doGetdent (p : ι) (fd : Int) : Prog ε (Kernel ι σ) Int :=
  withFile ops p fd fun f => do
    let vnode ← onSys (vnodeOf ops f)
    let dir ← onSys (isDir ops vnode)
    if dir = false then putReturn ops f (-enotdir)
    else do
      let file ← onSys (getFile ops f)
      let r ← onSys (onFs (ops.readdir vnode file.fPos))
      onSys (setPos ops f (int32 (file.fPos + r.1)))
      putReturn ops f (if r.1 = 0 then r.1 else sizeofDirent)

def doClose (p : ι) (fd : Int) : Prog ε (Kernel ι σ) Int :=
  withFile ops p fd fun f => do
    onSys (fput ops f)
    -- close it
    onSys (fput ops f)
    setSlot p fd none
    pure 0

def doDup (p : ι) (fd : Int) : Prog ε (Kernel ι σ) Int :=
  withFile ops p fd fun f => do
    let id ← getEmptyFd p
    if id < 0 then putReturn ops f id
    else do
      setSlot p id (some f)
      pure id

def doDup2 (p : ι) (ofd nfd : Int) : Prog ε (Kernel ι σ) Int :=
  if ¬ (0 ≤ nfd ∧ nfd < nfiles) then pure (-ebadf)
  else withFile ops p ofd fun f => do
    let k ← get
    kassert ops (k.pFiles p ofd.toNat = some f)
    if k.pFiles p nfd.toNat ≠ none then do
      if nfd ≠ ofd then do
        let _ ← doClose ops p nfd
        let k ← get
        setSlot p nfd (k.pFiles p ofd.toNat)
        pure nfd
      else putReturn ops f ofd
    else do
      setSlot p nfd (k.pFiles p ofd.toNat)
      pure nfd

/-! ### `vfs_syscall.c`: names -/

/-- `vput` by a call. -/
def put (v : Nat) : Prog ε (Kernel ι σ) Unit := onSys (onFs (ops.vput v))

def find (dir : Nat) (name : List UInt8) : Prog ε (Kernel ι σ) (Except Int Nat) :=
  onSys (onFs (lookup ops.toVnodeOps dir name))

/-- `do_mknod` and `do_mkdir`: the name must be new, and is made by `make`. -/
def makeAt (root : Nat) (p : ι) (path : List UInt8) (make : Nat → List UInt8 → Prog ε σ Int) :
    Prog ε (Kernel ι σ) Int := do
  match ← dirPath ops root p path with
  | .error ret => pure ret
  | .ok (name, dir) => do
      match ← find ops dir name with
      | .ok target => do
          put ops target
          put ops dir
          pure (-eexist)
      | .error ret =>
          if ret = -enoent then do
            let ret ← onSys (onFs (make dir name))
            put ops dir
            pure ret
          else do
            put ops dir
            pure ret

/-- `S_ISCHR(mode)` or `S_ISBLK(mode)` -/
def isSpecial (mode : Nat) : Bool := mode &&& 0xFF00 = sIfchr ∨ mode &&& 0xFF00 = sIfblk

def doMknod (root : Nat) (p : ι) (path : List UInt8) (mode : Nat) (devid : UInt32) :
    Prog ε (Kernel ι σ) Int :=
  if isSpecial mode = false then pure (-einval)
  else makeAt ops root p path fun dir name => ops.mknod dir name mode devid

def doMkdir (root : Nat) (p : ι) (path : List UInt8) : Prog ε (Kernel ι σ) Int :=
  if path = [] then pure (-enoent) else makeAt ops root p path ops.mkdir

def doRmdir (root : Nat) (p : ι) (path : List UInt8) : Prog ε (Kernel ι σ) Int :=
  if path = [] then pure (-enoent)
  else do
    match ← dirPath ops root p path with
    | .error ret => pure ret
    | .ok (name, dir) =>
        if name = [46] then do
          put ops dir
          pure (-einval)
        else if name = [46, 46] then do
          put ops dir
          pure (-enotempty)
        else do
          let ret ← onSys (onFs (ops.rmdir dir name))
          put ops dir
          pure ret

def doUnlink (root : Nat) (p : ι) (path : List UInt8) : Prog ε (Kernel ι σ) Int :=
  if path = [] then pure (-enoent)
  else do
    match ← dirPath ops root p path with
    | .error ret => pure ret
    | .ok (name, dir) => do
        match ← find ops dir name with
        | .error ret => do
            put ops dir
            pure ret
        | .ok target => do
            let isdir ← onSys (isDir ops target)
            if isdir = true then do
              put ops target
              put ops dir
              pure (-eisdir)
            else do
              let ret ← onSys (onFs (ops.unlink dir name))
              put ops dir
              put ops target
              pure ret

/-- `do_link` from where `from` is open. -/
def linkTo (root : Nat) (p : ι) (fromNode : Nat) (toPath : List UInt8) :
    Prog ε (Kernel ι σ) Int := do
  match ← dirPath ops root p toPath with
  | .error ret => do
      put ops fromNode
      pure ret
  | .ok (name, toNode) => do
      match ← find ops toNode name with
      | .ok target => do
          put ops fromNode
          put ops toNode
          put ops target
          pure (-eexist)
      | .error ret =>
          -- an error is negative, and `ENOENT` is not
          if ret = enoent then do
            let ret ← onSys (onFs (ops.link fromNode toNode name))
            put ops fromNode
            put ops toNode
            pure ret
          else do
            put ops fromNode
            put ops toNode
            pure ret

def doLink (root : Nat) (p : ι) (fromPath toPath : List UInt8) : Prog ε (Kernel ι σ) Int :=
  if fromPath = [] ∨ toPath = [] then pure (-enoent)
  else do
    match ← openPath ops root p fromPath oRdonly with
    | .error ret => pure ret
    | .ok fromNode => do
        let dir ← onSys (isDir ops fromNode)
        -- the test is the wrong way round
        if dir = false then do
          put ops fromNode
          pure (-enotdir)
        else linkTo ops root p fromNode toPath

def doRename (root : Nat) (p : ι) (oldname newname : List UInt8) : Prog ε (Kernel ι σ) Int := do
  let ret ← doLink ops root p oldname newname
  if ret < 0 then pure ret else doUnlink ops root p oldname

def doChdir (root : Nat) (p : ι) (path : List UInt8) : Prog ε (Kernel ι σ) Int :=
  if path = [] then pure (-enoent)
  else do
    match ← openPath ops root p path oRdonly with
    | .error ret => pure ret
    | .ok target => do
        let dir ← onSys (isDir ops target)
        if dir = false then do
          put ops target
          pure (-enotdir)
        else do
          let k ← get
          modify fun k => { k with pCwd := Function.update k.pCwd p target }
          put ops (k.pCwd p)
          pure 0

def doStat (root : Nat) (p : ι) (path : List UInt8) : Prog ε (Kernel ι σ) Int :=
  if path = [] then pure (-enoent)
  else do
    match ← openPath ops root p path oRdwr with
    | .error ret => pure ret
    | .ok target => do
        let r ← onSys (onFs (ops.stat target))
        put ops target
        pure r.1

/-! ### All calls -/

inductive Call where
  | open (filename : List UInt8) (oflags : Int) (fresh : Option Nat)
  | close (fd : Int)
  | dup (fd : Int)
  | dup2 (ofd nfd : Int)
  | read (fd : Int) (nbytes : Nat)
  | write (fd : Int) (buf : List UInt8)
  | lseek (fd offset whence : Int)
  | getdent (fd : Int)
  | mknod (path : List UInt8) (mode : Nat) (devid : UInt32)
  | mkdir (path : List UInt8)
  | rmdir (path : List UInt8)
  | unlink (path : List UInt8)
  | link (fromPath toPath : List UInt8)
  | rename (oldname newname : List UInt8)
  | chdir (path : List UInt8)
  | stat (path : List UInt8)

/-- What a process gets for a call. -/
def Call.run (root : Nat) (p : ι) : Call → Prog ε (Kernel ι σ) Int
  | .open filename oflags fresh => doOpen ops root p filename oflags fresh
  | .close fd => doClose ops p fd
  | .dup fd => doDup ops p fd
  | .dup2 ofd nfd => doDup2 ops p ofd nfd
  | .read fd nbytes => doRead ops p fd nbytes
  | .write fd buf => doWrite ops p fd buf
  | .lseek fd offset whence => doLseek ops p fd offset whence
  | .getdent fd => doGetdent ops p fd
  | .mknod path mode devid => doMknod ops root p path mode devid
  | .mkdir path => doMkdir ops root p path
  | .rmdir path => doRmdir ops root p path
  | .unlink path => doUnlink ops root p path
  | .link fromPath toPath => doLink ops root p fromPath toPath
  | .rename oldname newname => doRename ops root p oldname newname
  | .chdir path => doChdir ops root p path
  | .stat path => doStat ops root p path

end CodingSample.Vfs.Sys
