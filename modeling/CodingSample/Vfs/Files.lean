import CodingSample.Prog.Basic
import Mathlib.Logic.Function.Basic

/-!
# Open files

The calls of `vfs_syscall.c` that move the position of an open file. What the operation of a vnode
returns, and the length of the vnode after it, are given with the call.
-/

namespace CodingSample.Vfs

open Prog

@[simp] def ebadf : Int := 9
@[simp] def enotdir : Int := 20
@[simp] def eisdir : Int := 21
@[simp] def einval : Int := 22
@[simp] def nfiles : Int := 32

@[simp] def fmodeRead : Nat := 1
@[simp] def fmodeWrite : Nat := 2
@[simp] def fmodeAppend : Nat := 4

def fmodeIsread (m : Nat) : Bool := m &&& fmodeRead != 0
def fmodeIswrite (m : Nat) : Bool := m &&& fmodeWrite != 0
def fmodeIsappend (m : Nat) : Bool := m &&& fmodeAppend != 0

@[simp] def seekSet : Int := 0
@[simp] def seekCur : Int := 1
@[simp] def seekEnd : Int := 2

/-- `sizeof(dirent_t)` -/
@[simp] def sizeofDirent : Int := 40

/-- The value of an `int` after arithmetic that wraps around. -/
def int32 (n : Int) : Int := (n + 2147483648) % 4294967296 - 2147483648

/-- `file_t` -/
structure File where
  fMode : Nat
  fPos : Int
  fRefcount : Int
  fVnode : Option Nat

/-- The descriptors of the process, the files and the vnodes. -/
structure FileState where
  pFiles : Int → Option Nat
  files : Nat → File
  isDir : Nat → Bool
  vnLen : Nat → Int

inductive FileFault where
  | kassert
  /-- The last reference to a file goes away, which closes it. -/
  | closed

abbrev FileProg := Prog FileFault FileState

def FileState.setFile (s : FileState) (p : Nat) (f : File) : FileState :=
  { s with files := Function.update s.files p f }

def kassert (test : Bool) : FileProg Unit := check .kassert test

def fref (p : Nat) : FileProg Unit := do
  let s ← get
  let f := s.files p
  kassert (f.fMode < 8)
  kassert (-1 ≤ f.fPos)
  kassert (0 ≤ f.fRefcount)
  kassert (f.fRefcount = 0 ∨ f.fVnode ≠ none)
  modify fun s => s.setFile p { f with fRefcount := f.fRefcount + 1 }

/-- `fget` of a descriptor. -/
def fget (fd : Int) : FileProg (Option Nat) := do
  let s ← get
  if fd < 0 ∨ nfiles ≤ fd then pure none
  else
    match s.pFiles fd with
    | none => pure none
    | some p => do
        fref p
        pure (some p)

def fput (p : Nat) : FileProg Unit := do
  let s ← get
  let f := s.files p
  kassert (f.fMode < 8)
  kassert (-1 ≤ f.fPos)
  kassert (0 < f.fRefcount)
  kassert (f.fRefcount = 1 ∨ f.fVnode ≠ none)
  if f.fRefcount = 1 then fail .closed
  else modify fun s => s.setFile p { f with fRefcount := f.fRefcount - 1 }

/-- `fput(file); return ret;` -/
def putReturn (p : Nat) (ret : Int) : FileProg Int := do
  fput p
  pure ret

/-- The vnode of a file, which is not `NULL`. -/
def fVnode (p : Nat) : FileProg Nat := do
  let s ← get
  match (s.files p).fVnode with
  | none => fail .kassert
  | some v => pure v

def setPos (p : Nat) (pos : Int) : FileProg Unit :=
  modify fun s => s.setFile p { s.files p with fPos := pos }

/-- What an operation of a vnode returns, and the length of the vnode after it. -/
structure Outcome where
  ret : Int
  len : Int

/-- `file->f_pos += op(vnode, file->f_pos, ...)` -/
def advance (p v : Nat) (o : Outcome) : FileProg Unit := do
  modify fun s => { s with vnLen := Function.update s.vnLen v o.len }
  let s ← get
  setPos p (int32 ((s.files p).fPos + o.ret))

/-- How each of the calls begins: `-EBADF` for a descriptor that is not open. -/
def withFile (fd : Int) (body : Nat → FileProg Int) : FileProg Int :=
  if ¬ (0 ≤ fd ∧ fd < nfiles) then pure (-ebadf)
  else do
    match ← fget fd with
    | none => pure (-ebadf)
    | some file => body file

def doRead (fd : Int) (read : Outcome) : FileProg Int :=
  withFile fd fun file => do
    let s ← get
    if fmodeIsread (s.files file).fMode = false then putReturn file (-ebadf)
    else do
      let vnode ← fVnode file
      if s.isDir vnode then putReturn file (-eisdir)
      else do
        advance file vnode read
        putReturn file read.ret

/-- `file->f_pos = target` and the return of it. -/
def seekDone (file : Nat) (target : Int) : FileProg Int := do
  setPos file target
  putReturn file target

def doLseek (fd offset whence : Int) : FileProg Int :=
  withFile fd fun file => do
    let vnode ← fVnode file
    let s ← get
    let pos := (s.files file).fPos
    if whence = seekSet then
      if offset < 0 then putReturn file (-einval) else seekDone file offset
    else if whence = seekCur then
      if pos < int32 (-offset) then putReturn file (-einval)
      else seekDone file (int32 (pos + offset))
    else if whence = seekEnd then
      if int32 (offset + s.vnLen vnode) < 0 then putReturn file (-einval)
      else seekDone file (int32 (s.vnLen vnode + offset))
    else putReturn file (-einval)

/-- `do_write` from where the position is right. -/
def writeAt (file : Nat) (write : Outcome) : FileProg Int := do
  let vnode ← fVnode file
  let s ← get
  -- directories have no `write` operation
  kassert (!s.isDir vnode)
  advance file vnode write
  putReturn file write.ret

def doWrite (fd : Int) (write : Outcome) : FileProg Int :=
  withFile fd fun file => do
    let s ← get
    let mode := (s.files file).fMode
    if fmodeIsread mode = true ∧ fmodeIswrite mode = false then putReturn file (-ebadf)
    else if fmodeIsappend mode = true then do
      let ret ← doLseek fd 0 seekEnd
      if ret < 0 then putReturn file ret else writeAt file write
    else writeAt file write

def doGetdent (fd : Int) (readdir : Outcome) : FileProg Int :=
  withFile fd fun file => do
    let vnode ← fVnode file
    let s ← get
    if s.isDir vnode = false then putReturn file (-enotdir)
    else do
      advance file vnode readdir
      putReturn file (if readdir.ret = 0 then readdir.ret else sizeofDirent)

end CodingSample.Vfs
