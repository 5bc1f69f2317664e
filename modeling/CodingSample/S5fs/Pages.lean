import CodingSample.S5fs.Blocks

/-!
# Vnodes and their pages

`vget` and `vput` of the vnode layer, the page operations of `pframe.c` on the memory object of a
vnode, and the S5 operations they call.
-/

namespace CodingSample.S5fs

open Prog

/-- `PN_TO_ADDR`, converted to the `int` the vnode operations take. -/
def pnToAddr (pagenum : Nat) : Int := toInt32 (UInt32.ofNat (pagenum * 4096))

def getVnode (ino : Nat) : K Vnode := do
  let s ← get
  match s.vnodes ino with
  | some v => pure v
  | none => fail .badAccess

def modifyVnode (ino : Nat) (f : Vnode → Vnode) : K Unit := do
  let v ← getVnode ino
  modify fun s => s.setVnode ino (some (f v))

/-- Change the memory of a page. -/
def pokePage (ino n : Nat) (f : Block → Block) : K Unit := do
  let v ← getVnode ino
  check .badAccess (n ∈ v.vnRespages)
  modifyVnode ino fun v => v.setFrame n { v.vnFrame n with data := f (v.vnFrame n).data }

variable [BlockDev]

/-! ### The device operations -/

def readBlock (ino pagebuf : Nat) (b : UInt32) : K Int := do
  let s ← get
  if BlockDev.serves b then do
    pokePage ino pagebuf fun _ => s.disk b
    pure 0
  else
    pure (-eio)

def writeBlock (b : UInt32) (d : Block) : K Int :=
  if BlockDev.serves b then modify (fun s => s.setDisk b d) >>= fun _ => pure 0
  else pure (-eio)

/-! ### The page operations of S5 -/

/-- `pagebuf` is the page whose memory is filled. -/
def s5fsFillpage (ino : Nat) (offset : Int) (pagebuf : Nat) : K Int := do
  let diskNumber ← s5SeekToBlock ino offset false
  if diskNumber < 0 then
    pure diskNumber
  else if diskNumber = 0 then do
    pokePage ino pagebuf fun _ => Block.zero
    pure 0
  else
    readBlock ino pagebuf (ofInt32 diskNumber)

def s5fsDirtypage (ino : Nat) (offset : Int) : K Int := do
  let sparse ← s5SeekToBlock ino offset false
  if sparse < 0 then
    pure sparse
  else if 0 < sparse then
    pure 0
  else do
    let diskNumber ← s5SeekToBlock ino offset true
    pure (if diskNumber < 0 then diskNumber else 0)

def s5fsCleanpage (ino : Nat) (offset : Int) (pagebuf : Nat) : K Int := do
  let diskNumber ← s5SeekToBlock ino offset false
  if diskNumber < 0 then
    pure diskNumber
  else do
    let v ← getVnode ino
    writeBlock (ofInt32 diskNumber) (v.vnFrame pagebuf).data

/-! ### Vnodes -/

def s5fsQueryVnode (ino : Nat) : K Bool := do
  let s ← get
  pure (1 < (s.inodes ino).s5Linkcount)

def setLinkcount (ino : Nat) (n : Int) : K Unit :=
  modify fun s => s.setInode ino { s.inodes ino with s5Linkcount := toInt16 n }

def s5fsDeleteVnode (ino : Nat) : K Unit := do
  let s ← get
  setLinkcount ino ((s.inodes ino).s5Linkcount - 1)
  let s ← get
  kassert (0 ≤ (s.inodes ino).s5Linkcount)
  if (s.inodes ino).s5Linkcount = 0 then s5FreeInode ino else pure ()

def S5Type.vnMode : S5Type → Option VnMode
  | .free => none
  | .data => some .reg
  | .dir => some .dir
  | .chr => some .chr
  | .blk => some .blk

/-- `s5fs_read_vnode`, which makes the new vnode of inode `ino`. -/
def s5fsReadVnode (ino : Nat) : K Vnode := do
  let s ← get
  -- past the inode table the block is read as an inode all the same
  check .badAccess (ino < s.super.s5sNumInodes)
  setLinkcount ino ((s.inodes ino).s5Linkcount + 1)
  match (s.inodes ino).s5Type.vnMode with
  | none => fail .panic
  | some mode => pure {
      vnMode := mode
      vnLen := toInt32 (UInt32.ofNat (s.inodes ino).s5Size)
      vnDevid := match mode with
        | .chr | .blk => (s.inodes ino).s5IndirectBlock
        | .dir | .reg => 0
      vnRefcount := 0
      vnRespages := []
      vnFrame := fun _ => ⟨Block.zero, false⟩ }

def vref (ino : Nat) : K Unit := do
  let v ← getVnode ino
  kassert (0 < v.vnRefcount)
  modifyVnode ino fun v => { v with vnRefcount := v.vnRefcount + 1 }

def vget (ino : Nat) : K Unit := do
  let s ← get
  match s.vnodes ino with
  | some _ => vref ino
  | none => do
      let v ← s5fsReadVnode ino
      modify fun s => s.setVnode ino (some { v with vnRefcount := 1 })

/-- The first part of `pframe_free`: the page leaves the memory object. -/
def pframeUnlink (ino n : Nat) : K Unit := do
  let v ← getVnode ino
  check .badAccess (n ∈ v.vnRespages)
  modifyVnode ino fun v => { v with vnRespages := v.vnRespages.erase n }

/-- The part of `vput` that frees the pages of a vnode nobody can reach any more; `free` is
`pframe_free`. -/
def vputEvict (free : Nat → K Unit) (ino : Nat) : K Unit := do
  let v ← getVnode ino
  kassert (v.vnNrespages < v.vnRefcount)
  let linked ← s5fsQueryVnode ino
  if v.vnNrespages = v.vnRefcount - 1 ∧ linked = false then do
    each free v.vnRespages
    let v ← getVnode ino
    kassert (v.vnNrespages = 0)
    kassert (v.vnRefcount = 1)
  else
    pure ()

/-- The part of `vput` that drops the reference. -/
def vputDrop (ino : Nat) : K Unit := do
  modifyVnode ino fun v => { v with vnRefcount := v.vnRefcount - 1 }
  let v ← getVnode ino
  if 0 < v.vnRefcount then
    pure ()
  else do
    kassert (v.vnRefcount = 0)
    kassert (v.vnNrespages = 0)
    s5fsDeleteVnode ino
    modify fun s => s.setVnode ino none

/-- `vput` and `pframe_free` call each other; each round has one resident page less. -/
def vputWithin : Nat → Nat → K Unit
  | 0, _ => fail .panic
  | fuel + 1, ino => do
      vputEvict (fun n => pframeUnlink ino n >>= fun _ => vputWithin fuel ino) ino
      vputDrop ino

def vput (ino : Nat) : K Unit := do
  let v ← getVnode ino
  vputWithin (v.vnRespages.length + 1) ino

/-! ### Pages of vnodes -/

def vreadpage (ino n : Nat) : K Int := do
  let v ← getVnode ino
  match v.vnMode with
  | .reg | .dir => s5fsFillpage ino (pnToAddr n) n
  | .chr => fail .notYetImplemented
  | .blk => fail .nullOp

def vdirtypage (ino n : Nat) : K Int := do
  let v ← getVnode ino
  if (v.vnFrame n).dirty then
    pure 0
  else
    match v.vnMode with
    | .reg | .dir => s5fsDirtypage ino (pnToAddr n)
    | .chr => fail .notYetImplemented
    | .blk => fail .nullOp

def vcleanpage (ino n : Nat) : K Int := do
  let v ← getVnode ino
  match v.vnMode with
  | .reg | .dir => s5fsCleanpage ino (pnToAddr n) n
  | .chr => fail .notYetImplemented
  | .blk => fail .nullOp

def pframeAlloc (ino n : Nat) : K Unit := do
  vref ino
  modifyVnode ino fun v =>
    { v.setFrame n { v.vnFrame n with dirty := false } with vnRespages := n :: v.vnRespages }

def pframeFree (ino n : Nat) : K Unit := do
  pframeUnlink ino n
  vput ino

/-- `pframe_get` on the memory object of a vnode. -/
def pframeGet (ino n : Nat) : K Int := do
  let v ← getVnode ino
  if n ∈ v.vnRespages then
    pure 0
  else do
    pframeAlloc ino n
    let ret ← vreadpage ino n
    if ret < 0 then do
      pframeFree ino n
      pure ret
    else
      pure 0

def setDirty (ino n : Nat) (dirty : Bool) : K Unit :=
  modifyVnode ino fun v => v.setFrame n { v.vnFrame n with dirty := dirty }

def pframeDirty (ino n : Nat) : K Int := do
  let v ← getVnode ino
  check .badAccess (n ∈ v.vnRespages)
  let ret ← vdirtypage ino n
  if ret = 0 then do
    setDirty ino n true
    pure ret
  else
    pure ret

def pframeClean (ino n : Nat) : K Int := do
  let v ← getVnode ino
  check .badAccess (n ∈ v.vnRespages)
  kassert (v.vnFrame n).dirty
  setDirty ino n false
  let ret ← vcleanpage ino n
  if ret < 0 then do
    setDirty ino n true
    pure ret
  else
    pure ret

end CodingSample.S5fs
