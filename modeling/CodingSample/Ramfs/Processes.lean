import CodingSample.Ramfs.Counting
import CodingSample.Vfs.Booting
import CodingSample.Vfs.Special

/-!
# Processes on the ramfs

The system calls over the ramfs, from the boot of the kernel on.
-/

namespace CodingSample.Ramfs

open Prog Vfs

/-- The rest of the machine: the byte devices, and whether there is memory for an inode. -/
structure Machine (δ : Type) extends Devices δ where
  supply : δ → Supply × δ

/-- `vn_mode` as it is in `st_mode`. -/
def VnMode.bits : VnMode → Int
  | .reg => 0x800
  | .dir => 0x200
  | .chr => 0x100
  | .blk => 0x400

/-- What a `mode` is the mode of. -/
def modeOf (mode : Nat) : VnMode :=
  if mode &&& 0xFF00 = Sys.sIfchr then .chr
  else if mode &&& 0xFF00 = Sys.sIfblk then .blk
  else if mode &&& 0xFF00 = 0x200 then .dir
  else .reg

/-- `rf_mem` of a device. -/
def Contents.devid : Contents → UInt32
  | .chr devid | .blk devid => devid
  | .data _ | .dir _ => 0

def ramfsStat (file : Nat) : R (Int × Sys.Stat) := do
  let i ← getInode file
  let v ← getVnode file
  let rdev := if v.vnMode = .chr ∨ v.vnMode = .blk then int32 i.contents.devid.toNat else 0
  pure (0, {
    stMode := v.vnMode.bits
    stIno := file
    stRdev := rdev
    stNlink := i.rfLinkcount - 1
    stSize := i.rfSize
    stBlksize := pageSize
    stBlocks := 1 })

section Calls

variable {δ α : Type} (m : Machine δ)

/-- An operation of a vnode of the given kind; block devices have none to read or write. -/
def byMode (file : Nat) (regular : Prog Fault (Fs × δ) α)
    (special : UInt32 → Prog Fault (Fs × δ) α) : Prog Fault (Fs × δ) α := do
  let v ← onDisk (getVnode file)
  match v.vnMode with
  | .chr => do
      let inode ← onDisk (getInode file)
      special inode.contents.devid
  | .blk => fail .nullOp
  | .reg | .dir => regular

/-- An operation that may need a new inode. -/
def withSupply (p : Supply → R α) : Prog Fault (Fs × δ) α := do
  let mem ← onMachine m.supply
  onDisk (p mem)

/-- The operations of the vnodes of the ramfs. -/
def fileOps : Sys.FsOps Fault (Fs × δ) where
  vref := fun v => onDisk (vref v)
  vput := fun v => onDisk (vput v)
  isDir := fun v s => (s.1.vnodes v).any fun vn => vn.vnMode = .dir
  lookup := fun dir name => onDisk ((vnodeOps ⟨true, true⟩).lookup dir name)
  create := fun dir name => withSupply m fun mem => (vnodeOps mem).create dir name
  fault := .kassert
  vnLen := fun v s => ((s.1.vnodes v).map Vnode.vnLen).getD 0
  read := fun v pos n => byMode v (onDisk (ramfsRead v pos n)) fun devid =>
    specialFileRead m.toDevices devid pos n
  write := fun v pos buf => byMode v (onDisk (ramfsWrite v pos buf)) fun devid =>
    specialFileWrite m.toDevices devid pos buf
  mknod := fun dir name mode devid =>
    withSupply m fun mem => ramfsMknod dir name (modeOf mode) devid mem
  mkdir := fun dir name => withSupply m fun mem => ramfsMkdir dir name mem
  rmdir := fun dir name => onDisk (ramfsRmdir dir name)
  unlink := fun dir name => onDisk (ramfsUnlink dir name)
  link := fun v dir name => onDisk (ramfsLink v dir name)
  readdir := fun v pos => onDisk (ramfsReaddir v pos)
  stat := fun v => onDisk (ramfsStat v)

end Calls

/-! ### The books -/

section Books

variable {δ α : Type} {m : Machine δ} {dir file : Nat} {name : Name}

/-- The references that `vn_refcount` counts; no page of the ramfs is ever resident. -/
def ledger : Sys.Ledger Fs := ⟨Fs.Used, Fs.refs⟩

theorem takes_withSupply {p : Supply → R α} {d : α → Nat → Int}
    (h : ∀ mem, Changes Fs.Used Fs.refs (p mem) d) : ledger.Takes (withSupply m p) d :=
  .bind_zero takes_onMachine fun mem => takes_onDisk (h mem)

theorem takes_byMode {regular : Prog Fault (Fs × δ) α} {special : UInt32 → Prog Fault (Fs × δ) α}
    (hregular : ledger.Takes regular fun _ => 0)
    (hspecial : ∀ devid, ledger.Takes (special devid) fun _ => 0) :
    ledger.Takes (byMode file regular special) fun _ => 0 := by
  refine .bind_zero (takes_onDisk changes_getVnode) fun v => ?_
  split
  · exact .bind_zero (takes_onDisk changes_getInode) fun _ => hspecial _
  · exact .fail
  all_goals exact hregular

theorem takes_readByMode {pos : Int} {n : Nat} :
    ledger.Takes (byMode file (onDisk (ramfsRead file pos n)) fun devid =>
      specialFileRead m.toDevices devid pos n) fun _ => 0 :=
  takes_byMode (takes_onDisk changes_read) fun _ => takes_specialFileRead

theorem takes_writeByMode {pos : Int} {buf : List UInt8} :
    ledger.Takes (byMode file (onDisk (ramfsWrite file pos buf)) fun devid =>
      specialFileWrite m.toDevices devid pos buf) fun _ => 0 :=
  takes_byMode (takes_onDisk changes_write) fun _ => takes_specialFileWrite

theorem changes_opLookup {mem : Supply} :
    Changes Fs.Used Fs.refs ((vnodeOps mem).lookup dir name) Sys.gained := by
  refine changes_lookup.bind fun r => ?_
  cases r with
  | none => exact .pure (sub_self _)
  | some n => exact .pure (sub_self _)

theorem changes_opCreate {mem : Supply} :
    Changes Fs.Used Fs.refs ((vnodeOps mem).create dir name) Sys.gained := by
  refine changes_create.bind fun r => ?_
  obtain ⟨ret, result⟩ := r
  cases result with
  | none => exact .pure (sub_self _)
  | some n => exact .pure (sub_self _)

theorem changes_stat : Changes Fs.Used Fs.refs (ramfsStat file) fun _ => 0 :=
  .bind_zero changes_getInode fun _ => .bind_zero changes_getVnode fun _ => .pure rfl

theorem fileOps_counts (m : Machine δ) : Sys.Counts (fileOps m) ledger.beside where
  vref _ := takes_onDisk changes_vref
  vput _ := takes_onDisk changes_vput
  lookup _ _ := takes_onDisk changes_opLookup
  create _ _ := takes_withSupply fun _ => changes_opCreate
  read _ _ _ := takes_readByMode
  write _ _ _ := takes_writeByMode
  mknod _ _ _ _ := takes_withSupply fun _ => changes_mknod
  mkdir _ _ := takes_withSupply fun _ => changes_mkdir
  rmdir _ _ := takes_onDisk changes_rmdir
  unlink _ _ := takes_onDisk changes_unlink
  link _ _ _ := takes_onDisk changes_link
  readdir _ _ := takes_onDisk changes_readdir
  stat _ := takes_onDisk changes_stat

end Books

/-! ### From the boot on -/

section Boot

variable {ι δ : Type}

/-- The mounted ramfs, where `n` processes have the root as working directory. -/
def rooted (n : Nat) : Fs := mounted.setVnode 0 (some ⟨.dir, 64, 1 + n⟩)

theorem rooted_zero : rooted 0 = mounted := by
  have hvnodes : Function.update mounted.vnodes 0 (some ⟨.dir, 64, 1 + (0 : Nat)⟩) =
      mounted.vnodes := Function.update_eq_self 0 mounted.vnodes
  rw [rooted, Fs.setVnode, hvnodes]

/-- `idleproc_run` refers to the root for each process. -/
theorem vref_rooted (n : Nat) : vref 0 (rooted n) = .ok ((), rooted (n + 1)) := by
  have hv : (rooted n).vnodes 0 = some ⟨.dir, 64, 1 + n⟩ := Fs.vnodes_setVnode_self
  have hpos : (0 : Int) < 1 + n := by omega
  rw [vref, bind_eq_of_ok (getVnode_apply hv), kassert, decide_eq_true hpos, check_true]
  rw [bind_eq_of_ok (pure_apply _ _), modify_apply]
  simp [rooted, Fs.setVnode, add_assoc]

variable [Fintype ι]

/-- The kernel when the processes start. -/
def booted (d : δ) : Sys.Kernel ι (Fs × δ) := .started (rooted (Fintype.card ι), d) 0

theorem booted_owes (d : δ) : (booted d : Sys.Kernel ι (Fs × δ)).Owes ledger.beside 0 0 0 := by
  refine Sys.Kernel.started_owes ?_ ?_
  · intro ino vn hvn
    by_cases hino : ino = 0
    · subst hino
      have hroot : (rooted (Fintype.card ι)).vnodes 0 = some vn := hvn
      rw [rooted, Fs.vnodes_setVnode_self] at hroot
      cases hroot
      simp only []
      omega
    · have hother : (rooted (Fintype.card ι)).vnodes ino = some vn := hvn
      rw [rooted, Fs.vnodes_setVnode_of_ne hino, (mounted_of_ne hino).2] at hother
      cases hother
  · funext v
    change (rooted (Fintype.card ι)).refs v = _
    by_cases hv : v = 0
    · subst hv
      rw [rooted, refs_of_some Fs.vnodes_setVnode_self, Pi.single_eq_same]
    · have hnone : (rooted (Fintype.card ι)).vnodes v = none := by
        rw [rooted, Fs.vnodes_setVnode_of_ne hv, (mounted_of_ne hv).2]
      rw [refs_of_none hnone, Pi.single_eq_of_ne hv]

/-- The counts of the files and of the vnodes are what the descriptors and the working directories
make them, and nothing else is in core. -/
structure Counted (k : Sys.Kernel ι (Fs × δ)) : Prop where
  descriptor : ∀ p fd f, fd < 32 → k.pFiles p fd = some f → f ∈ k.sys.opened
  file : ∀ f ∈ k.sys.opened, (k.sys.files f).fRefcount = Sys.slotsOf k.pFiles f ∧
    0 < Sys.slotsOf k.pFiles f ∧
      ∃ v vn, (k.sys.files f).fVnode = some v ∧ k.sys.fs.1.vnodes v = some vn
  directory : ∀ p, ∃ vn, k.sys.fs.1.vnodes (k.pCwd p) = some vn
  vnode : ∀ v vn, k.sys.fs.1.vnodes v = some vn → 0 < vn.vnRefcount ∧ vn.vnRefcount =
    Sys.filesOn k.sys v + Sys.dirsAt k.pCwd v + if v = 0 then 1 else 0

/-- The books of the calls, for the vnodes of the ramfs. -/
theorem counted_of_owes {k : Sys.Kernel ι (Fs × δ)} (h : k.Owes ledger.beside 0 0 0) :
    Counted k := by
  have hcore (v : Nat) (hpos : 0 < k.sys.fs.1.refs v) : ∃ vn, k.sys.fs.1.vnodes v = some vn := by
    cases hvn : k.sys.fs.1.vnodes v with
    | some vn => exact ⟨vn, rfl⟩
    | none =>
        rw [refs_of_none hvn] at hpos
        exact absurd hpos (lt_irrefl 0)
  refine ⟨h.slot, ?_, fun p => hcore _ (h.onDirectory p), ?_⟩
  · intro f hf
    obtain ⟨hcount, hpos, v, hvnode, hrefs⟩ := h.onFile hf
    obtain ⟨vn, hvn⟩ := hcore v hrefs
    exact ⟨hcount, hpos, v, vn, hvnode, hvn⟩
  · intro v vn hvn
    have hv : k.sys.fs.1.refs v = _ := h.onVnode v
    rw [refs_of_some hvn] at hv
    exact ⟨h.sound v vn hvn, hv⟩

variable [DecidableEq ι]

/-- However the processes' calls are ordered and whichever of them fail, no reference is lost and
none is given up twice. -/
theorem references_counted (m : Machine δ) (d : δ) {k : Sys.Kernel ι (Fs × δ)}
    (hrun : Sys.Run (fileOps m) 0 (booted d) k) : Counted k :=
  counted_of_owes (hrun.settled (fileOps_counts m) (booted_owes d))

/-- A machine with enough memory and without byte devices. -/
def quietMachine : Machine Unit where
  supply := fun d => (⟨true, true⟩, d)
  bytedev := fun _ => false
  read := fun _ _ _ d => ((0, []), d)
  write := fun _ _ _ d => (0, d)

/-- Of two processes, one opens a new file. -/
theorem references_counted_opened : ∃ k : Sys.Kernel Bool (Fs × Unit),
    (∃ fd, (Sys.Call.open [97] 0x100 (some 0)).run (fileOps quietMachine) 0 true (booted ()) =
      .ok (fd, k)) ∧ Counted k :=
  ⟨_, ⟨_, rfl⟩, references_counted quietMachine () <|
    .call (p := true) (c := .open [97] 0x100 (some 0)) .start
      (fun f _ => Finset.notMem_empty f) rfl⟩

end Boot

end CodingSample.Ramfs
