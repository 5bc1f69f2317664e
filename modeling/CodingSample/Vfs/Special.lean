import CodingSample.Vfs.Accounting

/-!
# Special files

A file system on a disk next to the drivers of the byte devices, and the operations of `vnode.c` on
a special file.
-/

namespace CodingSample.Vfs

open Prog

@[simp] def enotsup : Int := 95

/-- The drivers of the byte devices, which have a state `δ`. -/
structure Devices (δ : Type) where
  /-- `bytedev_lookup` finds a device. -/
  bytedev : UInt32 → Bool
  read : UInt32 → Int → Nat → δ → (Int × List UInt8) × δ
  write : UInt32 → Int → List UInt8 → δ → Int × δ

variable {ε σ δ α : Type}

def onDisk (p : Prog ε σ α) : Prog ε (σ × δ) α := zoom Prod.fst (fun fs s => (fs, s.2)) p

def onMachine (f : δ → α × δ) : Prog ε (σ × δ) α := do
  let s ← get
  modify fun _ => (s.1, (f s.2).2)
  pure (f s.2).1

/-- `special_file_read` of a byte device, with its `vn_devid`. -/
def specialFileRead (m : Devices δ) (devid : UInt32) (offset : Int) (count : Nat) :
    Prog ε (σ × δ) (Int × List UInt8) :=
  if m.bytedev devid = false then pure (-enotsup, [])
  else onMachine (m.read devid offset count)

/-- `special_file_write` of a byte device, with its `vn_devid`. -/
def specialFileWrite (m : Devices δ) (devid : UInt32) (offset : Int) (buf : List UInt8) :
    Prog ε (σ × δ) Int :=
  if m.bytedev devid = false then pure (-enotsup)
  else onMachine (m.write devid offset buf)

/-! ### The books of the file system -/

/-- The books of a file system that has its machine beside it. -/
def Sys.Ledger.beside (L : Sys.Ledger σ) : Sys.Ledger (σ × δ) :=
  ⟨fun s => L.sound s.1, fun s => L.refs s.1⟩

variable {L : Sys.Ledger σ} {m : Devices δ} {devid : UInt32} {offset : Int}

/-- The program changes the references of the file system by what `d` says. -/
abbrev Sys.Ledger.Takes (L : Sys.Ledger σ) (p : Prog ε (σ × δ) α) (d : α → Nat → Int) : Prop :=
  Changes (L.beside (δ := δ)).sound L.beside.refs p d

theorem takes_onDisk {p : Prog ε σ α} {d : α → Nat → Int} (h : Changes L.sound L.refs p d) :
    L.Takes (δ := δ) (onDisk p) d :=
  h.zoom fun _ _ => rfl

theorem takes_onMachine {f : δ → α × δ} :
    L.Takes (onMachine f : Prog ε (σ × δ) α) fun _ => 0 := by
  intro s hs
  rw [onMachine, wlp_bind, wlp_get, wlp_bind, wlp_modify, wlp_pure]
  exact ⟨hs, (add_zero _).symm⟩

theorem takes_specialFileRead {count : Nat} :
    L.Takes (specialFileRead m devid offset count : Prog ε (σ × δ) _) fun _ => 0 :=
  .ite (fun _ => .pure rfl) fun _ => takes_onMachine

theorem takes_specialFileWrite {buf : List UInt8} :
    L.Takes (specialFileWrite m devid offset buf : Prog ε (σ × δ) _) fun _ => 0 :=
  .ite (fun _ => .pure rfl) fun _ => takes_onMachine

end CodingSample.Vfs
