import CodingSample.S5fs.DirRun
import CodingSample.S5fs.References
import CodingSample.Vfs.Booting

/-!
# Processes on S5

The system calls over S5, from the mount of any disk on, with the page-out daemon between the calls.
-/

namespace CodingSample.S5fs

open Prog Vfs

section Boot

variable [BlockDev] {s : S5} {ino n : Nat}

/-- `s5fs_mount` brings the root in, and `idleproc_run` refers to it for each of `n` processes. -/
def boot (n : Nat) : K Unit := do
  let s ← get
  vget s.super.s5sRootInode
  each (fun _ => vref s.super.s5sRootInode) (List.range n)

omit [BlockDev] in
theorem refers_eachVref (xs : List Nat) :
    Refers (each (fun _ => vref ino) xs) fun _ => Pi.single ino (xs.length : Int) := by
  induction xs with
  | nil =>
      refine .pure ?_
      rw [List.length_nil, Nat.cast_zero, Pi.single_zero]
  | cons x xs ih =>
      refine refers_vref.bind fun _ => ih.congr fun _ => ?_
      rw [List.length_cons, Nat.cast_succ, Pi.single_add, add_sub_cancel_right]

omit [BlockDev] in
/-- From a disk of which nothing is in core. -/
theorem wlp_boot (hcore : ∀ ino, s.vnodes ino = none) : wlp (boot n) (fun _ s' =>
    s'.Used ∧ s'.refs = Pi.single s.super.s5sRootInode (1 + n : Int)) s := by
  have hused : s.Used := fun ino v hv => by
    rw [hcore ino] at hv
    cases hv
  have hrefs : s.refs = 0 := funext fun ino => refs_of_none (hcore ino)
  have hroot : Refers (do
      vget s.super.s5sRootInode
      each (fun _ => vref s.super.s5sRootInode) (List.range n)) fun _ =>
        Pi.single s.super.s5sRootInode (1 + n : Int) := by
    refine refers_vget.bind fun _ => (refers_eachVref (List.range n)).congr fun _ => ?_
    rw [List.length_range, Pi.single_add, add_sub_cancel_left]
  rw [boot, wlp_bind, wlp_get]
  refine wlp_mono (hroot s hused) ?_
  rintro _ s' ⟨hused', hrefs'⟩
  rw [hrefs, zero_add] at hrefs'
  exact ⟨hused', hrefs'⟩

/-- What `pageoutd_run` does to a page of a file or of the block device. -/
inductive PageOut where
  | clean (ino n : Nat)
  | free (ino n : Nat)
  | cleanBdev (b : UInt32)
  | freeBdev (b : UInt32)

def PageOut.run : PageOut → K Unit
  | .clean ino n => pframeClean ino n >>= fun _ => pure ()
  | .free ino n => pframeFree ino n
  | .cleanBdev b => pframeCleanBdev b
  | .freeBdev b => pframeFreeBdev b

theorem refers_pageOut (c : PageOut) : Refers c.run fun _ => 0 := by
  cases c with
  | clean ino n => exact .bind_zero refers_pframeClean fun _ => .pure rfl
  | free ino n => exact refers_pframeFree
  | cleanBdev b => exact blind_pframeCleanBdev.refers
  | freeBdev b => exact blind_pframeFreeBdev.refers

end Boot

section Runs

variable {ι δ : Type} [BlockDev] [Fintype ι] [DecidableEq ι] {root : Nat}
  {k k' : Sys.Kernel ι (S5 × δ)}

/-- The processes make calls in any order, and the page-out daemon runs between them. -/
inductive Run (m : Devices δ) (root : Nat) (k : Sys.Kernel ι (S5 × δ)) :
    Sys.Kernel ι (S5 × δ) → Prop where
  | start : Run m root k k
  | call {k₁ k₂ : Sys.Kernel ι (S5 × δ)} {p : ι} {c : Sys.Call} {ret : Int}
      (hrun : Run m root k k₁) (hfresh : c.Fresh k₁)
      (hcall : c.run (fileOps m) root p k₁ = .ok (ret, k₂)) : Run m root k k₂
  | pageOut {k₁ k₂ : Sys.Kernel ι (S5 × δ)} {c : PageOut} (hrun : Run m root k k₁)
      (hcall : Sys.onSys (Sys.onFs (onDisk c.run)) k₁ = .ok ((), k₂)) : Run m root k k₂

theorem Run.settled {m : Devices δ} (hk : k.Owes ledger.beside root 0 0)
    (hrun : Run m root k k') : k'.Owes ledger.beside root 0 0 := by
  induction hrun with
  | start => exact hk
  | call _ hfresh hcall ih => exact Sys.Call.settles (fileOps_counts m) ih _ hfresh _ _ hcall
  | @pageOut k₁ k₂ c _ hcall ih =>
      have hout : wlp (Sys.onSys (Sys.onFs (onDisk c.run))) (fun _ k' =>
          k'.Owes ledger.beside root 0 0) k₁ := by
        rw [Sys.wlp_onSys]
        refine wlp_mono (Sys.Owing.wlp_onFs ih (takes_onDisk (refers_pageOut c))) ?_
        rintro _ s ⟨hs, -⟩
        rw [add_zero] at hs
        exact hs
      exact hout _ _ hcall

/-- The counts of the files and of the vnodes are what the descriptors, the working directories and
the resident pages make them, and nothing else is in core. -/
structure Counted (root : Nat) (k : Sys.Kernel ι (S5 × δ)) : Prop where
  descriptor : ∀ p fd f, fd < 32 → k.pFiles p fd = some f → f ∈ k.sys.opened
  file : ∀ f ∈ k.sys.opened, (k.sys.files f).fRefcount = Sys.slotsOf k.pFiles f ∧
    0 < Sys.slotsOf k.pFiles f ∧
      ∃ v vn, (k.sys.files f).fVnode = some v ∧ k.sys.fs.1.vnodes v = some vn
  directory : ∀ p, ∃ vn, k.sys.fs.1.vnodes (k.pCwd p) = some vn
  vnode : ∀ v vn, k.sys.fs.1.vnodes v = some vn → 0 < vn.vnRefcount ∧ vn.vnRefcount =
    Sys.filesOn k.sys v + Sys.dirsAt k.pCwd v + vn.vnNrespages + if v = root then 1 else 0

omit [DecidableEq ι] [BlockDev] in
theorem counted_of_owes (h : k.Owes ledger.beside root 0 0) : Counted root k := by
  have hcore (v : Nat) (hpos : 0 < k.sys.fs.1.refs v) : ∃ vn, k.sys.fs.1.vnodes v = some vn := by
    cases hvn : k.sys.fs.1.vnodes v with
    | some vn => exact ⟨vn, rfl⟩
    | none =>
        rw [refs_of_none hvn] at hpos
        exact absurd hpos (lt_irrefl 0)
  refine ⟨h.slot, ?_, fun p => hcore _ (h.onDirectory p), ?_⟩
  · intro f hf
    obtain ⟨hcount, hpos, v, hvnode, hrefs⟩ := h.onFile hf
    obtain ⟨vn, hvn⟩ := hcore v hrefs
    exact ⟨hcount, hpos, v, vn, hvnode, hvn⟩
  · intro v vn hvn
    have hv : k.sys.fs.1.refs v = _ := h.onVnode v
    rw [refs_of_some hvn] at hv
    refine ⟨h.sound v vn hvn, ?_⟩
    omega

/-- Whatever is on the disk, and however the calls and the page-out daemon are ordered, no reference
is lost and none is given up twice. -/
theorem counts_balanced (m : Devices δ) (d : δ) {s₀ s : S5}
    (hcore : ∀ ino, s₀.vnodes ino = none) (hboot : boot (Fintype.card ι) s₀ = .ok ((), s))
    (hrun : Run m s₀.super.s5sRootInode (.started (s, d) s₀.super.s5sRootInode) k) :
    Counted s₀.super.s5sRootInode k := by
  obtain ⟨hused, hrefs⟩ := wlp_boot hcore _ _ hboot
  have hstart : (Sys.Kernel.started (s, d) s₀.super.s5sRootInode : Sys.Kernel ι (S5 × δ)).Owes
      ledger.beside s₀.super.s5sRootInode 0 0 := Sys.Kernel.started_owes hused hrefs
  exact counted_of_owes (hrun.settled hstart)

end Runs

/-- A machine without byte devices. -/
def noDevices : Devices Unit where
  bytedev := fun _ => false
  read := fun _ _ _ d => ((0, []), d)
  write := fun _ _ _ d => (0, d)

/-- The empty disk after the boot with one process. -/
def emptyDirBooted : S5 :=
  emptyDirHeld.setVnode 0 (some ⟨.dir, 0, 0, 2, [], fun _ => ⟨Block.zero, false⟩⟩)

theorem boot_emptyDir : boot 1 emptyDir = .ok ((), emptyDirBooted) := rfl

/-- One process opens the root of an empty disk. -/
theorem counts_balanced_opened : ∃ k : Sys.Kernel Unit (S5 × Unit),
    (∃ fd, (Sys.Call.open [47] 0 (some 0)).run (@fileOps plainDev _ noDevices) 0 ()
      (.started (emptyDirBooted, ()) 0) = .ok (fd, k)) ∧ Counted 0 k :=
  ⟨_, ⟨_, rfl⟩, @counts_balanced _ _ plainDev _ _ _ noDevices () emptyDir _ (fun _ => rfl)
    boot_emptyDir <| @Run.call _ _ plainDev _ _ _ _ _ _ () (.open [47] 0 (some 0)) _
      (@Run.start _ _ plainDev _ _ _ _) (fun f _ => Finset.notMem_empty f) rfl⟩

end CodingSample.S5fs
