import CodingSample.Prog.Keeps
import CodingSample.Vfs.Accounting

/-!
# Every call settles its references

What a call takes on the way it gives back, to a descriptor, to a working directory or to the
object itself, on each of its paths.
-/

namespace CodingSample.Vfs.Sys

open Prog

variable {ε σ ι α β : Type} {ops : FsOps ε σ} {L : Ledger σ} {root : Nat}
  {base fx vx : Nat → Int} {k : Kernel ι σ} {p : ι} {f : Nat}

theorem wlp_onSys {m : Prog ε (Files σ) α} {P : α → Kernel ι σ → Prop} :
    wlp (onSys m) P k ↔ wlp m (fun a s => P a { k with sys := s }) k.sys := by
  rw [onSys, wlp_zoom]

/-- An empty descriptor, if one is there. -/
theorem wlp_getEmptyFd : wlp (getEmptyFd p : Prog ε (Kernel ι σ) Int) (fun fd k' => k = k' ∧
    (fd < 0 ∨ 0 ≤ fd ∧ fd < 32 ∧ k.pFiles p fd.toNat = none)) k := by
  rw [getEmptyFd, wlp_bind, wlp_get]
  split
  · rename_i fd hfind
    have hlt := List.mem_range.mp (List.mem_of_find?_eq_some hfind)
    have hnone := List.find?_some hfind
    simp only [nfiles] at hlt
    refine wlp_pure.mpr ⟨rfl, Or.inr ⟨by omega, by omega, ?_⟩⟩
    simpa using hnone
  · exact wlp_pure.mpr ⟨rfl, Or.inl (by simp)⟩

variable [Fintype ι]

def Kernel.Owes (L : Ledger σ) (root : Nat) (fx vx : Nat → Int) (k : Kernel ι σ) : Prop :=
  Owing L root k.pFiles k.pCwd fx vx none k.sys

/-- The program gives up the references that it holds, but for those to files in `base`. -/
def Settles (L : Ledger σ) (root : Nat) (base fx vx : Nat → Int)
    (m : Prog ε (Kernel ι σ) α) : Prop :=
  ∀ k, k.Owes L root fx vx → wlp m (fun _ k' => k'.Owes L root base 0) k

namespace Settles

theorem pure {a : α} : Settles (ι := ι) L root base base 0 (Pure.pure a : Prog ε _ α) :=
  fun _ hk => wlp_pure.mpr hk

theorem fail {e : ε} : Settles (ι := ι) L root base fx vx (Prog.fail e : Prog ε _ α) :=
  fun _ _ => wlp_fail.mpr trivial

theorem ite {c : Prop} [Decidable c] {m m' : Prog ε (Kernel ι σ) α}
    (h : c → Settles L root base fx vx m) (h' : ¬ c → Settles L root base fx vx m') :
    Settles L root base fx vx (if c then m else m') := by
  split
  · exact h ‹_›
  · exact h' ‹_›

/-- The same references, in another form. -/
theorem congr {vx' : Nat → Int} {m : Prog ε (Kernel ι σ) α}
    (h : Settles L root base fx vx m) (hvx : vx' = vx) : Settles L root base fx vx' m :=
  hvx ▸ h

/-- A step that leaves the references. -/
theorem bind {m : Prog ε (Kernel ι σ) α} {g : α → Prog ε (Kernel ι σ) β}
    (hm : Keeps (Kernel.Owes L root fx vx) m) (hg : ∀ a, Settles L root base fx vx (g a)) :
    Settles L root base fx vx (m >>= g) := fun k hk =>
  wlp_bind_of (hm k hk) fun a k' hk' => hg a k' hk'

theorem fs_bind {m : Prog ε σ α} {d : α → Nat → Int} {g : α → Prog ε (Kernel ι σ) β}
    (hm : Changes L.sound L.refs m d) (hg : ∀ a, Settles L root base fx (vx + d a) (g a)) :
    Settles L root base fx vx (onSys (onFs m) >>= g) := by
  intro k hk
  rw [wlp_bind, wlp_onSys]
  refine wlp_mono (hk.wlp_onFs hm) ?_
  rintro a s ⟨hs, -, -⟩
  exact hg a _ hs

/-- An operation of the file system that neither takes nor gives up a reference. -/
theorem op_bind {m : Prog ε σ α} {g : α → Prog ε (Kernel ι σ) β}
    (hm : Changes L.sound L.refs m fun _ => 0) (hg : ∀ a, Settles L root base fx vx (g a)) :
    Settles L root base fx vx (onSys (onFs m) >>= g) :=
  fs_bind hm fun a => (hg a).congr (add_zero vx)

theorem put_bind (hops : Counts ops L) {v : Nat} {g : Unit → Prog ε (Kernel ι σ) β}
    (hg : Settles L root base fx (vx - Pi.single v 1) (g ())) :
    Settles L root base fx vx (put ops v >>= g) :=
  fs_bind (hops.vput v) fun _ => hg.congr (sub_eq_add_neg _ _).symm

theorem putReturn (hops : Counts ops L) (hbase : 0 ≤ base) {ret : α} :
    Settles (ι := ι) L root base (base + Pi.single f 1) 0 (putReturn ops f ret) := by
  intro k hk
  have hheld : 1 ≤ (base + Pi.single f 1 : Nat → Int) f := by
    have hf : 0 ≤ base f := hbase f
    rw [Pi.add_apply, Pi.single_eq_same]
    omega
  rw [Sys.putReturn, wlp_bind, wlp_onSys]
  refine wlp_mono (hk.wlp_fput hops hheld) ?_
  rintro _ s ⟨hs, -⟩
  rw [add_sub_cancel_right] at hs
  exact wlp_pure.mpr hs

end Settles

/-! ### What the calls read -/

section Reads

theorem keeps_getFile : Keeps (Kernel.Owes L root fx vx)
    (onSys (getFile ops f) : Prog ε (Kernel ι σ) File) := by
  intro k hk
  refine wlp_onSys.mpr (wlp_mono wlp_getFile ?_)
  rintro file _ ⟨rfl, -, -⟩
  exact hk

theorem keeps_isDir {v : Nat} : Keeps (Kernel.Owes L root fx vx)
    (onSys (isDir ops v) : Prog ε (Kernel ι σ) Bool) := fun k hk => by
  rw [wlp_onSys, isDir, wlp_bind, wlp_get, wlp_pure]
  exact hk

theorem keeps_vnodeOf : Keeps (Kernel.Owes L root fx vx)
    (onSys (vnodeOf ops f) : Prog ε (Kernel ι σ) Nat) := by
  intro k hk
  rw [wlp_onSys, vnodeOf]
  refine wlp_bind_of wlp_getFile ?_
  rintro file _ ⟨rfl, -, -⟩
  split
  · exact wlp_pure.mpr hk
  · exact wlp_fail.mpr trivial

theorem keeps_setPos {pos : Int} : Keeps (Kernel.Owes L root fx vx)
    (onSys (setPos ops f pos) : Prog ε (Kernel ι σ) Unit) := by
  intro k hk
  rw [wlp_onSys, setPos]
  refine wlp_bind_of wlp_getFile ?_
  rintro file _ ⟨rfl, rfl, -⟩
  rw [setFile, wlp_modify]
  exact hk.setFile rfl rfl

end Reads

/-! ### Calls on names -/

section Names

variable (hops : Counts ops L) {path name : List UInt8}

include hops

theorem Settles.openPath_bind {flag : Nat} {g : Except Int Nat → Prog ε (Kernel ι σ) β}
    (hg : ∀ r, Settles L root base fx (vx + gained r) (g r)) :
    Settles L root base fx vx (openPath ops root p path flag >>= g) := by
  intro k hk
  rw [openPath, wlp_bind, wlp_bind, wlp_get, ← wlp_bind]
  exact Settles.fs_bind (hops.changes_openNamev root (k.pCwd p) path flag none) hg k hk

theorem Settles.dirPath_bind {g : Except Int (List UInt8 × Nat) → Prog ε (Kernel ι σ) β}
    (hg : ∀ r, Settles L root base fx (vx + gained (r.map Prod.snd)) (g r)) :
    Settles L root base fx vx (dirPath ops root p path >>= g) := by
  intro k hk
  rw [dirPath, wlp_bind, wlp_bind, wlp_get, ← wlp_bind]
  exact Settles.fs_bind (hops.changes_dirNamev root (k.pCwd p) path none) hg k hk

theorem Settles.find_bind {dir : Nat} {g : Except Int Nat → Prog ε (Kernel ι σ) β}
    (hg : ∀ r, Settles L root base fx (vx + gained r) (g r)) :
    Settles L root base fx vx (find ops dir name >>= g) :=
  Settles.fs_bind (hops.changes_lookup dir name) hg

theorem settles_makeAt (hbase : base = fx) {make : Nat → List UInt8 → Prog ε σ Int}
    (hmake : ∀ dir name, Changes L.sound L.refs (make dir name) fun _ => 0) :
    Settles L root base fx 0 (makeAt ops root p path make) := by
  subst hbase
  refine .dirPath_bind hops fun r => ?_
  cases r with
  | error ret => exact Settles.pure.congr (by simp [gained, Except.map])
  | ok r =>
      obtain ⟨name, dir⟩ := r
      refine .find_bind hops fun r => ?_
      cases r with
      | ok target =>
          refine .put_bind hops (.put_bind hops (Settles.pure.congr ?_))
          simp only [gained, Except.map]
          abel
      | error ret =>
          refine .ite (fun _ => .op_bind (hmake dir name) fun ret => ?_) fun _ => ?_ <;>
          · refine .put_bind hops (Settles.pure.congr ?_)
            simp [gained, Except.map]

theorem settles_doMknod {mode : Nat} {devid : UInt32} :
    Settles L root base base 0 (doMknod ops root p path mode devid) :=
  .ite (fun _ => .pure) fun _ =>
    settles_makeAt hops rfl fun dir name => hops.mknod dir name mode devid

theorem settles_doMkdir : Settles L root base base 0 (doMkdir ops root p path) :=
  .ite (fun _ => .pure) fun _ => settles_makeAt hops rfl hops.mkdir

theorem settles_doRmdir : Settles L root base base 0 (doRmdir ops root p path) := by
  refine .ite (fun _ => .pure) fun _ => .dirPath_bind hops fun r => ?_
  cases r with
  | error ret => exact Settles.pure.congr (by simp [gained, Except.map])
  | ok r =>
      obtain ⟨name, dir⟩ := r
      have hput {ret : Int} : Settles (ι := ι) L root base base
          (0 + gained ((Except.ok (ε := Int) (name, dir)).map Prod.snd)) (do
            put ops dir
            pure ret) := by
        refine .put_bind hops (Settles.pure.congr ?_)
        simp [gained, Except.map]
      refine .ite (fun _ => hput) fun _ => .ite (fun _ => hput) fun _ => ?_
      exact .op_bind (hops.rmdir dir name) fun _ => hput

theorem settles_doUnlink : Settles L root base base 0 (doUnlink ops root p path) := by
  refine .ite (fun _ => .pure) fun _ => .dirPath_bind hops fun r => ?_
  cases r with
  | error ret => exact Settles.pure.congr (by simp [gained, Except.map])
  | ok r =>
      obtain ⟨name, dir⟩ := r
      refine .find_bind hops fun r => ?_
      cases r with
      | error ret =>
          refine .put_bind hops (Settles.pure.congr ?_)
          simp [gained, Except.map]
      | ok target =>
          refine .bind keeps_isDir fun _ => .ite (fun _ => ?_) fun _ =>
            .op_bind (hops.unlink dir name) fun _ => ?_ <;>
          · refine .put_bind hops (.put_bind hops (Settles.pure.congr ?_))
            simp only [gained, Except.map]
            abel

theorem settles_linkTo {fromNode : Nat} :
    Settles L root base base (Pi.single fromNode 1) (linkTo ops root p fromNode path) := by
  refine .dirPath_bind hops fun r => ?_
  cases r with
  | error ret =>
      refine .put_bind hops (Settles.pure.congr ?_)
      simp [gained, Except.map]
  | ok r =>
      obtain ⟨name, toNode⟩ := r
      refine .find_bind hops fun r => ?_
      cases r with
      | ok target =>
          refine .put_bind hops (.put_bind hops (.put_bind hops (Settles.pure.congr ?_)))
          simp only [gained, Except.map]
          abel
      | error ret =>
          refine .ite (fun _ => .op_bind (hops.link fromNode toNode name) fun _ => ?_)
            fun _ => ?_ <;>
          · refine .put_bind hops (.put_bind hops (Settles.pure.congr ?_))
            simp only [gained, Except.map]
            abel

theorem settles_doLink {toPath : List UInt8} :
    Settles L root base base 0 (doLink ops root p path toPath) := by
  refine .ite (fun _ => .pure) fun _ => .openPath_bind hops fun r => ?_
  cases r with
  | error ret => exact Settles.pure.congr (by simp [gained])
  | ok fromNode =>
      refine .bind keeps_isDir fun _ => .ite (fun _ => ?_) fun _ => ?_
      · refine .put_bind hops (Settles.pure.congr ?_)
        simp [gained]
      · exact (settles_linkTo hops).congr (zero_add _)

theorem settles_doRename {newname : List UInt8} :
    Settles L root base base 0 (doRename ops root p path newname) :=
  .bind (settles_doLink hops) fun _ => .ite (fun _ => .pure) fun _ => settles_doUnlink hops

theorem settles_doStat : Settles L root base base 0 (doStat ops root p path) := by
  refine .ite (fun _ => .pure) fun _ => .openPath_bind hops fun r => ?_
  cases r with
  | error ret => exact Settles.pure.congr (by simp [gained])
  | ok target =>
      refine .op_bind (hops.stat target) fun _ => .put_bind hops (Settles.pure.congr ?_)
      simp [gained]

/-- `do_chdir` puts the old directory, and keeps the reference to the new one. -/
theorem settles_doChdir [DecidableEq ι] : Settles L root base base 0 (doChdir ops root p path) := by
  refine .ite (fun _ => .pure) fun _ => .openPath_bind hops fun r => ?_
  cases r with
  | error ret => exact Settles.pure.congr (by simp [gained])
  | ok target =>
      refine .bind keeps_isDir fun _ => .ite (fun _ => ?_) fun _ => ?_
      · refine .put_bind hops (Settles.pure.congr ?_)
        simp [gained]
      · intro k hk
        rw [wlp_bind, wlp_get, wlp_bind, wlp_modify]
        have hput : Settles L root base base (Pi.single (k.pCwd p) 1) (do
            put ops (k.pCwd p)
            pure (0 : Int) : Prog ε (Kernel ι σ) Int) :=
          .put_bind hops (Settles.pure.congr (sub_self _))
        have hcwd := hk.setCwd (p := p) (v := target)
        have hheld : 0 + gained (.ok target) + Pi.single (k.pCwd p) 1 - Pi.single target 1 =
            (Pi.single (k.pCwd p) 1 : Nat → Int) := by
          simp only [gained]
          abel
        rw [hheld] at hcwd
        exact hput _ hcwd

end Names

/-! ### Calls on descriptors -/

section Descriptors

variable {fd : Int} {body : Nat → Prog ε (Kernel ι σ) Int}

/-- What the calls on a descriptor begin with. -/
theorem wlp_withFile {Q : Int → Kernel ι σ → Prop} (hk : k.Owes L root base 0)
    (hnone : (0 ≤ fd → fd < 32 → k.pFiles p fd.toNat = none) → Q (-ebadf) k)
    (hbody : ∀ f s, 0 ≤ fd → fd < 32 → k.pFiles p fd.toNat = some f →
      Owing L root k.pFiles k.pCwd (base + Pi.single f 1) 0 none s →
        wlp (body f) Q { k with sys := s }) : wlp (withFile ops p fd body) Q k := by
  rw [withFile]
  split
  · rename_i hrange
    refine wlp_pure.mpr (hnone fun hlo hhi => absurd ⟨hlo, hhi⟩ hrange)
  · rename_i hrange
    obtain ⟨hlo, hhi⟩ := not_not.mp hrange
    rw [wlp_bind, fget, if_neg (by omega), wlp_bind, wlp_get]
    cases hslot : k.pFiles p fd.toNat with
    | none => exact wlp_pure.mpr (wlp_pure.mpr (hnone fun _ _ => hslot))
    | some f =>
        rw [wlp_bind, wlp_onSys]
        refine wlp_mono hk.wlp_fref ?_
        intro _ s hs
        exact wlp_pure.mpr (hbody f s hlo hhi hslot hs)

theorem settles_withFile (hbody : ∀ f, Settles L root base (base + Pi.single f 1) 0 (body f)) :
    Settles L root base base 0 (withFile ops p fd body) := fun _ hk =>
  wlp_withFile hk (fun _ => hk) fun f _ _ _ _ hs => hbody f _ hs

theorem nonneg_add_single (hbase : 0 ≤ base) : 0 ≤ base + Pi.single f 1 := by
  intro g
  have hg : 0 ≤ base g := hbase g
  rw [Pi.add_apply, Pi.single_apply]
  split <;> simp only [Pi.zero_apply] <;> omega

/-- A reference to a file goes into an empty descriptor. -/
theorem Owing.fill [DecidableEq ι] {id : Int} {bare : Option Nat} {s : Files σ}
    (h : Owing L root k.pFiles k.pCwd (base + Pi.single f 1) vx bare s) (hhi : id < 32)
    (hnone : k.pFiles p id.toNat = none) (hf : f ∈ s.opened) :
    Owing L root (Function.update k.pFiles p (Function.update (k.pFiles p) id.toNat (some f)))
      k.pCwd base vx bare s := by
  have hset := @Owing.setSlot _ _ _ _ _ _ _ _ _ _ _ _ h p id.toNat (some f) (by omega)
    (fun g hg => by cases hg; exact hf)
  rw [hnone, Owing.slotRef, Owing.slotRef, add_zero, add_sub_cancel_right] at hset
  exact hset

/-- An empty descriptor gives up its reference. -/
theorem Owing.clear [DecidableEq ι] {id : Int} {bare : Option Nat} {s : Files σ}
    (h : Owing L root k.pFiles k.pCwd base vx bare s) (hhi : id < 32)
    (hslot : k.pFiles p id.toNat = some f) :
    Owing L root (Function.update k.pFiles p (Function.update (k.pFiles p) id.toNat none))
      k.pCwd (base + Pi.single f 1) vx bare s := by
  have hset := @Owing.setSlot _ _ _ _ _ _ _ _ _ _ _ _ h p id.toNat none (by omega)
    (fun g hg => by cases hg)
  rw [hslot, Owing.slotRef, Owing.slotRef, sub_zero] at hset
  exact hset

variable (hops : Counts ops L) (hbase : 0 ≤ base)

include hops hbase

theorem settles_doRead {nbytes : Nat} : Settles L root base base 0 (doRead ops p fd nbytes) := by
  refine settles_withFile fun f => .bind keeps_getFile fun file => .ite (fun _ => ?_) fun _ => ?_
  · exact .putReturn hops hbase
  refine .bind keeps_vnodeOf fun vnode => .bind keeps_isDir fun dir =>
    .ite (fun _ => ?_) fun _ => ?_
  · exact .putReturn hops hbase
  refine .op_bind (hops.read vnode file.fPos nbytes) fun r => .bind keeps_setPos fun _ => ?_
  exact .putReturn hops hbase

theorem settles_doLseek {offset whence : Int} :
    Settles L root base base 0 (doLseek ops p fd offset whence) := by
  refine settles_withFile fun f => .bind keeps_vnodeOf fun vnode => .bind keeps_getFile fun file =>
    .bind Keeps.get fun k => ?_
  split
  · exact .putReturn hops hbase
  · exact .bind keeps_setPos fun _ => .putReturn hops hbase

theorem settles_writeAt {buf : List UInt8} :
    Settles (ι := ι) L root base (base + Pi.single f 1) 0 (writeAt ops f buf) := by
  refine .bind keeps_vnodeOf fun vnode => .bind keeps_isDir fun dir =>
    .bind (Keeps.check _ _) fun _ => .bind keeps_getFile fun file => ?_
  exact .op_bind (hops.write vnode file.fPos buf) fun r => .bind keeps_setPos fun _ =>
    .putReturn hops hbase

theorem settles_doWrite {buf : List UInt8} :
    Settles L root base base 0 (doWrite ops p fd buf) := by
  refine settles_withFile fun f => .bind keeps_getFile fun file => .ite (fun _ => ?_) fun _ =>
    .ite (fun _ => ?_) fun _ => ?_
  · exact .putReturn hops hbase
  · refine .bind (settles_doLseek hops (nonneg_add_single hbase)) fun ret =>
      .ite (fun _ => ?_) fun _ => ?_
    · exact .putReturn hops hbase
    · exact settles_writeAt hops hbase
  · exact settles_writeAt hops hbase

theorem settles_doGetdent : Settles L root base base 0 (doGetdent ops p fd) := by
  refine settles_withFile fun f => .bind keeps_vnodeOf fun vnode => .bind keeps_isDir fun dir =>
    .ite (fun _ => ?_) fun _ => ?_
  · exact .putReturn hops hbase
  refine .bind keeps_getFile fun file => .op_bind (hops.readdir vnode file.fPos) fun r =>
    .bind keeps_setPos fun _ => ?_
  exact .putReturn hops hbase

variable [DecidableEq ι]

/-- `do_close` empties the descriptor. -/
theorem wlp_doClose (hk : k.Owes L root base 0) : wlp (doClose ops p fd) (fun _ k' =>
    k'.Owes L root base 0 ∧ (0 ≤ fd → fd < 32 →
      k'.pFiles = Function.update k.pFiles p (Function.update (k.pFiles p) fd.toNat none))) k := by
  refine wlp_withFile hk ?_ ?_
  · intro hnone
    refine ⟨hk, fun hlo hhi => ?_⟩
    rw [← hnone hlo hhi, Function.update_eq_self, Function.update_eq_self]
  · intro f s hlo hhi hslot hs
    have hheld (b : Nat → Int) (hb : 0 ≤ b) : 1 ≤ (b + Pi.single f 1 : Nat → Int) f := by
      have hf : 0 ≤ b f := hb f
      rw [Pi.add_apply, Pi.single_eq_same]
      omega
    rw [wlp_bind, wlp_onSys]
    refine wlp_mono (hs.wlp_fput hops (hheld base hbase)) ?_
    rintro _ s1 ⟨hs1, -⟩
    rw [add_sub_cancel_right] at hs1
    -- the reference of the descriptor goes before the descriptor does
    have hclear := hs1.clear (p := p) hhi hslot
    rw [wlp_bind, wlp_onSys]
    refine wlp_mono (hclear.wlp_fput hops (hheld base hbase)) ?_
    rintro _ s2 ⟨hs2, -⟩
    rw [add_sub_cancel_right] at hs2
    rw [wlp_bind, setSlot, wlp_modify, wlp_pure]
    exact ⟨hs2, fun _ _ => rfl⟩

theorem settles_doClose : Settles L root base base 0 (doClose ops p fd) := fun _ hk =>
  wlp_mono (wlp_doClose hops hbase hk) fun _ _ h => h.1

theorem settles_doDup : Settles L root base base 0 (doDup ops p fd) := by
  intro k hk
  refine wlp_withFile hk (fun _ => hk) ?_
  intro f s hlo hhi hslot hs
  refine wlp_bind_of wlp_getEmptyFd ?_
  rintro id _ ⟨rfl, hid⟩
  split
  · exact Settles.putReturn hops hbase _ hs
  · rename_i hpos
    obtain ⟨-, hid, hnone⟩ := hid.resolve_left hpos
    rw [wlp_bind, setSlot, wlp_modify, wlp_pure]
    exact hs.fill hid hnone (hs.slot p fd.toNat f (by omega) hslot)

theorem settles_doDup2 {nfd : Int} : Settles L root base base 0 (doDup2 ops p fd nfd) := by
  refine .ite (fun _ => .pure) fun hrange => ?_
  obtain ⟨hlo', hhi'⟩ := not_not.mp hrange
  simp only [nfiles] at hhi'
  intro k hk
  refine wlp_withFile hk (fun _ => hk) ?_
  intro f s hlo hhi hslot hs
  rw [wlp_bind, wlp_get, wlp_bind, kassert, wlp_check]
  intro _
  split
  · split
    · rename_i hne
      refine wlp_bind_of (wlp_doClose hops (nonneg_add_single hbase) hs) ?_
      rintro _ k' ⟨hk', htable⟩
      have htable := htable hlo' hhi'
      have hsame : k'.pFiles p fd.toNat = some f := by
        rw [htable, Function.update_self, Function.update_of_ne (by omega)]
        exact hslot
      have hempty : k'.pFiles p nfd.toNat = none := by
        rw [htable, Function.update_self, Function.update_self]
      rw [wlp_bind, wlp_get, wlp_bind, setSlot, wlp_modify, wlp_pure, hsame]
      exact Owing.fill hk' hhi' hempty (hk'.slot p fd.toNat f (by omega) hsame)
    · exact Settles.putReturn hops hbase _ hs
  · rename_i hempty
    rw [wlp_bind, setSlot, wlp_modify, wlp_pure]
    simp only [hslot]
    exact hs.fill hhi' (not_not.mp hempty) (hs.slot p fd.toNat f (by omega) hslot)

/-- While `do_open` looks for the vnode, its file is in the table. -/
structure Opening (L : Ledger σ) (root : Nat) (p : ι) (fd : Int) (f : Nat) (k : Kernel ι σ) :
    Prop where
  owing : Owing L root k.pFiles k.pCwd 0 0 (some f) k.sys
  slot : k.pFiles p fd.toNat = some f
  made : Owing.Made f k.sys

omit hbase [DecidableEq ι] in
/-- `do_open` fails: its descriptor is empty again, and its file goes. -/
theorem wlp_abandon {ret : Int}
    (h : Owing L root k.pFiles k.pCwd (0 + Pi.single f 1) 0 (some f) k.sys) (hmade : Owing.Made f k.sys) :
    wlp (putReturn ops f ret) (fun _ k' => k'.Owes L root 0 0) k := by
  have hheld : 1 ≤ (0 + Pi.single f 1 : Nat → Int) f := by
    rw [zero_add, Pi.single_eq_same]
  rw [putReturn, wlp_bind, wlp_onSys]
  refine wlp_mono (h.wlp_fput hops hheld) ?_
  rintro _ s ⟨hs, hgone⟩
  rw [add_sub_cancel_right] at hs
  exact wlp_pure.mpr (hs.unopened (hgone hmade.once))

omit hbase in
theorem wlp_openInto {path : List UInt8} {oflags : Nat} (hhi : fd < 32)
    (hk : Opening L root p fd f k) :
    wlp (openInto ops root p path oflags fd f) (fun _ k' => k'.Owes L root 0 0) k := by
  rw [openInto, wlp_bind, wlp_onSys]
  refine wlp_mono wlp_getFile ?_
  rintro file _ ⟨rfl, rfl, -⟩
  rw [wlp_bind, kassert, wlp_check]
  intro _
  rw [wlp_bind, wlp_onSys, setFile, wlp_modify]
  have howes : Owing L root k.pFiles k.pCwd 0 0 (some f)
      (k.sys.set f { k.sys.files f with fMode := openMode oflags }) := hk.owing.setFile rfl rfl
  rw [wlp_bind, openPath, wlp_bind, wlp_get, wlp_onSys]
  refine wlp_mono (howes.wlp_onFs (hops.changes_openNamev root (k.pCwd p) path oflags none)) ?_
  rintro r s ⟨hs, hopened, hfiles⟩
  have hmade : Owing.Made f s := by
    refine ⟨hopened ▸ hk.made.opened, ?_, ?_⟩
    · rw [hfiles, Files.files_set_self]
      exact hk.made.bare
    · rw [hfiles, Files.files_set_self]
      exact hk.made.once
  have hclear := hs.clear (p := p) hhi hk.slot
  cases r with
  | error ret =>
      rw [wlp_bind, setSlot, wlp_modify]
      rw [gained, add_zero] at hclear
      exact wlp_abandon hops hclear hmade
  | ok target =>
      rw [wlp_bind, wlp_onSys, isDir, wlp_bind, wlp_get, wlp_pure]
      split
      · rw [wlp_bind, setSlot, wlp_modify]
        rw [wlp_bind, wlp_onSys]
        refine wlp_mono (hclear.wlp_onFs (hops.vput target)) ?_
        rintro _ t ⟨ht, hopened, hfiles⟩
        rw [gained, add_assoc, add_neg_cancel, add_zero] at ht
        refine wlp_abandon hops ht ⟨?_, ?_, ?_⟩
        · exact hopened ▸ hmade.opened
        · exact hfiles ▸ hmade.bare
        · exact hfiles ▸ hmade.once
      · rw [wlp_bind, wlp_onSys]
        refine wlp_mono wlp_getFile ?_
        rintro file _ ⟨rfl, rfl, -⟩
        rw [wlp_bind, wlp_onSys, setFile, wlp_modify, wlp_pure]
        have hset : Owing L root k.pFiles k.pCwd 0
            (0 + gained (.ok target) - Pi.single target 1) none
              (s.set f { s.files f with fVnode := some target }) :=
          hs.setVnode hmade.opened hmade.bare rfl rfl
        rw [gained, zero_add, sub_self] at hset
        exact hset

omit hbase in
theorem wlp_doOpen {path : List UInt8} {oflags : Int} {fresh : Option Nat}
    (hk : k.Owes L root 0 0) (hfresh : ∀ f, fresh = some f → f ∉ k.sys.opened) :
    wlp (doOpen ops root p path oflags fresh) (fun _ k' => k'.Owes L root 0 0) k := by
  rw [doOpen]
  split
  · exact wlp_pure.mpr hk
  extract_lets flags
  split
  · exact wlp_pure.mpr hk
  split
  · exact wlp_pure.mpr hk
  refine wlp_bind_of wlp_getEmptyFd ?_
  rintro fd _ ⟨rfl, hfd⟩
  split
  · exact wlp_pure.mpr hk
  rename_i hpos
  obtain ⟨-, hhi, hnone⟩ := hfd.resolve_left hpos
  rw [wlp_bind, wlp_onSys]
  refine wlp_mono (hk.wlp_fgetNew hfresh) ?_
  rintro r s (⟨rfl, rfl⟩ | ⟨f, rfl, hmade, hs⟩)
  · exact wlp_pure.mpr hk
  · rw [← zero_add (Pi.single f 1)] at hs
    have hfill := hs.fill hhi hnone hmade.opened
    rw [wlp_bind, setSlot, wlp_modify]
    refine wlp_openInto hops hhi ⟨hfill, ?_, hmade⟩
    simp only [Function.update_self]

end Descriptors

/-! ### Runs -/

section Runs

variable [DecidableEq ι]

/-- The allocator hands out an object that is not in use. -/
def Call.Fresh (k : Kernel ι σ) : Call → Prop
  | .open _ _ fresh => ∀ f, fresh = some f → f ∉ k.sys.opened
  | _ => True

/-- Each call, in every process, keeps the books. -/
theorem Call.settles (hops : Counts ops L) (hk : k.Owes L root 0 0) (c : Call)
    (hc : c.Fresh k) : wlp (c.run ops root p) (fun _ k' => k'.Owes L root 0 0) k := by
  have hbase : (0 : Nat → Int) ≤ 0 := le_refl 0
  cases c with
  | «open» filename oflags fresh => exact wlp_doOpen hops hk hc
  | close fd => exact settles_doClose hops hbase k hk
  | dup fd => exact settles_doDup hops hbase k hk
  | dup2 ofd nfd => exact settles_doDup2 hops hbase k hk
  | read fd nbytes => exact settles_doRead hops hbase k hk
  | write fd buf => exact settles_doWrite hops hbase k hk
  | lseek fd offset whence => exact settles_doLseek hops hbase k hk
  | getdent fd => exact settles_doGetdent hops hbase k hk
  | mknod path mode devid => exact settles_doMknod hops k hk
  | mkdir path => exact settles_doMkdir hops k hk
  | rmdir path => exact settles_doRmdir hops k hk
  | unlink path => exact settles_doUnlink hops k hk
  | link fromPath toPath => exact settles_doLink hops k hk
  | rename oldname newname => exact settles_doRename hops k hk
  | chdir path => exact settles_doChdir hops k hk
  | stat path => exact settles_doStat hops k hk

/-- The processes make calls in any order, and all of them return. -/
inductive Run (ops : FsOps ε σ) (root : Nat) (k : Kernel ι σ) : Kernel ι σ → Prop where
  | start : Run ops root k k
  | call {k₁ k₂ : Kernel ι σ} {p : ι} {c : Call} {ret : Int} (hrun : Run ops root k k₁)
      (hfresh : c.Fresh k₁) (hcall : c.run ops root p k₁ = .ok (ret, k₂)) : Run ops root k k₂

theorem Run.settled {k k' : Kernel ι σ} (hops : Counts ops L) (hk : k.Owes L root 0 0)
    (hrun : Run ops root k k') : k'.Owes L root 0 0 := by
  induction hrun with
  | start => exact hk
  | call _ hfresh hcall ih => exact Call.settles hops ih _ hfresh _ _ hcall

end Runs

end CodingSample.Vfs.Sys
