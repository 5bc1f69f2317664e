import CodingSample.Data.Tally
import CodingSample.Prog.Changes
import CodingSample.Vfs.Sys
import Mathlib.Algebra.Group.Pi.Basic
import Mathlib.Algebra.Group.Pi.Lemmas
import Mathlib.Data.Fintype.Prod
import Mathlib.Tactic.Abel

/-!
# The reference counts of files and vnodes

Between calls the count of an open file is the number of descriptors that lead to it, and the
references to a vnode are those of the open files, of the working directories and of the root.
-/

namespace CodingSample.Vfs.Sys

open Prog

/-- What the books of a file system are kept by: which of its states are sound, and the references
to each vnode that are not from resident pages. -/
structure Ledger (σ : Type) where
  sound : σ → Prop
  refs : σ → Nat → Int

variable {ε σ ι α : Type} {ops : FsOps ε σ} {L : Ledger σ}

/-- The reference that a vnode comes with. -/
def gained : Except Int Nat → Nat → Int
  | .ok v => Pi.single v 1
  | .error _ => 0

/-- The operations of a file system take and give up the references that they say. -/
structure Counts (ops : FsOps ε σ) (L : Ledger σ) : Prop where
  vref : ∀ v, Changes L.sound L.refs (ops.vref v) fun _ => Pi.single v 1
  vput : ∀ v, Changes L.sound L.refs (ops.vput v) fun _ => -Pi.single v 1
  lookup : ∀ dir name, Changes L.sound L.refs (ops.lookup dir name) gained
  create : ∀ dir name, Changes L.sound L.refs (ops.create dir name) gained
  read : ∀ v pos n, Changes L.sound L.refs (ops.read v pos n) fun _ => 0
  write : ∀ v pos buf, Changes L.sound L.refs (ops.write v pos buf) fun _ => 0
  mknod : ∀ dir name mode devid, Changes L.sound L.refs (ops.mknod dir name mode devid) fun _ => 0
  mkdir : ∀ dir name, Changes L.sound L.refs (ops.mkdir dir name) fun _ => 0
  rmdir : ∀ dir name, Changes L.sound L.refs (ops.rmdir dir name) fun _ => 0
  unlink : ∀ dir name, Changes L.sound L.refs (ops.unlink dir name) fun _ => 0
  link : ∀ v dir name, Changes L.sound L.refs (ops.link v dir name) fun _ => 0
  readdir : ∀ v pos, Changes L.sound L.refs (ops.readdir v pos) fun _ => 0
  stat : ∀ v, Changes L.sound L.refs (ops.stat v) fun _ => 0

namespace Counts

variable {dir root cwd : Nat} {name path : List UInt8}

theorem changes_lookup (h : Counts ops L) (dir : Nat) (name : List UInt8) :
    Changes L.sound L.refs (Vfs.lookup ops.toVnodeOps dir name) gained :=
  .get_bind fun _ => .ite (fun _ => .pure rfl) fun _ => h.lookup dir name

/-- The loop of `dir_namev` gives up the reference to where it is for the one it returns. -/
theorem changes_dirNamevFrom (h : Counts ops L) (fuel : Nat) (path : List UInt8) (dir : Nat) :
    Changes L.sound L.refs (dirNamevFrom ops.toVnodeOps fuel path dir) fun r =>
      gained (r.map Prod.snd) - Pi.single dir 1 := by
  induction fuel generalizing path dir with
  | zero => exact .pure (sub_self _)
  | succ fuel ih =>
      cases path with
      | nil => exact .pure (sub_self _)
      | cons c path =>
          rw [dirNamevFrom]
          refine .ite (fun _ => ih path dir) fun _ => .ite (fun _ => ?_) fun _ => .ite (fun _ => ?_)
            fun _ => ?_
          · refine (h.vput dir).bind fun _ => .pure ?_
            simp [gained, Except.map]
          · refine .get_bind fun s => .ite (fun _ => ?_) fun _ => .pure (sub_self _)
            refine (h.vput dir).bind fun _ => .pure ?_
            simp [gained, Except.map]
          · refine (h.changes_lookup dir _).bind fun r => (h.vput dir).bind fun _ => ?_
            cases r with
            | error e =>
                refine .pure ?_
                simp [gained, Except.map]
            | ok next =>
                refine (ih _ next).congr fun r => ?_
                simp only [gained]
                abel

theorem changes_dirNamev (h : Counts ops L) (root cwd : Nat) (path : List UInt8)
    (rel : Option Nat) :
    Changes L.sound L.refs (dirNamev ops.toVnodeOps root cwd path rel) fun r =>
      gained (r.map Prod.snd) := by
  rw [dirNamev]
  refine .ite (fun _ => .pure rfl) fun _ => ?_
  exact (h.vref _).bind fun _ => h.changes_dirNamevFrom _ _ _

theorem changes_openNamev (h : Counts ops L) (root cwd : Nat) (path : List UInt8) (flag : Nat)
    (rel : Option Nat) :
    Changes L.sound L.refs (openNamev ops.toVnodeOps root cwd path flag rel) gained := by
  rw [openNamev]
  refine (h.changes_dirNamev root cwd path rel).bind fun r => ?_
  cases r with
  | error e => exact .pure (sub_self _)
  | ok r =>
      obtain ⟨name, dir⟩ := r
      refine (h.changes_lookup dir name).bind fun r => ?_
      have hput (r : Except Int Nat) : Changes L.sound L.refs (do
          ops.vput dir
          pure r) fun b => gained b - gained ((Except.ok (ε := Int) (name, dir)).map Prod.snd) -
            gained r := by
        refine (h.vput dir).bind fun _ => .pure ?_
        simp [gained, Except.map]
      cases r with
      | ok target => exact hput (.ok target)
      | error ret2 =>
          refine .ite (fun _ => ?_) fun _ => hput (.error ret2)
          refine (h.create dir name).bind fun target => ?_
          refine (hput target).congr fun b => ?_
          simp only [gained]
          abel

end Counts

/-! ### The books -/

section Books

variable [Fintype ι]

/-- How many descriptors lead to an open file. -/
def slotsOf (table : ι → Nat → Option Nat) (f : Nat) : Nat :=
  tally (Finset.univ ×ˢ Finset.range 32) fun q => table q.1 q.2 = some f

/-- How many open files have a vnode. -/
def filesOn (s : Files σ) (v : Nat) : Nat := tally s.opened fun f => (s.files f).fVnode = some v

/-- How many processes have a vnode as working directory. -/
def dirsAt (cwd : ι → Nat) (v : Nat) : Nat := tally Finset.univ fun p => cwd p = v

/-- The counts are right but for the references that a call holds: `fx` to files, `vx` to
vnodes. Every file has a vnode, but for the one that is being opened. -/
structure Owing (L : Ledger σ) (root : Nat) (table : ι → Nat → Option Nat)
    (cwd : ι → Nat) (fx vx : Nat → Int) (bare : Option Nat) (s : Files σ) : Prop where
  sound : L.sound s.fs
  slot : ∀ p fd f, fd < 32 → table p fd = some f → f ∈ s.opened
  named : ∀ f ∈ s.opened, (s.files f).fVnode = none → bare = some f
  file : ∀ f ∈ s.opened, (s.files f).fRefcount = slotsOf table f + fx f
  used : ∀ f ∈ s.opened, 0 < (s.files f).fRefcount
  vnode : ∀ v, L.refs s.fs v =
    filesOn s v + dirsAt cwd v + (if v = root then 1 else 0) + vx v

variable {root f : Nat} {table : ι → Nat → Option Nat} {cwd : ι → Nat} {fx vx : Nat → Int}
  {bare : Option Nat} {s : Files σ} {file : File}

theorem filesOn_update {v : Nat} (hvnode : file.fVnode = (s.files f).fVnode) :
    filesOn (s.set f file) v = filesOn s v := by
  refine tally_congr fun g _ => ?_
  by_cases hg : g = f
  · rw [hg, Files.files_set_self, hvnode]
  · rw [Files.files_set_of_ne hg]

/-- What the files say is also true after one of them is set. -/
theorem Files.forall_set {P : Nat → File → Prop} (hself : f ∈ s.opened → P f file)
    (h : ∀ g ∈ s.opened, P g (s.files g)) : ∀ g ∈ (s.set f file).opened,
      P g ((s.set f file).files g) := by
  intro g hg
  by_cases hgf : g = f
  · rw [hgf, Files.files_set_self]
    exact hself (hgf ▸ hg)
  · rw [Files.files_set_of_ne hgf]
    exact h g hg

omit [Fintype ι] in
theorem wlp_getFile : wlp (getFile ops f) (fun file s' => s = s' ∧ s.files f = file ∧
    f ∈ s.opened) s := by
  rw [getFile, wlp_bind, wlp_get, wlp_bind, kassert, wlp_check]
  intro hopened
  exact wlp_pure.mpr ⟨rfl, rfl, of_decide_eq_true hopened⟩

namespace Owing

/-- What a program on the file system does. -/
theorem wlp_onFs (h : Owing L root table cwd fx vx bare s) {m : Prog ε σ α} {d : α → Nat → Int}
    (hm : Changes L.sound L.refs m d) : wlp (onFs m) (fun a s' =>
      Owing L root table cwd fx (vx + d a) bare s' ∧ s'.opened = s.opened ∧
        s'.files = s.files) s := by
  rw [onFs, wlp_zoom]
  refine wlp_mono (hm s.fs h.sound) ?_
  rintro a fs ⟨hsound, hrefs⟩
  refine ⟨⟨hsound, h.slot, h.named, h.file, h.used, fun v => ?_⟩, rfl, rfl⟩
  have hv := h.vnode v
  have hchange := congrFun hrefs v
  simp only [Pi.add_apply, filesOn] at hv hchange ⊢
  omega

/-- The count of a file changes with the references that are held. -/
theorem recount (h : Owing L root table cwd fx vx bare s) {n : Int}
    (hcount : file.fRefcount = (s.files f).fRefcount + n)
    (hvnode : file.fVnode = (s.files f).fVnode) (hused : f ∈ s.opened → 0 < file.fRefcount) :
    Owing L root table cwd (fx + Pi.single f n) vx bare (s.set f file) := by
  refine ⟨h.sound, h.slot, ?_, ?_,
    Files.forall_set (P := fun _ x => 0 < x.fRefcount) hused h.used, fun v => ?_⟩
  · refine Files.forall_set (P := fun g x => x.fVnode = none → bare = some g) ?_ h.named
    intro hf hnone
    exact h.named f hf (hvnode ▸ hnone)
  · intro g hg
    have hfile := h.file g hg
    rw [Pi.add_apply]
    by_cases hgf : g = f
    · subst hgf
      rw [Files.files_set_self, Pi.single_eq_same, hcount, hfile, add_assoc]
    · rw [Files.files_set_of_ne hgf, Pi.single_eq_of_ne hgf, hfile, add_zero]
  · rw [filesOn_update hvnode]
    exact h.vnode v

/-- A change of a file that keeps its count and its vnode. -/
theorem setFile (h : Owing L root table cwd fx vx bare s)
    (hcount : file.fRefcount = (s.files f).fRefcount)
    (hvnode : file.fVnode = (s.files f).fVnode) :
    Owing L root table cwd fx vx bare (s.set f file) := by
  have hset := h.recount (n := 0) (by rw [hcount, add_zero]) hvnode
    (fun hf => by rw [hcount]; exact h.used f hf)
  rw [Pi.single_zero, add_zero] at hset
  exact hset

/-- `fref` takes a reference. -/
theorem wlp_fref (h : Owing L root table cwd fx vx bare s) : wlp (fref ops f) (fun _ s' =>
    Owing L root table cwd (fx + Pi.single f 1) vx bare s') s := by
  rw [fref]
  refine wlp_bind_of wlp_getFile ?_
  rintro file _ ⟨rfl, rfl, hf⟩
  simp only [kassert, wlp_bind, wlp_check]
  intro _ _ _ _
  have hused := h.used f hf
  exact wlp_modify.mpr (h.recount rfl rfl fun _ => Int.lt_add_one_of_le (le_of_lt hused))

/-- The file goes, with the reference to its vnode. -/
theorem erase (h : Owing L root table cwd fx vx bare s) (hf : f ∈ s.opened)
    (hlast : slotsOf table f = 0) {s' : Files σ} (hsound : L.sound s'.fs)
    (hopened : s'.opened = s.opened.erase f) (hfiles : ∀ g, g ≠ f → s'.files g = s.files g)
    (hrefs : ∀ v, L.refs s'.fs v = L.refs s.fs v - if (s.files f).fVnode = some v then 1 else 0)
    {fx' : Nat → Int} (hfx : ∀ g, g ≠ f → fx' g = fx g) :
    Owing L root table cwd fx' vx bare s' := by
  refine ⟨hsound, ?_, ?_, ?_, ?_, fun v => ?_⟩
  · intro p fd g hfd hslot
    rw [hopened, Finset.mem_erase]
    refine ⟨?_, h.slot p fd g hfd hslot⟩
    rintro rfl
    have hplace : (p, fd) ∈ (Finset.univ : Finset ι) ×ˢ Finset.range 32 :=
      Finset.mem_product.mpr ⟨Finset.mem_univ p, Finset.mem_range.mpr hfd⟩
    have hfalse := tally_eq_zero_iff.mp hlast (p, fd) hplace
    exact of_decide_eq_false hfalse hslot
  · intro g hg
    rw [hopened, Finset.mem_erase] at hg
    rw [hfiles g hg.1]
    exact h.named g hg.2
  · intro g hg
    rw [hopened, Finset.mem_erase] at hg
    rw [hfiles g hg.1, hfx g hg.1]
    exact h.file g hg.2
  · intro g hg
    rw [hopened, Finset.mem_erase] at hg
    rw [hfiles g hg.1]
    exact h.used g hg.2
  · have hcount : filesOn s v = filesOn s' v + if (s.files f).fVnode = some v then 1 else 0 := by
      rw [filesOn, tally_erase hf, filesOn, hopened]
      congr 1
      · refine tally_congr fun g hg => ?_
        rw [hfiles g (Finset.ne_of_mem_erase hg)]
      · simp
    have hv := h.vnode v
    rw [hrefs]
    split at hcount
    · rw [if_pos ‹_›]
      omega
    · rw [if_neg ‹_›]
      omega

/-- `fput` gives a reference back, and closes the file with the last one. -/
theorem wlp_fput (hops : Counts ops L) (h : Owing L root table cwd fx vx bare s)
    (hheld : 1 ≤ fx f) : wlp (fput ops f) (fun _ s' =>
      Owing L root table cwd (fx - Pi.single f 1) vx bare s' ∧
        ((s.files f).fRefcount = 1 → f ∉ s'.opened)) s := by
  rw [fput]
  refine wlp_bind_of wlp_getFile ?_
  rintro file _ ⟨rfl, rfl, hf⟩
  simp only [kassert, wlp_bind, wlp_check]
  intro _ _ _ _
  rw [Sys.setFile, wlp_modify]
  have hcount := h.file f hf
  split
  · rename_i hzero
    have hlast : slotsOf table f = 0 := by omega
    have hfx (g : Nat) (hg : g ≠ f) : (fx - Pi.single f 1 : Nat → Int) g = fx g := by
      rw [Pi.sub_apply, Pi.single_eq_of_ne hg, sub_zero]
    cases hvn : (s.files f).fVnode with
    | none =>
        refine wlp_modify.mpr ⟨h.erase hf hlast ?_ rfl ?_ ?_ hfx, ?_⟩
        · exact h.sound
        · exact fun g hg => Files.files_set_of_ne hg
        · intro v
          rw [hvn, if_neg (Option.some_ne_none v).symm, sub_zero]
          rfl
        · exact fun _ => Finset.notMem_erase f _
    | some vn =>
        rw [wlp_bind, onFs, wlp_zoom]
        refine wlp_mono (hops.vput vn _ h.sound) ?_
        rintro _ fs ⟨hsound, hrefs⟩
        refine wlp_modify.mpr ⟨h.erase hf hlast hsound rfl ?_ ?_ hfx, ?_⟩
        · exact fun g hg => Files.files_set_of_ne hg
        · intro v
          have hchange : L.refs fs v = L.refs s.fs v + -(Pi.single vn 1 : Nat → Int) v :=
            congrFun hrefs v
          rw [Pi.single_apply, ← sub_eq_add_neg] at hchange
          simp only [hvn, Option.some_inj, eq_comm (a := vn)]
          exact hchange
        · exact fun _ => Finset.notMem_erase f _
  · rename_i hmore
    refine wlp_pure.mpr ⟨?_, fun hone => absurd (by omega) hmore⟩
    have hless : Owing L root table cwd (fx + Pi.single f (-1)) vx bare
        (s.set f { s.files f with fRefcount := (s.files f).fRefcount - 1 }) :=
      h.recount rfl rfl fun _ => by simp only []; omega
    rw [Pi.single_neg, ← sub_eq_add_neg] at hless
    exact hless

/-- A new file, that no descriptor leads to yet. -/
theorem open_new (h : Owing L root table cwd 0 vx none s) (hf : f ∉ s.opened) :
    Owing L root table cwd (Pi.single f 1) vx (some f)
      { s with
        opened := insert f s.opened
        files := Function.update s.files f ⟨0, 0, 1, none⟩ } := by
  have hold {g : Nat} (hg : g ∈ s.opened) :
      Function.update s.files f ⟨0, 0, 1, none⟩ g = s.files g :=
    Function.update_of_ne (by rintro rfl; exact hf hg) ..
  have hslots : slotsOf table f = 0 := by
    refine tally_eq_zero_iff.mpr fun q hq => decide_eq_false fun hslot => hf ?_
    rw [Finset.mem_product, Finset.mem_range] at hq
    exact h.slot q.1 q.2 f hq.2 hslot
  refine ⟨h.sound, ?_, ?_, ?_, ?_, fun v => ?_⟩
  · intro p fd g hfd hslot
    exact Finset.mem_insert_of_mem (h.slot p fd g hfd hslot)
  · intro g hg hnone
    rcases Finset.mem_insert.mp hg with rfl | hg
    · rfl
    · simp only [hold hg] at hnone
      cases h.named g hg hnone
  · intro g hg
    rcases Finset.mem_insert.mp hg with rfl | hg
    · simp [hslots]
    · have hfile := h.file g hg
      have hne : g ≠ f := fun heq => hf (heq ▸ hg)
      simp only [hold hg, Pi.single_eq_of_ne hne]
      exact hfile
  · intro g hg
    rcases Finset.mem_insert.mp hg with rfl | hg
    · simp
    · simp only [hold hg]
      exact h.used g hg
  · have hcount : filesOn { s with
        opened := insert f s.opened
        files := Function.update s.files f ⟨0, 0, 1, none⟩ } v = filesOn s v := by
      rw [filesOn, tally_erase (Finset.mem_insert_self f s.opened), Finset.erase_insert hf]
      simp only [Function.update_self, reduceCtorEq, decide_false, Bool.false_eq_true, if_false,
        Nat.add_zero]
      exact tally_congr fun g hg => by simp only [hold hg]
    rw [hcount]
    exact h.vnode v

/-- What `fget(-1)` makes. -/
structure Made (f : Nat) (s : Files σ) : Prop where
  opened : f ∈ s.opened
  bare : (s.files f).fVnode = none
  once : (s.files f).fRefcount = 1

theorem wlp_fgetNew (h : Owing L root table cwd 0 vx none s) {fresh : Option Nat}
    (hfresh : ∀ f, fresh = some f → f ∉ s.opened) : wlp (fgetNew ops fresh) (fun r s' =>
      (r = none ∧ s = s') ∨ ∃ f, r = some f ∧ Made f s' ∧
        Owing L root table cwd (Pi.single f 1) vx (some f) s') s := by
  cases fresh with
  | none => exact wlp_pure.mpr (Or.inl ⟨rfl, rfl⟩)
  | some f =>
      unfold fgetNew
      rw [wlp_bind, wlp_modify, wlp_bind, Sys.setFile, wlp_modify, wlp_bind, fref]
      refine wlp_bind_of wlp_getFile ?_
      rintro _ _ ⟨rfl, rfl, hmem⟩
      simp only [kassert, wlp_bind, wlp_check]
      intro _ _ _ _
      refine wlp_modify.mpr (wlp_pure.mpr (Or.inr ⟨f, rfl, ⟨hmem, ?_, ?_⟩, ?_⟩))
      · rw [Files.files_set_self, Files.files_set_self]
      · rw [Files.files_set_self, Files.files_set_self]
        rfl
      · have hnew := h.open_new (hfresh f rfl)
        simp only [Files.set, Function.update_self, Function.update_idem, zero_add]
        exact hnew

/-- The file that was being opened goes. -/
theorem unopened (h : Owing L root table cwd fx vx (some f) s) (hf : f ∉ s.opened) :
    Owing L root table cwd fx vx none s := by
  refine ⟨h.sound, h.slot, ?_, h.file, h.used, h.vnode⟩
  intro g hg hnone
  cases h.named g hg hnone
  exact absurd hg hf

/-- The file that is being opened gets its vnode, and with it the reference. -/
theorem setVnode (h : Owing L root table cwd fx vx (some f) s) {v : Nat} (hf : f ∈ s.opened)
    (hnone : (s.files f).fVnode = none) (hcount : file.fRefcount = (s.files f).fRefcount)
    (hvnode : file.fVnode = some v) :
    Owing L root table cwd fx (vx - Pi.single v 1) none (s.set f file) := by
  refine ⟨h.sound, h.slot, ?_, ?_, ?_, fun w => ?_⟩
  · intro g hg hbare
    by_cases hgf : g = f
    · rw [hgf, Files.files_set_self, hvnode] at hbare
      cases hbare
    · rw [Files.files_set_of_ne hgf] at hbare
      cases h.named g hg hbare
      exact absurd rfl hgf
  · refine Files.forall_set (P := fun g x => x.fRefcount = slotsOf table g + fx g) ?_ h.file
    intro hf
    rw [hcount]
    exact h.file f hf
  · refine Files.forall_set (P := fun _ x => 0 < x.fRefcount) ?_ h.used
    intro hf
    rw [hcount]
    exact h.used f hf
  · have hold := h.vnode w
    have hmore : (filesOn (s.set f file) w : Int) =
        filesOn s w + (Pi.single v 1 : Nat → Int) w := by
      have hchange := tally_change hf (p := fun g => (s.files g).fVnode = some w)
        (q := fun g => ((s.set f file).files g).fVnode = some w) ?_
      · simp only [hnone, Files.files_set_self, hvnode, reduceCtorEq, decide_false,
          Bool.false_eq_true, if_false, sub_zero, Option.some_inj, decide_eq_true_eq] at hchange
        rw [Pi.single_apply]
        simp only [eq_comm (a := w)]
        exact hchange
      · intro g _ hgf
        rw [Files.files_set_of_ne hgf]
    change L.refs s.fs w = _
    rw [hmore, Pi.sub_apply]
    omega

/-- The references of an entry of `p_files`. -/
def slotRef : Option Nat → Nat → Int
  | some f => Pi.single f 1
  | none => 0

theorem slotRef_apply (entry : Option Nat) (f : Nat) :
    slotRef entry f = if entry = some f then 1 else 0 := by
  cases entry with
  | none => rfl
  | some g =>
      rw [slotRef, Pi.single_apply]
      simp [eq_comm]

/-- An entry of `p_files` changes. -/
theorem setSlot [DecidableEq ι] (h : Owing L root table cwd fx vx bare s) {p : ι} {fd : Nat}
    {entry : Option Nat} (hfd : fd < 32) (hentry : ∀ f, entry = some f → f ∈ s.opened) :
    Owing L root (Function.update table p (Function.update (table p) fd entry)) cwd
      (fx + slotRef (table p fd) - slotRef entry) vx bare s := by
  set table' := Function.update table p (Function.update (table p) fd entry) with htable
  have hself : table' p fd = entry := by
    rw [htable, Function.update_self, Function.update_self]
  have hother (q : ι × Nat) (hq : q ≠ (p, fd)) : table' q.1 q.2 = table q.1 q.2 := by
    obtain ⟨a, b⟩ := q
    rw [htable]
    by_cases ha : a = p
    · subst ha
      have hb : b ≠ fd := fun heq => hq (by rw [heq])
      rw [Function.update_self, Function.update_of_ne hb]
    · rw [Function.update_of_ne ha]
  refine ⟨h.sound, ?_, h.named, ?_, h.used, h.vnode⟩
  · intro q b f hb hslot
    by_cases hq : (q, b) = (p, fd)
    · obtain ⟨rfl, rfl⟩ := hq
      exact hentry f (hself ▸ hslot)
    · exact h.slot q b f hb (hother (q, b) hq ▸ hslot)
  · intro f hf
    have hplace : (p, fd) ∈ (Finset.univ : Finset ι) ×ˢ Finset.range 32 :=
      Finset.mem_product.mpr ⟨Finset.mem_univ p, Finset.mem_range.mpr hfd⟩
    have hcount : (slotsOf table' f : Int) =
        slotsOf table f - slotRef (table p fd) f + slotRef entry f := by
      rw [slotsOf, slotsOf, tally_change hplace (p := fun q => table q.1 q.2 = some f)]
      · rw [hself, slotRef_apply, slotRef_apply]
        simp
      · intro q _ hq
        rw [hother q hq]
    rw [h.file f hf, hcount, Pi.sub_apply, Pi.add_apply]
    omega

/-- A process changes its working directory. -/
theorem setCwd [DecidableEq ι] (h : Owing L root table cwd fx vx bare s) {p : ι} {v : Nat} :
    Owing L root table (Function.update cwd p v) fx
      (vx + Pi.single (cwd p) 1 - Pi.single v 1) bare s := by
  refine ⟨h.sound, h.slot, h.named, h.file, h.used, fun w => ?_⟩
  have hold := h.vnode w
  have hcount : (dirsAt (Function.update cwd p v) w : Int) =
      dirsAt cwd w - (if cwd p = w then 1 else 0) + if v = w then 1 else 0 := by
    rw [dirsAt, dirsAt, tally_change (Finset.mem_univ p) (p := fun q => cwd q = w)]
    · simp
    · intro q _ hq
      rw [Function.update_of_ne hq]
  rw [hcount, Pi.sub_apply, Pi.add_apply, Pi.single_apply, Pi.single_apply]
  simp only [eq_comm (a := w)]
  omega

end Owing

end Books

end CodingSample.Vfs.Sys
