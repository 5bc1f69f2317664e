import CodingSample.Prog.Changes
import CodingSample.Ramfs.Paths
import Mathlib.Algebra.Group.Pi.Basic
import Mathlib.Algebra.Group.Pi.Lemmas
import Mathlib.Tactic.Abel

/-!
# The references to the vnodes of the ramfs

What each operation of `ramfs.c` takes and gives up.
-/

namespace CodingSample.Ramfs

open Prog Vfs

/-- `vn_refcount` of a vnode, or 0 if it is not in core. -/
def Fs.refs (s : Fs) (ino : Nat) : Int := ((s.vnodes ino).map Vnode.vnRefcount).getD 0

/-- No vnode is in core without a reference. -/
def Fs.Used (s : Fs) : Prop := ∀ ino v, s.vnodes ino = some v → 0 < v.vnRefcount

/-- The reference that a vnode comes with, if it is found. -/
def foundRef : Option Nat → Nat → Int
  | some ino => Pi.single ino 1
  | none => 0

variable {s : Fs} {ino dir i : Nat} {n : Int} {v : Vnode} {name : Name} {mem : Supply} {α : Type}

@[simp] theorem refs_setInode {x : Option Inode} : (s.setInode ino x).refs = s.refs := rfl

theorem refs_of_some (hv : s.vnodes ino = some v) : s.refs ino = v.vnRefcount := by
  simp [Fs.refs, hv]

theorem refs_of_none (hv : s.vnodes ino = none) : s.refs ino = 0 := by
  simp [Fs.refs, hv]

theorem refs_setVnode {x : Option Vnode} (hs : s.Used) (hx : ∀ w, x = some w → 0 < w.vnRefcount)
    (h : (x.map Vnode.vnRefcount).getD 0 = s.refs ino + n) :
    (s.setVnode ino x).Used ∧ (s.setVnode ino x).refs = s.refs + Pi.single ino n := by
  constructor
  · intro j w hw
    by_cases hj : j = ino
    · subst hj
      rw [Fs.vnodes_setVnode_self] at hw
      exact hx w hw
    · rw [Fs.vnodes_setVnode_of_ne hj] at hw
      exact hs j w hw
  · funext j
    rw [Pi.add_apply]
    by_cases hj : j = ino
    · subst hj
      rw [Pi.single_eq_same, ← h, Fs.refs, Fs.vnodes_setVnode_self]
    · rw [Pi.single_eq_of_ne hj, add_zero, Fs.refs, Fs.vnodes_setVnode_of_ne hj, Fs.refs]

/-! ### Vnodes and inodes -/

theorem changes_getVnode : Changes Fs.Used Fs.refs (getVnode ino) fun _ => 0 := fun _ hs =>
  wlp_getVnode fun _ _ => ⟨hs, (add_zero _).symm⟩

theorem changes_getInode : Changes Fs.Used Fs.refs (getInode ino) fun _ => 0 := fun _ hs =>
  wlp_getInode fun _ _ => ⟨hs, (add_zero _).symm⟩

theorem changes_modifyInode {f : Inode → Inode} :
    Changes Fs.Used Fs.refs (modifyInode ino f) fun _ => 0 := fun _ hs =>
  wlp_modifyInode fun _ _ => ⟨hs, (add_zero _).symm⟩

theorem changes_getEntries : Changes Fs.Used Fs.refs (getEntries dir) fun _ => 0 := fun _ hs =>
  wlp_getEntries fun _ _ _ _ => ⟨hs, (add_zero _).symm⟩

theorem changes_setEntry {new : Dirent} :
    Changes Fs.Used Fs.refs (setEntry dir i new) fun _ => 0 :=
  .bind_zero changes_getEntries fun _ => changes_modifyInode

/-- A vnode gets one more reference. -/
theorem refs_add (hs : s.Used) (hv : s.vnodes ino = some v) :
    (s.setVnode ino (some { v with vnRefcount := v.vnRefcount + 1 })).Used ∧
      (s.setVnode ino (some { v with vnRefcount := v.vnRefcount + 1 })).refs =
        s.refs + Pi.single ino 1 := by
  refine refs_setVnode hs ?_ ?_
  · rintro _ ⟨rfl⟩
    exact Int.lt_add_one_of_le (le_of_lt (hs ino v hv))
  · rw [refs_of_some hv]
    rfl

theorem changes_vref : Changes Fs.Used Fs.refs (vref ino) fun _ => Pi.single ino 1 := by
  intro s hs
  rw [vref, wlp_bind]
  refine wlp_getVnode ?_
  intro v hv
  rw [wlp_bind, kassert, wlp_check]
  intro _
  exact wlp_modify.mpr (refs_add hs hv)

theorem changes_readVnode : Changes Fs.Used Fs.refs (ramfsReadVnode ino) fun _ => 0 := by
  refine .get_bind fun s => ?_
  split
  · exact .fail
  · exact .bind_zero .check fun _ => .bind_zero changes_modifyInode fun _ => .pure rfl

theorem changes_vget : Changes Fs.Used Fs.refs (vget ino) fun _ => Pi.single ino 1 := by
  intro s hs
  rw [vget, wlp_bind, wlp_get]
  split
  · rename_i v hv
    rw [wlp_bind, kassert, wlp_check]
    intro _
    exact wlp_modify.mpr (refs_add hs hv)
  · rename_i hnone
    refine wlp_bind_of (changes_readVnode s hs) ?_
    rintro v t ⟨ht, hrefs⟩
    rw [add_zero] at hrefs
    rw [← hrefs]
    refine wlp_modify.mpr (refs_setVnode ht ?_ ?_)
    · rintro _ ⟨rfl⟩
      exact one_pos
    · rw [hrefs, refs_of_none hnone]
      rfl

theorem changes_vput : Changes Fs.Used Fs.refs (vput ino) fun _ => -Pi.single ino 1 := by
  intro s hs
  rw [← Pi.single_neg, vput, wlp_bind]
  refine wlp_getVnode ?_
  intro v hv
  rw [wlp_bind, kassert, wlp_check]
  intro hpos
  have hpos := of_decide_eq_true hpos
  split
  · rename_i hmore
    refine wlp_modify.mpr (refs_setVnode hs ?_ ?_)
    · rintro _ ⟨rfl⟩
      exact hmore
    · rw [refs_of_some hv]
      rfl
  · have hdelete : Changes Fs.Used Fs.refs (ramfsDeleteVnode ino) fun _ => 0 := by
      refine .bind_zero changes_modifyInode fun _ => .bind_zero changes_getInode fun inode =>
        .ite (fun _ => .modify fun _ ht => ⟨ht, (add_zero _).symm⟩) fun _ => .pure rfl
    refine wlp_bind_of (hdelete s hs) ?_
    rintro _ t ⟨ht, hrefs⟩
    rw [add_zero] at hrefs
    rw [← hrefs]
    refine wlp_modify.mpr (refs_setVnode ht (fun w hw => by cases hw) ?_)
    rw [hrefs, refs_of_some hv, Option.map_none, Option.getD_none]
    omega

/-! ### Operations -/

theorem changes_lookup : Changes Fs.Used Fs.refs (ramfsLookup dir name) foundRef := by
  refine .bind_zero changes_getEntries fun entries => ?_
  split
  · refine changes_vget.bind fun _ => .pure ?_
    exact sub_self _
  · exact .pure rfl

theorem changes_withSlot {full : α} {body : Nat → R α} {d : α → Nat → Int} (hfull : d full = 0)
    (h : ∀ i, Changes Fs.Used Fs.refs (body i) d) :
    Changes Fs.Used Fs.refs (withSlot dir name full body) d := by
  refine changes_lookup.bind fun r => ?_
  cases r with
  | some ino =>
      intro s _
      rw [wlp_bind, kassert, wlp_check]
      intro hnew
      cases hnew
  | none =>
      refine .bind_zero .check fun _ => .bind_zero changes_getEntries fun entries => ?_
      split
      · refine .pure ?_
        rw [hfull, foundRef, sub_zero]
      · exact (h _).congr fun _ => (sub_zero _).symm

theorem changes_enter : Changes Fs.Used Fs.refs (enter dir i ino name) fun _ => 0 :=
  .bind_zero changes_setEntry fun _ => changes_modifyInode

theorem changes_allocInode {fresh : Contents} :
    Changes Fs.Used Fs.refs (ramfsAllocInode fresh mem) fun _ => 0 := by
  refine .get_bind fun s => ?_
  split
  · exact .pure rfl
  · refine .ite (fun _ => .pure rfl) fun _ => .ite (fun _ => .pure rfl) fun _ => ?_
    exact .bind_zero (.modify fun _ hs => ⟨hs, (add_zero _).symm⟩) fun _ => .pure rfl

theorem changes_create :
    Changes Fs.Used Fs.refs (ramfsCreate dir name mem) fun r => foundRef r.2 := by
  refine changes_withSlot rfl fun i => .bind_zero changes_allocInode fun ino => .ite
    (fun _ => .pure rfl) fun _ => changes_vget.bind fun _ => .bind_zero changes_enter fun _ => ?_
  exact .pure (sub_self _)

theorem changes_mknod {mode : VnMode} {devid : UInt32} :
    Changes Fs.Used Fs.refs (ramfsMknod dir name mode devid mem) fun _ => 0 := by
  refine changes_withSlot rfl fun i => ?_
  split
  · exact .fail
  · exact .bind_zero changes_allocInode fun ino => .ite (fun _ => .pure rfl) fun _ =>
      .bind_zero changes_enter fun _ => .pure rfl

theorem changes_link {old : Nat} : Changes Fs.Used Fs.refs (ramfsLink old dir name) fun _ => 0 :=
  changes_withSlot rfl fun _ => .bind_zero changes_enter fun _ =>
    .bind_zero changes_modifyInode fun _ => .pure rfl

theorem changes_mkdir : Changes Fs.Used Fs.refs (ramfsMkdir dir name mem) fun _ => 0 := by
  refine changes_withSlot rfl fun i => .bind_zero changes_allocInode fun ino => .ite
    (fun _ => .pure rfl) fun _ => .bind_zero changes_enter fun _ => ?_
  exact .bind_zero changes_setEntry fun _ => .bind_zero changes_setEntry fun _ =>
    .bind_zero changes_modifyInode fun _ => .pure rfl

theorem changes_removeEntry {vn : Nat} :
    Changes Fs.Used Fs.refs (removeEntry dir vn name) fun _ => -Pi.single vn 1 := by
  have hrest : Changes Fs.Used Fs.refs (do
      addSize dir (-sizeofDirent)
      addLinks vn (-1)
      vput vn
      pure (0 : Int)) fun _ => -Pi.single vn 1 :=
    .bind_zero changes_modifyInode fun _ => .bind_zero changes_modifyInode fun _ =>
      changes_vput.bind fun _ => .pure (sub_self _)
  refine .bind_zero changes_getEntries fun entries => ?_
  split
  · exact .bind_zero changes_setEntry fun _ => hrest
  · exact hrest

theorem changes_unlink : Changes Fs.Used Fs.refs (ramfsUnlink dir name) fun _ => 0 := by
  refine changes_lookup.bind fun r => ?_
  cases r with
  | none => exact .fail
  | some vn =>
      refine .bind_zero changes_getVnode fun v => .bind_zero .check fun _ => ?_
      exact changes_removeEntry.congr fun _ => (zero_sub _).symm

theorem changes_rmdir : Changes Fs.Used Fs.refs (ramfsRmdir dir name) fun _ => 0 := by
  refine .bind_zero .check fun _ => changes_lookup.bind fun r => ?_
  cases r with
  | none => exact .pure (sub_self _)
  | some vn =>
      have hput {ret : Int} : Changes Fs.Used Fs.refs (do
          vput vn
          pure ret : R Int) fun _ => 0 - foundRef (some vn) :=
        changes_vput.bind fun _ => .pure (by simp [foundRef])
      refine .bind_zero changes_getVnode fun v => .ite (fun _ => hput) fun _ => ?_
      refine .bind_zero changes_getEntries fun entries => ?_
      split
      · exact hput
      · exact changes_removeEntry.congr fun _ => (zero_sub _).symm

theorem changes_getPage : Changes Fs.Used Fs.refs (getPage ino) fun _ => 0 := by
  refine .bind_zero changes_getInode fun inode => ?_
  split
  · exact .pure rfl
  all_goals exact .fail

theorem changes_read {offset : Int} {count : Nat} :
    Changes Fs.Used Fs.refs (ramfsRead ino offset count) fun _ => 0 := by
  refine .bind_zero changes_getInode fun inode => .bind_zero changes_getVnode fun v =>
    .bind_zero .check fun _ => .bind_zero ?_ fun _ => .pure rfl
  exact .bind_zero changes_getPage fun _ => .bind_zero .check fun _ => .pure rfl

/-- `ramfs_write` sets the length in a vnode that it read before. -/
theorem changes_write {offset : Int} {buf : List UInt8} :
    Changes Fs.Used Fs.refs (ramfsWrite ino offset buf) fun _ => 0 := by
  intro s hs
  rw [ramfsWrite, wlp_bind]
  refine wlp_getVnode ?_
  intro v hv
  rw [wlp_bind, kassert, wlp_check]
  intro _
  have hcopy : Changes Fs.Used Fs.refs
      (copyIn ino offset (min (int32 buf.length) (pageSize - offset)) buf) fun _ => 0 :=
    .bind_zero changes_getPage fun _ => .bind_zero .check fun _ => changes_modifyInode
  refine wlp_bind_of (hcopy s hs) ?_
  rintro _ t ⟨ht, hrefs⟩
  refine wlp_bind_of (changes_getInode t ht) ?_
  rintro inode u ⟨hu, hrefs'⟩
  rw [add_zero, hrefs, add_zero] at hrefs'
  rw [wlp_bind, kassert, wlp_check]
  intro _
  simp only []
  rw [wlp_bind, wlp_modify]
  set len := max v.vnLen (offset + min (int32 buf.length) (pageSize - offset)) with hlen
  have hset : (u.setVnode ino (some { v with vnLen := len })).Used ∧
      (u.setVnode ino (some { v with vnLen := len })).refs = u.refs + Pi.single ino 0 := by
    refine refs_setVnode hu ?_ ?_
    · rintro _ ⟨rfl⟩
      exact hs ino v hv
    · rw [hrefs', refs_of_some hv, add_zero]
      rfl
  rw [Pi.single_zero, add_zero, hrefs'] at hset
  rw [← hset.2]
  refine wlp_bind_of (changes_modifyInode _ hset.1) ?_
  intro _ w hw
  exact wlp_pure.mpr hw

theorem changes_readdir {offset : Int} :
    Changes Fs.Used Fs.refs (ramfsReaddir dir offset) fun _ => 0 :=
  .bind_zero changes_getVnode fun _ => .bind_zero .check fun _ => .bind_zero .check fun _ =>
    .bind_zero changes_getEntries fun _ => .bind_zero .check fun _ => .pure rfl

end CodingSample.Ramfs
