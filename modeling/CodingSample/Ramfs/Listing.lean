import CodingSample.Prog.Keeps
import CodingSample.Ramfs.Readdir

/-!
# The names in a directory of the ramfs

No call gives two entries of a directory the same name, so a listing has each name once.
-/

namespace CodingSample.Ramfs

open Prog Vfs

/-- The names in a directory end inside `rd_name`, and no two entries have the same. -/
structure Tidy (e : Nat → Dirent) : Prop where
  short : ∀ i, (e i).rdName.length ≤ nameLen - 1
  distinct : ∀ i j, i < 128 → j < 128 → (e i).rdName = (e j).rdName → (e i).rdName ≠ [] → i = j

def Fs.Neat (s : Fs) : Prop := ∀ d e, s.contents d = some (.dir e) → Tidy e

variable {s t : Fs} {dir i ino : Nat} {e : Nat → Dirent} {new : Dirent} {name : Name}
  {mem : Supply} {x : Contents}

theorem tidy_empty : Tidy fun _ => ⟨0, []⟩ :=
  ⟨fun _ => Nat.zero_le _, fun _ _ _ _ _ hne => absurd rfl hne⟩

theorem Tidy.update (h : Tidy e) (hshort : new.rdName.length ≤ nameLen - 1)
    (hnew : new.rdName ≠ [] → ∀ j, j < 128 → j ≠ i → (e j).rdName ≠ new.rdName) :
    Tidy (Function.update e i new) := by
  constructor
  · intro j
    by_cases hj : j = i
    · rw [hj, Function.update_self]
      exact hshort
    · rw [Function.update_of_ne hj]
      exact h.short j
  · intro j k hj hk hname hne
    by_cases hji : j = i
    · by_cases hki : k = i
      · rw [hji, hki]
      · rw [hji, Function.update_self] at hname hne
        rw [Function.update_of_ne hki] at hname
        exact absurd hname.symm (hnew hne k hk hki)
    · rw [Function.update_of_ne hji] at hname hne
      by_cases hki : k = i
      · rw [hki, Function.update_self] at hname
        exact absurd hname (hnew (hname ▸ hne) j hj hji)
      · rw [Function.update_of_ne hki] at hname
        exact h.distinct j k hj hk hname hne

namespace Fs.Neat

theorem within (h : s.Neat) (hin : Within t s) : t.Neat := fun d e hc => h d e (hin d _ hc)

theorem congr (h : s.Neat) (hsame : t.contents = s.contents) : t.Neat := by
  intro d e hc
  rw [hsame] at hc
  exact h d e hc

theorem set (h : s.Neat) (hx : ∀ e, x = .dir e → Tidy e)
    (hset : t.contents = Function.update s.contents i (some x)) : t.Neat := by
  intro d e hc
  rw [hset] at hc
  by_cases hd : d = i
  · rw [hd, Function.update_self] at hc
    exact hx e (Option.some.inj hc)
  · rw [Function.update_of_ne hd] at hc
    exact h d e hc

end Fs.Neat

/-! ### What the steps of the calls do to the inodes -/

theorem wlp_modifyInode_same {f : Inode → Inode} (hf : ∀ x, (f x).contents = x.contents) :
    wlp (modifyInode i f) (fun _ t => t.contents = s.contents) s :=
  wlp_modifyInode fun inode hi => contents_setInode_same hi (hf inode)

theorem wlp_vget_same : wlp (vget i) (fun _ t => t.contents = s.contents) s := by
  rw [vget, wlp_bind, wlp_get]
  split
  · rw [wlp_bind, kassert, wlp_check]
    exact fun _ => wlp_modify.mpr rfl
  · rw [wlp_bind, ramfsReadVnode, wlp_bind, wlp_get]
    split
    · exact wlp_fail.mpr trivial
    · rw [wlp_bind, kassert, wlp_check]
      intro _
      refine wlp_bind_of (wlp_modifyInode_same fun _ => rfl) ?_
      intro _ t ht
      exact wlp_pure.mpr (wlp_modify.mpr ht)

theorem wlp_vput_within : wlp (vput i) (fun _ t => Within t s) s := by
  rw [vput, wlp_bind]
  refine wlp_getVnode ?_
  intro v hv
  rw [wlp_bind, kassert, wlp_check]
  intro _
  split
  · exact wlp_modify.mpr fun _ _ hx => hx
  · rw [wlp_bind, ramfsDeleteVnode]
    refine wlp_bind_of (wlp_modifyInode_same fun _ => rfl) ?_
    intro _ t ht
    rw [wlp_bind]
    refine wlp_getInode ?_
    intro inode hi
    split
    · rw [wlp_modify, wlp_modify]
      intro j x hj
      rw [contents_setVnode, contents_setInode] at hj
      by_cases hji : j = i
      · rw [hji, Function.update_self] at hj
        cases hj
      · rwa [Function.update_of_ne hji, ht] at hj
    · rw [wlp_pure, wlp_modify]
      intro j x hj
      rwa [contents_setVnode, ht] at hj

theorem wlp_alloc_contents : wlp (ramfsAllocInode x mem) (fun r t => r < 0 ∧ t = s ∨
    ∃ ino : Nat, r = ino ∧ s.contents ino = none ∧
      t.contents = Function.update s.contents ino (some x)) s := by
  rw [ramfsAllocInode, wlp_bind, wlp_get]
  split
  · exact wlp_pure.mpr (Or.inl ⟨by decide, rfl⟩)
  · rename_i ino hfind
    have hnone : s.rfsInodes ino = none :=
      Option.isNone_iff_eq_none.mp (List.find?_some (p := fun i => (s.rfsInodes i).isNone) hfind)
    have hc : s.contents ino = none := by
      rw [Fs.contents, hnone]
      rfl
    split
    · exact wlp_pure.mpr (Or.inl ⟨by decide, rfl⟩)
    split
    · exact wlp_pure.mpr (Or.inl ⟨by decide, rfl⟩)
    rw [wlp_bind, wlp_modify, wlp_pure]
    exact Or.inr ⟨ino, rfl, hc, contents_setInode⟩

theorem wlp_setEntry_contents (hc : s.contents dir = some (.dir e)) :
    wlp (setEntry dir i new) (fun _ t => t.contents =
      Function.update s.contents dir (some (.dir (Function.update e i new)))) s :=
  Books.wlp_setEntry hc fun _ _ _ => contents_setInode

/-- What a look-up finds, if anything; the directory is as before. -/
theorem wlp_lookup_contents : wlp (ramfsLookup dir name) (fun r t => t.contents = s.contents ∧
    ∃ e, s.contents dir = some (.dir e) ∧
      (r = none → ∀ j, j < 128 → (e j).rdName ≠ name)) s := by
  rw [ramfsLookup, wlp_bind]
  refine wlp_getEntries ?_
  intro inode e hi he
  have hc : s.contents dir = some (.dir e) := by rw [contents_eq hi, he]
  split
  · refine wlp_bind_of wlp_vget_same ?_
    intro _ t ht
    exact wlp_pure.mpr ⟨ht, e, hc, fun hnone => by cases hnone⟩
  · rename_i hfind
    refine wlp_pure.mpr ⟨rfl, e, hc, fun _ j hj heq => ?_⟩
    have hfalse := findEntry_none hfind hj
    rw [nameMatch_iff.mpr heq] at hfalse
    cases hfalse

/-! ### The calls -/

/-- A new entry with a name that the directory does not have. -/
theorem wlp_enter_neat (h : s.Neat) (hc : s.contents dir = some (.dir e))
    (hlen : name.length ≤ nameLen - 1) (hnew : ∀ j, j < 128 → (e j).rdName ≠ name) :
    wlp (enter dir i ino name) (fun _ t => t.Neat ∧ ∀ d, d ≠ dir → t.contents d = s.contents d)
      s := by
  rw [enter]
  refine wlp_bind_of (wlp_setEntry_contents hc) ?_
  intro _ t ht
  refine wlp_mono (wlp_modifyInode_same fun _ => rfl) ?_
  intro _ u hu
  rw [List.take_of_length_le hlen] at ht
  constructor
  · refine (h.set ?_ ht).congr hu
    rintro e' ⟨rfl⟩
    exact (h dir e hc).update hlen fun _ j hj _ => hnew j hj
  · intro d hd
    rw [hu, ht, Function.update_of_ne hd]

theorem keeps_withSlot {α : Type} {full : α} {body : Nat → R α}
    (hbody : ∀ s i e, s.Neat → s.contents dir = some (.dir e) →
      (∀ j, j < 128 → (e j).rdName ≠ name) → wlp (body i) (fun _ t => t.Neat) s) :
    Keeps Fs.Neat (withSlot dir name full body) := by
  intro s h
  rw [withSlot]
  refine wlp_bind_of wlp_lookup_contents ?_
  rintro found t ⟨ht, e, hc, hnew⟩
  rw [wlp_bind, kassert, wlp_check]
  intro hnone
  rw [← ht] at hc
  rw [wlp_bind]
  refine wlp_getEntries ?_
  intro inode e' hi he
  have heq : e' = e := by
    rw [contents_eq hi, he] at hc
    cases hc
    rfl
  subst heq
  split
  · exact wlp_pure.mpr (h.congr ht)
  · rename_i i _
    exact hbody t i e' (h.congr ht) hc (hnew (Option.isNone_iff_eq_none.mp hnone))

/-- An inode is allocated, which leaves the directory as it is. -/
theorem wlp_alloc_neat (h : s.Neat) (hc : s.contents dir = some (.dir e))
    (hx : ∀ e, x = .dir e → Tidy e) : wlp (ramfsAllocInode x mem) (fun r t => t.Neat ∧
      t.contents dir = some (.dir e) ∧
        (0 ≤ r → t.contents r.toNat = some x ∧ dir ≠ r.toNat)) s := by
  refine wlp_mono wlp_alloc_contents ?_
  rintro r t (⟨hneg, rfl⟩ | ⟨ino, rfl, hnone, ht⟩)
  · exact ⟨h, hc, fun hr => absurd hneg (not_lt.mpr hr)⟩
  · have hne : dir ≠ ino := by
      rintro rfl
      rw [hnone] at hc
      cases hc
    refine ⟨h.set hx ht, ?_, fun _ => ⟨?_, ?_⟩⟩
    · rw [ht, Function.update_of_ne hne]
      exact hc
    · rw [Int.toNat_natCast, ht, Function.update_self]
    · rw [Int.toNat_natCast]
      exact hne

theorem keeps_create (hlen : name.length ≤ nameLen - 1) :
    Keeps Fs.Neat (ramfsCreate dir name mem) := by
  refine keeps_withSlot ?_
  intro s i e h hc hnew
  refine wlp_bind_of (wlp_alloc_neat h hc fun _ hx => by cases hx) ?_
  rintro r t ⟨ht, hct, -⟩
  split
  · exact wlp_pure.mpr ht
  · refine wlp_bind_of wlp_vget_same ?_
    intro _ u hu
    rw [← hu] at hct
    refine wlp_bind_of (wlp_enter_neat (ht.congr hu) hct hlen hnew) ?_
    rintro _ w ⟨hw, -⟩
    exact wlp_pure.mpr hw

theorem keeps_mknod {mode : VnMode} {devid : UInt32} (hlen : name.length ≤ nameLen - 1) :
    Keeps Fs.Neat (ramfsMknod dir name mode devid mem) := by
  refine keeps_withSlot ?_
  intro s i e h hc hnew
  split
  · exact wlp_fail.mpr trivial
  · rename_i fresh hfresh
    have hdevice : ∀ e, fresh = .dir e → Tidy e := by
      rintro e ⟨rfl⟩
      cases mode <;> cases hfresh
    refine wlp_bind_of (wlp_alloc_neat h hc hdevice) ?_
    rintro r t ⟨ht, hct, -⟩
    split
    · exact wlp_pure.mpr ht
    · refine wlp_bind_of (wlp_enter_neat ht hct hlen hnew) ?_
      rintro _ w ⟨hw, -⟩
      exact wlp_pure.mpr hw

theorem keeps_link {fromNode : Nat} (hlen : name.length ≤ nameLen - 1) :
    Keeps Fs.Neat (ramfsLink fromNode dir name) := by
  refine keeps_withSlot ?_
  intro s i e h hc hnew
  refine wlp_bind_of (wlp_enter_neat h hc hlen hnew) ?_
  rintro _ t ⟨ht, -⟩
  refine wlp_bind_of (wlp_modifyInode_same fun _ => rfl) ?_
  intro _ u hu
  exact wlp_pure.mpr (ht.congr hu)

theorem keeps_mkdir (hlen : name.length ≤ nameLen - 1) :
    Keeps Fs.Neat (ramfsMkdir dir name mem) := by
  refine keeps_withSlot ?_
  intro s i e h hc hnew
  refine wlp_bind_of (wlp_alloc_neat h hc fun e hx => by cases hx; exact tidy_empty) ?_
  rintro r t ⟨ht, hct, hself⟩
  split
  · exact wlp_pure.mpr ht
  · rename_i hr
    obtain ⟨hzero, hne⟩ := hself (not_lt.mp hr)
    refine wlp_bind_of (wlp_enter_neat ht hct hlen hnew) ?_
    rintro _ u ⟨hu, hsame⟩
    rw [← hsame _ hne.symm] at hzero
    have hdot : Tidy (Function.update (fun _ => ⟨0, []⟩) 0 ⟨r.toNat, dot⟩) :=
      tidy_empty.update (Nat.le_of_ble_eq_true rfl) fun _ _ _ _ => (List.cons_ne_nil _ _).symm
    refine wlp_bind_of (wlp_setEntry_contents hzero) ?_
    intro _ w hw
    have hcw : w.contents r.toNat =
        some (.dir (Function.update (fun _ => ⟨0, []⟩) 0 ⟨r.toNat, dot⟩)) := by
      rw [hw, Function.update_self]
    refine wlp_bind_of (wlp_setEntry_contents hcw) ?_
    intro _ y hy
    have hboth : Tidy (Function.update (Function.update (fun _ => ⟨0, []⟩) 0 ⟨r.toNat, dot⟩) 1
        ⟨dir, dotdot⟩) := by
      refine hdot.update (Nat.le_of_ble_eq_true rfl) ?_
      intro _ j _ _
      by_cases hj : j = 0
      · rw [hj, Function.update_self]
        simp
      · rw [Function.update_of_ne hj]
        exact (List.cons_ne_nil _ _).symm
    have hneatw : w.Neat := hu.set (fun e he => by cases he; exact hdot) hw
    refine wlp_bind_of (wlp_modifyInode_same fun _ => rfl) ?_
    intro _ z hz
    exact wlp_pure.mpr ((hneatw.set (fun e he => by cases he; exact hboth) hy).congr hz)

theorem keeps_vput : Keeps Fs.Neat (vput i) := fun _ h =>
  wlp_mono wlp_vput_within fun _ _ hin => h.within hin

theorem keeps_modifyInode {f : Inode → Inode} (hf : ∀ x, (f x).contents = x.contents) :
    Keeps Fs.Neat (modifyInode i f) := fun _ h =>
  wlp_mono (wlp_modifyInode_same hf) fun _ _ hsame => h.congr hsame

theorem keeps_addLinks {n : Int} : Keeps Fs.Neat (Ramfs.addLinks i n) :=
  keeps_modifyInode fun _ => rfl

theorem keeps_addSize {n : Int} : Keeps Fs.Neat (Ramfs.addSize i n) :=
  keeps_modifyInode fun _ => rfl

theorem keeps_lookup : Keeps Fs.Neat (ramfsLookup dir name) := fun _ h =>
  wlp_mono wlp_lookup_contents fun _ _ hlook => h.congr hlook.1

theorem keeps_removeEntry {vn : Nat} : Keeps Fs.Neat (removeEntry dir vn name) := by
  intro s h
  rw [removeEntry, wlp_bind]
  refine wlp_getEntries ?_
  intro inode e hi he
  have hc : s.contents dir = some (.dir e) := by rw [contents_eq hi, he]
  have hrest : Keeps Fs.Neat (do
      addSize dir (-sizeofDirent)
      addLinks vn (-1)
      vput vn
      pure (0 : Int)) :=
    keeps_addSize.bind fun _ => keeps_addLinks.bind fun _ => keeps_vput.bind fun _ => .pure 0
  split
  · rename_i i _
    refine wlp_bind_of (wlp_setEntry_contents hc) ?_
    intro _ t ht
    refine hrest t (h.set ?_ ht)
    rintro e' ⟨rfl⟩
    exact (h dir e hc).update (Nat.zero_le _) fun hne => absurd rfl hne
  · exact hrest s h

theorem keeps_getVnode : Keeps Fs.Neat (getVnode i) := fun _ h => wlp_getVnode fun _ _ => h

theorem keeps_getInode : Keeps Fs.Neat (getInode i) := fun _ h => wlp_getInode fun _ _ => h

theorem keeps_getEntries : Keeps Fs.Neat (getEntries dir) := fun _ h =>
  wlp_getEntries fun _ _ _ _ => h

theorem keeps_unlink : Keeps Fs.Neat (ramfsUnlink dir name) := by
  refine keeps_lookup.bind fun found => ?_
  cases found with
  | none => exact .fail _
  | some vn =>
      exact keeps_getVnode.bind fun _ => (Keeps.check _ _).bind fun _ => keeps_removeEntry

theorem keeps_rmdir : Keeps Fs.Neat (ramfsRmdir dir name) := by
  refine (Keeps.check _ _).bind fun _ => keeps_lookup.bind fun found => ?_
  cases found with
  | none => exact .pure _
  | some vn =>
      refine keeps_getVnode.bind fun v => .ite (fun _ => ?_) fun _ => ?_
      · exact keeps_vput.bind fun _ => .pure _
      · refine keeps_getEntries.bind fun e => ?_
        split
        · exact keeps_vput.bind fun _ => .pure _
        · exact keeps_removeEntry

theorem keeps_unlessFound {body : R Int} (hbody : Keeps Fs.Neat body) :
    Keeps Fs.Neat (unlessFound dir name body) := by
  refine keeps_lookup.bind fun found => ?_
  cases found with
  | none => exact hbody.bind fun _ => .pure _
  | some target => exact keeps_vput.bind fun _ => .pure _

theorem keeps_getPage : Keeps Fs.Neat (getPage i) := by
  refine keeps_getInode.bind fun inode => ?_
  split
  · exact .pure _
  all_goals exact .fail _

theorem keeps_copyIn {offset n : Int} {buf : List UInt8} :
    Keeps Fs.Neat (copyIn i offset n buf) := by
  refine keeps_getPage.bind fun page => (Keeps.check _ _).bind fun _ => ?_
  intro s h
  refine wlp_modifyInode fun inode hi => ?_
  have hdata : ∀ e, Contents.data (patch page offset.toNat (buf.take n.toNat)) = .dir e →
      Tidy e := by
    intro e he
    cases he
  exact h.set hdata contents_setInode

theorem keeps_setVnode {w : Option Vnode} :
    Keeps Fs.Neat (Prog.modify (fun s => s.setVnode i w) : R Unit) :=
  .modify fun _ h => h.congr rfl

theorem keeps_read {offset : Int} {count : Nat} : Keeps Fs.Neat (ramfsRead i offset count) := by
  refine keeps_getInode.bind fun _ => keeps_getVnode.bind fun _ =>
    (Keeps.check _ _).bind fun _ => ?_
  refine Keeps.bind ?_ fun _ => .pure _
  exact keeps_getPage.bind fun _ => (Keeps.check _ _).bind fun _ => .pure _

theorem keeps_write {offset : Int} {buf : List UInt8} :
    Keeps Fs.Neat (ramfsWrite i offset buf) := by
  refine keeps_getVnode.bind fun _ => (Keeps.check _ _).bind fun _ => keeps_copyIn.bind fun _ =>
    keeps_getInode.bind fun _ => (Keeps.check _ _).bind fun _ => ?_
  refine keeps_setVnode.bind fun _ => Keeps.bind ?_ fun _ => .pure _
  exact keeps_modifyInode fun _ => rfl

/-- Every call of the VFS keeps the directories tidy. -/
theorem Call.keeps {call : Call} (hmade : call.Made s) : Keeps Fs.Neat call.run := by
  cases call with
  | create dir name mem =>
      refine keeps_lookup.bind fun found => ?_
      cases found with
      | none => exact (keeps_create hmade.2).bind fun _ => .pure _
      | some _ => exact .pure _
  | mknod dir name mode devid mem =>
      exact .ite (fun _ => .pure _) fun _ => keeps_unlessFound (keeps_mknod hmade.2)
  | link fromNode dir name => exact keeps_unlessFound (keeps_link hmade.2.1)
  | unlink dir name =>
      refine keeps_lookup.bind fun found => ?_
      cases found with
      | none => exact .pure _
      | some target =>
          refine keeps_getVnode.bind fun v => .ite (fun _ => ?_) fun _ => ?_
          · exact keeps_vput.bind fun _ => .pure _
          · exact keeps_unlink.bind fun _ => keeps_vput.bind fun _ => .pure _
  | mkdir dir name mem => exact keeps_unlessFound (keeps_mkdir hmade.2)
  | rmdir dir name =>
      exact .ite (fun _ => .pure _) fun _ => .ite (fun _ => .pure _) fun _ =>
        keeps_rmdir.bind fun _ => .pure _
  | lookup dir name =>
      refine keeps_lookup.bind fun found => ?_
      cases found with
      | none => exact .pure _
      | some _ => exact .pure _
  | vput vn => exact keeps_vput.bind fun _ => .pure _
  | read file offset count => exact keeps_read.bind fun _ => .pure _
  | write file offset buf => exact keeps_write.bind fun _ => .pure _

theorem mounted_neat : mounted.Neat := by
  intro d e hc
  rw [mounted_contents] at hc
  by_cases hd : d = 0
  · rw [hd, Function.update_self] at hc
    cases hc
    refine (tidy_empty.update (Nat.le_of_ble_eq_true rfl) ?_).update (Nat.le_of_ble_eq_true rfl) ?_
    · exact fun _ _ _ _ => (List.cons_ne_nil _ _).symm
    · intro _ j _ _
      by_cases hj : j = 0
      · rw [hj, Function.update_self]
        simp
      · rw [Function.update_of_ne hj]
        exact (List.cons_ne_nil _ _).symm
  · rw [Function.update_of_ne hd] at hc
    cases hc

variable {P : Fs → Call → Prop} {history : List Event}

/-- Whatever calls are made, the directories are tidy. -/
theorem CallRun.neat (hrun : CallRun P mounted s history) : s.Neat := by
  induction hrun with
  | start => exact mounted_neat
  | call _ hmade _ hcall ih => exact Call.keeps hmade _ ih _ _ hcall

/-! ### Listings -/

theorem mem_liveFrom {d : Vfs.Dirent} : d ∈ liveFrom e 0 ramfsMaxDirent ↔
    ∃ j, j < 128 ∧ (e j).rdName ≠ [] ∧ d = ⟨(e j).rdIno, 0, (e j).rdName⟩ := by
  rw [liveFrom, List.mem_map]
  apply exists_congr
  intro j
  rw [List.mem_filter, List.mem_range'_1, and_assoc]
  have hrange : 0 ≤ j ∧ j < 0 + ramfsMaxDirent ↔ j < 128 := by
    simp only [ramfsMaxDirent]
    omega
  have hlive : (!(e j).rdName.isEmpty) = true ↔ (e j).rdName ≠ [] := by
    simp
  rw [hrange, hlive]
  exact and_congr_right fun _ => and_congr_right fun _ => eq_comm

/-- The listing of a tidy directory has each name once, with the inode that a look-up finds. -/
theorem Tidy.listing (h : Tidy e) (hc : s.contents dir = some (.dir e)) :
    ((liveFrom e 0 ramfsMaxDirent).map Vfs.Dirent.dName).Nodup ∧
      ∀ name n, name ≠ [] → (s.found dir name = some n ↔
        (⟨n, 0, name⟩ : Vfs.Dirent) ∈ liveFrom e 0 ramfsMaxDirent) := by
  constructor
  · rw [liveFrom, List.map_map, List.nodup_map_iff_inj_on ((List.nodup_range' 1).filter _)]
    intro i hi j hj hname
    rw [List.mem_filter, List.mem_range'_1] at hi hj
    refine h.distinct i j (by simpa using hi.1) (by simpa using hj.1) hname ?_
    simpa using hi.2
  · intro name n hne
    rw [mem_liveFrom, Fs.found, hc]
    constructor
    · intro hfound
      obtain ⟨i, hfind, rfl⟩ := Option.map_eq_some_iff.mp hfound
      obtain ⟨hlt, hmatch⟩ := findEntry_some hfind
      obtain rfl := nameMatch_iff.mp hmatch
      exact ⟨i, hlt, hne, rfl⟩
    · rintro ⟨j, hj, hlive, heq⟩
      obtain ⟨rfl, -, rfl⟩ := Vfs.Dirent.mk.inj heq
      cases hfind : findEntry e fun x => nameMatch x.rdName (e j).rdName with
      | none =>
          have hfalse := findEntry_none hfind hj
          rw [nameMatch_iff.mpr rfl] at hfalse
          cases hfalse
      | some i =>
          obtain ⟨hlt, hmatch⟩ := findEntry_some hfind
          have hname := nameMatch_iff.mp hmatch
          obtain rfl := h.distinct i j hlt hj hname (hname ▸ hne)
          simp only [hfind, Option.map_some]

variable {files : Vfs.FileState} {fd : Int} {p : Nat}

/-- The root directory is open for reading. -/
def openedRoot : Vfs.FileState where
  pFiles := fun _ => some 0
  files := fun _ => ⟨1, 0, 1, some 0⟩
  vnLen := fun _ => 0
  isDir := fun _ => true

theorem openedRoot_opened : Opened openedRoot 0 0 0 :=
  ⟨by decide, rfl, by decide, by decide, by decide, rfl, by decide, fun _ => ⟨rfl, rfl⟩⟩

end CodingSample.Ramfs
