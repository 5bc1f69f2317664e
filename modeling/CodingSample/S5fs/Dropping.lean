import CodingSample.S5fs.OpenDir

/-!
# Dropping a link

The end of `s5_remove_dirent`: the inode of the entry that was removed has one link less. It comes
to an end when the link count is right, and leaves other files alone.
-/

namespace CodingSample.S5fs

open Prog

variable {D : Multiset UInt32} {s s' s'' : S5} {ino i : Nat} {v w : Vnode}

theorem toInt16_of_range {n : Int} (hlow : -32768 ≤ n) (hhigh : n < 32768) : toInt16 n = n := by
  rw [toInt16]
  split <;> omega

variable [BlockDev]

/-! ### Putting a vnode -/

/-- The last reference to a vnode goes. -/
theorem wp_s5fsDeleteVnode (h : PageInv D s) (hv : s.vnodes i = some w)
    (hlinks : 1 ≤ (s.inodes i).s5Linkcount) (hbound : (s.inodes i).s5Linkcount < 32768) :
    wp (s5fsDeleteVnode i) (fun _ _ => True) s := by
  have hok := h.vnode i w hv
  set t := s.setInode i { s.inodes i with
    s5Linkcount := toInt16 ((s.inodes i).s5Linkcount - 1) } with ht
  have hcount : (t.inodes i).s5Linkcount = (s.inodes i).s5Linkcount - 1 := by
    rw [ht, S5.inodes_setInode_self]
    exact toInt16_of_range (by omega) (by omega)
  have h1 : PageInv D t := h.setInode hok _ _
  have hok1 : VnodeOk t i w := h1.vnode i w hv
  unfold s5fsDeleteVnode
  rw [wp_bind, wp_get, wp_bind, setLinkcount, wp_modify, wp_bind, wp_get, wp_bind, kassert,
    wp_check]
  refine ⟨decide_eq_true (by rw [hcount]; omega), ?_⟩
  split
  · exact wp_mono (wp_s5FreeInode h1.books.accounted hok1.lt hok1.ne_free) fun _ _ _ => trivial
  · exact wp_pure.mpr trivial

theorem wp_vputDrop (h : PageInv D s) (hv : s.vnodes i = some w)
    (hrefs : 1 < w.vnRefcount ∨ w.vnRefcount = 1 ∧ w.vnRespages = [])
    (hlinks : 1 ≤ (s.inodes i).s5Linkcount) (hbound : (s.inodes i).s5Linkcount < 32768) :
    wp (vputDrop i) (fun _ _ => True) s := by
  rw [vputDrop, wp_bind, wp_of_eq (modifyVnode_apply hv _), wp_bind,
    wp_of_eq (getVnode_apply S5.vnodes_setVnode_self)]
  rcases hrefs with hmore | ⟨hlast, hpages⟩
  · rw [if_pos (by simp only []; omega)]
    exact wp_pure.mpr trivial
  · rw [if_neg (by simp only []; omega), wp_bind, kassert, wp_check]
    refine ⟨decide_eq_true (by simp only []; omega), ?_⟩
    rw [wp_bind, kassert, wp_check]
    refine ⟨decide_eq_true (by simp only [Vnode.vnNrespages, hpages]; rfl), ?_⟩
    refine wp_bind_of
      (wp_s5fsDeleteVnode (h.setRefcount hv _) S5.vnodes_setVnode_self hlinks hbound)
      fun _ _ _ => wp_modify.mpr trivial

/-- `vput` frees the pages of a vnode without a name one after another. -/
theorem wp_freePages {fuel : Nat} (h : PageInv D s) (hv : s.vnodes i = some w)
    (hrefs : w.vnRefcount = w.vnRespages.length + 1) (hfuel : w.vnRespages.length ≤ fuel) :
    wp (each (fun n => pframeUnlink i n >>= fun _ => vputWithin fuel i) w.vnRespages)
      (fun _ s' => PageInv D s' ∧ s'.inodes = s.inodes ∧ ∃ w', s'.vnodes i = some w' ∧
        w'.vnRespages = [] ∧ w'.vnRefcount = 1) s := by
  refine wp_mono (wp_each (I := fun l t => PageInv D t ∧ t.inodes = s.inodes ∧ l.length ≤ fuel ∧
    ∃ w', t.vnodes i = some w' ∧ w'.vnRespages = l ∧ w'.vnRefcount = l.length + 1)
    ⟨h, rfl, hfuel, w, hv, rfl, hrefs⟩ ?_) ?_
  · rintro n rest t ⟨ht, hinodes, hlen, w1, hw1, hpages, hcount⟩
    rw [List.length_cons] at hlen hcount
    obtain ⟨fuel, rfl⟩ : ∃ k, fuel = k + 1 := ⟨fuel - 1, by omega⟩
    set w2 := { w1 with vnRespages := w1.vnRespages.erase n } with hw2
    have herase : w2.vnRespages = rest := by
      change w1.vnRespages.erase n = rest
      rw [hpages]
      exact List.erase_cons_head n rest
    have hunlink : pframeUnlink i n t = .ok ((), t.setVnode i (some w2)) := by
      rw [pframeUnlink, bind_eq_of_ok (getVnode_apply hw1), hpages,
        decide_eq_true List.mem_cons_self, check_true, bind_eq_of_ok (pure_apply () t),
        modifyVnode_apply hw1]
    have hheld : w2.vnNrespages + 1 < w2.vnRefcount := by
      change (w2.vnRespages.length : Int) + 1 < w1.vnRefcount
      rw [herase, hcount]
      omega
    rw [wp_bind, wp_of_eq hunlink, wp_of_eq (vputWithin_of_held S5.vnodes_setVnode_self hheld fuel)]
    refine ⟨?_, hinodes, by omega, _, S5.vnodes_setVnode_self, herase, ?_⟩
    · exact (ht.unlink hw1).setRefcount S5.vnodes_setVnode_self _
    · change w1.vnRefcount - 1 = _
      omega
  · rintro _ t ⟨ht, hinodes, -, w1, hw1, hpages, hcount⟩
    exact ⟨ht, hinodes, w1, hw1, hpages, hcount⟩

/-- `vput` comes to an end. -/
theorem wp_vput (h : PageInv D s) (hv : s.vnodes i = some w) (hrefs : w.vnNrespages < w.vnRefcount)
    (hlinks : 1 ≤ (s.inodes i).s5Linkcount) (hbound : (s.inodes i).s5Linkcount < 32768) :
    wp (vput i) (fun _ _ => True) s := by
  by_cases hheld : w.vnNrespages + 1 < w.vnRefcount
  · rw [wp_of_eq (vput_of_held hv hheld)]
    trivial
  have hcount : w.vnRefcount = w.vnRespages.length + 1 := by
    simp only [Vnode.vnNrespages] at hheld hrefs
    omega
  have hquery : s5fsQueryVnode i s = .ok (decide (1 < (s.inodes i).s5Linkcount), s) := rfl
  rw [vput, wp_bind, wp_of_eq (getVnode_apply hv), vputWithin, wp_bind, vputEvict, wp_bind,
    wp_of_eq (getVnode_apply hv), wp_bind, kassert, wp_check]
  refine ⟨decide_eq_true hrefs, ?_⟩
  rw [wp_bind, wp_of_eq hquery]
  by_cases hnamed : 1 < (s.inodes i).s5Linkcount
  · rw [if_neg (by simp [hnamed]), wp_pure]
    refine wp_vputDrop h hv ?_ hlinks hbound
    by_cases hpages : w.vnRespages = []
    · refine Or.inr ⟨?_, hpages⟩
      rw [hcount, hpages]
      rfl
    · have hlen := List.length_pos_of_ne_nil hpages
      exact Or.inl (by omega)
  · rw [if_pos ⟨by rw [hcount, Vnode.vnNrespages]; omega, decide_eq_false hnamed⟩]
    refine wp_bind_of (wp_freePages h hv hcount le_rfl) ?_
    rintro _ t ⟨ht, hinodes, w1, hw1, hpages, hlast⟩
    rw [wp_bind, wp_of_eq (getVnode_apply hw1), wp_bind, kassert, wp_check]
    refine ⟨decide_eq_true (by rw [Vnode.vnNrespages, hpages]; rfl), ?_⟩
    rw [kassert, wp_check]
    refine ⟨decide_eq_true hlast, ?_⟩
    rw [← hinodes] at hlinks hbound
    exact wp_vputDrop ht hw1 (Or.inr ⟨hlast, hpages⟩) hlinks hbound

/-! ### Other files -/

/-- A step leaves file `ino` as it is, but for its link count. -/
structure Undisturbed (ino : Nat) (s s' : S5) : Prop where
  vnode : s'.vnodes ino = s.vnodes ino
  inode : s'.inodes ino = { s.inodes ino with s5Linkcount := (s'.inodes ino).s5Linkcount }
  fileView : ∀ n, s'.fileView ino n = s.fileView ino n

namespace Undisturbed

omit [BlockDev]

theorem refl (ino : Nat) (s : S5) : Undisturbed ino s s := ⟨rfl, rfl, fun _ => rfl⟩

theorem trans (h : Undisturbed ino s s') (h' : Undisturbed ino s' s'') :
    Undisturbed ino s s'' := by
  refine ⟨h'.vnode.trans h.vnode, ?_, fun n => (h'.fileView n).trans (h.fileView n)⟩
  rw [h'.inode, h.inode]

theorem size (h : Undisturbed ino s s') : (s'.inodes ino).s5Size = (s.inodes ino).s5Size := by
  rw [h.inode]
  rfl

theorem byteAt (h : Undisturbed ino s s') (pos : Nat) : s'.byteAt ino pos = s.byteAt ino pos := by
  rw [S5.byteAt, S5.byteAt, S5.content, S5.content, h.vnode, h.fileView]

theorem dirents (h : Undisturbed ino s s') : s'.dirents ino = s.dirents ino := by
  have hcount : s'.direntCount ino = s.direntCount ino := by
    rw [S5.direntCount, S5.direntCount, h.size]
  rw [S5.dirents, S5.dirents, hcount]
  apply List.map_congr_left
  intro k _
  exact S5.direntAt_congr fun j _ => h.byteAt _

theorem reaches (h : Undisturbed ino s s') {n : Nat} (hreach : Reaches s ino n) :
    Reaches s' ino n := by
  rw [Reaches, h.inode]
  exact hreach

theorem setVnode (hne : ino ≠ i) (w : Option Vnode) : Undisturbed ino s (s.setVnode i w) :=
  ⟨S5.vnodes_setVnode_of_ne hne, rfl, fun _ => rfl⟩

theorem setLinks (ino i : Nat) (s : S5) (links : Int) :
    Undisturbed ino s (s.setInode i { s.inodes i with s5Linkcount := links }) := by
  by_cases hi : ino = i
  · subst hi
    refine ⟨rfl, ?_, fun n => ?_⟩
    · rw [S5.inodes_setInode_self]
    · simp only [S5.fileView, S5.fileBlock, S5.inodes_setInode_self]
      rfl
  · have hsame : (s.setInode i { s.inodes i with s5Linkcount := links }).inodes ino =
        s.inodes ino := S5.inodes_setInode_of_ne hi
    refine ⟨rfl, by rw [hsame], fun n => ?_⟩
    rw [S5.fileView, S5.fileView, S5.fileBlock_congr hsame fun _ => rfl]
    rfl

end Undisturbed

theorem FileHeld.undisturbed (h : FileHeld D ino v s) (hinv : PageInv D s')
    (hkeep : Undisturbed ino s s') : FileHeld D ino v s' := by
  have hv : s'.vnodes ino = some v := hkeep.vnode.trans h.held.vnode
  refine ⟨hinv, hinv.heldFile hv h.held.mode h.held.held,
    fun n hn => hkeep.reaches (h.reached n hn), ?_, ?_⟩
  · rw [hkeep.size]
    exact h.len
  · rw [hkeep.size]
    exact h.small

/-- Freeing an inode leaves the other files alone. -/
theorem FreedInode.undisturbed (h : FileHeld D ino v s) (hok : VnodeOk s i w)
    (hfreed : FreedInode i s s') (hne : ino ≠ i) : Undisturbed ino s s' := by
  have hsame := hfreed.others ino hne
  refine ⟨by rw [hfreed.vnodes], by rw [hsame], fun n => ?_⟩
  have hblock : s'.fileBlock ino n = s.fileBlock ino n := by
    apply S5.fileBlock_congr hsame
    intro hind
    exact (h.inv.books.fileBlock_of_freed hok.lt hfreed h.held.fileAt.lt hne h.isFile _
      (indirect_mem_mapped h.isFile hind)).2
  rw [S5.fileView, S5.fileView, hblock, hfreed.disk]

/-- `vput` of another vnode leaves a file that is held alone. -/
theorem FileHeld.vputKeeps (h : FileHeld D ino v s) (hne : ino ≠ i) :
    VputKeeps i fun t => PageInv D t ∧ Undisturbed ino s t := by
  have hinv := PageInv.vputKeeps D i
  refine ⟨?_, ?_, ?_⟩
  · rintro t w n ⟨ht, hkeep⟩ hw
    exact ⟨hinv.unlink t w n ht hw, hkeep.trans (.setVnode hne _)⟩
  · rintro t w r ⟨ht, hkeep⟩ hw
    exact ⟨hinv.refcount t w r ht hw, hkeep.trans (.setVnode hne _)⟩
  · rintro t w ⟨ht, hkeep⟩ hw hpages
    have hdelete := hinv.delete t w ht hw hpages
    intro r t' hrun
    refine ⟨hdelete r t' hrun, hkeep.trans ?_⟩
    have hok := ht.vnode i w hw
    have ht1 := ht.setInode hok (t.inodes i).s5Un (toInt16 ((t.inodes i).s5Linkcount - 1))
    have hlinks := Undisturbed.setLinks ino i t (toInt16 ((t.inodes i).s5Linkcount - 1))
    have hok1 := ht1.vnode i w hw
    have hdeleted : wlp (s5fsDeleteVnode i)
        (fun _ t' => Undisturbed ino t (t'.setVnode i none)) t := by
      unfold s5fsDeleteVnode
      rw [wlp_bind, wlp_get, wlp_bind, setLinkcount, wlp_modify, wlp_bind, wlp_get, wlp_bind,
        kassert, wlp_check]
      intro _
      split
      · refine wlp_of_wp (wp_mono (wp_s5FreeInode ht1.books.accounted hok1.lt hok1.ne_free) ?_)
        rintro _ t2 ⟨-, hfreed⟩
        have hother := hfreed.undisturbed ((h.undisturbed ht hkeep).undisturbed ht1 hlinks) hok1 hne
        exact (hlinks.trans hother).trans (.setVnode hne _)
      · exact wlp_pure.mpr (hlinks.trans (.setVnode hne _))
    exact hdeleted r t' hrun

/-! ### The link count -/

/-- The link count of an inode in use has counted the entry that is gone and, in core, its
vnode. -/
structure Droppable (i : Nat) (s : S5) : Prop where
  lt : i < s.super.s5sNumInodes
  type : (s.inodes i).s5Type ≠ .free
  links : (if (s.vnodes i).isSome then 2 else 1) ≤ (s.inodes i).s5Linkcount
  bound : (s.inodes i).s5Linkcount < 32767
  refs : ∀ w, s.vnodes i = some w → 0 < w.vnRefcount ∧ w.vnNrespages ≤ w.vnRefcount

/-- The end of `s5_remove_dirent`, after the entry is gone. -/
def s5DropLink (i : Nat) : K Unit := do
  vget i
  let s ← get
  setLinkcount i ((s.inodes i).s5Linkcount - 1)
  vput i

/-- After `vget` someone holds the vnode, and the link count counts it. -/
theorem wp_vget_droppable (h : FileHeld D ino v s) (hdrop : Droppable i s) :
    wp (vget i) (fun _ s' => PageInv D s' ∧ 2 ≤ (s'.inodes i).s5Linkcount ∧
      (s'.inodes i).s5Linkcount < 32768 ∧ ∃ w, s'.vnodes i = some w ∧
        w.vnNrespages < w.vnRefcount ∧ (if ino = i then
          s' = s.setVnode ino (some { v with vnRefcount := v.vnRefcount + 1 })
          else Undisturbed ino s s')) s := by
  have hlinks := hdrop.links
  have hbound := hdrop.bound
  cases hv : s.vnodes i with
  | some w =>
      obtain ⟨hpos, hrefs⟩ := hdrop.refs w hv
      rw [hv, Option.isSome_some, if_pos rfl] at hlinks
      have hget : vget i s =
          .ok ((), s.setVnode i (some { w with vnRefcount := w.vnRefcount + 1 })) := by
        rw [vget, bind_eq_of_ok (get_apply s), hv]
        simp only []
        rw [vref, bind_eq_of_ok (getVnode_apply hv), kassert, decide_eq_true hpos, check_true,
          bind_eq_of_ok (pure_apply () s), modifyVnode_apply hv]
      rw [wp_of_eq hget]
      refine ⟨h.inv.setRefcount hv _, hlinks, by exact lt_trans hbound (by decide), _,
        S5.vnodes_setVnode_self, Int.lt_add_one_of_le hrefs, ?_⟩
      split
      · rename_i heq
        subst heq
        obtain rfl : v = w := Option.some.inj (h.held.vnode.symm.trans hv)
        rfl
      · rename_i hne
        exact .setVnode hne _
  | none =>
      have hne : ino ≠ i := by
        rintro rfl
        rw [h.held.vnode] at hv
        cases hv
      rw [hv, Option.isSome_none, if_neg Bool.false_ne_true] at hlinks
      obtain ⟨mode, hmode⟩ : ∃ mode, (s.inodes i).s5Type.vnMode = some mode := by
        cases htype : (s.inodes i).s5Type with
        | free => exact absurd htype hdrop.type
        | data => exact ⟨_, rfl⟩
        | dir => exact ⟨_, rfl⟩
        | chr => exact ⟨_, rfl⟩
        | blk => exact ⟨_, rfl⟩
      have hcount : toInt16 ((s.inodes i).s5Linkcount + 1) = (s.inodes i).s5Linkcount + 1 :=
        toInt16_of_range (by omega) (by omega)
      rw [vget, wp_bind, wp_get, hv]
      simp only []
      rw [s5fsReadVnode, wp_bind, wp_bind, wp_get, wp_bind, wp_check]
      refine ⟨decide_eq_true hdrop.lt, ?_⟩
      rw [wp_bind, setLinkcount, wp_modify, hmode]
      simp only []
      rw [wp_pure, wp_modify]
      have hself : ((s.setInode i { s.inodes i with
          s5Linkcount := toInt16 ((s.inodes i).s5Linkcount + 1) }).inodes i).s5Linkcount =
            (s.inodes i).s5Linkcount + 1 := by
        rw [S5.inodes_setInode_self, hcount]
      refine ⟨h.inv.readVnode hdrop.lt hmode rfl _, ?_, ?_, _, S5.vnodes_setVnode_self,
        Int.zero_lt_one, ?_⟩
      · exact hself.symm ▸ (by omega)
      · exact hself.symm ▸ (by omega)
      · rw [if_neg hne]
        exact (Undisturbed.setLinks ino i s _).trans (.setVnode hne _)

/-- **Dropping a link** comes to an end and leaves a file that is held alone. -/
theorem wp_s5DropLink (h : FileHeld D ino v s) (hdrop : Droppable i s) :
    wp (s5DropLink i) (fun _ s' => PageInv D s' ∧ Undisturbed ino s s') s := by
  rw [s5DropLink]
  refine wp_bind_of (wp_vget_droppable h hdrop) ?_
  rintro _ s1 ⟨h1, hlinks, hbound, w, hw, hrefs, hkeep⟩
  rw [wp_bind, wp_get, wp_bind, setLinkcount, wp_modify]
  set s2 := s1.setInode i { s1.inodes i with
    s5Linkcount := toInt16 ((s1.inodes i).s5Linkcount - 1) } with hs2
  have hok := h1.vnode i w hw
  have h2 : PageInv D s2 := h1.setInode hok _ _
  have hcount : (s2.inodes i).s5Linkcount = (s1.inodes i).s5Linkcount - 1 := by
    rw [hs2, S5.inodes_setInode_self]
    exact toInt16_of_range (by omega) (by omega)
  have hset : Undisturbed ino s1 s2 := .setLinks ino i s1 _
  by_cases hi : ino = i
  · subst hi
    rw [if_pos rfl] at hkeep
    have hw' : w = { v with vnRefcount := v.vnRefcount + 1 } := by
      rw [hkeep, S5.vnodes_setVnode_self] at hw
      exact (Option.some.inj hw).symm
    have hheld : w.vnNrespages + 1 < w.vnRefcount := by
      have hv := h.held.held
      rw [hw']
      simp only [Vnode.vnNrespages] at hv ⊢
      omega
    have hput := vput_of_held (s := s2) (v := w) hw hheld
    rw [wp_of_eq hput]
    refine ⟨h2.setRefcount hw _, ?_⟩
    have hback : ({ w with vnRefcount := w.vnRefcount - 1 } : Vnode) = v := by
      rw [hw', add_sub_cancel_right]
    rw [hback]
    refine ⟨?_, ?_, fun n => ?_⟩
    · rw [S5.vnodes_setVnode_self, h.held.vnode]
    · have hinode := hset.inode
      rw [hkeep] at hinode
      exact hinode
    · have hview := hset.fileView n
      rw [hkeep] at hview
      exact hview
  · rw [if_neg hi] at hkeep
    have hboth := hkeep.trans hset
    obtain ⟨_, s3, hput, -⟩ := wp_vput h2 hw hrefs (by omega) (by omega)
    have hkeeps := wlp_vput (h.vputKeeps hi) ⟨h2, hboth⟩ _ _ hput
    rw [wp_of_eq hput]
    exact hkeeps

end CodingSample.S5fs
