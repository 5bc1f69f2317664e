import CodingSample.S5fs.Writing

/-!
# Pages in core were looked up

A page is brought into core by a look-up in the block map of its file, which allocates the indirect
block if the page needs it. So the way to the block of a page in core is there.
-/

namespace CodingSample.S5fs

open Prog

def S5.PagesReached (s : S5) : Prop :=
  ∀ ino v, s.vnodes ino = some v → ∀ n ∈ v.vnRespages, Reaches s ino n

variable {D : Multiset UInt32} {s s' s₀ : S5} {ino n : Nat} {v : Vnode}

namespace S5.PagesReached

/-- A step that brings no page in and takes no indirect block away. -/
theorem step (h : s.PagesReached) (hstep : ∀ i v', s'.vnodes i = some v' → ∃ v,
    s.vnodes i = some v ∧ (∀ n ∈ v'.vnRespages, n ∈ v.vnRespages) ∧
      ((s.inodes i).s5IndirectBlock ≠ 0 → (s'.inodes i).s5IndirectBlock ≠ 0)) :
    s'.PagesReached := by
  intro i v' hv' n hn
  obtain ⟨v, hv, hpages, hind⟩ := hstep i v' hv'
  exact (h i v hv n (hpages n hn)).imp_right hind

theorem setVnode (h : s.PagesReached) (hv : s.vnodes ino = some v) {w : Vnode}
    (hpages : ∀ n ∈ w.vnRespages, n ∈ v.vnRespages) :
    (s.setVnode ino (some w)).PagesReached := by
  apply h.step
  intro i v' hv'
  by_cases hi : i = ino
  · subst hi
    rw [S5.vnodes_setVnode_self] at hv'
    cases hv'
    exact ⟨v, hv, hpages, id⟩
  · rw [S5.vnodes_setVnode_of_ne hi] at hv'
    exact ⟨v', hv', fun _ hn => hn, id⟩

/-- A step on the inodes and the block device. -/
theorem of_vnodes (h : s.PagesReached) (hvnodes : s'.vnodes = s.vnodes)
    (hind : ∀ i, s.vnodes i ≠ none → (s.inodes i).s5IndirectBlock ≠ 0 →
      (s'.inodes i).s5IndirectBlock ≠ 0) : s'.PagesReached := by
  apply h.step
  intro i v' hv'
  rw [hvnodes] at hv'
  refine ⟨v', hv', fun _ hn => hn, hind i ?_⟩
  rw [hv']
  exact Option.some_ne_none v'

theorem grew {P : Nat → Prop} (h : s.PagesReached) (hgrew : Grew ino P s s')
    (hvnodes : s'.vnodes = s.vnodes) : s'.PagesReached := by
  apply h.of_vnodes hvnodes
  intro i _ hind
  by_cases hi : i = ino
  · subst hi
    rw [hgrew.indirect hind]
    exact hind
  · rw [hgrew.others i hi]
    exact hind

theorem clearVnode (h : s.PagesReached) (ino : Nat) : (s.setVnode ino none).PagesReached := by
  apply h.step
  intro i v' hv'
  by_cases hi : i = ino
  · subst hi
    rw [S5.vnodes_setVnode_self] at hv'
    cases hv'
  · rw [S5.vnodes_setVnode_of_ne hi] at hv'
    exact ⟨v', hv', fun _ hn => hn, id⟩

/-- A step that changes inodes only in what is not the block map. -/
theorem of_indirect (h : s.PagesReached) (hvnodes : s'.vnodes = s.vnodes)
    (hind : ∀ i, (s'.inodes i).s5IndirectBlock = (s.inodes i).s5IndirectBlock) :
    s'.PagesReached := by
  apply h.of_vnodes hvnodes
  intro i _ hne
  rw [hind i]
  exact hne

theorem setInode (h : s.PagesReached) {i : Inode}
    (hsame : i.s5IndirectBlock = (s.inodes ino).s5IndirectBlock) :
    (s.setInode ino i).PagesReached := by
  have hvnodes : (s.setInode ino i).vnodes = s.vnodes := rfl
  apply h.of_indirect hvnodes
  intro j
  by_cases hj : j = ino
  · subst hj
    rw [S5.inodes_setInode_self, hsame]
  · rw [S5.inodes_setInode_of_ne hj]

end S5.PagesReached

variable [BlockDev]

theorem S5.PagesReached.get (h : s.PagesReached) (hinv : PageInv D s) (hn : n < 524288)
    (hheld : s.Held ino) : wlp (pframeGet ino n) (fun _ s' => s'.PagesReached) s := by
  obtain ⟨v, hv, hrefs⟩ := hheld
  by_cases hmode : v.vnMode = .reg ∨ v.vnMode = .dir
  · have hfile := hinv.heldFile hv hmode hrefs
    obtain ⟨r, s', hrun, hout⟩ := wp_pframeGet hfile hn
    refine wlp_of_wp ⟨r, s', hrun, ?_⟩
    rcases hout with ⟨-, -, rfl⟩ | ⟨-, -, -, rfl⟩ | ⟨hpage, hmax, -, rfl, hloaded⟩
    · exact h
    · exact h.setVnode hv fun _ hm => hm
    · have hreach := wlp_pframeGet_reaches hfile hpage hmax _ _ hrun rfl
      intro i v' hv' m hm
      rw [hloaded.vnodes] at hv'
      by_cases hi : i = ino
      · subst hi
        rw [Function.update_self] at hv'
        cases hv'
        rcases List.mem_cons.mp hm with rfl | hm
        · exact hreach
        · refine (h i v hv m hm).imp_right fun hind => ?_
          rw [hloaded.grew.indirect hind]
          exact hind
      · rw [Function.update_of_ne hi] at hv'
        refine (h i v' hv' m hm).imp_right fun hind => ?_
        rw [hloaded.grew.others i hi]
        exact hind
  · refine wlp_pframeGet_special hv hmode ?_
    intro hpage
    have hok := hinv.vnode ino v hv
    exact hmode (hok.mode (hok.page n hpage).1)

theorem S5.PagesReached.dirty (h : s.PagesReached) (hinv : PageInv D s) :
    wlp (pframeDirty ino n) (fun _ s' => s'.PagesReached) s := by
  by_cases hres : ∃ v, s.vnodes ino = some v ∧ n ∈ v.vnRespages
  · obtain ⟨v, hv, hpage⟩ := hres
    have hok := hinv.vnode ino v hv
    obtain ⟨hfile, hmax, hdirty⟩ := hok.page n hpage
    have hat : FileAt D 0 ino s := ⟨hinv.books.accounted, hok.lt, hfile⟩
    refine wlp_of_wp (wp_mono (wp_pframeDirty hat hv (hok.mode hfile) hpage hmax hdirty) ?_)
    rintro r s' (⟨-, -, -, hgrew, hvnodes⟩ | ⟨-, -, hdirtied⟩)
    · exact h.grew hgrew hvnodes
    · have h1 : (s.setVnode ino (some (v.setFrame n
          { v.vnFrame n with dirty := true }))).PagesReached := h.setVnode hv fun _ hm => hm
      have hgrew : Grew ino (· = n) (s.setVnode ino (some (v.setFrame n
          { v.vnFrame n with dirty := true }))) s' :=
        ⟨hdirtied.grew.super, hdirtied.grew.inode, hdirtied.grew.others, hdirtied.grew.mapped,
          hdirtied.grew.disk, hdirtied.grew.fileBlock, hdirtied.grew.indirect, hdirtied.grew.page,
          hdirtied.grew.node, hdirtied.grew.synced⟩
      exact h1.grew hgrew hdirtied.vnodes
  · unfold pframeDirty
    rw [wlp_bind]
    apply wlp_getVnode
    intro v hv
    rw [decide_eq_false fun hpage => hres ⟨v, hv, hpage⟩]
    exact wlp_bind.mpr (wlp_fail.mpr trivial)

theorem PagesReached.vputKeeps (D : Multiset UInt32) (ino : Nat) :
    VputKeeps ino (fun s => PageInv D s ∧ s.PagesReached) := by
  have hinv := PageInv.vputKeeps D ino
  refine ⟨?_, ?_, ?_⟩
  · intro s v n h hv
    exact ⟨hinv.unlink s v n h.1 hv, h.2.setVnode hv fun m hm => List.mem_of_mem_erase hm⟩
  · intro s v r h hv
    exact ⟨hinv.refcount s v r h.1 hv, h.2.setVnode hv fun _ hm => hm⟩
  · intro s v h hv hpages
    have hdelete := hinv.delete s v h.1 hv hpages
    intro r s' hrun
    refine ⟨hdelete r s' hrun, ?_⟩
    have hok := h.1.vnode ino v hv
    set i := { s.inodes ino with s5Linkcount := toInt16 ((s.inodes ino).s5Linkcount - 1) } with hi
    have h1 : PageInv D (s.setInode ino i) := h.1.setInode hok _ _
    have hok1 := h1.vnode ino v hv
    have hreached1 : (s.setInode ino i).PagesReached := h.2.setInode rfl
    have hkeeps : wlp (s5fsDeleteVnode ino)
        (fun _ s' => (s'.setVnode ino none).PagesReached) s := by
      unfold s5fsDeleteVnode
      rw [wlp_bind, wlp_get, wlp_bind, setLinkcount, wlp_modify, wlp_bind, wlp_get, wlp_bind,
        kassert, wlp_check]
      intro _
      split
      · refine wlp_of_wp (wp_mono (wp_s5FreeInode h1.books.accounted hok1.lt hok1.ne_free) ?_)
        rintro _ s2 ⟨-, hfreed⟩
        apply hreached1.step
        intro j w hw
        by_cases hj : j = ino
        · subst hj
          rw [S5.vnodes_setVnode_self] at hw
          cases hw
        · rw [S5.vnodes_setVnode_of_ne hj, hfreed.vnodes] at hw
          refine ⟨w, hw, fun _ hm => hm, fun hind => ?_⟩
          change (s2.inodes j).s5IndirectBlock ≠ 0
          rw [hfreed.others j hj]
          exact hind
      · exact wlp_pure.mpr (hreached1.clearVnode ino)
    exact hkeeps r s' hrun

/-- Every call keeps it. -/
theorem wlp_pageCall_reached (h : PageInv D s ∧ s.PagesReached) {c : PageCall}
    (hmade : c.Made s) : wlp c.run (fun _ s' => s'.PagesReached) s := by
  obtain ⟨hinv, hreached⟩ := h
  have hunit {m : K Unit} (hm : wlp m (fun _ s' => s'.PagesReached) s) :
      wlp (m >>= fun _ => pure (0 : Int)) (fun _ s' => s'.PagesReached) s :=
    wlp_bind_of hm fun _ s' hs' => wlp_pure.mpr hs'
  cases c with
  | get ino n => exact hreached.get hinv hmade.1 hmade.2
  | write ino n f =>
      refine wlp_bind_of (Q := fun _ s' => PageInv D s' ∧ s'.PagesReached) ?_
        fun _ s1 h1 => h1.2.dirty h1.1
      apply wlp_pokePage
      intro v hv _
      exact ⟨hinv.setFrame hv fun hd _ => hd, hreached.setVnode hv fun _ hm => hm⟩
  | clean ino n =>
      refine wlp_mono (wlp_clean_cleaned hinv) ?_
      rintro r s' ⟨-, v, hv, -, -, hcleaned⟩
      have h1 : (s.setVnode ino (some (v.setFrame n
          { v.vnFrame n with dirty := false }))).PagesReached :=
        hreached.setVnode hv fun _ hm => hm
      refine h1.of_indirect hcleaned.vnodes fun i => ?_
      rw [hcleaned.inodes]
      rfl
  | free ino n =>
      apply hunit
      refine wlp_bind_of (wlp_pframeUnlink (PagesReached.vputKeeps D ino) ⟨hinv, hreached⟩) ?_
      intro _ s' hs'
      exact wlp_mono (wlp_vput (PagesReached.vputKeeps D ino) hs') fun _ _ h2 => h2.2
  | cleanBdev b =>
      apply hunit
      refine wlp_pframeCleanBdev hreached ?_
      intro p _ _
      exact hreached.of_indirect rfl fun _ => rfl
  | freeBdev b =>
      apply hunit
      exact wlp_pframeFreeBdev (hreached.of_indirect rfl fun _ => rfl)
  | vref ino =>
      apply hunit
      refine wlp_vref ?_
      intro v hv
      exact hreached.setVnode hv fun _ hm => hm
  | vget ino =>
      apply hunit
      cases hv : s.vnodes ino with
      | some v =>
          have hget : S5fs.vget ino s = S5fs.vref ino s := by
            rw [S5fs.vget, bind_eq_of_ok (get_apply s), hv]
          have hvref : wlp (S5fs.vref ino) (fun _ s' => s'.PagesReached) s :=
            wlp_vref fun w hw => hreached.setVnode hw fun _ hm => hm
          intro a s' hs'
          rw [hget] at hs'
          exact hvref a s' hs'
      | none =>
          refine wlp_vget_new hv ?_
          intro v hpages _ _ i w hw m hm
          by_cases hi : i = ino
          · subst hi
            rw [S5.vnodes_setVnode_self] at hw
            cases hw
            rw [hpages] at hm
            exact absurd hm List.not_mem_nil
          · rw [S5.vnodes_setVnode_of_ne hi] at hw
            refine (hreached i w hw m hm).imp_right fun hind => ?_
            change ((s.setInode ino _).inodes i).s5IndirectBlock ≠ 0
            rw [S5.inodes_setInode_of_ne hi]
            exact hind
  | vput ino =>
      apply hunit
      exact wlp_mono (wlp_vput (PagesReached.vputKeeps D ino) ⟨hinv, hreached⟩) fun _ _ h2 => h2.2
  | allocInode type devid =>
      obtain ⟨free, htable⟩ := hinv.books.table
      by_cases htype : type = .free
      · unfold PageCall.run s5AllocInode
        rw [htype]
        exact wlp_bind.mpr (wlp_fail.mpr trivial)
      · refine wlp_of_wp (wp_mono (wp_s5AllocInode hinv.books.accounted htable htype devid) ?_)
        rintro r s' (⟨-, -, rfl⟩ | ⟨i, rest, rfl, -, rfl, -, -⟩)
        · exact hreached
        · -- a free inode has no vnode
          have hvnodes : (s.popInode i type devid).vnodes = s.vnodes := rfl
          apply hreached.of_vnodes hvnodes
          intro j hj hind
          obtain ⟨w, hw⟩ := Option.ne_none_iff_exists'.mp hj
          have hok := hinv.vnode j w hw
          have hne : j ≠ i := by
            rintro rfl
            exact hok.ne_free ((htable.mem_iff j hok.lt).mp List.mem_cons_self)
          have hsame : (s.popInode i type devid).inodes j = s.inodes j :=
            S5.inodes_setInode_of_ne hne
          rw [hsame]
          exact hind
  | setSize ino size =>
      apply hunit
      unfold S5fs.setSize
      rw [wlp_bind, wlp_modify]
      apply wlp_modifyVnode
      intro v hv
      have h1 : (s.setInode ino { s.inodes ino with s5Un := size }).PagesReached :=
        hreached.setInode rfl
      exact h1.setVnode hv fun _ hm => hm
  | setLinkcount ino links =>
      apply hunit
      unfold S5fs.setLinkcount
      rw [wlp_modify]
      exact hreached.setInode rfl

theorem PageRun.pagesReached {P : S5 → PageCall → Prop} (hrun : PageRun P s₀ s)
    (hP : ∀ s c, P s c → c.Made s) (hinv : PageInv D s₀) (h : s₀.PagesReached) :
    s.PagesReached := by
  induction hrun with
  | start => exact h
  | call hbefore hc hcall ih =>
      exact wlp_pageCall_reached ⟨hbefore.pageInv hP hinv, ih⟩ (hP _ _ hc) _ _ hcall

/-- A file held in a state some calls lead to. -/
theorem PageRun.fileHeld (hstart : Mounted D s₀) (hrun : PageRun (fun s c => c.Made s) s₀ s)
    (hv : s.vnodes ino = some v) (hmode : v.vnMode = .reg ∨ v.vnMode = .dir)
    (hheld : v.vnNrespages < v.vnRefcount) (hlen : v.vnLen = (s.inodes ino).s5Size)
    (hsmall : (s.inodes ino).s5Size ≤ s5MaxFileSize) : FileHeld D ino v s := by
  have hinv : PageInv D s := hrun.pageInv (fun _ _ hc => hc) hstart.pageInv
  have hnone : s₀.PagesReached := by
    intro i w hw
    rw [hstart.vnodes] at hw
    cases hw
  exact ⟨hinv, hinv.heldFile hv hmode hheld,
    hrun.pagesReached (fun _ _ hc => hc) hstart.pageInv hnone ino v hv, hlen, hsmall⟩

end CodingSample.S5fs
