import CodingSample.S5fs.Ownership
import CodingSample.S5fs.PageInv

/-!
# Runs of page operations

The operations on the pages of S5 files and on the pages of the block device, in any order, with
files coming into core, leaving it and being freed in between.
-/

namespace CodingSample.S5fs

open Prog

inductive PageCall where
  | get (ino n : Nat)
  /-- Write to the memory of a resident page, then `pframe_dirty`. -/
  | write (ino n : Nat) (f : Block → Block)
  | clean (ino n : Nat)
  | free (ino n : Nat)
  | cleanBdev (b : UInt32)
  | freeBdev (b : UInt32)
  | vref (ino : Nat)
  | vget (ino : Nat)
  | vput (ino : Nat)
  | allocInode (type : S5Type) (devid : UInt32)
  | setSize (ino size : Nat)
  | setLinkcount (ino : Nat) (links : Int)

/-- The vnode has a reference that is not one of its pages. -/
def S5.Held (s : S5) (ino : Nat) : Prop :=
  ∃ v, s.vnodes ino = some v ∧ v.vnNrespages < v.vnRefcount

/-- When the kernel makes the call. A page is looked up by an offset of type `off_t` in a file
someone holds, and the page daemon frees a page of the block device once it is clean. -/
def PageCall.Made (s : S5) : PageCall → Prop
  | .get ino n => n < 524288 ∧ s.Held ino
  | .freeBdev b => s.bdevDirty b = false
  | .setLinkcount ino _ => s.Held ino
  | .write .. | .clean .. | .free .. | .cleanBdev _ | .vref _ | .vget _ | .vput _ |
    .allocInode .. | .setSize .. => True

/-- `s5_size` and `vn_len` are set together. -/
def setSize (ino size : Nat) : K Unit := do
  modify fun s => s.setInode ino { s.inodes ino with s5Un := size }
  modifyVnode ino fun v => { v with vnLen := toInt32 (UInt32.ofNat size) }

variable [BlockDev]

def PageCall.run : PageCall → K Int
  | .get ino n => pframeGet ino n
  | .write ino n f => pokePage ino n f >>= fun _ => pframeDirty ino n
  | .clean ino n => pframeClean ino n
  | .free ino n => pframeFree ino n >>= fun _ => pure 0
  | .cleanBdev b => pframeCleanBdev b >>= fun _ => pure 0
  | .freeBdev b => pframeFreeBdev b >>= fun _ => pure 0
  | .vref ino => S5fs.vref ino >>= fun _ => pure 0
  | .vget ino => S5fs.vget ino >>= fun _ => pure 0
  | .vput ino => S5fs.vput ino >>= fun _ => pure 0
  | .allocInode type devid => s5AllocInode type devid
  | .setSize ino size => S5fs.setSize ino size >>= fun _ => pure 0
  | .setLinkcount ino links => S5fs.setLinkcount ino links >>= fun _ => pure 0

/-- `PageRun P s₀ s`: calls that meet `P` in the state they are made in lead from `s₀` to `s`. -/
inductive PageRun (P : S5 → PageCall → Prop) (s₀ : S5) : S5 → Prop
  | start : PageRun P s₀ s₀
  | call {s s' : S5} {c : PageCall} {r : Int} : PageRun P s₀ s → P s c →
      c.run s = .ok (r, s') → PageRun P s₀ s'

variable {D : Multiset UInt32} {nodes : List UInt32} {free : List Nat} {s s' s₀ : S5}
  {ino n : Nat} {v : Vnode}

/-! ### Vnode teardown -/

/-- What `vput` keeps: it takes pages from a vnode, drops references, and in the end deletes a
vnode without pages. -/
structure VputKeeps (ino : Nat) (I : S5 → Prop) : Prop where
  unlink : ∀ s v n, I s → s.vnodes ino = some v →
    I (s.setVnode ino (some { v with vnRespages := v.vnRespages.erase n }))
  refcount : ∀ s v r, I s → s.vnodes ino = some v →
    I (s.setVnode ino (some { v with vnRefcount := r }))
  delete : ∀ s v, I s → s.vnodes ino = some v → v.vnRespages = [] →
    wlp (s5fsDeleteVnode ino) (fun _ s' => I (s'.setVnode ino none)) s

omit [BlockDev] in
theorem wlp_getVnode {Q : Vnode → S5 → Prop} (h : ∀ v, s.vnodes ino = some v → Q v s) :
    wlp (getVnode ino) Q s := by
  unfold getVnode
  rw [wlp_bind, wlp_get]
  cases hv : s.vnodes ino with
  | none => exact wlp_fail.mpr trivial
  | some v => exact wlp_pure.mpr (h v hv)

omit [BlockDev] in
theorem wlp_modifyVnode {f : Vnode → Vnode} {Q : Unit → S5 → Prop}
    (h : ∀ v, s.vnodes ino = some v → Q () (s.setVnode ino (some (f v)))) :
    wlp (modifyVnode ino f) Q s := by
  unfold modifyVnode
  rw [wlp_bind]
  apply wlp_getVnode
  intro v hv
  exact wlp_modify.mpr (h v hv)

variable {I : S5 → Prop}

omit [BlockDev] in
theorem wlp_pframeUnlink [BlockDev] (hk : VputKeeps ino I) (h : I s) :
    wlp (pframeUnlink ino n) (fun _ s' => I s') s := by
  unfold pframeUnlink
  rw [wlp_bind]
  apply wlp_getVnode
  intro v hv
  rw [wlp_bind, wlp_check]
  intro _
  apply wlp_modifyVnode
  intro w hw
  exact hk.unlink s w n h hw

theorem wlp_vputDrop (hk : VputKeeps ino I) (h : I s) :
    wlp (vputDrop ino) (fun _ s' => I s') s := by
  unfold vputDrop
  rw [wlp_bind]
  apply wlp_modifyVnode
  intro v hv
  have h1 := hk.refcount s v (v.vnRefcount - 1) h hv
  rw [wlp_bind]
  apply wlp_getVnode
  intro w hw
  split
  · exact wlp_pure.mpr h1
  · rw [wlp_bind, kassert, wlp_check]
    intro _
    rw [wlp_bind, kassert, wlp_check]
    intro hpages
    have hnil : w.vnRespages = [] := by
      simpa [Vnode.vnNrespages] using hpages
    rw [wlp_bind]
    refine wlp_mono (hk.delete _ w h1 hw hnil) ?_
    intro _ s2 h2
    exact wlp_modify.mpr h2

theorem wlp_vputWithin (hk : VputKeeps ino I) (fuel : Nat) (h : I s) :
    wlp (vputWithin fuel ino) (fun _ s' => I s') s := by
  induction fuel generalizing s with
  | zero => exact wlp_fail.mpr trivial
  | succ fuel ih =>
      rw [vputWithin]
      refine wlp_bind_of (Q := fun _ s' => I s') ?_ fun _ s' h' => wlp_vputDrop hk h'
      unfold vputEvict
      rw [wlp_bind]
      apply wlp_getVnode
      intro v _
      rw [wlp_bind, kassert, wlp_check]
      intro _
      rw [wlp_bind, s5fsQueryVnode, wlp_bind, wlp_get, wlp_pure]
      split
      · refine wlp_bind_of (Q := fun _ s' => I s') ?_ ?_
        · refine wlp_each (I := fun _ s' => I s') h fun m rest t ht => ?_
          exact wlp_bind_of (wlp_pframeUnlink hk ht) fun _ t' ht' => ih ht'
        · intro _ s1 h1
          rw [wlp_bind]
          apply wlp_getVnode
          intro w _
          rw [wlp_bind, kassert, wlp_check]
          intro _
          rw [kassert, wlp_check]
          exact fun _ => h1
      · exact wlp_pure.mpr h

theorem wlp_vput (hk : VputKeeps ino I) (h : I s) : wlp (vput ino) (fun _ s' => I s') s := by
  unfold vput
  rw [wlp_bind]
  apply wlp_getVnode
  intro v _
  exact wlp_vputWithin hk _ h

theorem PageInv.vputKeeps (D : Multiset UInt32) (ino : Nat) : VputKeeps ino (PageInv D) := by
  refine ⟨?_, ?_, ?_⟩
  · intro s v n h hv
    exact h.unlink hv
  · intro s v r h hv
    exact h.setRefcount hv r
  · intro s v h hv _
    have hok := h.vnode ino v hv
    set i := { s.inodes ino with s5Linkcount := toInt16 ((s.inodes ino).s5Linkcount - 1) } with hi
    have h1 : PageInv D (s.setInode ino i) := h.setInode hok _ _
    have hok1 : VnodeOk (s.setInode ino i) ino v := h1.vnode ino v hv
    unfold s5fsDeleteVnode
    rw [wlp_bind, wlp_get, wlp_bind, setLinkcount, wlp_modify, wlp_bind, wlp_get, wlp_bind,
      kassert, wlp_check]
    intro _
    split
    · refine wlp_of_wp (wp_mono (wp_s5FreeInode h1.books.accounted hok1.lt hok1.ne_free) ?_)
      rintro _ s2 ⟨hacc, hfreed⟩
      exact h1.freed hok1 hacc hfreed
    · exact wlp_pure.mpr (h1.clearVnode ino)

/-! ### One call -/

theorem PageInv.heldFile (h : PageInv D s) (hv : s.vnodes ino = some v)
    (hmode : v.vnMode = .reg ∨ v.vnMode = .dir) (hheld : v.vnNrespages < v.vnRefcount) :
    HeldFile D ino v s := by
  have hok := h.vnode ino v hv
  exact ⟨⟨h.books.accounted, hok.lt, hok.isFile hmode⟩, hv, hmode, hheld⟩

omit [BlockDev] in
theorem VnodeOk.mode (h : VnodeOk s ino v) (hfile : (s.inodes ino).IsFile) :
    v.vnMode = .reg ∨ v.vnMode = .dir := by
  have htype := h.type
  rcases hfile with hfile | hfile
  · rw [hfile] at htype
    exact Or.inl (Option.some.inj htype).symm
  · rw [hfile] at htype
    exact Or.inr (Option.some.inj htype).symm

/-- Nothing is filled for a special file. -/
theorem wlp_pframeGet_special {Q : Int → S5 → Prop} (hv : s.vnodes ino = some v)
    (hmode : ¬ (v.vnMode = .reg ∨ v.vnMode = .dir)) (hpage : n ∉ v.vnRespages) :
    wlp (pframeGet ino n) Q s := by
  unfold pframeGet
  rw [wlp_bind]
  apply wlp_getVnode
  intro w hw
  obtain rfl : v = w := Option.some.inj (hv.symm.trans hw)
  rw [if_neg hpage, wlp_bind, pframeAlloc, vref, wlp_bind, wlp_bind]
  apply wlp_getVnode
  intro w hw
  obtain rfl : v = w := Option.some.inj (hv.symm.trans hw)
  rw [wlp_bind, kassert, wlp_check]
  intro _
  apply wlp_modifyVnode
  intro w hw
  obtain rfl : v = w := Option.some.inj (hv.symm.trans hw)
  apply wlp_modifyVnode
  intro w hw
  rw [S5.vnodes_setVnode_self] at hw
  obtain rfl := Option.some.inj hw
  rw [wlp_bind, vreadpage, wlp_bind]
  apply wlp_getVnode
  intro w hw
  rw [S5.vnodes_setVnode_self] at hw
  obtain rfl := Option.some.inj hw
  split
  · rename_i hm
    exact absurd (Or.inl hm) hmode
  · rename_i hm
    exact absurd (Or.inr hm) hmode
  · exact wlp_fail.mpr trivial
  · exact wlp_fail.mpr trivial

theorem wlp_get_pageInv (h : PageInv D s) (hn : n < 524288) (hheld : s.Held ino) :
    wlp (pframeGet ino n) (fun _ s' => PageInv D s') s := by
  obtain ⟨v, hv, hrefs⟩ := hheld
  by_cases hmode : v.vnMode = .reg ∨ v.vnMode = .dir
  · have hfile := h.heldFile hv hmode hrefs
    refine wlp_of_wp (wp_mono (wp_pframeGet hfile hn) ?_)
    rintro r s' (⟨-, -, rfl⟩ | ⟨hpage, -, -, rfl⟩ | ⟨hpage, hmax, -, -, hloaded⟩)
    · exact h
    · exact h.setFrame hv fun hd _ => Bool.noConfusion hd
    · exact h.loaded hfile hpage hmax hloaded
  · refine wlp_pframeGet_special hv hmode ?_
    intro hpage
    have hok := h.vnode ino v hv
    exact hmode (hok.mode (hok.page n hpage).1)

theorem wlp_dirty_pageInv (h : PageInv D s) :
    wlp (pframeDirty ino n) (fun _ s' => PageInv D s') s := by
  by_cases hres : ∃ v, s.vnodes ino = some v ∧ n ∈ v.vnRespages
  · obtain ⟨v, hv, hpage⟩ := hres
    have hok := h.vnode ino v hv
    obtain ⟨hfile, hmax, hdirty⟩ := hok.page n hpage
    have hat : FileAt D 0 ino s := ⟨h.books.accounted, hok.lt, hfile⟩
    refine wlp_of_wp (wp_mono (wp_pframeDirty hat hv (hok.mode hfile) hpage hmax hdirty) ?_)
    rintro r s' (⟨-, -, hacc, hgrew, hvnodes⟩ | ⟨-, -, hdirtied⟩)
    · exact h.grew hok.lt hfile hacc hgrew hvnodes
    · exact h.dirtied hv hpage hdirtied
  · unfold pframeDirty
    rw [wlp_bind]
    apply wlp_getVnode
    intro v hv
    rw [decide_eq_false fun hpage => hres ⟨v, hv, hpage⟩]
    exact wlp_bind.mpr (wlp_fail.mpr trivial)

omit [BlockDev] in
theorem wlp_pokePage {f : Block → Block} {Q : Unit → S5 → Prop}
    (h : ∀ v, s.vnodes ino = some v → n ∈ v.vnRespages → Q () (s.setVnode ino
      (some (v.setFrame n { v.vnFrame n with data := f (v.vnFrame n).data })))) :
    wlp (pokePage ino n f) Q s := by
  unfold pokePage
  rw [wlp_bind]
  apply wlp_getVnode
  intro v hv
  rw [wlp_bind, wlp_check]
  intro hpage
  apply wlp_modifyVnode
  intro w hw
  obtain rfl : v = w := Option.some.inj (hv.symm.trans hw)
  exact h v hv (of_decide_eq_true hpage)

/-- Cleaning goes ahead only on a resident, dirty page, and then writes exactly its block. -/
theorem wlp_clean_cleaned (h : PageInv D s) :
    wlp (pframeClean ino n) (fun r s' => r = 0 ∧ ∃ v, s.vnodes ino = some v ∧
      n ∈ v.vnRespages ∧ s.fileBlock ino n ≠ 0 ∧ Cleaned ino n v s s') s := by
  by_cases hres : ∃ v, s.vnodes ino = some v ∧ n ∈ v.vnRespages ∧ (v.vnFrame n).dirty = true
  · obtain ⟨v, hv, hpage, hd⟩ := hres
    have hok := h.vnode ino v hv
    obtain ⟨hfile, hmax, hdirty⟩ := hok.page n hpage
    have hat : FileAt D 0 ino s := ⟨h.books.accounted, hok.lt, hfile⟩
    refine wlp_of_wp (wp_mono
      (wp_pframeClean hat hv (hok.mode hfile) hpage hmax hd (hdirty hd)) ?_)
    rintro r s' ⟨hr, hcleaned⟩
    exact ⟨hr, v, hv, hpage, hdirty hd, hcleaned⟩
  · unfold pframeClean
    rw [wlp_bind]
    apply wlp_getVnode
    intro v hv
    rw [wlp_bind, wlp_check]
    intro hpage
    rw [wlp_bind, kassert, wlp_check]
    intro hd
    exact absurd ⟨v, hv, of_decide_eq_true hpage, hd⟩ hres

omit [BlockDev] in
theorem bdevPage {b : UInt32} (hdirty : s.bdevDirty b = true) :
    ∃ p, s.bdev b = some p ∧ p.dirty = true := by
  unfold S5.bdevDirty at hdirty
  cases hp : s.bdev b with
  | none => simp [hp] at hdirty
  | some p => exact ⟨p, rfl, by simpa [hp] using hdirty⟩

/-- The two outcomes of cleaning a page of the block device. -/
theorem wlp_pframeCleanBdev {b : UInt32} {Q : Unit → S5 → Prop} (hsame : Q () s)
    (h : ∀ p, s.bdev b = some p → p.dirty = true →
      Q () ((s.setBdev b (some { p with dirty := false })).setDisk b p.data)) :
    wlp (pframeCleanBdev b) Q s := by
  unfold pframeCleanBdev
  rw [wlp_bind, wlp_get]
  cases hp : s.bdev b with
  | none => exact wlp_fail.mpr trivial
  | some p =>
      rw [wlp_bind, kassert, wlp_check]
      intro hdirty
      split
      · exact wlp_modify.mpr (h p hp hdirty)
      · exact wlp_pure.mpr hsame

omit [BlockDev] in
theorem wlp_pframeFreeBdev {b : UInt32} {Q : Unit → S5 → Prop} (h : Q () (s.setBdev b none)) :
    wlp (pframeFreeBdev b) Q s := by
  unfold pframeFreeBdev
  rw [wlp_bind, wlp_get]
  cases s.bdev b with
  | none => exact wlp_fail.mpr trivial
  | some p => exact wlp_modify.mpr h

omit [BlockDev] in
theorem wlp_vref {Q : Unit → S5 → Prop} (h : ∀ v, s.vnodes ino = some v →
    Q () (s.setVnode ino (some { v with vnRefcount := v.vnRefcount + 1 }))) :
    wlp (vref ino) Q s := by
  unfold vref
  rw [wlp_bind]
  apply wlp_getVnode
  intro v hv
  rw [wlp_bind, kassert, wlp_check]
  intro _
  apply wlp_modifyVnode
  exact h

omit [BlockDev] in
/-- A vnode brought into core has no pages yet. -/
theorem wlp_vget_new {Q : Unit → S5 → Prop} (hnone : s.vnodes ino = none)
    (h : ∀ v, v.vnRespages = [] → ino < s.super.s5sNumInodes →
      (s.inodes ino).s5Type.vnMode = some v.vnMode →
      Q () ((s.setInode ino { s.inodes ino with
        s5Linkcount := toInt16 ((s.inodes ino).s5Linkcount + 1) }).setVnode ino (some v))) :
    wlp (vget ino) Q s := by
  unfold vget
  rw [wlp_bind, wlp_get, hnone]
  simp only []
  unfold s5fsReadVnode
  rw [wlp_bind, wlp_bind, wlp_get, wlp_bind, wlp_check]
  intro hino
  rw [wlp_bind, setLinkcount, wlp_modify]
  cases hmode : (s.inodes ino).s5Type.vnMode with
  | none => exact wlp_fail.mpr trivial
  | some mode =>
      rw [wlp_pure, wlp_modify]
      exact h _ rfl (of_decide_eq_true hino) hmode

omit [BlockDev] in
theorem vnMode_ne_none {i : Inode} {m : VnMode} (h : i.s5Type.vnMode = some m) :
    i.s5Type ≠ .free := by
  intro hfree
  rw [hfree] at h
  simp [S5Type.vnMode] at h

theorem PageInv.readVnode (h : PageInv D s) (hino : ino < s.super.s5sNumInodes)
    (hmode : (s.inodes ino).s5Type.vnMode = some v.vnMode) (hpages : v.vnRespages = [])
    (links : Int) :
    PageInv D ((s.setInode ino { s.inodes ino with s5Linkcount := links }).setVnode ino
      (some v)) := by
  have hok : VnodeOk s ino { v with vnRespages := [] } :=
    ⟨hino, hmode, List.nodup_nil, fun _ hn => absurd hn (List.not_mem_nil)⟩
  have h1 := h.setInode hok (s.inodes ino).s5Un links
  apply h1.setVnode
  refine ⟨hino, ?_, hpages ▸ List.nodup_nil, fun n hn => ?_⟩
  · rw [S5.inodes_setInode_self]
    exact hmode
  · rw [hpages] at hn
    exact absurd hn (List.not_mem_nil)

theorem PageInv.popInode (h : PageInv D s) {rest : List Nat} (htable : InodeTable (ino :: rest) s)
    {type : S5Type} (htype : type ≠ .free) (devid : UInt32) :
    PageInv D (s.popInode ino type devid) := by
  refine ⟨h.books.popInode htable htype devid, ?_⟩
  intro j w hw
  have hok := h.vnode j w hw
  have hne : j ≠ ino := by
    rintro rfl
    exact hok.ne_free ((htable.mem_iff j hok.lt).mp List.mem_cons_self)
  have hsame : (s.popInode ino type devid).inodes j = s.inodes j := S5.inodes_setInode_of_ne hne
  refine hok.of_same rfl (by rw [hsame]) ?_
  intro _ m _ hblock
  rw [S5.fileBlock_congr (s := s) hsame]
  · exact hblock
  · intro _
    rfl

/-- Every call keeps the invariant of the page cache. -/
theorem wlp_pageCall (h : PageInv D s) {c : PageCall} (hmade : c.Made s) :
    wlp c.run (fun _ s' => PageInv D s') s := by
  have hunit {m : K Unit} (hm : wlp m (fun _ s' => PageInv D s') s) :
      wlp (m >>= fun _ => pure (0 : Int)) (fun _ s' => PageInv D s') s :=
    wlp_bind_of hm fun _ s' hs' => wlp_pure.mpr hs'
  cases c with
  | get ino n => exact wlp_get_pageInv h hmade.1 hmade.2
  | write ino n f =>
      refine wlp_bind_of (Q := fun _ s' => PageInv D s') ?_ fun _ s1 h1 => wlp_dirty_pageInv h1
      apply wlp_pokePage
      intro v hv _
      exact h.setFrame hv fun hd _ => hd
  | clean ino n =>
      refine wlp_mono (wlp_clean_cleaned h) ?_
      rintro r s' ⟨-, v, hv, hpage, hne, hcleaned⟩
      exact h.cleaned hv hpage hne hcleaned
  | free ino n =>
      apply hunit
      exact wlp_bind_of (wlp_pframeUnlink (PageInv.vputKeeps D ino) h) fun _ s' hs' =>
        wlp_vput (PageInv.vputKeeps D ino) hs'
  | cleanBdev b =>
      apply hunit
      refine wlp_pframeCleanBdev h ?_
      intro p hp _
      exact h.writeOut hp
  | freeBdev b =>
      apply hunit
      exact wlp_pframeFreeBdev (h.dropBdev hmade)
  | vref ino =>
      apply hunit
      refine wlp_vref ?_
      intro v hv
      exact h.setRefcount hv _
  | vget ino =>
      apply hunit
      cases hv : s.vnodes ino with
      | some v =>
          have hget : S5fs.vget ino s = S5fs.vref ino s := by
            rw [S5fs.vget, bind_eq_of_ok (get_apply s), hv]
          have hvref : wlp (S5fs.vref ino) (fun _ s' => PageInv D s') s :=
            wlp_vref fun w hw => h.setRefcount hw _
          intro a s' hs'
          rw [hget] at hs'
          exact hvref a s' hs'
      | none =>
          refine wlp_vget_new hv ?_
          intro v hpages hino hmode
          exact h.readVnode hino hmode hpages _
  | vput ino =>
      apply hunit
      exact wlp_vput (PageInv.vputKeeps D ino) h
  | allocInode type devid =>
      obtain ⟨free, htable⟩ := h.books.table
      by_cases htype : type = .free
      · unfold PageCall.run s5AllocInode
        rw [htype]
        exact wlp_bind.mpr (wlp_fail.mpr trivial)
      · refine wlp_of_wp (wp_mono (wp_s5AllocInode h.books.accounted htable htype devid) ?_)
        rintro r s' (⟨-, -, rfl⟩ | ⟨i, rest, rfl, -, rfl, -, -⟩)
        · exact h
        · exact h.popInode htable htype devid
  | setSize ino size =>
      apply hunit
      unfold S5fs.setSize
      rw [wlp_bind, wlp_modify]
      apply wlp_modifyVnode
      intro v hv
      have h1 := h.setInode (h.vnode ino v hv) size (s.inodes ino).s5Linkcount
      have hok := h1.vnode ino v hv
      exact h1.setVnode ⟨hok.lt, hok.type, hok.nodup, hok.page⟩
  | setLinkcount ino links =>
      apply hunit
      unfold S5fs.setLinkcount
      rw [wlp_modify]
      obtain ⟨v, hv, -⟩ := hmade
      exact h.setInode (h.vnode ino v hv) _ _

/-! ### Whole runs -/

theorem PageRun.pageInv {P : S5 → PageCall → Prop} (hrun : PageRun P s₀ s)
    (hP : ∀ s c, P s c → c.Made s) (h : PageInv D s₀) : PageInv D s := by
  induction hrun with
  | start => exact h
  | call _ hc hcall ih => exact wlp_pageCall ih (hP _ _ hc) _ _ hcall

/-- A file system just mounted: nothing is cached yet. -/
structure Mounted (D : Multiset UInt32) (s : S5) : Prop where
  ledger : ∃ nodes, Ledger D 0 nodes s
  table : ∃ free, InodeTable free s
  bdev : ∀ b, s.bdev b = none
  vnodes : ∀ i, s.vnodes i = none

theorem Mounted.pageInv (h : Mounted D s) : PageInv D s := by
  have hsync (c : UInt32) : s.Synced c := by
    intro _
    rw [S5.bview, h.bdev]
  refine ⟨⟨h.ledger, h.table, fun c _ => hsync c, fun j _ _ _ => hsync _⟩, ?_⟩
  intro i v hv
  rw [h.vnodes] at hv
  cases hv

def S5.DirtyPage (s : S5) (ino n : Nat) : Prop :=
  ∃ v, s.vnodes ino = some v ∧ n ∈ v.vnRespages ∧ (v.vnFrame n).dirty = true

theorem PageInv.dirty_ne_zero (h : PageInv D s) (hd : s.DirtyPage ino n) :
    s.fileBlock ino n ≠ 0 := by
  obtain ⟨v, hv, hpage, hdirty⟩ := hd
  exact ((h.vnode ino v hv).page n hpage).2.2 hdirty

theorem PageInv.dirty_inj (h : PageInv D s) {ino' n' : Nat} (hd : s.DirtyPage ino n)
    (hd' : s.DirtyPage ino' n') (heq : s.fileBlock ino n = s.fileBlock ino' n') :
    ino = ino' ∧ n = n' := by
  obtain ⟨nodes, hl⟩ := h.books.accounted
  have hne := h.dirty_ne_zero hd
  obtain ⟨v, hv, hpage, -⟩ := hd
  obtain ⟨v', hv', hpage', -⟩ := hd'
  have hok := h.vnode ino v hv
  have hok' := h.vnode ino' v' hv'
  obtain ⟨hfile, hmax, -⟩ := hok.page n hpage
  obtain ⟨hfile', hmax', -⟩ := hok'.page n' hpage'
  exact hl.fileBlock_inj hok.lt hok'.lt hfile hfile' hmax hmax' hne heq

/-- A clean leaves the superblock and the other pages of all files as they are on the disk. -/
theorem PageInv.cleaned_disk (h : PageInv D s) (hv : s.vnodes ino = some v)
    (hpage : n ∈ v.vnRespages) (hne : s.fileBlock ino n ≠ 0) (hcleaned : Cleaned ino n v s s') :
    s'.disk 0 = s.disk 0 ∧ ∀ j < s.super.s5sNumInodes, (s.inodes j).IsFile →
      ∀ m < s5MaxFileBlocks, ¬ (j = ino ∧ m = n) → s'.fileView j m = s.fileView j m := by
  obtain ⟨nodes, hl⟩ := h.books.accounted
  have hok := h.vnode ino v hv
  obtain ⟨hfile, hmax, -⟩ := hok.page n hpage
  refine ⟨?_, ?_⟩
  · rw [hcleaned.disk, Function.update_of_ne hne.symm]
  · intro j hj hjfile m hm hother
    have hblock := h.fileBlock_cleaned hv hpage hne hcleaned hj hjfile m
    rw [S5.fileView, S5.fileView, hblock]
    split
    · rfl
    · rename_i hmne
      rw [hcleaned.disk, Function.update_of_ne]
      intro heq
      exact hother (hl.fileBlock_inj hj hok.lt hjfile hfile hm hmax hmne heq)

omit [BlockDev] in
theorem oneFree_mounted : @Mounted plainDev {7} oneFree :=
  @Mounted.mk plainDev _ _ ⟨[], oneFree_ledger⟩ ⟨[], oneFree_table⟩ (fun _ => rfl) fun _ => rfl

end CodingSample.S5fs
