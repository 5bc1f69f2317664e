import CodingSample.S5fs.PageCache

/-!
# The invariant of the page cache

Below the vnodes the books are kept: every block has one place, and a page of the block device
that is not dirty agrees with the disk wherever the file system keeps its own data. Above them,
a vnode has pages only of its own file, and a dirty page has a block to be written to.
-/

namespace CodingSample.S5fs

open Prog

variable [BlockDev] {D t : Multiset UInt32} {nodes : List UInt32} {s s' : S5} {ino j n : Nat}
  {v w : Vnode}

structure Books (D : Multiset UInt32) (s : S5) : Prop where
  accounted : Accounted D 0 s
  table : ∃ free, InodeTable free s
  nodes : ∀ c, s.IsNode c → s.Synced c
  indirect : ∀ j < s.super.s5sNumInodes, (s.inodes j).IsFile →
    (s.inodes j).s5IndirectBlock ≠ 0 → s.Synced (s.inodes j).s5IndirectBlock

omit [BlockDev] in
theorem S5.Synced.congr {c : UInt32} (h : s.Synced c) (hview : s'.bview c = s.bview c)
    (hdirty : s'.bdevDirty c = s.bdevDirty c) (hdisk : s'.disk c = s.disk c) : s'.Synced c := by
  intro hclean
  rw [hview, hdisk]
  exact h (hdirty.symm.trans hclean)

omit [BlockDev] in
theorem S5.bview_congr {c : UInt32} (hbdev : s'.bdev c = s.bdev c)
    (hdisk : s'.disk c = s.disk c) : s'.bview c = s.bview c := by
  rw [bview, bview, hbdev, hdisk]

/-- The books see the block device only through the free-list nodes and the indirect blocks. -/
theorem Ledger.of_view (h : Ledger D t nodes s) (hsuper : s'.super = s.super)
    (hinodes : s'.inodes = s.inodes) (hnode : ∀ c ∈ nodes, s'.bview c = s.bview c)
    (hind : ∀ j < s.super.s5sNumInodes, (s.inodes j).IsFile →
      (s.inodes j).s5IndirectBlock ≠ 0 →
        s'.bview (s.inodes j).s5IndirectBlock = s.bview (s.inodes j).s5IndirectBlock)
    (huncached : s'.bdev noBlock = none) : Ledger D t nodes s' := by
  have hagree : FreeList.Agree 29 nodes s.freeList s'.freeList := by
    refine ⟨?_, ?_, ?_⟩
    · change s'.super.s5sNfree = s.super.s5sNfree
      rw [hsuper]
    · intro i _
      change s'.super.s5sFreeBlocks i = s.super.s5sFreeBlocks i
      rw [hsuper]
    · intro c hc i _
      exact congrArg (Block.word · i) (hnode c hc)
  have hmapped : allMapped s' = allMapped s := by
    unfold allMapped
    rw [hsuper, hinodes]
    apply Finset.sum_congr rfl
    intro j hj
    apply mapped_congr
    exact hind j (Finset.mem_range.mp hj)
  refine ⟨hsuper ▸ h.region, hagree.wf h.wf, ?_, huncached⟩
  rw [hagree.listed h.wf, hmapped]
  exact h.total

namespace Books

theorem setVnode (h : Books D s) (i : Nat) (w : Option Vnode) : Books D (s.setVnode i w) := by
  refine ⟨h.accounted.setVnode i w, ?_, h.nodes, h.indirect⟩
  obtain ⟨free, htable⟩ := h.table
  exact ⟨free, htable.number, htable.bound, htable.chain, htable.nodup, htable.lt,
    htable.mem_iff⟩

theorem of_view (h : Books D s) (hsuper : s'.super = s.super) (hinodes : s'.inodes = s.inodes)
    (hnode : ∀ c, s.IsNode c → s'.bview c = s.bview c ∧ s'.Synced c)
    (hind : ∀ j < s.super.s5sNumInodes, (s.inodes j).IsFile →
      (s.inodes j).s5IndirectBlock ≠ 0 →
        s'.bview (s.inodes j).s5IndirectBlock = s.bview (s.inodes j).s5IndirectBlock ∧
          s'.Synced (s.inodes j).s5IndirectBlock)
    (huncached : s'.bdev noBlock = none) : Books D s' := by
  obtain ⟨nodes, hl⟩ := h.accounted
  have hl' : Ledger D 0 nodes s' := by
    apply hl.of_view hsuper hinodes _ _ huncached
    · intro c hc
      exact (hnode c (hl.isNode_iff.mpr hc)).1
    · intro j hj hfile hne
      exact (hind j hj hfile hne).1
  refine ⟨⟨nodes, hl'⟩, ?_, ?_, ?_⟩
  · obtain ⟨free, htable⟩ := h.table
    refine ⟨free, htable.congr ?_ ?_ ?_ ?_ ?_⟩
    · rw [hsuper]
    · rw [hsuper]
    · intro i
      rw [hinodes]
    · intro i
      rw [hinodes]
    · intro i _
      rw [hinodes]
  · intro c hc
    exact (hnode c (hl.isNode_iff.mpr (hl'.isNode_iff.mp hc))).2
  · intro j hj hfile hne
    rw [hsuper] at hj
    rw [hinodes] at hfile hne ⊢
    exact (hind j hj hfile hne).2

theorem grew {P : Nat → Prop} (h : Books D s) (hino : ino < s.super.s5sNumInodes)
    (hfile : (s.inodes ino).IsFile) (hacc : Accounted D 0 s') (hgrew : Grew ino P s s') :
    Books D s' := by
  obtain ⟨free, htable⟩ := h.table
  obtain ⟨nodes', hl'⟩ := id hacc
  refine ⟨hacc, ⟨free, htable.grew hgrew⟩, ?_, ?_⟩
  · intro c hc
    obtain ⟨hold, hview, hdirty, hdisk⟩ := hgrew.node c hc
    exact (h.nodes c hold).congr hview hdirty hdisk
  · intro j hj hjfile hne
    by_cases hji : j = ino
    · subst hji
      exact hgrew.synced (fun hind => h.indirect j hino hfile hind) hne
    · have hsame := hgrew.others j hji
      have hfile' : (s'.inodes ino).IsFile := (hgrew.isFile_iff ino).mpr hfile
      have hdiff : (s.inodes j).s5IndirectBlock ≠ (s'.inodes ino).s5IndirectBlock := by
        intro heq
        have hne' : (s'.inodes ino).s5IndirectBlock ≠ 0 := by
          rw [← heq, ← hsame]
          exact hne
        apply hl'.indirect_ne (hgrew.numInodes ▸ hino) hj hfile' hjfile hne' hji
        rw [hsame]
        exact heq
      rw [hgrew.numInodes] at hj
      rw [hsame] at hjfile hne ⊢
      have hmem := Ledger.indirect_mem hj hjfile hne
      obtain ⟨hview, hdirty⟩ := hgrew.page _ hmem hdiff
      exact (h.indirect j hj hjfile hne).congr hview hdirty (hgrew.disk _ hmem)

theorem numInodes_bound (h : Books D s) : s.super.s5sNumInodes ≤ noBlock.toNat := by
  obtain ⟨free, htable⟩ := h.table
  exact htable.bound

/-- Freeing an inode leaves the other files as they are. -/
theorem fileBlock_of_freed (h : Books D s) (hino : ino < s.super.s5sNumInodes)
    (hfreed : FreedInode ino s s') (hj : j < s.super.s5sNumInodes) (hne : j ≠ ino) :
    (s.inodes j).IsFile → ∀ c ∈ mapped s.bview (s.inodes j),
      s'.bdev c = s.bdev c ∧ s'.bview c = s.bview c := by
  intro _ c hc
  obtain ⟨nodes, hl⟩ := h.accounted
  have hfresh : c ∉ mapped s.bview (s.inodes ino) :=
    Multiset.disjoint_left.mp (hl.disjoint_mapped hj hino hne) hc
  have hbdev := hfreed.bdev c hfresh
  exact ⟨hbdev, S5.bview_congr hbdev (congrFun hfreed.disk c)⟩

theorem freed (h : Books D s) (hino : ino < s.super.s5sNumInodes)
    (htype : (s.inodes ino).s5Type ≠ .free) (hacc : Accounted D 0 s')
    (hfreed : FreedInode ino s s') : Books D s' := by
  obtain ⟨free, htable⟩ := h.table
  refine ⟨hacc, ⟨_, htable.freed hino htype hfreed⟩, ?_, ?_⟩
  · intro c hc
    rcases hfreed.node c hc with hdirty | ⟨hold, hbdev⟩
    · intro hclean
      rw [hdirty] at hclean
      exact Bool.noConfusion hclean
    · have hdisk := congrFun hfreed.disk c
      exact (h.nodes c hold).congr (S5.bview_congr hbdev hdisk) (S5.bdevDirty_congr hbdev) hdisk
  · intro j hj hjfile hne
    have hnum : s'.super.s5sNumInodes = s.super.s5sNumInodes := by rw [hfreed.super]
    rw [hnum] at hj
    have hji : j ≠ ino := by
      rintro rfl
      rw [hfreed.inode] at hne
      exact hne rfl
    rw [hfreed.others j hji] at hjfile hne ⊢
    obtain ⟨hbdev, hview⟩ := h.fileBlock_of_freed hino hfreed hj hji hjfile _
      (indirect_mem_mapped hjfile hne)
    exact (h.indirect j hj hjfile hne).congr hview (S5.bdevDirty_congr hbdev)
      (congrFun hfreed.disk _)

/-- Changing what an inode says besides its block map. -/
theorem setInode (h : Books D s) (hino : ino < s.super.s5sNumInodes)
    (htype : (s.inodes ino).s5Type ≠ .free) (un : Nat) (links : Int) :
    Books D (s.setInode ino { s.inodes ino with s5Un := un, s5Linkcount := links }) := by
  obtain ⟨nodes, hl⟩ := h.accounted
  obtain ⟨free, htable⟩ := h.table
  set i := { s.inodes ino with s5Un := un, s5Linkcount := links } with hi
  have hl' : Ledger D 0 nodes (s.setInode ino i) := hl.setInode hino rfl
  have hsame (j : Nat) : ((s.setInode ino i).inodes j).s5IndirectBlock =
      (s.inodes j).s5IndirectBlock ∧ ((s.setInode ino i).inodes j).s5Type = (s.inodes j).s5Type ∧
        ((s.setInode ino i).inodes j).s5Number = (s.inodes j).s5Number := by
    by_cases hj : j = ino
    · subst hj
      rw [S5.inodes_setInode_self]
      exact ⟨rfl, rfl, rfl⟩
    · rw [S5.inodes_setInode_of_ne hj]
      exact ⟨rfl, rfl, rfl⟩
  refine ⟨⟨nodes, hl'⟩, ⟨free, htable.congr rfl rfl ?_ ?_ ?_⟩, ?_, ?_⟩
  · intro j
    exact (hsame j).2.2
  · intro j
    exact (hsame j).2.1
  · intro j hj
    have hne : j ≠ ino := by
      rintro rfl
      exact htype hj
    rw [S5.inodes_setInode_of_ne hne]
  · intro c hc
    exact h.nodes c hc
  · intro j hj hfile hne
    obtain ⟨hind, hjtype, -⟩ := hsame j
    unfold Inode.IsFile at hfile
    rw [hjtype] at hfile
    rw [hind] at hne ⊢
    exact h.indirect j hj hfile hne

theorem popInode (h : Books D s) {free : List Nat} (htable : InodeTable (ino :: free) s)
    {type : S5Type} (htype : type ≠ .free) (devid : UInt32) :
    Books D (s.popInode ino type devid) := by
  have hino : ino < s.super.s5sNumInodes := htable.lt ino List.mem_cons_self
  have hfree : (s.inodes ino).s5Type = .free :=
    (htable.mem_iff ino hino).mp List.mem_cons_self
  refine ⟨h.accounted.popInode hino hfree, ⟨free, htable.popInode htype devid⟩, ?_, ?_⟩
  · intro c hc
    exact h.nodes c hc
  · intro j hj hfile hne
    by_cases hji : j = ino
    · subst hji
      have hself : (s.popInode j type devid).inodes j = { s.inodes j with
          s5Un := 0
          s5Type := type
          s5Linkcount := 0
          s5DirectBlocks := fun _ => 0
          s5IndirectBlock := if type = .chr ∨ type = .blk then devid else 0 } :=
        S5.inodes_setInode_self
      rw [hself] at hfile hne
      rcases hfile with htype' | htype' <;> simp_all
    · have hsame : (s.popInode ino type devid).inodes j = s.inodes j :=
        S5.inodes_setInode_of_ne hji
      rw [hsame] at hfile hne ⊢
      exact h.indirect j hj hfile hne

end Books

/-! ### Vnodes -/

/-- A vnode in core stands for an inode in use, and its dirty pages have blocks. -/
structure VnodeOk (s : S5) (ino : Nat) (v : Vnode) : Prop where
  lt : ino < s.super.s5sNumInodes
  type : (s.inodes ino).s5Type.vnMode = some v.vnMode
  nodup : v.vnRespages.Nodup
  page : ∀ n ∈ v.vnRespages, (s.inodes ino).IsFile ∧ n < s5MaxFileBlocks ∧
    ((v.vnFrame n).dirty = true → s.fileBlock ino n ≠ 0)

structure PageInv (D : Multiset UInt32) (s : S5) : Prop where
  books : Books D s
  vnode : ∀ ino v, s.vnodes ino = some v → VnodeOk s ino v

omit [BlockDev] in
theorem S5Type.isFile_of_vnMode {i : Inode} {m : VnMode} (h : i.s5Type.vnMode = some m)
    (hm : m = .reg ∨ m = .dir) : i.IsFile := by
  unfold Inode.IsFile
  cases htype : i.s5Type with
  | free => simp [htype, S5Type.vnMode] at h
  | data => exact Or.inl rfl
  | dir => exact Or.inr rfl
  | chr =>
      rw [htype] at h
      obtain rfl : VnMode.chr = m := Option.some.inj h
      simp at hm
  | blk =>
      rw [htype] at h
      obtain rfl : VnMode.blk = m := Option.some.inj h
      simp at hm

omit [BlockDev] in
theorem VnodeOk.isFile (h : VnodeOk s ino v) (hm : v.vnMode = .reg ∨ v.vnMode = .dir) :
    (s.inodes ino).IsFile := S5Type.isFile_of_vnMode h.type hm

omit [BlockDev] in
theorem VnodeOk.ne_free (h : VnodeOk s ino v) : (s.inodes ino).s5Type ≠ .free := by
  intro hfree
  have htype := h.type
  rw [hfree] at htype
  simp [S5Type.vnMode] at htype

omit [BlockDev] in
theorem VnodeOk.of_same (h : VnodeOk s ino v)
    (hnum : s'.super.s5sNumInodes = s.super.s5sNumInodes)
    (htype : (s'.inodes ino).s5Type = (s.inodes ino).s5Type)
    (hblock : (s.inodes ino).IsFile → ∀ n < s5MaxFileBlocks,
      s.fileBlock ino n ≠ 0 → s'.fileBlock ino n ≠ 0) : VnodeOk s' ino v := by
  refine ⟨hnum ▸ h.lt, htype ▸ h.type, h.nodup, ?_⟩
  intro n hn
  obtain ⟨hfile, hmax, hdirty⟩ := h.page n hn
  refine ⟨?_, hmax, fun hd => hblock hfile n hmax (hdirty hd)⟩
  unfold Inode.IsFile
  rw [htype]
  exact hfile

omit [BlockDev] in
theorem VnodeOk.grew {P : Nat → Prop} (h : VnodeOk s j v) (hgrew : Grew ino P s s') :
    VnodeOk s' j v := by
  have htype : (s'.inodes j).s5Type = (s.inodes j).s5Type := by
    by_cases hj : j = ino
    · subst hj
      rw [hgrew.inode]
    · rw [hgrew.others j hj]
  refine ⟨hgrew.numInodes ▸ h.lt, htype ▸ h.type, h.nodup, ?_⟩
  intro n hn
  obtain ⟨hfile, hmax, hdirty⟩ := h.page n hn
  refine ⟨(hgrew.isFile_iff j).mpr hfile, hmax, fun hd => ?_⟩
  rw [hgrew.fileBlock j h.lt hfile n fun _ _ => hdirty hd]
  exact hdirty hd

namespace PageInv

/-- A step that replaces one vnode and keeps the books. -/
theorem step (h : PageInv D s) (hbooks : Books D s') {w : Option Vnode}
    (hvnodes : s'.vnodes = Function.update s.vnodes ino w)
    (hself : ∀ v, w = some v → VnodeOk s' ino v)
    (hothers : ∀ j v, j ≠ ino → VnodeOk s j v → VnodeOk s' j v) : PageInv D s' := by
  refine ⟨hbooks, ?_⟩
  intro j v hv
  rw [hvnodes] at hv
  by_cases hj : j = ino
  · subst hj
    rw [Function.update_self] at hv
    exact hself v hv
  · rw [Function.update_of_ne hj] at hv
    exact hothers j v hj (h.vnode j v hv)

theorem setVnode (h : PageInv D s) (hok : VnodeOk s ino v) : PageInv D (s.setVnode ino (some v)) := by
  have hsame {j : Nat} {w : Vnode} (hw : VnodeOk s j w) : VnodeOk (s.setVnode ino (some v)) j w :=
    hw.of_same rfl rfl fun _ _ _ hne => hne
  refine h.step (h.books.setVnode ino _) rfl ?_ fun j w _ hw => hsame hw
  intro w hw
  cases hw
  exact hsame hok

theorem clearVnode (h : PageInv D s) (ino : Nat) : PageInv D (s.setVnode ino none) := by
  refine h.step (h.books.setVnode ino none) rfl ?_ ?_
  · intro w hw
    cases hw
  · intro j w _ hw
    exact hw.of_same rfl rfl fun _ _ _ hne => hne

theorem grew {P : Nat → Prop} (h : PageInv D s) (hino : ino < s.super.s5sNumInodes)
    (hfile : (s.inodes ino).IsFile) (hacc : Accounted D 0 s') (hgrew : Grew ino P s s')
    (hvnodes : s'.vnodes = s.vnodes) : PageInv D s' := by
  refine ⟨h.books.grew hino hfile hacc hgrew, ?_⟩
  intro j v hv
  rw [hvnodes] at hv
  exact (h.vnode j v hv).grew hgrew

theorem loaded (h : PageInv D s) (hheld : HeldFile D ino v s) (hpage : n ∉ v.vnRespages)
    (hmax : n < s5MaxFileBlocks) (hloaded : Loaded D ino n v s s') : PageInv D s' := by
  obtain ⟨hacc, hgrew, hvnodes⟩ := hloaded
  have hok := h.vnode ino v hheld.vnode
  have hfile := hheld.fileAt.isFile
  refine h.step (h.books.grew hok.lt hfile hacc hgrew) hvnodes ?_ fun j w _ hw => hw.grew hgrew
  intro w hw
  cases hw
  have hok' := hok.grew hgrew
  refine ⟨hok'.lt, hok'.type, List.nodup_cons.mpr ⟨hpage, hok.nodup⟩, ?_⟩
  intro m hm
  by_cases hmn : m = n
  · subst hmn
    refine ⟨(hgrew.isFile_iff ino).mpr hfile, hmax, fun hd => ?_⟩
    simp [Vnode.addPage, Vnode.setFrame] at hd
  · rcases List.mem_cons.mp hm with rfl | hm
    · exact absurd rfl hmn
    · obtain ⟨hmfile, hmmax, hmdirty⟩ := hok'.page m hm
      refine ⟨hmfile, hmmax, fun hd => hmdirty ?_⟩
      simpa [Vnode.addPage, Vnode.setFrame, hmn] using hd

theorem dirtied (h : PageInv D s) (hv : s.vnodes ino = some v) (hpage : n ∈ v.vnRespages)
    (hdirtied : Dirtied D ino n v s s') : PageInv D s' := by
  have hok := h.vnode ino v hv
  have hgrew := hdirtied.grew
  obtain ⟨hfile, hmax, -⟩ := hok.page n hpage
  refine h.step (h.books.grew hok.lt hfile hdirtied.accounted hgrew) hdirtied.vnodes ?_
    fun j w _ hw => hw.grew hgrew
  intro w hw
  cases hw
  have hok' := hok.grew hgrew
  refine ⟨hok'.lt, hok'.type, hok'.nodup, ?_⟩
  intro m hm
  obtain ⟨hmfile, hmmax, hmdirty⟩ := hok'.page m hm
  refine ⟨hmfile, hmmax, fun hd => ?_⟩
  by_cases hmn : m = n
  · subst hmn
    exact hdirtied.ne_zero
  · apply hmdirty
    simpa [Vnode.setFrame, hmn] using hd

/-- Writing out a page leaves the books alone: its block is neither a node of the free list nor
an indirect block. -/
theorem books_cleaned (h : PageInv D s) (hv : s.vnodes ino = some v) (hpage : n ∈ v.vnRespages)
    (hne : s.fileBlock ino n ≠ 0) (hcleaned : Cleaned ino n v s s') : Books D s' := by
  obtain ⟨nodes, hl⟩ := h.books.accounted
  have hok := h.vnode ino v hv
  obtain ⟨hfile, hmax, -⟩ := hok.page n hpage
  have hmem : s.fileBlock ino n ∈ allMapped s :=
    Ledger.mem_allMapped hok.lt (fileBlock_mem hfile hmax hne)
  have hsync {c : UInt32} (hc : c ≠ s.fileBlock ino n) (hsynced : s.Synced c) :
      s'.bview c = s.bview c ∧ s'.Synced c := by
    have hdisk : s'.disk c = s.disk c := by
      rw [hcleaned.disk, Function.update_of_ne hc]
    exact ⟨hcleaned.bview c hc, hsynced.congr (hcleaned.bview c hc) (hcleaned.dirty c) hdisk⟩
  refine h.books.of_view hcleaned.super hcleaned.inodes ?_ ?_ ?_
  · intro c hc
    apply hsync _ (h.books.nodes c hc)
    rintro rfl
    exact hl.notMem_nodes_of_mapped hmem (hl.isNode_iff.mp hc)
  · intro j hj hjfile hind
    apply hsync _ (h.books.indirect j hj hjfile hind)
    exact (hl.fileBlock_ne_indirect hj hok.lt hjfile hfile hmax hind hne).symm
  · rw [hcleaned.bdev]
    · exact hl.uncached
    · right
      intro heq
      have hind : (s.inodes ino).s5IndirectBlock ≠ 0 := by
        rw [← heq]
        decide
      exact hl.ne_noBlock (hl.mem_of_allMapped (Ledger.indirect_mem hok.lt hfile hind)) heq.symm

/-- Writing out a page changes no block map. -/
theorem fileBlock_cleaned (h : PageInv D s) (hv : s.vnodes ino = some v)
    (hpage : n ∈ v.vnRespages) (hne : s.fileBlock ino n ≠ 0) (hcleaned : Cleaned ino n v s s')
    (hj : j < s.super.s5sNumInodes) (hjfile : (s.inodes j).IsFile) (m : Nat) :
    s'.fileBlock j m = s.fileBlock j m := by
  obtain ⟨nodes, hl⟩ := h.books.accounted
  have hok := h.vnode ino v hv
  obtain ⟨hfile, hmax, -⟩ := hok.page n hpage
  apply S5.fileBlock_congr (congrFun hcleaned.inodes j)
  intro hind
  apply hcleaned.bview
  exact (hl.fileBlock_ne_indirect hj hok.lt hjfile hfile hmax hind hne).symm

theorem cleaned (h : PageInv D s) (hv : s.vnodes ino = some v) (hpage : n ∈ v.vnRespages)
    (hne : s.fileBlock ino n ≠ 0) (hcleaned : Cleaned ino n v s s') : PageInv D s' := by
  have hok := h.vnode ino v hv
  have hsame {j : Nat} {w : Vnode} (hw : VnodeOk s j w) : VnodeOk s' j w := by
    refine hw.of_same (by rw [hcleaned.super]) (by rw [hcleaned.inodes]) ?_
    intro hjfile m _ hblock
    rw [h.fileBlock_cleaned hv hpage hne hcleaned hw.lt hjfile]
    exact hblock
  refine h.step (h.books_cleaned hv hpage hne hcleaned) hcleaned.vnodes ?_
    fun j w _ hw => hsame hw
  intro w hw
  cases hw
  have hok' := hsame hok
  refine ⟨hok'.lt, hok'.type, hok'.nodup, ?_⟩
  intro m hm
  obtain ⟨hmfile, hmmax, hmdirty⟩ := hok'.page m hm
  refine ⟨hmfile, hmmax, fun hd => hmdirty ?_⟩
  by_cases hmn : m = n
  · subst hmn
    simp [Vnode.setFrame] at hd
  · simpa [Vnode.setFrame, hmn] using hd

theorem unlink (h : PageInv D s) (hv : s.vnodes ino = some v) :
    PageInv D (s.setVnode ino (some { v with vnRespages := v.vnRespages.erase n })) := by
  have hok := h.vnode ino v hv
  refine h.setVnode ⟨hok.lt, hok.type, hok.nodup.erase n, ?_⟩
  intro m hm
  exact hok.page m (List.mem_of_mem_erase hm)

theorem setRefcount (h : PageInv D s) (hv : s.vnodes ino = some v) (r : Int) :
    PageInv D (s.setVnode ino (some { v with vnRefcount := r })) := by
  have hok := h.vnode ino v hv
  exact h.setVnode ⟨hok.lt, hok.type, hok.nodup, hok.page⟩

theorem setFrame (h : PageInv D s) (hv : s.vnodes ino = some v) {p : PFrame}
    (hp : p.dirty = true → n ∈ v.vnRespages → (v.vnFrame n).dirty = true) :
    PageInv D (s.setVnode ino (some (v.setFrame n p))) := by
  have hok := h.vnode ino v hv
  refine h.setVnode ⟨hok.lt, hok.type, hok.nodup, ?_⟩
  intro m hm
  obtain ⟨hfile, hmax, hdirty⟩ := hok.page m hm
  refine ⟨hfile, hmax, fun hd => hdirty ?_⟩
  by_cases hmn : m = n
  · subst hmn
    apply hp _ hm
    simpa [Vnode.setFrame] using hd
  · simpa [Vnode.setFrame, hmn] using hd

/-- Changing the size or the link count of a file in core. -/
theorem setInode (h : PageInv D s) (hok : VnodeOk s ino v) (un : Nat) (links : Int) :
    PageInv D (s.setInode ino { s.inodes ino with s5Un := un, s5Linkcount := links }) := by
  refine ⟨h.books.setInode hok.lt hok.ne_free un links, ?_⟩
  intro j w hw
  set i := { s.inodes ino with s5Un := un, s5Linkcount := links } with hi
  have hsame : ((s.setInode ino i).inodes j).s5Type = (s.inodes j).s5Type ∧
      ∀ m, (s.setInode ino i).fileBlock j m = s.fileBlock j m := by
    unfold S5.fileBlock
    by_cases hj : j = ino
    · subst hj
      rw [S5.inodes_setInode_self]
      exact ⟨rfl, fun _ => rfl⟩
    · rw [S5.inodes_setInode_of_ne hj]
      exact ⟨rfl, fun _ => rfl⟩
  refine (h.vnode j w hw).of_same rfl hsame.1 ?_
  intro _ m _ hne
  rw [hsame.2 m]
  exact hne

/-- A step of the block device's pages that shows the books what they showed before. -/
theorem of_view (h : PageInv D s) (hsuper : s'.super = s.super) (hinodes : s'.inodes = s.inodes)
    (hvnodes : s'.vnodes = s.vnodes)
    (hview : ∀ c, s.Synced c → s'.bview c = s.bview c ∧ s'.Synced c)
    (huncached : s'.bdev noBlock = none) : PageInv D s' := by
  refine ⟨h.books.of_view hsuper hinodes ?_ ?_ huncached, ?_⟩
  · intro c hc
    exact hview c (h.books.nodes c hc)
  · intro j hj hfile hne
    exact hview _ (h.books.indirect j hj hfile hne)
  · intro j w hw
    rw [hvnodes] at hw
    have hok := h.vnode j w hw
    refine hok.of_same (by rw [hsuper]) (by rw [hinodes]) ?_
    intro hfile m _ hne
    rw [S5.fileBlock_congr (s := s) (congrFun hinodes j)]
    · exact hne
    · intro hind
      exact (hview _ (h.books.indirect j hok.lt hfile hind)).1

theorem uncached (h : PageInv D s) : s.bdev noBlock = none := by
  obtain ⟨nodes, hl⟩ := h.books.accounted
  exact hl.uncached

theorem writeOut (h : PageInv D s) {b : UInt32} {p : PFrame} (hp : s.bdev b = some p) :
    PageInv D ((s.setBdev b (some { p with dirty := false })).setDisk b p.data) := by
  set s1 := (s.setBdev b (some { p with dirty := false })).setDisk b p.data with hs1
  have hself : s1.bview b = p.data ∧ s1.disk b = p.data := by
    simp [hs1, S5.bview, S5.setDisk, S5.setBdev]
  have hother {c : UInt32} (hc : c ≠ b) : s1.bdev c = s.bdev c ∧ s1.disk c = s.disk c := by
    simp [hs1, S5.setDisk, S5.setBdev, hc]
  refine h.of_view rfl rfl rfl ?_ ?_
  · intro c hsync
    by_cases hc : c = b
    · subst hc
      refine ⟨?_, fun _ => hself.1.trans hself.2.symm⟩
      rw [hself.1, S5.bview, hp]
    · obtain ⟨hbdev, hdisk⟩ := hother hc
      have hview := S5.bview_congr hbdev hdisk
      exact ⟨hview, hsync.congr hview (S5.bdevDirty_congr hbdev) hdisk⟩
  · have hne : noBlock ≠ b := by
      rintro rfl
      rw [h.uncached] at hp
      cases hp
    rw [(hother hne).1]
    exact h.uncached

theorem dropBdev (h : PageInv D s) {b : UInt32} (hclean : s.bdevDirty b = false) :
    PageInv D (s.setBdev b none) := by
  set s1 := s.setBdev b none with hs1
  have hself : s1.bview b = s.disk b := by
    simp [hs1, S5.bview, S5.setBdev]
  refine h.of_view rfl rfl rfl ?_ ?_
  · intro c hsync
    by_cases hc : c = b
    · subst hc
      exact ⟨hself.trans (hsync hclean).symm, fun _ => hself⟩
    · have hbdev : s1.bdev c = s.bdev c := S5.bdev_setBdev_of_ne hc
      have hview := S5.bview_congr hbdev rfl
      exact ⟨hview, hsync.congr hview (S5.bdevDirty_congr hbdev) rfl⟩
  · by_cases hne : noBlock = b
    · subst hne
      exact S5.bdev_setBdev_self
    · exact (S5.bdev_setBdev_of_ne hne).trans h.uncached

/-- The vnode of a freed inode leaves the core. -/
theorem freed (h : PageInv D s) (hok : VnodeOk s ino v) (hacc : Accounted D 0 s')
    (hfreed : FreedInode ino s s') : PageInv D (s'.setVnode ino none) := by
  have hbooks := h.books.freed hok.lt hok.ne_free hacc hfreed
  refine h.step (hbooks.setVnode ino none) (by rw [← hfreed.vnodes]; rfl) ?_ ?_
  · intro w hw
    cases hw
  · intro j w hj hw
    refine hw.of_same ?_ ?_ ?_
    · change s'.super.s5sNumInodes = _
      rw [hfreed.super]
    · change (s'.inodes j).s5Type = _
      rw [hfreed.others j hj]
    · intro hjfile m _ hne
      have hblock : s'.fileBlock j m = s.fileBlock j m := by
        apply S5.fileBlock_congr (hfreed.others j hj)
        intro hind
        exact (h.books.fileBlock_of_freed hok.lt hfreed hw.lt hj hjfile _
          (indirect_mem_mapped hjfile hind)).2
      change s'.fileBlock j m ≠ 0
      rw [hblock]
      exact hne

end PageInv

end CodingSample.S5fs
