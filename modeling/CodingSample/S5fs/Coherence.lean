import CodingSample.S5fs.PageRun

/-!
# One copy of each block

The block of a file page can be cached twice, as a page of the file and as a page of the block
device. Both copies are right as long as the block device has no dirty page for it, and then
writing out all dirty pages, in any order, brings the disk to what the files read.
-/

namespace CodingSample.S5fs

open Prog

variable [BlockDev] {D : Multiset UInt32} {s s' s₀ : S5} {ino n : Nat} {v : Vnode}

structure Coherent (s : S5) : Prop where
  /-- No block of a file has a dirty page in the block device's memory object. -/
  unaliased : ∀ j < s.super.s5sNumInodes, (s.inodes j).IsFile → ∀ n < s5MaxFileBlocks,
    s.fileBlock j n ≠ 0 → s.bdevDirty (s.fileBlock j n) = false
  /-- A page that is not dirty agrees with the disk. -/
  cached : ∀ j v, s.vnodes j = some v → ∀ n ∈ v.vnRespages, (v.vnFrame n).dirty = false →
    (v.vnFrame n).data = s.fileView j n

namespace Coherent

omit [BlockDev] in
/-- A step that replaces one vnode and shows the files what they showed. -/
theorem step (h : Coherent s)
    (hfiles : ∀ j < s'.super.s5sNumInodes, (s'.inodes j).IsFile → ∀ n < s5MaxFileBlocks,
      s'.fileBlock j n ≠ 0 → s'.bdevDirty (s'.fileBlock j n) = false)
    {w : Option Vnode} (hvnodes : s'.vnodes = Function.update s.vnodes ino w)
    (hself : ∀ v, w = some v → ∀ n ∈ v.vnRespages, (v.vnFrame n).dirty = false →
      (v.vnFrame n).data = s'.fileView ino n)
    (hothers : ∀ j v, j ≠ ino → s.vnodes j = some v → ∀ n ∈ v.vnRespages,
      (v.vnFrame n).dirty = false → s'.fileView j n = s.fileView j n) : Coherent s' := by
  refine ⟨hfiles, ?_⟩
  intro j v hv n hn hclean
  rw [hvnodes] at hv
  by_cases hj : j = ino
  · subst hj
    rw [Function.update_self] at hv
    exact hself v hv n hn hclean
  · rw [Function.update_of_ne hj] at hv
    rw [h.cached j v hv n hn hclean, hothers j v hj hv n hn hclean]

omit [BlockDev] in
theorem setVnode (h : Coherent s) (hv : s.vnodes ino = some v) {w : Vnode}
    (hpages : ∀ n ∈ w.vnRespages, (w.vnFrame n).dirty = false →
      n ∈ v.vnRespages ∧ w.vnFrame n = v.vnFrame n) :
    Coherent (s.setVnode ino (some w)) := by
  refine h.step h.unaliased rfl ?_ fun _ _ _ _ _ _ _ => rfl
  intro u hu n hn hclean
  cases hu
  obtain ⟨hmem, hframe⟩ := hpages n hn hclean
  rw [hframe] at hclean ⊢
  exact h.cached ino v hv n hmem hclean

omit [BlockDev] in
theorem clearVnode (h : Coherent s) (ino : Nat) : Coherent (s.setVnode ino none) := by
  refine h.step h.unaliased rfl ?_ fun _ _ _ _ _ _ _ => rfl
  intro u hu
  cases hu

/-- Growing the map of a file aliases nothing but the block that was added. -/
theorem unaliased_grew {P : Nat → Prop} (h : Coherent s)
    (hino : ino < s.super.s5sNumInodes) (hfile : (s.inodes ino).IsFile)
    (hacc : Accounted D 0 s') (hgrew : Grew ino P s s')
    (hnew : ∀ n, P n → s.fileBlock ino n = 0 → s'.fileBlock ino n ≠ 0 →
      s'.bdevDirty (s'.fileBlock ino n) = false) :
    ∀ j < s'.super.s5sNumInodes, (s'.inodes j).IsFile → ∀ n < s5MaxFileBlocks,
      s'.fileBlock j n ≠ 0 → s'.bdevDirty (s'.fileBlock j n) = false := by
  intro j hj hjfile n hn hne
  obtain ⟨nodes', hl'⟩ := hacc
  by_cases hadded : j = ino ∧ P n ∧ s.fileBlock ino n = 0
  · obtain ⟨rfl, hP, hzero⟩ := hadded
    exact hnew n hP hzero hne
  · have hj0 : j < s.super.s5sNumInodes := hgrew.numInodes ▸ hj
    have hjfile0 : (s.inodes j).IsFile := (hgrew.isFile_iff j).mp hjfile
    have hblock : s'.fileBlock j n = s.fileBlock j n := by
      apply hgrew.fileBlock j hj0 hjfile0 n
      rintro rfl hP hzero
      exact hadded ⟨rfl, hP, hzero⟩
    have hne0 : s.fileBlock j n ≠ 0 := hblock ▸ hne
    have hmem : s.fileBlock j n ∈ allMapped s :=
      Ledger.mem_allMapped hj0 (fileBlock_mem hjfile0 hn hne0)
    have hdiff : s.fileBlock j n ≠ (s'.inodes ino).s5IndirectBlock := by
      intro heq
      have hind : (s'.inodes ino).s5IndirectBlock ≠ 0 := heq ▸ hne0
      apply hl'.fileBlock_ne_indirect (hgrew.numInodes ▸ hino) hj
        ((hgrew.isFile_iff ino).mpr hfile) hjfile hn hind hne
      rw [hblock, heq]
    rw [hblock, (hgrew.page _ hmem hdiff).2]
    exact h.unaliased j hj0 hjfile0 n hn hne0

omit [BlockDev] in
theorem fileView_grew {P : Nat → Prop} {j : Nat} (hok : VnodeOk s j v)
    (hn : n ∈ v.vnRespages) (hgrew : Grew ino P s s')
    (hne : j = ino → P n → s.fileBlock j n ≠ 0) : s'.fileView j n = s.fileView j n := by
  obtain ⟨hfile, hmax, -⟩ := hok.page n hn
  exact hgrew.fileView hok.lt hfile hmax hne

theorem grew (h : Coherent s) (hinv : PageInv D s) (hino : ino < s.super.s5sNumInodes)
    (hfile : (s.inodes ino).IsFile) (hacc : Accounted D 0 s')
    (hgrew : Grew ino (fun _ => False) s s') (hvnodes : s'.vnodes = s.vnodes) :
    Coherent s' := by
  refine ⟨h.unaliased_grew hino hfile hacc hgrew fun _ hfalse => hfalse.elim, ?_⟩
  intro j v hv n hn hclean
  rw [hvnodes] at hv
  rw [fileView_grew (hinv.vnode j v hv) hn hgrew fun _ hfalse => hfalse.elim]
  exact h.cached j v hv n hn hclean

theorem loaded (h : Coherent s) (hinv : PageInv D s) (hheld : HeldFile D ino v s)
    (hloaded : Loaded D ino n v s s') : Coherent s' := by
  obtain ⟨hacc, hgrew, hvnodes⟩ := hloaded
  have hok := hinv.vnode ino v hheld.vnode
  refine h.step (h.unaliased_grew hok.lt hheld.fileAt.isFile hacc hgrew
    fun _ hfalse => hfalse.elim) hvnodes ?_ ?_
  · intro w hw m hm hclean
    cases hw
    by_cases hmn : m = n
    · subst hmn
      simp [Vnode.addPage, Vnode.setFrame]
    · have hframe : (v.addPage n ⟨s'.fileView ino n, false⟩).vnFrame m = v.vnFrame m := by
        simp [Vnode.addPage, Vnode.setFrame, hmn]
      rw [hframe] at hclean ⊢
      have hmem : m ∈ v.vnRespages := (List.mem_cons.mp hm).resolve_left hmn
      rw [fileView_grew hok hmem hgrew fun _ hfalse => hfalse.elim]
      exact h.cached ino v hheld.vnode m hmem hclean
  · intro j w hj hw m hm _
    exact fileView_grew (hinv.vnode j w hw) hm hgrew fun _ hfalse => hfalse.elim

/-- Writing to a page and marking it dirty, where the page gets no block with a second copy. -/
theorem dirtied (h : Coherent s) (hinv : PageInv D s) (hv : s.vnodes ino = some v)
    (hpage : n ∈ v.vnRespages) {d : Block} {s1 : S5}
    (hs1 : s1 = s.setVnode ino (some (v.setFrame n { v.vnFrame n with data := d })))
    (hdirtied : Dirtied D ino n (v.setFrame n { v.vnFrame n with data := d }) s1 s')
    (hsafe : s.fileBlock ino n = 0 → (s.mapSource ino n).reusesDirty = false) : Coherent s' := by
  have hok := hinv.vnode ino v hv
  obtain ⟨hfile, hmax, -⟩ := hok.page n hpage
  have hgrew : Grew ino (· = n) s s' := (hs1 ▸ hdirtied.grew).of_setVnode
  have hvnodes : s'.vnodes = Function.update s.vnodes ino
      (some (v.setFrame n ⟨d, true⟩)) := by
    rw [hdirtied.vnodes, hs1]
    change Function.update (Function.update s.vnodes ino _) ino _ = _
    rw [Function.update_idem]
    congr 2
    simp [Vnode.setFrame]
  refine h.step (h.unaliased_grew hok.lt hfile hdirtied.accounted hgrew ?_) hvnodes ?_ ?_
  · intro m hm hzero _
    subst hm
    rw [hdirtied.fresh (by rw [hs1]; exact hzero), hs1, S5.mapSource_setVnode]
    exact hsafe hzero
  · intro w hw m hm hclean
    cases hw
    have hmn : m ≠ n := by
      rintro rfl
      simp [Vnode.setFrame] at hclean
    have hframe : (v.setFrame n ⟨d, true⟩).vnFrame m = v.vnFrame m := by
      simp [Vnode.setFrame, hmn]
    rw [hframe] at hclean ⊢
    rw [fileView_grew hok hm hgrew fun _ heq => absurd heq hmn]
    exact h.cached ino v hv m hm hclean
  · intro j w hj hw m hm _
    exact fileView_grew (hinv.vnode j w hw) hm hgrew fun heq => absurd heq hj

theorem cleaned (h : Coherent s) (hinv : PageInv D s) (hv : s.vnodes ino = some v)
    (hpage : n ∈ v.vnRespages) (hne : s.fileBlock ino n ≠ 0) (hcleaned : Cleaned ino n v s s') :
    Coherent s' := by
  have hok := hinv.vnode ino v hv
  obtain ⟨hfile, hmax, -⟩ := hok.page n hpage
  have hblock (j : Nat) (hj : j < s.super.s5sNumInodes) (hjfile : (s.inodes j).IsFile) (m : Nat) :
      s'.fileBlock j m = s.fileBlock j m :=
    hinv.fileBlock_cleaned hv hpage hne hcleaned hj hjfile m
  obtain ⟨-, hview⟩ := hinv.cleaned_disk hv hpage hne hcleaned
  refine h.step ?_ hcleaned.vnodes ?_ ?_
  · intro j hj hjfile m hm hmne
    rw [hcleaned.super] at hj
    rw [hcleaned.inodes] at hjfile
    rw [hblock j hj hjfile] at hmne ⊢
    rw [hcleaned.dirty]
    exact h.unaliased j hj hjfile m hm hmne
  · intro w hw m hm hclean
    cases hw
    by_cases hmn : m = n
    · subst hmn
      rw [S5.fileView, hblock ino hok.lt hfile, if_neg hne, hcleaned.disk, Function.update_self]
      simp [Vnode.setFrame]
    · have hframe : (v.setFrame n { v.vnFrame n with dirty := false }).vnFrame m =
          v.vnFrame m := by
        simp [Vnode.setFrame, hmn]
      rw [hframe] at hclean ⊢
      obtain ⟨-, hmmax, -⟩ := hok.page m hm
      rw [hview ino hok.lt hfile m hmmax fun heq => hmn heq.2]
      exact h.cached ino v hv m hm hclean
  · intro j w hj hw m hm _
    have hjok := hinv.vnode j w hw
    obtain ⟨hjfile, hmmax, -⟩ := hjok.page m hm
    exact hview j hjok.lt hjfile m hmmax fun heq => hj heq.1

/-- A step that shows every file the blocks it has, with their contents on the disk. -/
theorem of_files (h : Coherent s) (hinv : PageInv D s)
    (hnum : s'.super.s5sNumInodes = s.super.s5sNumInodes)
    (hvnodes : ∀ j v, s'.vnodes j = some v → s.vnodes j = some v)
    (hfile : ∀ j < s.super.s5sNumInodes, (s'.inodes j).IsFile → ∀ n < s5MaxFileBlocks,
      s'.fileBlock j n ≠ 0 → (s.inodes j).IsFile ∧ s'.fileBlock j n = s.fileBlock j n ∧
        (s.bdevDirty (s.fileBlock j n) = false →
          s'.bdevDirty (s.fileBlock j n) = false))
    (hview : ∀ j < s.super.s5sNumInodes, s'.vnodes j ≠ none → (s.inodes j).IsFile →
      ∀ n < s5MaxFileBlocks, s'.fileView j n = s.fileView j n) : Coherent s' := by
  refine ⟨?_, ?_⟩
  · intro j hj hjfile n hn hne
    rw [hnum] at hj
    obtain ⟨hjfile0, hsame, hdirty⟩ := hfile j hj hjfile n hn hne
    rw [hsame] at hne ⊢
    exact hdirty (h.unaliased j hj hjfile0 n hn hne)
  · intro j v hv n hn hclean
    have hv0 := hvnodes j v hv
    have hok := hinv.vnode j v hv0
    obtain ⟨hjfile, hmax, -⟩ := hok.page n hn
    rw [hview j hok.lt (by rw [hv]; exact Option.some_ne_none v) hjfile n hmax]
    exact h.cached j v hv0 n hn hclean

omit [BlockDev] in
theorem fileBlock_writeOut {b : UInt32} {p : PFrame} (hp : s.bdev b = some p) (j m : Nat) :
    ((s.setBdev b (some { p with dirty := false })).setDisk b p.data).fileBlock j m =
      s.fileBlock j m := by
  set s1 := (s.setBdev b (some { p with dirty := false })).setDisk b p.data with hs1
  have hview : s1.bview = s.bview := by
    funext c
    by_cases hc : c = b
    · subst hc
      simp [hs1, S5.bview, S5.setDisk, S5.setBdev, hp]
    · simp [hs1, S5.bview, S5.setDisk, S5.setBdev, hc]
  rw [S5.fileBlock, S5.fileBlock, hview]
  rfl

omit [BlockDev] in
theorem fileBlock_ne_dirty (h : Coherent s) {b : UInt32} {p : PFrame} (hp : s.bdev b = some p)
    (hdirty : p.dirty = true) {j m : Nat} (hj : j < s.super.s5sNumInodes)
    (hjfile : (s.inodes j).IsFile) (hm : m < s5MaxFileBlocks) (hne : s.fileBlock j m ≠ 0) :
    s.fileBlock j m ≠ b := by
  rintro rfl
  have hclean := h.unaliased j hj hjfile m hm hne
  rw [S5.bdevDirty, hp] at hclean
  exact Bool.noConfusion (hclean.symm.trans hdirty)

omit [BlockDev] in
theorem fileView_writeOut (h : Coherent s) {b : UInt32} {p : PFrame} (hp : s.bdev b = some p)
    (hdirty : p.dirty = true) {j m : Nat} (hj : j < s.super.s5sNumInodes)
    (hjfile : (s.inodes j).IsFile) (hm : m < s5MaxFileBlocks) :
    ((s.setBdev b (some { p with dirty := false })).setDisk b p.data).fileView j m =
      s.fileView j m := by
  rw [S5.fileView, S5.fileView, fileBlock_writeOut hp]
  split
  · rfl
  · rename_i hne
    exact Function.update_of_ne (h.fileBlock_ne_dirty hp hdirty hj hjfile hm hne) _ _

theorem writeOut (h : Coherent s) (hinv : PageInv D s) {b : UInt32} {p : PFrame}
    (hp : s.bdev b = some p) (hdirty : p.dirty = true) :
    Coherent ((s.setBdev b (some { p with dirty := false })).setDisk b p.data) := by
  refine h.of_files hinv rfl (fun _ _ hv => hv) ?_ ?_
  · intro j hj hjfile n hn hne
    rw [fileBlock_writeOut hp] at hne ⊢
    refine ⟨hjfile, rfl, fun hclean => ?_⟩
    rw [← hclean]
    apply S5.bdevDirty_congr
    exact S5.bdev_setBdev_of_ne (h.fileBlock_ne_dirty hp hdirty hj hjfile hn hne)
  · intro j hj _ hjfile n hn
    exact h.fileView_writeOut hp hdirty hj hjfile hn

theorem dropBdev (h : Coherent s) (hinv : PageInv D s) {b : UInt32}
    (hclean : s.bdevDirty b = false) : Coherent (s.setBdev b none) := by
  have hblock {j : Nat} (hj : j < s.super.s5sNumInodes) (hjfile : (s.inodes j).IsFile) (m : Nat) :
      (s.setBdev b none).fileBlock j m = s.fileBlock j m := by
    have hinode : (s.setBdev b none).inodes j = s.inodes j := rfl
    apply S5.fileBlock_congr hinode
    intro hind
    by_cases heq : (s.inodes j).s5IndirectBlock = b
    · have hsync := hinv.books.indirect j hj hjfile hind
      rw [heq] at hsync ⊢
      rw [hsync hclean]
      simp [S5.bview, S5.setBdev]
    · exact S5.bview_congr (S5.bdev_setBdev_of_ne heq) rfl
  refine h.of_files hinv rfl (fun _ _ hv => hv) ?_ ?_
  · intro j hj hjfile n hn hne
    refine ⟨hjfile, hblock hj hjfile n, fun hd => ?_⟩
    by_cases heq : s.fileBlock j n = b
    · rw [heq, S5.bdevDirty, S5.bdev_setBdev_self]
      rfl
    · rw [← hd]
      exact S5.bdevDirty_congr (S5.bdev_setBdev_of_ne heq)
  · intro j hj _ hjfile n hn
    rw [S5.fileView, S5.fileView, hblock hj hjfile]
    rfl

omit [BlockDev] in
theorem setInode (h : Coherent s) (ino un : Nat) (links : Int) :
    Coherent (s.setInode ino { s.inodes ino with s5Un := un, s5Linkcount := links }) := by
  set i := { s.inodes ino with s5Un := un, s5Linkcount := links } with hi
  have hsame (j : Nat) : ((s.setInode ino i).inodes j).s5Type = (s.inodes j).s5Type ∧
      ∀ m, (s.setInode ino i).fileBlock j m = s.fileBlock j m := by
    unfold S5.fileBlock
    by_cases hj : j = ino
    · subst hj
      rw [S5.inodes_setInode_self]
      exact ⟨rfl, fun _ => rfl⟩
    · rw [S5.inodes_setInode_of_ne hj]
      exact ⟨rfl, fun _ => rfl⟩
  refine ⟨?_, ?_⟩
  · intro j hj hjfile n hn hne
    obtain ⟨htype, hblock⟩ := hsame j
    unfold Inode.IsFile at hjfile
    rw [htype] at hjfile
    rw [hblock] at hne ⊢
    exact h.unaliased j hj hjfile n hn hne
  · intro j v hv n hn hclean
    rw [S5.fileView, (hsame j).2]
    exact h.cached j v hv n hn hclean

theorem freed (h : Coherent s) (hinv : PageInv D s) (hok : VnodeOk s ino v)
    (hfreed : FreedInode ino s s') : Coherent (s'.setVnode ino none) := by
  have hsame {j : Nat} (hj : j < s.super.s5sNumInodes) (hji : j ≠ ino)
      (hjfile : (s.inodes j).IsFile) (m : Nat) : s'.fileBlock j m = s.fileBlock j m := by
    apply S5.fileBlock_congr (hfreed.others j hji)
    intro hind
    exact (hinv.books.fileBlock_of_freed hok.lt hfreed hj hji hjfile _
      (indirect_mem_mapped hjfile hind)).2
  have hnum : s'.super.s5sNumInodes = s.super.s5sNumInodes := by rw [hfreed.super]
  have hvnodes : ∀ j v, (s'.setVnode ino none).vnodes j = some v →
      j ≠ ino ∧ s.vnodes j = some v := by
    intro j w hw
    by_cases hji : j = ino
    · subst hji
      rw [S5.vnodes_setVnode_self] at hw
      cases hw
    · rw [S5.vnodes_setVnode_of_ne hji, hfreed.vnodes] at hw
      exact ⟨hji, hw⟩
  refine h.of_files hinv hnum (fun j w hw => (hvnodes j w hw).2) ?_ ?_
  · intro j hj hjfile n hn hne
    change (s'.inodes j).IsFile at hjfile
    have hji : j ≠ ino := by
      rintro rfl
      rw [hfreed.inode] at hjfile
      rcases hjfile with hjfile | hjfile <;> cases hjfile
    rw [hfreed.others j hji] at hjfile
    have hblock := hsame hj hji hjfile n
    refine ⟨hjfile, hblock, fun hclean => ?_⟩
    change s'.fileBlock j n ≠ 0 at hne
    rw [hblock] at hne
    rw [← hclean]
    exact S5.bdevDirty_congr (hinv.books.fileBlock_of_freed hok.lt hfreed hj hji hjfile _
      (fileBlock_mem hjfile hn hne)).1
  · intro j hj hcore hjfile n _
    obtain ⟨w, hw⟩ := Option.ne_none_iff_exists'.mp hcore
    have hblock := hsame hj (hvnodes j w hw).1 hjfile n
    change s'.fileView j n = _
    rw [S5.fileView, S5.fileView, hblock, hfreed.disk]

theorem popInode (h : Coherent s) (hinv : PageInv D s) {rest : List Nat}
    (htable : InodeTable (ino :: rest) s) (type : S5Type) (devid : UInt32) :
    Coherent (s.popInode ino type devid) := by
  have hsame {j : Nat} (hji : j ≠ ino) :
      (s.popInode ino type devid).inodes j = s.inodes j := S5.inodes_setInode_of_ne hji
  have hblock {j : Nat} (hji : j ≠ ino) (m : Nat) :
      (s.popInode ino type devid).fileBlock j m = s.fileBlock j m :=
    S5.fileBlock_congr (hsame hji) (fun _ => rfl) m
  refine h.of_files hinv rfl (fun _ _ hv => hv) ?_ ?_
  · intro j hj hjfile n hn hne
    by_cases hji : j = ino
    · subst hji
      -- the new file has no block at all
      have hself : (s.popInode j type devid).inodes j = { s.inodes j with
          s5Un := 0
          s5Type := type
          s5Linkcount := 0
          s5DirectBlocks := fun _ => 0
          s5IndirectBlock := if type = .chr ∨ type = .blk then devid else 0 } :=
        S5.inodes_setInode_self
      rw [S5.fileBlock, hself] at hne
      rw [hself] at hjfile
      rcases hjfile with hjfile | hjfile <;> simp_all
    · rw [hsame hji] at hjfile
      exact ⟨hjfile, hblock hji n, id⟩
  · intro j hj hcore hjfile n _
    have hji : j ≠ ino := by
      rintro rfl
      rcases hjfile with hjfile | hjfile <;>
        rw [(htable.mem_iff j hj).mp List.mem_cons_self] at hjfile <;> cases hjfile
    rw [S5.fileView, S5.fileView, hblock hji]
    rfl

end Coherent

theorem coherent_vputKeeps (D : Multiset UInt32) (ino : Nat) :
    VputKeeps ino fun s => PageInv D s ∧ Coherent s := by
  refine ⟨?_, ?_, ?_⟩
  · rintro s v n ⟨hinv, h⟩ hv
    refine ⟨hinv.unlink hv, h.setVnode hv ?_⟩
    intro m hm _
    exact ⟨List.mem_of_mem_erase hm, rfl⟩
  · rintro s v r ⟨hinv, h⟩ hv
    refine ⟨hinv.setRefcount hv r, h.setVnode hv ?_⟩
    intro m hm _
    exact ⟨hm, rfl⟩
  · rintro s v ⟨hinv, h⟩ hv _
    have hok := hinv.vnode ino v hv
    set i := { s.inodes ino with s5Linkcount := toInt16 ((s.inodes ino).s5Linkcount - 1) } with hi
    have hinv1 : PageInv D (s.setInode ino i) := hinv.setInode hok _ _
    have h1 : Coherent (s.setInode ino i) := h.setInode _ _ _
    have hok1 : VnodeOk (s.setInode ino i) ino v := hinv1.vnode ino v hv
    unfold s5fsDeleteVnode
    rw [wlp_bind, wlp_get, wlp_bind, setLinkcount, wlp_modify, wlp_bind, wlp_get, wlp_bind,
      kassert, wlp_check]
    intro _
    split
    · refine wlp_of_wp (wp_mono (wp_s5FreeInode hinv1.books.accounted hok1.lt hok1.ne_free) ?_)
      rintro _ s2 ⟨hacc, hfreed⟩
      exact ⟨hinv1.freed hok1 hacc hfreed, h1.freed hinv1 hok1 hfreed⟩
    · exact wlp_pure.mpr ⟨hinv1.clearVnode ino, h1.clearVnode ino⟩

/-! ### Runs that keep one copy -/

/-- A write to a sparse page gets a block, and the block has no dirty page left in the block
device's memory object from the time it was an indirect block. -/
def PageCall.Safe (s : S5) : PageCall → Prop
  | .write ino n _ => s.fileBlock ino n = 0 →
      ¬ s.Lacks ino n true ∧ (s.mapSource ino n).reusesDirty = false
  | .get .. | .clean .. | .free .. | .cleanBdev _ | .freeBdev _ | .vref _ | .vget _ | .vput _ |
    .allocInode .. | .setSize .. | .setLinkcount .. => True

theorem wlp_write_coherent (hinv : PageInv D s) (h : Coherent s) {f : Block → Block}
    (hsafe : (PageCall.write ino n f).Safe s) :
    wlp (PageCall.write ino n f).run (fun _ s' => Coherent s') s := by
  unfold PageCall.run
  rw [wlp_bind]
  refine wlp_pokePage ?_
  intro v hv hpage
  have hok := hinv.vnode ino v hv
  obtain ⟨hfile, hmax, hdirty⟩ := hok.page n hpage
  set d := f (v.vnFrame n).data with hd
  set v1 := v.setFrame n { v.vnFrame n with data := d } with hv1
  set s1 := s.setVnode ino (some v1) with hs1
  have hat : FileAt D 0 ino s1 :=
    ⟨hinv.books.accounted.setVnode _ _, hok.lt, hfile⟩
  have hlacks : ¬ s1.Lacks ino n true := by
    rw [hs1, S5.lacks_setVnode]
    by_cases hzero : s.fileBlock ino n = 0
    · exact (hsafe hzero).1
    · exact not_lacks_of_ne_zero hzero true
  have hdirty1 : (v1.vnFrame n).dirty = true → s1.fileBlock ino n ≠ 0 := by
    intro hd1
    apply hdirty
    simpa [hv1, Vnode.setFrame] using hd1
  refine wlp_of_wp (wp_mono
    (wp_pframeDirty hat S5.vnodes_setVnode_self (hok.mode hfile) hpage hmax hdirty1) ?_)
  rintro r s2 (⟨hlack, -⟩ | ⟨-, -, hdirtied⟩)
  · exact absurd hlack hlacks
  · exact h.dirtied hinv hv hpage hs1 hdirtied fun hzero => (hsafe hzero).2

theorem wlp_get_coherent (hinv : PageInv D s) (h : Coherent s) (hn : n < 524288)
    (hheld : s.Held ino) : wlp (pframeGet ino n) (fun _ s' => Coherent s') s := by
  obtain ⟨v, hv, hrefs⟩ := hheld
  by_cases hmode : v.vnMode = .reg ∨ v.vnMode = .dir
  · have hfile := hinv.heldFile hv hmode hrefs
    refine wlp_of_wp (wp_mono (wp_pframeGet hfile hn) ?_)
    rintro r s' (⟨-, -, rfl⟩ | ⟨hpage, -, -, rfl⟩ | ⟨hpage, -, -, -, hloaded⟩)
    · exact h
    · refine h.setVnode hv ?_
      intro m hm _
      have hmn : m ≠ n := fun heq => hpage (heq ▸ hm)
      exact ⟨hm, by simp [Vnode.setFrame, hmn]⟩
    · exact h.loaded hinv hfile hloaded
  · refine wlp_pframeGet_special hv hmode ?_
    intro hpage
    have hok := hinv.vnode ino v hv
    exact hmode (hok.mode (hok.page n hpage).1)

/-- Every safe call keeps the one copy of each block. -/
theorem wlp_safeCall (hinv : PageInv D s) (h : Coherent s) {c : PageCall} (hmade : c.Made s)
    (hsafe : c.Safe s) : wlp c.run (fun _ s' => Coherent s') s := by
  have hunit {m : K Unit} (hm : wlp m (fun _ s' => Coherent s') s) :
      wlp (m >>= fun _ => pure (0 : Int)) (fun _ s' => Coherent s') s :=
    wlp_bind_of hm fun _ s' hs' => wlp_pure.mpr hs'
  cases c with
  | get ino n => exact wlp_get_coherent hinv h hmade.1 hmade.2
  | write ino n f => exact wlp_write_coherent hinv h hsafe
  | clean ino n =>
      refine wlp_mono (wlp_clean_cleaned hinv) ?_
      rintro r s' ⟨-, v, hv, hpage, hne, hcleaned⟩
      exact h.cleaned hinv hv hpage hne hcleaned
  | free ino n =>
      apply hunit
      refine wlp_mono (wlp_bind_of
        (wlp_pframeUnlink (coherent_vputKeeps D ino) ⟨hinv, h⟩) fun _ s' hs' =>
          wlp_vput (coherent_vputKeeps D ino) hs') ?_
      exact fun _ s' hs' => hs'.2
  | cleanBdev b =>
      apply hunit
      refine wlp_pframeCleanBdev h ?_
      intro p hp hdirty
      exact h.writeOut hinv hp hdirty
  | freeBdev b =>
      apply hunit
      exact wlp_pframeFreeBdev (h.dropBdev hinv hmade)
  | vref ino =>
      apply hunit
      refine wlp_vref ?_
      intro v hv
      exact h.setVnode hv fun m hm _ => ⟨hm, rfl⟩
  | vget ino =>
      apply hunit
      cases hv : s.vnodes ino with
      | some v =>
          have hget : S5fs.vget ino s = S5fs.vref ino s := by
            rw [S5fs.vget, bind_eq_of_ok (get_apply s), hv]
          have hvref : wlp (S5fs.vref ino) (fun _ s' => Coherent s') s :=
            wlp_vref fun w hw => h.setVnode hw fun m hm _ => ⟨hm, rfl⟩
          intro a s' hs'
          rw [hget] at hs'
          exact hvref a s' hs'
      | none =>
          refine wlp_vget_new hv ?_
          intro v hpages _ _
          have h1 := h.setInode ino (s.inodes ino).s5Un
            (toInt16 ((s.inodes ino).s5Linkcount + 1))
          refine h1.step h1.unaliased rfl ?_ fun _ _ _ _ _ _ _ => rfl
          intro w hw m hm
          cases hw
          rw [hpages] at hm
          exact absurd hm List.not_mem_nil
  | vput ino =>
      apply hunit
      exact wlp_mono (wlp_vput (coherent_vputKeeps D ino) ⟨hinv, h⟩) fun _ s' hs' => hs'.2
  | allocInode type devid =>
      obtain ⟨free, htable⟩ := hinv.books.table
      by_cases htype : type = .free
      · unfold PageCall.run s5AllocInode
        rw [htype]
        exact wlp_bind.mpr (wlp_fail.mpr trivial)
      · refine wlp_of_wp (wp_mono (wp_s5AllocInode hinv.books.accounted htable htype devid) ?_)
        rintro r s' (⟨-, -, rfl⟩ | ⟨i, rest, rfl, -, rfl, -, -⟩)
        · exact h
        · exact h.popInode hinv htable type devid
  | setSize ino size =>
      apply hunit
      unfold S5fs.setSize
      rw [wlp_bind, wlp_modify]
      apply wlp_modifyVnode
      intro v hv
      have h1 := h.setInode ino size (s.inodes ino).s5Linkcount
      exact h1.setVnode hv fun m hm _ => ⟨hm, rfl⟩
  | setLinkcount ino links =>
      apply hunit
      unfold S5fs.setLinkcount
      rw [wlp_modify]
      exact h.setInode _ _ _

def SafeRun : S5 → S5 → Prop := PageRun fun s c => c.Made s ∧ c.Safe s

theorem Mounted.coherent (h : Mounted D s) : Coherent s := by
  refine ⟨?_, ?_⟩
  · intro j _ _ n _ _
    rw [S5.bdevDirty, h.bdev]
    rfl
  · intro j v hv
    rw [h.vnodes] at hv
    cases hv

theorem SafeRun.coherent (hrun : SafeRun s₀ s) (hstart : Mounted D s₀) :
    PageInv D s ∧ Coherent s := by
  induction hrun with
  | start => exact ⟨hstart.pageInv, hstart.coherent⟩
  | call _ hc hcall ih =>
      obtain ⟨hinv, h⟩ := ih
      exact ⟨wlp_pageCall hinv hc.1 _ _ hcall, wlp_safeCall hinv h hc.1 hc.2 _ _ hcall⟩

/-! ### What the disk holds when everything is written out -/

namespace S5

/-- The block of page `n` as the disk alone tells it. -/
def diskBlock (s : S5) (ino n : Nat) : UInt32 :=
  if n < s5NdirectBlocks then
    (s.inodes ino).s5DirectBlocks n
  else if (s.inodes ino).s5IndirectBlock = 0 then
    0
  else
    (s.disk (s.inodes ino).s5IndirectBlock).word (n - s5NdirectBlocks)

/-- Page `n` of a file as the disk alone tells it. -/
def diskPage (s : S5) (ino n : Nat) : Block :=
  if s.diskBlock ino n = 0 then Block.zero else s.disk (s.diskBlock ino n)

/-- Page `n` of a file as a reader sees it. -/
def logicalPage (s : S5) (ino n : Nat) : Block :=
  match (s.vnodes ino).bind (·.page n) with
  | some p => p.data
  | none => s.fileView ino n

def AllClean (s : S5) : Prop :=
  (∀ ino n, ¬ s.DirtyPage ino n) ∧ ∀ b, s.bdevDirty b = false

omit [BlockDev] in
theorem logicalPage_of_mem (hv : s.vnodes ino = some v) (hn : n ∈ v.vnRespages) :
    s.logicalPage ino n = (v.vnFrame n).data := by
  simp [logicalPage, hv, Vnode.page, hn]

omit [BlockDev] in
theorem logicalPage_of_notMem (h : ∀ v, s.vnodes ino = some v → n ∉ v.vnRespages) :
    s.logicalPage ino n = s.fileView ino n := by
  unfold logicalPage
  cases hv : s.vnodes ino with
  | none => rfl
  | some v => simp [Vnode.page, h v hv]

end S5

def PageCall.Cleans : PageCall → Prop
  | .clean .. | .cleanBdev _ => True
  | .get .. | .write .. | .free .. | .freeBdev _ | .vref _ | .vget _ | .vput _ |
    .allocInode .. | .setSize .. | .setLinkcount .. => False

/-- Pages are written out in some order. -/
def CleanRun : S5 → S5 → Prop := PageRun fun _ c => c.Cleans

/-- The files read the same. -/
structure SameFiles (s s' : S5) : Prop where
  numInodes : s'.super.s5sNumInodes = s.super.s5sNumInodes
  isFile : ∀ j, (s'.inodes j).IsFile ↔ (s.inodes j).IsFile
  page : ∀ j < s.super.s5sNumInodes, (s.inodes j).IsFile → ∀ n < s5MaxFileBlocks,
    s'.logicalPage j n = s.logicalPage j n

omit [BlockDev] in
theorem SameFiles.refl (s : S5) : SameFiles s s := ⟨rfl, fun _ => Iff.rfl, fun _ _ _ _ _ => rfl⟩

omit [BlockDev] in
theorem SameFiles.trans {s'' : S5} (h : SameFiles s s') (h' : SameFiles s' s'') :
    SameFiles s s'' := by
  refine ⟨h'.numInodes.trans h.numInodes, fun j => (h'.isFile j).trans (h.isFile j), ?_⟩
  intro j hj hfile n hn
  rw [h'.page j (h.numInodes ▸ hj) ((h.isFile j).mpr hfile) n hn, h.page j hj hfile n hn]

theorem sameFiles_cleaned (hinv : PageInv D s) (hv : s.vnodes ino = some v)
    (hpage : n ∈ v.vnRespages) (hne : s.fileBlock ino n ≠ 0) (hcleaned : Cleaned ino n v s s') :
    SameFiles s s' := by
  obtain ⟨-, hview⟩ := hinv.cleaned_disk hv hpage hne hcleaned
  refine ⟨by rw [hcleaned.super], fun j => by rw [hcleaned.inodes], ?_⟩
  intro j hj hjfile m hm
  by_cases hji : j = ino
  · subst hji
    have hv' : s'.vnodes j = some (v.setFrame n { v.vnFrame n with dirty := false }) := by
      rw [hcleaned.vnodes, Function.update_self]
    by_cases hmem : m ∈ v.vnRespages
    · rw [S5.logicalPage_of_mem hv' hmem, S5.logicalPage_of_mem hv hmem]
      by_cases hmn : m = n
      · subst hmn
        simp [Vnode.setFrame]
      · simp [Vnode.setFrame, hmn]
    · rw [S5.logicalPage_of_notMem, S5.logicalPage_of_notMem]
      · exact hview j hj hjfile m hm fun heq => hmem (heq.2 ▸ hpage)
      · intro w hw
        obtain rfl : v = w := Option.some.inj (hv.symm.trans hw)
        exact hmem
      · intro w hw
        obtain rfl := Option.some.inj (hv'.symm.trans hw)
        exact hmem
  · have hvnode : s'.vnodes j = s.vnodes j := by
      rw [hcleaned.vnodes, Function.update_of_ne hji]
    unfold S5.logicalPage
    rw [hvnode]
    split
    · rfl
    · exact hview j hj hjfile m hm fun heq => hji heq.1

omit [BlockDev] in
theorem sameFiles_writeOut (h : Coherent s) {b : UInt32} {p : PFrame}
    (hp : s.bdev b = some p) (hdirty : p.dirty = true) :
    SameFiles s ((s.setBdev b (some { p with dirty := false })).setDisk b p.data) := by
  refine ⟨rfl, fun _ => Iff.rfl, ?_⟩
  intro j hj hjfile n hn
  have hview := h.fileView_writeOut hp hdirty hj hjfile hn
  unfold S5.logicalPage
  split <;> rename_i hcase
  · rw [show (s.vnodes j).bind (·.page n) = _ from hcase]
  · rw [show (s.vnodes j).bind (·.page n) = none from hcase]
    exact hview

theorem CleanRun.keeps (hrun : CleanRun s s') (hinv : PageInv D s) (h : Coherent s) :
    PageInv D s' ∧ Coherent s' ∧ SameFiles s s' := by
  induction hrun with
  | start => exact ⟨hinv, h, SameFiles.refl s⟩
  | @call s1 s2 c r _ hc hcall ih =>
      obtain ⟨hinv1, h1, hsame⟩ := ih
      cases c with
      | clean ino n =>
          obtain ⟨-, v, hv, hpage, hne, hcleaned⟩ := wlp_clean_cleaned hinv1 _ _ hcall
          exact ⟨hinv1.cleaned hv hpage hne hcleaned, h1.cleaned hinv1 hv hpage hne hcleaned,
            hsame.trans (sameFiles_cleaned hinv1 hv hpage hne hcleaned)⟩
      | cleanBdev b =>
          have hwlp : wlp (PageCall.cleanBdev b).run
              (fun _ s' => PageInv D s' ∧ Coherent s' ∧ SameFiles s s') s1 := by
            unfold PageCall.run
            rw [wlp_bind]
            refine wlp_pframeCleanBdev (wlp_pure.mpr ⟨hinv1, h1, hsame⟩) ?_
            intro p hp hdirty
            exact wlp_pure.mpr ⟨hinv1.writeOut hp, h1.writeOut hinv1 hp hdirty,
              hsame.trans (sameFiles_writeOut h1 hp hdirty)⟩
          exact hwlp _ _ hcall
      | get ino n => exact hc.elim
      | write ino n f => exact hc.elim
      | free ino n => exact hc.elim
      | freeBdev b => exact hc.elim
      | vref ino => exact hc.elim
      | vget ino => exact hc.elim
      | vput ino => exact hc.elim
      | allocInode type devid => exact hc.elim
      | setSize ino size => exact hc.elim
      | setLinkcount ino links => exact hc.elim

/-- With nothing dirty, the disk holds what the files read. -/
theorem Coherent.diskPage_eq (h : Coherent s) (hinv : PageInv D s) (hclean : s.AllClean) {j : Nat}
    (hj : j < s.super.s5sNumInodes) (hjfile : (s.inodes j).IsFile) :
    s.diskPage j n = s.logicalPage j n := by
  have hblock : s.diskBlock j n = s.fileBlock j n := by
    unfold S5.diskBlock S5.fileBlock
    split
    · rfl
    split
    · rfl
    · rename_i hind
      rw [hinv.books.indirect j hj hjfile hind (hclean.2 _)]
  have hdisk : s.diskPage j n = s.fileView j n := by
    rw [S5.diskPage, S5.fileView, hblock]
  rw [hdisk]
  by_cases hres : ∃ v, s.vnodes j = some v ∧ n ∈ v.vnRespages
  · obtain ⟨v, hv, hn⟩ := hres
    rw [S5.logicalPage_of_mem hv hn]
    refine (h.cached j v hv n hn ?_).symm
    cases hd : (v.vnFrame n).dirty with
    | false => rfl
    | true => exact absurd ⟨v, hv, hn, hd⟩ (hclean.1 j n)
  · rw [S5.logicalPage_of_notMem]
    intro v hv hn
    exact hres ⟨v, hv, hn⟩

/-- No block that the file system uses for itself has a dirty page in a file. -/
def S5.FilesApart (s : S5) : Prop :=
  ∀ ino n, s.DirtyPage ino n → s.fileBlock ino n ≠ 0 ∧ ¬ s.IsNode (s.fileBlock ino n) ∧
    (∀ j < s.super.s5sNumInodes, (s.fileBlock ino n).toNat ≠ s5InodeBlock j) ∧
    ∀ j < s.super.s5sNumInodes, (s.inodes j).IsFile → (s.inodes j).s5IndirectBlock ≠ 0 →
      s.fileBlock ino n ≠ (s.inodes j).s5IndirectBlock

/-- No block that holds data of a file has a dirty page in the block device. -/
def S5.DeviceApart (s : S5) : Prop :=
  ∀ j < s.super.s5sNumInodes, (s.inodes j).IsFile → ∀ n < s5MaxFileBlocks,
    s.fileBlock j n ≠ 0 → s.bdevDirty (s.fileBlock j n) = false

theorem PageInv.filesApart (h : PageInv D s) : s.FilesApart := by
  intro ino n hd
  have hne := h.dirty_ne_zero hd
  obtain ⟨nodes, hl⟩ := h.books.accounted
  obtain ⟨v, hv, hpage, -⟩ := hd
  have hok := h.vnode ino v hv
  obtain ⟨hfile, hmax, -⟩ := hok.page n hpage
  have hmem := Ledger.mem_allMapped hok.lt (fileBlock_mem hfile hmax hne)
  refine ⟨hne, ?_, ?_, ?_⟩
  · intro hnode
    exact hl.notMem_nodes_of_mapped hmem (hl.isNode_iff.mp hnode)
  · intro j hj heq
    have habove := hl.region.above _ (hl.mem_of_allMapped hmem)
    rw [heq] at habove
    unfold s5InodeBlock at habove
    omega
  · intro j hj hjfile hind
    exact hl.fileBlock_ne_indirect hj hok.lt hjfile hfile hmax hind hne

/-- **One copy of each block.** In every state of every run of safe calls, no block of a file has
a dirty page in the block device and no block the file system uses for itself has one in a file;
and writing out the dirty pages, in whatever order, brings the disk to what the files read. -/
theorem one_copy (hstart : Mounted D s₀) (hrun : SafeRun s₀ s) :
    s.DeviceApart ∧ s.FilesApart ∧ ∀ s', CleanRun s s' → s'.AllClean →
      ∀ j < s.super.s5sNumInodes, (s.inodes j).IsFile → ∀ n < s5MaxFileBlocks,
        s'.diskPage j n = s.logicalPage j n := by
  obtain ⟨hinv, h⟩ := hrun.coherent hstart
  refine ⟨h.unaliased, hinv.filesApart, ?_⟩
  intro s' hclean hall j hj hjfile n hn
  obtain ⟨hinv', h', hsame⟩ := hclean.keeps hinv h
  rw [← hsame.page j hj hjfile n hn]
  exact h'.diskPage_eq hinv' hall (hsame.numInodes.symm ▸ hj) ((hsame.isFile j).mpr hjfile)

omit [BlockDev] in
/-- The first page of the root directory is written to and written out. -/
theorem one_copy_oneFree : ∃ s s', @SafeRun plainDev oneFree s ∧ @CleanRun plainDev s s' ∧
    s.DeviceApart ∧ s'.diskPage 0 0 = s.logicalPage 0 0 := by
  let := plainDev
  have h1 : SafeRun oneFree _ := PageRun.call (c := .vget 0) .start ⟨trivial, trivial⟩ rfl
  have h2 := PageRun.call (c := .get 0 0) h1 ⟨⟨by decide, _, rfl, by decide⟩, trivial⟩ rfl
  have h3 := PageRun.call (c := .write 0 0 id) h2
    ⟨trivial, fun _ => ⟨by decide, by decide⟩⟩ rfl
  obtain ⟨s, s', hsafe, hclean, hnum, hfile, hothers, ⟨v, hv, hpages, hframe⟩, hbdev⟩ : ∃ s s',
      SafeRun oneFree s ∧ CleanRun s s' ∧ s.super.s5sNumInodes = 1 ∧ (s.inodes 0).IsFile ∧
      (∀ i, i ≠ 0 → s'.vnodes i = none) ∧ (∃ v, s'.vnodes 0 = some v ∧ v.vnRespages = [0] ∧
        (v.vnFrame 0).dirty = false) ∧ s'.bdev = fun _ => none :=
    ⟨_, _, h3, PageRun.call (c := .clean 0 0) .start trivial rfl, rfl, Or.inr rfl,
      fun i hi => by
        simp [S5.setVnode, S5.setDisk, S5.setInode, S5.setSuper, hi, oneFree],
      ⟨_, rfl, rfl, rfl⟩, rfl⟩
  have hall : s'.AllClean := by
    refine ⟨?_, ?_⟩
    · rintro i n ⟨w, hw, hn, hd⟩
      by_cases hi : i = 0
      · subst hi
        obtain rfl : v = w := Option.some.inj (hv.symm.trans hw)
        rw [hpages] at hn
        rw [List.mem_singleton.mp hn, hframe] at hd
        exact Bool.noConfusion hd
      · rw [hothers i hi] at hw
        cases hw
    · intro b
      rw [S5.bdevDirty, hbdev]
      rfl
  obtain ⟨hapart, -, hdisk⟩ := one_copy oneFree_mounted hsafe
  exact ⟨s, s', hsafe, hclean, hapart, hdisk s' hclean hall 0 (by omega) hfile 0 (by simp)⟩

/-! ### A run that makes a second copy -/

/-- Freeing a file that has an indirect block and nothing in it. -/
theorem s5FreeInode_of_empty (htype : (s.inodes ino).s5Type = .data)
    (hdirect : ∀ k, (s.inodes ino).s5DirectBlocks k = 0)
    (hind : (s.inodes ino).s5IndirectBlock ≠ 0) {p : PFrame}
    (hp : s.bdev (s.inodes ino).s5IndirectBlock = some p) (hzero : ∀ k, p.data.word k = 0)
    (hnfree : s.super.s5sNfree < 29) :
    s5FreeInode ino s = .ok ((), (s.giveBlock (s.inodes ino).s5IndirectBlock).pushInode ino) := by
  have hloop : each (s5FreeDirect ino) (List.range s5NdirectBlocks) s = .ok ((), s) := by
    apply each_of_noop
    intro k _
    rw [s5FreeDirect, bind_eq_of_ok (get_apply s), if_neg (not_not.mpr (hdirect k))]
    rfl
  have hget : pframeGetBdev (s.inodes ino).s5IndirectBlock s = .ok (0, s) := by
    rw [pframeGetBdev, bind_eq_of_ok (get_apply s), hp]
    rfl
  have hview (k : Nat) : (s.bview (s.inodes ino).s5IndirectBlock).word k = 0 := by
    rw [S5.bview, hp]
    exact hzero k
  have hentries : each (s5FreeIndirectEntry ino) (List.range s5NidirectBlocks) s =
      .ok ((), s) := by
    apply each_of_noop
    intro k _
    rw [s5FreeIndirectEntry, bind_eq_of_ok (get_apply s)]
    simp only [hview]
    rw [kassert, decide_eq_true hind.symm, check_true, bind_eq_of_ok (pure_apply () s),
      if_neg (not_not.mpr rfl)]
    rfl
  have hgive : s5FreeBlock (s.inodes ino).s5IndirectBlock s =
      .ok ((), s.giveBlock (s.inodes ino).s5IndirectBlock) := by
    rw [s5FreeBlock, bind_eq_of_ok (get_apply s), kassert, decide_eq_true (by simp; omega),
      check_true, bind_eq_of_ok (pure_apply () s), if_neg (by simp; omega),
      S5.giveBlock_of_room (by simp; omega)]
    rfl
  have hfamily : s5FreeIndirect ino s =
      .ok ((), s.giveBlock (s.inodes ino).s5IndirectBlock) := by
    rw [s5FreeIndirect, bind_eq_of_ok (get_apply s), if_pos ⟨Or.inl htype, hind⟩,
      bind_eq_of_ok hget, decide_eq_true le_rfl, check_true, bind_eq_of_ok (pure_apply () s),
      bind_eq_of_ok hentries, hgive]
  rw [s5FreeInode, bind_eq_of_ok (get_apply s), kassert, decide_eq_true (by rw [htype]; decide),
    check_true, bind_eq_of_ok (pure_apply () s), bind_eq_of_ok hloop, bind_eq_of_ok hfamily]
  simp only [bind_apply, modify_apply, S5.inodes_setInode_self, S5.setInode_setInode]
  rfl

/-- The last `vput` of a file without a name that has nothing but an indirect block. -/
theorem vput_of_empty (hv : s.vnodes ino = some v) (hpages : v.vnRespages = [])
    (hlast : v.vnRefcount = 1) (hlinks : (s.inodes ino).s5Linkcount = 1)
    (htype : (s.inodes ino).s5Type = .data)
    (hdirect : ∀ k, (s.inodes ino).s5DirectBlocks k = 0)
    (hind : (s.inodes ino).s5IndirectBlock ≠ 0) {p : PFrame}
    (hp : s.bdev (s.inodes ino).s5IndirectBlock = some p) (hzero : ∀ k, p.data.word k = 0)
    (hnfree : s.super.s5sNfree < 29) :
    vput ino s = .ok ((), ((((s.setVnode ino (some { v with vnRefcount := 0 })).setInode ino
      { s.inodes ino with s5Linkcount := 0 }).giveBlock
        (s.inodes ino).s5IndirectBlock).pushInode ino).setVnode ino none) := by
  set s0 := s.setVnode ino (some { v with vnRefcount := 0 })
  set s1 := s0.setInode ino { s.inodes ino with s5Linkcount := 0 }
  have hinode : s1.inodes ino = { s.inodes ino with s5Linkcount := 0 } :=
    S5.inodes_setInode_self
  have htype1 : (s1.inodes ino).s5Type = .data := by
    rw [hinode]
    exact htype
  have hfree := s5FreeInode_of_empty (p := p) htype1 (by rw [hinode]; exact hdirect)
    (by rw [hinode]; exact hind) (by rw [hinode]; exact hp) hzero hnfree
  have hset : setLinkcount ino ((s0.inodes ino).s5Linkcount - 1) s0 = .ok ((), s1) := by
    have hzero : toInt16 ((s0.inodes ino).s5Linkcount - 1) = 0 := by
      change toInt16 ((s.inodes ino).s5Linkcount - 1) = 0
      rw [hlinks]
      rfl
    rw [setLinkcount, modify_apply, hzero]
    rfl
  have hdelete : s5fsDeleteVnode ino s0 = s5FreeInode ino s1 := by
    rw [s5fsDeleteVnode, bind_eq_of_ok (get_apply s0), bind_eq_of_ok hset,
      bind_eq_of_ok (get_apply s1), hinode, kassert, decide_eq_true le_rfl, check_true,
      bind_eq_of_ok (pure_apply () s1), if_pos rfl]
  rw [vput_last hv hpages hlast, bind_eq_of_ok (hdelete.trans hfree), modify_apply, hinode]

theorem run_vput (h : vput ino s = .ok ((), s')) :
    (PageCall.vput ino).run s = .ok (0, s') :=
  bind_eq_of_ok h

/-- A disk with the root directory in inode `0`, a free inode `1` and one free block, number
`7`. -/
def twoInodes : S5 where
  super := ⟨1, 1, fun i => if i = 29 then noBlock else 7, 0, 2⟩
  inodes := fun i =>
    ⟨if i = 1 then noBlock.toNat else 0, i, if i = 1 then .free else .dir, 1, fun _ => 0, 0⟩
  bdev := fun _ => none
  disk := fun _ => Block.zero
  vnodes := fun _ => none

omit [BlockDev] in
theorem allMapped_twoInodes : allMapped twoInodes = 0 := by
  apply Finset.sum_eq_zero
  intro i _
  unfold mapped
  split <;> simp [twoInodes, indirectFamily]

omit [BlockDev] in
theorem twoInodes_mounted : @Mounted plainDev {7} twoInodes := by
  refine @Mounted.mk plainDev _ _ ⟨[], ?_⟩ ⟨[1], ?_⟩ (fun _ => rfl) fun _ => rfl
  · refine @Ledger.mk plainDev _ _ _ _ (@Region.mk plainDev _ _ (Multiset.nodup_singleton 7)
      (fun b hb => ?_) ?_ ?_) ⟨by decide, .nil⟩ ?_ rfl
    · rw [Multiset.mem_singleton.mp hb]
      rfl
    · simp
    · simp [twoInodes, s5InodeBlock]
    · simp [FreeList.listed, S5.freeList, allMapped_twoInodes]
      simp [twoInodes]
  · refine ⟨fun i _ => rfl, by decide, .cons (by decide) .nil, List.nodup_singleton 1, ?_, ?_⟩
    · simp [twoInodes]
    · intro i _
      simp [twoInodes]

omit [BlockDev] in
/-- Block `7` is an indirect block, is given back with its page still dirty, and becomes the
first page of a file. -/
theorem two_copies : @Mounted plainDev {7} twoInodes ∧
    ∃ s, @PageRun plainDev (fun s c => c.Made s) twoInodes s ∧ ¬ s.DeviceApart := by
  let := plainDev
  refine ⟨twoInodes_mounted, ?_⟩
  have h1 : PageRun (fun s c => c.Made s) twoInodes _ :=
    PageRun.call (c := .allocInode .data 0) .start trivial rfl
  have h2 := PageRun.call (c := .vget 1) h1 trivial rfl
  have h3 := PageRun.call (c := .get 1 28) h2 ⟨by decide, _, rfl, by decide⟩ rfl
  have h4 := PageRun.call (c := .free 1 28) h3 trivial rfl
  have h5 := PageRun.call (c := .vput 1) h4 trivial (run_vput
    (vput_of_empty rfl rfl rfl rfl rfl (fun _ => rfl) (by decide) rfl (p := ⟨Block.zero, true⟩)
      (fun k => by simp) (by decide)))
  have h6 := PageRun.call (c := .allocInode .data 0) h5 trivial rfl
  have h7 := PageRun.call (c := .vget 1) h6 trivial rfl
  have h8 := PageRun.call (c := .get 1 0) h7 ⟨by decide, _, rfl, by decide⟩ rfl
  have h9 := PageRun.call (c := .write 1 0 id) h8 trivial rfl
  obtain ⟨s, hrun, hnum, hfile, hblock, hdirty⟩ : ∃ s,
      PageRun (fun s c => c.Made s) twoInodes s ∧ s.super.s5sNumInodes = 2 ∧
        (s.inodes 1).IsFile ∧ s.fileBlock 1 0 = 7 ∧ s.bdevDirty 7 = true :=
    ⟨_, h9, rfl, Or.inl rfl, rfl, rfl⟩
  refine ⟨s, hrun, ?_⟩
  intro hapart
  have hclean := hapart 1 (by omega) hfile 0 (by simp) (by rw [hblock]; decide)
  rw [hblock, hdirty] at hclean
  exact Bool.noConfusion hclean

end CodingSample.S5fs
