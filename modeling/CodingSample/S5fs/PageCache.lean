import CodingSample.S5fs.Inodes
import CodingSample.S5fs.Pages

/-!
# The page cache of the vnodes

What each page operation leaves when the vnode is held, and the invariant of the page cache: a
page is marked dirty only when its file has a block for it.
-/

namespace CodingSample.S5fs

open Prog

namespace S5

/-- The disk's copy of page `n` of a file. -/
def fileView (s : S5) (ino n : Nat) : Block :=
  if s.fileBlock ino n = 0 then Block.zero else s.disk (s.fileBlock ino n)

theorem setVnode_setVnode (s : S5) (ino : Nat) (v w : Option Vnode) :
    (s.setVnode ino v).setVnode ino w = s.setVnode ino w := by
  simp only [setVnode, Function.update_idem]

theorem afterAlloc_setVnode (s : S5) (i : Nat) (v : Option Vnode) :
    (s.setVnode i v).afterAlloc = s.afterAlloc.setVnode i v := by
  have hnfree : (s.setVnode i v).super.s5sNfree = s.super.s5sNfree := rfl
  rw [afterAlloc, afterAlloc, hnfree]
  split <;> rfl

theorem mapSource_setVnode (s : S5) (i ino n : Nat) (v : Option Vnode) :
    (s.setVnode i v).mapSource ino n = (s.mapSource ino n).setVnode i v := by
  have hinode : (s.setVnode i v).inodes ino = s.inodes ino := rfl
  rw [mapSource, mapSource, hinode, afterAlloc_setVnode]
  split <;> rfl

theorem lacks_setVnode (s : S5) (i ino n : Nat) (alloc : Bool) (v : Option Vnode) :
    (s.setVnode i v).Lacks ino n alloc ↔ s.Lacks ino n alloc := by
  unfold Lacks
  rw [mapSource_setVnode]
  rfl

end S5

section Apply

variable {s : S5} {ino n : Nat} {v : Vnode}

theorem getVnode_apply (hv : s.vnodes ino = some v) : getVnode ino s = .ok (v, s) := by
  simp [getVnode, bind_apply, hv]

theorem modifyVnode_apply (hv : s.vnodes ino = some v) (f : Vnode → Vnode) :
    modifyVnode ino f s = .ok ((), s.setVnode ino (some (f v))) := by
  rw [modifyVnode, bind_eq_of_ok (getVnode_apply hv), modify_apply]

theorem pokePage_apply (hv : s.vnodes ino = some v) (hn : n ∈ v.vnRespages) (f : Block → Block) :
    pokePage ino n f s = .ok ((), s.setVnode ino
      (some (v.setFrame n { v.vnFrame n with data := f (v.vnFrame n).data }))) := by
  rw [pokePage, bind_eq_of_ok (getVnode_apply hv), decide_eq_true hn, check_true,
    bind_eq_of_ok (pure_apply () s), modifyVnode_apply hv]

theorem setDirty_apply (hv : s.vnodes ino = some v) (dirty : Bool) :
    setDirty ino n dirty s =
      .ok ((), s.setVnode ino (some (v.setFrame n { v.vnFrame n with dirty := dirty }))) :=
  modifyVnode_apply hv _

theorem vref_apply (hv : s.vnodes ino = some v) (hpos : 0 < v.vnRefcount) :
    vref ino s = .ok ((), s.setVnode ino (some { v with vnRefcount := v.vnRefcount + 1 })) := by
  rw [vref, bind_eq_of_ok (getVnode_apply hv), kassert, decide_eq_true hpos, check_true,
    bind_eq_of_ok (pure_apply () s), modifyVnode_apply hv]

theorem pnToAddr_eq (hn : n < 524288) : pnToAddr n = n * 4096 := by
  have hnat : (UInt32.ofNat (n * 4096)).toNat = n * 4096 := by
    rw [UInt32.toNat_ofNat']
    omega
  rw [pnToAddr, toInt32_of_lt (by omega), hnat]
  norm_cast

end Apply

variable [BlockDev] {D t : Multiset UInt32} {nodes : List UInt32} {s s' s1 : S5} {ino n : Nat}
  {v : Vnode}

theorem Accounted.setVnode (h : Accounted D t s) (i : Nat) (w : Option Vnode) :
    Accounted D t (s.setVnode i w) := by
  obtain ⟨nodes, hl⟩ := h
  exact ⟨nodes, hl.region, hl.wf, hl.total, hl.uncached⟩

omit [BlockDev] in
theorem Grew.of_setVnode {P : Nat → Prop} {i : Nat} {w : Option Vnode}
    (h : Grew ino P (s.setVnode i w) s') : Grew ino P s s' :=
  ⟨h.super, h.inode, h.others, h.mapped, h.disk, h.fileBlock, h.indirect, h.page, h.node,
    h.synced⟩

omit [BlockDev] in
theorem Grew.setVnode {P : Nat → Prop} (h : Grew ino P s s') (i : Nat) (w : Option Vnode) :
    Grew ino P s (s'.setVnode i w) :=
  ⟨h.super, h.inode, h.others, h.mapped, h.disk, h.fileBlock, h.indirect, h.page, h.node,
    h.synced⟩

/-! ### Dropping a reference -/

theorem vputWithin_of_held (hv : s.vnodes ino = some v) (hheld : v.vnNrespages + 1 < v.vnRefcount)
    (fuel : Nat) : vputWithin (fuel + 1) ino s =
      .ok ((), s.setVnode ino (some { v with vnRefcount := v.vnRefcount - 1 })) := by
  have hpos : 0 ≤ v.vnNrespages := Int.natCast_nonneg _
  have hevict (free : Nat → K Unit) : vputEvict free ino s = .ok ((), s) := by
    rw [vputEvict, bind_eq_of_ok (getVnode_apply hv), kassert,
      decide_eq_true (by omega), check_true, bind_eq_of_ok (pure_apply () s)]
    simp only [s5fsQueryVnode, bind_apply, get_apply, pure_apply]
    rw [if_neg (by omega)]
    rfl
  have hdrop : vputDrop ino s =
      .ok ((), s.setVnode ino (some { v with vnRefcount := v.vnRefcount - 1 })) := by
    rw [vputDrop, bind_eq_of_ok (modifyVnode_apply hv _),
      bind_eq_of_ok (getVnode_apply S5.vnodes_setVnode_self)]
    rw [if_pos (by change 0 < v.vnRefcount - 1; omega)]
    rfl
  rw [vputWithin, bind_eq_of_ok (hevict _), hdrop]

theorem vput_of_held (hv : s.vnodes ino = some v) (hheld : v.vnNrespages + 1 < v.vnRefcount) :
    vput ino s = .ok ((), s.setVnode ino (some { v with vnRefcount := v.vnRefcount - 1 })) := by
  rw [vput, bind_eq_of_ok (getVnode_apply hv), vputWithin_of_held hv hheld]

theorem vput_last (hv : s.vnodes ino = some v) (hpages : v.vnRespages = [])
    (hlast : v.vnRefcount = 1) :
    vput ino s = (s5fsDeleteVnode ino >>= fun _ => modify fun s => s.setVnode ino none)
      (s.setVnode ino (some { v with vnRefcount := 0 })) := by
  have hzero : v.vnNrespages = 0 := by rw [Vnode.vnNrespages, hpages]; rfl
  have hevict (free : Nat → K Unit) : vputEvict free ino s = .ok ((), s) := by
    rw [vputEvict, bind_eq_of_ok (getVnode_apply hv), kassert,
      decide_eq_true (by omega), check_true, bind_eq_of_ok (pure_apply () s), hpages]
    simp only [s5fsQueryVnode, bind_apply, get_apply, pure_apply]
    split
    · simp [each, bind_apply, getVnode_apply hv, kassert, hzero, hlast]
    · rfl
  have hdrop : vputDrop ino s = (s5fsDeleteVnode ino >>= fun _ =>
      modify fun s => s.setVnode ino none) (s.setVnode ino (some { v with vnRefcount := 0 })) := by
    rw [vputDrop, bind_eq_of_ok (modifyVnode_apply hv _),
      bind_eq_of_ok (getVnode_apply S5.vnodes_setVnode_self)]
    simp only [hlast]
    rw [if_neg (by omega)]
    simp [kassert, bind_apply, Vnode.vnNrespages, hpages]
  rw [vput, bind_eq_of_ok (getVnode_apply hv), vputWithin, bind_eq_of_ok (hevict _), hdrop]

/-! ### What the page operations leave -/

theorem FileAt.toInt32_fileBlock (h : FileAt D t ino s) (hn : n < s5MaxFileBlocks) :
    0 ≤ toInt32 (s.fileBlock ino n) ∧
      (toInt32 (s.fileBlock ino n) = 0 ↔ s.fileBlock ino n = 0) := by
  obtain ⟨⟨nodes, hl⟩, hino, hfile⟩ := h
  by_cases hzero : s.fileBlock ino n = 0
  · rw [hzero]
    decide
  · have hD := hl.mem_of_mapped hino (fileBlock_mem hfile hn hzero)
    rw [toInt32_of_lt (hl.region.small _ hD)]
    refine ⟨Int.natCast_nonneg _, iff_of_false (fun h => hzero ?_) hzero⟩
    exact UInt32.toNat_inj.mp (Int.natCast_eq_zero.mp h)

theorem FileAt.serves (h : FileAt D t ino s) (hn : n < s5MaxFileBlocks)
    (hne : s.fileBlock ino n ≠ 0) : BlockDev.serves (s.fileBlock ino n) = true := by
  obtain ⟨⟨nodes, hl⟩, hino, hfile⟩ := h
  exact hl.region.serves _ (hl.mem_of_mapped hino (fileBlock_mem hfile hn hne))

theorem Sought.fileAt {alloc : Bool} (h : FileAt D t ino s) (hs : Sought D t ino n alloc s s') :
    FileAt D t ino s' :=
  ⟨hs.accounted, hs.grew.numInodes ▸ h.lt, (hs.grew.isFile_iff ino).mpr h.isFile⟩

omit [BlockDev] in
theorem Grew.fileView {P : Nat → Prop} (h : Grew ino P s s') {j m : Nat}
    (hj : j < s.super.s5sNumInodes) (hfile : (s.inodes j).IsFile) (hm : m < s5MaxFileBlocks)
    (hn : j = ino → P m → s.fileBlock j m ≠ 0) : s'.fileView j m = s.fileView j m := by
  have hblock := h.fileBlock j hj hfile m hn
  rw [S5.fileView, S5.fileView, hblock]
  split
  · rfl
  · rename_i hne
    exact h.disk _ (Ledger.mem_allMapped hj (fileBlock_mem hfile hm hne))

/-- Why a page cannot be brought in. -/
def S5.FillFails (s : S5) (ino n : Nat) (r : Int) : Prop :=
  s5MaxFileBlocks ≤ n ∧ r = -1 ∨ n < s5MaxFileBlocks ∧ s.Lacks ino n false ∧ r = -enospc

theorem wp_seekPage (h : FileAt D t ino s) (hn : n < 524288) (alloc : Bool) :
    wp (s5SeekToBlock ino (pnToAddr n) alloc) (fun r s' =>
      s5MaxFileBlocks ≤ n ∧ r = -1 ∧ s' = s ∨
      n < s5MaxFileBlocks ∧ SeekOutcome D t ino n alloc s r s') s := by
  have haddr := pnToAddr_eq hn
  have hpos : 0 ≤ pnToAddr n := by
    rw [haddr]
    positivity
  have hblock : (pnToAddr n / 4096).toNat = n := by
    rw [haddr]
    omega
  by_cases hmax : n < s5MaxFileBlocks
  · refine wp_mono (wp_s5SeekToBlock h hpos (by rwa [hblock]) alloc) fun r s' hout => ?_
    rw [hblock] at hout
    exact Or.inr ⟨hmax, hout⟩
  · refine wp_mono (wp_s5SeekToBlock_past hpos (by rw [hblock]; exact not_lt.mp hmax) alloc) ?_
    rintro r s' ⟨hr, hs⟩
    exact Or.inl ⟨not_lt.mp hmax, hr, hs⟩

theorem wp_s5fsFillpage (h : FileAt D t ino s) (hv : s.vnodes ino = some v)
    (hpage : n ∈ v.vnRespages) (hn : n < 524288) :
    wp (s5fsFillpage ino (pnToAddr n) n) (fun r s' =>
      r < 0 ∧ s.FillFails ino n r ∧ s' = s ∨
      r = 0 ∧ n < s5MaxFileBlocks ∧ ¬ s.Lacks ino n false ∧ ∃ s1, Sought D t ino n false s s1 ∧
        s' = s1.setVnode ino
          (some (v.setFrame n { v.vnFrame n with data := s1.fileView ino n }))) s := by
  unfold s5fsFillpage
  refine wp_bind_of (wp_seekPage h hn false) ?_
  rintro r s1 (⟨hmax, rfl, rfl⟩ | ⟨hmax, ⟨hlacks, rfl, hsame, -⟩ | ⟨hlacks, rfl, hsought⟩⟩)
  · rw [if_pos (by decide)]
    exact wp_pure.mpr (Or.inl ⟨by decide, Or.inl ⟨hmax, rfl⟩, rfl⟩)
  · obtain rfl := hsame rfl
    rw [if_pos (by decide)]
    exact wp_pure.mpr (Or.inl ⟨by decide, Or.inr ⟨hmax, hlacks, rfl⟩, rfl⟩)
  · have h1 := hsought.fileAt h
    have hv1 : s1.vnodes ino = some v := hsought.vnodes ▸ hv
    obtain ⟨hnonneg, hzero⟩ := h1.toInt32_fileBlock hmax
    rw [if_neg (not_lt.mpr hnonneg)]
    by_cases hblock : s1.fileBlock ino n = 0
    · rw [if_pos (hzero.mpr hblock), wp_bind, wp_of_eq (pokePage_apply hv1 hpage _)]
      refine wp_pure.mpr (Or.inr ⟨rfl, hmax, hlacks, s1, hsought, ?_⟩)
      rw [S5.fileView, if_pos hblock]
    · rw [if_neg (fun h => hblock (hzero.mp h)), ofInt32_toInt32, readBlock, wp_bind, wp_get,
        if_pos (h1.serves hmax hblock), wp_bind, wp_of_eq (pokePage_apply hv1 hpage _)]
      refine wp_pure.mpr (Or.inr ⟨rfl, hmax, hlacks, s1, hsought, ?_⟩)
      rw [S5.fileView, if_neg hblock]

/-- The vnode with page `n` brought in. -/
def Vnode.addPage (v : Vnode) (n : Nat) (p : PFrame) : Vnode :=
  { v.setFrame n p with vnRespages := n :: v.vnRespages, vnRefcount := v.vnRefcount + 1 }

/-- Page `n` of the file is brought in from the disk. -/
structure Loaded (D : Multiset UInt32) (ino n : Nat) (v : Vnode) (s s' : S5) : Prop where
  accounted : Accounted D 0 s'
  grew : Grew ino (fun _ => False) s s'
  vnodes : s'.vnodes =
    Function.update s.vnodes ino (some (v.addPage n ⟨s'.fileView ino n, false⟩))

/-- The vnode of a regular file or directory, with someone holding it. -/
structure HeldFile (D : Multiset UInt32) (ino : Nat) (v : Vnode) (s : S5) : Prop where
  fileAt : FileAt D 0 ino s
  vnode : s.vnodes ino = some v
  mode : v.vnMode = .reg ∨ v.vnMode = .dir
  held : v.vnNrespages < v.vnRefcount

/-- The outcome of `pframe_get`. -/
def GetOutcome (D : Multiset UInt32) (ino n : Nat) (v : Vnode) (s : S5) (r : Int) (s' : S5) :
    Prop :=
  n ∈ v.vnRespages ∧ r = 0 ∧ s' = s ∨
    n ∉ v.vnRespages ∧ r < 0 ∧ s.FillFails ino n r ∧
      s' = s.setVnode ino (some (v.setFrame n { v.vnFrame n with dirty := false })) ∨
    n ∉ v.vnRespages ∧ n < s5MaxFileBlocks ∧ ¬ s.Lacks ino n false ∧ r = 0 ∧
      Loaded D ino n v s s'

theorem wp_pframeGet (h : HeldFile D ino v s) (hn : n < 524288) :
    wp (pframeGet ino n) (GetOutcome D ino n v s) s := by
  obtain ⟨hfile, hv, hmode, hheld⟩ := h
  unfold pframeGet
  rw [wp_bind, wp_of_eq (getVnode_apply hv)]
  by_cases hpage : n ∈ v.vnRespages
  · rw [if_pos hpage]
    exact wp_pure.mpr (Or.inl ⟨hpage, rfl, rfl⟩)
  rw [if_neg hpage]
  have hpos : 0 ≤ v.vnNrespages := Int.natCast_nonneg _
  set v1 := v.addPage n { v.vnFrame n with dirty := false } with hv1
  set s1 := s.setVnode ino (some v1) with hs1
  have halloc : pframeAlloc ino n s = .ok ((), s1) := by
    rw [pframeAlloc, bind_eq_of_ok (vref_apply hv (by omega)),
      modifyVnode_apply S5.vnodes_setVnode_self, S5.setVnode_setVnode]
    rfl
  have hfile1 : FileAt D 0 ino s1 := ⟨hfile.accounted.setVnode _ _, hfile.lt, hfile.isFile⟩
  have hvnode1 : s1.vnodes ino = some v1 := S5.vnodes_setVnode_self
  have hmem : n ∈ v1.vnRespages := List.mem_cons_self
  have hread : vreadpage ino n s1 = s5fsFillpage ino (pnToAddr n) n s1 := by
    rw [vreadpage, bind_eq_of_ok (getVnode_apply hvnode1)]
    have hmode1 : v1.vnMode = .reg ∨ v1.vnMode = .dir := hmode
    rcases hmode1 with hmode1 | hmode1 <;> rw [hmode1]
  rw [wp_bind, wp_of_eq halloc, wp_bind]
  obtain ⟨r, s2, hfill, hout⟩ := wp_s5fsFillpage hfile1 hvnode1 hmem hn
  rw [wp_of_eq (hread.trans hfill)]
  rcases hout with ⟨hr, hfails, rfl⟩ | ⟨rfl, hmax, hlacks, s3, hsought, rfl⟩
  · rw [if_pos hr]
    have herase : v1.vnRespages.erase n = v.vnRespages := List.erase_cons_head ..
    set v2 := { v1 with vnRespages := v.vnRespages } with hv2
    have hunlink : pframeUnlink ino n s1 = .ok ((), s.setVnode ino (some v2)) := by
      rw [pframeUnlink, bind_eq_of_ok (getVnode_apply hvnode1), decide_eq_true hmem, check_true,
        bind_eq_of_ok (pure_apply () s1), modifyVnode_apply hvnode1, herase,
        S5.setVnode_setVnode]
    have hput := vput_of_held (v := v2) (s := s.setVnode ino (some v2))
      S5.vnodes_setVnode_self (by change v.vnNrespages + 1 < v.vnRefcount + 1; omega)
    rw [pframeFree, wp_bind, wp_bind, wp_of_eq hunlink, wp_of_eq hput, S5.setVnode_setVnode]
    refine wp_pure.mpr (Or.inr (Or.inl ⟨hpage, hr, ?_, ?_⟩))
    · unfold S5.FillFails at hfails ⊢
      rwa [S5.lacks_setVnode] at hfails
    · congr 2
      simp only [hv2, hv1, Vnode.addPage, Vnode.setFrame]
      congr 1
      omega
  · rw [if_neg (lt_irrefl 0)]
    refine wp_pure.mpr (Or.inr (Or.inr ⟨hpage, hmax, ?_, rfl, ?_, ?_, ?_⟩))
    · rwa [S5.lacks_setVnode] at hlacks
    · exact hsought.accounted.setVnode _ _
    · exact (hsought.grew.mono fun m hm => Bool.noConfusion hm.1).of_setVnode.setVnode _ _
    · change Function.update s3.vnodes ino _ = _
      rw [hsought.vnodes]
      change Function.update (Function.update s.vnodes ino _) ino _ = _
      rw [Function.update_idem]
      congr 2
      simp [hv1, Vnode.addPage, Vnode.setFrame]
      rfl

/-! ### Marking a page dirty -/

omit [BlockDev] in
theorem not_lacks_of_ne_zero (hne : s.fileBlock ino n ≠ 0) (alloc : Bool) :
    ¬ s.Lacks ino n alloc := by
  rintro (⟨hn, hind, -⟩ | ⟨-, hzero, -⟩)
  · rw [S5.fileBlock, if_neg (not_lt.mpr hn), if_pos hind] at hne
    exact hne rfl
  · exact hne hzero

omit [BlockDev] in
theorem lacks_of_empty (hlacks : ¬ s.Lacks ino n false) (hzero : s.fileBlock ino n = 0) :
    s.Lacks ino n true ↔ (s.mapSource ino n).NoFree := by
  constructor
  · rintro (hfirst | ⟨-, -, hfree⟩)
    · exact absurd (Or.inl hfirst) hlacks
    · exact hfree
  · intro hfree
    exact Or.inr ⟨rfl, hzero, hfree⟩

/-- Page `n` of the file has a block and is marked dirty. -/
structure Dirtied (D : Multiset UInt32) (ino n : Nat) (v : Vnode) (s s' : S5) : Prop where
  accounted : Accounted D 0 s'
  grew : Grew ino (· = n) s s'
  ne_zero : s'.fileBlock ino n ≠ 0
  fresh : s.fileBlock ino n = 0 →
    s'.bdevDirty (s'.fileBlock ino n) = (s.mapSource ino n).reusesDirty
  vnodes : s'.vnodes =
    Function.update s.vnodes ino (some (v.setFrame n { v.vnFrame n with dirty := true }))

def DirtyOutcome (D : Multiset UInt32) (ino n : Nat) (v : Vnode) (s : S5) (r : Int) (s' : S5) :
    Prop :=
  s.Lacks ino n true ∧ r = -enospc ∧ Accounted D 0 s' ∧ Grew ino (fun _ => False) s s' ∧
      s'.vnodes = s.vnodes ∨
    ¬ s.Lacks ino n true ∧ r = 0 ∧ Dirtied D ino n v s s'

/-- `s5fs_dirtypage` gives the page a block. -/
theorem wp_s5fsDirtypage (h : FileAt D 0 ino s) (hmax : n < s5MaxFileBlocks) :
    wp (s5fsDirtypage ino (pnToAddr n)) (fun r s' =>
      s.Lacks ino n true ∧ r = -enospc ∧ Accounted D 0 s' ∧ Grew ino (fun _ => False) s s' ∧
        s'.vnodes = s.vnodes ∨
      ¬ s.Lacks ino n true ∧ r = 0 ∧ Accounted D 0 s' ∧ Grew ino (· = n) s s' ∧
        s'.fileBlock ino n ≠ 0 ∧ s'.vnodes = s.vnodes ∧ (s.fileBlock ino n = 0 →
          s'.bdevDirty (s'.fileBlock ino n) = (s.mapSource ino n).reusesDirty)) s := by
  have hn : n < 524288 := by
    simp at hmax
    omega
  unfold s5fsDirtypage
  refine wp_bind_of (wp_seekPage h hn false) ?_
  rintro r s1 (⟨hpast, -⟩ | ⟨-, ⟨hlacks, rfl, hsame, hacc, hvnodes, hgrew⟩ |
    ⟨hlacks, rfl, hsought⟩⟩)
  · exact absurd hmax (not_lt.mpr hpast)
  · rw [if_pos (by decide)]
    have htrue : s.Lacks ino n true := by
      rcases hlacks with hfirst | ⟨h, -⟩
      · exact Or.inl hfirst
      · exact Bool.noConfusion h
    exact wp_pure.mpr (Or.inl ⟨htrue, rfl, hacc, hgrew, hvnodes⟩)
  have h1 := hsought.fileAt h
  obtain ⟨hnonneg, hzero⟩ := h1.toInt32_fileBlock hmax
  have hgrew : Grew ino (fun _ => False) s s1 :=
    hsought.grew.mono fun m hm => Bool.noConfusion hm.1
  have hblock : s1.fileBlock ino n = s.fileBlock ino n :=
    hgrew.fileBlock ino h.lt h.isFile n fun _ hfalse => hfalse.elim
  rw [if_neg (not_lt.mpr hnonneg)]
  by_cases hempty : s1.fileBlock ino n = 0
  · rw [if_neg (by rw [hzero.mpr hempty]; decide)]
    obtain ⟨hhere, hsuper, hreuses⟩ := hsought.source rfl
    have hsource1 : s1.mapSource ino n = s1 := if_pos hhere
    have hlacks1 : s1.Lacks ino n true ↔ s.Lacks ino n true := by
      rw [lacks_of_empty hlacks (hblock ▸ hempty), lacks_of_empty _ hempty, hsource1]
      · unfold S5.NoFree
        rw [hsuper]
      · rintro (⟨hge, hind, -⟩ | ⟨h, -⟩)
        · exact hhere.elim (not_lt.mpr hge) fun hne => hne hind
        · exact Bool.noConfusion h
    refine wp_bind_of (wp_seekPage h1 hn true) ?_
    rintro r s2 (⟨hpast, -⟩ | ⟨-, ⟨hlack, rfl, -, hacc, hvnodes, hgrew'⟩ |
      ⟨hlack, rfl, hsought'⟩⟩)
    · exact absurd hmax (not_lt.mpr hpast)
    · rw [if_pos (by decide)]
      exact wp_pure.mpr (Or.inl ⟨hlacks1.mp hlack, rfl, hacc, hgrew.trans hgrew',
        hvnodes.trans hsought.vnodes⟩)
    · obtain ⟨hnonneg2, -⟩ := (hsought'.fileAt h1).toInt32_fileBlock hmax
      rw [if_neg (not_lt.mpr hnonneg2)]
      refine wp_pure.mpr (Or.inr ⟨fun h => hlack (hlacks1.mpr h), rfl, hsought'.accounted,
        (hgrew.mono fun _ hfalse => hfalse.elim).trans (hsought'.grew.mono fun _ hm => hm.2),
        hsought'.ne_zero rfl, hsought'.vnodes.trans hsought.vnodes, fun _ => ?_⟩)
      rw [hsought'.fresh hempty (hsought'.ne_zero rfl), hsource1, hreuses]
  · have hpos : 0 < toInt32 (s1.fileBlock ino n) :=
      lt_of_le_of_ne hnonneg fun heq => hempty (hzero.mp heq.symm)
    rw [if_pos hpos]
    exact wp_pure.mpr (Or.inr ⟨not_lacks_of_ne_zero (hblock ▸ hempty) true, rfl,
      hsought.accounted, hgrew.mono fun _ hfalse => hfalse.elim, hempty, hsought.vnodes,
      fun hzero' => absurd (hblock.trans hzero') hempty⟩)

theorem wp_pframeDirty (h : FileAt D 0 ino s) (hv : s.vnodes ino = some v)
    (hmode : v.vnMode = .reg ∨ v.vnMode = .dir) (hpage : n ∈ v.vnRespages)
    (hmax : n < s5MaxFileBlocks) (hmapped : (v.vnFrame n).dirty = true → s.fileBlock ino n ≠ 0) :
    wp (pframeDirty ino n) (DirtyOutcome D ino n v s) s := by
  have hset (s' : S5) (hv' : s'.vnodes = s.vnodes) : setDirty ino n true s' = .ok ((),
      s'.setVnode ino (some (v.setFrame n { v.vnFrame n with dirty := true }))) :=
    setDirty_apply (by rw [hv', hv]) true
  unfold pframeDirty
  rw [wp_bind, wp_of_eq (getVnode_apply hv), decide_eq_true hpage, check_true, wp_bind, wp_pure,
    wp_bind]
  cases hdirty : (v.vnFrame n).dirty with
  | true =>
      have hdirtypage : vdirtypage ino n s = .ok (0, s) := by
        rw [vdirtypage, bind_eq_of_ok (getVnode_apply hv), hdirty]
        rfl
      rw [wp_of_eq hdirtypage, if_pos rfl, wp_bind, wp_of_eq (hset s rfl)]
      have hne := hmapped hdirty
      exact wp_pure.mpr (Or.inr ⟨not_lacks_of_ne_zero hne true, rfl, h.accounted.setVnode _ _,
        (Grew.refl ..).setVnode _ _, hne, fun hzero => absurd hzero hne, rfl⟩)
  | false =>
      have hdirtypage : vdirtypage ino n s = s5fsDirtypage ino (pnToAddr n) s := by
        rw [vdirtypage, bind_eq_of_ok (getVnode_apply hv), hdirty]
        rcases hmode with hmode | hmode <;> rw [hmode] <;> rfl
      obtain ⟨r, s1, heq, hout⟩ := wp_s5fsDirtypage h hmax
      rw [wp_of_eq (hdirtypage.trans heq)]
      rcases hout with ⟨hlacks, rfl, hacc, hgrew, hvnodes⟩ |
        ⟨hlacks, rfl, hacc, hgrew, hne, hvnodes, hfresh⟩
      · rw [if_neg (by decide)]
        exact wp_pure.mpr (Or.inl ⟨hlacks, rfl, hacc, hgrew, hvnodes⟩)
      · rw [if_pos rfl, wp_bind, wp_of_eq (hset s1 hvnodes)]
        refine wp_pure.mpr (Or.inr ⟨hlacks, rfl, hacc.setVnode _ _, hgrew.setVnode _ _, hne,
          hfresh, ?_⟩)
        change Function.update s1.vnodes ino _ = _
        rw [hvnodes]

/-! ### Writing a page out -/

/-- Page `n` of the file was written to its block. -/
structure Cleaned (ino n : Nat) (v : Vnode) (s s' : S5) : Prop where
  super : s'.super = s.super
  inodes : s'.inodes = s.inodes
  disk : s'.disk = Function.update s.disk (s.fileBlock ino n) (v.vnFrame n).data
  dirty : ∀ c, s'.bdevDirty c = s.bdevDirty c
  bview : ∀ c, c ≠ s.fileBlock ino n → s'.bview c = s.bview c
  bdev : ∀ c, s.bdev c ≠ none ∨ c ≠ (s.inodes ino).s5IndirectBlock → s'.bdev c = s.bdev c
  vnodes : s'.vnodes =
    Function.update s.vnodes ino (some (v.setFrame n { v.vnFrame n with dirty := false }))

omit [BlockDev] in
theorem bdev_cacheBdev_of_ne {b c : UInt32} (h : s.bdev c ≠ none ∨ c ≠ b) :
    (s.cacheBdev b).bdev c = s.bdev c := by
  by_cases hc : c = b
  · subst hc
    obtain ⟨p, hp⟩ := Option.ne_none_iff_exists'.mp (h.resolve_right (not_not.mpr rfl))
    rw [S5.cacheBdev, S5.bdev_setBdev_self, hp]
    rfl
  · rw [S5.cacheBdev, S5.bdev_setBdev_of_ne hc]

theorem wp_pframeClean (h : FileAt D 0 ino s) (hv : s.vnodes ino = some v)
    (hmode : v.vnMode = .reg ∨ v.vnMode = .dir) (hpage : n ∈ v.vnRespages)
    (hmax : n < s5MaxFileBlocks) (hdirty : (v.vnFrame n).dirty = true)
    (hne : s.fileBlock ino n ≠ 0) :
    wp (pframeClean ino n) (fun r s' => r = 0 ∧ Cleaned ino n v s s') s := by
  have hn : n < 524288 := by
    simp at hmax
    omega
  set v1 := v.setFrame n { v.vnFrame n with dirty := false } with hv1
  set s1 := s.setVnode ino (some v1) with hs1
  have hfile1 : FileAt D 0 ino s1 := ⟨h.accounted.setVnode _ _, h.lt, h.isFile⟩
  have hvnode1 : s1.vnodes ino = some v1 := S5.vnodes_setVnode_self
  have hcleanpage : vcleanpage ino n s1 = s5fsCleanpage ino (pnToAddr n) n s1 := by
    rw [vcleanpage, bind_eq_of_ok (getVnode_apply hvnode1)]
    have hmode1 : v1.vnMode = .reg ∨ v1.vnMode = .dir := hmode
    rcases hmode1 with hmode1 | hmode1 <;> rw [hmode1]
  unfold pframeClean
  rw [wp_bind, wp_of_eq (getVnode_apply hv), decide_eq_true hpage, check_true, wp_bind, wp_pure,
    wp_bind, hdirty, kassert, check_true, wp_pure, wp_bind, wp_of_eq (setDirty_apply hv false),
    wp_bind]
  have hclean : wp (vcleanpage ino n) (fun r s' => r = 0 ∧ Cleaned ino n v s s') s1 := by
    rw [wp, hcleanpage]
    change wp (s5fsCleanpage ino (pnToAddr n) n) _ s1
    unfold s5fsCleanpage
    refine wp_bind_of (wp_seekPage hfile1 hn false) ?_
    rintro r s2 (⟨hpast, -⟩ | ⟨-, ⟨hlacks, -⟩ | ⟨-, rfl, hsought⟩⟩)
    · exact absurd hmax (not_lt.mpr hpast)
    · exact absurd hlacks (not_lacks_of_ne_zero (s := s1) hne false)
    have hfile2 := hsought.fileAt hfile1
    obtain ⟨hnonneg, -⟩ := hfile2.toInt32_fileBlock hmax
    have hblock : s2.fileBlock ino n = s.fileBlock ino n :=
      hsought.grew.fileBlock ino h.lt h.isFile n fun _ hm => Bool.noConfusion hm.1
    have hvnode2 : s2.vnodes ino = some v1 := hsought.vnodes ▸ hvnode1
    have hdata : (v1.vnFrame n).data = (v.vnFrame n).data := by
      simp [hv1, Vnode.setFrame]
    rw [if_neg (not_lt.mpr hnonneg), wp_bind, wp_of_eq (getVnode_apply hvnode2), ofInt32_toInt32,
      writeBlock, if_pos (hfile2.serves hmax (hblock ▸ hne)), wp_bind, wp_modify, wp_pure, hdata,
      hblock]
    rcases hsought.settled hne with rfl | rfl
    · refine ⟨rfl, rfl, rfl, rfl, fun _ => rfl, fun c hc => ?_, fun _ _ => rfl, rfl⟩
      unfold S5.bview S5.setDisk
      simp only [Function.update_of_ne hc]
      rfl
    · have hview := s1.bview_cacheBdev (s1.inodes ino).s5IndirectBlock
      refine ⟨rfl, rfl, rfl, rfl, fun c => s1.bdevDirty_cacheBdev _ c, fun c hc => ?_,
        fun c hc => bdev_cacheBdev_of_ne (s := s1) hc, rfl⟩
      refine Eq.trans ?_ (congrFun hview c)
      unfold S5.bview S5.setDisk
      simp only [Function.update_of_ne hc]
  refine wp_mono hclean ?_
  rintro r s' ⟨rfl, hcleaned⟩
  rw [if_neg (lt_irrefl 0)]
  exact wp_pure.mpr ⟨rfl, hcleaned⟩

end CodingSample.S5fs
