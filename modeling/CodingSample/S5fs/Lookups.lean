import CodingSample.S5fs.Ownership
import CodingSample.S5fs.Pages

/-!
# Look-ups

What `s5_seek_to_block` does when it is told not to allocate, and with it the two page operations
that only look a block up.
-/

namespace CodingSample.S5fs

open Prog

/-- The inodes, the free-block list and the contents of every block are the same. -/
structure Untouched (s s' : S5) : Prop where
  super : s'.super = s.super
  inodes : s'.inodes = s.inodes
  bview : s'.bview = s.bview
  disk : s'.disk = s.disk

/-- What says which blocks are free and which file has which block is the same. -/
structure SameAllocation (s s' : S5) : Prop where
  super : s'.super = s.super
  inodes : s'.inodes = s.inodes
  node : ∀ c, s.IsNode c → s'.bview c = s.bview c
  fileBlock : ∀ j < s.super.s5sNumInodes, (s.inodes j).IsFile →
    ∀ n, s'.fileBlock j n = s.fileBlock j n

namespace Untouched

variable {s s' s'' : S5}

theorem refl (s : S5) : Untouched s s := ⟨rfl, rfl, rfl, rfl⟩

theorem cacheBdev (s : S5) (b : UInt32) : Untouched s (s.cacheBdev b) :=
  ⟨rfl, rfl, s.bview_cacheBdev b, rfl⟩

theorem trans (h : Untouched s s') (h' : Untouched s' s'') : Untouched s s'' :=
  ⟨h'.super.trans h.super, h'.inodes.trans h.inodes, h'.bview.trans h.bview, h'.disk.trans h.disk⟩

theorem setVnode (s : S5) (ino : Nat) (v : Option Vnode) : Untouched s (s.setVnode ino v) :=
  ⟨rfl, rfl, rfl, rfl⟩

theorem sameAllocation (h : Untouched s s') : SameAllocation s s' := by
  refine ⟨h.super, h.inodes, fun c _ => congrFun h.bview c, fun j _ _ n => ?_⟩
  exact S5.fileBlock_congr (congrFun h.inodes j) (fun _ => congrFun h.bview _) n

end Untouched

variable [BlockDev]

variable {D t : Multiset UInt32} {s s' : S5} {ino pagebuf : Nat} {seekptr : Int}

/-- The block can be found without the indirect block, or there is one. -/
def Reaches (s : S5) (ino n : Nat) : Prop :=
  n < s5NdirectBlocks ∨ (s.inodes ino).s5IndirectBlock ≠ 0

/-- Where a look-up can reach the block it leaves everything as it is. -/
theorem seek_of_reaches (h : FileAt D t ino s) (hpos : 0 ≤ seekptr)
    (hmax : (seekptr / 4096).toNat < s5MaxFileBlocks)
    (hreach : Reaches s ino (seekptr / 4096).toNat) :
    ∃ s', s5SeekToBlock ino seekptr false s =
        .ok (toInt32 (s.fileBlock ino (seekptr / 4096).toNat), s') ∧
      Untouched s s' ∧ s'.vnodes = s.vnodes := by
  have hblocksize : ((s5BlockSize : Nat) : Int) = 4096 := rfl
  unfold s5SeekToBlock
  rw [hblocksize]
  generalize (seekptr / 4096).toNat = n at *
  rw [kassert, decide_eq_true hpos, check_true, bind_eq_of_ok (pure_apply () s)]
  rw [if_neg (by simp at hmax ⊢; omega)]
  by_cases hn : n < s5NdirectBlocks
  · rw [if_pos hn, s5SeekDirect, bind_eq_of_ok (get_apply s), fileBlock_of_direct hn]
    refine ⟨s, ?_, .refl s, rfl⟩
    split
    · rename_i hzero
      rw [hzero]
      rfl
    · rfl
  · have hind := hreach.resolve_left hn
    obtain ⟨nodes, hl⟩ := h.accounted
    have hserves : BlockDev.serves (s.inodes ino).s5IndirectBlock = true :=
      hl.region.serves _ (hl.mem_of_allMapped (Ledger.indirect_mem h.lt h.isFile hind))
    have hget : s5GetIndirect ino s = .ok (0, s.cacheBdev (s.inodes ino).s5IndirectBlock) := by
      rw [s5GetIndirect, bind_eq_of_ok (get_apply s), if_neg hind,
        pframeGetBdev_eq_cacheBdev s hserves]
    rw [if_neg hn, bind_eq_of_ok hget, if_neg (lt_irrefl 0), fileBlock_of_indirect hn hind,
      s5SeekIndirect, bind_eq_of_ok (get_apply _)]
    refine ⟨s.cacheBdev (s.inodes ino).s5IndirectBlock, ?_, .cacheBdev s _, rfl⟩
    have hinodes : (s.cacheBdev (s.inodes ino).s5IndirectBlock).inodes = s.inodes := rfl
    rw [hinodes, S5.bview_cacheBdev]
    split
    · rename_i hzero
      rw [hzero]
      rfl
    · rfl

/-- Where it cannot, it allocates the indirect block or reports that there is no space. -/
theorem reaches_of_seek (h : FileAt D t ino s) (hpos : 0 ≤ seekptr)
    (hmax : (seekptr / 4096).toNat < s5MaxFileBlocks)
    (hseek : s5SeekToBlock ino seekptr false s =
      .ok (toInt32 (s.fileBlock ino (seekptr / 4096).toNat), s'))
    (hsame : Untouched s s') : Reaches s ino (seekptr / 4096).toNat := by
  have hpost := (wp_of_eq hseek).mp (wp_s5SeekToBlock h hpos hmax false)
  generalize (seekptr / 4096).toNat = n at *
  rcases hpost with ⟨hlacks, hr, -⟩ | ⟨-, -, hsought⟩
  · rcases hlacks with ⟨hn, hind, -⟩ | ⟨halloc, -⟩
    · rw [S5.fileBlock, if_neg (Nat.not_lt.mpr hn), if_pos hind] at hr
      exact absurd hr (by decide)
    · cases halloc
  · have hhere := (hsought.source rfl).1
    rw [hsame.inodes] at hhere
    exact hhere

/-! ### Pages that are filled and cleaned -/

omit [BlockDev] in
theorem wlp_getVnode_same : wlp (getVnode ino) (fun _ s' => s' = s) s := by
  unfold getVnode
  rw [wlp_bind, wlp_get]
  split
  · exact wlp_pure.mpr rfl
  · exact wlp_fail.mpr trivial

omit [BlockDev] in
theorem wlp_pokePage_same (f : Block → Block) :
    wlp (pokePage ino pagebuf f) (fun _ s' => Untouched s s') s := by
  unfold pokePage modifyVnode
  refine wlp_bind_of wlp_getVnode_same ?_
  rintro v _ rfl
  refine wlp_bind.mpr (wlp_check.mpr fun _ => ?_)
  refine wlp_bind_of wlp_getVnode_same ?_
  rintro v _ rfl
  exact wlp_modify.mpr (.setVnode _ ino _)

theorem wlp_readBlock (b : UInt32) :
    wlp (readBlock ino pagebuf b) (fun _ s' => Untouched s s') s := by
  unfold readBlock
  rw [wlp_bind, wlp_get]
  split
  · exact wlp_bind_of (wlp_pokePage_same _) fun _ _ h => wlp_pure.mpr h
  · exact wlp_pure.mpr (.refl s)

/-- Filling a page for a read. -/
theorem wlp_s5fsFillpage (h : FileAt D t ino s) (hpos : 0 ≤ seekptr)
    (hmax : (seekptr / 4096).toNat < s5MaxFileBlocks)
    (hreach : Reaches s ino (seekptr / 4096).toNat) :
    wlp (s5fsFillpage ino seekptr pagebuf) (fun _ s' => Untouched s s') s := by
  obtain ⟨s1, hseek, huntouched, -⟩ := seek_of_reaches h hpos hmax hreach
  unfold s5fsFillpage
  refine wlp_bind.mpr (wlp_of_wp ((wp_of_eq hseek).mpr ?_))
  split
  · exact wlp_pure.mpr huntouched
  · split
    · exact wlp_bind_of (wlp_pokePage_same _) fun _ _ h' => wlp_pure.mpr (huntouched.trans h')
    · exact wlp_mono (wlp_readBlock _) fun _ _ h' => huntouched.trans h'

/-- Writing to a data block, or to block `0`, leaves the allocation as it is. -/
theorem sameAllocation_setDisk (h : FileAt D t ino s) {n : Nat} (hmax : n < s5MaxFileBlocks)
    (hsame : Untouched s s') (d : Block) : SameAllocation s (s'.setDisk (s.fileBlock ino n) d) := by
  obtain ⟨nodes, hl⟩ := h.accounted
  set b := s.fileBlock ino n with hb
  have hview : ∀ c, c ≠ b → (s'.setDisk b d).bview c = s.bview c := by
    intro c hc
    have hbdev : (s'.setDisk b d).bdev c = s'.bdev c := rfl
    rw [← hsame.bview, S5.bview, S5.bview, hbdev]
    cases s'.bdev c with
    | some p => rfl
    | none => exact Function.update_of_ne hc d s'.disk
  refine ⟨hsame.super, hsame.inodes, fun c hc => hview c ?_, fun j hj hfile m => ?_⟩
  · have hmem : c ∈ s.freeList.listed 29 nodes :=
      FreeList.mem_listed_of_mem_nodes (hl.isNode_iff.mp hc)
    by_cases hzero : b = 0
    · rw [hzero]
      exact hl.pos (hl.mem_of_listed hmem)
    · have hmapped := Ledger.mem_allMapped h.lt (fileBlock_mem h.isFile hmax hzero)
      exact hl.ne_of_listed_mapped hmem hmapped
  · have hinode : (s'.setDisk b d).inodes j = s.inodes j := congrFun hsame.inodes j
    refine S5.fileBlock_congr hinode (fun hind => hview _ ?_) m
    by_cases hzero : b = 0
    · rw [hzero]
      exact hind
    · exact (Ledger.fileBlock_ne_indirect hl hj h.lt hfile h.isFile hmax hind hzero).symm

theorem wlp_s5fsCleanpage (h : FileAt D t ino s) (hpos : 0 ≤ seekptr)
    (hmax : (seekptr / 4096).toNat < s5MaxFileBlocks)
    (hreach : Reaches s ino (seekptr / 4096).toNat) :
    wlp (s5fsCleanpage ino seekptr pagebuf) (fun _ s' => SameAllocation s s') s := by
  obtain ⟨s1, hseek, huntouched, -⟩ := seek_of_reaches h hpos hmax hreach
  unfold s5fsCleanpage
  refine wlp_bind.mpr (wlp_of_wp ((wp_of_eq hseek).mpr ?_))
  split
  · exact wlp_pure.mpr huntouched.sameAllocation
  · refine wlp_bind_of wlp_getVnode_same ?_
    rintro v _ rfl
    unfold writeBlock
    split
    · rw [wlp_bind, wlp_modify, wlp_pure, ofInt32_toInt32]
      exact sameAllocation_setDisk h hmax huntouched _
    · exact wlp_pure.mpr huntouched.sameAllocation

/-- A look-up changes nothing and returns the block of the file, or `0` for a sparse one; filling
and cleaning a page leave the allocation as it is. -/
def LooksOnly (s : S5) (ino : Nat) (seekptr : Int) : Prop :=
  (∃ s', s5SeekToBlock ino seekptr false s =
      .ok (toInt32 (s.fileBlock ino (seekptr / 4096).toNat), s') ∧ Untouched s s') ∧
    ∀ pagebuf, wlp (s5fsFillpage ino seekptr pagebuf) (fun _ s' => SameAllocation s s') s ∧
      wlp (s5fsCleanpage ino seekptr pagebuf) (fun _ s' => SameAllocation s s') s

/-- **Looking does not allocate** exactly where the block is a direct one or the file has an
indirect block. -/
theorem looksOnly_iff (h : FileAt D t ino s) (hpos : 0 ≤ seekptr)
    (hmax : (seekptr / 4096).toNat < s5MaxFileBlocks) :
    LooksOnly s ino seekptr ↔
      (seekptr / 4096).toNat < s5NdirectBlocks ∨ (s.inodes ino).s5IndirectBlock ≠ 0 := by
  constructor
  · rintro ⟨⟨s', hseek, hsame⟩, -⟩
    exact reaches_of_seek h hpos hmax hseek hsame
  · intro hreach
    obtain ⟨s', hseek, hsame, -⟩ := seek_of_reaches h hpos hmax hreach
    refine ⟨⟨s', hseek, hsame⟩, fun pagebuf => ⟨?_, wlp_s5fsCleanpage h hpos hmax hreach⟩⟩
    exact wlp_mono (wlp_s5fsFillpage h hpos hmax hreach) fun _ _ h' => h'.sameAllocation

omit [BlockDev] in
theorem oneFree_fileAt : @FileAt plainDev {7} 0 0 oneFree :=
  @FileAt.mk plainDev {7} 0 0 oneFree ⟨[], oneFree_ledger⟩ (by decide) (.inr rfl)

omit [BlockDev] in
theorem looksOnly_iff_oneFree : @LooksOnly plainDev oneFree 0 114688 ↔
    ((114688 : Int) / 4096).toNat < s5NdirectBlocks ∨ (oneFree.inodes 0).s5IndirectBlock ≠ 0 :=
  @looksOnly_iff plainDev _ _ _ _ _ oneFree_fileAt (by decide) (by decide)

omit [BlockDev] in
/-- A look at the first page in the indirect range of an empty directory takes the only free
block. -/
theorem look_allocates : ¬@LooksOnly plainDev oneFree 0 114688 := by
  rintro ⟨⟨s', hseek, hsame⟩, -⟩
  have hreach : Reaches oneFree 0 ((114688 : Int) / 4096).toNat :=
    @reaches_of_seek plainDev _ _ _ _ _ _ oneFree_fileAt (by decide) (by decide) hseek hsame
  rcases hreach with hlt | hne
  · exact absurd hlt (by decide)
  · exact hne rfl

end CodingSample.S5fs
