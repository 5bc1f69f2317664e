import CodingSample.S5fs.Ledger

/-!
# Block maps

`s5_seek_to_block` reads and extends the block map of one file. What it may do to the rest of the
state is collected in `Grew`; with the ledger that is all that later modules need of it.
-/

namespace CodingSample.S5fs

open Prog

namespace S5

/-- The disk block of page `n` of a file, `0` for a sparse one. -/
def fileBlock (s : S5) (ino n : Nat) : UInt32 :=
  if n < s5NdirectBlocks then
    (s.inodes ino).s5DirectBlocks n
  else if (s.inodes ino).s5IndirectBlock = 0 then
    0
  else
    (s.bview (s.inodes ino).s5IndirectBlock).word (n - s5NdirectBlocks)

/-- The state in which `s5_seek_to_block` allocates the block of page `n`. -/
def mapSource (s : S5) (ino n : Nat) : S5 :=
  if n < s5NdirectBlocks ∨ (s.inodes ino).s5IndirectBlock ≠ 0 then s else s.afterAlloc

/-- `s5_seek_to_block` cannot get a block it needs for page `n`. -/
def Lacks (s : S5) (ino n : Nat) (alloc : Bool) : Prop :=
  s5NdirectBlocks ≤ n ∧ (s.inodes ino).s5IndirectBlock = 0 ∧ s.NoFree ∨
    alloc = true ∧ s.fileBlock ino n = 0 ∧ (s.mapSource ino n).NoFree

instance (s : S5) (ino n : Nat) (alloc : Bool) : Decidable (s.Lacks ino n alloc) :=
  inferInstanceAs (Decidable (_ ∨ _))

/-- The state with the page of block `b` resident in the block device. -/
def cacheBdev (s : S5) (b : UInt32) : S5 :=
  s.setBdev b (some ((s.bdev b).getD ⟨s.disk b, false⟩))

@[simp] theorem bview_cacheBdev (s : S5) (b : UInt32) : (s.cacheBdev b).bview = s.bview := by
  rw [cacheBdev, bview_setBdev_some]
  have hdata : ((s.bdev b).getD ⟨s.disk b, false⟩).data = s.bview b := by
    unfold bview
    cases s.bdev b <;> rfl
  rw [hdata, Function.update_eq_self]

theorem cacheBdev_cacheBdev (s : S5) (b : UInt32) : (s.cacheBdev b).cacheBdev b = s.cacheBdev b := by
  simp [cacheBdev, setBdev]

/-- The block has a dirty page in the block device's memory object. -/
def bdevDirty (s : S5) (b : UInt32) : Bool := (s.bdev b).any (·.dirty)

/-- The next allocation hands out a block that still has a dirty page in the block device's
memory object. A block taken from a free-list node has none. -/
def reusesDirty (s : S5) : Bool := decide (s.super.s5sNfree ≠ 0) && s.bdevDirty s.nextBlock

/-- A page of the block device that is not dirty agrees with the disk. -/
def Synced (s : S5) (b : UInt32) : Prop := s.bdevDirty b = false → s.bview b = s.disk b

theorem bdevDirty_congr {s s' : S5} {b : UInt32} (h : s'.bdev b = s.bdev b) :
    s'.bdevDirty b = s.bdevDirty b := by
  rw [bdevDirty, bdevDirty, h]

theorem bdevDirty_cacheBdev (s : S5) (b c : UInt32) :
    (s.cacheBdev b).bdevDirty c = s.bdevDirty c := by
  by_cases hc : c = b
  · subst hc
    rw [bdevDirty, bdevDirty, cacheBdev, bdev_setBdev_self]
    cases s.bdev c <;> rfl
  · apply bdevDirty_congr
    rw [cacheBdev, bdev_setBdev_of_ne hc]

/-- The page of a block as the block device would show it, fetched if need be. -/
theorem bdev_cacheBdev_self (s : S5) (b : UInt32) :
    ∃ d, (s.cacheBdev b).bdev b = some ⟨s.bview b, d⟩ := by
  rw [cacheBdev, bdev_setBdev_self]
  unfold bview
  cases s.bdev b with
  | none => exact ⟨false, rfl⟩
  | some p => exact ⟨p.dirty, rfl⟩

theorem fileBlock_congr {s s' : S5} {ino : Nat} (hi : s'.inodes ino = s.inodes ino)
    (hv : (s.inodes ino).s5IndirectBlock ≠ 0 →
      s'.bview (s.inodes ino).s5IndirectBlock = s.bview (s.inodes ino).s5IndirectBlock)
    (n : Nat) : s'.fileBlock ino n = s.fileBlock ino n := by
  unfold fileBlock
  rw [hi]
  split
  · rfl
  split
  · rfl
  · rename_i hne
    rw [hv hne]

end S5

/-- What taking block `b` off the free list changes. -/
structure Took (s : S5) (b : UInt32) (s' : S5) : Prop where
  super : s'.super = { s.super with
    s5sNfree := s'.super.s5sNfree, s5sFreeBlocks := s'.super.s5sFreeBlocks }
  inodes : s'.inodes = s.inodes
  vnodes : s'.vnodes = s.vnodes
  bview : ∀ c, c ≠ b → s'.bview c = s.bview c
  bdev : ∀ c, c ≠ b → s'.bdev c = s.bdev c
  disk : ∀ c, c ≠ b → s'.disk c = s.disk c
  node : ∀ c, s'.IsNode c → s.IsNode c ∧ c ≠ b
  /-- Only a block from an array slot can still have a page of the block device. -/
  page : s'.bdev b = if s.super.s5sNfree = 0 then none else s.bdev b

variable [BlockDev]

theorem pframeGetBdev_eq_cacheBdev {b : UInt32} (s : S5) (hb : BlockDev.serves b = true) :
    pframeGetBdev b s = .ok (0, s.cacheBdev b) := by
  rw [pframeGetBdev_apply, if_neg (by simp [hb]), S5.cacheBdev]

/-- The ledger of some chain of free-list nodes. -/
def Accounted (D t : Multiset UInt32) (s : S5) : Prop := ∃ nodes, Ledger D t nodes s

variable {D t : Multiset UInt32} {nodes : List UInt32} {s s' s'' : S5} {b : UInt32} {ino : Nat}

theorem Ledger.of_same_view (h : Ledger D t nodes s) (hsuper : s'.super = s.super)
    (hinodes : s'.inodes = s.inodes) (hview : s'.bview = s.bview)
    (huncached : s'.bdev noBlock = none) : Ledger D t nodes s' := by
  have hlist : s'.freeList = s.freeList := by
    unfold S5.freeList
    rw [hsuper, hview]
  refine ⟨hsuper ▸ h.region, hlist ▸ h.wf, ?_, huncached⟩
  have hmapped : allMapped s' = allMapped s := by
    unfold allMapped
    rw [hsuper, hinodes, hview]
  rw [hlist, hmapped]
  exact h.total

theorem Ledger.cacheBdev (h : Ledger D t nodes s) (hb : b ≠ noBlock) :
    Ledger D t nodes (s.cacheBdev b) := by
  refine h.of_same_view rfl rfl (s.bview_cacheBdev b) ?_
  rw [S5.cacheBdev, S5.bdev_setBdev_of_ne hb.symm]
  exact h.uncached

/-- **One allocation.** Either nothing is free and nothing happens, or the next block comes off
the list. -/
theorem Ledger.alloc (h : Ledger D t nodes s) :
    (s.NoFree ∧ s5AllocBlock s = .ok (-enospc, s)) ∨
    (¬ s.NoFree ∧ ∃ nodes', s5AllocBlock s = .ok (toInt32 s.nextBlock, s.afterAlloc) ∧
      Took s s.nextBlock s.afterAlloc ∧ s.nextBlock ∈ s.freeList.listed 29 nodes ∧
      Ledger D (s.nextBlock ::ₘ t) nodes' s.afterAlloc) := by
  by_cases hfree : s.NoFree
  · refine Or.inl ⟨hfree, s5AllocBlock_of_refused hfree.1 ?_ ?_⟩
    · rw [hfree.2]
      exact h.uncached
    · rw [hfree.2]
      exact BlockDev.refuses_noBlock
  · obtain ⟨rest, hrest, hledger⟩ := h.afterAlloc hfree
    have hmem := h.nextBlock_mem hfree
    refine Or.inr ⟨hfree, rest, s5AllocBlock_of_free (h.region.serves _ (h.mem_of_listed hmem)),
      ⟨s.super_afterAlloc, s.inodes_afterAlloc, s.vnodes_afterAlloc,
        fun _ hc => s.bview_afterAlloc_of_ne hc, fun _ hc => s.bdev_afterAlloc_of_ne hc,
        fun _ hc => s.disk_afterAlloc_of_ne hc, fun c hc => ?_, s.bdev_afterAlloc_self⟩, hmem,
      hledger⟩
    rw [hledger.isNode_iff] at hc
    rw [h.isNode_iff]
    exact hrest c hc

/-! ### Growing the map of one file -/

/-- How the map of file `ino` may grow, at pages in `P`, while everything that was mapped stays
as it was. -/
structure Grew (ino : Nat) (P : Nat → Prop) (s s' : S5) : Prop where
  super : s'.super = { s.super with
    s5sNfree := s'.super.s5sNfree, s5sFreeBlocks := s'.super.s5sFreeBlocks }
  inode : s'.inodes ino = { s.inodes ino with
    s5DirectBlocks := (s'.inodes ino).s5DirectBlocks
    s5IndirectBlock := (s'.inodes ino).s5IndirectBlock }
  others : ∀ j, j ≠ ino → s'.inodes j = s.inodes j
  mapped : ∀ c ∈ allMapped s, c ∈ allMapped s'
  disk : ∀ c ∈ allMapped s, s'.disk c = s.disk c
  fileBlock : ∀ j < s.super.s5sNumInodes, (s.inodes j).IsFile → ∀ n,
    (j = ino → P n → s.fileBlock j n ≠ 0) → s'.fileBlock j n = s.fileBlock j n
  indirect : (s.inodes ino).s5IndirectBlock ≠ 0 →
    (s'.inodes ino).s5IndirectBlock = (s.inodes ino).s5IndirectBlock
  page : ∀ c ∈ allMapped s, c ≠ (s'.inodes ino).s5IndirectBlock →
    s'.bview c = s.bview c ∧ s'.bdevDirty c = s.bdevDirty c
  node : ∀ c, s'.IsNode c → s.IsNode c ∧
    s'.bview c = s.bview c ∧ s'.bdevDirty c = s.bdevDirty c ∧ s'.disk c = s.disk c
  synced : ((s.inodes ino).s5IndirectBlock ≠ 0 → s.Synced (s.inodes ino).s5IndirectBlock) →
    (s'.inodes ino).s5IndirectBlock ≠ 0 → s'.Synced (s'.inodes ino).s5IndirectBlock

omit [BlockDev] in
theorem ne_zero_of_mem_mapped {view : UInt32 → Block} {i : Inode} (h : b ∈ mapped view i) :
    b ≠ 0 := by
  have hheld {n : Nat} {f : Nat → UInt32} (hb : b ∈ held n f) : b ≠ 0 := (mem_held.mp hb).2
  have hfamily {c : UInt32} (hb : b ∈ indirectFamily view c) : b ≠ 0 := by
    unfold indirectFamily at hb
    split at hb
    · simp at hb
    · rename_i hc
      rcases Multiset.mem_cons.mp hb with rfl | hb
      · exact hc
      · exact hheld hb
  unfold mapped at h
  split at h
  · simp at h
  · exact hheld h
  · exact hheld h
  · rcases Multiset.mem_add.mp h with h | h
    · exact hheld h
    · exact hfamily h
  · rcases Multiset.mem_add.mp h with h | h
    · exact hheld h
    · exact hfamily h

omit [BlockDev] in
theorem ne_zero_of_mem_allMapped (h : b ∈ allMapped s) : b ≠ 0 := by
  obtain ⟨j, _, hj⟩ := Multiset.mem_sum.mp h
  exact ne_zero_of_mem_mapped hj

namespace Grew

variable {P : Nat → Prop}

omit [BlockDev] in
theorem refl (ino : Nat) (P : Nat → Prop) (s : S5) : Grew ino P s s :=
  ⟨rfl, rfl, fun _ _ => rfl, fun _ hc => hc, fun _ _ => rfl, fun _ _ _ _ _ => rfl,
    fun _ => rfl, fun _ _ _ => ⟨rfl, rfl⟩, fun _ hc => ⟨hc, rfl, rfl, rfl⟩, id⟩

omit [BlockDev] in
theorem numInodes (h : Grew ino P s s') : s'.super.s5sNumInodes = s.super.s5sNumInodes := by
  rw [h.super]

omit [BlockDev] in
theorem isFile_iff (h : Grew ino P s s') (j : Nat) :
    (s'.inodes j).IsFile ↔ (s.inodes j).IsFile := by
  by_cases hj : j = ino
  · subst hj
    rw [h.inode]
    rfl
  · rw [h.others j hj]

omit [BlockDev] in
theorem trans (h : Grew ino P s s') (h' : Grew ino P s' s'') : Grew ino P s s'' := by
  refine ⟨?_, ?_, fun j hj => (h'.others j hj).trans (h.others j hj),
    fun c hc => h'.mapped c (h.mapped c hc),
    fun c hc => (h'.disk c (h.mapped c hc)).trans (h.disk c hc), fun j hj hfile n hn => ?_,
    fun hne => ?_, fun c hc hind => ?_, fun c hc => ?_, fun hs => h'.synced (h.synced hs)⟩
  · rw [h'.super, h.super]
  · rw [h'.inode, h.inode]
  · have hstep := h.fileBlock j hj hfile n hn
    refine (h'.fileBlock j (h.numInodes ▸ hj) ((h.isFile_iff j).mpr hfile) n ?_).trans hstep
    intro heq hP
    rw [hstep]
    exact hn heq hP
  · have hkeep := h.indirect hne
    exact (h'.indirect (hkeep ▸ hne)).trans hkeep
  · have hfirst : c ≠ (s'.inodes ino).s5IndirectBlock := by
      rintro rfl
      exact hind (h'.indirect (ne_zero_of_mem_allMapped hc)).symm
    obtain ⟨hview, hdirty⟩ := h'.page c (h.mapped c hc) hind
    obtain ⟨hview0, hdirty0⟩ := h.page c hc hfirst
    exact ⟨hview.trans hview0, hdirty.trans hdirty0⟩
  · obtain ⟨hc', hview', hdirty', hdisk'⟩ := h'.node c hc
    obtain ⟨hc0, hview, hdirty, hdisk⟩ := h.node c hc'
    exact ⟨hc0, hview'.trans hview, hdirty'.trans hdirty, hdisk'.trans hdisk⟩

omit [BlockDev] in
theorem mono {P' : Nat → Prop} (h : Grew ino P s s') (hP : ∀ n, P n → P' n) : Grew ino P' s s' :=
  { h with fileBlock := fun j hj hfile n hn =>
      h.fileBlock j hj hfile n fun heq hn' => hn heq (hP n hn') }

end Grew

omit [BlockDev] in
theorem grew_cacheBdev (ino : Nat) (P : Nat → Prop) (s : S5) (b : UInt32) :
    Grew ino P s (s.cacheBdev b) := by
  refine ⟨rfl, rfl, fun _ _ => rfl, fun c hc => ?_, fun _ _ => rfl, fun j _ _ n _ => ?_,
    fun _ => rfl, fun c _ _ => ⟨by rw [S5.bview_cacheBdev], s.bdevDirty_cacheBdev b c⟩,
    fun c hc => ⟨?_, by rw [S5.bview_cacheBdev], s.bdevDirty_cacheBdev b c, rfl⟩,
    fun hs hne hclean => ?_⟩
  · have : allMapped (s.cacheBdev b) = allMapped s := by
      unfold allMapped
      rw [S5.bview_cacheBdev]
      rfl
    rwa [this]
  · refine S5.fileBlock_congr ?_ (fun _ => ?_) n
    · rfl
    · rw [S5.bview_cacheBdev]
  · unfold S5.IsNode S5.freeList at hc
    rw [S5.bview_cacheBdev] at hc
    exact hc
  · rw [S5.bview_cacheBdev]
    exact hs hne ((s.bdevDirty_cacheBdev b _).symm.trans hclean)

/-! ### The parts of `s5_seek_to_block` -/

/-- The file system and the inode a block map belongs to. -/
structure FileAt (D t : Multiset UInt32) (ino : Nat) (s : S5) : Prop where
  accounted : Accounted D t s
  lt : ino < s.super.s5sNumInodes
  isFile : (s.inodes ino).IsFile

omit [BlockDev] in
theorem fileBlock_of_direct {n : Nat} (hn : n < s5NdirectBlocks) :
    s.fileBlock ino n = (s.inodes ino).s5DirectBlocks n := if_pos hn

omit [BlockDev] in
theorem fileBlock_of_indirect {n : Nat} (hn : ¬ n < s5NdirectBlocks)
    (hind : (s.inodes ino).s5IndirectBlock ≠ 0) :
    s.fileBlock ino n =
      (s.bview (s.inodes ino).s5IndirectBlock).word (n - s5NdirectBlocks) := by
  rw [S5.fileBlock, if_neg hn, if_neg hind]

omit [BlockDev] in
theorem fileBlock_mem (hfile : (s.inodes ino).IsFile) {n : Nat} (hn : n < s5MaxFileBlocks)
    (hne : s.fileBlock ino n ≠ 0) : s.fileBlock ino n ∈ mapped s.bview (s.inodes ino) := by
  by_cases hdirect : n < s5NdirectBlocks
  · rw [fileBlock_of_direct hdirect] at hne ⊢
    exact direct_mem_mapped hfile hdirect hne
  · have hind : (s.inodes ino).s5IndirectBlock ≠ 0 := by
      intro hind
      rw [S5.fileBlock, if_neg hdirect, if_pos hind] at hne
      exact hne rfl
    rw [fileBlock_of_indirect hdirect hind] at hne ⊢
    apply entry_mem_mapped hfile hind _ hne
    simp at hn hdirect ⊢
    omega

namespace Ledger

theorem nodup_mapped (h : Ledger D t nodes s) (hino : ino < s.super.s5sNumInodes) :
    (mapped s.bview (s.inodes ino)).Nodup := by
  have hall : (allMapped s).Nodup := (Multiset.nodup_add.mp h.nodup).2.1
  rw [allMapped, ← Finset.add_sum_erase _ _ (Finset.mem_range.mpr hino)] at hall
  exact (Multiset.nodup_add.mp hall).1

theorem disjoint_mapped (h : Ledger D t nodes s) {j : Nat} (hino : ino < s.super.s5sNumInodes)
    (hj : j < s.super.s5sNumInodes) (hne : ino ≠ j) :
    Disjoint (mapped s.bview (s.inodes ino)) (mapped s.bview (s.inodes j)) := by
  have hall : (allMapped s).Nodup := (Multiset.nodup_add.mp h.nodup).2.1
  exact disjoint_of_nodup_sum hall hino hj hne

/-- Two pages do not share a block. -/
theorem fileBlock_inj (h : Ledger D t nodes s) {j m n : Nat} (hino : ino < s.super.s5sNumInodes)
    (hj : j < s.super.s5sNumInodes) (hfile : (s.inodes ino).IsFile)
    (hjfile : (s.inodes j).IsFile) (hm : m < s5MaxFileBlocks) (hn : n < s5MaxFileBlocks)
    (hne : s.fileBlock ino m ≠ 0) (heq : s.fileBlock ino m = s.fileBlock j n) :
    ino = j ∧ m = n := by
  have hmem := fileBlock_mem hfile hm hne
  have hmem' := fileBlock_mem hjfile hn (heq ▸ hne)
  have hsame : ino = j := by
    by_contra hij
    exact Multiset.disjoint_left.mp (h.disjoint_mapped hino hj hij) hmem (heq ▸ hmem')
  subst hsame
  refine ⟨rfl, ?_⟩
  have hnodup := h.nodup_mapped hino
  rw [mapped_of_isFile hfile] at hnodup
  obtain ⟨hdirect, hindirect, hdisjoint⟩ := Multiset.nodup_add.mp hnodup
  have hfamily {k : Nat} (hk : ¬ k < s5NdirectBlocks) (hkne : s.fileBlock ino k ≠ 0) :
      (s.inodes ino).s5IndirectBlock ≠ 0 := by
    intro hind
    rw [S5.fileBlock, if_neg hk, if_pos hind] at hkne
    exact hkne rfl
  have hentry {k : Nat} (hk : ¬ k < s5NdirectBlocks) (hkmax : k < s5MaxFileBlocks)
      (hkne : s.fileBlock ino k ≠ 0) :
      s.fileBlock ino k ∈ indirectFamily s.bview (s.inodes ino).s5IndirectBlock := by
    have hind := hfamily hk hkne
    rw [indirectFamily, if_neg hind]
    rw [fileBlock_of_indirect hk hind] at hkne ⊢
    refine Multiset.mem_cons_of_mem (mem_held.mpr ⟨⟨_, ?_, rfl⟩, hkne⟩)
    simp at hk hkmax ⊢
    omega
  have hslot {k : Nat} (hk : k < s5NdirectBlocks) (hkne : s.fileBlock ino k ≠ 0) :
      s.fileBlock ino k ∈ held s5NdirectBlocks (s.inodes ino).s5DirectBlocks := by
    rw [fileBlock_of_direct hk] at hkne ⊢
    exact mem_held.mpr ⟨⟨k, hk, rfl⟩, hkne⟩
  by_cases hmd : m < s5NdirectBlocks
  · by_cases hnd : n < s5NdirectBlocks
    · rw [fileBlock_of_direct hmd] at hne heq
      rw [fileBlock_of_direct hnd] at heq
      exact eq_of_nodup_held hdirect hmd hnd hne heq
    · exact absurd (heq ▸ hentry hnd hn (heq ▸ hne))
        (Multiset.disjoint_left.mp hdisjoint (hslot hmd hne))
  · by_cases hnd : n < s5NdirectBlocks
    · exact absurd (hentry hmd hm hne)
        (Multiset.disjoint_left.mp hdisjoint (heq ▸ hslot hnd (heq ▸ hne)))
    · have hind := hfamily hmd hne
      rw [indirectFamily, if_neg hind] at hindirect
      rw [fileBlock_of_indirect hmd hind] at hne heq
      rw [fileBlock_of_indirect hnd hind] at heq
      have hoff := eq_of_nodup_held (Multiset.nodup_cons.mp hindirect).2
        (by simp at hmd hm ⊢; omega) (by simp at hnd hn ⊢; omega) hne heq
      omega

/-- No page has an indirect block as its block. -/
theorem fileBlock_ne_indirect (h : Ledger D t nodes s) {j n : Nat}
    (hino : ino < s.super.s5sNumInodes) (hj : j < s.super.s5sNumInodes)
    (hfile : (s.inodes ino).IsFile) (hjfile : (s.inodes j).IsFile) (hn : n < s5MaxFileBlocks)
    (hind : (s.inodes ino).s5IndirectBlock ≠ 0) (hne : s.fileBlock j n ≠ 0) :
    s.fileBlock j n ≠ (s.inodes ino).s5IndirectBlock := by
  intro heq
  have hmem := fileBlock_mem hjfile hn hne
  by_cases hij : ino = j
  · subst hij
    have hnodup := h.nodup_mapped hino
    rw [mapped_of_isFile hfile, indirectFamily, if_neg hind] at hnodup
    obtain ⟨-, hfamily, hdisjoint⟩ := Multiset.nodup_add.mp hnodup
    by_cases hnd : n < s5NdirectBlocks
    · rw [fileBlock_of_direct hnd] at hne heq
      refine Multiset.disjoint_left.mp hdisjoint (mem_held.mpr ⟨⟨n, hnd, heq⟩, hind⟩) ?_
      exact Multiset.mem_cons_self _ _
    · rw [fileBlock_of_indirect hnd hind] at hne heq
      refine (Multiset.nodup_cons.mp hfamily).1 (mem_held.mpr ⟨⟨_, ?_, heq⟩, hind⟩)
      simp at hn hnd ⊢
      omega
  · exact Multiset.disjoint_left.mp (h.disjoint_mapped hino hj hij)
      (indirect_mem_mapped hfile hind) (heq ▸ hmem)

end Ledger

omit [BlockDev] in
/-- What an allocation leaves alone: everything the maps refer to. -/
theorem Took.keeps (h : Took s b s') (hfresh : ∀ c ∈ allMapped s, c ≠ b) :
    allMapped s' = allMapped s ∧ (∀ c ∈ allMapped s, s'.disk c = s.disk c) ∧
    (∀ j < s.super.s5sNumInodes, (s.inodes j).IsFile → ∀ n,
      s'.fileBlock j n = s.fileBlock j n) ∧
    ∀ c ∈ allMapped s, s'.bview c = s.bview c ∧ s'.bdevDirty c = s.bdevDirty c := by
  refine ⟨?_, fun c hc => h.disk c (hfresh c hc), fun j hj hfile n => ?_, fun c hc =>
    ⟨h.bview c (hfresh c hc), S5.bdevDirty_congr (h.bdev c (hfresh c hc))⟩⟩
  · exact Ledger.allMapped_congr (by rw [h.super]) h.inodes fun c hc => h.bview c (hfresh c hc)
  · exact S5.fileBlock_congr (by rw [h.inodes]) (fun hne =>
      h.bview _ (hfresh _ (Ledger.indirect_mem hj hfile hne))) n

theorem Took.isNode (h : Took s b s') {t' : Multiset UInt32} (hl' : Ledger D t nodes s')
    (hl'' : Ledger D t' nodes s'') {c : UInt32} (hc : s''.IsNode c) : s.IsNode c ∧ c ≠ b :=
  h.node c (hl'.isNode_iff.mpr (hl''.isNode_iff.mp hc))

omit [BlockDev] in
theorem Took.bdevDirty (h : Took s s.nextBlock s') :
    s'.bdevDirty s.nextBlock = s.reusesDirty := by
  have hpage := h.page
  unfold S5.reusesDirty
  by_cases hn : s.super.s5sNfree = 0
  · rw [if_pos hn] at hpage
    simp [S5.bdevDirty, hpage, hn]
  · rw [if_neg hn] at hpage
    simp [S5.bdevDirty, hpage, hn]

omit [BlockDev] in
theorem lacks_of_direct {n : Nat} (hn : n < s5NdirectBlocks) (alloc : Bool) :
    s.Lacks ino n alloc ↔ alloc = true ∧ s.fileBlock ino n = 0 ∧ s.NoFree := by
  have hsource : s.mapSource ino n = s := if_pos (Or.inl hn)
  unfold S5.Lacks
  rw [hsource]
  exact or_iff_right fun h => absurd hn (not_lt.mpr h.1)

omit [BlockDev] in
theorem lacks_of_hasIndirect {n : Nat} (hind : (s.inodes ino).s5IndirectBlock ≠ 0)
    (alloc : Bool) :
    s.Lacks ino n alloc ↔ alloc = true ∧ s.fileBlock ino n = 0 ∧ s.NoFree := by
  have hsource : s.mapSource ino n = s := if_pos (Or.inr hind)
  unfold S5.Lacks
  rw [hsource]
  exact or_iff_right fun h => absurd h.2.1 hind

/-- Filling an empty direct slot with a block just taken. -/
theorem Ledger.fillDirect (h : Ledger D (b ::ₘ t) nodes s) (hino : ino < s.super.s5sNumInodes)
    (hfile : (s.inodes ino).IsFile) {k : Nat} (hk : k < s5NdirectBlocks)
    (hempty : (s.inodes ino).s5DirectBlocks k = 0) :
    Ledger D t nodes (s.setInode ino { s.inodes ino with
      s5DirectBlocks := Function.update (s.inodes ino).s5DirectBlocks k b }) := by
  refine h.setInode hino ?_
  rw [mapped_of_isFile hfile, mapped_of_isFile (i := { s.inodes ino with
      s5DirectBlocks := Function.update (s.inodes ino).s5DirectBlocks k b }) hfile,
    held_update_of_empty hk hempty (h.pos (h.mem_of_transit (Multiset.mem_cons_self _ _)))]
  simp only [Multiset.cons_add, Multiset.add_cons]

/-- What looking up page `n` of a file, and with `alloc` giving it a block, leaves. -/
structure Sought (D t : Multiset UInt32) (ino n : Nat) (alloc : Bool) (s s' : S5) : Prop where
  accounted : Accounted D t s'
  vnodes : s'.vnodes = s.vnodes
  grew : Grew ino (fun m => alloc = true ∧ m = n) s s'
  ne_zero : alloc = true → s'.fileBlock ino n ≠ 0
  fresh : s.fileBlock ino n = 0 → s'.fileBlock ino n ≠ 0 →
    s'.bdevDirty (s'.fileBlock ino n) = (s.mapSource ino n).reusesDirty
  /-- A look-up brings in the indirect block and takes nothing more. -/
  source : alloc = false → (n < s5NdirectBlocks ∨ (s'.inodes ino).s5IndirectBlock ≠ 0) ∧
    s'.super = (s.mapSource ino n).super ∧ s'.reusesDirty = (s.mapSource ino n).reusesDirty
  settled : s.fileBlock ino n ≠ 0 → s' = s ∨ s' = s.cacheBdev (s.inodes ino).s5IndirectBlock

theorem Sought.same (h : Accounted D t s) {n : Nat} {alloc : Bool}
    (hne : alloc = true → s.fileBlock ino n ≠ 0)
    (hsource : n < s5NdirectBlocks ∨ (s.inodes ino).s5IndirectBlock ≠ 0) :
    Sought D t ino n alloc s s := by
  refine ⟨h, rfl, Grew.refl .., hne, fun hzero hne => absurd hzero hne, fun _ => ⟨hsource, ?_⟩,
    fun _ => Or.inl rfl⟩
  rw [S5.mapSource, if_pos hsource]
  exact ⟨rfl, rfl⟩

/-- The outcome of one of the two last parts of `s5_seek_to_block`. -/
def SeekPost (D t : Multiset UInt32) (ino n : Nat) (alloc : Bool) (s : S5) (r : Int) (s' : S5) :
    Prop :=
  s.Lacks ino n alloc ∧ r = -enospc ∧ s' = s ∨
    ¬ s.Lacks ino n alloc ∧ r = toInt32 (s'.fileBlock ino n) ∧ Sought D t ino n alloc s s'

theorem wp_s5SeekDirect (h : FileAt D t ino s) {n : Nat} (hn : n < s5NdirectBlocks)
    (alloc : Bool) : wp (s5SeekDirect ino n alloc) (SeekPost D t ino n alloc s) s := by
  obtain ⟨⟨nodes, hl⟩, hino, hfile⟩ := h
  have hblock : s.fileBlock ino n = (s.inodes ino).s5DirectBlocks n := fileBlock_of_direct hn
  have hlacks : s.Lacks ino n alloc ↔ alloc = true ∧ s.fileBlock ino n = 0 ∧ s.NoFree :=
    lacks_of_direct hn alloc
  unfold s5SeekDirect
  rw [wp_bind, wp_get]
  by_cases hempty : (s.inodes ino).s5DirectBlocks n = 0
  · cases alloc with
    | false =>
        simp only [hempty, if_true]
        refine wp_pure.mpr (Or.inr ⟨?_, ?_, Sought.same ⟨nodes, hl⟩ (by simp) (Or.inl hn)⟩)
        · rw [hlacks]
          simp
        · rw [hblock, hempty]
          rfl
    | true =>
        simp only [hempty, if_true]
        rcases hl.alloc with ⟨hfree, heq⟩ | ⟨hsome, nodes1, heq, htook, hmem, hl1⟩
        · rw [wp_bind, wp_of_eq heq]
          exact wp_pure.mpr (Or.inl ⟨hlacks.mpr ⟨rfl, hblock.trans hempty, hfree⟩, rfl, rfl⟩)
        · have hdirty := htook.bdevDirty
          set b := s.nextBlock
          set s1 := s.afterAlloc
          have hbD : b ∈ D := hl.mem_of_listed hmem
          have hfresh : ∀ c ∈ allMapped s, c ≠ b := fun c hc =>
            (hl.ne_of_listed_mapped hmem hc).symm
          obtain ⟨hmapped, hdisk, hblocks, hpages⟩ := htook.keeps hfresh
          have hino1 : ino < s1.super.s5sNumInodes := by rw [htook.super]; exact hino
          rw [wp_bind, wp_of_eq heq, if_neg (hl.toInt32_nonneg hbD), ofInt32_toInt32, setDirect,
            wp_bind, wp_modify]
          refine wp_pure.mpr (Or.inr ?_)
          set s2 := s1.setInode ino { s1.inodes ino with
            s5DirectBlocks := Function.update (s1.inodes ino).s5DirectBlocks n b } with hs2
          have hl2 : Ledger D t nodes1 s2 := hl1.fillDirect hino1 (by rw [htook.inodes]; exact hfile)
            hn (by rw [htook.inodes]; exact hempty)
          have hnew : s2.fileBlock ino n = b := by
            rw [fileBlock_of_direct hn, hs2, S5.inodes_setInode_self]
            simp
          have hind : (s2.inodes ino).s5IndirectBlock = (s.inodes ino).s5IndirectBlock := by
            rw [hs2, S5.inodes_setInode_self, htook.inodes]
          refine ⟨fun h => hsome (hlacks.mp h).2.2, by rw [hnew], ⟨nodes1, hl2⟩, htook.vnodes,
            ⟨htook.super, ?_, fun j hj => ?_, fun c hc => ?_, fun c hc => hdisk c hc,
              fun j hj hjfile m hm => ?_, fun _ => hind, fun c hc _ => hpages c hc,
              fun c hc => ?_, fun hs hne => ?_⟩,
            fun _ => hnew ▸ hl.pos hbD, fun _ _ => ?_, fun h => Bool.noConfusion h,
            fun hne => absurd (hblock.trans hempty) hne⟩
          · rw [hs2, S5.inodes_setInode_self, htook.inodes]
          · rw [hs2, S5.inodes_setInode_of_ne hj, htook.inodes]
          · have hall : allMapped s2 = b ::ₘ allMapped s1 := hl1.allMapped_of_move hl2 rfl
            rw [hall, hmapped]
            exact Multiset.mem_cons_of_mem hc
          · by_cases hji : j = ino
            · subst hji
              by_cases hmn : m = n
              · subst hmn
                exact absurd (hblock.trans hempty) (hm rfl ⟨rfl, rfl⟩)
              · rw [← hblocks j hj hjfile m, hs2]
                unfold S5.fileBlock
                rw [S5.inodes_setInode_self]
                simp only [Function.update_of_ne hmn]
                rfl
            · rw [← hblocks j hj hjfile m]
              apply S5.fileBlock_congr
              · rw [hs2, S5.inodes_setInode_of_ne hji]
              · intro _
                rfl
          · obtain ⟨hc, hcb⟩ := htook.isNode hl1 hl2 hc
            exact ⟨hc, htook.bview c hcb, S5.bdevDirty_congr (htook.bdev c hcb), htook.disk c hcb⟩
          · rw [hind] at hne ⊢
            have hmapped := Ledger.indirect_mem hino hfile hne
            intro hclean
            exact (hpages _ hmapped).1.trans
              ((hs hne ((hpages _ hmapped).2.symm.trans hclean)).trans (hdisk _ hmapped).symm)
          · rw [hnew, S5.mapSource, if_pos (Or.inl hn)]
            exact hdirty
  · simp only [hempty, if_false]
    refine wp_pure.mpr (Or.inr ⟨fun h => hempty (hblock.symm.trans (hlacks.mp h).2.1), by rw [hblock],
      Sought.same ⟨nodes, hl⟩ (fun _ => ?_) (Or.inl hn)⟩)
    rwa [hblock]

/-- What bringing in the indirect block leaves: it is there, its page is resident, and every page
of the file has the block it had. -/
structure HasIndirect (D t : Multiset UInt32) (ino : Nat) (s s' : S5) : Prop where
  accounted : Accounted D t s'
  vnodes : s'.vnodes = s.vnodes
  grew : Grew ino (fun _ => False) s s'
  ne_zero : (s'.inodes ino).s5IndirectBlock ≠ 0
  resident : s'.bdev (s'.inodes ino).s5IndirectBlock ≠ none
  super : s'.super = (s.mapSource ino s5NdirectBlocks).super
  reuses : s'.reusesDirty = (s.mapSource ino s5NdirectBlocks).reusesDirty
  settled : (s.inodes ino).s5IndirectBlock ≠ 0 → s' = s.cacheBdev (s.inodes ino).s5IndirectBlock

/-- Installing a freshly zeroed block as the indirect block of a file. -/
theorem Ledger.installIndirect (h : Ledger D (b ::ₘ t) nodes s)
    (hino : ino < s.super.s5sNumInodes) (hfile : (s.inodes ino).IsFile)
    (hind : (s.inodes ino).s5IndirectBlock = 0) {d : Bool} :
    Ledger D t nodes ((s.setBdev b (some ⟨Block.zero, d⟩)).setInode ino
      { s.inodes ino with s5IndirectBlock := b }) := by
  have hbD : b ∈ D := h.mem_of_transit (Multiset.mem_cons_self _ _)
  set s1 := s.setBdev b (some ⟨Block.zero, d⟩) with hs1
  have hview : s1.bview = Function.update s.bview b Block.zero := s.bview_setBdev_some b _
  have hkeep : ∀ c, c ≠ b → s1.bview c = s.bview c := fun c hc => by
    rw [hview, Function.update_of_ne hc]
  obtain ⟨hwf, hlisted⟩ :=
    h.frame_setBdev (h.notMem_nodes_of_transit (Multiset.mem_cons_self _ _)) ⟨Block.zero, d⟩
  have hmapped : allMapped s1 = allMapped s := allMapped_congr rfl rfl fun c hc =>
    hkeep c (h.ne_of_transit_mapped (Multiset.mem_cons_self _ _) hc).symm
  have h1 : Ledger D (b ::ₘ t) nodes s1 := by
    refine ⟨h.region, hwf, ?_, ?_⟩
    · rw [hlisted, hmapped]
      exact h.total
    · rw [hs1, S5.bdev_setBdev_of_ne (h.ne_noBlock hbD).symm]
      exact h.uncached
  refine h1.setInode hino ?_
  change t + mapped s1.bview { s.inodes ino with s5IndirectBlock := b } =
    (b ::ₘ t) + mapped s1.bview (s.inodes ino)
  rw [mapped_of_isFile hfile, mapped_of_isFile (i := { s.inodes ino with s5IndirectBlock := b })
    hfile, indirectFamily, indirectFamily, if_neg (h.pos hbD), if_pos hind, hview]
  have hzero : (Function.update s.bview b Block.zero b).word = fun _ => 0 := by
    funext i
    simp
  simp only [hzero, held_zero, Multiset.cons_add, Multiset.add_cons, add_zero]

theorem wp_s5GetIndirect (h : FileAt D t ino s) : wp (s5GetIndirect ino) (fun r s' =>
      ((s.inodes ino).s5IndirectBlock = 0 ∧ s.NoFree) ∧ r = -enospc ∧ s' = s ∨
      ¬ ((s.inodes ino).s5IndirectBlock = 0 ∧ s.NoFree) ∧ r = 0 ∧ HasIndirect D t ino s s') s := by
  obtain ⟨⟨nodes, hl⟩, hino, hfile⟩ := h
  unfold s5GetIndirect
  rw [wp_bind, wp_get]
  by_cases hind : (s.inodes ino).s5IndirectBlock = 0
  · simp only [hind, if_true]
    have hsource : s.mapSource ino s5NdirectBlocks = s.afterAlloc := by
      rw [S5.mapSource, if_neg (by simp [hind])]
    rcases hl.alloc with ⟨hfree, heq⟩ | ⟨hsome, nodes1, heq, htook, hmem, hl1⟩
    · rw [wp_bind, wp_of_eq heq]
      exact wp_pure.mpr (Or.inl ⟨⟨trivial, hfree⟩, rfl, rfl⟩)
    · set b := s.nextBlock
      set s1 := s.afterAlloc
      have hbD : b ∈ D := hl.mem_of_listed hmem
      have hfresh : ∀ c ∈ allMapped s, c ≠ b := fun c hc => (hl.ne_of_listed_mapped hmem hc).symm
      obtain ⟨hmapped, hdisk, hblocks, hpages⟩ := htook.keeps hfresh
      have hino1 : ino < s1.super.s5sNumInodes := by rw [htook.super]; exact hino
      have hget := pframeGetBdev_eq_cacheBdev s1 (hl.region.serves b hbD)
      obtain ⟨d, hd⟩ := s1.bdev_cacheBdev_self b
      rw [wp_bind, wp_of_eq heq, if_neg (hl.toInt32_nonneg hbD), ofInt32_toInt32, wp_bind,
        wp_of_eq hget, if_neg (lt_irrefl 0), wp_bind, wp_of_eq (pokeBdev_apply _ hd), wp_bind,
        wp_of_eq (pframeDirtyBdev_apply S5.bdev_setBdev_self), setIndirect, wp_bind, wp_modify]
      refine wp_pure.mpr (Or.inr ⟨fun h => hsome h.2, rfl, ?_⟩)
      set s2 := (s1.setBdev b (some ⟨Block.zero, true⟩)).setInode ino
        { s1.inodes ino with s5IndirectBlock := b } with hs2
      have hstate : (((s1.cacheBdev b).setBdev b (some ⟨Block.zero, d⟩)).setBdev b
          (some ⟨Block.zero, true⟩)).setInode ino
            { s1.inodes ino with s5IndirectBlock := b } = s2 := by
        simp only [hs2, S5.cacheBdev, S5.setBdev, Function.update_idem]
      change HasIndirect D t ino s ((((s1.cacheBdev b).setBdev b (some ⟨Block.zero, d⟩)).setBdev b
          (some ⟨Block.zero, true⟩)).setInode ino { s1.inodes ino with s5IndirectBlock := b })
      rw [hstate]
      have hl2 : Ledger D t nodes1 s2 := hl1.installIndirect hino1
        (by rw [htook.inodes]; exact hfile) (by rw [htook.inodes]; exact hind)
      have hself : (s2.inodes ino) = { s1.inodes ino with s5IndirectBlock := b } :=
        S5.inodes_setInode_self
      have hview : ∀ c, c ≠ b → s2.bview c = s1.bview c := fun c hc => by
        rw [hs2, S5.bview_setInode, S5.bview_setBdev_some, Function.update_of_ne hc]
      have hviewb : s2.bview b = Block.zero := by
        rw [hs2, S5.bview_setInode, S5.bview_setBdev_some, Function.update_self]
      have hbdev : s2.bdev = Function.update s1.bdev b (some ⟨Block.zero, true⟩) := rfl
      have hothers : ∀ j, j ≠ ino → s2.inodes j = s1.inodes j := fun j hj => by
        rw [hs2, S5.inodes_setInode_of_ne hj]
        rfl
      refine ⟨⟨nodes1, hl2⟩, htook.vnodes, ⟨htook.super, ?_, fun j hj => ?_, fun c hc => ?_,
        fun c hc => hdisk c hc, fun j hj hjfile m _ => ?_, fun hne => absurd hind hne,
        fun c hc _ => ?_, fun c hc => ?_, fun _ _ hclean => ?_⟩, ?_, ?_, ?_, ?_,
        fun hne => absurd hind hne⟩
      · rw [hself, htook.inodes]
      · rw [hothers j hj, htook.inodes]
      · have hall : allMapped s2 = b ::ₘ allMapped s1 := by
          refine hl1.allMapped_of_move hl2 ?_
          exact (hl1.frame_setBdev
            (hl1.notMem_nodes_of_transit (Multiset.mem_cons_self _ _)) _).2
        rw [hall, hmapped]
        exact Multiset.mem_cons_of_mem hc
      · rw [← hblocks j hj hjfile m]
        by_cases hji : j = ino
        · subst hji
          unfold S5.fileBlock
          rw [hself, hviewb, htook.inodes, hind]
          simp
        · apply S5.fileBlock_congr (hothers j hji)
          intro hne
          rw [htook.inodes] at hne ⊢
          exact hview _ (hfresh _ (Ledger.indirect_mem hj hjfile hne))
      · obtain ⟨hview1, hdirty1⟩ := hpages c hc
        refine ⟨(hview c (hfresh c hc)).trans hview1, Eq.trans (S5.bdevDirty_congr ?_) hdirty1⟩
        exact S5.bdev_setBdev_of_ne (hfresh c hc)
      · obtain ⟨hc, hcb⟩ := htook.isNode hl1 hl2 hc
        refine ⟨hc, (hview c hcb).trans (htook.bview c hcb), S5.bdevDirty_congr ?_,
          htook.disk c hcb⟩
        exact (S5.bdev_setBdev_of_ne hcb).trans (htook.bdev c hcb)
      · rw [hself] at hclean
        simp [S5.bdevDirty, hbdev] at hclean
      · rw [hself]
        exact hl.pos hbD
      · rw [hself, hbdev]
        simp
      · rw [hsource]
        rfl
      · rw [hsource]
        -- the block handed out next is another one than the new indirect block
        change (_ && (s2.bdevDirty s1.nextBlock)) = (_ && s1.bdevDirty s1.nextBlock)
        by_cases hn : s1.super.s5sNfree = 0
        · have : s2.super.s5sNfree = 0 := hn
          simp [hn, this]
        · have hne : s1.nextBlock ≠ b := by
            refine hl1.ne_of_listed_transit ?_ (Multiset.mem_cons_self _ _)
            unfold S5.nextBlock
            rw [if_neg hn]
            exact FreeList.mem_listed_of_slot (l := s1.freeList)
              (Nat.sub_lt (Nat.pos_of_ne_zero hn) one_pos)
          have hdirty : s2.bdevDirty s1.nextBlock = s1.bdevDirty s1.nextBlock :=
            S5.bdevDirty_congr (by rw [hbdev, Function.update_of_ne hne])
          rw [hdirty]
          rfl
  · simp only [hind, if_false]
    have hsource : s.mapSource ino s5NdirectBlocks = s := if_pos (Or.inr hind)
    have hmem := hl.mem_of_allMapped (Ledger.indirect_mem hino hfile hind)
    have hget := pframeGetBdev_eq_cacheBdev s (hl.region.serves _ hmem)
    rw [wp_of_eq hget]
    refine Or.inr ⟨by simp, rfl, ⟨nodes, hl.cacheBdev (hl.ne_noBlock hmem)⟩, rfl,
      grew_cacheBdev ..,
      hind, ?_, by rw [hsource]; rfl, ?_, fun _ => rfl⟩
    · obtain ⟨d, hd⟩ := s.bdev_cacheBdev_self (s.inodes ino).s5IndirectBlock
      change (s.cacheBdev _).bdev (s.inodes ino).s5IndirectBlock ≠ none
      rw [hd]
      exact Option.some_ne_none _
    · rw [hsource]
      change (_ && (s.cacheBdev _).bdevDirty s.nextBlock) = (_ && s.bdevDirty s.nextBlock)
      rw [S5.bdevDirty_cacheBdev]
      rfl

theorem wp_s5SeekIndirect (h : FileAt D t ino s) (hind : (s.inodes ino).s5IndirectBlock ≠ 0)
    (hresident : s.bdev (s.inodes ino).s5IndirectBlock ≠ none) {n : Nat}
    (hn : ¬ n < s5NdirectBlocks) (hmax : n < s5MaxFileBlocks) (alloc : Bool) :
    wp (s5SeekIndirect ino (n - s5NdirectBlocks) alloc) (SeekPost D t ino n alloc s) s := by
  obtain ⟨⟨nodes, hl⟩, hino, hfile⟩ := h
  have hoff : n - s5NdirectBlocks < s5NidirectBlocks := by
    simp at hn hmax ⊢
    omega
  have hblock : s.fileBlock ino n = (s.bview (s.inodes ino).s5IndirectBlock).word
      (n - s5NdirectBlocks) := fileBlock_of_indirect hn hind
  have hlacks := lacks_of_hasIndirect (n := n) hind alloc
  have hindMem := Ledger.indirect_mem hino hfile hind
  unfold s5SeekIndirect
  rw [wp_bind, wp_get]
  by_cases hempty : (s.bview (s.inodes ino).s5IndirectBlock).word (n - s5NdirectBlocks) = 0
  · cases alloc with
    | false =>
        simp only [hempty, if_true]
        refine wp_pure.mpr (Or.inr ⟨?_, ?_, Sought.same ⟨nodes, hl⟩ (by simp) (Or.inr hind)⟩)
        · rw [hlacks]
          simp
        · rw [hblock, hempty]
          rfl
    | true =>
        simp only [hempty, if_true]
        rcases hl.alloc with ⟨hfree, heq⟩ | ⟨hsome, nodes1, heq, htook, hmem, hl1⟩
        · rw [wp_bind, wp_of_eq heq]
          exact wp_pure.mpr (Or.inl ⟨hlacks.mpr ⟨rfl, hblock.trans hempty, hfree⟩, rfl, rfl⟩)
        · have hdirty := htook.bdevDirty
          set b := s.nextBlock
          set s1 := s.afterAlloc
          have hbD : b ∈ D := hl.mem_of_listed hmem
          have hfresh : ∀ c ∈ allMapped s, c ≠ b := fun c hc =>
            (hl.ne_of_listed_mapped hmem hc).symm
          obtain ⟨hmapped, hdisk, hblocks, hpages⟩ := htook.keeps hfresh
          have hino1 : ino < s1.super.s5sNumInodes := by rw [htook.super]; exact hino
          obtain ⟨p, hp⟩ := Option.ne_none_iff_exists'.mp hresident
          have hp1 : s1.bdev (s.inodes ino).s5IndirectBlock = some p :=
            (htook.bdev _ (hfresh _ hindMem)).trans hp
          have hdata : s1.bview (s.inodes ino).s5IndirectBlock = p.data := by
            rw [S5.bview, hp1]
          rw [wp_bind, wp_of_eq heq, if_neg (hl.toInt32_nonneg hbD), ofInt32_toInt32, wp_bind,
            wp_of_eq (pokeBdev_apply _ hp1), wp_bind,
            wp_of_eq (pframeDirtyBdev_apply S5.bdev_setBdev_self)]
          refine wp_pure.mpr (Or.inr ?_)
          set ind := (s.inodes ino).s5IndirectBlock with hindEq
          set s2 := s1.setBdev ind
            (some ⟨(s1.bview ind).setWord (n - s5NdirectBlocks) b, true⟩) with hs2
          have hstate : (s1.setBdev ind
              (some { p with data := p.data.setWord (n - s5NdirectBlocks) b })).setBdev ind
                (some ⟨p.data.setWord (n - s5NdirectBlocks) b, true⟩) = s2 := by
            simp only [hs2, hdata, S5.setBdev, Function.update_idem]
          rw [hstate]
          have hind1 : (s1.inodes ino).s5IndirectBlock = ind := by rw [htook.inodes]
          have hl2 : Ledger D t nodes1 s2 := by
            have hpoke := hl1.pokeIndirect hino1 (by rw [htook.inodes]; exact hfile)
              (by rw [hind1]; exact hind) hoff
              (by rw [hind1, htook.bview ind (hfresh _ hindMem)]; exact hempty) (d := true)
            rwa [hind1] at hpoke
          have hview : s2.bview = Function.update s1.bview ind
              ((s1.bview ind).setWord (n - s5NdirectBlocks) b) := s1.bview_setBdev_some ind _
          have hkeep : ∀ c, c ≠ ind → s2.bview c = s1.bview c := fun c hc => by
            rw [hview, Function.update_of_ne hc]
          have hind2 : (s2.inodes ino).s5IndirectBlock = ind := hind1
          have hsame2 : s2.inodes ino = s.inodes ino := congrFun htook.inodes ino
          have hnew : s2.fileBlock ino n = b := by
            rw [fileBlock_of_indirect hn (hind2 ▸ hind), hind2, hview, Function.update_self,
              Block.word_setWord_self]
          refine ⟨fun h => hsome (hlacks.mp h).2.2, by rw [hnew], ⟨nodes1, hl2⟩, htook.vnodes,
            ⟨htook.super, ?_, fun j _ => ?_, fun c hc => ?_, fun c hc => hdisk c hc,
              fun j hj hjfile m hm => ?_, fun _ => hind1, fun c hc hne => ?_,
              fun c hc => ?_, fun _ _ hclean => ?_⟩,
            fun _ => hnew ▸ hl.pos hbD, fun _ _ => ?_, fun h => Bool.noConfusion h,
            fun hne => absurd (hblock.trans hempty) hne⟩
          · change s1.inodes ino = { s.inodes ino with
              s5DirectBlocks := (s1.inodes ino).s5DirectBlocks
              s5IndirectBlock := (s1.inodes ino).s5IndirectBlock }
            rw [htook.inodes]
          · change s1.inodes j = _
            rw [htook.inodes]
          · have hall : allMapped s2 = b ::ₘ allMapped s1 := by
              refine hl1.allMapped_of_move hl2 ?_
              refine (hl1.frame_setBdev (hl1.notMem_nodes_of_mapped ?_) _).2
              rw [hmapped]
              exact hindMem
            rw [hall, hmapped]
            exact Multiset.mem_cons_of_mem hc
          · rw [← hblocks j hj hjfile m]
            by_cases hji : j = ino
            · subst hji
              by_cases hmlt : m < s5NdirectBlocks
              · rw [fileBlock_of_direct hmlt, fileBlock_of_direct hmlt]
                rfl
              · have hne : m - s5NdirectBlocks ≠ n - s5NdirectBlocks := by
                  intro heq
                  have hmn : m = n := by omega
                  subst hmn
                  exact hm rfl ⟨rfl, rfl⟩ (hblock.trans hempty)
                rw [fileBlock_of_indirect hmlt (hind2 ▸ hind),
                  fileBlock_of_indirect hmlt (hind1 ▸ hind), hind2, hind1, hview,
                  Function.update_self, Block.word_setWord_of_ne _ _ hne]
            · apply S5.fileBlock_congr
              · rfl
              intro _
              rw [htook.inodes]
              exact hkeep _ (hl.indirect_ne hino hj hfile hjfile hind hji)
          · rw [hind2] at hne
            obtain ⟨hview1, hdirty1⟩ := hpages c hc
            refine ⟨(hkeep c hne).trans hview1, Eq.trans (S5.bdevDirty_congr ?_) hdirty1⟩
            exact S5.bdev_setBdev_of_ne hne
          · have hci : c ≠ ind := fun heq => hl2.notMem_nodes_of_mapped
              (Ledger.indirect_mem hino1 (by rw [hsame2]; exact hfile) (hind2 ▸ hind))
              (hind2 ▸ heq ▸ hl2.isNode_iff.mp hc)
            obtain ⟨hc, hcb⟩ := htook.isNode hl1 hl2 hc
            refine ⟨hc, (hkeep c hci).trans (htook.bview c hcb), S5.bdevDirty_congr ?_,
              htook.disk c hcb⟩
            exact (S5.bdev_setBdev_of_ne hci).trans (htook.bdev c hcb)
          · rw [hind2, S5.bdevDirty, hs2, S5.bdev_setBdev_self] at hclean
            simp at hclean
          · rw [hnew, S5.mapSource, if_pos (Or.inr hind), ← hdirty]
            exact S5.bdevDirty_congr (S5.bdev_setBdev_of_ne (hfresh _ hindMem).symm)
  · simp only [hempty, if_false]
    refine wp_pure.mpr (Or.inr ⟨fun h => hempty (hblock.symm.trans (hlacks.mp h).2.1), by rw [hblock],
      Sought.same ⟨nodes, hl⟩ (fun _ => ?_) (Or.inr hind)⟩)
    rwa [hblock]

/-! ### The whole function -/

/-- The outcome of `s5_seek_to_block` on page `n`. A failed call may leave a new, empty indirect
block behind. -/
def SeekOutcome (D t : Multiset UInt32) (ino n : Nat) (alloc : Bool) (s : S5) (r : Int) (s' : S5) :
    Prop :=
  s.Lacks ino n alloc ∧ r = -enospc ∧ (alloc = false → s' = s) ∧ Accounted D t s' ∧
      s'.vnodes = s.vnodes ∧ Grew ino (fun _ => False) s s' ∨
    ¬ s.Lacks ino n alloc ∧ r = toInt32 (s'.fileBlock ino n) ∧ Sought D t ino n alloc s s'

theorem SeekPost.outcome (h : FileAt D t ino s) {n : Nat} {alloc : Bool} {r : Int}
    (hpost : SeekPost D t ino n alloc s r s') : SeekOutcome D t ino n alloc s r s' := by
  rcases hpost with ⟨hlacks, hr, rfl⟩ | hok
  · exact Or.inl ⟨hlacks, hr, fun _ => rfl, h.accounted, rfl, Grew.refl ..⟩
  · exact Or.inr hok

theorem wp_s5SeekToBlock (h : FileAt D t ino s) {seekptr : Int} (hpos : 0 ≤ seekptr)
    (hmax : (seekptr / 4096).toNat < s5MaxFileBlocks) (alloc : Bool) :
    wp (s5SeekToBlock ino seekptr alloc)
      (SeekOutcome D t ino (seekptr / 4096).toNat alloc s) s := by
  unfold s5SeekToBlock
  have hblocksize : ((s5BlockSize : Nat) : Int) = 4096 := rfl
  rw [hblocksize]
  generalize (seekptr / 4096).toNat = n at *
  rw [wp_bind, kassert, wp_check]
  refine ⟨by simpa using hpos, ?_⟩
  simp only []
  rw [if_neg (by simp at hmax ⊢; omega)]
  by_cases hn : n < s5NdirectBlocks
  · rw [if_pos hn]
    exact wp_mono (wp_s5SeekDirect h hn alloc) fun _ _ => SeekPost.outcome h
  rw [if_neg hn]
  have hsource : s.mapSource ino n = s.mapSource ino s5NdirectBlocks := by
    unfold S5.mapSource
    simp only [hn, lt_irrefl]
  refine wp_bind_of (wp_s5GetIndirect h) ?_
  rintro _ s1 (⟨⟨hind, hfree⟩, rfl, rfl⟩ | ⟨hok, rfl, hhas⟩)
  · exact wp_pure.mpr (Or.inl ⟨Or.inl ⟨not_lt.mp hn, hind, hfree⟩, rfl, fun _ => rfl,
      h.accounted, rfl, Grew.refl ..⟩)
  rw [if_neg (lt_irrefl 0)]
  have h1 : FileAt D t ino s1 := ⟨hhas.accounted, hhas.grew.numInodes ▸ h.lt,
    (hhas.grew.isFile_iff ino).mpr h.isFile⟩
  have hblock : s1.fileBlock ino n = s.fileBlock ino n :=
    hhas.grew.fileBlock ino h.lt h.isFile n fun _ hfalse => hfalse.elim
  have hlacks : s1.Lacks ino n alloc ↔ s.Lacks ino n alloc := by
    rw [lacks_of_hasIndirect hhas.ne_zero, hblock]
    unfold S5.Lacks S5.NoFree
    rw [hsource, hhas.super]
    refine (or_iff_right fun hfirst => hok ⟨hfirst.2.1, hfirst.2.2⟩).symm
  refine wp_mono (wp_s5SeekIndirect h1 hhas.ne_zero hhas.resident hn hmax alloc) ?_
  rintro r s2 (⟨hlacks1, rfl, rfl⟩ | ⟨hlacks1, rfl, hsought⟩)
  · refine Or.inl ⟨hlacks.mp hlacks1, rfl, fun halloc => ?_, hhas.accounted, hhas.vnodes,
      hhas.grew⟩
    rw [lacks_of_hasIndirect hhas.ne_zero, halloc] at hlacks1
    exact absurd hlacks1.1 (by simp)
  · refine Or.inr ⟨fun h => hlacks1 (hlacks.mpr h), rfl, hsought.accounted,
      hsought.vnodes.trans hhas.vnodes, (hhas.grew.mono fun _ hfalse => hfalse.elim).trans hsought.grew, hsought.ne_zero,
      fun hzero hne => ?_, fun halloc => ?_, fun hne => ?_⟩
    · rw [hsought.fresh (hblock.trans hzero) hne, hsource, S5.mapSource,
        if_pos (Or.inr hhas.ne_zero), hhas.reuses]
    · obtain ⟨hhere, hsuper, hreuses⟩ := hsought.source halloc
      rw [S5.mapSource, if_pos (Or.inr hhas.ne_zero)] at hsuper hreuses
      rw [hsource]
      exact ⟨hhere, hsuper.trans hhas.super, hreuses.trans hhas.reuses⟩
    · have hind : (s.inodes ino).s5IndirectBlock ≠ 0 := by
        intro hind
        rw [S5.fileBlock, if_neg hn, if_pos hind] at hne
        exact hne rfl
      obtain rfl := hhas.settled hind
      rcases hsought.settled (by rwa [hblock]) with rfl | rfl
      · exact Or.inr rfl
      · refine Or.inr ?_
        exact S5.cacheBdev_cacheBdev s _

theorem wp_s5SeekToBlock_past {seekptr : Int} (hpos : 0 ≤ seekptr)
    (hmax : s5MaxFileBlocks ≤ (seekptr / 4096).toNat) (alloc : Bool) :
    wp (s5SeekToBlock ino seekptr alloc) (fun r s' => r = -1 ∧ s' = s) s := by
  unfold s5SeekToBlock
  have hblocksize : ((s5BlockSize : Nat) : Int) = 4096 := rfl
  rw [hblocksize, wp_bind, kassert, wp_check]
  refine ⟨by simpa using hpos, ?_⟩
  simp only []
  rw [if_pos (by simp at hmax ⊢; omega)]
  exact wp_pure.mpr ⟨rfl, rfl⟩

end CodingSample.S5fs
