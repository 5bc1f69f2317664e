import CodingSample.S5fs.PageRun

/-!
# Counting the blocks of an inode

`s5_inode_blocks` reads the page of whatever block number is in `s5_indirect_block`: the indirect
block, block 0 where there is none, and the block with the number of the device for a device. The
first blocks hold the superblock and the inode table, which are typed tables in the state, so their
words are written out here.
-/

namespace CodingSample.S5fs

open Prog

@[simp] def s5Magic : UInt32 := 0x727f
@[simp] def s5CurrentVersion : UInt32 := 3

/-- `S5_TYPE_FREE` and so on. -/
def S5Type.code : S5Type → Nat
  | .free => 0
  | .data => 1
  | .dir => 2
  | .chr => 4
  | .blk => 8

/-- The word with index `k` of `s5_inode_t`. -/
def Inode.word (i : Inode) (k : Nat) : UInt32 :=
  if k = 0 then UInt32.ofNat i.s5Un
  else if k = 1 then UInt32.ofNat i.s5Number
  else if k = 2 then ofInt32 (i.s5Type.code + 65536 * i.s5Linkcount)
  else if k < 3 + s5NdirectBlocks then i.s5DirectBlocks (k - 3)
  else i.s5IndirectBlock

namespace S5

variable (s : S5)

/-- The word with index `k` of block 0: `s5_super_t`, then what else is in the block. -/
def superWord (k : Nat) : UInt32 :=
  if k = 0 then s5Magic
  else if k = 1 then UInt32.ofNat s.super.s5sFreeInode
  else if k = 2 then UInt32.ofNat s.super.s5sNfree
  else if k < 3 + s5NblksPerFnode then s.super.s5sFreeBlocks (k - 3)
  else if k = 3 + s5NblksPerFnode then UInt32.ofNat s.super.s5sRootInode
  else if k = 4 + s5NblksPerFnode then UInt32.ofNat s.super.s5sNumInodes
  else if k = 5 + s5NblksPerFnode then s5CurrentVersion
  else (s.bview 0).word k

/-- The word with index `k` of the page of a block. -/
def pageWord (b : UInt32) (k : Nat) : UInt32 :=
  let ino := (b.toNat - 1) * 32 + k / 32
  if b = 0 then s.superWord k
  else if ino < s.super.s5sNumInodes then (s.inodes ino).word (k % 32)
  else (s.bview b).word k

end S5

/-- A loop that counts the words that are not zero. -/
def countNonzero (n : Nat) (f : Nat → UInt32) : Nat := ((List.range n).filter (f · ≠ 0)).length

instance (i : Inode) : Decidable i.IsFile := inferInstanceAs (Decidable (_ ∨ _))

/-- The blocks an inode owns. A device owns no indirect block. -/
def S5.ownedBlocks (s : S5) (ino : Nat) : Nat :=
  countNonzero s5NdirectBlocks (s.inodes ino).s5DirectBlocks +
    if (s.inodes ino).IsFile ∧ (s.inodes ino).s5IndirectBlock ≠ 0 then
      1 + countNonzero s5NidirectBlocks (s.bview (s.inodes ino).s5IndirectBlock).word
    else 0

variable [BlockDev]

def s5InodeBlocks (ino : Nat) : K Nat := do
  let s ← get
  let num := countNonzero s5NdirectBlocks (s.inodes ino).s5DirectBlocks
  let ret ← pframeGetBdev (s.inodes ino).s5IndirectBlock
  kassert (ret = 0)
  let t ← get
  pure (num + countNonzero s5NidirectBlocks (t.pageWord (s.inodes ino).s5IndirectBlock))

/-! ### What an inode owns -/

omit [BlockDev] in
theorem card_held (n : Nat) (f : Nat → UInt32) : (held n f).card = countNonzero n f := by
  rw [held_eq_heldIn, heldIn, Multiset.coe_card, List.filter_map, List.length_map]
  rfl

omit [BlockDev] in
/-- The blocks of the map are the ones that are counted. -/
theorem card_mapped {s : S5} {ino : Nat} (htype : (s.inodes ino).s5Type ≠ .free) :
    (mapped s.bview (s.inodes ino)).card = s.ownedBlocks ino := by
  unfold S5.ownedBlocks
  by_cases hfile : (s.inodes ino).IsFile
  · rw [mapped_of_isFile hfile, Multiset.card_add, card_held, indirectFamily]
    by_cases hind : (s.inodes ino).s5IndirectBlock = 0
    · simp [hind]
    · rw [if_neg hind, if_pos ⟨hfile, hind⟩, Multiset.card_cons, card_held, Nat.add_comm 1]
  · have hdevice : mapped s.bview (s.inodes ino) =
        held s5NdirectBlocks (s.inodes ino).s5DirectBlocks := by
      unfold Inode.IsFile at hfile
      unfold mapped
      cases h : (s.inodes ino).s5Type <;> simp_all
    rw [hdevice, card_held, if_neg fun h => hfile h.1]
    rfl

/-! ### What `s5_inode_blocks` counts -/

variable {D : Multiset UInt32} {s s₀ : S5} {b : UInt32} {ino : Nat}

/-- The page of the block is resident or can be read. -/
def S5.Readable (s : S5) (b : UInt32) : Prop := s.bdev b ≠ none ∨ BlockDev.serves b = true

omit [BlockDev] in
theorem pageWord_cacheBdev (c : UInt32) : (s.cacheBdev c).pageWord b = s.pageWord b := by
  funext k
  unfold S5.pageWord S5.superWord
  rw [S5.bview_cacheBdev]
  rfl

/-- The function returns the non-zero direct entries and the non-zero words of the page, if the
page can be had. -/
theorem wp_s5InodeBlocks {Q : Nat → S5 → Prop} :
    wp (s5InodeBlocks ino) Q s ↔ s.Readable (s.inodes ino).s5IndirectBlock ∧
      Q (countNonzero s5NdirectBlocks (s.inodes ino).s5DirectBlocks +
        countNonzero s5NidirectBlocks (s.pageWord (s.inodes ino).s5IndirectBlock))
        (s.cacheBdev (s.inodes ino).s5IndirectBlock) := by
  rw [s5InodeBlocks, wp_bind, wp_get, wp_bind]
  by_cases hread : s.Readable (s.inodes ino).s5IndirectBlock
  · have hget : pframeGetBdev (s.inodes ino).s5IndirectBlock s =
        .ok (0, s.cacheBdev (s.inodes ino).s5IndirectBlock) := by
      rw [pframeGetBdev_apply, if_neg, S5.cacheBdev]
      rintro ⟨hnone, hserves⟩
      rcases hread with hread | hread
      · exact hread hnone
      · exact Bool.noConfusion (hserves.symm.trans hread)
    rw [wp_of_eq hget, wp_bind, kassert, wp_check, wp_bind, wp_get, wp_pure, pageWord_cacheBdev]
    simp [hread]
  · obtain ⟨hnone, hserves⟩ := not_or.mp hread
    have hget : pframeGetBdev (s.inodes ino).s5IndirectBlock s = .ok (-eio, s) := by
      rw [pframeGetBdev_apply, if_pos]
      exact ⟨Classical.not_not.mp hnone, (Bool.not_eq_true _).mp hserves⟩
    rw [wp_of_eq hget, wp_bind, kassert, wp_check]
    simp [hread]

omit [BlockDev] in
theorem countNonzero_eq_zero {n : Nat} {f : Nat → UInt32} :
    countNonzero n f = 0 ↔ ∀ k < n, f k = 0 := by
  simp [countNonzero]

omit [BlockDev] in
/-- The superblock begins with the magic number. -/
theorem countNonzero_super : 0 < countNonzero s5NidirectBlocks (s.pageWord 0) := by
  rw [Nat.pos_iff_ne_zero, Ne, countNonzero_eq_zero]
  intro hall
  have hmagic : s5Magic = 0 := hall 0 (by decide)
  exact absurd hmagic (by decide)

/-- The words of a data block are what the block device shows. -/
theorem Accounted.pageWord {t : Multiset UInt32} (h : Accounted D t s) (hb : b ∈ D) :
    s.pageWord b = (s.bview b).word := by
  obtain ⟨nodes, hl⟩ := h
  have habove := hl.region.above b hb
  have hzero : b ≠ 0 := by
    rintro rfl
    exact absurd habove (Nat.not_lt_zero _)
  funext k
  unfold S5.pageWord
  rw [if_neg hzero, if_neg]
  intro hlt
  unfold s5InodeBlock at habove
  omega

omit [BlockDev] in
/-- An inode without an indirect block is counted with the words of the superblock. -/
theorem ownedBlocks_lt_count {i : Nat} (hind : (s.inodes i).s5IndirectBlock = 0) :
    s.ownedBlocks i < countNonzero s5NdirectBlocks (s.inodes i).s5DirectBlocks +
      countNonzero s5NidirectBlocks (s.pageWord (s.inodes i).s5IndirectBlock) := by
  have hsuper := countNonzero_super (s := s)
  rw [S5.ownedBlocks, if_neg fun h => h.2 hind, hind]
  omega

/-- An indirect block is not counted itself. -/
theorem ownedBlocks_eq_succ {t : Multiset UInt32} (h : Accounted D t s)
    (hino : ino < s.super.s5sNumInodes) (hfile : (s.inodes ino).IsFile)
    (hind : (s.inodes ino).s5IndirectBlock ≠ 0) :
    s.ownedBlocks ino = countNonzero s5NdirectBlocks (s.inodes ino).s5DirectBlocks +
      countNonzero s5NidirectBlocks (s.pageWord (s.inodes ino).s5IndirectBlock) + 1 := by
  have hmem : (s.inodes ino).s5IndirectBlock ∈ D := by
    obtain ⟨nodes, hl⟩ := h
    exact hl.mem_of_allMapped (Ledger.indirect_mem hino hfile hind)
  rw [S5.ownedBlocks, if_pos ⟨hfile, hind⟩, h.pageWord hmem]
  omega

/-- The count is right for a device whose number is the number of an empty block, and for no other
inode. -/
theorem wp_count_iff {t : Multiset UInt32} (h : Accounted D t s)
    (hino : ino < s.super.s5sNumInodes) :
    wp (s5InodeBlocks ino) (fun n _ => n = s.ownedBlocks ino) s ↔
      ¬ (s.inodes ino).IsFile ∧ s.Readable (s.inodes ino).s5IndirectBlock ∧
        ∀ k < s5NidirectBlocks, s.pageWord (s.inodes ino).s5IndirectBlock k = 0 := by
  rw [wp_s5InodeBlocks, ← countNonzero_eq_zero]
  by_cases hfile : (s.inodes ino).IsFile
  · refine iff_of_false ?_ fun h => h.1 hfile
    rintro ⟨-, hcount⟩
    by_cases hind : (s.inodes ino).s5IndirectBlock = 0
    · exact absurd hcount (ownedBlocks_lt_count hind).ne'
    · have hsucc := ownedBlocks_eq_succ h hino hfile hind
      omega
  · have howned : s.ownedBlocks ino =
        countNonzero s5NdirectBlocks (s.inodes ino).s5DirectBlocks := by
      rw [S5.ownedBlocks, if_neg fun h => hfile h.1, Nat.add_zero]
    rw [howned]
    simp [hfile]

/-! ### What `s5_free_inode` frees -/

/-- The inode takes its blocks with it, and the others keep theirs. -/
theorem Books.allMapped_freed {s' : S5} (h : Books D s) (hino : ino < s.super.s5sNumInodes)
    (hfreed : FreedInode ino s s') :
    allMapped s = mapped s.bview (s.inodes ino) + allMapped s' := by
  have hnum : s'.super.s5sNumInodes = s.super.s5sNumInodes := by rw [hfreed.super]
  have hmem : ino ∈ Finset.range s.super.s5sNumInodes := Finset.mem_range.mpr hino
  have hgone : mapped s'.bview (s'.inodes ino) = 0 := by
    rw [hfreed.inode]
    rfl
  have hrest : ∀ j ∈ (Finset.range s.super.s5sNumInodes).erase ino,
      mapped s'.bview (s'.inodes j) = mapped s.bview (s.inodes j) := by
    intro j hj
    obtain ⟨hne, hlt⟩ := Finset.mem_erase.mp hj
    rw [hfreed.others j hne]
    apply mapped_congr
    intro hfile hind
    exact (h.fileBlock_of_freed hino hfreed (Finset.mem_range.mp hlt) hne hfile _
      (indirect_mem_mapped hfile hind)).2
  unfold allMapped
  rw [hnum, ← Finset.add_sum_erase _ _ hmem, ← Finset.add_sum_erase _ (fun j =>
    mapped s'.bview (s'.inodes j)) hmem, hgone, zero_add, Finset.sum_congr rfl hrest]

/-- `s5_free_inode` puts the blocks of the inode on the list. -/
theorem wp_s5FreeInode_card (h : Books D s) (hino : ino < s.super.s5sNumInodes)
    (htype : (s.inodes ino).s5Type ≠ .free) :
    wp (s5FreeInode ino) (fun _ s' => ∃ nodes nodes', s.freeList.Wf 29 noBlock nodes ∧
      s'.freeList.Wf 29 noBlock nodes' ∧ (s'.freeList.listed 29 nodes').card =
        (s.freeList.listed 29 nodes).card + s.ownedBlocks ino) s := by
  refine wp_mono (wp_s5FreeInode h.accounted hino htype) ?_
  rintro _ s' ⟨⟨nodes', hl'⟩, hfreed⟩
  obtain ⟨nodes, hl⟩ := h.accounted
  refine ⟨nodes, nodes', hl.wf, hl'.wf, ?_⟩
  have htotal := congrArg Multiset.card (hl.total.trans hl'.total.symm)
  rw [h.allMapped_freed hino hfreed] at htotal
  simp only [add_zero, Multiset.card_add, card_mapped htype] at htotal
  omega

/-- **The count of the blocks.** In every state of every run, `s5_free_inode` puts the blocks an
inode owns on the free list, and `s5_inode_blocks` returns their number exactly for a device whose
number is the number of a readable block of zeros: a file without an indirect block is counted
with the words of the superblock, and one with an indirect block without that block. -/
theorem inode_blocks_counted (hstart : Mounted D s₀)
    (hrun : PageRun (fun s c => c.Made s) s₀ s) (hino : ino < s.super.s5sNumInodes)
    (htype : (s.inodes ino).s5Type ≠ .free) :
    wp (s5FreeInode ino) (fun _ s' => ∃ nodes nodes', s.freeList.Wf 29 noBlock nodes ∧
      s'.freeList.Wf 29 noBlock nodes' ∧ (s'.freeList.listed 29 nodes').card =
        (s.freeList.listed 29 nodes).card + s.ownedBlocks ino) s ∧
    (wp (s5InodeBlocks ino) (fun n _ => n = s.ownedBlocks ino) s ↔
      ¬ (s.inodes ino).IsFile ∧ s.Readable (s.inodes ino).s5IndirectBlock ∧
        ∀ k < s5NidirectBlocks, s.pageWord (s.inodes ino).s5IndirectBlock k = 0) := by
  have h : PageInv D s := hrun.pageInv (fun _ _ hc => hc) hstart.pageInv
  exact ⟨wp_s5FreeInode_card h.books hino htype, wp_count_iff h.books.accounted hino⟩

omit [BlockDev] in
/-- An empty directory is not counted with no blocks. -/
theorem inode_blocks_miscounted : @Mounted plainDev {7} oneFree ∧
    oneFree.ownedBlocks 0 = 0 ∧
    ¬ wp (@s5InodeBlocks plainDev 0) (fun n _ => n = oneFree.ownedBlocks 0) oneFree := by
  refine ⟨oneFree_mounted, by decide, ?_⟩
  rw [@wp_s5InodeBlocks plainDev]
  rintro ⟨-, hcount⟩
  have hlt := ownedBlocks_lt_count (s := oneFree) (i := 0) rfl
  exact absurd hcount hlt.ne'

/-- A disk with one character device, whose number is that of an empty block. -/
def oneDevice : S5 := { oneFree with inodes := fun i => ⟨0, i, .chr, 1, fun _ => 0, 9⟩ }

omit [BlockDev] in
theorem oneDevice_mounted : @Mounted plainDev {7} oneDevice := by
  refine @Mounted.mk plainDev _ _ ⟨[], ?_⟩ ⟨[], ?_⟩ (fun _ => rfl) fun _ => rfl
  · have hregion := @Ledger.region plainDev _ _ _ _ oneFree_ledger
    refine @Ledger.mk plainDev _ _ _ _ hregion ⟨by decide, .nil⟩ ?_ rfl
    simp [FreeList.listed, S5.freeList, oneDevice, oneFree, allMapped, mapped]
  · refine ⟨fun i _ => rfl, by decide, .nil, List.nodup_nil, by simp, ?_⟩
    simp [oneDevice]

omit [BlockDev] in
theorem inode_blocks_counted_oneDevice :
    wp (@s5InodeBlocks plainDev 0) (fun n _ => n = oneDevice.ownedBlocks 0) oneDevice := by
  refine (@inode_blocks_counted plainDev _ _ _ 0 oneDevice_mounted (@PageRun.start plainDev _ _)
    (by decide) (by decide)).2.mpr ⟨by decide, .inr (by decide), ?_⟩
  intro k _
  have hlt : ¬ ((9 : UInt32).toNat - 1) * 32 + k / 32 <
      oneDevice.super.s5sNumInodes := by
    have hnum : oneDevice.super.s5sNumInodes = 1 := rfl
    have hnine : (9 : UInt32).toNat = 9 := rfl
    omega
  change oneDevice.pageWord 9 k = 0
  rw [S5.pageWord, if_neg (by decide), if_neg hlt]
  exact Block.word_zero k

end CodingSample.S5fs
