import CodingSample.S5fs.FreeBlocks
import CodingSample.Data.SlotTable

/-!
# Who owns each block

Every data block of the disk is in exactly one place: on the free-block list, in the block map of
one inode, or in transit between the two. The ledger says this as one equation of multisets, so
that a step is checked by moving blocks from one summand to another.
-/

namespace CodingSample.S5fs

open Finset

/-- `S5_INODE_BLOCK` -/
def s5InodeBlock (ino : Nat) : Nat := ino / 32 + 1

/-- An indirect block and the blocks it lists. -/
def indirectFamily (view : UInt32 → Block) (b : UInt32) : Multiset UInt32 :=
  if b = 0 then 0 else b ::ₘ held s5NidirectBlocks (view b).word

/-- The blocks an inode refers to. The indirect block of a device inode is its device number. -/
def mapped (view : UInt32 → Block) (i : Inode) : Multiset UInt32 :=
  match i.s5Type with
  | .free => 0
  | .chr | .blk => held s5NdirectBlocks i.s5DirectBlocks
  | .data | .dir => held s5NdirectBlocks i.s5DirectBlocks + indirectFamily view i.s5IndirectBlock

/-- The inode is a regular file or a directory. -/
def Inode.IsFile (i : Inode) : Prop := i.s5Type = .data ∨ i.s5Type = .dir

theorem mapped_of_isFile {view : UInt32 → Block} {i : Inode} (h : i.IsFile) :
    mapped view i =
      held s5NdirectBlocks i.s5DirectBlocks + indirectFamily view i.s5IndirectBlock := by
  rcases h with h | h <;> simp only [mapped, h]

theorem mapped_congr {view view' : UInt32 → Block} {i : Inode}
    (h : i.IsFile → i.s5IndirectBlock ≠ 0 → view' i.s5IndirectBlock = view i.s5IndirectBlock) :
    mapped view' i = mapped view i := by
  by_cases hfile : i.IsFile
  · rw [mapped_of_isFile hfile, mapped_of_isFile hfile]
    unfold indirectFamily
    split
    · rfl
    · rename_i hne
      rw [h hfile hne]
  · unfold Inode.IsFile at hfile
    unfold mapped
    split <;> simp_all

theorem indirect_mem_mapped {view : UInt32 → Block} {i : Inode} (h : i.IsFile)
    (hne : i.s5IndirectBlock ≠ 0) : i.s5IndirectBlock ∈ mapped view i := by
  rw [mapped_of_isFile h, indirectFamily, if_neg hne]
  exact Multiset.mem_add.mpr (Or.inr (Multiset.mem_cons_self _ _))

theorem direct_mem_mapped {view : UInt32 → Block} {i : Inode} {k : Nat} (h : i.IsFile)
    (hk : k < s5NdirectBlocks) (hne : i.s5DirectBlocks k ≠ 0) :
    i.s5DirectBlocks k ∈ mapped view i := by
  rw [mapped_of_isFile h]
  exact Multiset.mem_add.mpr (Or.inl (mem_held.mpr ⟨⟨k, hk, rfl⟩, hne⟩))

theorem entry_mem_mapped {view : UInt32 → Block} {i : Inode} {k : Nat} (h : i.IsFile)
    (hind : i.s5IndirectBlock ≠ 0) (hk : k < s5NidirectBlocks)
    (hne : (view i.s5IndirectBlock).word k ≠ 0) :
    (view i.s5IndirectBlock).word k ∈ mapped view i := by
  rw [mapped_of_isFile h, indirectFamily, if_neg hind]
  refine Multiset.mem_add.mpr (Or.inr (Multiset.mem_cons_of_mem ?_))
  exact mem_held.mpr ⟨⟨k, hk, rfl⟩, hne⟩

variable [BlockDev]

/-- What the driver and the layout of the disk promise about the data blocks `D`. -/
structure Region (numInodes : Nat) (D : Multiset UInt32) : Prop where
  nodup : D.Nodup
  serves : ∀ b ∈ D, BlockDev.serves b = true
  /-- Block numbers are handled as `int`. -/
  small : ∀ b ∈ D, b.toNat < 2147483648
  /-- Data blocks come after the superblock and the inode blocks. -/
  above : ∀ b ∈ D, s5InodeBlock (numInodes - 1) < b.toNat

/-- All blocks the inode table refers to. -/
def allMapped (s : S5) : Multiset UInt32 :=
  ∑ ino ∈ range s.super.s5sNumInodes, mapped s.bview (s.inodes ino)

/-- Every block of `D` is in one place: free, in transit, or mapped. -/
structure Ledger (D transit : Multiset UInt32) (nodes : List UInt32) (s : S5) : Prop where
  region : Region s.super.s5sNumInodes D
  wf : s.freeList.Wf 29 noBlock nodes
  total : s.freeList.listed 29 nodes + transit + allMapped s = D
  uncached : s.bdev noBlock = none

namespace Ledger

variable {D t t' : Multiset UInt32} {nodes : List UInt32} {s s' : S5} {b c : UInt32} {ino : Nat}

theorem mem_of_listed (h : Ledger D t nodes s) (hb : b ∈ s.freeList.listed 29 nodes) : b ∈ D := by
  rw [← h.total, Multiset.mem_add, Multiset.mem_add]
  exact Or.inl (Or.inl hb)

theorem isNode_iff (h : Ledger D t nodes s) : s.IsNode c ↔ c ∈ nodes := h.wf.isNode_iff

theorem mem_of_transit (h : Ledger D t nodes s) (hb : b ∈ t) : b ∈ D := by
  rw [← h.total, Multiset.mem_add, Multiset.mem_add]
  exact Or.inl (Or.inr hb)

theorem mem_of_allMapped (h : Ledger D t nodes s) (hb : b ∈ allMapped s) : b ∈ D := by
  rw [← h.total, Multiset.mem_add]
  exact Or.inr hb

omit [BlockDev] in
theorem mem_allMapped (hino : ino < s.super.s5sNumInodes)
    (hb : b ∈ mapped s.bview (s.inodes ino)) : b ∈ allMapped s :=
  Multiset.mem_sum.mpr ⟨ino, mem_range.mpr hino, hb⟩

theorem mem_of_mapped (h : Ledger D t nodes s) (hino : ino < s.super.s5sNumInodes)
    (hb : b ∈ mapped s.bview (s.inodes ino)) : b ∈ D :=
  h.mem_of_allMapped (mem_allMapped hino hb)

theorem nodup (h : Ledger D t nodes s) :
    (s.freeList.listed 29 nodes + t + allMapped s).Nodup :=
  h.total.symm ▸ h.region.nodup

theorem nodup_listed (h : Ledger D t nodes s) : (s.freeList.listed 29 nodes).Nodup :=
  (Multiset.nodup_add.mp (Multiset.nodup_add.mp h.nodup).1).1

theorem ne_of_listed_transit (h : Ledger D t nodes s)
    (hb : b ∈ s.freeList.listed 29 nodes) (hc : c ∈ t) : b ≠ c := by
  rintro rfl
  exact Multiset.disjoint_left.mp (Multiset.nodup_add.mp (Multiset.nodup_add.mp h.nodup).1).2.2
    hb hc

theorem ne_of_listed_mapped (h : Ledger D t nodes s)
    (hb : b ∈ s.freeList.listed 29 nodes) (hc : c ∈ allMapped s) : b ≠ c := by
  rintro rfl
  exact Multiset.disjoint_left.mp (Multiset.nodup_add.mp h.nodup).2.2
    (Multiset.mem_add.mpr (Or.inl hb)) hc

theorem ne_of_transit_mapped (h : Ledger D t nodes s)
    (hb : b ∈ t) (hc : c ∈ allMapped s) : b ≠ c := by
  rintro rfl
  exact Multiset.disjoint_left.mp (Multiset.nodup_add.mp h.nodup).2.2
    (Multiset.mem_add.mpr (Or.inr hb)) hc

theorem pos (h : Ledger D t nodes s) (hb : b ∈ D) : b ≠ 0 := by
  rintro rfl
  have := h.region.above _ hb
  simp at this

theorem ne_noBlock (h : Ledger D t nodes s) (hb : b ∈ D) : b ≠ noBlock := by
  rintro rfl
  have := h.region.serves _ hb
  rw [BlockDev.refuses_noBlock] at this
  exact Bool.noConfusion this

theorem toInt32_nonneg (h : Ledger D t nodes s) (hb : b ∈ D) : ¬ toInt32 b < 0 := by
  rw [toInt32_neg_iff]
  exact not_le.mpr (h.region.small _ hb)

omit [BlockDev] in
theorem indirect_mem (hino : ino < s.super.s5sNumInodes) (hfile : (s.inodes ino).IsFile)
    (hne : (s.inodes ino).s5IndirectBlock ≠ 0) :
    (s.inodes ino).s5IndirectBlock ∈ allMapped s :=
  mem_allMapped hino (indirect_mem_mapped hfile hne)

omit [BlockDev] in
theorem allMapped_congr (hnum : s'.super.s5sNumInodes = s.super.s5sNumInodes)
    (hinodes : s'.inodes = s.inodes) (hview : ∀ c ∈ allMapped s, s'.bview c = s.bview c) :
    allMapped s' = allMapped s := by
  unfold allMapped
  rw [hnum, hinodes]
  refine sum_congr rfl fun ino hino => mapped_congr fun hfile hne => ?_
  exact hview _ (mem_allMapped (mem_range.mp hino) (indirect_mem_mapped hfile hne))

/-! ### Allocation and release -/

/-- No block is free. -/
theorem listed_eq_zero_iff (h : Ledger D t nodes s) :
    s.freeList.listed 29 nodes = 0 ↔ s.NoFree :=
  FreeList.listed_eq_zero_iff h.wf

theorem nextBlock_mem (h : Ledger D t nodes s) (hsome : ¬ s.NoFree) :
    s.nextBlock ∈ s.freeList.listed 29 nodes :=
  FreeList.top_mem h.wf hsome

theorem afterAlloc (h : Ledger D t nodes s) (hsome : ¬ s.NoFree) :
    ∃ rest, (∀ c ∈ rest, c ∈ nodes ∧ c ≠ s.nextBlock) ∧
      Ledger D (s.nextBlock ::ₘ t) rest s.afterAlloc := by
  obtain ⟨rest, hrest, hwf, hlisted⟩ := FreeList.listed_popped h.wf hsome h.nodup_listed
  have hagree := s.agree_afterAlloc fun c hc => (hrest c hc).2
  have hmem := h.nextBlock_mem hsome
  have hmapped : allMapped s.afterAlloc = allMapped s := by
    refine allMapped_congr ?_ s.inodes_afterAlloc fun c hc =>
      s.bview_afterAlloc_of_ne (h.ne_of_listed_mapped hmem hc).symm
    rw [S5.super_afterAlloc]
  refine ⟨rest, hrest, ?_, hagree.wf hwf, ?_, ?_⟩
  · rw [S5.super_afterAlloc]
    exact h.region
  · rw [← h.total, hagree.listed hwf, hmapped, ← hlisted]
    change _ + (s.freeList.top 29 ::ₘ t) + _ = _
    simp only [Multiset.add_cons, Multiset.cons_add]
  · rw [s.bdev_afterAlloc_of_ne (h.ne_noBlock (h.mem_of_listed hmem)).symm]
    exact h.uncached

theorem giveBlock (h : Ledger D (b ::ₘ t) nodes s) :
    Ledger D t (s.freeList.pushedNodes 29 nodes b) (s.giveBlock b) := by
  have hcons : b ∈ b ::ₘ t := Multiset.mem_cons_self _ _
  have hmem : b ∈ D := h.mem_of_transit hcons
  have hfresh : b ∉ nodes := fun hb =>
    h.ne_of_listed_transit (FreeList.mem_listed_of_mem_nodes hb) hcons rfl
  obtain ⟨hwf, hlisted⟩ := FreeList.listed_pushed h.wf (h.ne_noBlock hmem) hfresh
  have hagree := s.agree_giveBlock b hfresh
  have hmapped : allMapped (s.giveBlock b) = allMapped s :=
    allMapped_congr (by simp) (by simp) fun c hc =>
      s.bview_giveBlock_of_ne b (h.ne_of_transit_mapped hcons hc).symm
  refine ⟨?_, hagree.wf hwf, ?_, ?_⟩
  · rw [S5.numInodes_giveBlock]
    exact h.region
  · rw [← h.total, hagree.listed hwf, hlisted, hmapped, Multiset.add_cons, Multiset.cons_add]
  · rw [s.bdev_giveBlock_of_ne b (h.ne_noBlock hmem).symm]
    exact h.uncached

/-- A block that becomes a free-list node is written in the block device's memory object. -/
theorem isNode_giveBlock (h : Ledger D (b ::ₘ t) nodes s) (hc : (s.giveBlock b).IsNode c) :
    (∃ d, (s.giveBlock b).bdev c = some ⟨d, true⟩) ∨ s.IsNode c ∧ c ≠ b := by
  have hfresh : b ∉ nodes := fun hb =>
    h.ne_of_listed_transit (FreeList.mem_listed_of_mem_nodes hb) (Multiset.mem_cons_self _ _) rfl
  rw [h.giveBlock.isNode_iff, FreeList.pushedNodes] at hc
  rw [h.isNode_iff]
  by_cases hfull : s.super.s5sNfree = s5NblksPerFnode - 1
  · have hnfree : s.freeList.nfree = 29 := hfull
    rw [if_pos hnfree] at hc
    rcases List.mem_cons.mp hc with rfl | hc
    · refine Or.inl ⟨(s.bview c).writeWords s.super.s5sFreeBlocks s5NblksPerFnode, ?_⟩
      rw [S5.giveBlock_of_full hfull]
      exact S5.bdev_setBdev_self
    · exact Or.inr ⟨hc, fun heq => hfresh (heq ▸ hc)⟩
  · have hnfree : ¬ s.freeList.nfree = 29 := hfull
    rw [if_neg hnfree] at hc
    exact Or.inr ⟨hc, fun heq => hfresh (heq ▸ hc)⟩

/-! ### Changing a block map -/

/-- Writing to a block that is no free-list node leaves the free list as it was. -/
theorem frame_setBdev (h : Ledger D t nodes s) (hb : b ∉ nodes) (p : PFrame) :
    (s.setBdev b (some p)).freeList.Wf 29 noBlock nodes ∧
      (s.setBdev b (some p)).freeList.listed 29 nodes = s.freeList.listed 29 nodes := by
  have hagree : FreeList.Agree 29 nodes s.freeList (s.setBdev b (some p)).freeList := by
    refine ⟨rfl, fun _ _ => rfl, fun c hc i _ => ?_⟩
    have hne : c ≠ b := fun heq => hb (heq ▸ hc)
    change ((s.setBdev b (some p)).bview c).word i = (s.bview c).word i
    rw [S5.bview_setBdev_some, Function.update_of_ne hne]
  exact ⟨hagree.wf h.wf, hagree.listed h.wf⟩

theorem notMem_nodes_of_transit (h : Ledger D t nodes s) (hb : b ∈ t) : b ∉ nodes := fun hmem =>
  h.ne_of_listed_transit (FreeList.mem_listed_of_mem_nodes hmem) hb rfl

theorem notMem_nodes_of_mapped (h : Ledger D t nodes s) (hb : b ∈ allMapped s) : b ∉ nodes :=
  fun hmem => h.ne_of_listed_mapped (FreeList.mem_listed_of_mem_nodes hmem) hb rfl

/-- A block that leaves transit while the free list stays the same has been mapped. -/
theorem allMapped_of_move (h : Ledger D (b ::ₘ t) nodes s) (h' : Ledger D t nodes s')
    (hlisted : s'.freeList.listed 29 nodes = s.freeList.listed 29 nodes) :
    allMapped s' = b ::ₘ allMapped s := by
  have htotal := h'.total
  rw [hlisted, ← h.total, Multiset.add_cons, Multiset.cons_add, add_assoc, add_assoc,
    ← Multiset.add_cons, ← Multiset.add_cons] at htotal
  exact add_left_cancel (add_left_cancel htotal)

/-- Replacing an inode moves blocks between its map and transit. -/
theorem setInode (h : Ledger D t nodes s) (hino : ino < s.super.s5sNumInodes) {i : Inode}
    (hmove : t' + mapped s.bview i = t + mapped s.bview (s.inodes ino)) :
    Ledger D t' nodes (s.setInode ino i) := by
  have hmem : ino ∈ range s.super.s5sNumInodes := mem_range.mpr hino
  have hrest : ∑ j ∈ (range s.super.s5sNumInodes).erase ino,
        mapped s.bview ((s.setInode ino i).inodes j) =
      ∑ j ∈ (range s.super.s5sNumInodes).erase ino, mapped s.bview (s.inodes j) := by
    refine sum_congr rfl fun j hj => ?_
    rw [S5.inodes_setInode_of_ne (ne_of_mem_erase hj)]
  have hnew : allMapped (s.setInode ino i) = mapped s.bview i +
      ∑ j ∈ (range s.super.s5sNumInodes).erase ino, mapped s.bview (s.inodes j) := by
    unfold allMapped
    rw [S5.bview_setInode]
    change ∑ j ∈ range s.super.s5sNumInodes, _ = _
    rw [← add_sum_erase _ _ hmem, S5.inodes_setInode_self, hrest]
  have hold : allMapped s = mapped s.bview (s.inodes ino) +
      ∑ j ∈ (range s.super.s5sNumInodes).erase ino, mapped s.bview (s.inodes j) :=
    (add_sum_erase _ _ hmem).symm
  refine ⟨h.region, h.wf, ?_, h.uncached⟩
  change s.freeList.listed 29 nodes + t' + _ = D
  rw [← h.total, hnew, hold, add_assoc, ← add_assoc t', hmove, add_assoc, add_assoc]

/-- Two inodes do not share an indirect block. -/
theorem indirect_ne (h : Ledger D t nodes s) (hino : ino < s.super.s5sNumInodes) {j : Nat}
    (hj : j < s.super.s5sNumInodes) (hfile : (s.inodes ino).IsFile)
    (hjfile : (s.inodes j).IsFile) (hind : (s.inodes ino).s5IndirectBlock ≠ 0) (hne : j ≠ ino) :
    (s.inodes j).s5IndirectBlock ≠ (s.inodes ino).s5IndirectBlock := by
  intro heq
  have hdisj := (Multiset.nodup_add.mp h.nodup).2.1
  have hsplit : allMapped s = mapped s.bview (s.inodes ino) +
      ∑ k ∈ (range s.super.s5sNumInodes).erase ino, mapped s.bview (s.inodes k) :=
    (add_sum_erase _ _ (mem_range.mpr hino)).symm
  rw [hsplit] at hdisj
  refine Multiset.disjoint_left.mp (Multiset.nodup_add.mp hdisj).2.2
    (indirect_mem_mapped hfile hind) ?_
  refine Multiset.mem_sum.mpr ⟨j, mem_erase.mpr ⟨hne, mem_range.mpr hj⟩, ?_⟩
  rw [← heq]
  exact indirect_mem_mapped hjfile (heq ▸ hind)

/-- Filling an empty entry of an indirect block. -/
theorem pokeIndirect (h : Ledger D (b ::ₘ t) nodes s) (hino : ino < s.super.s5sNumInodes)
    (hfile : (s.inodes ino).IsFile) (hind : (s.inodes ino).s5IndirectBlock ≠ 0) {off : Nat}
    (hoff : off < s5NidirectBlocks)
    (hempty : (s.bview (s.inodes ino).s5IndirectBlock).word off = 0) {d : Bool} :
    Ledger D t nodes (s.setBdev (s.inodes ino).s5IndirectBlock
      (some ⟨(s.bview (s.inodes ino).s5IndirectBlock).setWord off b, d⟩)) := by
  set ind := (s.inodes ino).s5IndirectBlock with hindEq
  set s' := s.setBdev ind (some ⟨(s.bview ind).setWord off b, d⟩) with hs'
  have hbD : b ∈ D := h.mem_of_transit (Multiset.mem_cons_self _ _)
  have hindMem : ind ∈ mapped s.bview (s.inodes ino) := indirect_mem_mapped hfile hind
  have hview : s'.bview = Function.update s.bview ind ((s.bview ind).setWord off b) :=
    s.bview_setBdev_some ind _
  have hkeep : ∀ c, c ≠ ind → s'.bview c = s.bview c := fun c hc => by
    rw [hview, Function.update_of_ne hc]
  obtain ⟨hwf, hlisted⟩ :=
    h.frame_setBdev (h.notMem_nodes_of_mapped (mem_allMapped hino hindMem))
      ⟨(s.bview ind).setWord off b, d⟩
  have hmapped : allMapped s' = {b} + allMapped s := by
    refine sum_range_add_at hino ?_ fun j hj hne => ?_
    · change mapped s'.bview (s.inodes ino) = {b} + mapped s.bview (s.inodes ino)
      have hword : (s'.bview ind).word = Function.update (s.bview ind).word off b := by
        rw [hview, Function.update_self, Block.word_setWord]
      rw [mapped_of_isFile hfile, mapped_of_isFile hfile, indirectFamily, indirectFamily,
        if_neg hind, if_neg hind, ← hindEq, hword,
        held_update_of_empty hoff hempty (h.pos hbD), Multiset.singleton_add,
        Multiset.cons_swap, Multiset.add_cons]
    · refine mapped_congr fun hfile' _ => hkeep _ ?_
      exact h.indirect_ne hino hj hfile hfile' hind hne
  refine ⟨h.region, hwf, ?_, ?_⟩
  · rw [← h.total, hlisted, hmapped, Multiset.add_cons, Multiset.cons_add,
      Multiset.singleton_add, Multiset.add_cons]
  · change Function.update s.bdev ind _ noBlock = none
    rw [Function.update_of_ne (h.ne_noBlock (h.mem_of_mapped hino hindMem)).symm]
    exact h.uncached

end Ledger

end CodingSample.S5fs
