import CodingSample.S5fs.BlockMap

/-!
# Allocation and release of inodes

`s5_free_inode` gives the blocks of an inode back one at a time while its map, and for a while its
indirect block, still list them. The proofs follow it with a second inode table in which the
inode is free from the start and its blocks are in transit.
-/

namespace CodingSample.S5fs

open Prog

/-- An inode that is free and refers to nothing. -/
def Inode.blank : Inode := ⟨0, 0, .free, 0, fun _ => 0, 0⟩

/-- The state in which the inode is free already. -/
def S5.retire (s : S5) (ino : Nat) : S5 := s.setInode ino Inode.blank

theorem S5.setInode_setInode (s : S5) (ino : Nat) (i i' : Inode) :
    (s.setInode ino i).setInode ino i' = s.setInode ino i' := by
  simp only [S5.setInode, Function.update_idem]

/-- The state after the inode was marked free and put on the list of free inodes. -/
def S5.pushInode (s : S5) (ino : Nat) : S5 :=
  (s.setInode ino { s.inodes ino with
    s5Un := s.super.s5sFreeInode, s5Type := .free, s5IndirectBlock := 0 }).setSuper
      { s.super with s5sFreeInode := (s.inodes ino).s5Number }

/-- What giving back blocks of `B`, which belong to inode `ino`, changes. -/
structure Released (ino : Nat) (B : Multiset UInt32) (s s' : S5) : Prop where
  super : s'.super = { s.super with
    s5sNfree := s'.super.s5sNfree, s5sFreeBlocks := s'.super.s5sFreeBlocks }
  vnodes : s'.vnodes = s.vnodes
  disk : s'.disk = s.disk
  inode : s'.inodes ino = { s.inodes ino with
    s5DirectBlocks := (s'.inodes ino).s5DirectBlocks }
  others : ∀ j, j ≠ ino → s'.inodes j = s.inodes j
  bdev : ∀ c, c ∉ B → s'.bdev c = s.bdev c
  node : ∀ c, s'.IsNode c → s'.bdevDirty c = true ∨ s.IsNode c ∧ s'.bdev c = s.bdev c

namespace Released

variable {ino : Nat} {B : Multiset UInt32} {s s' : S5} {b : UInt32}

theorem refl (ino : Nat) (B : Multiset UInt32) (s : S5) : Released ino B s s :=
  ⟨rfl, rfl, rfl, rfl, fun _ _ => rfl, fun _ _ => rfl, fun _ hc => Or.inr ⟨hc, rfl⟩⟩

theorem giveBlock [BlockDev] {D t : Multiset UInt32} {nodes : List UInt32}
    (h : Released ino B s s') (hl : Ledger D (b ::ₘ t) nodes (s'.retire ino)) (hb : b ∈ B) :
    Released ino B s (s'.giveBlock b) := by
  refine ⟨?_, ?_, ?_, ?_, fun j hj => ?_, fun c hc => ?_, fun c hc => ?_⟩
  · unfold S5.giveBlock
    split
    · simp only [S5.setSuper]
      rw [h.super]
    · simp only [S5.setSuper]
      rw [h.super]
  · rw [S5.vnodes_giveBlock, h.vnodes]
  · rw [S5.disk_giveBlock, h.disk]
  · rw [S5.inodes_giveBlock, h.inode]
  · rw [S5.inodes_giveBlock, h.others j hj]
  · have hne : c ≠ b := fun heq => hc (heq ▸ hb)
    rw [S5.bdev_giveBlock_of_ne _ _ hne, h.bdev c hc]
  · have hgive : (s'.giveBlock b).retire ino = (s'.retire ino).giveBlock b := by
      rw [S5.retire, S5.retire, S5.giveBlock_setInode]
    have hc' : ((s'.retire ino).giveBlock b).IsNode c := hgive ▸ hc
    have hbdev : ((s'.retire ino).giveBlock b).bdev = (s'.giveBlock b).bdev :=
      (congrArg S5.bdev hgive.symm).trans rfl
    rcases hl.isNode_giveBlock hc' with ⟨d, hd⟩ | ⟨hold, hne⟩
    · rw [hbdev] at hd
      exact Or.inl (by rw [S5.bdevDirty, hd]; rfl)
    · have hsame : (s'.giveBlock b).bdev c = s'.bdev c := S5.bdev_giveBlock_of_ne _ _ hne
      rcases h.node c hold with hdirty | ⟨hold, hpage⟩
      · exact Or.inl ((S5.bdevDirty_congr hsame).trans hdirty)
      · exact Or.inr ⟨hold, hsame.trans hpage⟩

theorem setDirect (h : Released ino B s s') (f : Nat → UInt32) :
    Released ino B s (s'.setInode ino { s'.inodes ino with s5DirectBlocks := f }) := by
  refine ⟨h.super, h.vnodes, h.disk, ?_, fun j hj => ?_, h.bdev, h.node⟩
  · rw [S5.inodes_setInode_self, h.inode]
  · rw [S5.inodes_setInode_of_ne hj, h.others j hj]

end Released

/-- What `s5_free_inode` leaves. -/
structure FreedInode (ino : Nat) (s s' : S5) : Prop where
  super : s'.super = { s.super with
    s5sNfree := s'.super.s5sNfree
    s5sFreeBlocks := s'.super.s5sFreeBlocks
    s5sFreeInode := (s.inodes ino).s5Number }
  vnodes : s'.vnodes = s.vnodes
  disk : s'.disk = s.disk
  inode : s'.inodes ino = { s.inodes ino with
    s5Un := s.super.s5sFreeInode
    s5Type := .free
    s5DirectBlocks := (s'.inodes ino).s5DirectBlocks
    s5IndirectBlock := 0 }
  others : ∀ j, j ≠ ino → s'.inodes j = s.inodes j
  bdev : ∀ c, c ∉ mapped s.bview (s.inodes ino) → s'.bdev c = s.bdev c
  node : ∀ c, s'.IsNode c → s'.bdevDirty c = true ∨ s.IsNode c ∧ s'.bdev c = s.bdev c

variable [BlockDev] {D t : Multiset UInt32} {nodes : List UInt32} {s s0 : S5} {b : UInt32}
  {ino : Nat}

namespace Ledger

/-- The blocks of an inode that is about to be freed are in transit. -/
theorem retire (h : Ledger D t nodes s) (hino : ino < s.super.s5sNumInodes) :
    Ledger D (t + mapped s.bview (s.inodes ino)) nodes (s.retire ino) :=
  h.setInode hino (add_zero _)

theorem retire_giveBlock (h : Ledger D (b ::ₘ t) nodes (s.retire ino)) :
    ∃ nodes', s5FreeBlock b s = .ok ((), s.giveBlock b) ∧
      Ledger D t nodes' ((s.giveBlock b).retire ino) := by
  have hl := h.giveBlock
  rw [S5.retire, S5.giveBlock_setInode] at hl
  exact ⟨_, s5FreeBlock_apply h.wf.nfree_le
    (h.region.serves _ (h.mem_of_transit (Multiset.mem_cons_self _ _))), hl⟩

end Ledger

/-- The invariant of the loop over the direct blocks: the slots in `rest` and the blocks in `t`
are still to be given back. -/
structure DirectLoop (D t : Multiset UInt32) (ino : Nat) (s : S5) (rest : List Nat) (s' : S5) :
    Prop where
  accounted : Accounted D (t + heldIn rest (s.inodes ino).s5DirectBlocks) (s'.retire ino)
  released : Released ino (mapped s.bview (s.inodes ino)) s s'
  view : ∀ c ∈ t, s'.bview c = s.bview c
  todo : ∀ k ∈ rest, (s'.inodes ino).s5DirectBlocks k = (s.inodes ino).s5DirectBlocks k
  nodup : rest.Nodup
  sub : ∀ k ∈ rest, k < s5NdirectBlocks

omit [BlockDev] in
theorem direct_mem {i : Inode} {view : UInt32 → Block} {k : Nat} (htype : i.s5Type ≠ .free)
    (hk : k < s5NdirectBlocks) (hne : i.s5DirectBlocks k ≠ 0) :
    i.s5DirectBlocks k ∈ mapped view i := by
  have hheld : i.s5DirectBlocks k ∈ held s5NdirectBlocks i.s5DirectBlocks :=
    mem_held.mpr ⟨⟨k, hk, rfl⟩, hne⟩
  cases htypeEq : i.s5Type with
  | free => exact absurd htypeEq htype
  | data => simpa only [mapped, htypeEq] using Multiset.mem_add.mpr (Or.inl hheld)
  | dir => simpa only [mapped, htypeEq] using Multiset.mem_add.mpr (Or.inl hheld)
  | chr => simpa only [mapped, htypeEq] using hheld
  | blk => simpa only [mapped, htypeEq] using hheld

theorem wp_s5FreeDirect {k : Nat} {rest : List Nat} (htype : (s0.inodes ino).s5Type ≠ .free)
    (h : DirectLoop D t ino s0 (k :: rest) s) :
    wp (s5FreeDirect ino k) (fun _ s' => DirectLoop D t ino s0 rest s') s := by
  obtain ⟨⟨nodes, hl⟩, hreleased, hview, htodo, hnodup, hsub⟩ := h
  obtain ⟨hk, hnodup⟩ := List.nodup_cons.mp hnodup
  have hself := htodo k List.mem_cons_self
  have htodo' : ∀ j ∈ rest, (s.inodes ino).s5DirectBlocks j = (s0.inodes ino).s5DirectBlocks j :=
    fun j hj => htodo j (List.mem_cons_of_mem _ hj)
  have hsub' : ∀ j ∈ rest, j < s5NdirectBlocks := fun j hj => hsub j (List.mem_cons_of_mem _ hj)
  unfold s5FreeDirect
  rw [wp_bind, wp_get]
  by_cases hzero : (s0.inodes ino).s5DirectBlocks k = 0
  · rw [hself, if_neg (not_not.mpr hzero)]
    rw [heldIn_cons_of_empty hzero] at hl
    exact wp_pure.mpr ⟨⟨nodes, hl⟩, hreleased, hview, htodo', hnodup, hsub'⟩
  · rw [hself, if_pos hzero]
    rw [heldIn_cons_of_ne hzero, Multiset.add_cons] at hl
    obtain ⟨nodes', hfree, hl'⟩ := hl.retire_giveBlock
    rw [wp_bind, wp_of_eq hfree, setDirect, wp_modify]
    refine ⟨⟨nodes', ?_⟩, (hreleased.giveBlock hl ?_).setDirect _, fun c hc => ?_, fun j hj => ?_,
      hnodup, hsub'⟩
    · -- retiring overwrites the inode, so the cleared slot does not show
      rw [S5.retire, S5.setInode_setInode]
      exact hl'
    · exact direct_mem htype (hsub k List.mem_cons_self) hzero
    · have hnodup := (Multiset.nodup_add.mp (Multiset.nodup_add.mp hl.nodup).1).2.1
      have hne : c ≠ (s0.inodes ino).s5DirectBlocks k := by
        rintro rfl
        exact (Multiset.nodup_cons.mp hnodup).1 (Multiset.mem_add.mpr (Or.inl hc))
      rw [S5.bview_setInode, S5.bview_giveBlock_of_ne _ _ hne, hview c hc]
    · have hne : j ≠ k := fun heq => hk (heq ▸ hj)
      rw [S5.inodes_setInode_self, S5.inodes_giveBlock]
      simp only [Function.update_of_ne hne]
      exact htodo' j hj

/-! ### The indirect block -/

/-- The invariant of the loop over the entries of the indirect block. The block itself is given
back last, and until then it still lists the entries already freed. -/
structure IndirectLoop (D t : Multiset UInt32) (ino : Nat) (s : S5) (rest : List Nat) (s' : S5) :
    Prop where
  accounted : Accounted D (t + (s.inodes ino).s5IndirectBlock ::ₘ
    heldIn rest (s.bview (s.inodes ino).s5IndirectBlock).word) (s'.retire ino)
  released : Released ino (mapped s.bview (s.inodes ino)) s s'
  view : s'.bview (s.inodes ino).s5IndirectBlock = s.bview (s.inodes ino).s5IndirectBlock
  sub : ∀ k ∈ rest, k < s5NidirectBlocks

omit [BlockDev] in
theorem Released.indirect {B : Multiset UInt32} (h : Released ino B s0 s) :
    (s.inodes ino).s5IndirectBlock = (s0.inodes ino).s5IndirectBlock := by
  rw [h.inode]

omit [BlockDev] in
theorem Released.type {B : Multiset UInt32} (h : Released ino B s0 s) :
    (s.inodes ino).s5Type = (s0.inodes ino).s5Type := by
  rw [h.inode]

theorem wp_s5FreeIndirectEntry {k : Nat} {rest : List Nat} (hfile : (s0.inodes ino).IsFile)
    (hind : (s0.inodes ino).s5IndirectBlock ≠ 0) (h : IndirectLoop D t ino s0 (k :: rest) s) :
    wp (s5FreeIndirectEntry ino k) (fun _ s' => IndirectLoop D t ino s0 rest s') s := by
  obtain ⟨⟨nodes, hl⟩, hreleased, hview, hsub⟩ := h
  have hsub' : ∀ j ∈ rest, j < s5NidirectBlocks := fun j hj => hsub j (List.mem_cons_of_mem _ hj)
  unfold s5FreeIndirectEntry
  rw [wp_bind, wp_get]
  simp only [hreleased.indirect, hview]
  generalize hb : (s0.bview (s0.inodes ino).s5IndirectBlock).word k = b
  by_cases hzero : b = 0
  · rw [heldIn_cons_of_empty (hb.trans hzero)] at hl
    rw [wp_bind, kassert, wp_check, if_neg (not_not.mpr hzero)]
    refine ⟨?_, wp_pure.mpr ⟨⟨nodes, hl⟩, hreleased, hview, hsub'⟩⟩
    rw [hzero]
    exact decide_eq_true hind.symm
  · rw [heldIn_cons_of_ne (hb.symm ▸ hzero), hb, Multiset.cons_swap, Multiset.add_cons] at hl
    have hne : b ≠ (s0.inodes ino).s5IndirectBlock := by
      have hnodup := (Multiset.nodup_add.mp (Multiset.nodup_add.mp hl.nodup).1).2.1
      rw [Multiset.nodup_cons, Multiset.mem_add, Multiset.mem_cons] at hnodup
      exact fun heq => hnodup.1 (Or.inr (Or.inl heq))
    have hmem : b ∈ mapped s0.bview (s0.inodes ino) := by
      rw [← hb]
      exact entry_mem_mapped hfile hind (hsub k List.mem_cons_self) (hb.symm ▸ hzero)
    obtain ⟨nodes', hfree, hl'⟩ := hl.retire_giveBlock
    rw [wp_bind, kassert, wp_check, if_pos hzero, wp_of_eq hfree]
    refine ⟨decide_eq_true hne, ⟨nodes', hl'⟩, hreleased.giveBlock hl hmem, ?_, hsub'⟩
    rw [S5.bview_giveBlock_of_ne _ _ hne.symm, hview]

theorem wp_s5FreeIndirect (hfile : (s0.inodes ino).IsFile)
    (hacc : Accounted D (t + indirectFamily s0.bview (s0.inodes ino).s5IndirectBlock)
      (s.retire ino))
    (hreleased : Released ino (mapped s0.bview (s0.inodes ino)) s0 s)
    (hview : (s0.inodes ino).s5IndirectBlock ≠ 0 →
      s.bview (s0.inodes ino).s5IndirectBlock = s0.bview (s0.inodes ino).s5IndirectBlock) :
    wp (s5FreeIndirect ino) (fun _ s' => Accounted D t (s'.retire ino) ∧
      Released ino (mapped s0.bview (s0.inodes ino)) s0 s') s := by
  unfold s5FreeIndirect
  rw [wp_bind, wp_get, hreleased.type, hreleased.indirect]
  obtain ⟨nodes, hl⟩ := hacc
  by_cases hind : (s0.inodes ino).s5IndirectBlock = 0
  · rw [if_neg (fun h => h.2 hind)]
    rw [indirectFamily, if_pos hind, add_zero] at hl
    exact wp_pure.mpr ⟨⟨nodes, hl⟩, hreleased⟩
  rw [if_pos ⟨hfile, hind⟩]
  rw [indirectFamily, if_neg hind, held_eq_heldIn] at hl
  have hindD : (s0.inodes ino).s5IndirectBlock ∈ D :=
    hl.mem_of_transit (Multiset.mem_add.mpr (Or.inr (Multiset.mem_cons_self _ _)))
  have hindMem : (s0.inodes ino).s5IndirectBlock ∈ mapped s0.bview (s0.inodes ino) :=
    indirect_mem_mapped hfile hind
  rw [wp_bind, wp_of_eq (pframeGetBdev_eq_cacheBdev s (hl.region.serves _ hindD)),
    decide_eq_true le_rfl, check_true, wp_bind, wp_pure, wp_bind]
  have hstart : IndirectLoop D t ino s0 (List.range s5NidirectBlocks)
      (s.cacheBdev (s0.inodes ino).s5IndirectBlock) := by
    refine ⟨⟨nodes, hl.cacheBdev (hl.ne_noBlock hindD)⟩, ?_, ?_, fun k hk => List.mem_range.mp hk⟩
    · refine ⟨hreleased.super, hreleased.vnodes, hreleased.disk, hreleased.inode,
        hreleased.others, fun c hc => ?_, fun c hc => ?_⟩
      · refine (S5.bdev_setBdev_of_ne fun heq => hc ?_).trans (hreleased.bdev c hc)
        rw [heq]
        exact hindMem
      · have hl' := hl.cacheBdev (hl.ne_noBlock hindD)
        have hnode : c ∈ nodes := hl'.isNode_iff.mp hc
        have hne : c ≠ (s0.inodes ino).s5IndirectBlock := fun heq =>
          hl.notMem_nodes_of_transit
            (Multiset.mem_add.mpr (Or.inr (Multiset.mem_cons_self _ _))) (heq ▸ hnode)
        have hsame : (s.cacheBdev (s0.inodes ino).s5IndirectBlock).bdev c = s.bdev c :=
          S5.bdev_setBdev_of_ne hne
        rcases hreleased.node c (hl.isNode_iff.mpr hnode) with hdirty | ⟨hold, hpage⟩
        · exact Or.inl ((S5.bdevDirty_congr hsame).trans hdirty)
        · exact Or.inr ⟨hold, hsame.trans hpage⟩
    · rw [S5.bview_cacheBdev]
      exact hview hind
  refine wp_mono (wp_each hstart fun k rest s' h => wp_s5FreeIndirectEntry hfile hind h) ?_
  rintro _ s1 ⟨⟨nodes1, hl1⟩, hreleased1, -, -⟩
  rw [heldIn_nil, Multiset.add_cons, add_zero] at hl1
  obtain ⟨nodes2, hfree, hl2⟩ := hl1.retire_giveBlock
  rw [wp_of_eq hfree]
  exact ⟨⟨nodes2, hl2⟩, hreleased1.giveBlock hl1 hindMem⟩

/-! ### The whole function -/

/-- What is left to free after the direct blocks. -/
def indirectPart (view : UInt32 → Block) (i : Inode) : Multiset UInt32 :=
  match i.s5Type with
  | .data | .dir => indirectFamily view i.s5IndirectBlock
  | .free | .chr | .blk => 0

omit [BlockDev] in
theorem mapped_of_ne_free {view : UInt32 → Block} {i : Inode} (h : i.s5Type ≠ .free) :
    mapped view i = indirectPart view i + held s5NdirectBlocks i.s5DirectBlocks := by
  unfold mapped indirectPart
  cases htype : i.s5Type with
  | free => exact absurd htype h
  | data => exact add_comm _ _
  | dir => exact add_comm _ _
  | chr => exact (zero_add _).symm
  | blk => exact (zero_add _).symm

/-- **Freeing an inode** puts every block of its map back on the free list. -/
theorem wp_s5FreeInode (h : Accounted D t s) (hino : ino < s.super.s5sNumInodes)
    (htype : (s.inodes ino).s5Type ≠ .free) :
    wp (s5FreeInode ino) (fun _ s' => Accounted D t s' ∧ FreedInode ino s s') s := by
  obtain ⟨nodes, hl⟩ := h
  have hstart : DirectLoop D (t + indirectPart s.bview (s.inodes ino)) ino s
      (List.range s5NdirectBlocks) s := by
    refine ⟨⟨nodes, ?_⟩, .refl .., fun _ _ => rfl, fun _ _ => rfl, List.nodup_range,
      fun k hk => List.mem_range.mp hk⟩
    have hretire := hl.retire hino
    rwa [mapped_of_ne_free htype, held_eq_heldIn, ← add_assoc] at hretire
  unfold s5FreeInode
  rw [wp_bind, wp_get, wp_bind, kassert, wp_check]
  refine ⟨decide_eq_true htype, wp_bind_of (wp_each hstart fun k rest s' h =>
    wp_s5FreeDirect htype h) ?_⟩
  rintro _ s1 ⟨hacc1, hreleased1, hview1, -, -, -⟩
  rw [heldIn_nil, add_zero] at hacc1
  have hind : wp (s5FreeIndirect ino) (fun _ s' => Accounted D t (s'.retire ino) ∧
      Released ino (mapped s.bview (s.inodes ino)) s s') s1 := by
    by_cases hfile : (s.inodes ino).IsFile
    · have hpart : indirectPart s.bview (s.inodes ino) =
          indirectFamily s.bview (s.inodes ino).s5IndirectBlock := by
        rcases hfile with hfile | hfile <;> rw [indirectPart, hfile]
      rw [hpart] at hacc1 hview1
      refine wp_s5FreeIndirect hfile hacc1 hreleased1 fun hne => hview1 _ ?_
      rw [indirectFamily, if_neg hne]
      exact Multiset.mem_add.mpr (Or.inr (Multiset.mem_cons_self _ _))
    · have hpart : indirectPart s.bview (s.inodes ino) = 0 := by
        unfold Inode.IsFile at hfile
        unfold indirectPart
        split <;> simp_all
      rw [hpart, add_zero] at hacc1
      unfold s5FreeIndirect
      rw [wp_bind, wp_get, hreleased1.type, if_neg fun h => hfile h.1]
      exact wp_pure.mpr ⟨hacc1, hreleased1⟩
  refine wp_bind_of hind ?_
  rintro _ s2 ⟨⟨nodes2, hl2⟩, hreleased2⟩
  rw [wp_bind, wp_modify, wp_bind, wp_modify, wp_modify]
  have hstate (P : S5 → Prop) (hP : P (s2.pushInode ino)) : P (((s2.setInode ino
      { s2.inodes ino with s5IndirectBlock := 0, s5Type := .free }).setInode ino
        { s2.inodes ino with
          s5Un := s2.super.s5sFreeInode, s5IndirectBlock := 0, s5Type := .free }).setSuper
            { s2.super with s5sFreeInode := (s2.inodes ino).s5Number }) := by
    rw [S5.setInode_setInode]
    exact hP
  simp only [S5.inodes_setInode_self]
  refine hstate (fun s' => Accounted D t s' ∧ FreedInode ino s s') ⟨⟨nodes2, ?_⟩, ?_,
    hreleased2.vnodes, hreleased2.disk, ?_, fun j hj => ?_, hreleased2.bdev, hreleased2.node⟩
  · have hnum : ino < (s2.retire ino).super.s5sNumInodes := by
      change ino < s2.super.s5sNumInodes
      rw [hreleased2.super]
      exact hino
    have hset : Ledger D t nodes2 _ := hl2.setInode hnum (i := { s2.inodes ino with
      s5Un := s2.super.s5sFreeInode, s5Type := .free, s5IndirectBlock := 0 }) (by
        rw [S5.retire, S5.inodes_setInode_self]
        rfl)
    rw [S5.retire, S5.setInode_setInode] at hset
    exact ⟨hset.region, hset.wf, hset.total, hset.uncached⟩
  · simp only [S5.pushInode, S5.setSuper, S5.setInode]
    rw [hreleased2.inode, hreleased2.super]
  · have hself : (s2.pushInode ino).inodes ino = { s2.inodes ino with
        s5Un := s2.super.s5sFreeInode, s5Type := .free, s5IndirectBlock := 0 } :=
      S5.inodes_setInode_self
    rw [hself, hreleased2.inode, hreleased2.super]
  · change (s2.setInode ino _).inodes j = _
    rw [S5.inodes_setInode_of_ne hj, hreleased2.others j hj]

/-! ### The list of free inodes -/

/-- The inode table, with the free inodes in the order they are handed out. -/
structure InodeTable (free : List Nat) (s : S5) : Prop where
  number : ∀ i < s.super.s5sNumInodes, (s.inodes i).s5Number = i
  bound : s.super.s5sNumInodes ≤ noBlock.toNat
  chain : FreeList.Chain 0 noBlock.toNat (fun i _ => (s.inodes i).s5NextFree)
    s.super.s5sFreeInode free
  nodup : free.Nodup
  lt : ∀ i ∈ free, i < s.super.s5sNumInodes
  mem_iff : ∀ i < s.super.s5sNumInodes, i ∈ free ↔ (s.inodes i).s5Type = .free

/-- The state after inode `ino` was taken off the list of free inodes. -/
def S5.popInode (s : S5) (ino : Nat) (type : S5Type) (devid : UInt32) : S5 :=
  (s.setSuper { s.super with s5sFreeInode := (s.inodes ino).s5NextFree }).setInode ino
    { s.inodes ino with
      s5Un := 0
      s5Type := type
      s5Linkcount := 0
      s5DirectBlocks := fun _ => 0
      s5IndirectBlock := if type = .chr ∨ type = .blk then devid else 0 }

namespace InodeTable

variable {free : List Nat} {s' : S5}

omit [BlockDev] in
theorem congr (h : InodeTable free s) (hnum : s'.super.s5sNumInodes = s.super.s5sNumInodes)
    (hhead : s'.super.s5sFreeInode = s.super.s5sFreeInode)
    (hnumber : ∀ i, (s'.inodes i).s5Number = (s.inodes i).s5Number)
    (htype : ∀ i, (s'.inodes i).s5Type = (s.inodes i).s5Type)
    (hnext : ∀ i, (s.inodes i).s5Type = .free → (s'.inodes i).s5Un = (s.inodes i).s5Un) :
    InodeTable free s' := by
  refine ⟨fun i hi => ?_, hnum ▸ h.bound, ?_, h.nodup, fun i hi => ?_, fun i hi => ?_⟩
  · rw [hnumber]
    exact h.number i (hnum ▸ hi)
  · rw [hhead]
    exact h.chain.congr fun i hi => hnext i ((h.mem_iff i (h.lt i hi)).mp hi)
  · rw [hnum]
    exact h.lt i hi
  · rw [htype]
    exact h.mem_iff i (hnum ▸ hi)

omit [BlockDev] in
theorem grew {P : Nat → Prop} (h : InodeTable free s) (hgrew : Grew ino P s s') :
    InodeTable free s' := by
  have hinode (i : Nat) : (s'.inodes i).s5Number = (s.inodes i).s5Number ∧
      (s'.inodes i).s5Type = (s.inodes i).s5Type ∧ (s'.inodes i).s5Un = (s.inodes i).s5Un := by
    by_cases hi : i = ino
    · subst hi
      rw [hgrew.inode]
      exact ⟨rfl, rfl, rfl⟩
    · rw [hgrew.others i hi]
      exact ⟨rfl, rfl, rfl⟩
  exact h.congr (by rw [hgrew.super]) (by rw [hgrew.super]) (fun i => (hinode i).1)
    (fun i => (hinode i).2.1) fun i _ => (hinode i).2.2

omit [BlockDev] in
theorem freed (h : InodeTable free s) (hino : ino < s.super.s5sNumInodes)
    (htype : (s.inodes ino).s5Type ≠ .free) (hfreed : FreedInode ino s s') :
    InodeTable (ino :: free) s' := by
  have hnum : s'.super.s5sNumInodes = s.super.s5sNumInodes := by rw [hfreed.super]
  have hfresh : ino ∉ free := fun hmem => htype ((h.mem_iff ino hino).mp hmem)
  have hne {i : Nat} (hi : i ∈ free) : i ≠ ino := fun heq => hfresh (heq ▸ hi)
  have hhead : s'.super.s5sFreeInode = ino := by
    rw [hfreed.super]
    exact h.number ino hino
  refine ⟨fun i hi => ?_, hnum ▸ h.bound, ?_, List.nodup_cons.mpr ⟨hfresh, h.nodup⟩,
    fun i hi => ?_, fun i hi => ?_⟩
  · rw [hnum] at hi
    by_cases heq : i = ino
    · subst heq
      rw [hfreed.inode]
      exact h.number i hi
    · rw [hfreed.others i heq]
      exact h.number i hi
  · rw [hhead]
    refine .cons (ne_of_lt (lt_of_lt_of_le hino h.bound)) ?_
    have hnext : (s'.inodes ino).s5NextFree = s.super.s5sFreeInode := by
      rw [hfreed.inode]
      rfl
    rw [hnext]
    exact h.chain.congr fun i hi => by rw [hfreed.others i (hne hi)]
  · rw [hnum]
    rcases List.mem_cons.mp hi with rfl | hi
    · exact hino
    · exact h.lt i hi
  · rw [hnum] at hi
    by_cases heq : i = ino
    · subst heq
      rw [hfreed.inode]
      simp
    · rw [hfreed.others i heq, List.mem_cons, ← h.mem_iff i hi]
      exact or_iff_right heq

omit [BlockDev] in
theorem popInode {rest : List Nat} (h : InodeTable (ino :: rest) s) {type : S5Type}
    (htype : type ≠ .free) (devid : UInt32) : InodeTable rest (s.popInode ino type devid) := by
  obtain ⟨hnotMem, hnodup⟩ := List.nodup_cons.mp h.nodup
  have hself : (s.popInode ino type devid).inodes ino = { s.inodes ino with
      s5Un := 0
      s5Type := type
      s5Linkcount := 0
      s5DirectBlocks := fun _ => 0
      s5IndirectBlock := if type = .chr ∨ type = .blk then devid else 0 } :=
    S5.inodes_setInode_self
  have hothers {i : Nat} (hi : i ≠ ino) : (s.popInode ino type devid).inodes i = s.inodes i :=
    S5.inodes_setInode_of_ne hi
  have hne {i : Nat} (hi : i ∈ rest) : i ≠ ino := fun heq => hnotMem (heq ▸ hi)
  refine ⟨fun i hi => ?_, h.bound, ?_, hnodup, fun i hi => h.lt i (List.mem_cons_of_mem _ hi),
    fun i hi => ?_⟩
  · by_cases heq : i = ino
    · subst heq
      rw [hself]
      exact h.number i hi
    · rw [hothers heq]
      exact h.number i hi
  · have hrest : FreeList.Chain 0 noBlock.toNat (fun i _ => (s.inodes i).s5NextFree)
        (s.inodes ino).s5NextFree rest := h.chain.of_cons.2
    exact hrest.congr fun i hi => by rw [hothers (hne hi)]
  · by_cases heq : i = ino
    · subst heq
      rw [hself]
      exact iff_of_false hnotMem htype
    · rw [hothers heq, ← h.mem_iff i hi, List.mem_cons]
      exact (or_iff_right heq).symm

end InodeTable

theorem Accounted.popInode {type : S5Type} {devid : UInt32} (h : Accounted D t s)
    (hino : ino < s.super.s5sNumInodes) (hfree : (s.inodes ino).s5Type = .free) :
    Accounted D t (s.popInode ino type devid) := by
  obtain ⟨nodes, hl⟩ := h
  have hl' : Ledger D t nodes
      (s.setSuper { s.super with s5sFreeInode := (s.inodes ino).s5NextFree }) :=
    ⟨hl.region, hl.wf, hl.total, hl.uncached⟩
  refine ⟨nodes, hl'.setInode hino ?_⟩
  have hold : mapped s.bview (s.inodes ino) = 0 := by rw [mapped, hfree]
  refine congrArg (t + ·) (Eq.trans ?_ hold.symm)
  cases type <;> simp [mapped, indirectFamily]

theorem wp_s5AllocInode {free : List Nat} {type : S5Type} (h : Accounted D t s)
    (htable : InodeTable free s) (htype : type ≠ .free) (devid : UInt32) :
    wp (s5AllocInode type devid) (fun r s' =>
      free = [] ∧ r = -enospc ∧ s' = s ∨
      ∃ i rest, free = i :: rest ∧ r = i ∧ s' = s.popInode i type devid ∧
        Accounted D t s' ∧ InodeTable rest s') s := by
  unfold s5AllocInode
  rw [wp_bind, kassert, wp_check]
  refine ⟨decide_eq_true htype, ?_⟩
  rw [wp_bind, wp_get]
  have hchain := htable.chain
  by_cases hhead : s.super.s5sFreeInode = noBlock.toNat
  · rw [if_pos hhead]
    rw [hhead] at hchain
    exact wp_pure.mpr (Or.inl ⟨hchain.eq_nil, rfl, rfl⟩)
  · obtain ⟨rest, hfree, -⟩ := hchain.eq_cons hhead
    have hmem : s.super.s5sFreeInode ∈ free := by
      rw [hfree]
      exact List.mem_cons_self
    have hlt := htable.lt _ hmem
    have hnumber := htable.number _ hlt
    rw [if_neg hhead]
    simp only []
    rw [wp_bind, kassert, wp_check]
    refine ⟨decide_eq_true hnumber, ?_⟩
    rw [wp_bind, wp_modify, wp_bind, wp_modify]
    refine wp_pure.mpr (Or.inr ⟨_, rest, hfree, congrArg _ hnumber, rfl, ?_, ?_⟩)
    · exact h.popInode hlt ((htable.mem_iff _ hlt).mp hmem)
    · exact (hfree ▸ htable).popInode htype devid

end CodingSample.S5fs
