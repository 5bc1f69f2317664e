import CodingSample.S5fs.Blocks
import CodingSample.Data.FreeList

/-!
# What one allocation and one release of a block do

`s5_alloc_block` and `s5_free_block` leave one of a few explicit states. Everything later about
the free-block list goes through the equations here.
-/

namespace CodingSample.S5fs

open Prog

namespace S5

/-- The free-block list in its general form, as the kernel sees it. -/
def freeList (s : S5) : FreeList UInt32 where
  nfree := s.super.s5sNfree
  slots := s.super.s5sFreeBlocks
  node b := (s.bview b).word

/-- The block is a node of the free-block list. -/
def IsNode (s : S5) (b : UInt32) : Prop := s.freeList.IsNode 29 noBlock b

/-- No block is free. -/
def NoFree (s : S5) : Prop := s.super.s5sNfree = 0 ∧ s.super.link = noBlock

instance (s : S5) : Decidable s.NoFree := inferInstanceAs (Decidable (_ ∧ _))

/-- The state after a block was taken from an array slot. -/
def takeSlot (s : S5) : S5 := s.setSuper { s.super with s5sNfree := s.super.s5sNfree - 1 }

/-- The state after the first free-list node was taken. -/
def takeNode (s : S5) : S5 :=
  ((s.setBdev s.super.link none).setDisk s.super.link Block.zero).setSuper { s.super with
    s5sNfree := s5NblksPerFnode - 1
    s5sFreeBlocks := fun i =>
      if i < s5NblksPerFnode then (s.bview s.super.link).word i else s.super.s5sFreeBlocks i }

/-- The state after block `b` was put back. -/
def giveBlock (s : S5) (b : UInt32) : S5 :=
  if s.super.s5sNfree = s5NblksPerFnode - 1 then
    (s.setBdev b
      (some ⟨(s.bview b).writeWords s.super.s5sFreeBlocks s5NblksPerFnode, true⟩)).setSuper
        { s.super with
          s5sNfree := 0
          s5sFreeBlocks :=
            Function.update s.super.s5sFreeBlocks (s5NblksPerFnode - 1) b }
  else
    s.setSuper { s.super with
      s5sNfree := s.super.s5sNfree + 1
      s5sFreeBlocks := Function.update s.super.s5sFreeBlocks s.super.s5sNfree b }

/-- The block the next allocation hands out. -/
def nextBlock (s : S5) : UInt32 :=
  if s.super.s5sNfree = 0 then s.super.link else s.super.s5sFreeBlocks (s.super.s5sNfree - 1)

/-- The state after one allocation. -/
def afterAlloc (s : S5) : S5 := if s.super.s5sNfree = 0 then s.takeNode else s.takeSlot

theorem giveBlock_of_full {s : S5} {b : UInt32} (h : s.super.s5sNfree = s5NblksPerFnode - 1) :
    s.giveBlock b = (s.setBdev b
      (some ⟨(s.bview b).writeWords s.super.s5sFreeBlocks s5NblksPerFnode, true⟩)).setSuper
        { s.super with
          s5sNfree := 0
          s5sFreeBlocks :=
            Function.update s.super.s5sFreeBlocks (s5NblksPerFnode - 1) b } :=
  if_pos h

theorem giveBlock_of_room {s : S5} {b : UInt32} (h : s.super.s5sNfree ≠ s5NblksPerFnode - 1) :
    s.giveBlock b = s.setSuper { s.super with
      s5sNfree := s.super.s5sNfree + 1
      s5sFreeBlocks := Function.update s.super.s5sFreeBlocks s.super.s5sNfree b } :=
  if_neg h

variable (s : S5) (b : UInt32)

@[simp] theorem bview_setSuper (sup : Super) : (s.setSuper sup).bview = s.bview := rfl

@[simp] theorem bview_setInode (ino : Nat) (i : Inode) : (s.setInode ino i).bview = s.bview := rfl

@[simp] theorem bview_setVnode (ino : Nat) (v : Option Vnode) :
    (s.setVnode ino v).bview = s.bview := rfl

theorem bview_setBdev_some (p : PFrame) :
    (s.setBdev b (some p)).bview = Function.update s.bview b p.data := by
  funext c
  by_cases hc : c = b
  · subst hc
    simp [bview, setBdev]
  · simp [bview, setBdev, hc]

theorem bview_takeNode :
    s.takeNode.bview = Function.update s.bview s.super.link Block.zero := by
  funext c
  by_cases hc : c = s.super.link
  · subst hc
    simp [bview, takeNode, setBdev, setDisk, setSuper]
  · simp [bview, takeNode, setBdev, setDisk, setSuper, hc]

theorem bview_takeNode_of_ne {c : UInt32} (hc : c ≠ s.super.link) :
    s.takeNode.bview c = s.bview c := by
  rw [bview_takeNode, Function.update_of_ne hc]

theorem bview_giveBlock_of_ne {c : UInt32} (hc : c ≠ b) :
    (s.giveBlock b).bview c = s.bview c := by
  unfold giveBlock
  split
  · rw [bview_setSuper, bview_setBdev_some, Function.update_of_ne hc]
  · rfl

@[simp] theorem inodes_afterAlloc : s.afterAlloc.inodes = s.inodes := by
  unfold afterAlloc
  split <;> rfl

@[simp] theorem vnodes_afterAlloc : s.afterAlloc.vnodes = s.vnodes := by
  unfold afterAlloc
  split <;> rfl

theorem super_afterAlloc : s.afterAlloc.super = { s.super with
    s5sNfree := s.afterAlloc.super.s5sNfree
    s5sFreeBlocks := s.afterAlloc.super.s5sFreeBlocks } := by
  unfold afterAlloc
  split <;> rfl

section

variable {s} {c : UInt32}

theorem bview_afterAlloc_of_ne (hc : c ≠ s.nextBlock) : s.afterAlloc.bview c = s.bview c := by
  unfold afterAlloc
  unfold nextBlock at hc
  split
  · exact s.bview_takeNode_of_ne (by simpa [*] using hc)
  · rfl

theorem bdev_afterAlloc_of_ne (hc : c ≠ s.nextBlock) : s.afterAlloc.bdev c = s.bdev c := by
  unfold afterAlloc
  unfold nextBlock at hc
  split
  · exact Function.update_of_ne (by simpa [*] using hc) _ _
  · rfl

theorem disk_afterAlloc_of_ne (hc : c ≠ s.nextBlock) : s.afterAlloc.disk c = s.disk c := by
  unfold afterAlloc
  unfold nextBlock at hc
  split
  · exact Function.update_of_ne (by simpa [*] using hc) _ _
  · rfl

end

/-- Only a block from an array slot can still have a page of the block device. -/
theorem bdev_afterAlloc_self : s.afterAlloc.bdev s.nextBlock =
    if s.super.s5sNfree = 0 then none else s.bdev s.nextBlock := by
  unfold afterAlloc nextBlock
  split
  · exact Function.update_self s.super.link _ s.bdev
  · rfl

@[simp] theorem inodes_giveBlock : (s.giveBlock b).inodes = s.inodes := by
  unfold giveBlock
  split <;> rfl

@[simp] theorem vnodes_giveBlock : (s.giveBlock b).vnodes = s.vnodes := by
  unfold giveBlock
  split <;> rfl

@[simp] theorem disk_giveBlock : (s.giveBlock b).disk = s.disk := by
  unfold giveBlock
  split <;> rfl

theorem bdev_giveBlock_of_ne {c : UInt32} (hc : c ≠ b) : (s.giveBlock b).bdev c = s.bdev c := by
  unfold giveBlock
  split
  · exact Function.update_of_ne hc _ _
  · rfl

@[simp] theorem numInodes_giveBlock :
    (s.giveBlock b).super.s5sNumInodes = s.super.s5sNumInodes := by
  unfold giveBlock
  split <;> rfl

@[simp] theorem freeInode_giveBlock :
    (s.giveBlock b).super.s5sFreeInode = s.super.s5sFreeInode := by
  unfold giveBlock
  split <;> rfl

/-- An allocation takes the top of the list. -/
theorem agree_afterAlloc {nodes : List UInt32} (h : ∀ c ∈ nodes, c ≠ s.nextBlock) :
    FreeList.Agree 29 nodes (s.freeList.popped 29) s.afterAlloc.freeList := by
  unfold FreeList.popped afterAlloc
  by_cases hn : s.super.s5sNfree = 0
  · have hnfree : s.freeList.nfree = 0 := hn
    rw [if_pos hn, if_pos hnfree]
    refine ⟨rfl, fun i hi => if_pos (Nat.lt_succ_of_le hi), fun c hc i _ => ?_⟩
    have hne := h c hc
    rw [nextBlock, if_pos hn] at hne
    exact congrArg (Block.word · i) (s.bview_takeNode_of_ne hne)
  · have hnfree : s.freeList.nfree ≠ 0 := hn
    rw [if_neg hn, if_neg hnfree]
    exact .refl ..

/-- A release returns the block to the list. -/
theorem agree_giveBlock {nodes : List UInt32} (h : b ∉ nodes) :
    FreeList.Agree 29 (s.freeList.pushedNodes 29 nodes b) (s.freeList.pushed 29 b)
      (s.giveBlock b).freeList := by
  have hnode : ∀ c, c ≠ b → ∀ i, (s.giveBlock b).freeList.node c i = s.freeList.node c i :=
    fun c hc i => congrArg (Block.word · i) (s.bview_giveBlock_of_ne b hc)
  unfold FreeList.pushed FreeList.pushedNodes
  by_cases hn : s.super.s5sNfree = s5NblksPerFnode - 1
  · have hnfree : s.freeList.nfree = 29 := hn
    rw [if_pos hnfree, if_pos hnfree]
    refine ⟨by rw [giveBlock_of_full hn]; rfl, fun i _ => by rw [giveBlock_of_full hn]; rfl,
      fun c hc i hi => ?_⟩
    by_cases hcb : c = b
    · subst hcb
      have hview : (s.giveBlock c).bview c =
          (s.bview c).writeWords s.super.s5sFreeBlocks s5NblksPerFnode := by
        rw [giveBlock_of_full hn, bview_setSuper, bview_setBdev_some, Function.update_self]
      simp only [Function.update_self]
      change ((s.giveBlock c).bview c).word i = _
      rw [hview]
      exact Block.word_writeWords_of_lt _ _ (Nat.lt_succ_of_le hi)
    · simp only [Function.update_of_ne hcb]
      exact hnode c hcb i
  · have hnfree : s.freeList.nfree ≠ 29 := hn
    rw [if_neg hnfree, if_neg hnfree]
    refine ⟨by rw [giveBlock_of_room hn]; rfl, fun i _ => by rw [giveBlock_of_room hn]; rfl,
      fun c hc i _ => hnode c (fun heq => h (heq ▸ hc)) i⟩

theorem giveBlock_setInode (ino : Nat) (i : Inode) :
    (s.setInode ino i).giveBlock b = (s.giveBlock b).setInode ino i := by
  unfold giveBlock
  split <;> split <;> first | rfl | contradiction

end S5

theorem pokeBdev_apply {b : UInt32} {s : S5} {p : PFrame} (f : Block → Block)
    (hp : s.bdev b = some p) :
    pokeBdev b f s = .ok ((), s.setBdev b (some { p with data := f p.data })) := by
  simp [pokeBdev, bind_apply, hp]

theorem pframeDirtyBdev_apply {b : UInt32} {s : S5} {p : PFrame} (hp : s.bdev b = some p) :
    pframeDirtyBdev b s = .ok ((), s.setBdev b (some { p with dirty := true })) := by
  simp [pframeDirtyBdev, bind_apply, hp]

theorem pframeFreeBdev_apply {b : UInt32} {s : S5} {p : PFrame} (hp : s.bdev b = some p) :
    pframeFreeBdev b s = .ok ((), s.setBdev b none) := by
  simp [pframeFreeBdev, bind_apply, hp]

variable [BlockDev]

theorem pframeGetBdev_apply (b : UInt32) (s : S5) :
    pframeGetBdev b s = if s.bdev b = none ∧ BlockDev.serves b = false then .ok (-eio, s)
      else .ok (0, s.setBdev b (some ((s.bdev b).getD ⟨s.disk b, false⟩))) := by
  cases hp : s.bdev b with
  | none =>
      cases hserves : BlockDev.serves b with
      | false => simp [pframeGetBdev, bind_apply, hp, hserves]
      | true => simp [pframeGetBdev, bind_apply, hp, hserves]
  | some p =>
      have hsame : s.setBdev b (some p) = s := by
        rw [S5.setBdev, ← hp, Function.update_eq_self]
      simp [pframeGetBdev, bind_apply, hp, hsame]

theorem pframeCleanBdev_apply {b : UInt32} {s : S5} {p : PFrame} (hp : s.bdev b = some p)
    (hdirty : p.dirty = true) (hb : BlockDev.serves b = true) :
    pframeCleanBdev b s =
      .ok ((), (s.setBdev b (some { p with dirty := false })).setDisk b p.data) := by
  simp [pframeCleanBdev, bind_apply, hp, hdirty, hb, kassert]

/-- The page of a served block is resident after `pframe_get`, showing what it showed before. -/
theorem pframeGetBdev_of_serves {b : UInt32} (s : S5) (hb : BlockDev.serves b = true) :
    ∃ p : PFrame, p.data = s.bview b ∧
      pframeGetBdev b s = .ok (0, s.setBdev b (some p)) := by
  refine ⟨(s.bdev b).getD ⟨s.disk b, false⟩, ?_, ?_⟩
  · unfold S5.bview
    cases s.bdev b <;> rfl
  · rw [pframeGetBdev_apply, if_neg (by simp [hb])]

theorem s5AllocBlock_of_slot {s : S5} (h : s.super.s5sNfree ≠ 0) :
    s5AllocBlock s = .ok (toInt32 (s.super.s5sFreeBlocks (s.super.s5sNfree - 1)), s.takeSlot) := by
  simp [s5AllocBlock, bind_apply, h, S5.takeSlot]

theorem s5AllocBlock_of_refused {s : S5} (h : s.super.s5sNfree = 0)
    (hcached : s.bdev s.super.link = none) (hserves : BlockDev.serves s.super.link = false) :
    s5AllocBlock s = .ok (-enospc, s) := by
  simp [s5AllocBlock, bind_apply, h, pframeGetBdev_apply, hcached, hserves]

theorem s5AllocBlock_of_node {s : S5} (h : s.super.s5sNfree = 0)
    (hserves : BlockDev.serves s.super.link = true) :
    s5AllocBlock s = .ok (toInt32 s.super.link, s.takeNode) := by
  obtain ⟨p, hp, hget⟩ := pframeGetBdev_of_serves s hserves
  unfold s5AllocBlock
  rw [bind_eq_of_ok (get_apply s)]
  simp only [h, if_true]
  rw [bind_eq_of_ok hget]
  simp only [lt_irrefl, if_false]
  rw [bind_eq_of_ok (modify_apply _ _),
    bind_eq_of_ok (pokeBdev_apply _ (by simp [S5.setBdev, S5.setSuper]; rfl)),
    bind_eq_of_ok (pframeDirtyBdev_apply (by simp [S5.setBdev, S5.setSuper]; rfl)),
    bind_eq_of_ok (pframeCleanBdev_apply (by simp [S5.setBdev, S5.setSuper]; rfl) rfl hserves),
    bind_eq_of_ok (pframeFreeBdev_apply (by simp [S5.setBdev, S5.setSuper, S5.setDisk]; rfl)),
    bind_eq_of_ok (modify_apply _ _), pure_apply]
  simp [S5.takeNode, S5.setBdev, S5.setSuper, S5.setDisk, S5.bview, hp]
  rfl

theorem s5AllocBlock_of_free {s : S5} (hserves : BlockDev.serves s.nextBlock = true) :
    s5AllocBlock s = .ok (toInt32 s.nextBlock, s.afterAlloc) := by
  unfold S5.nextBlock at hserves ⊢
  unfold S5.afterAlloc
  by_cases hn : s.super.s5sNfree = 0
  · rw [if_pos hn] at hserves
    rw [if_pos hn, if_pos hn]
    exact s5AllocBlock_of_node hn hserves
  · rw [if_neg hn, if_neg hn]
    exact s5AllocBlock_of_slot hn

theorem s5FreeBlock_apply {s : S5} {b : UInt32} (hnfree : s.super.s5sNfree ≤ 29)
    (hserves : BlockDev.serves b = true) :
    s5FreeBlock b s = .ok ((), s.giveBlock b) := by
  unfold s5FreeBlock S5.giveBlock
  rw [bind_eq_of_ok (get_apply s), kassert, decide_eq_true (by simp; omega), check_true,
    bind_eq_of_ok (pure_apply () s)]
  by_cases hfull : s.super.s5sNfree = s5NblksPerFnode - 1
  · obtain ⟨p, hp, hget⟩ := pframeGetBdev_of_serves s hserves
    rw [if_pos hfull.symm, if_pos hfull, bind_eq_of_ok hget, decide_eq_true le_rfl, check_true,
      bind_eq_of_ok (pure_apply () _),
      bind_eq_of_ok (pokeBdev_apply _ (by simp [S5.setBdev]; rfl)),
      bind_eq_of_ok (pframeDirtyBdev_apply (by simp [S5.setBdev]; rfl)), modify_apply]
    simp [S5.setBdev, S5.setSuper, S5.bview, hp]
  · rw [if_neg (Ne.symm hfull), if_neg hfull, modify_apply]

end CodingSample.S5fs
