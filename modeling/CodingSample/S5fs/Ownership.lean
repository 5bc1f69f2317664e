import CodingSample.S5fs.Inodes

/-!
# Block ownership over whole runs

The calls that move blocks between the free-block list and the inodes, in any order the file
system makes them.
-/

namespace CodingSample.S5fs

open Prog

/-- A call that moves blocks or inodes. -/
inductive BlockCall where
  | seekToBlock (ino : Nat) (seekptr : Int) (alloc : Bool)
  | freeInode (ino : Nat)
  | allocInode (type : S5Type) (devid : UInt32)
  | allocBlock
  | freeBlock (b : UInt32)

namespace BlockCall

/-- When the file system makes the call, with the blocks in `t` taken from the free list and not
given to any inode. -/
def Made : BlockCall → Multiset UInt32 → S5 → Prop
  | .seekToBlock ino seekptr _, _, s =>
      ino < s.super.s5sNumInodes ∧ (s.inodes ino).IsFile ∧ 0 ≤ seekptr
  | .freeInode ino, _, s => ino < s.super.s5sNumInodes ∧ (s.inodes ino).s5Type ≠ .free
  | .allocInode type _, _, _ => type ≠ .free
  | .allocBlock, _, _ => True
  | .freeBlock b, t, _ => b ∈ t

/-- The blocks in hand after the call returned `r`. -/
def inHand : BlockCall → Int → Multiset UInt32 → Multiset UInt32
  | .allocBlock, r, t => if r < 0 then t else ofInt32 r ::ₘ t
  | .freeBlock b, _, t => t.erase b
  | .seekToBlock .., _, t | .freeInode _, _, t | .allocInode .., _, t => t

variable [BlockDev]

def run : BlockCall → K Int
  | .seekToBlock ino seekptr alloc => s5SeekToBlock ino seekptr alloc
  | .freeInode ino => s5FreeInode ino >>= fun _ => pure 0
  | .allocInode type devid => s5AllocInode type devid
  | .allocBlock => s5AllocBlock
  | .freeBlock b => s5FreeBlock b >>= fun _ => pure 0

end BlockCall

variable [BlockDev]

/-- `BlockRun s₀ t s`: calls of the file system lead from `s₀` to `s` with the blocks `t` in
hand. -/
inductive BlockRun (s₀ : S5) : Multiset UInt32 → S5 → Prop
  | start : BlockRun s₀ 0 s₀
  | call {t : Multiset UInt32} {s s' : S5} {c : BlockCall} {r : Int} : BlockRun s₀ t s →
      c.Made t s → c.run s = .ok (r, s') → BlockRun s₀ (c.inHand r t) s'

variable {D t : Multiset UInt32} {nodes : List UInt32} {free : List Nat} {s s₀ : S5}

theorem Accounted.nfree_le (h : Accounted D t s) : s.super.s5sNfree ≤ 29 := by
  obtain ⟨nodes, hl⟩ := h
  exact hl.wf.nfree_le

theorem Accounted.freeBlock {b : UInt32} (h : Accounted D (b ::ₘ t) s) :
    s5FreeBlock b s = .ok ((), s.giveBlock b) ∧ Accounted D t (s.giveBlock b) := by
  obtain ⟨nodes, hl⟩ := h
  refine ⟨s5FreeBlock_apply hl.wf.nfree_le ?_, ⟨_, hl.giveBlock⟩⟩
  exact hl.region.serves _ (hl.mem_of_transit (Multiset.mem_cons_self _ _))

/-- Every call of the file system returns and keeps the books. -/
theorem wp_blockCall {c : BlockCall} (h : Accounted D t s) (htable : InodeTable free s)
    (hmade : c.Made t s) : wp c.run (fun r s' => Accounted D (c.inHand r t) s' ∧
      ∃ free', InodeTable free' s') s := by
  cases c with
  | seekToBlock ino seekptr alloc =>
      obtain ⟨hino, hfile, hpos⟩ := hmade
      have hat : FileAt D t ino s := ⟨h, hino, hfile⟩
      by_cases hmax : (seekptr / 4096).toNat < s5MaxFileBlocks
      · refine wp_mono (wp_s5SeekToBlock hat hpos hmax alloc) ?_
        rintro r s' (⟨-, -, -, hacc, -, hgrew⟩ | ⟨-, -, hsought⟩)
        · exact ⟨hacc, free, htable.grew hgrew⟩
        · exact ⟨hsought.accounted, free, htable.grew hsought.grew⟩
      · refine wp_mono (wp_s5SeekToBlock_past hpos (not_lt.mp hmax) alloc) ?_
        rintro r s' ⟨-, rfl⟩
        exact ⟨h, free, htable⟩
  | freeInode ino =>
      obtain ⟨hino, htype⟩ := hmade
      refine wp_bind_of (wp_s5FreeInode h hino htype) ?_
      rintro _ s' ⟨hacc, hfreed⟩
      exact wp_pure.mpr ⟨hacc, _, htable.freed hino htype hfreed⟩
  | allocInode type devid =>
      refine wp_mono (wp_s5AllocInode h htable hmade devid) ?_
      rintro r s' (⟨-, -, rfl⟩ | ⟨i, rest, -, -, -, hacc, htable'⟩)
      · exact ⟨h, free, htable⟩
      · exact ⟨hacc, rest, htable'⟩
  | allocBlock =>
      obtain ⟨nodes, hl⟩ := h
      rcases hl.alloc with ⟨-, heq⟩ | ⟨-, nodes', heq, htook, hmem, hl'⟩
      · refine (wp_of_eq heq).mpr ⟨⟨nodes, ?_⟩, free, htable⟩
        exact hl
      · refine (wp_of_eq heq).mpr ⟨⟨nodes', ?_⟩, free, ?_⟩
        · rw [BlockCall.inHand, if_neg (hl.toInt32_nonneg (hl.mem_of_listed hmem)),
            ofInt32_toInt32]
          exact hl'
        · refine htable.congr (by rw [htook.super]) (by rw [htook.super]) ?_ ?_ ?_
          · exact fun i => by rw [htook.inodes]
          · exact fun i => by rw [htook.inodes]
          · exact fun i _ => by rw [htook.inodes]
  | freeBlock b =>
      have hcons : Accounted D (b ::ₘ t.erase b) s := by
        rw [Multiset.cons_erase hmade]
        exact h
      obtain ⟨hfree, hacc⟩ := hcons.freeBlock
      refine wp_bind.mpr ((wp_of_eq hfree).mpr (wp_pure.mpr ⟨hacc, free, ?_⟩))
      exact htable.congr (by simp) (by simp) (by simp) (by simp) (by simp)

theorem BlockRun.keeps (hrun : BlockRun s₀ t s) (h : Accounted D 0 s₀)
    (htable : InodeTable free s₀) : Accounted D t s ∧ ∃ free', InodeTable free' s := by
  induction hrun with
  | start => exact ⟨h, free, htable⟩
  | call _ hmade hcall ih =>
      obtain ⟨hacc, free', htable'⟩ := ih
      exact (wp_of_eq hcall).mp (wp_blockCall hacc htable' hmade)

theorem Ledger.enospc_iff (h : Ledger D t nodes s) :
    (∃ s', s5AllocBlock s = .ok (-enospc, s')) ↔ s.freeList.listed 29 nodes = 0 := by
  rw [h.listed_eq_zero_iff]
  rcases h.alloc with ⟨hfree, heq⟩ | ⟨hsome, _, heq, _, hmem, _⟩
  · exact iff_of_true ⟨s, heq⟩ hfree
  · refine iff_of_false ?_ hsome
    rintro ⟨s', heq'⟩
    rw [heq] at heq'
    have hret : toInt32 s.nextBlock = -28 := by
      simpa using congrArg Prod.fst (Except.ok.inj heq')
    have hnonneg := h.toInt32_nonneg (h.mem_of_listed hmem)
    omega

/-- A device that serves every block number but `-1`. -/
@[reducible] def plainDev : BlockDev := ⟨fun b => b ≠ noBlock, by decide⟩

/-- A disk with an empty root directory in inode `0` and one free block, number `7`. -/
def oneFree : S5 where
  super := ⟨noBlock.toNat, 1, fun i => if i = 29 then noBlock else 7, 0, 1⟩
  inodes := fun i => ⟨0, i, .dir, 1, fun _ => 0, 0⟩
  bdev := fun _ => none
  disk := fun _ => Block.zero
  vnodes := fun _ => none

omit [BlockDev] in
theorem oneFree_ledger : @Ledger plainDev {7} 0 [] oneFree := by
  refine @Ledger.mk plainDev _ _ _ _ (@Region.mk plainDev _ _ (Multiset.nodup_singleton 7)
    (fun b hb => ?_) ?_ ?_) ⟨by decide, .nil⟩ ?_ rfl
  · rw [Multiset.mem_singleton.mp hb]
    rfl
  · simp
  · simp [oneFree, s5InodeBlock]
  · simp [FreeList.listed, S5.freeList, oneFree, allMapped, mapped, indirectFamily]

omit [BlockDev] in
theorem oneFree_table : InodeTable [] oneFree := by
  refine ⟨fun i _ => rfl, by decide, .nil, List.nodup_nil, by simp, ?_⟩
  simp [oneFree]

end CodingSample.S5fs
