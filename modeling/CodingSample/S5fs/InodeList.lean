import CodingSample.S5fs.Ownership

/-!
# The list of free inodes over whole runs
-/

namespace CodingSample.S5fs

open Prog

/-- Following `s5_next_free` from `s5s_free_inode` visits exactly the free inodes, each once, and
ends at `-1`. -/
def FreeInodesListed (free : List Nat) (s : S5) : Prop :=
  FreeList.Chain 0 noBlock.toNat (fun i _ => (s.inodes i).s5NextFree) s.super.s5sFreeInode free ∧
    free.Nodup ∧ ∀ i, i ∈ free ↔ i < s.super.s5sNumInodes ∧ (s.inodes i).s5Type = .free

/-- An inode as `s5_alloc_inode` hands it out. A device has its number in place of an indirect
block. -/
structure BlankInode (type : S5Type) (devid : UInt32) (i : Inode) : Prop where
  kind : i.s5Type = type
  size : i.s5Size = 0
  linkcount : i.s5Linkcount = 0
  direct : ∀ k, i.s5DirectBlocks k = 0
  indirect : i.s5IndirectBlock = if type = .chr ∨ type = .blk then devid else 0

theorem InodeTable.listed {free : List Nat} {s : S5} (h : InodeTable free s) :
    FreeInodesListed free s := by
  refine ⟨h.chain, h.nodup, fun i => ⟨fun hi => ⟨h.lt i hi, ?_⟩, fun hi => ?_⟩⟩
  · exact (h.mem_iff i (h.lt i hi)).mp hi
  · exact (h.mem_iff i hi.1).mpr hi.2

variable [BlockDev]

variable {D t : Multiset UInt32} {nodes : List UInt32} {free : List Nat} {s s₀ : S5}

/-- What one call of `s5_alloc_inode` returns. -/
theorem wp_s5AllocInode_blank {type : S5Type} (h : Accounted D t s) (htable : InodeTable free s)
    (htype : type ≠ .free) (devid : UInt32) :
    wp (s5AllocInode type devid) (fun r s' =>
      free = [] ∧ r = -enospc ∧ s' = s ∨
      ∃ i rest, free = i :: rest ∧ r = i ∧ (s.inodes i).s5Type = .free ∧
        BlankInode type devid (s'.inodes i) ∧ (∀ j, j ≠ i → s'.inodes j = s.inodes j) ∧
        FreeInodesListed rest s') s := by
  refine wp_mono (wp_s5AllocInode h htable htype devid) ?_
  rintro r s' (hnone | ⟨i, rest, hfree, hr, rfl, -, htable'⟩)
  · exact .inl hnone
  · have hmem : i ∈ free := by
      rw [hfree]
      exact List.mem_cons_self
    refine .inr ⟨i, rest, hfree, hr, (htable.mem_iff i (htable.lt i hmem)).mp hmem, ?_, ?_,
      htable'.listed⟩
    · rw [S5.popInode, S5.inodes_setInode_self]
      exact ⟨rfl, rfl, rfl, fun _ => rfl, rfl⟩
    · exact fun j hj => S5.inodes_setInode_of_ne hj

/-- No inode is free exactly when `s5_alloc_inode` says so. -/
theorem alloc_enospc_iff {type : S5Type} (h : Accounted D t s) (htable : InodeTable free s)
    (htype : type ≠ .free) (devid : UInt32) :
    (∃ s', s5AllocInode type devid s = .ok (-enospc, s')) ↔
      ∀ i < s.super.s5sNumInodes, (s.inodes i).s5Type ≠ .free := by
  obtain ⟨r, s', hrun, hpost⟩ := wp_s5AllocInode h htable htype devid
  have hempty : free = [] ↔ ∀ i < s.super.s5sNumInodes, (s.inodes i).s5Type ≠ .free := by
    rw [List.eq_nil_iff_forall_not_mem]
    constructor
    · exact fun hnone i hi hi' => hnone i ((htable.mem_iff i hi).mpr hi')
    · exact fun hnone i hi => hnone i (htable.lt i hi) ((htable.mem_iff i (htable.lt i hi)).mp hi)
  rw [← hempty]
  rcases hpost with ⟨hnone, rfl, rfl⟩ | ⟨i, rest, hfree, rfl, -⟩
  · exact iff_of_true ⟨s', hrun⟩ hnone
  · refine iff_of_false ?_ (by rw [hfree]; exact List.cons_ne_nil i rest)
    rintro ⟨s'', hrun'⟩
    rw [hrun] at hrun'
    have hret : (i : Int) = -28 := by simpa using congrArg Prod.fst (Except.ok.inj hrun')
    omega

end CodingSample.S5fs
