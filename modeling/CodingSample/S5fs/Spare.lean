import CodingSample.S5fs.Reached
import Mathlib.Algebra.BigOperators.Intervals

/-!
# Counting free blocks

How many blocks are free, and how many a step took for the map of a file. A look-up or a write
fails for lack of space exactly when there are fewer free blocks than it needs.
-/

namespace CodingSample.S5fs

open Prog

namespace S5

/-- How many of the blocks `D` of the disk are free. -/
def spare (s : S5) (D : Multiset UInt32) : Nat := D.card - (allMapped s).card

/-- The pages of a file that have a block. -/
def mappedPages (s : S5) (ino : Nat) : Finset Nat :=
  (Finset.range s5MaxFileBlocks).filter (s.fileBlock ino · ≠ 0)

/-- How many indirect blocks a file has. -/
def indirectCount (s : S5) (ino : Nat) : Nat :=
  if (s.inodes ino).s5IndirectBlock = 0 then 0 else 1

end S5

variable {D : Multiset UInt32} {s s' : S5} {ino n top : Nat} {v v' : Vnode}
  {written : Nat → Prop}

theorem mem_mappedPages : n ∈ s.mappedPages ino ↔ n < s5MaxFileBlocks ∧ s.fileBlock ino n ≠ 0 := by
  rw [S5.mappedPages, Finset.mem_filter, Finset.mem_range]

theorem card_held_eq_sum (n : Nat) (f : Nat → UInt32) :
    (held n f).card = ∑ i ∈ Finset.range n, if f i ≠ 0 then 1 else 0 := by
  rw [← Finset.card_filter, held, Multiset.filter_map, Multiset.card_map]
  rfl

/-- The blocks of a file are those of its pages and its indirect block. -/
theorem card_mapped_eq (hfile : (s.inodes ino).IsFile) :
    (mapped s.bview (s.inodes ino)).card = (s.mappedPages ino).card + s.indirectCount ino := by
  have hsplit : s5MaxFileBlocks = s5NdirectBlocks + s5NidirectBlocks := rfl
  have hdirect : (held s5NdirectBlocks (s.inodes ino).s5DirectBlocks).card =
      ∑ i ∈ Finset.range s5NdirectBlocks, if s.fileBlock ino i ≠ 0 then 1 else 0 := by
    rw [card_held_eq_sum]
    apply Finset.sum_congr rfl
    intro i hi
    rw [fileBlock_of_direct (Finset.mem_range.mp hi)]
  have hnot (i : Nat) : ¬ s5NdirectBlocks + i < s5NdirectBlocks := by omega
  rw [mapped_of_isFile hfile, Multiset.card_add, hdirect, S5.mappedPages, Finset.card_filter,
    hsplit, Finset.sum_range_add, S5.indirectCount, indirectFamily, Nat.add_assoc]
  congr 1
  by_cases hind : (s.inodes ino).s5IndirectBlock = 0
  · have hempty (k : Nat) : ∑ i ∈ Finset.range k,
        (if s.fileBlock ino (s5NdirectBlocks + i) ≠ 0 then 1 else 0) = 0 := by
      refine Finset.sum_eq_zero fun i _ => ?_
      have hzero : s.fileBlock ino (s5NdirectBlocks + i) = 0 := by
        rw [S5.fileBlock, if_neg (hnot i), if_pos hind]
      exact if_neg fun hne => hne hzero
    rw [if_pos hind, if_pos hind, hempty]
    rfl
  · rw [if_neg hind, if_neg hind, Multiset.card_cons, card_held_eq_sum]
    refine congrArg (· + 1) (Finset.sum_congr rfl fun i _ => ?_)
    rw [fileBlock_of_indirect (hnot i) hind, Nat.add_sub_cancel_left]

variable [BlockDev]

theorem Accounted.noFree_iff_spare (h : Accounted D 0 s) : s.NoFree ↔ s.spare D = 0 := by
  have hle := h.allMapped_le
  rw [h.noFree_iff, S5.spare]
  omega

theorem FileHeld.isFile (h : FileHeld D ino v s) : (s.inodes ino).IsFile := h.held.fileAt.isFile

theorem FileHeld.accounted (h : FileHeld D ino v s) : Accounted D 0 s := h.held.fileAt.accounted

/-- What is not free any more has gone into the map of the file. -/
theorem FileHeld.spare_add (h : FileHeld D ino v s) (h' : FileHeld D ino v' s')
    (hext : Extended ino top written s s') :
    s'.spare D + (s'.mappedPages ino).card + s'.indirectCount ino =
      s.spare D + (s.mappedPages ino).card + s.indirectCount ino := by
  have htaken := hext.taken
  have hle := h.accounted.allMapped_le
  have hle' := h'.accounted.allMapped_le
  rw [card_mapped_eq h.isFile, card_mapped_eq h'.isFile] at htaken
  rw [S5.spare, S5.spare]
  omega

omit [BlockDev] in
/-- Looking at pages maps no page. -/
theorem Extended.mappedPages (h : Extended ino top (fun _ => False) s s') :
    s'.mappedPages ino = s.mappedPages ino := by
  ext m
  rw [mem_mappedPages, mem_mappedPages]
  refine and_congr_right fun hm => ?_
  rw [h.fileBlock m hm fun hfalse => hfalse.elim]

/-- Where the indirect block is missing after some look-ups, nothing was taken. -/
theorem Worked.lacks (h : FileHeld D ino v s) {size : Nat} {bytes : Nat → UInt8}
    (hw : Worked D ino top (fun _ => False) size bytes v s v' s')
    (hlacks : s'.Lacks ino n false) : s.Lacks ino n false := by
  rcases hlacks with ⟨hn, hind', hfree'⟩ | ⟨hfalse, -⟩
  · have hind : (s.inodes ino).s5IndirectBlock = 0 := by
      by_contra hne
      exact hne ((hw.extended.indirect hne).symm.trans hind')
    have hspare := h.spare_add hw.file hw.extended
    rw [hw.extended.mappedPages, S5.indirectCount, S5.indirectCount, if_pos hind, if_pos hind',
      hw.file.accounted.noFree_iff_spare.mp hfree'] at hspare
    exact Or.inl ⟨hn, hind, h.accounted.noFree_iff_spare.mpr (by omega)⟩
  · cases hfalse

end CodingSample.S5fs
