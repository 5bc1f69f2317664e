import CodingSample.Mm.Groups
import Mathlib.Algebra.Order.BigOperators.Group.Finset

/-!
# New page groups

The free lists of a new group are the greatest blocks of its pages, and its bitmaps are large
enough for every pair of blocks that are both inside the group.
-/

namespace CodingSample.Mm

open Prog DyadicTiling

variable {base n npages group k i a start stop : Nat} {memory : Nat → Bool}
  {out : Nat → Nat → Prop}

/-! ### The free lists -/

theorem leftEnd_eq (n order : Nat) : leftEnd n order = n / 2 ^ order * 2 ^ order := by
  induction order with
  | zero => simp [leftEnd]
  | succ order ih =>
      have hmod := Nat.div_add_mod (n / 2 ^ order) 2
      have hhalf : n / 2 ^ (order + 1) * 2 ^ (order + 1) = 2 * (n / 2 ^ order / 2) * 2 ^ order := by
        rw [div_succ, pow_succ]
        ring
      rw [leftEnd, ih, Nat.testBit_eq_decide_div_mod_eq, hhalf]
      by_cases hodd : n / 2 ^ order % 2 = 1
      · rw [if_pos (decide_eq_true hodd)]
        have heq : n / 2 ^ order = 2 * (n / 2 ^ order / 2) + 1 := by omega
        rw [heq, Nat.add_mul, Nat.one_mul, Nat.add_sub_cancel, ← heq]
      · rw [if_neg (by simpa using hodd)]
        have heq : n / 2 ^ order = 2 * (n / 2 ^ order / 2) := by omega
        rw [← heq]

theorem mem_initialFreelist (hk : k ≤ 7) :
    base + i * 2 ^ k ∈ initialFreelist base n k ↔ Greatest n 7 k i := by
  have hpos := Nat.two_pow_pos k
  have hfits : (i + 1) * 2 ^ k ≤ n ↔ i + 1 ≤ n / 2 ^ k := (Nat.le_div_iff_mul_le hpos).symm
  have hpast : n < (i / 2 + 1) * 2 ^ (k + 1) ↔ n / 2 ^ k / 2 < i / 2 + 1 := by
    rw [← div_succ, Nat.div_lt_iff_lt_mul (Nat.two_pow_pos (k + 1))]
  unfold initialFreelist Greatest
  rw [hfits, hpast]
  by_cases hlt : k < 7
  · have hend : leftEnd n (k + 1) = 2 * (n / 2 ^ k / 2) * 2 ^ k := by
      rw [leftEnd_eq, div_succ, pow_succ]
      ring
    rw [if_pos (show k < pageNsizes - 1 from hlt), Nat.testBit_eq_decide_div_mod_eq, hend]
    by_cases hodd : n / 2 ^ k % 2 = 1
    · rw [if_pos (decide_eq_true hodd), List.mem_singleton, Nat.add_left_cancel_iff,
        Nat.mul_right_cancel_iff hpos]
      omega
    · rw [if_neg (by simpa using hodd)]
      simp only [List.not_mem_nil, false_iff]
      omega
  · have htop : k = 7 := by omega
    subst htop
    rw [if_neg (by decide), if_pos (by decide), List.mem_reverse, List.mem_map, leftEnd_eq,
      mul_div_self]
    constructor
    · rintro ⟨j, hj, heq⟩
      rw [Nat.add_left_cancel_iff, Nat.mul_right_cancel_iff hpos] at heq
      rw [List.mem_range, heq] at hj
      exact ⟨le_refl _, hj, fun h => absurd h (lt_irrefl _)⟩
    · rintro ⟨-, hi, -⟩
      exact ⟨i, List.mem_range.mpr hi, rfl⟩

theorem order_of_mem_initial (h : a ∈ initialFreelist base n k) : k ≤ 7 := by
  by_contra hk
  have hlt : ¬ k < pageNsizes - 1 := fun h => hk (Nat.le_of_lt h)
  have hne : ¬ k = pageNsizes - 1 := fun h => hk (Nat.le_of_eq h)
  rw [initialFreelist, if_neg hlt, if_neg hne] at h
  exact absurd h List.not_mem_nil

theorem placed_initial (h : a ∈ initialFreelist base n k) : ∃ i, a = base + i * 2 ^ k := by
  unfold initialFreelist at h
  split at h
  · split at h
    · refine ⟨2 * (n / 2 ^ k / 2), ?_⟩
      rw [List.mem_singleton.mp h, leftEnd_eq, div_succ, pow_succ]
      ring
    · exact absurd h (List.not_mem_nil)
  · split at h
    · obtain ⟨i, -, rfl⟩ := List.mem_map.mp (List.mem_reverse.mp h)
      exact ⟨i, rfl⟩
    · exact absurd h (List.not_mem_nil)

theorem nodup_initial : (initialFreelist base n k).Nodup := by
  unfold initialFreelist
  split
  · split
    · exact List.nodup_singleton _
    · exact List.nodup_nil
  · split
    · refine List.nodup_reverse.mpr (List.nodup_range.map ?_)
      intro i j heq
      exact Nat.mul_right_cancel (Nat.two_pow_pos k) (Nat.add_left_cancel heq)
    · exact List.nodup_nil

/-- The blocks of the lists below an order, and the pages that are left. -/
theorem sum_initial (hk : k ≤ 7) :
    (∑ j ∈ Finset.range k, (initialFreelist base n j).length * 2 ^ j) + leftEnd n k = n := by
  induction k with
  | zero => simp [leftEnd]
  | succ k ih =>
      have hold := ih (Nat.le_of_succ_le hk)
      rw [Finset.sum_range_succ, initialFreelist, if_pos (show k < pageNsizes - 1 from hk), leftEnd]
      have hend := leftEnd_eq n k
      by_cases hbit : n.testBit k = true
      · have hle : 2 ^ k ≤ leftEnd n k := by
          rw [Nat.testBit_eq_decide_div_mod_eq] at hbit
          have hodd := of_decide_eq_true hbit
          have hne : n / 2 ^ k ≠ 0 := by
            intro hzero
            rw [hzero] at hodd
            exact absurd hodd (by decide)
          rw [hend]
          exact Nat.le_mul_of_pos_left _ (Nat.pos_of_ne_zero hne)
        rw [if_pos hbit, if_pos hbit, List.length_singleton, Nat.one_mul]
        omega
      · rw [if_neg hbit, if_neg hbit, List.length_nil, Nat.zero_mul]
        exact hold

/-! ### The bitmaps -/

/-- A bitmap has a bit for each block of its order that fits in the range. -/
theorem lt_mapBytes (hn : npages ≤ 1048576) (hfits : (i + 1) * 2 ^ k ≤ npages) :
    i < 8 * mapBytes npages k := by
  have hi : i + 1 ≤ npages >>> k := by
    rw [Nat.shiftRight_eq_div_pow]
    exact (Nat.le_div_iff_mul_le (Nat.two_pow_pos k)).mpr hfits
  have hle : npages >>> k ≤ npages := Nat.shiftRight_le npages k
  unfold mapBytes
  generalize npages >>> k = q at hi hle
  have hcount : ((q + 4294967295) % 4294967296 / 8 * 8 + 8) % 4294967296 = (q - 1) / 8 * 8 + 8 := by
    omega
  have hshift : ((q - 1) / 8 * 8 + 8) >>> 3 = (q - 1) / 8 + 1 := by
    rw [Nat.shiftRight_eq_div_pow]
    omega
  simp only [hcount, hshift]
  omega

/-- The bytes of the structure and the bitmaps at the end of a range. -/
def overhead (npages : Nat) : Nat :=
  sizeofPagegroup + ∑ k ∈ Finset.range (pageNsizes - 1), mapBytes npages (k + 1)

theorem mapStart_eq (npages group k : Nat) :
    mapStart npages group k = group - ∑ j ∈ Finset.range k, mapBytes npages (j + 1) := by
  induction k with
  | zero => rfl
  | succ k ih => rw [mapStart, ih, Finset.sum_range_succ, Nat.sub_sub]

/-- The bitmaps fit above an address. -/
theorem mapStart_add (hroom : start + overhead npages ≤ stop) (hk : k < 7) :
    mapStart npages (stop - sizeofPagegroup) (k + 1) + mapBytes npages (k + 1) =
      mapStart npages (stop - sizeofPagegroup) k := by
  have hle : ∑ j ∈ Finset.range (k + 1), mapBytes npages (j + 1) ≤
      ∑ j ∈ Finset.range (pageNsizes - 1), mapBytes npages (j + 1) :=
    Finset.sum_le_sum_of_subset (Finset.range_subset_range.mpr hk)
  unfold overhead at hroom
  rw [mapStart_eq, mapStart_eq]
  rw [Finset.sum_range_succ] at hle ⊢
  omega

theorem start_le_mapStart (hroom : start + overhead npages ≤ stop) :
    start ≤ mapStart npages (stop - sizeofPagegroup) (pageNsizes - 1) := by
  unfold overhead at hroom
  rw [mapStart_eq]
  omega

theorem mapStart_anti {l : Nat} (hkl : k ≤ l) :
    mapStart npages group l ≤ mapStart npages group k := by
  induction l, hkl using Nat.le_induction with
  | base => exact le_refl _
  | succ l _ ih => exact (Nat.sub_le _ _).trans ih

/-! ### The group -/

/-- A range that `page_add_range` can be called with: it holds the structure and the bitmaps. -/
structure GoodRange (start stop : Nat) : Prop where
  aligned : pageSize ∣ start
  aligned' : pageSize ∣ stop
  bound : stop < 4294967296
  room : start + overhead ((stop - start) >>> pageShift) ≤ stop

section Created

variable (h : GoodRange start stop)
include h

theorem pages_created : (pagegroupCreate start stop memory).pages ≤
    (stop - start) >>> pageShift := by
  have hstart := start_le_mapStart h.room
  have hmap : mapStart ((stop - start) >>> pageShift) (stop - sizeofPagegroup) (pageNsizes - 1) ≤
      stop - sizeofPagegroup := mapStart_anti (Nat.zero_le _)
  have haligned := Nat.mod_eq_zero_of_dvd h.aligned
  have hpages : (pagegroupCreate start stop memory).pages =
      mapStart ((stop - start) >>> pageShift) (stop - sizeofPagegroup) (pageNsizes - 1) / 4096 -
        start / 4096 := rfl
  rw [hpages]
  generalize mapStart ((stop - start) >>> pageShift) (stop - sizeofPagegroup) (pageNsizes - 1) = e
    at hstart hmap
  simp only [Nat.shiftRight_eq_div_pow, pageShift, pageSize, sizeofPagegroup] at *
  omega

theorem npages_le : (stop - start) >>> pageShift ≤ 1048576 := by
  have hbound := h.bound
  rw [Nat.shiftRight_eq_div_pow]
  simp only [pageShift]
  omega

omit h in
theorem pgMap_created : (pagegroupCreate start stop memory).pgMap (k + 1) =
    mapStart ((stop - start) >>> pageShift) (stop - sizeofPagegroup) (k + 1) := by
  simp [pagegroupCreate]

omit h in
theorem pgMap_created_le :
    (pagegroupCreate start stop memory).pgMap 1 ≤ stop - sizeofPagegroup := by
  rw [pgMap_created (k := 0)]
  exact mapStart_anti (Nat.zero_le 1)

theorem layout_created : (pagegroupCreate start stop memory).Layout := by
  refine ⟨?_, ?_⟩
  · intro k hk hk'
    obtain ⟨j, rfl⟩ := Nat.exists_eq_add_of_le' hk
    rw [pgMap_created, pgMap_created]
    exact mapStart_anti (Nat.le_succ _)
  · intro k i hk hk' hfits
    obtain ⟨j, rfl⟩ := Nat.exists_eq_add_of_le' hk
    by_cases hj : j = 0
    · left
      rw [hj]
    · right
      obtain ⟨l, rfl⟩ := Nat.exists_eq_succ_of_ne_zero hj
      have hadd := mapStart_add h.room (Nat.lt_of_succ_le hk')
      have hbit := lt_mapBytes (npages_le h) (hfits.trans (pages_created h))
      rw [Nat.add_sub_cancel, pgMap_created, Nat.succ_eq_add_one, pgMap_created]
      rw [← hadd, Nat.add_sub_cancel_left]
      exact hbit

/-- Every bit of a block in the group is cleared. -/
theorem bit_created (hk : k < 7) (hfits : (i + 1) * 2 ^ (k + 1) ≤
    (pagegroupCreate start stop memory).pages) :
    (pagegroupCreate start stop memory).bit (k + 1) i = false := by
  have hadd := mapStart_add h.room hk
  have hbit := lt_mapBytes (npages_le h) (hfits.trans (pages_created h))
  unfold Pagegroup.bit
  rw [pgMap_created]
  have hlow : mapStart ((stop - start) >>> pageShift) (stop - sizeofPagegroup) 7 ≤
      mapStart ((stop - start) >>> pageShift) (stop - sizeofPagegroup) (k + 1) :=
    mapStart_anti (Nat.succ_le_of_lt hk)
  have hhigh : mapStart ((stop - start) >>> pageShift) (stop - sizeofPagegroup) k ≤
      mapStart ((stop - start) >>> pageShift) (stop - sizeofPagegroup) 0 :=
    mapStart_anti (Nat.zero_le k)
  refine if_pos ⟨?_, ?_⟩
  · exact (Nat.mul_le_mul_left 8 hlow).trans (Nat.le_add_right _ _)
  · rw [mapStart] at hhigh
    omega

theorem books_created (hout : ∀ k i, ¬ out k i) :
    GroupBooks (pagegroupCreate start stop memory) out none := by
  have hstart := start_le_mapStart h.room
  refine ⟨layout_created h, Nat.div_le_div_right hstart, fun k => nodup_initial, ?_, ?_⟩
  · intro k a ha
    exact placed_initial ha
  · refine Buddies.initial ?_ hout fun k i hk hfits => bit_created h hk hfits
    intro k i
    constructor
    · intro hmem
      exact (mem_initialFreelist (order_of_mem_initial hmem)).mp hmem
    · exact fun hg => (mem_initialFreelist hg.1).mpr hg

omit h in
theorem freePages_created : (pagegroupCreate start stop memory).freePages =
    (pagegroupCreate start stop memory).pages := by
  generalize hg : pagegroupCreate start stop memory = g
  have hlists : g.pgFreelist = initialFreelist g.pgBaseaddr g.pages := by
    rw [← hg]
    rfl
  have hsum : (∑ j ∈ Finset.range 7, (initialFreelist g.pgBaseaddr g.pages j).length * 2 ^ j) +
      leftEnd g.pages 7 = g.pages := sum_initial (le_refl 7)
  have htop : (initialFreelist g.pgBaseaddr g.pages 7).length * 2 ^ 7 = leftEnd g.pages 7 := by
    rw [initialFreelist, if_neg (by decide), if_pos (by decide), List.length_reverse,
      List.length_map, List.length_range, leftEnd_eq, mul_div_self]
  unfold Pagegroup.freePages
  rw [hlists, pageNsizes, Finset.sum_range_succ, htop]
  exact hsum

omit h in
/-- The pages of the group end below its bitmaps. -/
theorem pgEndaddr_created : (pagegroupCreate start stop memory).pgEndaddr * pageSize ≤
    (pagegroupCreate start stop memory).pgMap 7 := by
  rw [pgMap_created (k := 6)]
  exact Nat.div_mul_le_self _ _

end Created

end CodingSample.Mm
