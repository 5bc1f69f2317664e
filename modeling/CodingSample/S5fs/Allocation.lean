import CodingSample.S5fs.FileRun

/-!
# What a write allocates

Which blocks `s5_write_file` maps. It marks the page its end position is in dirty also when it
writes nothing there, and does not notice when there is no block left.
-/

namespace CodingSample.S5fs

open Prog

/-- The page has one of the `len` bytes from position `seek`. -/
def Overlaps (seek len m : Nat) : Prop := ∃ pos, seek ≤ pos ∧ pos < seek + len ∧ pos / 4096 = m

theorem overlaps_iff {seek len m : Nat} : Overlaps seek len m ↔
    0 < len ∧ seek / 4096 ≤ m ∧ 4096 * m < seek + len := by
  constructor
  · rintro ⟨pos, hseek, hlen, rfl⟩
    have hle : seek / 4096 ≤ pos / 4096 := Nat.div_le_div_right hseek
    omega
  · rintro ⟨hlen, hle, hlt⟩
    by_cases hin : seek ≤ 4096 * m
    · exact ⟨4096 * m, hin, hlt, by omega⟩
    · exact ⟨seek, le_refl _, by omega, by omega⟩

instance (seek len m : Nat) : Decidable (Overlaps seek len m) :=
  decidable_of_iff _ overlaps_iff.symm

/-- A write of `len` bytes maps the pages it has bytes for that had no block, the indirect block
if one of them needs it, and nothing else. -/
structure MapsCovered (ino seek len : Nat) (s s' : S5) : Prop where
  page : ∀ m < s5MaxFileBlocks, s.fileBlock ino m = 0 →
    (s'.fileBlock ino m ≠ 0 ↔ Overlaps seek len m)
  keptPage : ∀ m < s5MaxFileBlocks, s.fileBlock ino m ≠ 0 → s'.fileBlock ino m = s.fileBlock ino m
  indirect : (s.inodes ino).s5IndirectBlock = 0 → ((s'.inodes ino).s5IndirectBlock ≠ 0 ↔
    ∃ m < s5MaxFileBlocks, s5NdirectBlocks ≤ m ∧ s.fileBlock ino m = 0 ∧ Overlaps seek len m)
  keptIndirect : (s.inodes ino).s5IndirectBlock ≠ 0 →
    (s'.inodes ino).s5IndirectBlock = (s.inodes ino).s5IndirectBlock

namespace S5

/-- The pages without a block that a write has bytes for. -/
def sparsePages (s : S5) (ino seek len : Nat) : Finset Nat :=
  (Finset.range s5MaxFileBlocks).filter fun m => s.fileBlock ino m = 0 ∧ Overlaps seek len m

/-- One of them is past the direct ones, and there is no indirect block. -/
def NeedsIndirect (s : S5) (ino seek len : Nat) : Prop :=
  (s.inodes ino).s5IndirectBlock = 0 ∧ ∃ m ∈ s.sparsePages ino seek len, s5NdirectBlocks ≤ m

instance (s : S5) (ino seek len : Nat) : Decidable (s.NeedsIndirect ino seek len) :=
  inferInstanceAs (Decidable (_ ∧ _))

/-- How many blocks a write needs. -/
def blocksNeeded (s : S5) (ino seek len : Nat) : Nat :=
  (s.sparsePages ino seek len).card + if s.NeedsIndirect ino seek len then 1 else 0

/-- There are enough free blocks for a write. When it has no byte for the page its end position is
in, that page has a block already or there is none left for it, nor for an indirect block on its
account. -/
def AllocatesExactly (s : S5) (D : Multiset UInt32) (ino seek len : Nat) : Prop :=
  s.blocksNeeded ino seek len ≤ s.spare D ∧
    (Overlaps seek len ((seek + len) / 4096) ∨ s.fileBlock ino ((seek + len) / 4096) ≠ 0 ∨
      s.spare D = s.blocksNeeded ino seek len ∧ ((seek + len) / 4096 < s5NdirectBlocks ∨
        (s.inodes ino).s5IndirectBlock ≠ 0 ∨ s.NeedsIndirect ino seek len))

end S5

variable {D : Multiset UInt32} {s s' : S5} {ino seek len top : Nat} {v v' : Vnode} {bytes : Block}
  {written : Nat → Prop}

theorem mem_sparsePages {m : Nat} : m ∈ s.sparsePages ino seek len ↔
    m < s5MaxFileBlocks ∧ s.fileBlock ino m = 0 ∧ Overlaps seek len m := by
  rw [S5.sparsePages, Finset.mem_filter, Finset.mem_range]

theorem notMem_mappedPages_of_sparse {m : Nat} (h : m ∈ s.sparsePages ino seek len) :
    m ∉ s.mappedPages ino := by
  intro hmem
  exact (mem_mappedPages.mp hmem).2 (mem_sparsePages.mp h).2.1

theorem indirectCount_le_one : s.indirectCount ino ≤ 1 := by
  rw [S5.indirectCount]
  split <;> omega

theorem indirectCount_eq_zero : s.indirectCount ino = 0 ↔ (s.inodes ino).s5IndirectBlock = 0 := by
  rw [S5.indirectCount]
  split
  · exact iff_of_true rfl ‹_›
  · exact iff_of_false (by decide) ‹_›

/-- The law in terms of sets and counts. -/
theorem mapsCovered_iff_pages (hext : Extended ino top written s s') :
    MapsCovered ino seek len s s' ↔
      s'.mappedPages ino = s.mappedPages ino ∪ s.sparsePages ino seek len ∧
        s'.indirectCount ino =
          s.indirectCount ino + if s.NeedsIndirect ino seek len then 1 else 0 := by
  have hkept {m : Nat} (hm : m < s5MaxFileBlocks) (hne : s.fileBlock ino m ≠ 0) :
      s'.fileBlock ino m = s.fileBlock ino m := hext.fileBlock m hm fun _ => hne
  have hle := @indirectCount_le_one s' ino
  constructor
  · intro h
    constructor
    · ext m
      rw [Finset.mem_union, mem_mappedPages, mem_mappedPages, mem_sparsePages]
      constructor
      · rintro ⟨hm, hne⟩
        by_cases hzero : s.fileBlock ino m = 0
        · exact Or.inr ⟨hm, hzero, (h.page m hm hzero).mp hne⟩
        · exact Or.inl ⟨hm, hzero⟩
      · rintro (⟨hm, hne⟩ | ⟨hm, hzero, hover⟩)
        · exact ⟨hm, by rwa [hkept hm hne]⟩
        · exact ⟨hm, (h.page m hm hzero).mpr hover⟩
    · by_cases hind : (s.inodes ino).s5IndirectBlock = 0
      · have hiff : (s'.inodes ino).s5IndirectBlock ≠ 0 ↔ s.NeedsIndirect ino seek len := by
          rw [h.indirect hind, S5.NeedsIndirect]
          constructor
          · rintro ⟨m, hm, hdirect, hzero, hover⟩
            exact ⟨hind, m, mem_sparsePages.mpr ⟨hm, hzero, hover⟩, hdirect⟩
          · rintro ⟨-, m, hmem, hdirect⟩
            obtain ⟨hm, hzero, hover⟩ := mem_sparsePages.mp hmem
            exact ⟨m, hm, hdirect, hzero, hover⟩
        rw [indirectCount_eq_zero.mpr hind]
        by_cases hneed : s.NeedsIndirect ino seek len
        · rw [if_pos hneed]
          have hne := mt indirectCount_eq_zero.mp (hiff.mpr hneed)
          omega
        · rw [if_neg hneed]
          exact indirectCount_eq_zero.mpr (not_not.mp (mt hiff.mp hneed))
      · rw [if_neg fun hneed => hind hneed.1, S5.indirectCount, S5.indirectCount,
          h.keptIndirect hind]
        rfl
  · rintro ⟨hpages, hcount⟩
    refine ⟨?_, fun m hm hne => hkept hm hne, ?_, hext.indirect⟩
    · intro m hm hzero
      have hmem := Finset.ext_iff.mp hpages m
      rw [Finset.mem_union, mem_mappedPages, mem_mappedPages, mem_sparsePages] at hmem
      constructor
      · intro hne
        rcases hmem.mp ⟨hm, hne⟩ with ⟨-, hold⟩ | ⟨-, -, hover⟩
        · exact absurd hzero hold
        · exact hover
      · exact fun hover => (hmem.mpr (Or.inr ⟨hm, hzero, hover⟩)).2
    · intro hind
      rw [indirectCount_eq_zero.mpr hind, Nat.zero_add] at hcount
      constructor
      · intro hne
        have hneed : s.NeedsIndirect ino seek len := by
          by_contra hnot
          rw [if_neg hnot] at hcount
          exact hne (indirectCount_eq_zero.mp hcount)
        obtain ⟨-, m, hmem, hdirect⟩ := hneed
        obtain ⟨hm, hzero, hover⟩ := mem_sparsePages.mp hmem
        exact ⟨m, hm, hdirect, hzero, hover⟩
      · rintro ⟨m, hm, hdirect, hzero, hover⟩ hind'
        have hneed : s.NeedsIndirect ino seek len :=
          ⟨hind, m, mem_sparsePages.mpr ⟨hm, hzero, hover⟩, hdirect⟩
        rw [if_pos hneed] at hcount
        exact absurd (indirectCount_eq_zero.mpr hind') (by omega)

/-! ### Counting the blocks of a write -/

theorem Extended.mappedPages_subset (hext : Extended ino top written s s') :
    s.mappedPages ino ⊆ s'.mappedPages ino := by
  intro m hm
  obtain ⟨hmax, hne⟩ := mem_mappedPages.mp hm
  exact mem_mappedPages.mpr ⟨hmax, by rwa [hext.fileBlock m hmax fun _ => hne]⟩

theorem card_union_sparsePages : (s.mappedPages ino ∪ s.sparsePages ino seek len).card =
    (s.mappedPages ino).card + (s.sparsePages ino seek len).card := by
  apply Finset.card_union_of_disjoint
  rw [Finset.disjoint_right]
  exact fun m hm => notMem_mappedPages_of_sparse hm

/-- Whether a page that is in core is past the direct ones decides about the indirect block. -/
theorem indirectCount_of_reached (hext : Extended ino top written s s')
    (hreach : Reaches s' ino top) :
    s'.indirectCount ino =
      if top < s5NdirectBlocks ∧ (s.inodes ino).s5IndirectBlock = 0 then 0 else 1 := by
  have hle := @indirectCount_le_one s' ino
  by_cases hind : (s.inodes ino).s5IndirectBlock = 0
  · by_cases htop : top < s5NdirectBlocks
    · rw [if_pos ⟨htop, hind⟩]
      exact indirectCount_eq_zero.mpr ((hext.direct htop).trans hind)
    · rw [if_neg fun hboth => htop hboth.1]
      have hne := mt indirectCount_eq_zero.mp (hreach.resolve_left htop)
      omega
  · rw [if_neg fun hboth => hind hboth.2]
    have hne : s'.indirectCount ino ≠ 0 := by
      rw [Ne, indirectCount_eq_zero, hext.indirect hind]
      exact hind
    omega

variable [BlockDev]

/-- When there are blocks enough, all pages that were written have one. -/
theorem FileHeld.mappedPages_eq (h : FileHeld D ino v s) (h' : FileHeld D ino v' s')
    (hext : Extended ino top written s s') {pages : Finset Nat}
    (hpages : ∀ m, m ∈ pages ↔ m < s5MaxFileBlocks ∧ s.fileBlock ino m = 0 ∧ written m)
    (hspare : pages.card + s'.indirectCount ino ≤ s.spare D + s.indirectCount ino) :
    s'.mappedPages ino = s.mappedPages ino ∪ pages := by
  have hsub : s'.mappedPages ino ⊆ s.mappedPages ino ∪ pages := by
    intro m hm
    obtain ⟨hmax, hne⟩ := mem_mappedPages.mp hm
    rw [Finset.mem_union, mem_mappedPages, hpages]
    by_cases hzero : s.fileBlock ino m = 0
    · by_cases hw : written m
      · exact Or.inr ⟨hmax, hzero, hw⟩
      · rw [hext.fileBlock m hmax fun hwritten => absurd hwritten hw] at hne
        exact absurd hzero hne
    · exact Or.inl ⟨hmax, hzero⟩
  rcases hext.mapped with hall | hfree
  · apply Finset.Subset.antisymm hsub
    apply Finset.union_subset hext.mappedPages_subset
    intro m hm
    obtain ⟨hmax, -, hw⟩ := (hpages m).mp hm
    exact mem_mappedPages.mpr ⟨hmax, hall m hmax hw⟩
  · apply Finset.eq_of_subset_of_card_le hsub
    have hnone := h'.accounted.noFree_iff_spare.mp hfree
    have hadd := h.spare_add h' hext
    calc (s.mappedPages ino ∪ pages).card
        ≤ (s.mappedPages ino).card + pages.card := Finset.card_union_le _ _
      _ ≤ (s'.mappedPages ino).card := by omega

omit [BlockDev] in
/-- The pages a write dirties are those it has bytes for and the one its end position is in. -/
theorem overlaps_iff_of_last {m : Nat} (hlast : Overlaps seek len ((seek + len) / 4096)) :
    Overlaps seek len m ↔ seek / 4096 ≤ m ∧ m ≤ (seek + len) / 4096 := by
  rw [overlaps_iff] at hlast ⊢
  omega

omit [BlockDev] in
theorem overlaps_iff_of_not_last {m : Nat} (hlast : ¬ Overlaps seek len ((seek + len) / 4096)) :
    Overlaps seek len m ↔ seek / 4096 ≤ m ∧ m < (seek + len) / 4096 := by
  have hle : seek / 4096 ≤ (seek + len) / 4096 := Nat.div_le_div_right (Nat.le_add_right _ _)
  rw [overlaps_iff] at hlast ⊢
  omega

omit [BlockDev] in
/-- The indirect block is missing afterwards, or there for the page of the end position. -/
theorem indirectCount_eq_iff (hext : Extended ino ((seek + len) / 4096) written s s')
    (hreach : Reaches s' ino ((seek + len) / 4096)) :
    s'.indirectCount ino = s.indirectCount ino + (if s.NeedsIndirect ino seek len then 1 else 0) ↔
      (seek + len) / 4096 < s5NdirectBlocks ∨ (s.inodes ino).s5IndirectBlock ≠ 0 ∨
        s.NeedsIndirect ino seek len := by
  rw [indirectCount_of_reached hext hreach]
  by_cases hind : (s.inodes ino).s5IndirectBlock = 0
  · rw [indirectCount_eq_zero.mpr hind]
    by_cases htop : (seek + len) / 4096 < s5NdirectBlocks
    · have hnot : ¬ s.NeedsIndirect ino seek len := by
        rintro ⟨-, m, hm, hdirect⟩
        have hover := overlaps_iff.mp (mem_sparsePages.mp hm).2.2
        omega
      rw [if_pos ⟨htop, hind⟩, if_neg hnot]
      exact iff_of_true rfl (Or.inl htop)
    · rw [if_neg fun hboth => htop hboth.1]
      by_cases hneed : s.NeedsIndirect ino seek len
      · rw [if_pos hneed]
        exact iff_of_true rfl (Or.inr (Or.inr hneed))
      · rw [if_neg hneed]
        refine iff_of_false (by decide) ?_
        rintro (hlt | hne | hyes)
        · exact htop hlt
        · exact hne hind
        · exact hneed hyes
  · have hone : s.indirectCount ino = 1 := by
      rw [S5.indirectCount, if_neg hind]
    rw [if_neg fun hboth => hind hboth.2, if_neg fun hneed => hind hneed.1, hone]
    exact iff_of_true rfl (Or.inr (Or.inl hind))

/-- **What a write that went through has mapped.** -/
theorem Wrote.mapsCovered_iff (h : FileHeld D ino v s)
    (hwrote : Wrote D ino seek len bytes v s v' s')
    (hmax : seek + len < s5MaxFileSize) :
    MapsCovered ino seek len s s' ↔ s.AllocatesExactly D ino seek len := by
  have hwhole := hwrote.worked
  obtain ⟨size1, bytes1, v1, s1, hlast, hfirst, hrest⟩ := hwrote
  have hB : (seek + len) / 4096 < s5MaxFileBlocks := by
    simp only [s5MaxFileSize, s5MaxFileBlocks] at hmax ⊢
    omega
  have hreach1 : Reaches s1 ino ((seek + len) / 4096) := hfirst.file.reached _ hlast
  have hreach : Reaches s' ino ((seek + len) / 4096) := hrest.extended.reaches hreach1
  have hcount := indirectCount_eq_iff hwhole.extended hreach
  have hcount1 := indirectCount_eq_iff hfirst.extended hreach1
  have hadd := h.spare_add hwhole.file hwhole.extended
  have hadd1 := h.spare_add hfirst.file hfirst.extended
  have hcard := @card_union_sparsePages s ino seek len
  rw [mapsCovered_iff_pages hwhole.extended, S5.AllocatesExactly, S5.blocksNeeded]
  constructor
  · rintro ⟨hpages, hind⟩
    rw [hpages, hcard, hind] at hadd
    refine ⟨by omega, ?_⟩
    by_contra hnot
    rw [not_or, not_or] at hnot
    obtain ⟨hover, hzero, hexact⟩ := hnot
    have hmissing : s'.fileBlock ino ((seek + len) / 4096) = 0 := by
      by_contra hne
      have hmem : (seek + len) / 4096 ∈ s'.mappedPages ino := mem_mappedPages.mpr ⟨hB, hne⟩
      rw [hpages, Finset.mem_union] at hmem
      rcases hmem with hmem | hmem
      · exact hzero (mem_mappedPages.mp hmem).2
      · exact hover (mem_sparsePages.mp hmem).2.2
    rcases hrest.extended.mapped with hall | hfree
    · exact hall _ hB rfl hmissing
    · have hnone := hwhole.file.accounted.noFree_iff_spare.mp hfree
      exact hexact ⟨by omega, hcount.mp hind⟩
  · rintro ⟨henough, hend⟩
    have hright : (seek + len) / 4096 < s5NdirectBlocks ∨ (s.inodes ino).s5IndirectBlock ≠ 0 ∨
        s.NeedsIndirect ino seek len := by
      by_cases htop : (seek + len) / 4096 < s5NdirectBlocks
      · exact Or.inl htop
      refine Or.inr ?_
      by_cases hind : (s.inodes ino).s5IndirectBlock = 0
      · have hzero : s.fileBlock ino ((seek + len) / 4096) = 0 := by
          rw [S5.fileBlock, if_neg htop, if_pos hind]
        rcases hend with hover | hne | ⟨-, hlt | hne | hneed⟩
        · exact Or.inr ⟨hind, _, mem_sparsePages.mpr ⟨hB, hzero, hover⟩, not_lt.mp htop⟩
        · exact absurd hzero hne
        · exact absurd hlt htop
        · exact absurd hind hne
        · exact Or.inr hneed
      · exact Or.inl hind
    have hind := hcount.mpr hright
    have hind1 := hcount1.mpr hright
    refine ⟨?_, hind⟩
    by_cases hover : Overlaps seek len ((seek + len) / 4096)
    · apply h.mappedPages_eq hwhole.file hwhole.extended
      · intro m
        rw [mem_sparsePages, overlaps_iff_of_last hover]
      · omega
    have hpages1 : s1.mappedPages ino = s.mappedPages ino ∪ s.sparsePages ino seek len := by
      apply h.mappedPages_eq hfirst.file hfirst.extended
      · intro m
        rw [mem_sparsePages, overlaps_iff_of_not_last hover]
      · omega
    rw [← hpages1]
    by_cases hzero : s.fileBlock ino ((seek + len) / 4096) = 0
    · -- the first pages took the last free block
      have hexact := (hend.resolve_left hover).resolve_left (not_not.mpr hzero)
      rw [hpages1, hcard, hind1] at hadd1
      have hadd2 := hfirst.file.spare_add hrest.file hrest.extended
      exact (Finset.eq_of_subset_of_card_le hrest.extended.mappedPages_subset (by omega)).symm
    · have hkept := hfirst.extended.fileBlock _ hB fun _ => hzero
      have hnone : s'.mappedPages ino = s1.mappedPages ino ∪ ∅ := by
        apply hfirst.file.mappedPages_eq hrest.file hrest.extended
        · intro m
          refine iff_of_false (Finset.notMem_empty m) ?_
          rintro ⟨-, hsparse, rfl⟩
          exact hzero (hkept.symm.trans hsparse)
        · rw [Finset.card_empty]
          omega
      rw [hnone, Finset.union_empty]

/-- **What a write allocates.** It maps the blocks of the claim, no more and no fewer, exactly when
there are blocks enough and the page its end position is in does not take one for nothing. -/
theorem write_allocates {f f₀ : Contents} {m s₀ : S5} {r : Int} (hstart : Mounted D m)
    (hcalls : PageRun (fun s c => c.Made s) m s₀) (hv : s₀.vnodes ino = some v)
    (hmode : v.vnMode = .reg ∨ v.vnMode = .dir) (hheld : v.vnNrespages < v.vnRefcount)
    (hlen : v.vnLen = (s₀.inodes ino).s5Size) (hsmall : (s₀.inodes ino).s5Size ≤ s5MaxFileSize)
    (hrun : FileRun ino (fun s c => c.Made ino s) s₀ f₀ s f)
    (htyped : (FileCall.write seek bytes len).Typed)
    (hwrite : s5WriteFile ino seek bytes len s = .ok (r, s')) (hr : 0 ≤ r) :
    MapsCovered ino seek r.toNat s s' ↔ s.AllocatesExactly D ino seek len := by
  obtain ⟨v1, h⟩ := hrun.fileHeld (hcalls.fileHeld hstart hv hmode hheld hlen hsmall)
  obtain ⟨hseek, hfits⟩ := htyped
  by_cases hwrap : s5MaxFileSize ≤ seek ∨ seek + len < 4294967296
  · obtain ⟨r', s'', hres, v2, ⟨hneg, -⟩ | ⟨rfl, hmax, hwrote⟩⟩ :=
      wp_s5WriteFile h hseek hwrap.symm
    · rw [hwrite] at hres
      cases hres
      exact absurd hneg (not_lt.mpr hr)
    · rw [hwrite] at hres
      cases hres
      exact hwrote.mapsCovered_iff h hmax
  · rw [not_or, not_le, not_lt] at hwrap
    have hneg := wlp_s5WriteFile_wraps h hwrap.1 hfits hwrap.2 _ _ hwrite
    exact absurd hneg (not_lt.mpr hr)

/-- A disk with two free blocks and an empty file. -/
def twoFree : S5 where
  super := ⟨noBlock.toNat, 2, fun i => if i = 29 then noBlock else if i = 0 then 7 else 8, 0, 1⟩
  inodes := fun i => ⟨0, i, .data, 1, fun _ => 0, 0⟩
  bdev := fun _ => none
  disk := fun _ => Block.zero
  vnodes := fun _ => none

/-- The same disk with the file in core. -/
def twoHeld : S5 :=
  (twoFree.setInode 0 { twoFree.inodes 0 with s5Linkcount := 2 }).setVnode 0
    (some ⟨.reg, 0, 0, 1, [], fun _ => ⟨Block.zero, false⟩⟩)

omit [BlockDev] in
theorem twoFree_region : @Region plainDev 1 {7, 8} := by
  have hcases (b : UInt32) (hb : b ∈ ({7, 8} : Multiset UInt32)) : b = 7 ∨ b = 8 := by
    simpa using hb
  refine @Region.mk plainDev _ _ (by decide) ?_ ?_ ?_
  · intro b hb
    rcases hcases b hb with h7 | h8
    · rw [h7]
      rfl
    · rw [h8]
      rfl
  · intro b hb
    rcases hcases b hb with h7 | h8
    · simp [h7]
    · simp [h8]
  · intro b hb
    rcases hcases b hb with h7 | h8
    · simp [h7, s5InodeBlock]
    · simp [h8, s5InodeBlock]

omit [BlockDev] in
theorem twoFree_mounted : @Mounted plainDev {7, 8} twoFree := by
  refine @Mounted.mk plainDev _ _ ⟨[], ?_⟩ ⟨[], ?_⟩ (fun _ => rfl) fun _ => rfl
  · exact @Ledger.mk plainDev _ _ _ _ twoFree_region ⟨by decide, .nil⟩ rfl rfl
  · refine ⟨fun i _ => rfl, by decide, .nil, List.nodup_nil, by simp, ?_⟩
    simp [twoFree]

omit [BlockDev] in
theorem twoHeld_calls : @PageRun plainDev (fun s c => c.Made s) twoFree twoHeld :=
  @PageRun.call plainDev _ _ _ _ (.vget 0) 0 (@PageRun.start plainDev _ _) trivial rfl

omit [BlockDev] in
/-- A write of one byte. -/
theorem write_allocates_oneByte : ∃ r s',
    @s5WriteFile plainDev 0 0 Block.zero 1 twoHeld = .ok (r, s') ∧
      (MapsCovered 0 0 r.toNat twoHeld s' ↔ twoHeld.AllocatesExactly {7, 8} 0 0 1) := by
  have hval : (@s5WriteFile plainDev 0 0 Block.zero 1 twoHeld).map (fun r => r.1) = .ok 1 := rfl
  cases hwrite : @s5WriteFile plainDev 0 0 Block.zero 1 twoHeld with
  | error e =>
      rw [hwrite] at hval
      cases hval
  | ok r =>
      rw [hwrite] at hval
      have hr : r.1 = 1 := Except.ok.inj hval
      refine ⟨r.1, r.2, rfl, @write_allocates {7, 8} _ _ _ _ _ _ _ plainDev (zeros 0) (zeros 0)
        _ _ _ twoFree_mounted twoHeld_calls rfl (Or.inl rfl) (by decide) rfl (by decide)
        (@FileRun.start plainDev _ _ _ _) ⟨by decide, by decide⟩ hwrite (hr ▸ by decide)⟩

omit [BlockDev] in
/-- A write of the first page gives the second one a block too. -/
theorem page_allocates_next : @Mounted plainDev {7, 8} twoFree ∧
    @PageRun plainDev (fun s c => c.Made s) twoFree twoHeld ∧ ∃ r s',
    @s5WriteFile plainDev 0 0 Block.zero 4096 twoHeld = .ok (r, s') ∧ 0 ≤ r ∧
      ¬ MapsCovered 0 0 r.toNat twoHeld s' := by
  refine ⟨twoFree_mounted, twoHeld_calls, ?_⟩
  have hval : (@s5WriteFile plainDev 0 0 Block.zero 4096 twoHeld).map
      (fun r => (r.1, r.2.fileBlock 0 1)) = .ok (4096, 7) := rfl
  cases hwrite : @s5WriteFile plainDev 0 0 Block.zero 4096 twoHeld with
  | error e =>
      rw [hwrite] at hval
      cases hval
  | ok r =>
      rw [hwrite] at hval
      obtain ⟨hr, hblock⟩ := Prod.mk.inj (Except.ok.inj hval)
      refine ⟨r.1, r.2, rfl, hr ▸ by decide, ?_⟩
      intro hcovered
      have hiff := hcovered.page 1 (by decide) rfl
      rw [hblock, hr] at hiff
      exact absurd (hiff.mp (by decide)) (by decide)

end CodingSample.S5fs
