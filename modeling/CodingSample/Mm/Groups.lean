import CodingSample.Data.Buddies
import CodingSample.Mm.Page
import Mathlib.Algebra.BigOperators.Group.Finset.Basic
import Mathlib.Data.List.Nodup

/-!
# The books of a page group

The free lists of a group and the blocks in use are the blocks of a buddy system over the pages
between `pg_baseaddr` and `pg_endaddr`, and the bitmaps hold its bits, as long as the bits that are
turned over are bits of the bitmaps.
-/

namespace CodingSample.Mm

open Prog DyadicTiling

namespace Pagegroup

variable (g : Pagegroup) (k l i j a : Nat)

def pages : Nat := g.pgEndaddr - g.pgBaseaddr

/-- The first page of a block. -/
def addrOf : Nat := g.pgBaseaddr + i * 2 ^ k

def Free : Prop := g.addrOf k i ∈ g.pgFreelist k

/-- The bitmap of order `k` has a bit with the index. The first bitmap has one for any two pages of
the range. -/
def HasBit : Prop := k = 1 ∨ i < 8 * (g.pgMap (k - 1) - g.pgMap k)

def freePages : Nat := ∑ k ∈ Finset.range pageNsizes, (g.pgFreelist k).length * 2 ^ k

/-- Turn over the bit of the block of order `k + 1` that block `i` of order `k` is half of. -/
def flipPair : Pagegroup := if k < pageNsizes - 1 then g.flip (k + 1) (i / 2) else g

theorem addrOf_sub_shift : (g.addrOf k i - g.pgBaseaddr) >>> k = i := by
  rw [addrOf, Nat.add_sub_cancel_left, Nat.shiftRight_eq_div_pow, mul_div_self]

theorem addrOf_sub_shift_succ : (g.addrOf k i - g.pgBaseaddr) >>> (k + 1) = i / 2 := by
  rw [addrOf, Nat.add_sub_cancel_left, Nat.shiftRight_eq_div_pow, div_succ, mul_div_self]

theorem base_le_addrOf : g.pgBaseaddr ≤ g.addrOf k i := Nat.le_add_right _ _

theorem addrOf_left : g.addrOf k (2 * i) = g.addrOf (k + 1) i := by
  rw [addrOf, addrOf, pow_succ]
  ring

theorem addrOf_right : g.addrOf k (2 * i + 1) = g.addrOf (k + 1) i + 2 ^ k := by
  rw [addrOf, addrOf, pow_succ]
  ring

variable {g k l i j a}

@[simp] theorem addrOf_inj : g.addrOf k i = g.addrOf k j ↔ i = j := by
  simp [addrOf]

@[simp] theorem pgFreelist_setFreelist_self (l : List Nat) :
    (g.setFreelist k l).pgFreelist k = l := Function.update_self ..

theorem pgFreelist_setFreelist_of_ne {l : List Nat} (h : j ≠ k) :
    (g.setFreelist k l).pgFreelist j = g.pgFreelist j := Function.update_of_ne h ..

theorem free_setFreelist {l : List Nat} :
    (g.setFreelist k l).Free j i ↔ if j = k then g.addrOf j i ∈ l else g.Free j i := by
  unfold Free
  by_cases h : j = k
  · subst h
    rw [if_pos rfl, pgFreelist_setFreelist_self]
    exact Iff.rfl
  · rw [if_neg h, pgFreelist_setFreelist_of_ne h]
    exact Iff.rfl

/-- What the lists hold after one of them has been replaced. -/
theorem freePages_setFreelist {l : List Nat} (hk : k < pageNsizes) :
    (g.setFreelist k l).freePages + (g.pgFreelist k).length * 2 ^ k =
      g.freePages + l.length * 2 ^ k := by
  have hmem : k ∈ Finset.range pageNsizes := Finset.mem_range.mpr hk
  have hrest : ∑ j ∈ (Finset.range pageNsizes).erase k,
        ((g.setFreelist k l).pgFreelist j).length * 2 ^ j =
      ∑ j ∈ (Finset.range pageNsizes).erase k, (g.pgFreelist j).length * 2 ^ j := by
    apply Finset.sum_congr rfl
    intro j hj
    rw [pgFreelist_setFreelist_of_ne (Finset.ne_of_mem_erase hj)]
  unfold freePages
  rw [← Finset.add_sum_erase _ _ hmem, ← Finset.add_sum_erase _ (fun j =>
    (g.pgFreelist j).length * 2 ^ j) hmem, hrest, pgFreelist_setFreelist_self]
  omega

/-! ### The bitmaps -/

/-- The bitmaps lie one below the other, and every block in the group has a bit. -/
structure Layout (g : Pagegroup) : Prop where
  below : ∀ k, 1 ≤ k → k < 7 → g.pgMap (k + 1) ≤ g.pgMap k
  hasBit : ∀ k i, 1 ≤ k → k ≤ 7 → (i + 1) * 2 ^ k ≤ g.pages → g.HasBit k i

theorem Layout.pgMap_le (h : g.Layout) (hk : 1 ≤ k) (hkl : k ≤ l) (hl : l ≤ 7) :
    g.pgMap l ≤ g.pgMap k := by
  induction l, hkl using Nat.le_induction with
  | base => exact le_refl _
  | succ l hkl ih => exact (h.below l (hk.trans hkl) hl).trans (ih (Nat.le_of_lt hl))

/-- The bits of two bitmaps are at different places. -/
theorem Layout.bit_lt (h : g.Layout) (hk : 1 ≤ k) (hkl : k < l) (hl : l ≤ 7) (hj : g.HasBit l j) :
    8 * g.pgMap l + j < 8 * g.pgMap k + i := by
  have hle := h.pgMap_le hk (Nat.le_sub_one_of_lt hkl) ((Nat.sub_le l 1).trans hl)
  have hbelow := h.pgMap_le (k := l - 1) (l := l) (by omega) (Nat.sub_le l 1) hl
  rcases hj with rfl | hj
  · omega
  · omega

theorem Layout.bit_flip (h : g.Layout) (hk : 1 ≤ k) (hk' : k ≤ 7) (hi : g.HasBit k i) (hl : 1 ≤ l)
    (hl' : l ≤ 7) (hj : g.HasBit l j) :
    (g.flip k i).bit l j = if l = k ∧ j = i then !g.bit l j else g.bit l j := by
  change Function.update g.memory (8 * g.pgMap k + i) (!g.bit k i) (8 * g.pgMap l + j) = _
  by_cases hsame : l = k ∧ j = i
  · obtain ⟨rfl, rfl⟩ := hsame
    rw [if_pos ⟨rfl, rfl⟩, Function.update_self]
  · rw [if_neg hsame, Function.update_of_ne]
    · rfl
    · intro heq
      rcases Nat.lt_trichotomy l k with hlt | rfl | hlt
      · exact absurd heq (h.bit_lt (i := j) hl hlt hk' hi).ne'
      · exact hsame ⟨rfl, Nat.add_left_cancel heq⟩
      · exact absurd heq (h.bit_lt (i := i) hk hlt hl' hj).ne

theorem Layout.bit_flipPair (h : g.Layout) (hi : k < 7 → g.HasBit (k + 1) (i / 2)) (hl : l < 7)
    (hfits : (j + 1) * 2 ^ (l + 1) ≤ g.pages) :
    (g.flipPair k i).bit (l + 1) j =
      if l = k ∧ j = i / 2 then !g.bit (l + 1) j else g.bit (l + 1) j := by
  have hj := h.hasBit (l + 1) j (Nat.le_add_left 1 l) hl hfits
  unfold flipPair
  by_cases hk : k < pageNsizes - 1
  · rw [if_pos hk, h.bit_flip (Nat.le_add_left 1 k) hk (hi hk) (Nat.le_add_left 1 l) hl hj]
    simp only [Nat.add_right_cancel_iff]
  · rw [if_neg hk, if_neg]
    rintro ⟨rfl, -⟩
    exact hk hl

end Pagegroup

/-! ### The steps of the code -/

section Steps

variable {g : Pagegroup} {order addr : Nat}

theorem wp_pagegroupCalculateIndex {Q : Nat → Pagegroup → Prop} :
    wp (pagegroupCalculateIndex order addr) Q g ↔ order < pageNsizes ∧
      (g.pgBaseaddr ≤ addr ∧ addr < g.pgEndaddr) ∧ Q ((addr - g.pgBaseaddr) >>> order) g := by
  unfold pagegroupCalculateIndex pageCheck
  rw [wp_bind, wp_get, wp_bind, wp_check, wp_bind, wp_check, wp_pure, decide_eq_true_iff,
    decide_eq_true_iff]

theorem wp_bitFlip {Q : Unit → Pagegroup → Prop} :
    wp (bitFlip order addr) Q g ↔ order < pageNsizes ∧
      (g.pgBaseaddr ≤ addr ∧ addr < g.pgEndaddr) ∧
        Q () (g.flip order ((addr - g.pgBaseaddr) >>> order)) := by
  unfold bitFlip
  rw [wp_bind, wp_pagegroupCalculateIndex, wp_modify]

theorem wp_bitFlipAbove {Q : Unit → Pagegroup → Prop} {k i : Nat}
    (hin : k < pageNsizes - 1 → g.addrOf k i < g.pgEndaddr) :
    wp (bitFlipAbove k (g.addrOf k i)) Q g ↔ Q () (g.flipPair k i) := by
  unfold bitFlipAbove Pagegroup.flipPair
  by_cases hk : k < pageNsizes - 1
  · rw [if_pos hk, if_pos hk, wp_bitFlip, Pagegroup.addrOf_sub_shift_succ]
    constructor
    · exact fun hq => hq.2.2
    · exact fun hq => ⟨Nat.succ_lt_succ hk, ⟨g.base_le_addrOf k i, hin hk⟩, hq⟩
  · rw [if_neg hk, if_neg hk, wp_pure]

theorem wp_bitCheck {Q : Bool → Pagegroup → Prop} :
    wp (bitCheck order addr) Q g ↔ order < pageNsizes ∧
      (g.pgBaseaddr ≤ addr ∧ addr < g.pgEndaddr) ∧
        Q (g.bit order ((addr - g.pgBaseaddr) >>> order)) g := by
  unfold bitCheck
  rw [wp_bind, wp_pagegroupCalculateIndex, wp_bind, wp_get, wp_pure]

theorem wp_listTakeHead {Q : Nat → Pagegroup → Prop} {rest : List Nat}
    (h : g.pgFreelist order = addr :: rest) :
    wp (listTakeHead order) Q g ↔ Q addr (g.setFreelist order rest) := by
  unfold listTakeHead
  rw [wp_bind, wp_get, h]
  simp only [wp_bind, wp_modify, wp_pure]

end Steps

/-! ### The books -/

/-- The free lists, the blocks in use and the bitmaps of a group. -/
structure GroupBooks (g : Pagegroup) (out : Nat → Nat → Prop) (pending : Option (Nat × Nat)) :
    Prop where
  layout : g.Layout
  base_le : g.pgBaseaddr ≤ g.pgEndaddr
  nodup : ∀ k, (g.pgFreelist k).Nodup
  placed : ∀ k, ∀ a ∈ g.pgFreelist k, ∃ i, a = g.addrOf k i
  buddies : Buddies g.pages 7 g.Free out g.bit pending

/-- One block is added to the ones in use. -/
def withBlock (out : Nat → Nat → Prop) (k i : Nat) : Nat → Nat → Prop :=
  fun l j => out l j ∨ l = k ∧ j = i

def withoutBlock (out : Nat → Nat → Prop) (k i : Nat) : Nat → Nat → Prop :=
  fun l j => out l j ∧ ¬ (l = k ∧ j = i)

/-- What the calls do not change in a group. -/
structure SameGroup (g g' : Pagegroup) : Prop where
  base : g'.pgBaseaddr = g.pgBaseaddr
  stop : g'.pgEndaddr = g.pgEndaddr
  map : g'.pgMap = g.pgMap

theorem SameGroup.refl (g : Pagegroup) : SameGroup g g := ⟨rfl, rfl, rfl⟩

theorem SameGroup.trans {g g' g'' : Pagegroup} (h : SameGroup g g') (h' : SameGroup g' g'') :
    SameGroup g g'' :=
  ⟨h'.base.trans h.base, h'.stop.trans h.stop, h'.map.trans h.map⟩

theorem SameGroup.pages {g g' : Pagegroup} (h : SameGroup g g') : g'.pages = g.pages := by
  rw [Pagegroup.pages, Pagegroup.pages, h.base, h.stop]

theorem SameGroup.addrOf {g g' : Pagegroup} (h : SameGroup g g') (k i : Nat) :
    g'.addrOf k i = g.addrOf k i := by
  rw [Pagegroup.addrOf, Pagegroup.addrOf, h.base]

namespace GroupBooks

variable {g g' : Pagegroup} {out : Nat → Nat → Prop} {pending : Option (Nat × Nat)}
  {k l i j a : Nat} {rest : List Nat}

/-- Every block is inside the group. -/
theorem addrOf_lt (h : GroupBooks g out pending) (hi : g.Free k i ∨ out k i) :
    g.addrOf k i < g.pgEndaddr := by
  have hlt := h.buddies.tiles.start_lt hi
  have hle := h.base_le
  unfold Pagegroup.pages at hlt
  unfold Pagegroup.addrOf
  omega

theorem hasBit (h : GroupBooks g out pending) (hi : g.Free k i ∨ out k i) (hk : 1 ≤ k) :
    g.HasBit k i :=
  h.layout.hasBit k i hk (h.buddies.order k i hi) (h.buddies.tiles.inside k i hi)

/-- The head of a list is a free block. -/
theorem head_free (h : GroupBooks g out pending) (hlist : g.pgFreelist k = a :: rest) :
    ∃ i, a = g.addrOf k i ∧ g.Free k i := by
  have hmem : a ∈ g.pgFreelist k := by
    rw [hlist]
    exact List.mem_cons_self
  obtain ⟨i, rfl⟩ := h.placed k a hmem
  exact ⟨i, rfl, hmem⟩

/-! ### Taking the head of a list -/

/-- The head of the list of order `k` can be taken: its pair has a bit, and only the halves of that
pair may both be free. -/
structure Ready (g : Pagegroup) (out : Nat → Nat → Prop) (k i : Nat) (rest : List Nat)
    (pending : Option (Nat × Nat)) : Prop where
  books : GroupBooks g out pending
  head : g.pgFreelist k = g.addrOf k i :: rest
  pair : ∀ l j, pending = some (l, j) → l = k + 1 ∧ j = i / 2
  hasBit : k < 7 → g.HasBit (k + 1) (i / 2)

namespace Ready

theorem free (h : Ready g out k i rest pending) : g.Free k i := by
  unfold Pagegroup.Free
  rw [h.head]
  exact List.mem_cons_self

theorem order_le (h : Ready g out k i rest pending) : k ≤ 7 :=
  h.books.buddies.order k i (.inl h.free)

/-- The head is taken from its list, and the bit of its pair turned over. -/
def taken (g : Pagegroup) (k i : Nat) (rest : List Nat) : Pagegroup :=
  (g.setFreelist k rest).flipPair k i

theorem pgFreelist_taken : (taken g k i rest).pgFreelist = (g.setFreelist k rest).pgFreelist := by
  unfold taken Pagegroup.flipPair
  split
  · rfl
  · rfl

theorem same_taken : SameGroup g (taken g k i rest) := by
  unfold taken Pagegroup.flipPair
  split
  · exact ⟨rfl, rfl, rfl⟩
  · exact ⟨rfl, rfl, rfl⟩

end Ready

/-- Books that are kept with other lists and other bits. -/
theorem renew {out' : Nat → Nat → Prop} {pending' : Option (Nat × Nat)}
    (h : GroupBooks g out pending) (hsame : SameGroup g g')
    (hnodup : ∀ k, (g'.pgFreelist k).Nodup)
    (hplaced : ∀ k, ∀ a ∈ g'.pgFreelist k, a ∈ g.pgFreelist k ∨ ∃ i, a = g.addrOf k i)
    (hbuddies : Buddies g.pages 7 g'.Free out' g'.bit pending') : GroupBooks g' out' pending' := by
  refine ⟨⟨?_, ?_⟩, ?_, hnodup, ?_, ?_⟩
  · rw [hsame.map]
    exact h.layout.below
  · intro k i
    unfold Pagegroup.HasBit
    rw [hsame.pages, hsame.map]
    exact h.layout.hasBit k i
  · rw [hsame.base, hsame.stop]
    exact h.base_le
  · intro k a ha
    rcases hplaced k a ha with hold | ⟨i, rfl⟩
    · obtain ⟨i, rfl⟩ := h.placed k a hold
      exact ⟨i, (hsame.addrOf k i).symm⟩
    · exact ⟨i, (hsame.addrOf k i).symm⟩
  · rw [hsame.pages]
    exact hbuddies

namespace Ready

theorem books_taken (h : Ready g out k i rest pending) :
    GroupBooks (taken g k i rest) (withBlock out k i) none := by
  have hnodup := h.books.nodup k
  rw [h.head] at hnodup
  obtain ⟨hnot, hrest⟩ := List.nodup_cons.mp hnodup
  have hfree : ∀ l j, (taken g k i rest).Free l j ↔ g.Free l j ∧ ¬ (l = k ∧ j = i) := by
    intro l j
    have hlists : (taken g k i rest).Free l j ↔ (g.setFreelist k rest).Free l j := by
      unfold Pagegroup.Free Pagegroup.addrOf
      rw [pgFreelist_taken, same_taken.base]
      exact Iff.rfl
    rw [hlists, Pagegroup.free_setFreelist]
    by_cases hlk : l = k
    · subst hlk
      rw [if_pos rfl, Pagegroup.Free, h.head, List.mem_cons, Pagegroup.addrOf_inj]
      constructor
      · intro hmem
        refine ⟨.inr hmem, fun heq => hnot ?_⟩
        rw [← heq.2]
        exact hmem
      · rintro ⟨heq | hmem, hne⟩
        · exact absurd ⟨rfl, heq⟩ hne
        · exact hmem
    · rw [if_neg hlk]
      simp [hlk]
  refine h.books.renew same_taken ?_ ?_ ?_
  · intro l
    rw [pgFreelist_taken]
    by_cases hlk : l = k
    · subst hlk
      rw [Pagegroup.pgFreelist_setFreelist_self]
      exact hrest
    · rw [Pagegroup.pgFreelist_setFreelist_of_ne hlk]
      exact h.books.nodup l
  · intro l a ha
    rw [pgFreelist_taken] at ha
    left
    by_cases hlk : l = k
    · subst hlk
      rw [Pagegroup.pgFreelist_setFreelist_self] at ha
      rw [h.head]
      exact List.mem_cons_of_mem _ ha
    · rwa [Pagegroup.pgFreelist_setFreelist_of_ne hlk] at ha
  · refine h.books.buddies.take h.free h.pair hfree (fun _ _ => Iff.rfl) ?_
    intro l j hl hfits
    have hlayout : (g.setFreelist k rest).Layout := ⟨h.books.layout.below, h.books.layout.hasBit⟩
    exact hlayout.bit_flipPair h.hasBit hl hfits

theorem freePages_taken (h : Ready g out k i rest pending) :
    (taken g k i rest).freePages + 2 ^ k = g.freePages := by
  have hcount := Pagegroup.freePages_setFreelist (g := g) (l := rest)
    (Nat.lt_succ_of_le h.order_le : k < pageNsizes)
  have hlists : (taken g k i rest).freePages = (g.setFreelist k rest).freePages := by
    unfold Pagegroup.freePages
    rw [pgFreelist_taken]
  rw [h.head, List.length_cons, Nat.add_mul] at hcount
  rw [hlists]
  omega

/-- What both `__page_split` and `_page_alloc_order` do to the head of a list. -/
theorem wp_head (h : Ready g out k i rest pending) {Q : Nat → Unit → Pagegroup → Prop} :
    wp (listTakeHead k) (fun a g' => wp (bitFlipAbove k a) (Q a) g') g ↔
      Q (g.addrOf k i) () (taken g k i rest) := by
  rw [wp_listTakeHead h.head]
  exact wp_bitFlipAbove (g := g.setFreelist k rest) fun _ => h.books.addrOf_lt (.inl h.free)

theorem wp_take (h : Ready g out k i rest pending) {Q : Nat → Pagegroup → Prop} :
    wp (pageTake k) Q g ↔ Q (g.addrOf k i) (taken g k i rest) := by
  unfold pageTake
  simp only [wp_bind, wp_pure]
  exact h.wp_head

end Ready

/-! ### Splitting -/

theorem withoutBlock_withBlock (hout : ¬ out k i) : withoutBlock (withBlock out k i) k i = out := by
  funext l j
  unfold withoutBlock withBlock
  by_cases heq : l = k ∧ j = i
  · obtain ⟨rfl, rfl⟩ := heq
    simp [hout]
  · simp [heq]

/-- The halves of a block in use that are put on the list below. -/
theorem books_opened (h : GroupBooks g (withBlock out (k + 1) i) none) (hout : ¬ out (k + 1) i) :
    GroupBooks (g.setFreelist k
      (g.addrOf k (2 * i + 1) :: g.addrOf k (2 * i) :: g.pgFreelist k)) out (some (k + 1, i)) := by
  have hin : withBlock out (k + 1) i (k + 1) i := .inr ⟨rfl, rfl⟩
  have hhalf : ∀ j, j / 2 = i → g.addrOf k j ∉ g.pgFreelist k := fun j hj hmem =>
    h.buddies.tiles.half_notMem (.inr hin) hj (.inl hmem)
  refine h.renew ⟨rfl, rfl, rfl⟩ ?_ ?_ ?_
  · intro l
    by_cases hlk : l = k
    · subst hlk
      rw [Pagegroup.pgFreelist_setFreelist_self, List.nodup_cons, List.nodup_cons, List.mem_cons,
        Pagegroup.addrOf_inj, not_or]
      refine ⟨⟨by omega, hhalf _ (Buddies.two_mul_add_one_div i)⟩,
        hhalf _ (Buddies.two_mul_div i), h.nodup l⟩
    · rw [Pagegroup.pgFreelist_setFreelist_of_ne hlk]
      exact h.nodup l
  · intro l a ha
    by_cases hlk : l = k
    · subst hlk
      rw [Pagegroup.pgFreelist_setFreelist_self, List.mem_cons, List.mem_cons] at ha
      rcases ha with ha | ha | ha
      · exact .inr ⟨_, ha⟩
      · exact .inr ⟨_, ha⟩
      · exact .inl ha
    · rw [Pagegroup.pgFreelist_setFreelist_of_ne hlk] at ha
      exact .inl ha
  · refine h.buddies.opened hin ?_ ?_
    · intro l j
      rw [Pagegroup.free_setFreelist]
      by_cases hlk : l = k
      · subst hlk
        rw [if_pos rfl, List.mem_cons, List.mem_cons, Pagegroup.addrOf_inj, Pagegroup.addrOf_inj]
        unfold Pagegroup.Free
        have hj : j / 2 = i ↔ j = 2 * i + 1 ∨ j = 2 * i := by omega
        rw [hj]
        tauto
      · simp [hlk]
    · intro l j
      change _ ↔ withoutBlock (withBlock out (k + 1) i) (k + 1) i l j
      rw [withoutBlock_withBlock hout]

/-- The next order is ready after a split. -/
theorem Ready.wp_pageSplitHead (h : Ready g out (k + 1) i rest pending) :
    wp (pageSplitHead (k + 1)) (fun _ g' =>
      (∃ i' rest' pending', Ready g' out k i' rest' pending') ∧
        SameGroup g g' ∧ g'.freePages = g.freePages) g := by
  have hbooks := h.books_taken
  have hsame : SameGroup g (taken g (k + 1) i rest) := same_taken
  have hcount := h.freePages_taken
  have hout : ¬ out (k + 1) i := h.books.buddies.apart _ _ h.free
  have hk := h.order_le
  have hin := h.books.addrOf_lt (.inl h.free)
  generalize hg1 : taken g (k + 1) i rest = g1 at hbooks hsame hcount
  have hmine : withBlock out (k + 1) i (k + 1) i := .inr ⟨rfl, rfl⟩
  have hhas : g1.HasBit (k + 1) i := hbooks.hasBit (.inr hmine) (Nat.le_add_left 1 k)
  unfold pageSplitHead pageCheck
  simp only [wp_bind]
  rw [wp_check]
  refine ⟨decide_eq_true ⟨Nat.succ_pos k, Nat.lt_succ_of_le hk⟩, h.wp_head.mpr ?_⟩
  rw [hg1, wp_bitCheck, wp_check, wp_modify]
  have hindex : (g.addrOf (k + 1) i - g1.pgBaseaddr) >>> (k + 1) = i := by
    rw [hsame.base]
    exact g.addrOf_sub_shift (k + 1) i
  have hbit := hbooks.buddies.bit_of_out hmine
  rw [hindex, hbit]
  refine ⟨Nat.lt_succ_of_le hk, ?_, rfl, ?_⟩
  · rw [hsame.base, hsame.stop]
    exact ⟨g.base_le_addrOf _ _, hin⟩
  · have haddr := hsame.addrOf (k + 1) i
    have hlists : (g1.insertHead k (g.addrOf (k + 1) i)).insertHead k
        (g.addrOf (k + 1) i + 2 ^ k) = g1.setFreelist k
          (g1.addrOf k (2 * i + 1) :: g1.addrOf k (2 * i) :: g1.pgFreelist k) := by
      rw [Pagegroup.addrOf_right, Pagegroup.addrOf_left, haddr]
      simp [Pagegroup.insertHead, Pagegroup.setFreelist]
    have hsplit := Pagegroup.freePages_setFreelist (g := g1)
      (l := g1.addrOf k (2 * i + 1) :: g1.addrOf k (2 * i) :: g1.pgFreelist k)
      (by simp only [pageNsizes]; omega : k < pageNsizes)
    simp only [Nat.add_sub_cancel]
    rw [hlists]
    refine ⟨⟨2 * i + 1, g1.addrOf k (2 * i) :: g1.pgFreelist k, some (k + 1, i), ?_⟩, ?_, ?_⟩
    · refine ⟨hbooks.books_opened hout, Pagegroup.pgFreelist_setFreelist_self _, ?_, fun _ => ?_⟩
      · intro l j heq
        simp only [Option.some.injEq, Prod.mk.injEq] at heq
        rw [Buddies.two_mul_add_one_div]
        exact ⟨heq.1.symm, heq.2.symm⟩
      · rw [Buddies.two_mul_add_one_div]
        exact hhas
    · exact hsame.trans ⟨rfl, rfl, rfl⟩
    · rw [List.length_cons, List.length_cons, Nat.add_mul, Nat.add_mul] at hsplit
      rw [pow_succ] at hcount
      omega

theorem Ready.wp_pageSplitDown {rounds : Nat} (h : Ready g out (k + rounds) i rest pending) :
    wp (pageSplitDown k rounds) (fun _ g' =>
      (∃ i' rest' pending', Ready g' out k i' rest' pending') ∧
        SameGroup g g' ∧ g'.freePages = g.freePages) g := by
  induction rounds generalizing g i rest pending with
  | zero => exact wp_pure.mpr ⟨⟨i, rest, pending, h⟩, .refl g, rfl⟩
  | succ rounds ih =>
      refine wp_bind_of h.wp_pageSplitHead ?_
      rintro _ g1 ⟨⟨i1, rest1, pending1, h1⟩, hsame, hcount⟩
      refine wp_mono (ih h1) ?_
      rintro _ g2 ⟨hready, hsame', hcount'⟩
      exact ⟨hready, hsame.trans hsame', hcount'.trans hcount⟩

/-! ### Joining -/

/-- A block in use that is put on its list. -/
def given (g : Pagegroup) (k i : Nat) : Pagegroup := (g.insertHead k (g.addrOf k i)).flipPair k i

theorem pgFreelist_given :
    (given g k i).pgFreelist = (g.insertHead k (g.addrOf k i)).pgFreelist := by
  unfold given Pagegroup.flipPair
  split
  · rfl
  · rfl

theorem same_given : SameGroup g (given g k i) := by
  unfold given Pagegroup.flipPair
  split
  · exact ⟨rfl, rfl, rfl⟩
  · exact ⟨rfl, rfl, rfl⟩

theorem free_given : (given g k i).Free l j ↔ g.Free l j ∨ l = k ∧ j = i := by
  have hlists : (given g k i).Free l j ↔ (g.insertHead k (g.addrOf k i)).Free l j := by
    unfold Pagegroup.Free Pagegroup.addrOf
    rw [pgFreelist_given, same_given.base]
    exact Iff.rfl
  rw [hlists, Pagegroup.insertHead, Pagegroup.free_setFreelist]
  by_cases hlk : l = k
  · subst hlk
    rw [if_pos rfl, List.mem_cons, Pagegroup.addrOf_inj]
    unfold Pagegroup.Free
    tauto
  · simp [hlk]

theorem books_given (h : GroupBooks g out none) (hi : out k i)
    (hbit : k < 7 → g.HasBit (k + 1) (i / 2)) :
    GroupBooks (given g k i) (withoutBlock out k i) (some (k + 1, i / 2)) := by
  have hnot : g.addrOf k i ∉ g.pgFreelist k := fun hmem => h.buddies.apart k i hmem hi
  refine h.renew same_given ?_ ?_ ?_
  · intro l
    rw [pgFreelist_given, Pagegroup.insertHead]
    by_cases hlk : l = k
    · subst hlk
      rw [Pagegroup.pgFreelist_setFreelist_self]
      exact List.nodup_cons.mpr ⟨hnot, h.nodup l⟩
    · rw [Pagegroup.pgFreelist_setFreelist_of_ne hlk]
      exact h.nodup l
  · intro l a ha
    rw [pgFreelist_given, Pagegroup.insertHead] at ha
    by_cases hlk : l = k
    · subst hlk
      rw [Pagegroup.pgFreelist_setFreelist_self] at ha
      rcases List.mem_cons.mp ha with ha | ha
      · exact .inr ⟨i, ha⟩
      · exact .inl ha
    · rw [Pagegroup.pgFreelist_setFreelist_of_ne hlk] at ha
      exact .inl ha
  · refine h.buddies.put hi (fun l j => free_given) (fun _ _ => Iff.rfl) ?_
    intro l j hl hfits
    have hlayout : (g.insertHead k (g.addrOf k i)).Layout := ⟨h.layout.below, h.layout.hasBit⟩
    exact hlayout.bit_flipPair hbit hl hfits

theorem freePages_given (hk : k ≤ 7) : (given g k i).freePages = g.freePages + 2 ^ k := by
  have hcount := Pagegroup.freePages_setFreelist (g := g) (l := g.addrOf k i :: g.pgFreelist k)
    (Nat.lt_succ_of_le hk : k < pageNsizes)
  have hlists : (given g k i).freePages = (g.insertHead k (g.addrOf k i)).freePages := by
    unfold Pagegroup.freePages
    rw [pgFreelist_given]
  rw [List.length_cons, Nat.add_mul] at hcount
  rw [hlists, Pagegroup.insertHead]
  omega

/-- A page is on one list. -/
theorem one_list (h : GroupBooks g out pending) (hk : a ∈ g.pgFreelist k)
    (hl : a ∈ g.pgFreelist l) : k = l := by
  have hfree : ∀ k, a ∈ g.pgFreelist k → g.Free k ((a - g.pgBaseaddr) / 2 ^ k) := by
    intro k hk
    obtain ⟨i, rfl⟩ := h.placed k a hk
    rw [← Nat.shiftRight_eq_div_pow, Pagegroup.addrOf_sub_shift]
    exact hk
  exact h.buddies.tiles.single _ k l (.inl (hfree k hk)) (.inl (hfree l hl))

theorem wp_listRemove {Q : Unit → Pagegroup → Prop} (hk : k < pageNsizes)
    (hmem : a ∈ g.pgFreelist k) (hone : ∀ l, a ∈ g.pgFreelist l → l = k) :
    wp (listRemove a) Q g ↔ Q () (g.setFreelist k ((g.pgFreelist k).erase a)) := by
  have hfind : (List.range pageNsizes).find? (g.onList a) = some k := by
    cases heq : (List.range pageNsizes).find? (g.onList a) with
    | none =>
        have hno := List.find?_eq_none.mp heq k (List.mem_range.mpr hk)
        exact absurd (decide_eq_true hmem) hno
    | some l =>
        have hl := List.find?_some heq
        rw [hone l (of_decide_eq_true hl)]
  unfold listRemove
  rw [wp_bind, wp_get, hfind]
  exact wp_modify

/-- The two halves of a block taken from their list. -/
def gathered (g : Pagegroup) (k j : Nat) : Pagegroup :=
  g.setFreelist k (((g.pgFreelist k).erase (g.addrOf k (2 * j))).erase (g.addrOf k (2 * j + 1)))

theorem wp_gather (h : GroupBooks g out pending) {Q : Unit → Pagegroup → Prop} {b : Nat}
    (hk : k < pageNsizes) (hleft : g.Free k (2 * j)) (hright : g.Free k (2 * j + 1))
    (hpair : i = 2 * j ∧ b = 2 * j + 1 ∨ i = 2 * j + 1 ∧ b = 2 * j) :
    wp (listRemove (g.addrOf k i)) (fun _ g' => wp (listRemove (g.addrOf k b)) Q g') g ↔
      Q () (gathered g k j) := by
  have hi : g.addrOf k i ∈ g.pgFreelist k := by
    rcases hpair with ⟨rfl, -⟩ | ⟨rfl, -⟩
    · exact hleft
    · exact hright
  have hb : g.addrOf k b ∈ g.pgFreelist k := by
    rcases hpair with ⟨-, rfl⟩ | ⟨-, rfl⟩
    · exact hright
    · exact hleft
  have hne : g.addrOf k b ≠ g.addrOf k i := by
    rw [Ne, Pagegroup.addrOf_inj]
    omega
  rw [wp_listRemove hk hi fun l hl => h.one_list hl hi, wp_listRemove (k := k) hk]
  · have hstate : (g.setFreelist k ((g.pgFreelist k).erase (g.addrOf k i))).setFreelist k
        (((g.setFreelist k ((g.pgFreelist k).erase (g.addrOf k i))).pgFreelist k).erase
          (g.addrOf k b)) = gathered g k j := by
      rw [Pagegroup.pgFreelist_setFreelist_self, gathered]
      rcases hpair with ⟨rfl, rfl⟩ | ⟨rfl, rfl⟩
      · simp [Pagegroup.setFreelist]
      · rw [List.erase_comm]
        simp [Pagegroup.setFreelist]
    rw [hstate]
  · rw [Pagegroup.pgFreelist_setFreelist_self]
    exact (List.mem_erase_of_ne hne).mpr hb
  · intro l hl
    by_cases hlk : l = k
    · exact hlk
    · rw [Pagegroup.pgFreelist_setFreelist_of_ne hlk] at hl
      exact h.one_list hl hb

theorem books_gathered (h : GroupBooks g out (some (k + 1, j))) (hk : k < 7)
    (hleft : g.Free k (2 * j)) (hright : g.Free k (2 * j + 1)) :
    GroupBooks (gathered g k j) (withBlock out (k + 1) j) none := by
  have hnodup := h.nodup k
  refine h.renew ⟨rfl, rfl, rfl⟩ ?_ ?_ ?_
  · intro l
    by_cases hlk : l = k
    · subst hlk
      rw [gathered, Pagegroup.pgFreelist_setFreelist_self]
      exact (hnodup.erase _).erase _
    · rw [gathered, Pagegroup.pgFreelist_setFreelist_of_ne hlk]
      exact h.nodup l
  · intro l a ha
    left
    by_cases hlk : l = k
    · subst hlk
      rw [gathered, Pagegroup.pgFreelist_setFreelist_self] at ha
      exact List.mem_of_mem_erase (List.mem_of_mem_erase ha)
    · rwa [gathered, Pagegroup.pgFreelist_setFreelist_of_ne hlk] at ha
  · refine h.buddies.closed hk hleft hright ?_ (fun _ _ => Iff.rfl)
    intro l b
    rw [gathered, Pagegroup.free_setFreelist]
    by_cases hlk : l = k
    · subst hlk
      have hb : b / 2 = j ↔ b = 2 * j + 1 ∨ b = 2 * j := by omega
      rw [if_pos rfl, (hnodup.erase _).mem_erase_iff, hnodup.mem_erase_iff, Ne, Ne,
        Pagegroup.addrOf_inj, Pagegroup.addrOf_inj, hb]
      unfold Pagegroup.Free
      tauto
    · simp [hlk]

theorem freePages_gathered (h : GroupBooks g out pending) (hk : k < 7) (hleft : g.Free k (2 * j))
    (hright : g.Free k (2 * j + 1)) : (gathered g k j).freePages + 2 ^ (k + 1) = g.freePages := by
  have hmem : g.addrOf k (2 * j + 1) ∈ (g.pgFreelist k).erase (g.addrOf k (2 * j)) := by
    rw [(h.nodup k).mem_erase_iff, Ne, Pagegroup.addrOf_inj]
    exact ⟨by omega, hright⟩
  have hone := List.length_erase_of_mem hmem
  have htwo := List.length_erase_of_mem hleft
  have hpos := List.length_pos_of_mem hmem
  have hcount := Pagegroup.freePages_setFreelist (g := g) (k := k) (l := ((g.pgFreelist k).erase
    (g.addrOf k (2 * j))).erase (g.addrOf k (2 * j + 1))) (hk.trans (Nat.lt_succ_self 7))
  have hlength : (g.pgFreelist k).length = (((g.pgFreelist k).erase
      (g.addrOf k (2 * j))).erase (g.addrOf k (2 * j + 1))).length + 2 := by omega
  rw [hlength, Nat.add_mul] at hcount
  rw [gathered, pow_succ]
  omega

/-- In the greatest block that page `p` lies in, if it is no block of the largest order, another
page is in use. -/
def Sheltered (n : Nat) (out : Nat → Nat → Prop) (p : Nat) : Prop :=
  ∀ r < 7, Greatest n 7 r (p / 2 ^ r) → ∃ q l, q / 2 ^ r = p / 2 ^ r ∧ out l (q / 2 ^ l)

/-- The block that a sheltered page lies in has a buddy. -/
theorem fits_of_sheltered {out' : Nat → Nat → Prop} {p : Nat} (h : GroupBooks g out' pending)
    (hsub : ∀ l j, out l j → out' l j) (hrest : Sheltered g.pages out p)
    (hp : g.Free k (p / 2 ^ k) ∨ out' k (p / 2 ^ k)) (hnot : ¬ out k (p / 2 ^ k)) (hk : k < 7) :
    (p / 2 ^ k / 2 + 1) * 2 ^ (k + 1) ≤ g.pages := by
  refine h.buddies.parent_fits hp hk fun hg => ?_
  obtain ⟨q, l, hq, hl⟩ := hrest k hk hg
  rw [← hq] at hp hnot
  obtain rfl := h.buddies.tiles.single q k l hp (.inr (hsub _ _ hl))
  exact hnot hl

theorem buddy_addr (g : Pagegroup) (k i : Nat) :
    ∃ b, (if (g.addrOf k i - g.pgBaseaddr) >>> k % 2 = 1 then g.addrOf k i - 2 ^ k
        else g.addrOf k i + 2 ^ k) = g.addrOf k b ∧
      (i = 2 * (i / 2) ∧ b = 2 * (i / 2) + 1 ∨ i = 2 * (i / 2) + 1 ∧ b = 2 * (i / 2)) := by
  rw [Pagegroup.addrOf_sub_shift]
  by_cases hodd : i % 2 = 1
  · refine ⟨2 * (i / 2), ?_, .inr ⟨by omega, rfl⟩⟩
    have hi : g.addrOf k i = g.addrOf k (2 * (i / 2)) + 2 ^ k := by
      have heq : i = 2 * (i / 2) + 1 := by omega
      rw [Pagegroup.addrOf_left, ← Pagegroup.addrOf_right, ← heq]
    rw [if_pos hodd, hi, Nat.add_sub_cancel]
  · refine ⟨2 * (i / 2) + 1, ?_, .inl ⟨by omega, rfl⟩⟩
    have hi : i = 2 * (i / 2) := by omega
    rw [if_neg hodd, Pagegroup.addrOf_right, ← Pagegroup.addrOf_left, ← hi]

theorem min_addr (g : Pagegroup) {b : Nat}
    (hpair : i = 2 * j ∧ b = 2 * j + 1 ∨ i = 2 * j + 1 ∧ b = 2 * j) :
    min (g.addrOf k i) (g.addrOf k b) = g.addrOf (k + 1) j := by
  rcases hpair with ⟨rfl, rfl⟩ | ⟨rfl, rfl⟩
  · rw [Pagegroup.addrOf_left, Pagegroup.addrOf_right]
    exact Nat.min_eq_left (Nat.le_add_right _ _)
  · rw [Pagegroup.addrOf_left, Pagegroup.addrOf_right]
    exact Nat.min_eq_right (Nat.le_add_right _ _)

/-- Two halves joined: the block is on the list of the next order. -/
def joined (g : Pagegroup) (k j : Nat) : Pagegroup := given (gathered g k j) (k + 1) j

theorem same_joined : SameGroup g (joined g k j) := by
  have hgathered : SameGroup g (gathered g k j) := ⟨rfl, rfl, rfl⟩
  exact hgathered.trans same_given

theorem free_joined : (joined g k j).Free (k + 1) j := free_given.mpr (.inr ⟨rfl, rfl⟩)

theorem freePages_joined (h : GroupBooks g out pending) (hk : k < 7) (hleft : g.Free k (2 * j))
    (hright : g.Free k (2 * j + 1)) : (joined g k j).freePages = g.freePages := by
  have hgathered := h.freePages_gathered hk hleft hright
  have hgiven := freePages_given (g := gathered g k j) (i := j) (Nat.succ_le_of_lt hk)
  exact hgiven.trans hgathered

/-- One round of `__page_join`. -/
theorem books_joined {p : Nat} (h : GroupBooks g out (some (k + 1, p / 2 ^ (k + 1))))
    (hk : k < 7) (hrest : Sheltered g.pages out p)
    (hleft : g.Free k (2 * (p / 2 ^ (k + 1)))) (hright : g.Free k (2 * (p / 2 ^ (k + 1)) + 1)) :
    GroupBooks (joined g k (p / 2 ^ (k + 1))) out
      (some (k + 1 + 1, p / 2 ^ (k + 1 + 1))) := by
  have hbooks := h.books_gathered hk hleft hright
  have hmine : withBlock out (k + 1) (p / 2 ^ (k + 1)) (k + 1) (p / 2 ^ (k + 1)) := .inr ⟨rfl, rfl⟩
  have hnot : ¬ out (k + 1) (p / 2 ^ (k + 1)) := fun ho =>
    h.buddies.tiles.half_notMem (.inr ho) (Buddies.two_mul_div _) (.inl hleft)
  have hbit : k + 1 < 7 →
      (gathered g k (p / 2 ^ (k + 1))).HasBit (k + 1 + 1) (p / 2 ^ (k + 1) / 2) := by
    intro hk'
    refine hbooks.layout.hasBit _ _ (Nat.le_add_left 1 _) hk' ?_
    exact hbooks.fits_of_sheltered (fun _ _ ho => .inl ho) hrest (.inr hmine) hnot hk'
  have hgiven := hbooks.books_given hmine hbit
  rw [withoutBlock_withBlock hnot, ← div_succ] at hgiven
  exact hgiven

/-- `__page_join` keeps the books if the page it starts from is sheltered. -/
theorem wp_pageJoin {m p : Nat} (h : GroupBooks g out (some (k + 1, p / 2 ^ (k + 1))))
    (hm : k + m = 7) (hfree : g.Free k (p / 2 ^ k)) (hrest : Sheltered g.pages out p) :
    wp (pageJoin m k (g.addrOf k (p / 2 ^ k))) (fun _ g' => GroupBooks g' out none ∧
      SameGroup g g' ∧ g'.freePages = g.freePages) g := by
  induction m generalizing g k with
  | zero =>
      refine wp_pure.mpr ⟨?_, .refl g, rfl⟩
      -- there is no pair above the largest order
      have hb := h.buddies
      refine ⟨h.layout, h.base_le, h.nodup, h.placed, hb.tiles, hb.apart, hb.order, hb.bits, ?_⟩
      intro l j hl hleft hright
      have heq := hb.merged l j hl hleft hright
      simp only [Option.some.injEq, Prod.mk.injEq] at heq
      omega
  | succ m ih =>
      have hk : k < 7 := by omega
      have hin := h.addrOf_lt (.inl hfree)
      have hfits := h.fits_of_sheltered (fun _ _ ho => ho) hrest (.inl hfree)
        (h.buddies.apart _ _ hfree) hk
      unfold pageJoin
      rw [wp_bind, wp_bitCheck, Pagegroup.addrOf_sub_shift_succ]
      refine ⟨Nat.succ_lt_succ hk, ⟨g.base_le_addrOf _ _, hin⟩, ?_⟩
      cases hbit : g.bit (k + 1) (p / 2 ^ k / 2) with
      | true =>
          rw [if_pos rfl]
          rw [div_succ] at h
          have hsettled := h.buddies.settle hk hfits hbit
          exact wp_pure.mpr ⟨⟨h.layout, h.base_le, h.nodup, h.placed, hsettled⟩, .refl g, rfl⟩
      | false =>
          obtain ⟨hleft, hright⟩ := h.buddies.buddy_free hfree hk hfits hbit
          obtain ⟨b, hbuddy, hpair⟩ := buddy_addr g k (p / 2 ^ k)
          rw [if_neg Bool.false_ne_true, wp_bind, wp_get]
          simp only [wp_bind, wp_modify]
          rw [hbuddy, min_addr g hpair, h.wp_gather (hk.trans (Nat.lt_succ_self 7)) hleft hright
            hpair]
          rw [← div_succ] at hleft hright ⊢
          have hjoined := h.books_joined hk hrest hleft hright
          have hblock := free_joined (g := g) (k := k) (j := p / 2 ^ (k + 1))
          have hsame := same_joined (g := g) (k := k) (j := p / 2 ^ (k + 1))
          have hcount := h.freePages_joined hk hleft hright
          refine (wp_bitFlipAbove
            (g := (gathered g k (p / 2 ^ (k + 1))).insertHead (k + 1) _) ?_).mpr ?_
          · have hlt := hjoined.addrOf_lt (.inl hblock)
            rw [hsame.addrOf, hsame.stop] at hlt
            exact fun _ => hlt
          · have hshelter : Sheltered (joined g k (p / 2 ^ (k + 1))).pages out p := by
              rw [hsame.pages]
              exact hrest
            have hrun := ih hjoined (by omega) hblock hshelter
            rw [hsame.addrOf] at hrun
            refine wp_mono hrun ?_
            rintro _ g' ⟨hbooks, hsame', hcount'⟩
            exact ⟨hbooks, hsame.trans hsame', hcount'.trans hcount⟩

/-- What `_page_free_order` does to the group of the block. -/
theorem wp_free {p : Nat} (h : GroupBooks g out none) (hout : out k (p / 2 ^ k))
    (hrest : Sheltered g.pages (withoutBlock out k (p / 2 ^ k)) p) :
    wp (if k < pageNsizes - 1 then do
        bitFlip (k + 1) (g.addrOf k (p / 2 ^ k))
        pageJoin (pageNsizes - 1 - k) k (g.addrOf k (p / 2 ^ k))
      else pure ()) (fun _ g' => GroupBooks g' (withoutBlock out k (p / 2 ^ k)) none ∧
      SameGroup g g' ∧ g'.freePages = g.freePages + 2 ^ k)
      (g.insertHead k (g.addrOf k (p / 2 ^ k))) := by
  have hk := h.buddies.order k _ (.inr hout)
  have hnot : ¬ withoutBlock out k (p / 2 ^ k) k (p / 2 ^ k) := fun ho => ho.2 ⟨rfl, rfl⟩
  have hbit : k < 7 → g.HasBit (k + 1) (p / 2 ^ k / 2) := by
    intro hk'
    refine h.layout.hasBit _ _ (Nat.le_add_left 1 _) hk' ?_
    exact h.fits_of_sheltered (fun _ _ ho => ho.1) hrest (.inr hout) hnot hk'
  have hgiven := h.books_given hout hbit
  have hfree : (given g k (p / 2 ^ k)).Free k (p / 2 ^ k) := free_given.mpr (.inr ⟨rfl, rfl⟩)
  have hsame := same_given (g := g) (k := k) (i := p / 2 ^ k)
  have hcount := freePages_given (g := g) (i := p / 2 ^ k) hk
  have hrest' : Sheltered (given g k (p / 2 ^ k)).pages (withoutBlock out k (p / 2 ^ k)) p := by
    rw [hsame.pages]
    exact hrest
  rw [← div_succ] at hgiven
  have hrun := hgiven.wp_pageJoin (m := 7 - k) (by omega) hfree hrest'
  rw [hsame.addrOf] at hrun
  have hpost : wp (pageJoin (7 - k) k (g.addrOf k (p / 2 ^ k))) (fun _ g' =>
      GroupBooks g' (withoutBlock out k (p / 2 ^ k)) none ∧ SameGroup g g' ∧
        g'.freePages = g.freePages + 2 ^ k) (given g k (p / 2 ^ k)) := by
    refine wp_mono hrun ?_
    rintro _ g' ⟨hbooks, hsame', hcount'⟩
    exact ⟨hbooks, hsame.trans hsame', hcount'.trans hcount⟩
  by_cases hlt : k < pageNsizes - 1
  · rw [if_pos hlt, wp_bind, wp_bitFlip]
    have hin := h.addrOf_lt (.inr hout)
    refine ⟨Nat.succ_lt_succ hlt, ⟨g.base_le_addrOf _ _, hin⟩, ?_⟩
    have hindex := g.addrOf_sub_shift_succ k (p / 2 ^ k)
    change wp _ _ ((g.insertHead k _).flip (k + 1) ((g.addrOf k _ - g.pgBaseaddr) >>> (k + 1)))
    rw [hindex]
    have hstate : given g k (p / 2 ^ k) =
        (g.insertHead k (g.addrOf k (p / 2 ^ k))).flip (k + 1) (p / 2 ^ k / 2) := if_pos hlt
    rw [← hstate]
    exact hpost
  · have htop : k = 7 := by
      simp only [pageNsizes] at hlt
      omega
    subst htop
    change wp (pure ()) _ (given g 7 (p / 2 ^ 7)) at hpost
    rw [wp_pure] at hpost
    rw [if_neg hlt, wp_pure]
    exact hpost

end GroupBooks

end CodingSample.Mm
