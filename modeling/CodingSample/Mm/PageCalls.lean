import CodingSample.Mm.Ranges

/-!
# The page allocator over whole runs

The free blocks and the blocks in use are a partition of the pages of each group in every state of
a run, if no call takes a block whose pair has no bit in its bitmap and no call frees what was the
last block in use in a leftover block at the end of a group: the bit of such a block does not know
that it has no buddy.
-/

namespace CodingSample.Mm

open Prog DyadicTiling

/-- A call of the allocator. -/
inductive MemCall where
  | addRange (start stop : Nat)
  | alloc
  | allocN (npages : UInt32)
  | free (addr : Nat)
  | freeN (addr : Nat) (npages : UInt32)

/-- The blocks in use: the first page and the order. -/
abbrev InUse := List (Nat × Nat)

namespace MemCall

def run : MemCall → PageProg (Option Nat)
  | addRange start stop => pageAddRange start stop >>= fun _ => pure none
  | alloc => pageAlloc
  | allocN npages => pageAllocN npages
  | free addr => pageFree addr >>= fun _ => pure none
  | freeN addr npages => pageFreeN addr npages >>= fun _ => pure none

/-- The block that a call frees. -/
def frees : MemCall → Option (Nat × Nat)
  | free addr => some (addr, 0)
  | freeN addr npages => (orderOf npages).map (addr, ·)
  | addRange .. | alloc | allocN _ => none

/-- The order of the block that a call allocates. -/
def allocates : MemCall → Option Nat
  | alloc => some 0
  | allocN npages => orderOf npages
  | addRange .. | free _ | freeN .. => none

/-- When a call may be made: a range holds its structure and bitmaps and lies apart from the other
ranges, and only blocks in use are freed, with their own size. -/
def Legal (s : PageState) (out : InUse) : MemCall → Prop
  | addRange start stop => GoodRange start stop ∧ ∀ group ∈ s.pagegroupList,
      stop ≤ (s.pagegroup group).pgBaseaddr * pageSize ∨ group + sizeofPagegroup ≤ start
  | alloc | allocN _ => True
  | free addr => (addr, 0) ∈ out
  | freeN addr npages => ∃ order, orderOf npages = some order ∧ (addr, order) ∈ out

/-- The blocks in use after a call. -/
def after (c : MemCall) (r : Option Nat) (out : InUse) : InUse :=
  match c.frees, c.allocates, r with
  | some b, _, _ => out.erase b
  | none, some order, some addr => (addr, order) :: out
  | _, _, _ => out

end MemCall

/-- A call for a block of an order takes the head of the list of `norder` in `group`. -/
structure Takes (s : PageState) (order norder group addr : Nat) : Prop where
  le : order ≤ norder
  first : ∀ m, order ≤ m → m < norder → s.withFree m = none
  found : s.withFree norder = some group
  head : ∃ rest, (s.pagegroup group).pgFreelist norder = addr :: rest

/-- The bit of the pair of the block that a call takes is in its bitmap. -/
def Marked (s : PageState) (order : Nat) : Prop :=
  ∀ norder group addr, Takes s order norder group addr → norder < 7 →
    (s.pagegroup group).HasBit (norder + 1)
      ((addr - (s.pagegroup group).pgBaseaddr) / 2 ^ (norder + 1))

/-- The block is not the last one in use in a leftover block, a block of less than the largest
order on the first free lists of its group. -/
def NotLast (s : PageState) (out : InUse) (addr order : Nat) : Prop :=
  ∀ group ∈ s.pagegroupList, (s.pagegroup group).pgBaseaddr ≤ addr →
    addr < (s.pagegroup group).pgEndaddr → ∀ r < 7, ∀ a ∈ initialFreelist
      (s.pagegroup group).pgBaseaddr (s.pagegroup group).pages r, a ≤ addr → addr < a + 2 ^ r →
        ∃ b ∈ out, b ≠ (addr, order) ∧ a ≤ b.1 ∧ b.1 < a + 2 ^ r

/-- The calls that do not meet a leftover block where the bitmaps fail it. -/
def MemCall.Sound (s : PageState) (out : InUse) (c : MemCall) : Prop :=
  (∀ order, c.allocates = some order → Marked s order) ∧
    ∀ b, c.frees = some b → NotLast s out b.1 b.2

/-- `MemRun P out s`: calls that are legal and satisfy `P` lead from `page_init` to `s`, with the
blocks `out` in use. -/
inductive MemRun (P : PageState → InUse → MemCall → Prop) : InUse → PageState → Prop
  | start : MemRun P [] pageInit
  | call {out : InUse} {s s' : PageState} {c : MemCall} {r : Option Nat} : MemRun P out s →
      c.Legal s out → P s out c → c.run s = .ok (r, s') → MemRun P (c.after r out) s'

/-! ### The invariant -/

/-- The blocks in use in one group. -/
def inGroup (s : PageState) (out : InUse) (group k i : Nat) : Prop :=
  ((s.pagegroup group).addrOf k i, k) ∈ out ∧
    (s.pagegroup group).addrOf k i < (s.pagegroup group).pgEndaddr

structure MemInv (s : PageState) (out : InUse) : Prop where
  nodup : s.pagegroupList.Nodup
  outNodup : out.Nodup
  books : ∀ group ∈ s.pagegroupList, GroupBooks (s.pagegroup group) (inGroup s out group) none
  apart : ∀ g ∈ s.pagegroupList, ∀ g' ∈ s.pagegroupList, g ≠ g' →
    (s.pagegroup g).pgEndaddr ≤ (s.pagegroup g').pgBaseaddr ∨
      (s.pagegroup g').pgEndaddr ≤ (s.pagegroup g).pgBaseaddr
  below : ∀ g ∈ s.pagegroupList, (s.pagegroup g).pgEndaddr * pageSize ≤ (s.pagegroup g).pgMap 7 ∧
    (s.pagegroup g).pgMap 1 ≤ g
  owned : ∀ b ∈ out, ∃ g ∈ s.pagegroupList, ∃ i, b.1 = (s.pagegroup g).addrOf b.2 i ∧
    b.1 < (s.pagegroup g).pgEndaddr
  count : s.pageFreecount = (s.pagegroupList.map fun g => (s.pagegroup g).freePages).sum

variable {s s' : PageState} {out out' : InUse} {group order norder addr k i : Nat}
  {g1 : Pagegroup} {rest : List Nat} {pending : Option (Nat × Nat)}

/-- Replace one group. -/
def PageState.setGroup (s : PageState) (group : Nat) (g : Pagegroup) : PageState :=
  { s with pagegroup := Function.update s.pagegroup group g }

@[simp] theorem PageState.pagegroup_setGroup_self (g : Pagegroup) :
    (s.setGroup group g).pagegroup group = g := Function.update_self ..

theorem PageState.pagegroup_setGroup_of_ne {g : Pagegroup} {a : Nat} (h : a ≠ group) :
    (s.setGroup group g).pagegroup a = s.pagegroup a := Function.update_of_ne h ..

theorem PageState.setGroup_self (s : PageState) (group : Nat) :
    s.setGroup group (s.pagegroup group) = s := by
  unfold setGroup
  rw [Function.update_eq_self]

theorem PageState.setGroup_setGroup (s : PageState) (group : Nat) (g g' : Pagegroup) :
    (s.setGroup group g).setGroup group g' = s.setGroup group g' := by
  unfold setGroup
  rw [Function.update_idem]

theorem PageState.setGroup_count (s : PageState) (group : Nat) (g g' : Pagegroup) (count : Nat) :
    PageState.setGroup { s.setGroup group g with pageFreecount := count } group g' =
      { s.setGroup group g' with pageFreecount := count } := by
  unfold setGroup
  rw [Function.update_idem]

theorem wp_onGroup {α : Type} {m : GroupProg α} {Q : α → PageState → Prop} :
    wp (onGroup group m) Q s ↔ wp m (fun a g => Q a (s.setGroup group g)) (s.pagegroup group) :=
  wp_zoom

theorem inGroup_congr {a : Nat} (hsame : SameGroup (s.pagegroup a) (s'.pagegroup a)) :
    inGroup s' out a = inGroup s out a := by
  funext k i
  unfold inGroup
  rw [hsame.addrOf, hsame.stop]

theorem PageState.sameGroup_setGroup (hsame : SameGroup (s.pagegroup group) g1) (a : Nat) :
    SameGroup (s.pagegroup a) ((s.setGroup group g1).pagegroup a) := by
  by_cases ha : a = group
  · subst ha
    rw [pagegroup_setGroup_self]
    exact hsame
  · rw [pagegroup_setGroup_of_ne ha]
    exact .refl _

theorem PageState.sum_setGroup (s : PageState) (g1 : Pagegroup) {l : List Nat} (hl : l.Nodup)
    (hgroup : group ∈ l) : (l.map fun g => ((s.setGroup group g1).pagegroup g).freePages).sum +
      (s.pagegroup group).freePages = (l.map fun g => (s.pagegroup g).freePages).sum +
        g1.freePages := by
  induction l with
  | nil => exact absurd hgroup List.not_mem_nil
  | cons a l ih =>
      obtain ⟨hnot, hl⟩ := List.nodup_cons.mp hl
      rw [List.map_cons, List.map_cons, List.sum_cons, List.sum_cons]
      by_cases ha : a = group
      · subst ha
        have hrest : (l.map fun g => ((s.setGroup a g1).pagegroup g).freePages) =
            l.map fun g => (s.pagegroup g).freePages := by
          apply List.map_congr_left
          intro g hg
          rw [pagegroup_setGroup_of_ne (ne_of_mem_of_not_mem hg hnot)]
        rw [hrest, pagegroup_setGroup_self]
        omega
      · have hmem := (List.mem_cons.mp hgroup).resolve_left (Ne.symm ha)
        have hrest := ih hl hmem
        rw [pagegroup_setGroup_of_ne ha]
        omega

namespace MemInv

/-- The pages of a block in use. -/
theorem inGroup_of_mem (h : MemInv s out) {b : Nat × Nat} (hb : b ∈ out) :
    ∃ g ∈ s.pagegroupList, ∃ i, b.1 = (s.pagegroup g).addrOf b.2 i ∧ inGroup s out g b.2 i := by
  obtain ⟨g, hg, i, hi, hlt⟩ := h.owned b hb
  rw [hi] at hlt
  refine ⟨g, hg, i, hi, ?_, hlt⟩
  rw [← hi]
  exact hb

/-- An address is in one group. -/
theorem one_group (h : MemInv s out) {g g' a : Nat} (hg : g ∈ s.pagegroupList)
    (hg' : g' ∈ s.pagegroupList) (hle : (s.pagegroup g).pgBaseaddr ≤ a)
    (hlt : a < (s.pagegroup g).pgEndaddr) (hle' : (s.pagegroup g').pgBaseaddr ≤ a)
    (hlt' : a < (s.pagegroup g').pgEndaddr) : g = g' := by
  by_contra hne
  rcases h.apart g hg g' hg' hne with hend | hend
  · omega
  · omega

/-- A step of one group and the books of the blocks in use. -/
theorem update (h : MemInv s out) (hgroup : group ∈ s.pagegroupList)
    (hsame : SameGroup (s.pagegroup group) g1) (hnodup : out'.Nodup)
    (hbooks : GroupBooks g1 (inGroup s out' group) none)
    (hothers : ∀ g ∈ s.pagegroupList, g ≠ group → inGroup s out' g = inGroup s out g)
    (howned : ∀ b ∈ out', b ∈ out ∨ ∃ i, b.1 = (s.pagegroup group).addrOf b.2 i ∧
      b.1 < (s.pagegroup group).pgEndaddr)
    {count : Nat} (hcount : count + (s.pagegroup group).freePages =
      s.pageFreecount + g1.freePages) :
    MemInv { s.setGroup group g1 with pageFreecount := count } out' := by
  have hframe := PageState.sameGroup_setGroup hsame
  refine ⟨h.nodup, hnodup, ?_, ?_, ?_, ?_, ?_⟩
  · intro g hg
    change GroupBooks ((s.setGroup group g1).pagegroup g)
      (inGroup (s.setGroup group g1) out' g) none
    rw [inGroup_congr (hframe g)]
    by_cases hne : g = group
    · subst hne
      rw [PageState.pagegroup_setGroup_self]
      exact hbooks
    · rw [PageState.pagegroup_setGroup_of_ne hne, hothers g hg hne]
      exact h.books g hg
  · intro g hg g' hg' hne
    change ((s.setGroup group g1).pagegroup g).pgEndaddr ≤
        ((s.setGroup group g1).pagegroup g').pgBaseaddr ∨
      ((s.setGroup group g1).pagegroup g').pgEndaddr ≤
        ((s.setGroup group g1).pagegroup g).pgBaseaddr
    rw [(hframe g).base, (hframe g).stop, (hframe g').base, (hframe g').stop]
    exact h.apart g hg g' hg' hne
  · intro g hg
    change ((s.setGroup group g1).pagegroup g).pgEndaddr * pageSize ≤
      ((s.setGroup group g1).pagegroup g).pgMap 7 ∧ ((s.setGroup group g1).pagegroup g).pgMap 1 ≤ g
    rw [(hframe g).stop, (hframe g).map]
    exact h.below g hg
  · intro b hb
    rcases howned b hb with hold | ⟨i, hi, hlt⟩
    · obtain ⟨g, hg, i, hi, hlt⟩ := h.owned b hold
      refine ⟨g, hg, i, ?_, ?_⟩
      · exact hi.trans ((hframe g).addrOf _ _).symm
      · change _ < ((s.setGroup group g1).pagegroup g).pgEndaddr
        rw [(hframe g).stop]
        exact hlt
    · refine ⟨group, hgroup, i, ?_, ?_⟩
      · exact hi.trans ((hframe group).addrOf _ _).symm
      · change _ < ((s.setGroup group g1).pagegroup group).pgEndaddr
        rw [(hframe group).stop]
        exact hlt
  · have hlist := s.sum_setGroup g1 h.nodup hgroup
    rw [← h.count] at hlist
    change count = (s.pagegroupList.map fun g => ((s.setGroup group g1).pagegroup g).freePages).sum
    omega

/-! ### Allocating -/

/-- A block that has been taken from a group is in use. -/
theorem wp_pageFound (h : MemInv s out) (hgroup : group ∈ s.pagegroupList)
    (hsame : SameGroup (s.pagegroup group) g1)
    (hfree : g1.freePages = (s.pagegroup group).freePages)
    (hready : GroupBooks.Ready g1 (inGroup s out group) order i rest pending) :
    wp (pageFound order group) (fun r s' => ∃ a, r = some a ∧ MemInv s' ((a, order) :: out))
      (s.setGroup group g1) := by
  have hbooks := hready.books_taken
  have htaken : SameGroup g1 (GroupBooks.Ready.taken g1 order i rest) := GroupBooks.Ready.same_taken
  have hcount := hready.freePages_taken
  have hlt := hready.books.addrOf_lt (.inl hready.free)
  have hnot := hready.books.buddies.apart _ _ hready.free
  rw [hsame.addrOf, hsame.stop] at hlt
  unfold pageFound
  rw [wp_bind, wp_onGroup, PageState.pagegroup_setGroup_self, hready.wp_take, wp_bind, wp_modify,
    wp_pure, PageState.setGroup_setGroup]
  refine ⟨_, rfl, ?_⟩
  have hfresh : (g1.addrOf order i, order) ∉ out := by
    rw [hsame.addrOf]
    exact fun hmem => hnot ⟨hmem, hlt⟩
  refine h.update hgroup (hsame.trans htaken) (List.nodup_cons.mpr ⟨hfresh, h.outNodup⟩) ?_ ?_ ?_ ?_
  · have hsplit : inGroup s ((g1.addrOf order i, order) :: out) group =
        withBlock (inGroup s out group) order i := by
      funext l j
      unfold inGroup withBlock
      rw [hsame.addrOf, List.mem_cons, Prod.mk.injEq]
      apply propext
      constructor
      · rintro ⟨⟨heq, rfl⟩ | hmem, hin⟩
        · exact .inr ⟨rfl, Pagegroup.addrOf_inj.mp heq⟩
        · exact .inl ⟨hmem, hin⟩
      · rintro (⟨hmem, hin⟩ | ⟨rfl, rfl⟩)
        · exact ⟨.inr hmem, hin⟩
        · exact ⟨.inl ⟨rfl, rfl⟩, hlt⟩
    rw [hsplit]
    exact hbooks
  · intro g hg hne
    funext l j
    unfold inGroup
    rw [hsame.addrOf, List.mem_cons]
    apply propext
    constructor
    · rintro ⟨heq | hmem, hin⟩
      · have haddr : (s.pagegroup g).addrOf l j = (s.pagegroup group).addrOf order i :=
          congrArg Prod.fst heq
        refine absurd (h.one_group hg hgroup ((s.pagegroup g).base_le_addrOf l j) hin ?_ ?_) hne
        · rw [haddr]
          exact (s.pagegroup group).base_le_addrOf order i
        · rw [haddr]
          exact hlt
      · exact ⟨hmem, hin⟩
    · exact fun ⟨hmem, hin⟩ => ⟨.inr hmem, hin⟩
  · intro b hb
    rcases List.mem_cons.mp hb with rfl | hb
    · exact .inr ⟨i, hsame.addrOf _ _, by rw [hsame.addrOf]; exact hlt⟩
    · exact .inl hb
  · have hle : 2 ^ order ≤ s.pageFreecount := by
      have hmem : (s.pagegroup group).freePages ∈
          s.pagegroupList.map fun g => (s.pagegroup g).freePages :=
        List.mem_map.mpr ⟨group, hgroup, rfl⟩
      have hsum := List.single_le_sum (fun _ _ => Nat.zero_le _) _ hmem
      rw [← h.count] at hsum
      omega
    change s.pageFreecount - 2 ^ order + _ = _
    omega

theorem withFree_mem (hfind : s.withFree order = some group) :
    group ∈ s.pagegroupList ∧ ∃ addr rest, (s.pagegroup group).pgFreelist order = addr :: rest := by
  have hne := List.find?_some hfind
  exact ⟨List.mem_of_find?_eq_some hfind, List.exists_cons_of_ne_nil (of_decide_eq_true hne)⟩

/-- The block that a call takes is ready. -/
theorem ready (h : MemInv s out) (hmarked : Marked s order) (hle : order ≤ norder)
    (hfirst : ∀ m, order ≤ m → m < norder → s.withFree m = none)
    (hfind : s.withFree norder = some group) :
    ∃ i rest, GroupBooks.Ready (s.pagegroup group) (inGroup s out group) norder i rest none := by
  obtain ⟨hgroup, addr, rest, hlist⟩ := withFree_mem hfind
  have hbooks := h.books group hgroup
  obtain ⟨i, rfl, -⟩ := hbooks.head_free hlist
  refine ⟨i, rest, hbooks, hlist, fun l j heq => absurd heq.symm (Option.some_ne_none _), ?_⟩
  intro hlt
  have hbit := hmarked norder group _ ⟨hle, hfirst, hfind, rest, hlist⟩ hlt
  rwa [← Nat.shiftRight_eq_div_pow, Pagegroup.addrOf_sub_shift_succ] at hbit

/-- `_page_split` leaves a group with a block of the order, if any group has a larger one. -/
theorem wp_pageSplit (h : MemInv s out) (hmarked : Marked s order) {n m : Nat}
    (hlen : n + m = pageNsizes) (hlt : order < n)
    (hfirst : ∀ m, order ≤ m → m < n → s.withFree m = none) :
    wp (pageSplit order (List.range' n m)) (fun r s' => r = none ∧ s' = s ∨
      ∃ group ∈ s.pagegroupList, ∃ g1, r = some group ∧ s' = s.setGroup group g1 ∧
        SameGroup (s.pagegroup group) g1 ∧ g1.freePages = (s.pagegroup group).freePages ∧
          ∃ i rest pending, GroupBooks.Ready g1 (inGroup s out group) order i rest pending) s := by
  induction m generalizing n with
  | zero => exact wp_pure.mpr (.inl ⟨rfl, rfl⟩)
  | succ m ih =>
      rw [List.range'_succ, pageSplit, wp_bind, wp_get]
      cases hfind : s.withFree n with
      | none =>
          refine ih (by omega) (by omega) fun m hm hmn => ?_
          rcases Nat.lt_succ_iff_lt_or_eq.mp hmn with hmn | rfl
          · exact hfirst m hm hmn
          · exact hfind
      | some group =>
          obtain ⟨i, rest, hready⟩ := h.ready hmarked hlt.le hfirst hfind
          have hrounds : order + (n - order) = n := by omega
          rw [← hrounds] at hready
          rw [wp_bind, wp_onGroup]
          refine wp_mono hready.wp_pageSplitDown ?_
          rintro _ g1 ⟨⟨i1, rest1, pending1, h1⟩, hsame, hcount⟩
          exact wp_pure.mpr (.inr ⟨group, (withFree_mem hfind).1, g1, rfl, rfl, hsame, hcount, i1,
            rest1, pending1, h1⟩)

theorem wp_pageAllocOrder (h : MemInv s out) (hmarked : Marked s order)
    (horder : order < pageNsizes) :
    wp (pageAllocOrder order) (fun r s' => r = none ∧ MemInv s' out ∨
      ∃ a, r = some a ∧ MemInv s' ((a, order) :: out)) s := by
  unfold pageAllocOrder
  rw [wp_bind, wp_get]
  cases hfind : s.withFree order with
  | some group =>
      obtain ⟨i, rest, hready⟩ := h.ready hmarked (le_refl _)
        (fun m hm hlt => absurd hlt (Nat.not_lt_of_le hm)) hfind
      have hfound := h.wp_pageFound (withFree_mem hfind).1 (.refl _) rfl hready
      rw [PageState.setGroup_self] at hfound
      refine wp_mono hfound ?_
      rintro r s' ⟨a, hr, hinv⟩
      exact .inr ⟨a, hr, hinv⟩
  | none =>
      have hsplit := h.wp_pageSplit hmarked (n := order + 1) (m := pageNsizes - (order + 1))
        (Nat.add_sub_of_le horder) (Nat.lt_succ_self order) fun m hm hlt => by
          rw [Nat.le_antisymm (Nat.le_of_lt_succ hlt) hm]
          exact hfind
      refine wp_bind_of hsplit ?_
      rintro r s1 (⟨rfl, rfl⟩ | ⟨group, hgroup, g1, rfl, rfl, hsame, hcount, hready⟩)
      · exact wp_pure.mpr (.inl ⟨rfl, h⟩)
      · obtain ⟨i, rest, pending, hready⟩ := hready
        refine wp_mono (h.wp_pageFound hgroup hsame hcount hready) ?_
        rintro r s' ⟨a, hr, hinv⟩
        exact .inr ⟨a, hr, hinv⟩

/-! ### Freeing -/

theorem pagegroupFromAddress_eq (h : MemInv s out) (hgroup : group ∈ s.pagegroupList)
    (hle : (s.pagegroup group).pgBaseaddr ≤ addr) (hlt : addr < (s.pagegroup group).pgEndaddr) :
    s.pagegroupFromAddress addr = some group := by
  unfold PageState.pagegroupFromAddress
  cases hfind : s.pagegroupList.find? fun group =>
      decide ((s.pagegroup group).pgBaseaddr ≤ addr ∧ addr < (s.pagegroup group).pgEndaddr) with
  | none =>
      have hno := List.find?_eq_none.mp hfind group hgroup
      exact absurd (decide_eq_true ⟨hle, hlt⟩) hno
  | some g =>
      have hin := List.find?_some hfind
      obtain ⟨hle', hlt'⟩ := of_decide_eq_true hin
      rw [h.one_group (List.mem_of_find?_eq_some hfind) hgroup hle' hlt' hle hlt]

/-- The blocks in use in a group without one of them. -/
theorem inGroup_erase (h : MemInv s out) {b : Nat × Nat}
    (hi : b.1 = (s.pagegroup group).addrOf b.2 i) :
    inGroup s (out.erase b) group = withoutBlock (inGroup s out group) b.2 i := by
  funext l j
  unfold inGroup withoutBlock
  rw [h.outNodup.mem_erase_iff]
  have hne : ((s.pagegroup group).addrOf l j, l) = b ↔ l = b.2 ∧ j = i := by
    rw [Prod.ext_iff, hi]
    constructor
    · rintro ⟨heq, hl⟩
      simp only at hl
      subst hl
      exact ⟨rfl, Pagegroup.addrOf_inj.mp heq⟩
    · rintro ⟨rfl, rfl⟩
      exact ⟨rfl, rfl⟩
  rw [Ne, hne]
  apply propext
  tauto

/-- A block that is not the last one in use in a leftover block is sheltered by another. -/
theorem sheltered (h : MemInv s out) (hlast : NotLast s out addr order)
    (hgroup : group ∈ s.pagegroupList) (hle : (s.pagegroup group).pgBaseaddr ≤ addr)
    (hlt : addr < (s.pagegroup group).pgEndaddr)
    (hi : addr = (s.pagegroup group).addrOf order i) :
    GroupBooks.Sheltered (s.pagegroup group).pages
      (withoutBlock (inGroup s out group) order i) (addr - (s.pagegroup group).pgBaseaddr) := by
  intro r hr hg
  set base := (s.pagegroup group).pgBaseaddr with hbase
  have hdiv := Nat.div_add_mod (addr - base) (2 ^ r)
  have hmod := Nat.mod_lt (addr - base) (Nat.two_pow_pos r)
  have hroot : base + (addr - base) / 2 ^ r * 2 ^ r ∈
      initialFreelist base (s.pagegroup group).pages r := (mem_initialFreelist hr.le).mpr hg
  have hstart : base + (addr - base) / 2 ^ r * 2 ^ r ≤ addr := by
    rw [Nat.mul_comm]
    omega
  have hstop : addr < base + (addr - base) / 2 ^ r * 2 ^ r + 2 ^ r := by
    rw [Nat.mul_comm]
    omega
  obtain ⟨b, hb, hne, hfrom, hto⟩ := hlast group hgroup hle hlt r hr _ hroot hstart hstop
  -- the other block starts in the same leftover block, so it is in the same group
  have hin := hg.2.1
  have hpages : (s.pagegroup group).pages = (s.pagegroup group).pgEndaddr - base := rfl
  rw [hpages, Nat.add_mul, Nat.one_mul] at hin
  obtain ⟨g, hg', j, hj, hmem⟩ := h.inGroup_of_mem hb
  have hin' := hmem.2
  rw [← hj] at hin'
  obtain rfl : g = group := by
    have hge := (s.pagegroup g).base_le_addrOf b.2 j
    rw [← hj] at hge
    exact h.one_group hg' hgroup hge hin' (by omega) (by omega)
  refine ⟨b.1 - base, b.2, ?_, ?_⟩
  · rw [Nat.div_eq_iff (Nat.two_pow_pos r)]
    omega
  · have hindex : (b.1 - base) / 2 ^ b.2 = j := by
      rw [hj, ← Nat.shiftRight_eq_div_pow, Pagegroup.addrOf_sub_shift]
    rw [hindex]
    refine ⟨hmem, ?_⟩
    rintro ⟨horder, rfl⟩
    apply hne
    rw [Prod.ext_iff, hj, hi, horder]
    exact ⟨rfl, rfl⟩

theorem wp_pageFreeOrder (h : MemInv s out) (hmem : (addr, order) ∈ out)
    (hlast : NotLast s out addr order) :
    wp (pageFreeOrder addr order) (fun _ s' => MemInv s' (out.erase (addr, order))) s := by
  obtain ⟨group, hgroup, i, hi, hin⟩ := h.inGroup_of_mem hmem
  have hlt := hin.2
  have hle := (s.pagegroup group).base_le_addrOf order i
  simp only at hi
  rw [← hi] at hlt hle
  have hshelter := h.sheltered hlast hgroup hle hlt hi
  have hp : (addr - (s.pagegroup group).pgBaseaddr) / 2 ^ order = i := by
    rw [hi, ← Nat.shiftRight_eq_div_pow, Pagegroup.addrOf_sub_shift]
  have hbooks := h.books group hgroup
  have hfree := hbooks.wp_free (p := addr - (s.pagegroup group).pgBaseaddr) (k := order)
    (by rw [hp]; exact hin) (by rw [hp]; exact hshelter)
  rw [hp, ← hi] at hfree
  unfold pageFreeOrder
  rw [wp_bind, wp_get, h.pagegroupFromAddress_eq hgroup hle hlt]
  simp only [wp_bind, wp_onGroup, wp_modify]
  rw [PageState.pagegroup_setGroup_self]
  refine wp_mono hfree ?_
  rintro _ g1 ⟨hbooks1, hsame, hcount⟩
  rw [PageState.setGroup_count]
  refine h.update hgroup hsame (h.outNodup.erase _) ?_ ?_ ?_ ?_
  · rw [h.inGroup_erase hi]
    exact hbooks1
  · intro g hg hne
    funext l j
    unfold inGroup
    rw [h.outNodup.mem_erase_iff]
    apply propext
    constructor
    · exact fun ho => ⟨ho.1.2, ho.2⟩
    · rintro ⟨ho, hj⟩
      refine ⟨⟨fun heq => hne ?_, ho⟩, hj⟩
      have haddr : (s.pagegroup g).addrOf l j = addr := congrArg Prod.fst heq
      rw [haddr] at hj
      refine h.one_group hg hgroup ?_ hj hle hlt
      rw [← haddr]
      exact (s.pagegroup g).base_le_addrOf l j
  · exact fun b hb => .inl (List.mem_of_mem_erase hb)
  · change s.pageFreecount + 2 ^ order + _ = _
    omega

/-! ### New ranges -/

theorem congr (h : MemInv s out) (hlist : s'.pagegroupList = s.pagegroupList)
    (hcount : s'.pageFreecount = s.pageFreecount)
    (hgroups : ∀ g ∈ s.pagegroupList, s'.pagegroup g = s.pagegroup g) : MemInv s' out := by
  have hin : ∀ g ∈ s.pagegroupList, inGroup s' out g = inGroup s out g := by
    intro g hg
    funext k i
    unfold inGroup
    rw [hgroups g hg]
  refine ⟨hlist ▸ h.nodup, h.outNodup, ?_, ?_, ?_, ?_, ?_⟩
  · intro g hg
    rw [hlist] at hg
    rw [hin g hg, hgroups g hg]
    exact h.books g hg
  · intro g hg g' hg' hne
    rw [hlist] at hg hg'
    rw [hgroups g hg, hgroups g' hg']
    exact h.apart g hg g' hg' hne
  · intro g hg
    rw [hlist] at hg
    rw [hgroups g hg]
    exact h.below g hg
  · intro b hb
    obtain ⟨g, hg, i, hi, hlt⟩ := h.owned b hb
    refine ⟨g, hlist ▸ hg, i, ?_⟩
    rw [hgroups g hg]
    exact ⟨hi, hlt⟩
  · rw [hcount, h.count, hlist]
    congr 1
    apply List.map_congr_left
    intro g hg
    rw [hgroups g hg]

/-- A group of free blocks is added to the list. -/
theorem append (h : MemInv s out) (hfresh : group ∉ s.pagegroupList)
    (hbooks : ∀ f : Nat → Nat → Prop, (∀ k i, ¬ f k i) → GroupBooks (s.pagegroup group) f none)
    (hapart : ∀ g ∈ s.pagegroupList, (s.pagegroup group).pgEndaddr ≤ (s.pagegroup g).pgBaseaddr ∨
      (s.pagegroup g).pgEndaddr ≤ (s.pagegroup group).pgBaseaddr)
    (hbelow : (s.pagegroup group).pgEndaddr * pageSize ≤ (s.pagegroup group).pgMap 7 ∧
      (s.pagegroup group).pgMap 1 ≤ group) {count : Nat}
    (hcount : count = s.pageFreecount + (s.pagegroup group).freePages) :
    MemInv ⟨s.pagegroupList ++ [group], s.pagegroup, count⟩ out := by
  have hcases : ∀ g ∈ s.pagegroupList ++ [group], g ∈ s.pagegroupList ∨ g = group := by
    intro g hg
    rcases List.mem_append.mp hg with hg | hg
    · exact .inl hg
    · exact .inr (List.mem_singleton.mp hg)
  have hunused : ∀ k i, ¬ inGroup s out group k i := by
    rintro k i ⟨hmem, hlt⟩
    obtain ⟨g, hg, j, hj, hlt'⟩ := h.owned _ hmem
    have hle := (s.pagegroup group).base_le_addrOf k i
    have hle' := (s.pagegroup g).base_le_addrOf k j
    simp only at hj hlt'
    rw [← hj] at hle'
    rcases hapart g hg with hend | hend
    · omega
    · omega
  refine ⟨?_, h.outNodup, ?_, ?_, ?_, ?_, ?_⟩
  · refine List.nodup_append.mpr ⟨h.nodup, List.nodup_singleton _, ?_⟩
    intro a ha b hb heq
    rw [heq, List.mem_singleton.mp hb] at ha
    exact hfresh ha
  · intro g hg
    rcases hcases g hg with hg | rfl
    · exact h.books g hg
    · exact hbooks _ hunused
  · intro g hg g' hg' hne
    rcases hcases g hg with hold | rfl
    · rcases hcases g' hg' with hold' | rfl
      · exact h.apart g hold g' hold' hne
      · exact (hapart g hold).symm
    · rcases hcases g' hg' with hold' | rfl
      · exact hapart g' hold'
      · exact absurd rfl hne
  · intro g hg
    rcases hcases g hg with hold | rfl
    · exact h.below g hold
    · exact hbelow
  · intro b hb
    obtain ⟨g, hg, i, hi⟩ := h.owned b hb
    exact ⟨g, List.mem_append_left _ hg, i, hi⟩
  · rw [hcount, h.count, List.map_append, List.sum_append]
    simp

theorem wp_pageAddRange {start stop : Nat} (h : MemInv s out) (hrange : GoodRange start stop)
    (hapart : ∀ g ∈ s.pagegroupList,
      stop ≤ (s.pagegroup g).pgBaseaddr * pageSize ∨ g + sizeofPagegroup ≤ start) :
    wp (pageAddRange start stop) (fun _ s' => MemInv s' out) s := by
  have hstart : start / pageSize * pageSize = start := Nat.div_mul_cancel hrange.aligned
  have hstop : stop / pageSize * pageSize = stop := Nat.div_mul_cancel hrange.aligned'
  unfold pageAddRange
  rw [wp_modify]
  simp only [hstart, hstop]
  generalize hg : pagegroupCreate start stop (s.pagegroup (stop - sizeofPagegroup)).memory = g1
  have hroom := hrange.room
  have hpos : sizeofPagegroup ≤ overhead ((stop - start) >>> pageShift) := Nat.le_add_right _ _
  generalize overhead ((stop - start) >>> pageShift) = room at hroom hpos
  generalize hgp : stop - sizeofPagegroup = group
  have hbase : g1.pgBaseaddr * pageSize = start := by
    rw [← hg]
    exact hstart
  have hend : g1.pgEndaddr * pageSize ≤ g1.pgMap 7 := by
    rw [← hg]
    exact pgEndaddr_created
  have hmaps : g1.pgMap 7 ≤ g1.pgMap 1 ∧ g1.pgMap 1 ≤ group := by
    rw [← hg, ← hgp]
    exact ⟨(layout_created hrange).pgMap_le (le_refl 1) (by decide) (le_refl 7), pgMap_created_le⟩
  -- an older group lies before the range or behind it
  have hold : ∀ g ∈ s.pagegroupList, g ≠ group ∧
      (g1.pgEndaddr ≤ (s.pagegroup g).pgBaseaddr ∨ (s.pagegroup g).pgEndaddr ≤ g1.pgBaseaddr) := by
    intro g hmem
    obtain ⟨hend', hmap'⟩ := h.below g hmem
    have hbooks := h.books g hmem
    have hle := hbooks.base_le
    have hanti := hbooks.layout.pgMap_le (le_refl 1) (by decide : 1 ≤ 7) (le_refl 7)
    simp only [pageSize, sizeofPagegroup] at *
    rcases hapart g hmem with hbefore | hbehind
    · exact ⟨by omega, .inl (by omega)⟩
    · exact ⟨by omega, .inr (by omega)⟩
  have hfresh : group ∉ s.pagegroupList := fun hmem => (hold group hmem).1 rfl
  have hinv : MemInv (s.setGroup group g1) out :=
    h.congr rfl rfl fun g hg => PageState.pagegroup_setGroup_of_ne (hold g hg).1
  by_cases hlt : g1.pgBaseaddr < g1.pgEndaddr
  · rw [if_pos hlt]
    refine hinv.append hfresh ?_ ?_ ?_ ?_
    · intro f hf
      rw [PageState.pagegroup_setGroup_self, ← hg]
      exact books_created hrange hf
    · intro g hmem
      rw [PageState.pagegroup_setGroup_self, PageState.pagegroup_setGroup_of_ne (hold g hmem).1]
      exact (hold g hmem).2
    · rw [PageState.pagegroup_setGroup_self]
      exact ⟨hend, hmaps.2⟩
    · rw [PageState.pagegroup_setGroup_self, ← hg, freePages_created]
      rfl
  · rw [if_neg hlt]
    exact hinv

/-! ### Runs -/

theorem orderOf_lt {npages : UInt32} (h : orderOf npages = some order) : order < pageNsizes :=
  List.mem_range.mp (List.mem_of_find?_eq_some h)

theorem after_alloc {c : MemCall} {r : Option Nat} (hfrees : c.frees = none)
    (hallocates : c.allocates = some order)
    (h : r = none ∧ MemInv s out ∨ ∃ a, r = some a ∧ MemInv s ((a, order) :: out)) :
    MemInv s (c.after r out) := by
  unfold MemCall.after
  rw [hfrees, hallocates]
  rcases h with ⟨rfl, h⟩ | ⟨a, rfl, h⟩
  · exact h
  · exact h

/-- A call returns and keeps the invariant, or panics because no order has the size. -/
theorem wp_memCall {c : MemCall} (h : MemInv s out) (hlegal : c.Legal s out)
    (hsound : c.Sound s out) : wp c.run (fun r s' => MemInv s' (c.after r out)) s ∨
      c.run s = .error .panic := by
  obtain ⟨hmarked, hlast⟩ := hsound
  cases c with
  | addRange start stop =>
      left
      refine wp_bind_of (h.wp_pageAddRange hlegal.1 hlegal.2) ?_
      exact fun _ s' hinv => wp_pure.mpr hinv
  | alloc =>
      left
      refine wp_mono (h.wp_pageAllocOrder (hmarked 0 rfl) (by decide)) ?_
      exact fun r s' hpost => after_alloc rfl rfl hpost
  | allocN npages =>
      cases horder : orderOf npages with
      | none =>
          right
          change pageAllocN npages s = _
          unfold pageAllocN
          rw [horder]
          rfl
      | some order =>
          left
          change wp (pageAllocN npages) _ s
          unfold pageAllocN
          rw [horder]
          refine wp_mono (h.wp_pageAllocOrder (hmarked order horder) (orderOf_lt horder)) ?_
          exact fun r s' hpost => after_alloc rfl horder hpost
  | free addr =>
      left
      refine wp_bind_of (h.wp_pageFreeOrder hlegal (hlast (addr, 0) rfl)) ?_
      exact fun _ s' hinv => wp_pure.mpr hinv
  | freeN addr npages =>
      left
      obtain ⟨order, horder, hmem⟩ := hlegal
      have hfrees : (MemCall.freeN addr npages).frees = some (addr, order) := by
        change (orderOf npages).map (addr, ·) = _
        rw [horder]
        rfl
      have hafter : ∀ r, (MemCall.freeN addr npages).after r out = out.erase (addr, order) := by
        intro r
        unfold MemCall.after
        rw [hfrees]
      simp only [hafter]
      change wp (pageFreeN addr npages >>= fun _ => pure none) _ s
      unfold pageFreeN
      rw [horder]
      refine wp_bind_of (h.wp_pageFreeOrder hmem (hlast (addr, order) hfrees)) ?_
      exact fun _ s' hinv => wp_pure.mpr hinv

end MemInv

theorem memInv_pageInit : MemInv pageInit [] := by
  refine ⟨List.nodup_nil, List.nodup_nil, ?_, ?_, ?_, ?_, rfl⟩
  · exact fun g hg => absurd hg List.not_mem_nil
  · exact fun g hg => absurd hg List.not_mem_nil
  · exact fun g hg => absurd hg List.not_mem_nil
  · exact fun b hb => absurd hb List.not_mem_nil

theorem MemRun.memInv {P : PageState → InUse → MemCall → Prop} (hrun : MemRun P out s)
    (hP : ∀ s out c, P s out c → c.Sound s out) : MemInv s out := by
  induction hrun with
  | start => exact memInv_pageInit
  | call _ hlegal hc hcall ih =>
      rcases ih.wp_memCall hlegal (hP _ _ _ hc) with hwp | hpanic
      · exact (wp_of_eq hcall).mp hwp
      · rw [hpanic] at hcall
        cases hcall

/-- The free blocks and the blocks in use are a partition of the pages of a group. -/
structure Partition (g : Pagegroup) (group : Nat) (out : InUse) : Prop where
  nodup : ∀ k, (g.pgFreelist k).Nodup
  apart : ∀ k a, a ∈ g.pgFreelist k → (a, k) ∉ out
  cover : ∀ p, g.pgBaseaddr ≤ p → p < g.pgEndaddr →
    ∃! b : Nat × Nat, (b.1 ∈ g.pgFreelist b.2 ∨ b ∈ out) ∧ b.1 ≤ p ∧ p < b.1 + 2 ^ b.2
  placed : ∀ b : Nat × Nat,
    b.1 ∈ g.pgFreelist b.2 ∨ b ∈ out ∧ g.pgBaseaddr ≤ b.1 ∧ b.1 < g.pgEndaddr →
      b.2 < pageNsizes ∧ g.pgBaseaddr ≤ b.1 ∧ 2 ^ b.2 ∣ b.1 - g.pgBaseaddr ∧
        b.1 + 2 ^ b.2 ≤ g.pgEndaddr
  below : g.pgEndaddr * pageSize ≤ g.pgMap 7 ∧
    (∀ k, 1 ≤ k → k < 7 → g.pgMap (k + 1) ≤ g.pgMap k) ∧ g.pgMap 1 ≤ group

/-- The pages of a block. -/
theorem Pagegroup.mem_block {g : Pagegroup} {p : Nat} (hp : g.pgBaseaddr ≤ p) :
    g.addrOf k i ≤ p ∧ p < g.addrOf k i + 2 ^ k ↔ (p - g.pgBaseaddr) / 2 ^ k = i := by
  rw [Nat.div_eq_iff (Nat.two_pow_pos k)]
  have hpos := Nat.two_pow_pos k
  unfold addrOf
  omega

namespace GroupBooks

variable {g : Pagegroup} {f : Nat → Nat → Prop}

theorem block_end (h : GroupBooks g f pending) (hi : g.Free k i ∨ f k i) :
    g.addrOf k i + 2 ^ k ≤ g.pgEndaddr := by
  have hin := h.buddies.tiles.inside k i hi
  have hle := h.base_le
  unfold Pagegroup.pages at hin
  rw [Nat.add_mul] at hin
  unfold Pagegroup.addrOf
  omega

end GroupBooks

namespace MemInv

theorem partition (h : MemInv s out) (hgroup : group ∈ s.pagegroupList) :
    Partition (s.pagegroup group) group out := by
  have hbooks := h.books group hgroup
  have htile : ∀ b : Nat × Nat, b.1 ∈ (s.pagegroup group).pgFreelist b.2 ∨
      b ∈ out ∧ (s.pagegroup group).pgBaseaddr ≤ b.1 ∧ b.1 < (s.pagegroup group).pgEndaddr →
        ∃ i, b.1 = (s.pagegroup group).addrOf b.2 i ∧
          ((s.pagegroup group).Free b.2 i ∨ inGroup s out group b.2 i) := by
    rintro ⟨a, k⟩ (hfree | ⟨hmem, hle, hlt⟩)
    · obtain ⟨i, rfl⟩ := hbooks.placed k a hfree
      exact ⟨i, rfl, .inl hfree⟩
    · obtain ⟨g, hg, i, hi, hin⟩ := h.inGroup_of_mem hmem
      have hlt' := hin.2
      have hle' := (s.pagegroup g).base_le_addrOf k i
      simp only at hi hlt'
      rw [← hi] at hlt' hle'
      obtain rfl := h.one_group hg hgroup hle' hlt' hle hlt
      exact ⟨i, hi, .inr hin⟩
  refine ⟨hbooks.nodup, ?_, ?_, ?_, (h.below group hgroup).1, hbooks.layout.below,
    (h.below group hgroup).2⟩
  · intro k a ha hmem
    obtain ⟨i, rfl⟩ := hbooks.placed k a ha
    exact hbooks.buddies.apart k i ha ⟨hmem, hbooks.addrOf_lt (.inl ha)⟩
  · intro p hle hlt
    have hp : p - (s.pagegroup group).pgBaseaddr < (s.pagegroup group).pages := by
      unfold Pagegroup.pages
      omega
    obtain ⟨k, hk⟩ := hbooks.buddies.tiles.cover _ hp
    refine ⟨((s.pagegroup group).addrOf k ((p - (s.pagegroup group).pgBaseaddr) / 2 ^ k), k),
      ⟨?_, ?_⟩, ?_⟩
    · exact hk.imp id fun hin => hin.1
    · exact (Pagegroup.mem_block hle).mpr rfl
    · rintro ⟨a, l⟩ ⟨hb, hfrom, hto⟩
      simp only at hfrom hto
      have hin : a ∈ (s.pagegroup group).pgFreelist l ∨
          (a, l) ∈ out ∧ (s.pagegroup group).pgBaseaddr ≤ a ∧
            a < (s.pagegroup group).pgEndaddr := by
        refine hb.imp id fun hmem => ⟨hmem, ?_⟩
        -- a block of another group does not reach into this one
        obtain ⟨g, hg, i, hi, hused⟩ := h.inGroup_of_mem hmem
        have hend := (h.books g hg).block_end (.inr hused)
        have hbase := (s.pagegroup g).base_le_addrOf l i
        have hlt' := hused.2
        simp only at hi hend hlt'
        rw [← hi] at hend hbase hlt'
        obtain rfl := h.one_group hg hgroup (by omega) (by omega) hle hlt
        exact ⟨hbase, hlt'⟩
      obtain ⟨i, hi, htiles⟩ := htile (a, l) hin
      simp only at hi htiles
      rw [hi] at hfrom hto
      have hindex := (Pagegroup.mem_block hle).mp ⟨hfrom, hto⟩
      rw [← hindex] at htiles
      obtain rfl := hbooks.buddies.tiles.single _ l k htiles hk
      rw [hi, hindex]
  · intro b hb
    obtain ⟨i, hi, htiles⟩ := htile b hb
    have hend := hbooks.block_end htiles
    rw [← hi] at hend
    refine ⟨Nat.lt_succ_of_le (hbooks.buddies.order _ _ htiles), ?_, ?_, hend⟩
    · rw [hi]
      exact Pagegroup.base_le_addrOf _ _ _
    · rw [hi, Pagegroup.addrOf, Nat.add_sub_cancel_left]
      exact Nat.dvd_mul_left _ _

/-- When no block is in use the free lists hold the blocks they held at first. -/
theorem restored (h : MemInv s []) (hgroup : group ∈ s.pagegroupList) (order : Nat) :
    ((s.pagegroup group).pgFreelist order).Perm (initialFreelist (s.pagegroup group).pgBaseaddr
      (s.pagegroup group).pages order) := by
  have hbooks := h.books group hgroup
  have hunused : ∀ k i, ¬ inGroup s [] group k i := fun k i hin => absurd hin.1 List.not_mem_nil
  refine (List.perm_ext_iff_of_nodup (hbooks.nodup order) nodup_initial).mpr fun a => ?_
  have hmem : ∀ i, (s.pagegroup group).Free order i ↔
      (s.pagegroup group).pgBaseaddr + i * 2 ^ order ∈
        initialFreelist (s.pagegroup group).pgBaseaddr (s.pagegroup group).pages order := by
    intro i
    rw [hbooks.buddies.free_iff_greatest hunused]
    constructor
    · exact fun hg => (mem_initialFreelist hg.1).mpr hg
    · exact fun hi => (mem_initialFreelist (order_of_mem_initial hi)).mp hi
  constructor
  · intro ha
    obtain ⟨i, rfl⟩ := hbooks.placed order a ha
    exact (hmem i).mp ha
  · intro ha
    obtain ⟨i, rfl⟩ := placed_initial ha
    exact (hmem i).mpr ha

end MemInv

/-- **The buddy allocator partitions memory** as long as the calls stay clear of what the bitmaps
do not say about the leftover blocks: in every state of such a run the free blocks and the blocks
in use partition the pages of each group, `page_freecount` is the size of the free blocks, the
first free lists come back when nothing is in use, and the next call returns or panics because no
order has the size. -/
theorem buddy_partitions (hrun : MemRun (fun s out c => c.Sound s out) out s) :
    (∀ group ∈ s.pagegroupList, Partition (s.pagegroup group) group out) ∧
    (∀ b ∈ out, ∃ group ∈ s.pagegroupList, (s.pagegroup group).pgBaseaddr ≤ b.1 ∧
      b.1 < (s.pagegroup group).pgEndaddr) ∧
    s.pageFreecount = (s.pagegroupList.map fun g => (s.pagegroup g).freePages).sum ∧
    (out = [] → ∀ group ∈ s.pagegroupList, ∀ order, ((s.pagegroup group).pgFreelist order).Perm
      (initialFreelist (s.pagegroup group).pgBaseaddr (s.pagegroup group).pages order)) ∧
    ∀ c : MemCall, c.Legal s out → c.Sound s out →
      (∃ r s', c.run s = .ok (r, s')) ∨ c.run s = .error .panic := by
  have h := hrun.memInv fun _ _ _ hc => hc
  refine ⟨fun group hgroup => h.partition hgroup, ?_, h.count, ?_, ?_⟩
  · intro b hb
    obtain ⟨g, hg, i, hi, hlt⟩ := h.owned b hb
    refine ⟨g, hg, ?_, hlt⟩
    rw [hi]
    exact (s.pagegroup g).base_le_addrOf _ _
  · rintro rfl group hgroup order
    exact h.restored hgroup order
  · intro c hlegal hsound
    refine (h.wp_memCall hlegal hsound).imp ?_ id
    rintro ⟨r, s', hcall, -⟩
    exact ⟨r, s', hcall⟩

/-- Three pages, and the structure and the bitmaps in a fourth. -/
def fourPages : MemCall := .addRange 1048576 1064960

theorem fourPages_good : GoodRange 1048576 1064960 :=
  ⟨by decide, by decide, by decide, by decide⟩

/-- The two pages of the leftover block of order `1` are allocated and freed. -/
theorem leftover_joined : ∃ s, MemRun (fun _ _ _ => True) [] s ∧ ∃ group ∈ s.pagegroupList,
    256 ∈ (s.pagegroup group).pgFreelist 2 ∧ (s.pagegroup group).pgEndaddr = 259 ∧
      ¬ Partition (s.pagegroup group) group [] := by
  have h1 : MemRun (fun _ _ _ => True) [] _ :=
    MemRun.call (c := fourPages) .start ⟨fourPages_good, by simp [pageInit]⟩ trivial rfl
  have h2 : MemRun (fun _ _ _ => True) [(256, 1)] _ :=
    MemRun.call (c := .allocN 2) h1 trivial trivial rfl
  have h3 : MemRun (fun _ _ _ => True) [] _ :=
    MemRun.call (c := .freeN 256 2) h2 ⟨1, rfl, List.mem_cons_self⟩ trivial rfl
  obtain ⟨s, hrun, group, hgroup, hfree, hend⟩ : ∃ s, MemRun (fun _ _ _ => True) [] s ∧
      ∃ group ∈ s.pagegroupList, 256 ∈ (s.pagegroup group).pgFreelist 2 ∧
        (s.pagegroup group).pgEndaddr = 259 :=
    ⟨_, h3, _, List.mem_cons_self, List.mem_cons_self, rfl⟩
  refine ⟨s, hrun, group, hgroup, hfree, hend, fun hpart => ?_⟩
  obtain ⟨-, -, -, hin⟩ := hpart.placed (256, 2) (.inl hfree)
  rw [hend] at hin
  exact absurd hin (by decide)

/-- The state after a call that returns. -/
def MemCall.next (c : MemCall) (s : PageState) : PageState :=
  match c.run s with
  | .ok (_, s') => s'
  | .error _ => s

/-- One block of the largest order. -/
def oneBlock : PageState := (MemCall.addRange 1048576 1576960).next pageInit

theorem oneBlock_run : MemRun (fun s out c => c.Sound s out) [] oneBlock :=
  MemRun.call (c := .addRange 1048576 1576960) .start
    ⟨⟨by decide, by decide, by decide, by decide⟩, by simp [pageInit]⟩
    ⟨by simp [MemCall.allocates], by simp [MemCall.frees]⟩ rfl

theorem oneBlock_alloc : MemRun (fun s out c => c.Sound s out) [(383, 0)]
    (MemCall.alloc.next oneBlock) := by
  have hnone : ∀ m < 7, oneBlock.withFree m = none := by decide
  have hmarked : Marked oneBlock 0 := by
    intro norder group addr htakes hlt
    have hfound := htakes.found
    rw [hnone norder hlt] at hfound
    cases hfound
  refine MemRun.call (c := .alloc) (r := some 383) oneBlock_run trivial ⟨?_, ?_⟩ rfl
  · intro order horder
    obtain rfl : 0 = order := Option.some.inj horder
    exact hmarked
  · exact fun b hb => absurd hb.symm (Option.some_ne_none b)

/-- The only page in use is freed. -/
theorem MemRun.freed (h : MemRun (fun s out c => c.Sound s out) [(addr, 0)] s)
    (hlast : NotLast s [(addr, 0)] addr 0) :
    ∃ s', MemRun (fun s out c => c.Sound s out) [] s' := by
  have hinv := h.memInv fun _ _ _ hc => hc
  obtain ⟨_, s', hfree, -⟩ := hinv.wp_pageFreeOrder List.mem_cons_self hlast
  have hrun := MemRun.call (c := .free addr) (r := none) h List.mem_cons_self ⟨?_, ?_⟩
    (bind_eq_of_ok hfree)
  · refine ⟨s', ?_⟩
    have hafter : (MemCall.free addr).after none [(addr, 0)] = [] := by
      change [(addr, 0)].erase (addr, 0) = []
      simp
    rw [hafter] at hrun
    exact hrun
  · exact fun order horder => absurd horder.symm (Option.some_ne_none order)
  · intro b hb
    obtain rfl : (addr, 0) = b := Option.some.inj hb
    exact hlast

/-- A page is split off a block of the largest order and joined to it again. -/
theorem buddy_partitions_page : ∃ s s', MemRun (fun s out c => c.Sound s out) [(383, 0)] s ∧
    MemRun (fun s out c => c.Sound s out) [] s' ∧
    (∀ group ∈ s.pagegroupList, Partition (s.pagegroup group) group [(383, 0)]) ∧
    ∀ group ∈ s'.pagegroupList, ∀ order, ((s'.pagegroup group).pgFreelist order).Perm
      (initialFreelist (s'.pagegroup group).pgBaseaddr (s'.pagegroup group).pages order) := by
  have hnone : ∀ r < 7, initialFreelist 256 128 r = [] := by decide
  have hlast : NotLast (MemCall.alloc.next oneBlock) [(383, 0)] 383 0 := by
    intro group hgroup _ _ r hr a ha
    obtain rfl := List.mem_singleton.mp hgroup
    change a ∈ initialFreelist 256 128 r at ha
    rw [hnone r hr] at ha
    exact absurd ha List.not_mem_nil
  obtain ⟨s', hrun⟩ := oneBlock_alloc.freed hlast
  exact ⟨_, _, oneBlock_alloc, hrun, (buddy_partitions oneBlock_alloc).1,
    (buddy_partitions hrun).2.2.2.1 rfl⟩

end CodingSample.Mm
