import CodingSample.Mm.Directories
import CodingSample.Mm.PageCalls

/-!
# Page directories over whole runs

Any number of page directories are made, changed and destroyed. Each one is the map that its own
calls made, no two of them share a table, and no table is lost or freed twice. What
`pt_unmap_range` does is not only what its range says: where both ends are in one table, the whole
table is cleared.
-/

namespace CodingSample.Mm

open Prog

/-! ### Addresses -/

variable {vaddr : Nat}

/-- An address of a page of user memory. -/
structure UserPage (vaddr : Nat) : Prop where
  aligned : vaddr % 4096 = 0
  low : 4194304 ≤ vaddr
  high : vaddr < 3221225472

theorem UserPage.userIndex (h : UserPage vaddr) : UserIndex (vaddrToPdindex vaddr) := by
  have hlow := h.low
  have hhigh := h.high
  constructor
  · simp only [vaddrToPdindex, pageSize, ptEntryCount]
    omega
  · simp only [vaddrToPdindex, pageSize, ptEntryCount]
    omega

/-- The entry of a table and the page that it is for. -/
theorem eq_page_iff (page : Nat) (hi : page / 1024 = vaddrToPdindex vaddr) :
    page % 1024 = vaddrToPtindex vaddr ↔ page = vaddr / 4096 := by
  simp only [vaddrToPdindex, vaddrToPtindex, pageSize, ptEntryCount] at hi ⊢
  omega

/-- Both ends of the range are in one table and the lower end is not where the table begins. -/
def Splits (vlow vhigh : Nat) : Prop :=
  vlow / 4194304 = vhigh / 4194304 ∧ vlow % 4194304 ≠ 0

instance (vlow vhigh : Nat) : Decidable (Splits vlow vhigh) := instDecidableAnd

/-- The pages that `pt_unmap_range` unmaps: those of the range, and with them all pages of the
table that the range splits. -/
def Unmapped (vlow vhigh page : Nat) : Prop :=
  (vlow ≤ page * 4096 ∧ page * 4096 < vhigh) ∨
    (Splits vlow vhigh ∧ page / 1024 = vlow / 4194304)

instance (vlow vhigh : Nat) : DecidablePred (Unmapped vlow vhigh) := fun _ => instDecidableOr

/-- A range of pages of user memory. -/
structure UserRange (vlow vhigh : Nat) : Prop where
  lt : vlow < vhigh
  lowAligned : vlow % 4096 = 0
  highAligned : vhigh % 4096 = 0
  low : 4194304 ≤ vlow
  high : vhigh ≤ 3221225472

/-- An address as the index of its table and the index in the table. -/
theorem exists_index (h : vaddr % 4096 = 0) : ∃ q a, a < 1024 ∧ vaddr = 4096 * (1024 * q + a) ∧
    vaddrToPdindex vaddr = q ∧ vaddrToPtindex vaddr = a := by
  refine ⟨vaddr / 4194304, vaddr / 4096 % 1024, Nat.mod_lt _ (by decide), by omega, ?_, rfl⟩
  exact Nat.div_div_eq_div_mul ..

theorem pdindex_next {q a : Nat} (ha : a < 1024) :
    vaddrToPdindex (4096 * (1024 * q + a) + pageSize * ((ptEntryCount - a) % ptEntryCount)) =
      if a = 0 then q else q + 1 := by
  simp only [vaddrToPdindex, pageSize, ptEntryCount]
  by_cases hzero : a = 0
  · subst hzero
    rw [if_pos rfl]
    omega
  · have hmod : (1024 - a) % 1024 = 1024 - a := Nat.mod_eq_of_lt (by omega)
    rw [if_neg hzero, hmod]
    omega

theorem pdindex_down (q a : Nat) :
    vaddrToPdindex (4096 * (1024 * q + a) - pageSize * a) = q := by
  simp only [vaddrToPdindex, pageSize, ptEntryCount]
  omega

/-- The map without what it has for some pages. -/
def without (m : Nat → UInt32) (p : Nat → Prop) [DecidablePred p] : Nat → UInt32 := fun page =>
  if p page then 0 else m page

section

/-! ### Calls of the allocator -/

variable {s : PtState} {Q : Unit → PtState → Prop}

theorem wp_ptCheck {test : Bool} (htest : test = true) (hQ : Q () s) :
    wp (ptCheck test) Q s :=
  wp_check.mpr ⟨htest, hQ⟩

theorem wp_ptPageFree {order page : Nat} (hmem : (page, order) ∈ s.out)
    (hQ : Q () { s with out := s.out.erase (page, order) }) : wp (ptPageFree order page) Q s := by
  rw [ptPageFree, wp_bind, wp_get, wp_bind, wp_check, wp_modify]
  exact ⟨decide_eq_true hmem, hQ⟩

/-- What `page_alloc` answers: no page of the block is in use. -/
def Fresh (s : PtState) (order : Nat) (fresh : Option Nat) : Prop :=
  ∀ page, fresh = some page → ∀ b ∈ s.out, ApartBlocks (page, order) b

/-- Two blocks in use have no page in common. -/
theorem MemInv.apartBlocks {p : PageState} {out : InUse} (h : MemInv p out) {b c : Nat × Nat}
    (hb : b ∈ out) (hc : c ∈ out) (hne : b ≠ c) : ApartBlocks b c := by
  obtain ⟨g, hg, i, hi, hin⟩ := h.inGroup_of_mem hb
  have hbase : (p.pagegroup g).pgBaseaddr ≤ b.1 := by
    rw [hi]
    exact Pagegroup.base_le_addrOf ..
  have hend : b.1 + 2 ^ b.2 ≤ (p.pagegroup g).pgEndaddr := by
    rw [hi]
    exact (h.books g hg).block_end (Or.inr hin)
  have hb2 := Nat.two_pow_pos b.2
  have hc2 := Nat.two_pow_pos c.2
  by_contra hover
  rw [ApartBlocks, not_or, not_le, not_le] at hover
  -- the later one of the two first pages is in both blocks
  have hcover := (h.partition hg).cover (max b.1 c.1) (by omega) (by omega)
  exact hne (hcover.unique ⟨Or.inr hb, by omega, by omega⟩ ⟨Or.inr hc, by omega, by omega⟩)

/-- What the page allocator answers is fresh, if the blocks of the directories are among those in
use. -/
theorem fresh_of_memRun {s : PtState} {p p' : PageState} {out : InUse} {c : MemCall} {order : Nat}
    {r : Option Nat} (hrun : MemRun (fun s out c => c.Sound s out) out p)
    (hlegal : c.Legal p out) (hsound : c.Sound p out) (horder : c.allocates = some order)
    (hcall : c.run p = .ok (r, p')) (hsub : s.out ⊆ out) : Fresh s order r := by
  rintro page rfl b hb
  have hinv := (hrun.call hlegal hsound hcall).memInv fun _ _ _ hc => hc
  have hfrees : c.frees = none := by
    cases c with
    | addRange start stop => cases horder
    | alloc => rfl
    | allocN npages => rfl
    | free addr => cases horder
    | freeN addr npages => cases horder
  have hafter : c.after (some page) out = (page, order) :: out := by
    unfold MemCall.after
    rw [hfrees, horder]
  rw [hafter] at hinv
  have hne : (page, order) ≠ b := by
    rintro rfl
    exact (List.nodup_cons.mp hinv.outNodup).1 (hsub hb)
  exact hinv.apartBlocks List.mem_cons_self (List.mem_cons_of_mem _ (hsub hb)) hne

end

section

variable [KernelTables]

/-! ### The functions -/

variable {s : PtState} {maps : PtMaps} {m : Nat → UInt32} {pd i n vaddr vlow vhigh : Nat}
  {paddr pdflags ptflags : UInt32} {fresh : Option Nat}

/-- Entries of one table are cleared, or there is no such table. -/
theorem wp_onTable (h : Paged (Function.update maps pd (some m)) s) (huser : UserIndex i)
    {f : (Nat → UInt32) → Nat → UInt32} {p : Nat → Prop} [DecidablePred p]
    (hf : ∀ entries k, f entries k = if p k then 0 else entries k) :
    wp (onTable pd i f) (fun _ s' => Paged (Function.update maps pd (some
      (without m fun page => page / 1024 = i ∧ p (page % 1024)))) s') s := by
  rw [onTable, wp_modify]
  by_cases hpresent : (s.pagedir pd).present i = true
  · have howns := h.present_of_entry (Function.update_self ..) huser hpresent
    rw [if_pos hpresent]
    apply h.writeTable howns
    · rintro page rfl
      rw [hf, without, h.entry_of_owns howns]
      exact ite_congr (by simp) (fun _ => rfl) fun _ => rfl
    · intro page hi
      rw [without, if_neg fun hp => hi hp.1]
  · rw [if_neg hpresent]
    apply h.congr
    intro page hpage
    by_cases hi : page / 1024 = i
    · subst hi
      rw [without, h.eq_zero_of_absent hpage hpresent, ite_self]
    · rw [without, if_neg fun hp => hi hp.1]

/-- One table of the range is freed, if the directory has it. -/
theorem wp_freeTable (h : Paged (Function.update maps pd (some m)) s) (huser : UserIndex i) :
    wp (freeTable pd i) (fun _ s' => Paged (Function.update maps pd (some
      (without m fun page => page / 1024 = i))) s') s := by
  rw [freeTable, wp_bind, wp_get]
  by_cases hpresent : (s.pagedir pd).present i = true
  · have howns := h.present_of_entry (Function.update_self ..) huser hpresent
    simp only [hpresent, if_true]
    rw [wp_bind]
    apply wp_ptPageFree ((h.owned _).mpr ⟨pd, i, howns⟩)
    rw [wp_modify]
    have hdrop := h.dropTable (Function.update_self ..) howns rfl
    rw [Function.update_idem] at hdrop
    exact hdrop
  · simp only [hpresent]
    apply wp_pure.mpr
    apply h.congr
    intro page hpage
    by_cases hi : page / 1024 = i
    · subst hi
      rw [without, h.eq_zero_of_absent hpage hpresent, ite_self]
    · rw [without, if_neg hi]

/-- The loop of `pt_unmap_range`. -/
theorem wp_freeTables (h : Paged (Function.update maps pd (some m)) s)
    (huser : ∀ k, i ≤ k → k < i + n → UserIndex k) :
    wp (each (freeTable pd) (List.range' i n)) (fun _ s' => Paged (Function.update maps pd (some
      (without m fun page => i ≤ page / 1024 ∧ page / 1024 < i + n))) s') s := by
  induction n generalizing i m s with
  | zero =>
      apply wp_pure.mpr
      apply h.congr
      intro page _
      rw [without, if_neg (by omega)]
  | succ n ih =>
      rw [List.range'_succ, each]
      refine wp_bind_of (wp_freeTable h (huser i (le_refl i) (by omega))) fun _ s₁ h₁ => ?_
      refine wp_mono (ih h₁ fun k hk hlt => huser k (by omega) (by omega)) fun _ s₂ h₂ => ?_
      apply h₂.congr
      intro page _
      unfold without
      split_ifs <;> first | rfl | omega

theorem wp_ptUnmap (h : Paged (Function.update maps pd (some m)) s) (huser : UserPage vaddr) :
    wp (ptUnmap pd vaddr) (fun _ s' => Paged (Function.update maps pd (some
      (without m fun page => page = vaddr / 4096))) s') s := by
  rw [ptUnmap]
  refine wp_bind.mpr (wp_ptCheck (decide_eq_true huser.aligned) ?_)
  refine wp_bind.mpr (wp_ptCheck (decide_eq_true ⟨huser.low, huser.high⟩) ?_)
  refine wp_mono (wp_onTable h huser.userIndex (p := fun k => k = vaddrToPtindex vaddr)
    fun entries k => Function.update_apply ..) fun _ s' h' => ?_
  apply h'.congr
  intro page _
  have hiff : (page / 1024 = vaddrToPdindex vaddr ∧ page % 1024 = vaddrToPtindex vaddr) ↔
      page = vaddr / 4096 := by
    simp only [vaddrToPdindex, vaddrToPtindex, pageSize, ptEntryCount]
    omega
  exact if_congr hiff rfl rfl

theorem wp_clearPart (h : Paged (Function.update maps pd (some m)) s) {first stop : Nat}
    (huser : vaddrToPtindex vaddr ≠ 0 → UserIndex (vaddrToPdindex vaddr)) :
    wp (clearPart pd vaddr first stop) (fun _ s' => Paged (Function.update maps pd (some
      (without m fun page => vaddrToPtindex vaddr ≠ 0 ∧ page / 1024 = vaddrToPdindex vaddr ∧
        first ≤ page % 1024 ∧ page % 1024 < stop))) s') s := by
  rw [clearPart]
  by_cases hk : vaddrToPtindex vaddr = 0
  · rw [if_neg (not_not.mpr hk)]
    apply wp_pure.mpr
    apply h.congr
    intro page _
    rw [without, if_neg fun hp => hp.1 hk]
  · rw [if_pos hk]
    refine wp_mono (wp_onTable h (huser hk) (p := fun k => first ≤ k ∧ k < stop)
      fun entries k => rfl) fun _ s' h' => ?_
    apply h'.congr
    intro page _
    exact if_congr (and_iff_right hk).symm rfl rfl

theorem wp_ptUnmapRange (h : Paged (Function.update maps pd (some m)) s)
    (hrange : UserRange vlow vhigh) :
    wp (ptUnmapRange pd vlow vhigh) (fun _ s' => Paged (Function.update maps pd (some
      (without m (Unmapped vlow vhigh)))) s') s := by
  obtain ⟨hlt, hlowAligned, hhighAligned, hlow, hhigh⟩ := hrange
  obtain ⟨q, a, ha, hvlow, hq, hqa⟩ := exists_index hlowAligned
  obtain ⟨r, b, hb, hvhigh, hr, hrb⟩ := exists_index hhighAligned
  have haligned : (pageAligned vlow && pageAligned vhigh) = true := by
    simp [pageAligned, hlowAligned, hhighAligned]
  rw [ptUnmapRange]
  refine wp_bind.mpr (wp_ptCheck (decide_eq_true hlt) ?_)
  refine wp_bind.mpr (wp_ptCheck haligned ?_)
  refine wp_bind.mpr (wp_ptCheck (decide_eq_true ⟨hlow, hhigh⟩) ?_)
  have hfirst : vaddrToPtindex vlow ≠ 0 → UserIndex (vaddrToPdindex vlow) := by
    intro _
    rw [hq, UserIndex]
    omega
  have hlast : vaddrToPtindex vhigh ≠ 0 → UserIndex (vaddrToPdindex vhigh) := by
    rw [hr, hrb, UserIndex]
    omega
  refine wp_bind_of (wp_clearPart h hfirst) fun _ s₁ h₁ => ?_
  refine wp_bind_of (wp_clearPart h₁ hlast) fun _ s₂ h₂ => ?_
  have hnext : vaddrToPdindex (vlow + pageSize * ((ptEntryCount - vaddrToPtindex vlow) %
      ptEntryCount)) = if a = 0 then q else q + 1 := by
    rw [hqa, hvlow, pdindex_next ha]
  have hdown : vaddrToPdindex (vhigh - pageSize * vaddrToPtindex vhigh) = r := by
    rw [hrb, hvhigh, pdindex_down]
  simp only [hnext, hdown]
  refine wp_mono (wp_freeTables h₂ ?_) fun _ s₃ h₃ => ?_
  · intro k hk hlt
    rw [UserIndex]
    split_ifs at hk hlt <;> omega
  · apply h₃.congr
    intro page _
    rw [hq, hqa, hr, hrb]
    -- with both ends in one table the two parts overlap, and together they are the table
    have hpart : (a ≠ 0 ∧ page / 1024 = q ∧ a ≤ page % 1024 ∧ page % 1024 < ptEntryCount) ∨
        (b ≠ 0 ∧ page / 1024 = r ∧ 0 ≤ page % 1024 ∧ page % 1024 < b) ∨
        ((if a = 0 then q else q + 1) ≤ page / 1024 ∧ page / 1024 <
          (if a = 0 then q else q + 1) + (r - if a = 0 then q else q + 1)) ↔
        Unmapped vlow vhigh page := by
      rw [Unmapped, Splits, ptEntryCount]
      split_ifs <;> omega
    simp only [without, ← hpart]
    split_ifs <;> first | rfl | omega

/-- What `pt_map` is called with: a page of user memory, an aligned frame and flags that have
`PD_PRESENT`. -/
structure UserFlags (paddr pdflags ptflags : UInt32) : Prop where
  aligned : paddr.toNat % 4096 = 0
  present : pdflags &&& ptPresent ≠ 0
  pd : pdflags &&& ~~~pageMask = pdflags
  pt : ptflags &&& ~~~pageMask = ptflags

theorem wp_ptMapTable (h : Paged maps s) (hm : maps pd = some m) (huser : UserIndex i)
    (hflags : UserFlags paddr pdflags ptflags) (hfresh : Fresh s 0 fresh) :
    wp (ptMapTable pd i pdflags fresh) (fun r s' => Paged maps s' ∧
      (r = none → fresh = none) ∧ ∀ t, r = some t → s'.Owns pd i t) s := by
  rw [ptMapTable, wp_bind, wp_get]
  by_cases hpresent : (s.pagedir pd).present i = true
  · have howns := h.present_of_entry hm huser hpresent
    simp only [hpresent, if_true]
    rw [wp_bind, wp_modify, wp_pure]
    refine ⟨h.addFlags howns hflags.pd, nofun, ?_⟩
    rintro t ⟨⟩
    refine PtState.owns_setPde_self.mpr ⟨h.mem_dir hm, huser, ?_, rfl⟩
    rw [UInt32.or_comm]
    exact present_or_flags (of_decide_eq_true hpresent)
  · simp only [hpresent]
    change wp (ptPageAlloc 0 fresh >>= _) _ _
    rw [wp_bind, ptPageAlloc, wp_bind, wp_modify, wp_pure]
    cases fresh with
    | none =>
        exact wp_pure.mpr ⟨h, fun _ => rfl, nofun⟩
    | some t =>
        simp only []
        refine wp_bind.mpr (wp_ptCheck (decide_eq_true hflags.pd) ?_)
        rw [wp_bind, wp_modify, wp_bind, wp_modify, wp_pure]
        obtain ⟨hpaged, howns⟩ := h.addTable hm huser (Bool.eq_false_iff.mpr hpresent)
          (hfresh t rfl) hflags.pd hflags.present rfl
        refine ⟨hpaged, nofun, ?_⟩
        rintro _ ⟨⟩
        exact howns

theorem wp_ptMap (h : Paged (Function.update maps pd (some m)) s) (huser : UserPage vaddr)
    (hflags : UserFlags paddr pdflags ptflags) (hfresh : Fresh s 0 fresh) :
    wp (ptMap pd vaddr paddr pdflags ptflags fresh) (fun r s' =>
      (r = 0 ∧ Paged (Function.update maps pd (some
        (Function.update m (vaddr / 4096) (paddr ||| ptflags)))) s') ∨
      (r = -enomem ∧ fresh = none ∧ Paged (Function.update maps pd (some m)) s')) s := by
  have haligned : (pageAligned vaddr && pageAligned paddr.toNat) = true := by
    simp [pageAligned, huser.aligned, hflags.aligned]
  rw [ptMap]
  refine wp_bind.mpr (wp_ptCheck haligned ?_)
  refine wp_bind.mpr (wp_ptCheck (decide_eq_true ⟨huser.low, huser.high⟩) ?_)
  refine wp_bind_of (wp_ptMapTable h (Function.update_self ..) huser.userIndex hflags hfresh) ?_
  rintro r s₁ ⟨h₁, hnone, howns⟩
  cases r with
  | none =>
      exact wp_pure.mpr (Or.inr ⟨rfl, hnone rfl, h₁⟩)
  | some t =>
      simp only []
      refine wp_bind.mpr (wp_ptCheck (decide_eq_true hflags.pt) ?_)
      rw [wp_bind, wp_modify, wp_pure]
      have howns := howns t rfl
      refine Or.inl ⟨rfl, h₁.writeTable howns ?_ ?_⟩
      · intro page hi
        rw [Function.update_apply, Function.update_apply]
        refine if_ctx_congr (eq_page_iff page hi) (fun _ => rfl) fun _ => ?_
        exact h₁.entry_of_owns (hi ▸ howns)
      · intro page hi
        rw [Function.update_of_ne]
        rintro rfl
        exact hi rfl

theorem wp_ptCreatePagedir (h : Paged maps s) (hfresh : Fresh s 1 fresh) :
    wp (ptCreatePagedir fresh) (fun r s' => r = fresh ∧ (r = none → Paged maps s') ∧
      ∀ pd, r = some pd → Paged (Function.update maps pd (some fun _ => 0)) s') s := by
  rw [ptCreatePagedir, wp_bind, ptPageAlloc, wp_bind, wp_modify, wp_pure]
  cases fresh with
  | none =>
      exact wp_pure.mpr ⟨rfl, fun _ => h, nofun⟩
  | some pd =>
      simp only []
      rw [wp_bind, wp_modify, wp_pure]
      have hnone : maps pd = none := by
        by_contra hsome
        rcases hfresh pd rfl _ ((h.dir pd).mpr hsome) with hlt | hlt
        · exact absurd hlt (by simp)
        · exact absurd hlt (by simp)
      refine ⟨rfl, nofun, ?_⟩
      rintro _ ⟨⟩
      exact h.addDir hnone (hfresh pd rfl)

/-- What the loop of `pt_destroy_pagedir` has left when the entries in `rest` are still to come. -/
structure Released (s : PtState) (pd : Nat) (rest : List Nat) (t : PtState) : Prop where
  same : t = { s with out := t.out }
  sub : t.out.Sublist s.out
  nodup : rest.Nodup
  user : ∀ i ∈ rest, UserIndex i
  mem : ∀ b, b ∈ t.out ↔ b ∈ s.out ∧ ∀ i u, i ∉ rest → s.Owns pd i u → b ≠ (u, 0)

theorem wp_releaseTable (h : Paged maps s) (hm : maps pd = some m) {rest : List Nat} {t : PtState}
    (hleft : Released s pd (i :: rest) t) :
    wp (releaseTable pd i) (fun _ t' => Released s pd rest t') t := by
  obtain ⟨hsame, hsub, hnodup, huser, hmem⟩ := hleft
  obtain ⟨hi, hrest⟩ := List.nodup_cons.mp hnodup
  have hdirs : t.pagedir = s.pagedir := by
    rw [hsame]
  have hlater : ∀ k ∈ rest, UserIndex k := fun k hk => huser k (List.mem_cons_of_mem _ hk)
  rw [releaseTable, wp_bind, wp_get, hdirs]
  by_cases hpresent : (s.pagedir pd).present i = true
  · have howns := h.present_of_entry hm (huser i List.mem_cons_self) hpresent
    simp only [hpresent, if_true]
    apply wp_ptPageFree
    · rw [hmem, h.owned]
      refine ⟨⟨pd, i, howns⟩, ?_⟩
      rintro k u hk hu ⟨⟩
      exact hk ((h.alone _ _ _ _ _ howns hu).2 ▸ List.mem_cons_self)
    · refine ⟨?_, List.erase_sublist.trans hsub, hrest, hlater, ?_⟩
      · rw [hsame]
      · intro b
        change b ∈ t.out.erase _ ↔ _
        rw [(hsub.nodup h.nodup).mem_erase_iff, hmem]
        constructor
        · rintro ⟨hne, hb, hfree⟩
          refine ⟨hb, ?_⟩
          intro k u hk hu
          by_cases hki : k = i
          · subst hki
            rw [← hu.table]
            exact hne
          · exact hfree k u (by simp [hki, hk]) hu
        · rintro ⟨hb, hfree⟩
          exact ⟨hfree i _ hi howns, hb, fun k u hk => hfree k u fun hmem =>
            hk (List.mem_cons_of_mem _ hmem)⟩
  · simp only [hpresent]
    refine wp_pure.mpr ⟨hsame, hsub, hrest, hlater, ?_⟩
    intro b
    rw [hmem]
    apply and_congr_right
    intro _
    constructor
    · intro hfree k u hk hu
      by_cases hki : k = i
      · subst hki
        exact absurd hu.present hpresent
      · exact hfree k u (by simp [hki, hk]) hu
    · exact fun hfree k u hk => hfree k u fun hmem => hk (List.mem_cons_of_mem _ hmem)

theorem wp_ptDestroyPagedir (h : Paged maps s) (hm : maps pd = some m) :
    wp (ptDestroyPagedir pd) (fun _ s' => Paged (Function.update maps pd none) s') s := by
  have hstart : Released s pd (List.range' 1 767) s := by
    refine ⟨rfl, List.Sublist.refl _, List.nodup_range', ?_, ?_⟩
    · intro i hi
      rw [List.mem_range'_1] at hi
      rw [UserIndex]
      omega
    · intro b
      refine (and_iff_left ?_).symm
      intro i u hi hu
      have huser := hu.user
      rw [UserIndex] at huser
      rw [List.mem_range'_1] at hi
      omega
  rw [ptDestroyPagedir]
  refine wp_bind.mpr (wp_ptCheck (by decide) ?_)
  refine wp_bind_of (wp_each hstart fun i rest t ht => wp_releaseTable h hm ht) fun _ t ht => ?_
  have hdir : (pd, 1) ∈ t.out := by
    rw [ht.mem]
    exact ⟨h.mem_dir hm, fun _ _ _ _ => by simp⟩
  apply wp_ptPageFree hdir
  have hdrop : Paged (Function.update maps pd none) { s with out := t.out.erase (pd, 1) } := by
    apply h.dropDir (List.erase_sublist.trans ht.sub)
    intro b
    rw [(ht.sub.nodup h.nodup).mem_erase_iff, ht.mem]
    simp only [List.not_mem_nil, not_false_iff, forall_const]
    exact and_left_comm
  rw [ht.same]
  exact hdrop

/-! ### Runs -/

/-- A call on a directory. -/
inductive PtCall where
  | create (fresh : Option Nat)
  | map (pd vaddr : Nat) (paddr pdflags ptflags : UInt32) (fresh : Option Nat)
  | unmap (pd vaddr : Nat)
  | unmapRange (pd vlow vhigh : Nat)
  | destroy (pd : Nat)

namespace PtCall

def run : PtCall → PtProg Int
  | create fresh => ptCreatePagedir fresh >>= fun _ => pure 0
  | map pd vaddr paddr pdflags ptflags fresh => ptMap pd vaddr paddr pdflags ptflags fresh
  | unmap pd vaddr => ptUnmap pd vaddr >>= fun _ => pure 0
  | unmapRange pd vlow vhigh => ptUnmapRange pd vlow vhigh >>= fun _ => pure 0
  | destroy pd => ptDestroyPagedir pd >>= fun _ => pure 0

/-- `page_alloc` gives no page for the table that `pt_map` needs. -/
def NoTable : PtCall → Prop
  | map _ _ _ _ _ fresh => fresh = none
  | _ => False

/-- When a call may be made. -/
def Made (maps : PtMaps) (s : PtState) : PtCall → Prop
  | create fresh => Fresh s 1 fresh
  | map pd vaddr paddr pdflags ptflags fresh =>
      maps pd ≠ none ∧ UserPage vaddr ∧ UserFlags paddr pdflags ptflags ∧ Fresh s 0 fresh
  | unmap pd vaddr => maps pd ≠ none ∧ UserPage vaddr
  | unmapRange pd vlow vhigh => maps pd ≠ none ∧ UserRange vlow vhigh
  | destroy pd => maps pd ≠ none

end PtCall

/-- Change the map of one directory. -/
def PtMaps.change (maps : PtMaps) (pd : Nat) (f : (Nat → UInt32) → Nat → UInt32) : PtMaps :=
  Function.update maps pd ((maps pd).map f)

/-- What the directories map after a call that returned `r`. -/
def PtCall.after (maps : PtMaps) (r : Int) : PtCall → PtMaps
  | create none => maps
  | create (some pd) => Function.update maps pd (some fun _ => 0)
  | map pd vaddr paddr _ ptflags _ =>
      if r = 0 then maps.change pd fun m => Function.update m (vaddr / 4096) (paddr ||| ptflags)
      else maps
  | unmap pd vaddr => maps.change pd fun m => without m fun page => page = vaddr / 4096
  | unmapRange pd vlow vhigh => maps.change pd fun m => without m (Unmapped vlow vhigh)
  | destroy pd => Function.update maps pd none

/-- No directory has been made. -/
def ptStart (pagedir : Nat → Pagedir) (pagetable : Nat → Nat → UInt32) : PtState :=
  ⟨pagedir, pagetable, []⟩

/-- `PtRun s₀ s maps`: a run of calls from `s₀` to `s`, which made the maps. -/
inductive PtRun (s₀ : PtState) : PtState → PtMaps → Prop
  | start : PtRun s₀ s₀ fun _ => none
  | call {s s' : PtState} {maps : PtMaps} {c : PtCall} {r : Int} : PtRun s₀ s maps →
      c.Made maps s → c.run s = .ok (r, s') → PtRun s₀ s' (c.after maps r)

theorem Paged.ofSome (h : Paged maps s) (hm : maps pd = some m) :
    Paged (Function.update maps pd (some m)) s := by
  rw [← hm, Function.update_eq_self]
  exact h

omit [KernelTables] in
theorem PtMaps.change_of_some (hm : maps pd = some m) (f : (Nat → UInt32) → Nat → UInt32) :
    maps.change pd f = Function.update maps pd (some (f m)) := by
  rw [change, hm, Option.map_some]

/-- The step lemma: a call returns, and the directories are the maps that it made. -/
theorem PtCall.wp_run {c : PtCall} (h : Paged maps s) (hmade : c.Made maps s) :
    wp c.run (fun r s' => Paged (c.after maps r) s' ∧ (r = 0 ∨ r = -enomem ∧ c.NoTable)) s := by
  cases c with
  | create fresh =>
      refine wp_bind_of (wp_ptCreatePagedir h hmade) ?_
      rintro r s' ⟨hr, hnone, hsome⟩
      apply wp_pure.mpr
      cases fresh with
      | none => exact ⟨hnone hr, Or.inl rfl⟩
      | some pd => exact ⟨hsome pd hr, Or.inl rfl⟩
  | map pd vaddr paddr pdflags ptflags fresh =>
      obtain ⟨hdir, huser, hflags, hfresh⟩ := hmade
      obtain ⟨m, hm⟩ := Option.ne_none_iff_exists'.mp hdir
      refine wp_mono (wp_ptMap (h.ofSome hm) huser hflags hfresh) ?_
      rintro r s' (⟨rfl, hs'⟩ | ⟨rfl, hnone, hs'⟩)
      · rw [after, if_pos rfl, PtMaps.change_of_some hm]
        exact ⟨hs', Or.inl rfl⟩
      · rw [← hm, Function.update_eq_self] at hs'
        rw [after, if_neg (by decide)]
        exact ⟨hs', Or.inr ⟨rfl, hnone⟩⟩
  | unmap pd vaddr =>
      obtain ⟨hdir, huser⟩ := hmade
      obtain ⟨m, hm⟩ := Option.ne_none_iff_exists'.mp hdir
      refine wp_bind_of (wp_ptUnmap (h.ofSome hm) huser) fun _ s' hs' => ?_
      rw [wp_pure, after, PtMaps.change_of_some hm]
      exact ⟨hs', Or.inl rfl⟩
  | unmapRange pd vlow vhigh =>
      obtain ⟨hdir, hrange⟩ := hmade
      obtain ⟨m, hm⟩ := Option.ne_none_iff_exists'.mp hdir
      refine wp_bind_of (wp_ptUnmapRange (h.ofSome hm) hrange) fun _ s' hs' => ?_
      rw [wp_pure, after, PtMaps.change_of_some hm]
      exact ⟨hs', Or.inl rfl⟩
  | destroy pd =>
      obtain ⟨m, hm⟩ := Option.ne_none_iff_exists'.mp hmade
      refine wp_bind_of (wp_ptDestroyPagedir h hm) fun _ s' hs' => ?_
      exact wp_pure.mpr ⟨hs', Or.inl rfl⟩

theorem paged_ptStart {pagedir : Nat → Pagedir} {pagetable : Nat → Nat → UInt32} :
    Paged (fun _ => none) (ptStart pagedir pagetable) := by
  have hnone : ∀ pd i t, ¬ (ptStart pagedir pagetable).Owns pd i t :=
    fun _ _ _ howns => absurd howns.dir List.not_mem_nil
  constructor
  · exact .nil
  · exact fun _ => iff_of_false List.not_mem_nil fun hsome => hsome rfl
  · exact fun _ hb => absurd hb List.not_mem_nil
  · exact fun _ => iff_of_false List.not_mem_nil fun ⟨_, _, howns⟩ => hnone _ _ _ howns
  · exact fun _ _ _ _ _ howns => absurd howns (hnone _ _ _)
  · exact fun _ _ _ howns => absurd howns (hnone _ _ _)
  · exact fun _ hsome => absurd rfl hsome
  · exact fun _ _ hsome => nomatch hsome

/-- The run lemma. -/
theorem PtRun.paged {pagedir : Nat → Pagedir} {pagetable : Nat → Nat → UInt32}
    (h : PtRun (ptStart pagedir pagetable) s maps) : Paged maps s := by
  induction h with
  | start => exact paged_ptStart
  | call _ hmade hrun ih => exact ((wp_of_eq hrun).mp (PtCall.wp_run ih hmade)).1

/-- **The page directories in every state of every run.** Each directory in use has for each page
of user memory the entry that its own calls gave it, and `pt_unmap_range` takes from it the pages
of the range, with the whole table where the range splits one. For kernel memory it is the
template, the table that the processor finds in an entry is the one that the kernel writes, the
blocks in use are the directories and their tables, and no table has two owners. The next call
returns and keeps all of this, and no page is freed that is not in use. The answers that `Fresh`
asks for are those of the page allocator in its own runs. -/
theorem page_directories {pagedir : Nat → Pagedir} {pagetable : Nat → Nat → UInt32}
    (hrun : PtRun (ptStart pagedir pagetable) s maps) :
    (∀ pd m, maps pd = some m → ∀ page, UserIndex (page / 1024) → s.entry pd page = m page) ∧
    (∀ pd, maps pd ≠ none → ∀ i, ¬ UserIndex i →
      (s.pagedir pd).pdPhysical i = KernelTables.templatePagedir.pdPhysical i ∧
        (s.pagedir pd).pdVirtual i = KernelTables.templatePagedir.pdVirtual i) ∧
    (∀ pd i t, s.Owns pd i t → (s.pagedir pd).pdPhysical i &&& pageMask = ptVirtToPhys t) ∧
    s.out.Pairwise ApartBlocks ∧
    (∀ b, b ∈ s.out ↔ (∃ pd, maps pd ≠ none ∧ b = (pd, 1)) ∨ ∃ pd i t, s.Owns pd i t ∧ b = (t, 0)) ∧
    (∀ pd pd' i i' t, s.Owns pd i t → s.Owns pd' i' t → pd = pd' ∧ i = i') ∧
    (∀ c : PtCall, c.Made maps s → ∃ r s', c.run s = .ok (r, s') ∧
      (r = 0 ∨ r = -enomem ∧ c.NoTable) ∧
      PtRun (ptStart pagedir pagetable) s' (c.after maps r)) ∧
    ∀ (p p' : PageState) (out : InUse) (c : MemCall) (order : Nat) (r : Option Nat),
      MemRun (fun p out c => c.Sound p out) out p → c.Legal p out → c.Sound p out →
      c.allocates = some order → c.run p = .ok (r, p') → s.out ⊆ out → Fresh s order r := by
  have h := hrun.paged
  refine ⟨h.entry, h.kernel, h.frame, h.apart, ?_, h.alone, ?_, ?_⟩
  · rintro ⟨page, order⟩
    constructor
    · intro hmem
      rcases h.order _ hmem with rfl | rfl
      · obtain ⟨pd, i, howns⟩ := (h.owned page).mp hmem
        exact Or.inr ⟨pd, i, page, howns, rfl⟩
      · exact Or.inl ⟨page, (h.dir page).mp hmem, rfl⟩
    · rintro (⟨pd, hsome, ⟨⟩⟩ | ⟨pd, i, t, howns, ⟨⟩⟩)
      · exact (h.dir _).mpr hsome
      · exact (h.owned _).mpr ⟨pd, i, howns⟩
  · intro c hmade
    obtain ⟨r, s', heq, -, hr⟩ := PtCall.wp_run h hmade
    exact ⟨r, s', heq, hr, hrun.call hmade heq⟩
  · intro p p' out c order r hmem hlegal hsound horder hcall hsub
    exact fresh_of_memRun hmem hlegal hsound horder hcall hsub

end

/-- No page of kernel memory is mapped. -/
@[reducible] def noKernel : KernelTables :=
  ⟨⟨fun _ => 0, fun _ => 0⟩, fun _ => 0, fun _ _ =>
    decide_eq_false (show ¬ (0 : UInt32) &&& ptPresent ≠ 0 by decide)⟩

/-- A page is mapped, and then the page after it is unmapped with the range that has only this one:
both are gone. -/
theorem page_directories_split : ∃ s s' maps, @PtRun noKernel
    (ptStart (fun _ => ⟨fun _ => 0, fun _ => 0⟩) fun _ _ => 0) s maps ∧ s.entry 10 1024 = 4103 ∧
    @PtCall.run noKernel (.unmapRange 10 4198400 4202496) s = .ok (0, s') ∧
      s'.entry 10 1024 = 0 := by
  let := noKernel
  have hcreate : PtRun (ptStart (fun _ => ⟨fun _ => 0, fun _ => 0⟩) fun _ _ => 0) _ _ :=
    .call (c := .create (some 10)) .start (by rintro _ ⟨⟩ b hb; cases hb) rfl
  obtain ⟨-, -, -, -, -, -, hnext, -⟩ := page_directories hcreate
  obtain ⟨r, s, -, hr, hmap⟩ := hnext (.map 10 4194304 4096 7 7 (some 20)) ⟨by simp [PtCall.after],
    ⟨rfl, by decide, by decide⟩, ⟨rfl, by decide, rfl, rfl⟩, by
      rintro _ ⟨⟩ b hb
      rw [List.mem_singleton.mp hb]
      exact Or.inr (by decide)⟩
  have hzero : r = 0 := hr.resolve_right fun hnone => nomatch hnone.2
  subst hzero
  obtain ⟨hentry, -, -, -, -, -, hnext, -⟩ := page_directories hmap
  obtain ⟨r', s', hcall, hr', hunmap⟩ := hnext (.unmapRange 10 4198400 4202496)
    ⟨by simp [PtCall.after, PtMaps.change], ⟨by decide, rfl, rfl, by decide, by decide⟩⟩
  have hzero' : r' = 0 := hr'.resolve_right fun hnone => hnone.2
  subst hzero'
  refine ⟨s, s', _, hmap, ?_, hcall, ?_⟩
  · exact hentry 10 _ rfl 1024 (by decide)
  · exact (page_directories hunmap).1 10 _ rfl 1024 (by decide)

end CodingSample.Mm
