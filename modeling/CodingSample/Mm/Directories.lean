import CodingSample.Mm.Pagetable

/-!
# The tables of page directories

Each directory in use is a map from the pages of user memory to entries, and each block that the
allocator gave is a directory or the table of one entry of one directory. What is written to a
table or to an entry of a directory changes the map of this directory and no other.
-/

namespace CodingSample.Mm

/-! ### Flags -/

theorem or_and_pageMask (a b c : UInt32) : (a ||| b) &&& c = (a &&& c) ||| (b &&& c) := by
  apply UInt32.eq_of_toBitVec_eq
  simp only [UInt32.toBitVec_and, UInt32.toBitVec_or]
  ext k hk
  simp only [BitVec.getElem_and, BitVec.getElem_or, Bool.and_or_distrib_right]

/-- The flags of an entry are below its frame. -/
theorem frame_or_flags {physical flags : UInt32} (h : flags &&& ~~~pageMask = flags) :
    (physical ||| flags) &&& pageMask = physical &&& pageMask := by
  have hzero : flags &&& pageMask = 0 := by
    rw [← h, UInt32.and_assoc]
    have hmask : ~~~pageMask &&& pageMask = 0 := by decide
    rw [hmask, UInt32.and_zero]
  rw [or_and_pageMask, hzero, UInt32.or_zero]

theorem present_or_flags {physical flags : UInt32} (h : flags &&& ptPresent ≠ 0) :
    (physical ||| flags) &&& ptPresent ≠ 0 := by
  rw [or_and_pageMask, Ne, UInt32.or_eq_zero_iff]
  exact fun hzero => h hzero.2

theorem frame_ptVirtToPhys [KernelTables] (page : Nat) :
    ptVirtToPhys page &&& pageMask = ptVirtToPhys page := by
  rw [ptVirtToPhys, UInt32.and_assoc, UInt32.and_self]

/-! ### Tables and their owners -/

/-- Blocks that have no page in common. -/
def ApartBlocks (b c : Nat × Nat) : Prop := b.1 + 2 ^ b.2 ≤ c.1 ∨ c.1 + 2 ^ c.2 ≤ b.1

namespace PtState

/-- The page `t` is the table of the directory `pd` for the entry `i`. -/
structure Owns (s : PtState) (pd i t : Nat) : Prop where
  dir : (pd, 1) ∈ s.out
  user : UserIndex i
  present : (s.pagedir pd).present i = true
  table : (s.pagedir pd).pdVirtual i = t

/-- The entry of a directory for a page, zero if there is no table. -/
def entry (s : PtState) (pd page : Nat) : UInt32 :=
  let d := s.pagedir pd
  if d.present (page / 1024) then s.pagetable (d.pdVirtual (page / 1024)) (page % 1024) else 0

variable {s : PtState} {pd pd' i i' t u page : Nat} {physical : UInt32} {entries : Nat → UInt32}

@[simp] theorem out_setTable : (s.setTable t entries).out = s.out := rfl

@[simp] theorem out_setPde : (s.setPde pd i physical t).out = s.out := rfl

/-- The owners depend on the directories in use and not on the tables. -/
theorem owns_out {out : List (Nat × Nat)} (hmem : (pd, 1) ∈ out ↔ (pd, 1) ∈ s.out) :
    Owns { s with out := out } pd i u ↔ s.Owns pd i u :=
  ⟨fun ⟨hdir, huser, hpresent, htable⟩ => ⟨hmem.mp hdir, huser, hpresent, htable⟩,
    fun ⟨hdir, huser, hpresent, htable⟩ => ⟨hmem.mpr hdir, huser, hpresent, htable⟩⟩

theorem owns_setTable : (s.setTable t entries).Owns pd i u ↔ s.Owns pd i u :=
  ⟨fun ⟨hdir, huser, hpresent, htable⟩ => ⟨hdir, huser, hpresent, htable⟩,
    fun ⟨hdir, huser, hpresent, htable⟩ => ⟨hdir, huser, hpresent, htable⟩⟩

theorem entry_setTable_self (h : s.Owns pd (page / 1024) t) :
    (s.setTable t entries).entry pd page = entries (page % 1024) := by
  have hself : (s.setTable t entries).pagetable t = entries := Function.update_self ..
  have hpresent : ((s.setTable t entries).pagedir pd).present (page / 1024) = true := h.present
  have htable : ((s.setTable t entries).pagedir pd).pdVirtual (page / 1024) = t := h.table
  simp only [entry]
  rw [if_pos hpresent, htable, hself]

theorem entry_setTable_of_not_owns (hdir : (pd, 1) ∈ s.out) (huser : UserIndex (page / 1024))
    (h : ¬ s.Owns pd (page / 1024) t) : (s.setTable t entries).entry pd page = s.entry pd page := by
  change ite ((s.pagedir pd).present (page / 1024) = true) _ _ = ite _ _ _
  by_cases hpresent : (s.pagedir pd).present (page / 1024) = true
  · have hne : (s.pagedir pd).pdVirtual (page / 1024) ≠ t :=
      fun heq => h ⟨hdir, huser, hpresent, heq⟩
    rw [if_pos hpresent, if_pos hpresent]
    exact congrFun (Function.update_of_ne hne _ _) _
  · rw [if_neg hpresent, if_neg hpresent]

theorem pdPhysical_setPde_self :
    ((s.setPde pd i physical t).pagedir pd).pdPhysical i = physical := by
  simp [setPde, setPagedir]

theorem pdVirtual_setPde_self : ((s.setPde pd i physical t).pagedir pd).pdVirtual i = t := by
  simp [setPde, setPagedir]

theorem pde_setPde_of_ne (h : ¬ (pd' = pd ∧ i' = i)) :
    ((s.setPde pd i physical t).pagedir pd').pdPhysical i' = (s.pagedir pd').pdPhysical i' ∧
      ((s.setPde pd i physical t).pagedir pd').pdVirtual i' = (s.pagedir pd').pdVirtual i' := by
  rw [setPde, setPagedir]
  by_cases hpd : pd' = pd
  · subst hpd
    have hi : i' ≠ i := fun heq => h ⟨rfl, heq⟩
    simp [hi]
  · simp [hpd]

theorem present_setPde_of_ne (h : ¬ (pd' = pd ∧ i' = i)) :
    ((s.setPde pd i physical t).pagedir pd').present i' = (s.pagedir pd').present i' := by
  rw [Pagedir.present, (pde_setPde_of_ne h).1, Pagedir.present]

theorem owns_setPde_of_ne (h : ¬ (pd' = pd ∧ i' = i)) :
    (s.setPde pd i physical t).Owns pd' i' u ↔ s.Owns pd' i' u := by
  constructor
  · rintro ⟨hdir, huser, hpresent, htable⟩
    rw [present_setPde_of_ne h] at hpresent
    rw [(pde_setPde_of_ne h).2] at htable
    exact ⟨hdir, huser, hpresent, htable⟩
  · rintro ⟨hdir, huser, hpresent, htable⟩
    rw [← present_setPde_of_ne h] at hpresent
    rw [← (pde_setPde_of_ne h).2] at htable
    exact ⟨hdir, huser, hpresent, htable⟩

theorem owns_setPde_self : (s.setPde pd i physical t).Owns pd i u ↔
    (pd, 1) ∈ s.out ∧ UserIndex i ∧ physical &&& ptPresent ≠ 0 ∧ t = u := by
  constructor
  · rintro ⟨hdir, huser, hpresent, htable⟩
    rw [Pagedir.present, pdPhysical_setPde_self] at hpresent
    rw [pdVirtual_setPde_self] at htable
    exact ⟨hdir, huser, of_decide_eq_true hpresent, htable⟩
  · rintro ⟨hdir, huser, hpresent, htable⟩
    refine ⟨hdir, huser, ?_, ?_⟩
    · rw [Pagedir.present, pdPhysical_setPde_self]
      exact decide_eq_true hpresent
    · rw [pdVirtual_setPde_self, htable]

theorem entry_setPde_of_ne (h : ¬ (pd' = pd ∧ page / 1024 = i)) :
    (s.setPde pd i physical t).entry pd' page = s.entry pd' page := by
  have hpresent : ((s.setPde pd i physical t).pagedir pd').present (page / 1024) =
      (s.pagedir pd').present (page / 1024) := present_setPde_of_ne h
  have htable : ((s.setPde pd i physical t).pagedir pd').pdVirtual (page / 1024) =
      (s.pagedir pd').pdVirtual (page / 1024) := (pde_setPde_of_ne h).2
  simp only [entry]
  rw [hpresent, htable]
  rfl

end PtState

/-! ### The invariant -/

/-- What the directories map: an entry for each page, zero where nothing is mapped. -/
abbrev PtMaps := Nat → Option (Nat → UInt32)

theorem update_ne_none {maps : PtMaps} {pd : Nat} {m : Nat → UInt32} (hm : maps pd = some m)
    (m' : Nat → UInt32) (pd' : Nat) :
    Function.update maps pd (some m') pd' ≠ none ↔ maps pd' ≠ none := by
  by_cases hpd : pd' = pd
  · subst hpd
    simp [hm]
  · rw [Function.update_of_ne hpd]

variable [KernelTables]

/-- The directories map what `maps` says. Each block in use is a directory or the table of one
entry of one directory. -/
structure Paged (maps : PtMaps) (s : PtState) : Prop where
  apart : s.out.Pairwise ApartBlocks
  dir : ∀ pd, (pd, 1) ∈ s.out ↔ maps pd ≠ none
  order : ∀ b ∈ s.out, b.2 = 0 ∨ b.2 = 1
  owned : ∀ t, (t, 0) ∈ s.out ↔ ∃ pd i, s.Owns pd i t
  alone : ∀ pd pd' i i' t, s.Owns pd i t → s.Owns pd' i' t → pd = pd' ∧ i = i'
  frame : ∀ pd i t, s.Owns pd i t → (s.pagedir pd).pdPhysical i &&& pageMask = ptVirtToPhys t
  kernel : ∀ pd, maps pd ≠ none → ∀ i, ¬ UserIndex i →
    (s.pagedir pd).pdPhysical i = KernelTables.templatePagedir.pdPhysical i ∧
      (s.pagedir pd).pdVirtual i = KernelTables.templatePagedir.pdVirtual i
  entry : ∀ pd m, maps pd = some m → ∀ page, UserIndex (page / 1024) → s.entry pd page = m page

namespace Paged

variable {s : PtState} {maps : PtMaps} {m : Nat → UInt32} {pd i t : Nat}
  {flags : UInt32}

theorem nodup (h : Paged maps s) : s.out.Nodup := by
  apply h.apart.imp
  rintro b _ hb rfl
  have hpos := Nat.two_pow_pos b.2
  rcases hb with hb | hb
  · omega
  · omega

theorem mem_dir (h : Paged maps s) (hm : maps pd = some m) : (pd, 1) ∈ s.out := by
  rw [h.dir, hm]
  exact Option.some_ne_none m

/-- The entries of one table are written over. -/
theorem setTable (h : Paged maps s) (hm : maps pd = some m) (howns : s.Owns pd i t)
    (entries : Nat → UInt32) :
    Paged (Function.update maps pd (some fun page =>
      if page / 1024 = i then entries (page % 1024) else m page)) (s.setTable t entries) := by
  constructor
  · exact h.apart
  · intro pd'
    rw [update_ne_none hm]
    exact h.dir pd'
  · exact h.order
  · intro u
    simp only [PtState.owns_setTable]
    exact h.owned u
  · intro pd₁ pd₂ i₁ i₂ u
    rw [PtState.owns_setTable, PtState.owns_setTable]
    exact h.alone pd₁ pd₂ i₁ i₂ u
  · intro pd' i' u
    rw [PtState.owns_setTable]
    exact h.frame pd' i' u
  · intro pd' hpd'
    rw [update_ne_none hm] at hpd'
    exact h.kernel pd' hpd'
  · intro pd' m' hm' page huser
    by_cases hsame : pd' = pd ∧ page / 1024 = i
    · obtain ⟨rfl, rfl⟩ := hsame
      rw [Function.update_self] at hm'
      cases hm'
      rw [PtState.entry_setTable_self howns]
      exact (if_pos rfl).symm
    · have hold : ∀ n, maps pd' = some n → (s.setTable t entries).entry pd' page = n page := by
        intro n hn
        rw [PtState.entry_setTable_of_not_owns (h.mem_dir hn) huser]
        · exact h.entry pd' n hn page huser
        · exact fun hother => hsame (h.alone _ _ _ _ _ hother howns)
      by_cases hpd : pd' = pd
      · subst hpd
        rw [Function.update_self] at hm'
        cases hm'
        rw [hold m hm]
        exact (if_neg fun hi => hsame ⟨rfl, hi⟩).symm
      · rw [Function.update_of_ne hpd] at hm'
        exact hold m' hm'

/-- Flags are added to the entry for a table. -/
theorem addFlags (h : Paged maps s) (howns : s.Owns pd i t)
    (hflags : flags &&& ~~~pageMask = flags) :
    Paged maps
      (s.setPde pd i ((s.pagedir pd).pdPhysical i ||| flags) ((s.pagedir pd).pdVirtual i)) := by
  have hpresent : ((s.pagedir pd).pdPhysical i ||| flags) &&& ptPresent ≠ 0 := by
    rw [UInt32.or_comm]
    exact present_or_flags (of_decide_eq_true howns.present)
  have howners : ∀ pd' i' u, (s.setPde pd i ((s.pagedir pd).pdPhysical i ||| flags)
      ((s.pagedir pd).pdVirtual i)).Owns pd' i' u ↔ s.Owns pd' i' u := by
    intro pd' i' u
    by_cases hsame : pd' = pd ∧ i' = i
    · obtain ⟨rfl, rfl⟩ := hsame
      rw [PtState.owns_setPde_self]
      exact ⟨fun ⟨_, _, _, htable⟩ => ⟨howns.dir, howns.user, howns.present, htable⟩,
        fun hu => ⟨howns.dir, howns.user, hpresent, hu.table⟩⟩
    · exact PtState.owns_setPde_of_ne hsame
  constructor
  · exact h.apart
  · exact h.dir
  · exact h.order
  · intro u
    simp only [howners]
    exact h.owned u
  · intro pd₁ pd₂ i₁ i₂ u
    rw [howners, howners]
    exact h.alone pd₁ pd₂ i₁ i₂ u
  · intro pd' i' u
    rw [howners]
    intro hu
    by_cases hsame : pd' = pd ∧ i' = i
    · obtain ⟨rfl, rfl⟩ := hsame
      rw [PtState.pdPhysical_setPde_self, frame_or_flags hflags]
      exact h.frame _ _ u hu
    · rw [(PtState.pde_setPde_of_ne hsame).1]
      exact h.frame pd' i' u hu
  · intro pd' hpd' i' hi'
    have hne : ¬ (pd' = pd ∧ i' = i) := fun hsame => hi' (hsame.2 ▸ howns.user)
    rw [(PtState.pde_setPde_of_ne hne).1, (PtState.pde_setPde_of_ne hne).2]
    exact h.kernel pd' hpd' i' hi'
  · intro pd' m' hm' page huser
    rw [← h.entry pd' m' hm' page huser]
    by_cases hsame : pd' = pd ∧ page / 1024 = i
    · obtain ⟨rfl, rfl⟩ := hsame
      have hnew := (howners _ _ _).mpr howns
      simp only [PtState.entry]
      rw [if_pos hnew.present, if_pos howns.present, hnew.table, howns.table]
      rfl
    · exact PtState.entry_setPde_of_ne hsame

theorem present_of_entry (h : Paged maps s) (hm : maps pd = some m) (huser : UserIndex i)
    (hpresent : (s.pagedir pd).present i = true) : s.Owns pd i ((s.pagedir pd).pdVirtual i) :=
  ⟨h.mem_dir hm, huser, hpresent, rfl⟩

theorem not_owns_fresh (h : Paged maps s) (hfresh : ∀ b ∈ s.out, ApartBlocks (t, 0) b)
    (pd i : Nat) : ¬ s.Owns pd i t := by
  intro howns
  have hmem := (h.owned t).mpr ⟨pd, i, howns⟩
  rcases hfresh _ hmem with hlt | hlt
  · exact absurd hlt (by simp)
  · exact absurd hlt (by simp)

/-- A directory gets a table for an entry that has none. -/
theorem addTable (h : Paged maps s) (hm : maps pd = some m) (huser : UserIndex i)
    (habsent : (s.pagedir pd).present i = false) (hfresh : ∀ b ∈ s.out, ApartBlocks (t, 0) b)
    (hflags : flags &&& ~~~pageMask = flags) (hpresent : flags &&& ptPresent ≠ 0) {s₁ : PtState}
    (hs₁ : s₁ = PtState.setTable { s with out := (t, 0) :: s.out } t fun _ => 0) :
    Paged maps (s₁.setPde pd i (ptVirtToPhys t ||| flags) t) ∧
      (s₁.setPde pd i (ptVirtToPhys t ||| flags) t).Owns pd i t := by
  have hout : s₁.out = (t, 0) :: s.out := by
    rw [hs₁]
    rfl
  have hmem : ∀ pd', (pd', 1) ∈ s₁.out ↔ (pd', 1) ∈ s.out := by
    intro pd'
    simp [hout]
  have hkeep : ∀ pd' i' u, s₁.Owns pd' i' u ↔ s.Owns pd' i' u := by
    intro pd' i' u
    rw [hs₁, PtState.owns_setTable]
    exact PtState.owns_out (hout ▸ hmem pd')
  have hdirs : s₁.pagedir = s.pagedir := by
    rw [hs₁]
    rfl
  have hnew : (s₁.setPde pd i (ptVirtToPhys t ||| flags) t).Owns pd i t := by
    rw [PtState.owns_setPde_self]
    exact ⟨(hmem pd).mpr (h.mem_dir hm), huser, present_or_flags hpresent, rfl⟩
  have howners : ∀ pd' i' u, (s₁.setPde pd i (ptVirtToPhys t ||| flags) t).Owns pd' i' u ↔
      s.Owns pd' i' u ∨ pd' = pd ∧ i' = i ∧ u = t := by
    intro pd' i' u
    by_cases hsame : pd' = pd ∧ i' = i
    · obtain ⟨rfl, rfl⟩ := hsame
      constructor
      · intro hu
        exact Or.inr ⟨rfl, rfl, hu.table.symm.trans hnew.table⟩
      · rintro (hu | ⟨-, -, rfl⟩)
        · cases habsent.symm.trans hu.present
        · exact hnew
    · rw [PtState.owns_setPde_of_ne hsame, hkeep]
      exact (or_iff_left fun hu => hsame ⟨hu.1, hu.2.1⟩).symm
  refine ⟨?_, hnew⟩
  constructor
  · rw [PtState.out_setPde, hout]
    exact List.pairwise_cons.mpr ⟨hfresh, h.apart⟩
  · intro pd'
    rw [PtState.out_setPde, hmem]
    exact h.dir pd'
  · rw [PtState.out_setPde, hout]
    intro b hb
    rcases List.mem_cons.mp hb with rfl | hb
    · exact Or.inl rfl
    · exact h.order b hb
  · intro u
    rw [PtState.out_setPde, hout, List.mem_cons, h.owned, Prod.mk.injEq]
    constructor
    · rintro (⟨rfl, -⟩ | ⟨pd', i', hu⟩)
      · exact ⟨pd, i, hnew⟩
      · exact ⟨pd', i', (howners _ _ _).mpr (Or.inl hu)⟩
    · rintro ⟨pd', i', hu⟩
      rcases (howners _ _ _).mp hu with hu | ⟨-, -, rfl⟩
      · exact Or.inr ⟨pd', i', hu⟩
      · exact Or.inl ⟨rfl, rfl⟩
  · intro pd₁ pd₂ i₁ i₂ u h₁ h₂
    rcases (howners _ _ _).mp h₁ with hold₁ | ⟨rfl, rfl, rfl⟩
    · rcases (howners _ _ _).mp h₂ with hold₂ | ⟨-, -, rfl⟩
      · exact h.alone _ _ _ _ _ hold₁ hold₂
      · exact absurd hold₁ (h.not_owns_fresh hfresh _ _)
    · rcases (howners _ _ _).mp h₂ with hold₂ | ⟨rfl, rfl, -⟩
      · exact absurd hold₂ (h.not_owns_fresh hfresh _ _)
      · exact ⟨rfl, rfl⟩
  · intro pd' i' u hu
    by_cases hsame : pd' = pd ∧ i' = i
    · obtain ⟨rfl, rfl⟩ := hsame
      rw [PtState.pdPhysical_setPde_self, frame_or_flags hflags, frame_ptVirtToPhys, ← hu.table,
        hnew.table]
    · rw [PtState.owns_setPde_of_ne hsame, hkeep] at hu
      rw [(PtState.pde_setPde_of_ne hsame).1, hdirs, h.frame pd' i' u hu]
  · intro pd' hpd' i' hi'
    have hne : ¬ (pd' = pd ∧ i' = i) := fun hsame => hi' (hsame.2 ▸ huser)
    rw [(PtState.pde_setPde_of_ne hne).1, (PtState.pde_setPde_of_ne hne).2, hdirs]
    exact h.kernel pd' hpd' i' hi'
  · intro pd' m' hm' page hpage
    rw [← h.entry pd' m' hm' page hpage]
    by_cases hsame : pd' = pd ∧ page / 1024 = i
    · obtain ⟨rfl, rfl⟩ := hsame
      have hzero : s₁.pagetable t = fun _ => 0 := by
        rw [hs₁]
        exact Function.update_self ..
      simp only [PtState.entry]
      rw [if_pos hnew.present, hnew.table, habsent]
      exact congrFun hzero _
    · rw [PtState.entry_setPde_of_ne hsame, hs₁,
        PtState.entry_setTable_of_not_owns (List.mem_cons_of_mem _ (h.mem_dir hm')) hpage]
      · rfl
      · intro hu
        have hold : s₁.Owns pd' (page / 1024) t := by
          rw [hs₁, PtState.owns_setTable]
          exact hu
        exact h.not_owns_fresh hfresh _ _ ((hkeep _ _ _).mp hold)

/-- A table is freed and its entry is cleared. -/
theorem dropTable (h : Paged maps s) (hm : maps pd = some m) (howns : s.Owns pd i t) {s₁ : PtState}
    (hs₁ : s₁ = { s with out := s.out.erase (t, 0) }) :
    Paged (Function.update maps pd (some fun page => if page / 1024 = i then 0 else m page))
      (s₁.setPde pd i 0 0) := by
  have hout : s₁.out = s.out.erase (t, 0) := by
    rw [hs₁]
  have hmem : ∀ pd', (pd', 1) ∈ s₁.out ↔ (pd', 1) ∈ s.out := by
    intro pd'
    rw [hout]
    exact List.mem_erase_of_ne (by simp)
  have howners : ∀ pd' i' u, (s₁.setPde pd i 0 0).Owns pd' i' u ↔
      s.Owns pd' i' u ∧ ¬ (pd' = pd ∧ i' = i) := by
    intro pd' i' u
    by_cases hsame : pd' = pd ∧ i' = i
    · obtain ⟨rfl, rfl⟩ := hsame
      rw [PtState.owns_setPde_self]
      simp
    · rw [PtState.owns_setPde_of_ne hsame, hs₁, PtState.owns_out (hout ▸ hmem pd')]
      exact (and_iff_left hsame).symm
  have hdirs : s₁.pagedir = s.pagedir := by
    rw [hs₁]
  constructor
  · rw [PtState.out_setPde, hout]
    exact h.apart.sublist List.erase_sublist
  · intro pd'
    rw [PtState.out_setPde, hmem, update_ne_none hm]
    exact h.dir pd'
  · rw [PtState.out_setPde, hout]
    exact fun b hb => h.order b (List.mem_of_mem_erase hb)
  · intro u
    rw [PtState.out_setPde, hout, h.nodup.mem_erase_iff, h.owned]
    simp only [howners]
    constructor
    · rintro ⟨hne, pd', i', hu⟩
      refine ⟨pd', i', hu, ?_⟩
      rintro ⟨rfl, rfl⟩
      exact hne (by rw [← hu.table, ← howns.table])
    · rintro ⟨pd', i', hu, hsame⟩
      refine ⟨?_, pd', i', hu⟩
      rintro ⟨⟩
      exact hsame (h.alone _ _ _ _ _ hu howns)
  · intro pd₁ pd₂ i₁ i₂ u h₁ h₂
    exact h.alone _ _ _ _ _ ((howners _ _ _).mp h₁).1 ((howners _ _ _).mp h₂).1
  · intro pd' i' u hu
    obtain ⟨hold, hsame⟩ := (howners _ _ _).mp hu
    rw [(PtState.pde_setPde_of_ne hsame).1, hdirs, h.frame pd' i' u hold]
  · intro pd' hpd' i' hi'
    rw [update_ne_none hm] at hpd'
    have hne : ¬ (pd' = pd ∧ i' = i) := fun hsame => hi' (hsame.2 ▸ howns.user)
    rw [(PtState.pde_setPde_of_ne hne).1, (PtState.pde_setPde_of_ne hne).2, hdirs]
    exact h.kernel pd' hpd' i' hi'
  · intro pd' m' hm' page hpage
    by_cases hsame : pd' = pd ∧ page / 1024 = i
    · obtain ⟨rfl, rfl⟩ := hsame
      rw [Function.update_self] at hm'
      cases hm'
      have habsent :
          ((s₁.setPde pd' (page / 1024) 0 0).pagedir pd').present (page / 1024) = false := by
        rw [Pagedir.present, PtState.pdPhysical_setPde_self]
        rfl
      have hclear : (s₁.setPde pd' (page / 1024) 0 0).entry pd' page = 0 := by
        simp only [PtState.entry]
        rw [habsent]
        rfl
      rw [hclear]
      exact (if_pos rfl).symm
    · rw [PtState.entry_setPde_of_ne hsame, hs₁]
      change s.entry pd' page = m' page
      by_cases hpd : pd' = pd
      · subst hpd
        rw [Function.update_self] at hm'
        cases hm'
        rw [h.entry pd' m hm page hpage]
        exact (if_neg fun hi => hsame ⟨rfl, hi⟩).symm
      · rw [Function.update_of_ne hpd] at hm'
        exact h.entry pd' m' hm' page hpage

/-- A new directory maps nothing. -/
theorem addDir (h : Paged maps s) (hnone : maps pd = none)
    (hfresh : ∀ b ∈ s.out, ApartBlocks (pd, 1) b) :
    Paged (Function.update maps pd (some fun _ => 0))
      (PtState.setPagedir { s with out := (pd, 1) :: s.out } pd KernelTables.templatePagedir) := by
  have hself : (PtState.setPagedir { s with out := (pd, 1) :: s.out } pd
      KernelTables.templatePagedir).pagedir pd = KernelTables.templatePagedir :=
    Function.update_self ..
  have hother : ∀ pd', pd' ≠ pd → (PtState.setPagedir { s with out := (pd, 1) :: s.out } pd
      KernelTables.templatePagedir).pagedir pd' = s.pagedir pd' :=
    fun pd' hpd => Function.update_of_ne hpd ..
  have howners : ∀ pd' i' u, (PtState.setPagedir { s with out := (pd, 1) :: s.out } pd
      KernelTables.templatePagedir).Owns pd' i' u ↔ s.Owns pd' i' u := by
    intro pd' i' u
    by_cases hpd : pd' = pd
    · subst hpd
      constructor
      · rintro ⟨-, hu, hp, -⟩
        rw [hself, KernelTables.absent i' hu] at hp
        cases hp
      · intro hu
        exact absurd hnone ((h.dir pd').mp hu.dir)
    · have hdir : (pd', 1) ∈ (pd, 1) :: s.out ↔ (pd', 1) ∈ s.out := by simp [hpd]
      rw [← PtState.owns_out hdir]
      constructor
      · rintro ⟨hd, hu, hp, ht⟩
        rw [hother pd' hpd] at hp ht
        exact ⟨hd, hu, hp, ht⟩
      · rintro ⟨hd, hu, hp, ht⟩
        rw [← hother pd' hpd] at hp ht
        exact ⟨hd, hu, hp, ht⟩
  constructor
  · exact List.pairwise_cons.mpr ⟨hfresh, h.apart⟩
  · intro pd'
    change (pd', 1) ∈ (pd, 1) :: s.out ↔ _
    rw [List.mem_cons, h.dir, Prod.mk.injEq]
    by_cases hpd : pd' = pd
    · subst hpd
      simp
    · rw [Function.update_of_ne hpd]
      simp [hpd]
  · intro b hb
    rcases List.mem_cons.mp hb with rfl | hb
    · exact Or.inr rfl
    · exact h.order b hb
  · intro u
    change (u, 0) ∈ (pd, 1) :: s.out ↔ _
    simp only [howners, List.mem_cons, Prod.mk.injEq, Nat.zero_ne_one, and_false, false_or]
    exact h.owned u
  · intro pd₁ pd₂ i₁ i₂ u
    rw [howners, howners]
    exact h.alone pd₁ pd₂ i₁ i₂ u
  · intro pd' i' u hu
    have hold := (howners _ _ _).mp hu
    have hpd : pd' ≠ pd := by
      rintro rfl
      exact absurd hnone ((h.dir pd').mp hold.dir)
    rw [hother pd' hpd]
    exact h.frame pd' i' u hold
  · intro pd' hpd' i' hi'
    by_cases hpd : pd' = pd
    · subst hpd
      rw [hself]
      exact ⟨rfl, rfl⟩
    · rw [Function.update_of_ne hpd] at hpd'
      rw [hother pd' hpd]
      exact h.kernel pd' hpd' i' hi'
  · intro pd' m' hm' page hpage
    by_cases hpd : pd' = pd
    · subst hpd
      rw [Function.update_self] at hm'
      cases hm'
      simp only [PtState.entry]
      rw [hself, KernelTables.absent _ hpage]
      rfl
    · rw [Function.update_of_ne hpd] at hm'
      rw [← h.entry pd' m' hm' page hpage]
      simp only [PtState.entry]
      rw [hother pd' hpd]
      rfl

/-- A directory and its tables are freed. -/
theorem dropDir (h : Paged maps s) {out : List (Nat × Nat)} (hsub : out.Sublist s.out)
    (hout : ∀ b, b ∈ out ↔ b ∈ s.out ∧ b ≠ (pd, 1) ∧ ∀ i u, s.Owns pd i u → b ≠ (u, 0)) :
    Paged (Function.update maps pd none) { s with out := out } := by
  have hdir : ∀ pd', (pd', 1) ∈ out ↔ (pd', 1) ∈ s.out ∧ pd' ≠ pd := by
    intro pd'
    rw [hout]
    simp
  have howners : ∀ pd' i' u, PtState.Owns { s with out := out } pd' i' u ↔
      s.Owns pd' i' u ∧ pd' ≠ pd := by
    intro pd' i' u
    by_cases hpd : pd' = pd
    · exact iff_of_false (fun hu => ((hdir pd').mp hu.dir).2 hpd) fun hu => hu.2 hpd
    · rw [PtState.owns_out ((hdir pd').trans (and_iff_left hpd))]
      exact (and_iff_left hpd).symm
  have hstill : ∀ pd', Function.update maps pd none pd' ≠ none → pd' ≠ pd ∧ maps pd' ≠ none := by
    intro pd' hsome
    by_cases hpd : pd' = pd
    · subst hpd
      exact absurd (Function.update_self ..) hsome
    · rw [Function.update_of_ne hpd] at hsome
      exact ⟨hpd, hsome⟩
  constructor
  · exact h.apart.sublist hsub
  · intro pd'
    change (pd', 1) ∈ out ↔ _
    rw [hdir, h.dir]
    constructor
    · rintro ⟨hsome, hpd⟩
      rw [Function.update_of_ne hpd]
      exact hsome
    · intro hsome
      exact ⟨(hstill pd' hsome).2, (hstill pd' hsome).1⟩
  · exact fun b hb => h.order b (hsub.subset hb)
  · intro u
    change (u, 0) ∈ out ↔ _
    rw [hout, h.owned]
    simp only [howners]
    constructor
    · rintro ⟨⟨pd', i', hu⟩, -, hfree⟩
      refine ⟨pd', i', hu, ?_⟩
      rintro rfl
      exact hfree i' u hu rfl
    · rintro ⟨pd', i', hu, hpd⟩
      refine ⟨⟨pd', i', hu⟩, by simp, ?_⟩
      rintro i u' hu' ⟨⟩
      exact hpd (h.alone _ _ _ _ _ hu hu').1
  · intro pd₁ pd₂ i₁ i₂ u h₁ h₂
    exact h.alone _ _ _ _ _ ((howners _ _ _).mp h₁).1 ((howners _ _ _).mp h₂).1
  · intro pd' i' u hu
    exact h.frame pd' i' u ((howners _ _ _).mp hu).1
  · intro pd' hsome i' hi'
    exact h.kernel pd' (hstill pd' hsome).2 i' hi'
  · intro pd' m' hm' page hpage
    have hpd : pd' ≠ pd := (hstill pd' (hm' ▸ Option.some_ne_none m')).1
    rw [Function.update_of_ne hpd] at hm'
    exact h.entry pd' m' hm' page hpage

end Paged

namespace Paged

variable {s : PtState} {maps : PtMaps} {m m' : Nat → UInt32} {pd i t : Nat}
  {entries : Nat → UInt32}

/-- Only the pages of user memory count. -/
theorem congr (h : Paged (Function.update maps pd (some m)) s)
    (hsame : ∀ page, UserIndex (page / 1024) → m page = m' page) :
    Paged (Function.update maps pd (some m')) s := by
  have hnone : ∀ pd', Function.update maps pd (some m') pd' ≠ none ↔
      Function.update maps pd (some m) pd' ≠ none := by
    intro pd'
    rw [← update_ne_none (Function.update_self pd (some m) maps) m' pd', Function.update_idem]
  refine ⟨h.apart, ?_, h.order, h.owned, h.alone, h.frame, ?_, ?_⟩
  · intro pd'
    rw [hnone]
    exact h.dir pd'
  · intro pd' hpd'
    exact h.kernel pd' ((hnone pd').mp hpd')
  · intro pd' n hn page huser
    by_cases hpd : pd' = pd
    · subst hpd
      rw [Function.update_self] at hn
      cases hn
      rw [← hsame page huser]
      exact h.entry pd' m (Function.update_self ..) page huser
    · rw [Function.update_of_ne hpd] at hn
      exact h.entry pd' n ((Function.update_of_ne hpd _ _).trans hn) page huser

theorem entry_of_owns (h : Paged (Function.update maps pd (some m)) s) {page : Nat}
    (howns : s.Owns pd (page / 1024) t) : s.pagetable t (page % 1024) = m page := by
  rw [← h.entry pd m (Function.update_self ..) page howns.user]
  simp only [PtState.entry]
  rw [if_pos howns.present, howns.table]

theorem eq_zero_of_absent (h : Paged (Function.update maps pd (some m)) s) {page : Nat}
    (huser : UserIndex (page / 1024)) (habsent : ¬ (s.pagedir pd).present (page / 1024) = true) :
    m page = 0 := by
  rw [← h.entry pd m (Function.update_self ..) page huser]
  simp only [PtState.entry]
  rw [if_neg habsent]

theorem writeTable (h : Paged (Function.update maps pd (some m)) s) (howns : s.Owns pd i t)
    (hin : ∀ page, page / 1024 = i → entries (page % 1024) = m' page)
    (hout : ∀ page, page / 1024 ≠ i → m page = m' page) :
    Paged (Function.update maps pd (some m')) (s.setTable t entries) := by
  have hset := h.setTable (Function.update_self ..) howns entries
  rw [Function.update_idem] at hset
  apply hset.congr
  intro page _
  by_cases hi : page / 1024 = i
  · rw [if_pos hi]
    exact hin page hi
  · rw [if_neg hi]
    exact hout page hi

end Paged

end CodingSample.Mm
