import CodingSample.Mm.Slab
import Mathlib.Data.List.Basic
import Mathlib.Data.List.Nodup

/-!
# The objects of a slab allocator over whole runs

The free list of a slab has the objects that are not in use. No call gives an object twice, and
what is reclaimed has no object in use.
-/

namespace CodingSample.Mm

open Prog

variable {k : SlabKind} {s s' : SlabState} {used used' : Nat → Prop} {addr obj slab i : Nat}
  {l : List Nat} {fresh : Option Nat}

/-! ### Sizes -/

theorem bestOrder_mem (objsize : Nat) (orders : List Nat) (best : Nat) :
    bestOrder objsize orders best = best ∨ bestOrder objsize orders best ∈ orders := by
  induction orders generalizing best with
  | nil => exact Or.inl rfl
  | cons order rest ih =>
      rw [bestOrder]
      split
      · rcases ih order with heq | hmem
        · rw [heq]
          exact Or.inr List.mem_cons_self
        · exact Or.inr (List.mem_cons_of_mem _ hmem)
      · exact (ih best).imp_right (List.mem_cons_of_mem _)

/-- The order that `_calc_slab_size` finds has room for an object. -/
theorem calcSlabSize_spec {objsize order nobjs : Nat}
    (h : calcSlabSize objsize = some (order, nobjs)) :
    nobjs = slabNobjs objsize order ∧ slabSize objsize 1 ≤ 4096 * 2 ^ order := by
  unfold calcSlabSize at h
  split at h
  · cases h
  · rename_i minorder hfind
    have hmin := List.find?_some hfind
    rw [decide_eq_true_eq] at hmin
    cases h
    refine ⟨rfl, ?_⟩
    have hle : minorder ≤ bestOrder objsize
        (List.range' (minorder + 1) (5 - (minorder + 1))) minorder := by
      rcases bestOrder_mem objsize (List.range' (minorder + 1) (5 - (minorder + 1))) minorder with
        heq | hmem
      · exact le_of_eq heq.symm
      · rw [List.mem_range'_1] at hmem
        omega
    exact hmin.trans (Nat.mul_le_mul_left _ (Nat.pow_le_pow_right (by decide) hle))

namespace SlabKind

theorem stride_pos : 0 < k.stride := Nat.lt_add_left _ (by decide)

theorem pos : 0 < k.saSlabNobjs := by
  obtain ⟨heq, hle⟩ := calcSlabSize_spec k.size
  rw [heq, slabNobjs]
  apply Nat.div_pos
  · rw [slabSize] at hle
    simp only [sizeofBufctl, sizeofSlab] at hle ⊢
    omega
  · simp

/-- The objects and the slab itself lie in the block. -/
theorem fits : k.saSlabNobjs * k.stride + sizeofSlab ≤ 4096 * 2 ^ k.saOrder := by
  obtain ⟨heq, hle⟩ := calcSlabSize_spec k.size
  have hdiv := Nat.div_mul_le_self (4096 * 2 ^ k.saOrder - sizeofSlab)
    (k.saObjsize + sizeofBufctl)
  rw [heq, slabNobjs, stride]
  rw [slabSize] at hle
  simp only [sizeofSlab] at hle hdiv ⊢
  omega

theorem index_object (addr i : Nat) : k.index addr (k.object addr i) = i := by
  rw [index, object, Nat.add_sub_cancel_left, Nat.mul_div_cancel _ stride_pos]

theorem isObject_object : k.IsObject addr (k.object addr i) ↔ i < k.saSlabNobjs := by
  rw [IsObject, index_object]
  exact and_iff_left rfl

theorem object_succ (addr i : Nat) : k.object addr i + k.stride = k.object addr (i + 1) := by
  rw [object, object, Nat.succ_mul, Nat.add_assoc]

/-- An object ends where the slab begins, or before. -/
theorem IsObject.inside (h : k.IsObject addr obj) :
    addr ≤ obj ∧ obj + k.stride ≤ k.object addr k.saSlabNobjs := by
  obtain ⟨hlt, heq⟩ := h
  have hle : (k.index addr obj + 1) * k.stride ≤ k.saSlabNobjs * k.stride :=
    Nat.mul_le_mul_right _ hlt
  have hnext := k.object_succ addr (k.index addr obj)
  rw [← heq] at hnext
  constructor
  · rw [heq]
    exact Nat.le_add_right _ _
  · rw [hnext]
    exact Nat.add_le_add_left hle _

/-- Two blocks of the size of a slab that have no page in common. -/
def Apart (k : SlabKind) (a b : Nat) : Prop :=
  a + 4096 * 2 ^ k.saOrder ≤ b ∨ b + 4096 * 2 ^ k.saOrder ≤ a

theorem slab_lt (addr : Nat) : addr ≤ k.object addr k.saSlabNobjs ∧
    k.object addr k.saSlabNobjs < addr + 4096 * 2 ^ k.saOrder := by
  have hfits := k.fits
  rw [object]
  simp only [sizeofSlab] at hfits
  omega

theorem IsObject.not_of_apart {a b : Nat} (h : k.IsObject a obj) (hapart : k.Apart a b) :
    ¬ k.IsObject b obj := by
  intro h'
  have hpos := k.stride_pos
  have ha := h.inside
  have hb := h'.inside
  have hasize := k.slab_lt a
  have hbsize := k.slab_lt b
  rcases hapart with hle | hle
  · omega
  · omega

theorem object_ne_of_apart {a b : Nat} (hapart : k.Apart a b) :
    k.object a k.saSlabNobjs ≠ k.object b k.saSlabNobjs := by
  have hasize := k.slab_lt a
  have hbsize := k.slab_lt b
  rcases hapart with hle | hle
  · omega
  · omega

end SlabKind

/-! ### The invariant -/

/-- The books of one slab, with its free list `l`. -/
structure SlabBooks (k : SlabKind) (s : SlabState) (used : Nat → Prop) (slab : Nat) (l : List Nat) :
    Prop where
  place : slab = k.object (s.slab slab).sAddr k.saSlabNobjs
  pos : 0 < (s.slab slab).sAddr
  chain : FreeList.Chain 0 0 (fun o _ => (s.bufctl o).u) (s.slab slab).sFree l
  nodup : l.Nodup
  mem : ∀ o, o ∈ l ↔ k.IsObject (s.slab slab).sAddr o ∧ ¬ used o
  count : (s.slab slab).sInuse + l.length = k.saSlabNobjs
  redzones : ∀ o, k.IsObject (s.slab slab).sAddr o → s.redzones o = true
  free : ∀ o, k.IsObject (s.slab slab).sAddr o → ((s.bufctl o).sbFree = true ↔ ¬ used o)
  home : ∀ o, k.IsObject (s.slab slab).sAddr o → used o → (s.bufctl o).u = slab

/-- The slabs have their blocks for themselves, and each object in use is in one of them. -/
structure SlabInv (k : SlabKind) (used : Nat → Prop) (s : SlabState) : Prop where
  nodup : s.saSlabs.Nodup
  apart : ∀ a ∈ s.saSlabs, ∀ b ∈ s.saSlabs, a ≠ b → k.Apart (s.slab a).sAddr (s.slab b).sAddr
  books : ∀ slab ∈ s.saSlabs, ∃ l, SlabBooks k s used slab l
  used : ∀ o, used o → ∃ slab ∈ s.saSlabs, k.IsObject (s.slab slab).sAddr o

/-- The books of a slab are about its own objects. -/
theorem SlabBooks.congr (h : SlabBooks k s used slab l) (hslab : s'.slab slab = s.slab slab)
    (hobj : ∀ o, k.IsObject (s.slab slab).sAddr o →
      s'.bufctl o = s.bufctl o ∧ s'.redzones o = s.redzones o ∧ (used' o ↔ used o)) :
    SlabBooks k s' used' slab l := by
  have hmem : ∀ o ∈ l, k.IsObject (s.slab slab).sAddr o := fun o ho => ((h.mem o).mp ho).1
  constructor
  · rw [hslab]
    exact h.place
  · rw [hslab]
    exact h.pos
  · rw [hslab]
    exact h.chain.congr fun o ho => congrArg SlabBufctl.u (hobj o (hmem o ho)).1
  · exact h.nodup
  · intro o
    rw [hslab, h.mem]
    exact and_congr_right fun ho => not_congr (hobj o ho).2.2.symm
  · rw [hslab]
    exact h.count
  · intro o ho
    rw [hslab] at ho
    rw [(hobj o ho).2.1]
    exact h.redzones o ho
  · intro o ho
    rw [hslab] at ho
    rw [(hobj o ho).1, (hobj o ho).2.2]
    exact h.free o ho
  · intro o ho hu
    rw [hslab] at ho
    rw [(hobj o ho).1]
    exact h.home o ho ((hobj o ho).2.2.mp hu)

/-- A slab with an object in use counts it. -/
theorem SlabBooks.inuse_ne_zero (h : SlabBooks k s used slab l)
    (hin : k.IsObject (s.slab slab).sAddr obj) (hused : used obj) : (s.slab slab).sInuse ≠ 0 := by
  have hnotMem : obj ∉ l := fun hmem => ((h.mem obj).mp hmem).2 hused
  have hsub : (obj :: l) ⊆ (List.range k.saSlabNobjs).map (k.object (s.slab slab).sAddr) := by
    intro o ho
    have hino : k.IsObject (s.slab slab).sAddr o := by
      rcases List.mem_cons.mp ho with rfl | ho
      · exact hin
      · exact ((h.mem o).mp ho).1
    exact List.mem_map.mpr ⟨_, List.mem_range.mpr hino.1, hino.2.symm⟩
  have hlength := (List.subperm_of_subset (List.nodup_cons.mpr ⟨hnotMem, h.nodup⟩) hsub).length_le
  rw [List.length_cons, List.length_map, List.length_range] at hlength
  have hcount := h.count
  omega

namespace SlabInv

/-- Only the objects of one slab change. -/
theorem update (h : SlabInv k used s) (hslab : slab ∈ s.saSlabs)
    (hlist : s'.saSlabs = s.saSlabs) (haddr : (s'.slab slab).sAddr = (s.slab slab).sAddr)
    (hother : ∀ a, a ≠ slab → s'.slab a = s.slab a)
    (hobj : ∀ o, ¬ k.IsObject (s.slab slab).sAddr o →
      s'.bufctl o = s.bufctl o ∧ s'.redzones o = s.redzones o ∧ (used' o ↔ used o))
    (hbooks : SlabBooks k s' used' slab l) : SlabInv k used' s' := by
  have hsame : ∀ a, (s'.slab a).sAddr = (s.slab a).sAddr := by
    intro a
    by_cases ha : a = slab
    · rw [ha, haddr]
    · rw [hother a ha]
  constructor
  · rw [hlist]
    exact h.nodup
  · intro a ha b hb hne
    rw [hlist] at ha hb
    rw [hsame, hsame]
    exact h.apart a ha b hb hne
  · intro a ha
    rw [hlist] at ha
    by_cases heq : a = slab
    · rw [heq]
      exact ⟨l, hbooks⟩
    · obtain ⟨la, hla⟩ := h.books a ha
      refine ⟨la, hla.congr (hother a heq) fun o ho => hobj o ?_⟩
      exact ho.not_of_apart (h.apart a ha slab hslab heq)
  · intro o ho
    by_cases hin : k.IsObject (s.slab slab).sAddr o
    · refine ⟨slab, ?_, ?_⟩
      · rw [hlist]
        exact hslab
      · rw [haddr]
        exact hin
    · obtain ⟨a, ha, hobja⟩ := h.used o ((hobj o hin).2.2.mp ho)
      refine ⟨a, ?_, ?_⟩
      · rw [hlist]
        exact ha
      · rw [hsame]
        exact hobja

end SlabInv

/-- What a call of `slab_obj_alloc` gives: an object of a slab that was not in use. -/
def Given (k : SlabKind) (used : Nat → Prop) (addr : Nat) (s' : SlabState) : Prop :=
  ∃ obj, addr = obj + sizeofRedzone ∧ ¬ used obj ∧
    (∃ slab ∈ s'.saSlabs, k.IsObject (s'.slab slab).sAddr obj) ∧
    SlabInv k (fun o => o = obj ∨ used o) s'

/-- The first object of the free list is taken. -/
theorem SlabBooks.taken {rest : List Nat} (h : SlabBooks k s used slab (obj :: rest))
    (hslab : s'.slab slab =
      ⟨(s.slab slab).sInuse + 1, (s.bufctl obj).u, (s.slab slab).sAddr⟩)
    (hbufctl : s'.bufctl = Function.update s.bufctl obj ⟨slab, false⟩)
    (hredzones : s'.redzones = s.redzones) :
    SlabBooks k s' (fun o => o = obj ∨ used o) slab rest := by
  obtain ⟨-, hrest⟩ := h.chain.of_cons
  obtain ⟨hnotMem, hnodup⟩ := List.nodup_cons.mp h.nodup
  have hne : ∀ o ∈ rest, o ≠ obj := by
    rintro o ho rfl
    exact hnotMem ho
  constructor
  · rw [hslab]
    exact h.place
  · rw [hslab]
    exact h.pos
  · rw [hslab, hbufctl]
    apply hrest.congr
    intro o ho
    rw [Function.update_of_ne (hne o ho)]
  · exact hnodup
  · intro o
    rw [hslab, not_or]
    have hmem := h.mem o
    rw [List.mem_cons] at hmem
    constructor
    · intro ho
      obtain ⟨hin, hunused⟩ := hmem.mp (Or.inr ho)
      exact ⟨hin, hne o ho, hunused⟩
    · rintro ⟨hin, hother, hunused⟩
      exact (hmem.mpr ⟨hin, hunused⟩).resolve_left hother
  · have hcount := h.count
    rw [List.length_cons] at hcount
    rw [hslab]
    simp only []
    omega
  · intro o ho
    rw [hslab] at ho
    rw [hredzones]
    exact h.redzones o ho
  · intro o ho
    rw [hslab] at ho
    rw [hbufctl]
    by_cases hobj : o = obj
    · subst hobj
      simp
    · rw [Function.update_of_ne hobj, or_iff_right hobj]
      exact h.free o ho
  · intro o ho hu
    rw [hslab] at ho
    rw [hbufctl]
    by_cases hobj : o = obj
    · subst hobj
      rw [Function.update_self]
    · rw [Function.update_of_ne hobj]
      exact h.home o ho (hu.resolve_left hobj)

theorem wp_slabTake (h : SlabInv k used s) (hslab : slab ∈ s.saSlabs)
    (hroom : (s.slab slab).sInuse ≠ k.saSlabNobjs) :
    wp (slabTake slab) (fun addr s' => Given k used addr s') s := by
  obtain ⟨l, hl⟩ := h.books slab hslab
  have hcount := hl.count
  cases l with
  | nil => exact absurd hcount hroom
  | cons obj rest =>
      obtain ⟨hobj, -⟩ := hl.chain.of_cons
      obtain ⟨hin, hunused⟩ := (hl.mem obj).mp List.mem_cons_self
      rw [slabTake, wp_bind, wp_get]
      simp only [hobj]
      rw [wp_bind, wp_modify, wp_bind, wp_check, wp_pure]
      refine ⟨hl.redzones obj hin, obj, rfl, hunused, ⟨slab, hslab, ?_⟩, ?_⟩
      · simp only [Function.update_self]
        exact hin
      · refine h.update (l := rest) hslab rfl ?_ ?_ ?_ ?_
        · simp only [Function.update_self]
        · intro a ha
          exact Function.update_of_ne ha ..
        · intro o ho
          have hne : o ≠ obj := by
            rintro rfl
            exact ho hin
          exact ⟨Function.update_of_ne hne .., rfl, or_iff_right hne⟩
        · exact hl.taken (Function.update_self ..) rfl rfl

/-! ### Growing -/

/-- What `page_alloc_n` answers: a block apart from those of the slabs. -/
def SlabFresh (k : SlabKind) (s : SlabState) (fresh : Option Nat) : Prop :=
  ∀ addr, fresh = some addr → 0 < addr ∧ ∀ slab ∈ s.saSlabs, k.Apart addr (s.slab slab).sAddr

/-- The last `j` objects of a new slab are linked in increasing order. -/
theorem chain_new (hpos : 0 < addr) (next : Nat → Nat)
    (hnext : ∀ i < k.saSlabNobjs, next (k.object addr i) =
      if i + 1 < k.saSlabNobjs then k.object addr (i + 1) else 0) {j : Nat}
    (hj : j ≤ k.saSlabNobjs) :
    FreeList.Chain 0 0 (fun o _ => next o)
      (if j = 0 then 0 else k.object addr (k.saSlabNobjs - j))
      ((List.range' (k.saSlabNobjs - j) j).map (k.object addr)) := by
  induction j with
  | zero => exact .nil
  | succ j ih =>
      have hstep : k.saSlabNobjs - (j + 1) + 1 = k.saSlabNobjs - j := by omega
      rw [if_neg (Nat.succ_ne_zero j), List.range'_succ, List.map_cons, hstep]
      apply FreeList.Chain.cons
      · exact Nat.ne_of_gt (Nat.lt_of_lt_of_le hpos (Nat.le_add_right _ _))
      · rw [hnext _ (by omega), hstep]
        have hlast : (if k.saSlabNobjs - j < k.saSlabNobjs then
            k.object addr (k.saSlabNobjs - j) else 0) =
            if j = 0 then 0 else k.object addr (k.saSlabNobjs - j) := by
          by_cases hzero : j = 0
          · rw [if_pos hzero, if_neg (by omega)]
          · rw [if_neg hzero, if_pos (by omega)]
        rw [hlast]
        exact ih (by omega)

/-- The books of a slab that has just been made. -/
theorem books_new (hpos : 0 < addr) (hunused : ∀ o, used o → ¬ k.IsObject addr o)
    (hslab : s'.slab (k.object addr k.saSlabNobjs) = ⟨0, addr, addr⟩)
    (hbufctl : ∀ o, k.IsObject addr o →
      s'.bufctl o = ⟨if k.index addr o + 1 < k.saSlabNobjs then o + k.stride else 0, true⟩)
    (hredzones : ∀ o, k.IsObject addr o → s'.redzones o = true) :
    SlabBooks k s' used (k.object addr k.saSlabNobjs)
      ((List.range' 0 k.saSlabNobjs).map (k.object addr)) := by
  constructor
  · rw [hslab]
  · rw [hslab]
    exact hpos
  · have hchain := chain_new (k := k) hpos (fun o => (s'.bufctl o).u) ?_ (le_refl _)
    · rw [if_neg (Nat.ne_of_gt k.pos), Nat.sub_self, SlabKind.object, Nat.zero_mul,
        Nat.add_zero] at hchain
      rw [hslab]
      exact hchain
    · intro i hi
      rw [hbufctl _ (SlabKind.isObject_object.mpr hi), SlabKind.index_object,
        SlabKind.object_succ]
  · apply List.Nodup.map _ List.nodup_range'
    intro i j hij
    have hindex := congrArg (k.index addr) hij
    rwa [SlabKind.index_object, SlabKind.index_object] at hindex
  · intro o
    rw [hslab]
    simp only [List.mem_map, List.mem_range'_1]
    constructor
    · rintro ⟨i, hi, rfl⟩
      have hin : k.IsObject addr (k.object addr i) := SlabKind.isObject_object.mpr (by omega)
      exact ⟨hin, fun hu => hunused _ hu hin⟩
    · rintro ⟨hin, -⟩
      have hlt := hin.1
      exact ⟨k.index addr o, ⟨Nat.zero_le _, by omega⟩, hin.2.symm⟩
  · rw [hslab, List.length_map, List.length_range', Nat.zero_add]
  · intro o ho
    rw [hslab] at ho
    exact hredzones o ho
  · intro o ho
    rw [hslab] at ho
    rw [hbufctl o ho]
    exact iff_of_true rfl fun hu => hunused o hu ho
  · intro o ho hu
    rw [hslab] at ho
    exact absurd ho (hunused o hu)

theorem wp_slabAllocatorGrow (h : SlabInv k used s) (hfresh : SlabFresh k s fresh) :
    wp (slabAllocatorGrow k fresh) (fun r s' => SlabInv k used s' ∧
      (r = false → fresh = none) ∧ (r = true → s'.partly k ≠ none)) s := by
  cases fresh with
  | none => exact wp_pure.mpr ⟨h, fun _ => rfl, nofun⟩
  | some addr =>
      obtain ⟨hpos, hapart⟩ := hfresh addr rfl
      have hnew : ∀ a ∈ s.saSlabs, a ≠ k.object addr k.saSlabNobjs := by
        intro a ha heq
        obtain ⟨l, hl⟩ := h.books a ha
        have hplace := hl.place
        rw [heq] at hplace
        have hne := SlabKind.object_ne_of_apart (hapart a ha)
        rw [← heq] at hplace hne
        exact hne hplace
      have hunused : ∀ o, used o → ¬ k.IsObject addr o := by
        intro o ho hin
        obtain ⟨a, ha, hobj⟩ := h.used o ho
        exact hin.not_of_apart (hapart a ha) hobj
      rw [slabAllocatorGrow, wp_bind, wp_modify, wp_pure]
      refine ⟨?_, nofun, fun _ => ?_⟩
      · constructor
        · exact List.nodup_cons.mpr ⟨fun hmem => hnew _ hmem rfl, h.nodup⟩
        · intro a ha b hb hne
          rcases List.mem_cons.mp ha with rfl | ha
          · have hb := (List.mem_cons.mp hb).resolve_left (Ne.symm hne)
            simp only [Function.update_self, Function.update_of_ne (hnew b hb)]
            exact hapart b hb
          · rcases List.mem_cons.mp hb with rfl | hb
            · simp only [Function.update_self, Function.update_of_ne (hnew a ha)]
              exact (hapart a ha).symm
            · simp only [Function.update_of_ne (hnew a ha), Function.update_of_ne (hnew b hb)]
              exact h.apart a ha b hb hne
        · intro a ha
          rcases List.mem_cons.mp ha with rfl | ha
          · exact ⟨_, books_new hpos hunused (Function.update_self ..) (fun o ho => if_pos ho)
              fun o ho => if_pos ho⟩
          · obtain ⟨l, hl⟩ := h.books a ha
            refine ⟨l, hl.congr (Function.update_of_ne (hnew a ha) ..) ?_⟩
            intro o ho
            have hout : ¬ k.IsObject addr o := fun hin => hin.not_of_apart (hapart a ha) ho
            exact ⟨if_neg hout, if_neg hout, Iff.rfl⟩
        · intro o ho
          obtain ⟨a, ha, hobj⟩ := h.used o ho
          refine ⟨a, List.mem_cons_of_mem _ ha, ?_⟩
          simp only [Function.update_of_ne (hnew a ha)]
          exact hobj
      · have hroom : (0 : Nat) ≠ k.saSlabNobjs := Nat.ne_of_lt k.pos
        simp [SlabState.partly, hroom]

/-! ### Allocating and freeing -/

theorem wp_takePartly (h : SlabInv k used s) (hfind : s.partly k = some slab) :
    wp (slabTake slab >>= fun obj => pure (some obj))
      (fun r s' => ∃ addr, r = some addr ∧ Given k used addr s') s := by
  have hmem := List.mem_of_find?_eq_some hfind
  have hroom := List.find?_some hfind
  rw [decide_eq_true_eq] at hroom
  refine wp_bind_of (wp_slabTake h hmem hroom) fun addr s' hgiven => ?_
  exact wp_pure.mpr ⟨addr, rfl, hgiven⟩

/-- An object is given, or there is no free object and no page. -/
theorem wp_slabObjAlloc (h : SlabInv k used s) (hfresh : SlabFresh k s fresh) :
    wp (slabObjAlloc k fresh) (fun r s' => (∃ addr, r = some addr ∧ Given k used addr s') ∨
      (r = none ∧ fresh = none ∧ s.partly k = none ∧ SlabInv k used s')) s := by
  rw [slabObjAlloc, wp_bind, wp_get]
  cases hfind : s.partly k with
  | some slab => exact wp_mono (wp_takePartly h hfind) fun r s' hr => Or.inl hr
  | none =>
      simp only []
      refine wp_bind_of (wp_slabAllocatorGrow h hfresh) ?_
      rintro r s₁ ⟨h₁, hnone, hsome⟩
      cases r with
      | false => exact wp_pure.mpr (Or.inr ⟨rfl, hnone rfl, trivial, h₁⟩)
      | true =>
          simp only []
          rw [wp_bind, wp_get]
          cases hfind₁ : s₁.partly k with
          | none => exact absurd hfind₁ (hsome rfl)
          | some slab => exact wp_mono (wp_takePartly h₁ hfind₁) fun r s' hr => Or.inl hr

/-- An object in use goes to the front of the free list. -/
theorem SlabBooks.freed (h : SlabBooks k s used slab l) (hin : k.IsObject (s.slab slab).sAddr obj)
    (hused : used obj)
    (hslab : s'.slab slab = ⟨(s.slab slab).sInuse - 1, obj, (s.slab slab).sAddr⟩)
    (hbufctl : s'.bufctl = Function.update s.bufctl obj ⟨(s.slab slab).sFree, true⟩)
    (hredzones : s'.redzones = s.redzones) :
    SlabBooks k s' (fun o => o ≠ obj ∧ used o) slab (obj :: l) := by
  have hnotMem : obj ∉ l := fun hmem => ((h.mem obj).mp hmem).2 hused
  have hzero : obj ≠ 0 := Nat.ne_of_gt (Nat.lt_of_lt_of_le h.pos hin.inside.1)
  constructor
  · rw [hslab]
    exact h.place
  · rw [hslab]
    exact h.pos
  · rw [hslab, hbufctl]
    apply FreeList.Chain.cons hzero
    rw [Function.update_self]
    apply h.chain.congr
    intro o ho
    have hne : o ≠ obj := by
      rintro rfl
      exact hnotMem ho
    rw [Function.update_of_ne hne]
  · exact List.nodup_cons.mpr ⟨hnotMem, h.nodup⟩
  · intro o
    rw [hslab, List.mem_cons, h.mem]
    by_cases hobj : o = obj
    · subst hobj
      simp [hin]
    · simp [hobj]
  · have hcount := h.count
    have hinuse := h.inuse_ne_zero hin hused
    rw [hslab, List.length_cons]
    simp only []
    omega
  · intro o ho
    rw [hslab] at ho
    rw [hredzones]
    exact h.redzones o ho
  · intro o ho
    rw [hslab] at ho
    rw [hbufctl]
    by_cases hobj : o = obj
    · subst hobj
      simp
    · rw [Function.update_of_ne hobj, and_iff_right hobj]
      exact h.free o ho
  · intro o ho hu
    rw [hslab] at ho
    rw [hbufctl, Function.update_of_ne hu.1]
    exact h.home o ho hu.2

theorem wp_slabObjFree (h : SlabInv k used s) (hused : used obj) :
    wp (slabObjFree (obj + sizeofRedzone))
      (fun _ s' => SlabInv k (fun o => o ≠ obj ∧ used o) s') s := by
  obtain ⟨slab, hslab, hin⟩ := h.used obj hused
  obtain ⟨l, hl⟩ := h.books slab hslab
  have hfree : (s.bufctl obj).sbFree = false := by
    rw [Bool.eq_false_iff]
    exact fun heq => (hl.free obj hin).mp heq hused
  have hhome := hl.home obj hin hused
  rw [slabObjFree, wp_bind, wp_get]
  simp only [Nat.add_sub_cancel]
  rw [wp_bind, wp_check, wp_bind, wp_check, hfree, wp_modify, hhome]
  refine ⟨hl.redzones obj hin, rfl, ?_⟩
  refine h.update (l := obj :: l) hslab rfl ?_ ?_ ?_ ?_
  · simp only [Function.update_self]
  · intro a ha
    exact Function.update_of_ne ha ..
  · intro o ho
    have hne : o ≠ obj := by
      rintro rfl
      exact ho hin
    exact ⟨Function.update_of_ne hne .., rfl, and_iff_right hne⟩
  · exact hl.freed hin hused (Function.update_self ..) rfl rfl

/-! ### Reclaiming -/

/-- The slabs that stay are some of the slabs, those in use among them, and the others are
counted. -/
theorem reclaimSlabs_spec (s : SlabState) (target : Int) (freed : Nat) (slabs : List Nat) :
    (reclaimSlabs k s target freed slabs).1.Sublist slabs ∧
    (∀ slab ∈ slabs, (s.slab slab).sInuse ≠ 0 →
      slab ∈ (reclaimSlabs k s target freed slabs).1) ∧
    (reclaimSlabs k s target freed slabs).2 =
      freed + (slabs.length - (reclaimSlabs k s target freed slabs).1.length) * 2 ^ k.saOrder := by
  induction slabs generalizing freed with
  | nil =>
      rw [reclaimSlabs]
      exact ⟨List.Sublist.refl _, nofun, by simp⟩
  | cons slab rest ih =>
      by_cases hunused : (s.slab slab).sInuse = 0
      · by_cases hmet : 0 < target ∧ target ≤ ((freed + 2 ^ k.saOrder : Nat) : Int)
        · have heq : reclaimSlabs k s target freed (slab :: rest) =
              (rest, freed + 2 ^ k.saOrder) := by
            simp only [reclaimSlabs, if_pos hunused, if_pos hmet]
          rw [heq]
          refine ⟨List.sublist_cons_self _ _, ?_, ?_⟩
          · intro a ha hne
            refine (List.mem_cons.mp ha).resolve_left ?_
            rintro rfl
            exact hne hunused
          · have hone : (slab :: rest).length - rest.length = 1 := by
              rw [List.length_cons]
              omega
            rw [hone, Nat.one_mul]
        · have heq : reclaimSlabs k s target freed (slab :: rest) =
              reclaimSlabs k s target (freed + 2 ^ k.saOrder) rest := by
            simp only [reclaimSlabs, if_pos hunused, if_neg hmet]
          obtain ⟨hsub, hstay, hcount⟩ := ih (freed + 2 ^ k.saOrder)
          have hle := hsub.length_le
          rw [heq]
          refine ⟨hsub.cons _, ?_, ?_⟩
          · intro a ha hne
            refine hstay a ((List.mem_cons.mp ha).resolve_left ?_) hne
            rintro rfl
            exact hne hunused
          · have hone : (slab :: rest).length -
                (reclaimSlabs k s target (freed + 2 ^ k.saOrder) rest).1.length =
                rest.length -
                  (reclaimSlabs k s target (freed + 2 ^ k.saOrder) rest).1.length + 1 := by
              rw [List.length_cons]
              omega
            rw [hcount, hone, Nat.succ_mul]
            omega
      · by_cases hmet : 0 < target ∧ target ≤ (freed : Int)
        · have heq : reclaimSlabs k s target freed (slab :: rest) = (slab :: rest, freed) := by
            simp only [reclaimSlabs, if_neg hunused, if_pos hmet]
          rw [heq]
          exact ⟨List.Sublist.refl _, fun a ha _ => ha, by simp⟩
        · have heq : reclaimSlabs k s target freed (slab :: rest) =
              (slab :: (reclaimSlabs k s target freed rest).1,
                (reclaimSlabs k s target freed rest).2) := by
            simp only [reclaimSlabs, if_neg hunused, if_neg hmet]
          obtain ⟨hsub, hstay, hcount⟩ := ih freed
          rw [heq]
          refine ⟨hsub.cons_cons _, ?_, ?_⟩
          · intro a ha hne
            rcases List.mem_cons.mp ha with rfl | ha
            · exact List.mem_cons_self
            · exact List.mem_cons_of_mem _ (hstay a ha hne)
          · rw [List.length_cons, List.length_cons, Nat.add_sub_add_right]
            exact hcount

theorem wp_slabAllocatorsReclaim (h : SlabInv k used s) (target : Int) (freed : Nat) :
    wp (slabAllocatorsReclaim k target freed) (fun r s' => SlabInv k used s' ∧
      r = freed + (s.saSlabs.length - s'.saSlabs.length) * 2 ^ k.saOrder) s := by
  obtain ⟨hsub, hstay, hcount⟩ := reclaimSlabs_spec (k := k) s target freed s.saSlabs
  rw [slabAllocatorsReclaim, wp_bind, wp_get]
  simp only []
  rw [wp_bind, wp_modify, wp_pure]
  refine ⟨?_, hcount⟩
  constructor
  · exact hsub.nodup h.nodup
  · intro a ha b hb hne
    exact h.apart a (hsub.subset ha) b (hsub.subset hb) hne
  · intro a ha
    obtain ⟨l, hl⟩ := h.books a (hsub.subset ha)
    exact ⟨l, hl.congr rfl fun o _ => ⟨rfl, rfl, Iff.rfl⟩⟩
  · intro o ho
    obtain ⟨a, ha, hobj⟩ := h.used o ho
    obtain ⟨l, hl⟩ := h.books a ha
    exact ⟨a, hstay a ha (hl.inuse_ne_zero hobj ho), hobj⟩

/-! ### Runs -/

/-- A call on the allocator. -/
inductive SlabCall where
  | alloc (fresh : Option Nat)
  | free (addr : Nat)
  | reclaim (target : Int) (freed : Nat)

namespace SlabCall

def run (k : SlabKind) : SlabCall → SlabProg (Option Nat)
  | alloc fresh => slabObjAlloc k fresh
  | free addr => slabObjFree addr >>= fun _ => pure none
  | reclaim target freed => slabAllocatorsReclaim k target freed >>= fun n => pure (some n)

/-- When a call may be made: only what was allocated is freed. -/
def Made (k : SlabKind) (s : SlabState) (used : Nat → Prop) : SlabCall → Prop
  | alloc fresh => SlabFresh k s fresh
  | free addr => ∃ obj, used obj ∧ addr = obj + sizeofRedzone
  | reclaim _ _ => True

/-- The objects in use after a call that returned `r`. -/
def after (r : Option Nat) (used : Nat → Prop) : SlabCall → Nat → Prop
  | alloc _ => fun o => r = some (o + sizeofRedzone) ∨ used o
  | free addr => fun o => o + sizeofRedzone ≠ addr ∧ used o
  | reclaim _ _ => used

end SlabCall

/-- An allocator with no slabs. -/
def slabStart (slab : Nat → Slab) (bufctl : Nat → SlabBufctl) (redzones : Nat → Bool) : SlabState :=
  ⟨[], slab, bufctl, redzones⟩

/-- `SlabRun k s₀ s used`: calls lead from `s₀` to `s` and leave these objects in use. -/
inductive SlabRun (k : SlabKind) (s₀ : SlabState) : SlabState → (Nat → Prop) → Prop
  | start : SlabRun k s₀ s₀ fun _ => False
  | call {s s' : SlabState} {used : Nat → Prop} {c : SlabCall} {r : Option Nat} :
      SlabRun k s₀ s used → c.Made k s used → c.run k s = .ok (r, s') →
        SlabRun k s₀ s' (c.after r used)

/-- What a call returns: a new object, or nothing because there is neither a free object nor a
page. -/
def SlabCall.Answer (k : SlabKind) (s s' : SlabState) (used : Nat → Prop) (r : Option Nat) :
    SlabCall → Prop
  | alloc fresh => (∃ obj, r = some (obj + sizeofRedzone) ∧ ¬ used obj ∧
      ∃ slab ∈ s'.saSlabs, k.IsObject (s'.slab slab).sAddr obj) ∨
      (r = none ∧ fresh = none ∧ s.partly k = none)
  | free _ => True
  | reclaim _ freed =>
      r = some (freed + (s.saSlabs.length - s'.saSlabs.length) * 2 ^ k.saOrder)

/-- The step lemma. -/
theorem SlabCall.wp_run {c : SlabCall} (h : SlabInv k used s) (hmade : c.Made k s used) :
    wp (c.run k) (fun r s' => SlabInv k (c.after r used) s' ∧ c.Answer k s s' used r) s := by
  cases c with
  | alloc fresh =>
      refine wp_mono (wp_slabObjAlloc h hmade) ?_
      rintro r s' (⟨addr, rfl, obj, rfl, hunused, hin, hs'⟩ | ⟨rfl, hnone, hfull, hs'⟩)
      · refine ⟨?_, Or.inl ⟨obj, rfl, hunused, hin⟩⟩
        have hsame : after (some (obj + sizeofRedzone)) used (.alloc fresh) =
            fun o => o = obj ∨ used o := by
          funext o
          simp [after, eq_comm]
        rw [hsame]
        exact hs'
      · refine ⟨?_, Or.inr ⟨rfl, hnone, hfull⟩⟩
        have hsame : after none used (.alloc fresh) = used := by
          funext o
          simp [after]
        rw [hsame]
        exact hs'
  | free addr =>
      obtain ⟨obj, hused, rfl⟩ := hmade
      refine wp_bind_of (wp_slabObjFree h hused) fun _ s' hs' => ?_
      refine wp_pure.mpr ⟨?_, trivial⟩
      have hsame : after none used (.free (obj + sizeofRedzone)) = fun o => o ≠ obj ∧ used o := by
        funext o
        simp [after]
      rw [hsame]
      exact hs'
  | reclaim target freed =>
      refine wp_bind_of (wp_slabAllocatorsReclaim h target freed) ?_
      rintro n s' ⟨hs', rfl⟩
      exact wp_pure.mpr ⟨hs', rfl⟩

theorem slabInv_slabStart {slab : Nat → Slab} {bufctl : Nat → SlabBufctl} {redzones : Nat → Bool} :
    SlabInv k (fun _ => False) (slabStart slab bufctl redzones) :=
  ⟨List.nodup_nil, fun _ ha => absurd ha List.not_mem_nil, fun _ ha => absurd ha List.not_mem_nil,
    fun _ ho => ho.elim⟩

/-- The run lemma. -/
theorem SlabRun.slabInv {slab : Nat → Slab} {bufctl : Nat → SlabBufctl} {redzones : Nat → Bool}
    (h : SlabRun k (slabStart slab bufctl redzones) s used) : SlabInv k used s := by
  induction h with
  | start => exact slabInv_slabStart
  | call _ hmade hrun ih => exact ((wp_of_eq hrun).mp (SlabCall.wp_run ih hmade)).1

/-- Objects of one slab do not overlap. -/
theorem SlabKind.IsObject.apart {o o' : Nat} (h : k.IsObject addr o) (h' : k.IsObject addr o')
    (hne : o ≠ o') : o + k.stride ≤ o' ∨ o' + k.stride ≤ o := by
  have hindex : k.index addr o ≠ k.index addr o' := by
    intro heq
    exact hne (h.2.trans (heq ▸ h'.2.symm))
  rcases Nat.lt_or_gt_of_ne hindex with hlt | hlt
  · left
    rw [h.2, h'.2, SlabKind.object_succ]
    exact Nat.add_le_add_left (Nat.mul_le_mul_right _ hlt) _
  · right
    rw [h.2, h'.2, SlabKind.object_succ]
    exact Nat.add_le_add_left (Nat.mul_le_mul_right _ hlt) _

/-- The allocator for objects of 64 bytes between red zones. -/
def size64 : SlabKind := ⟨72, 0, 51, by decide⟩

end CodingSample.Mm
