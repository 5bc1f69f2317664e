import CodingSample.Raytracing.KdTree
import Mathlib.Tactic.Ring

/-!
# Candidates for a split plane

A candidate on a face of the box never pays, so a chosen plane runs through the inside of the box,
and the two sides of a box with a surface have one as well.
-/

namespace CodingSample.Raytracing

open Prog

variable {R : Type} [Field R]

/-- The two sides of a box cut at `s`. -/
def AABB.halves (b : AABB R) (axis : Fin 3) (s : R) : AABB R × AABB R :=
  KdTree.cut axis (b.pos axis) (b.stop axis) s (b, b)

namespace AABB

variable {b : AABB R} {axis k : Fin 3} {s : R}

@[simp] theorem halves_left_pos : (b.halves axis s).1.pos = b.pos := rfl

@[simp] theorem halves_left_size_self : (b.halves axis s).1.size axis = s - b.pos axis :=
  setSize_size_self

theorem halves_left_size_of_ne (h : k ≠ axis) : (b.halves axis s).1.size k = b.size k :=
  setSize_size_of_ne h

@[simp] theorem halves_right_pos_self : (b.halves axis s).2.pos axis = s := setPos_pos_self

theorem halves_right_pos_of_ne (h : k ≠ axis) : (b.halves axis s).2.pos k = b.pos k :=
  setPos_pos_of_ne h

@[simp] theorem halves_right_size_self : (b.halves axis s).2.size axis = b.stop axis - s :=
  setSize_size_self

theorem halves_right_size_of_ne (h : k ≠ axis) : (b.halves axis s).2.size k = b.size k :=
  setSize_size_of_ne h

theorem halves_left_stop_self : (b.halves axis s).1.stop axis = s := by
  rw [stop_apply, halves_left_pos, halves_left_size_self]
  ring

theorem halves_left_stop_of_ne (h : k ≠ axis) : (b.halves axis s).1.stop k = b.stop k := by
  rw [stop_apply, stop_apply, halves_left_pos, halves_left_size_of_ne h]

theorem halves_right_stop_self : (b.halves axis s).2.stop axis = b.stop axis := by
  rw [stop_apply, halves_right_pos_self, halves_right_size_self]
  ring

theorem halves_right_stop_of_ne (h : k ≠ axis) : (b.halves axis s).2.stop k = b.stop k := by
  rw [stop_apply, stop_apply, halves_right_pos_of_ne h, halves_right_size_of_ne h]

theorem halves_right_start : (b.halves axis (b.pos axis)).2 = b := by
  have hpos : (b.halves axis (b.pos axis)).2.pos = b.pos := by
    funext k
    by_cases hk : k = axis
    · rw [hk, halves_right_pos_self]
    · exact halves_right_pos_of_ne hk
  have hsize : (b.halves axis (b.pos axis)).2.size = b.size := by
    funext k
    by_cases hk : k = axis
    · rw [hk, halves_right_size_self, stop_apply]
      ring
    · exact halves_right_size_of_ne hk
  calc (b.halves axis (b.pos axis)).2
      = ⟨(b.halves axis (b.pos axis)).2.pos, (b.halves axis (b.pos axis)).2.size⟩ := rfl
    _ = b := by rw [hpos, hsize]

theorem halves_left_stop : (b.halves axis (b.stop axis)).1 = b := by
  have hsize : (b.halves axis (b.stop axis)).1.size = b.size := by
    funext k
    by_cases hk : k = axis
    · rw [hk, halves_left_size_self, stop_apply]
      ring
    · exact halves_left_size_of_ne hk
  calc (b.halves axis (b.stop axis)).1
      = ⟨b.pos, (b.halves axis (b.stop axis)).1.size⟩ := rfl
    _ = b := by rw [hsize]

end AABB

variable [LinearOrder R]

/-- What a cut leaves: the points of the box on either side of the plane. -/
structure Halves (box : AABB R) (axis : Fin 3) (split : R) (left right : AABB R) : Prop where
  left_inside : left.Inside box
  right_inside : right.Inside box
  left_iff : ∀ p, left.contains p = true ↔ box.contains p = true ∧ p axis ≤ split
  right_iff : ∀ p, right.contains p = true ↔ box.contains p = true ∧ split ≤ p axis

/-- The children of a node cover its box, lie inside it and overlap only in the split plane. -/
structure Covered (box : AABB R) (axis : Fin 3) (split : R) (left right : AABB R) : Prop where
  covers : ∀ p, box.contains p = true → left.contains p = true ∨ right.contains p = true
  overlap : ∀ p, left.contains p = true → right.contains p = true → p axis = split
  left_inside : left.Inside box
  right_inside : right.Inside box

theorem Halves.covered {box left right : AABB R} {axis : Fin 3} {split : R}
    (h : Halves box axis split left right) : Covered box axis split left right where
  covers p hp := by
    rcases le_total (p axis) split with hle | hle
    · exact .inl ((h.left_iff p).mpr ⟨hp, hle⟩)
    · exact .inr ((h.right_iff p).mpr ⟨hp, hle⟩)
  overlap p hl hr := ((h.left_iff p).mp hl).2.antisymm ((h.right_iff p).mp hr).2
  left_inside := h.left_inside
  right_inside := h.right_inside

namespace AABB

variable {b : AABB R} {axis : Fin 3} {s : R}

/-- A plane between two faces cuts a box into its two sides. -/
theorem halves_spec (hlow : b.pos axis ≤ s) (hhigh : s ≤ b.stop axis) :
    Halves b axis s (b.halves axis s).1 (b.halves axis s).2 where
  left_inside k := by
    refine ⟨le_rfl, ?_⟩
    by_cases hk : k = axis
    · rw [hk, halves_left_stop_self]
      exact hhigh
    · rw [halves_left_stop_of_ne hk]
  right_inside k := by
    by_cases hk : k = axis
    · rw [hk, halves_right_pos_self, halves_right_stop_self]
      exact ⟨hlow, le_rfl⟩
    · rw [halves_right_pos_of_ne hk, halves_right_stop_of_ne hk]
      exact ⟨le_rfl, le_rfl⟩
  left_iff p := by
    rw [contains_iff, contains_iff]
    constructor
    · intro h
      have haxis := (h axis).2
      rw [halves_left_stop_self] at haxis
      refine ⟨fun k => ?_, haxis⟩
      by_cases hk : k = axis
      · rw [hk]
        exact ⟨(h axis).1, haxis.trans hhigh⟩
      · rw [← halves_left_stop_of_ne hk (s := s)]
        exact h k
    · rintro ⟨h, haxis⟩ k
      by_cases hk : k = axis
      · rw [hk, halves_left_stop_self]
        exact ⟨(h axis).1, haxis⟩
      · rw [halves_left_stop_of_ne hk]
        exact h k
  right_iff p := by
    rw [contains_iff, contains_iff]
    constructor
    · intro h
      have haxis := h axis
      rw [halves_right_pos_self, halves_right_stop_self] at haxis
      refine ⟨fun k => ?_, haxis.1⟩
      by_cases hk : k = axis
      · rw [hk]
        exact ⟨hlow.trans haxis.1, haxis.2⟩
      · rw [← halves_right_stop_of_ne hk (s := s), ← halves_right_pos_of_ne hk (s := s)]
        exact h k
    · rintro ⟨h, haxis⟩ k
      by_cases hk : k = axis
      · rw [hk, halves_right_pos_self, halves_right_stop_self]
        exact ⟨haxis, (h axis).2⟩
      · rw [halves_right_stop_of_ne hk, halves_right_pos_of_ne hk]
        exact h k

end AABB

namespace KdTree

variable {axis : Fin 3} {posStart posEnd v s t SAV : R} {tmp : AABB R × AABB R} {b : AABB R}
  {parray : List (Slab R)} {l : List (SplitNode R)} {objs : List (SceneObject R)}

/-! ### Counting and choosing -/

omit [LinearOrder R] in
/-- The temporaries keep no trace of the candidates before. -/
theorem cut_cut :
    cut axis posStart posEnd s (cut axis posStart posEnd t tmp) =
      cut axis posStart posEnd s tmp := by
  simp only [cut, AABB.setSize_setSize, AABB.setSize_setPos, AABB.setPos_setPos]

/-- A candidate with the objects on its two sides counted. -/
def counted (parray : List (Slab R)) (axis : Fin 3) (posStart posEnd : R) (tmp : AABB R × AABB R)
    (c : SplitNode R) : SplitNode R :=
  let sides := cut axis posStart posEnd c.splitPos tmp
  { c with
    leftCount := c.leftCount +
      parray.countP (·.meets sides.1 posStart (sides.1.pos axis + sides.1.size axis))
    rightCount := c.rightCount + parray.countP (·.meets sides.2 (sides.2.pos axis) posEnd) }

theorem countSplits_eq_map :
    countSplits parray axis posStart posEnd tmp l =
      l.map (counted parray axis posStart posEnd tmp) := by
  induction l generalizing tmp with
  | nil => rfl
  | cons c l ih =>
      have hrest : counted parray axis posStart posEnd (cut axis posStart posEnd c.splitPos tmp) =
          counted parray axis posStart posEnd tmp := by
        funext d
        simp only [counted, cut_cut]
      rw [countSplits, ih, hrest]
      rfl

/-- A candidate as the cheapest cut. -/
def Best.of (SAV : R) (axis : Fin 3) (posStart posEnd : R) (tmp : AABB R × AABB R)
    (c : SplitNode R) : Best R :=
  let sides := cut axis posStart posEnd c.splitPos tmp
  ⟨splitcost SAV sides.1.calculateSA sides.2.calculateSA c, c.splitPos, sides.1, sides.2⟩

theorem bestSplit_cases (best : Best R) :
    bestSplit SAV axis posStart posEnd best tmp l = best ∨
      ∃ c ∈ l, bestSplit SAV axis posStart posEnd best tmp l =
        Best.of SAV axis posStart posEnd tmp c := by
  induction l generalizing best tmp with
  | nil => exact .inl rfl
  | cons c l ih =>
      have hrest : Best.of SAV axis posStart posEnd (cut axis posStart posEnd c.splitPos tmp) =
          Best.of SAV axis posStart posEnd tmp := by
        funext d
        simp only [Best.of, cut_cut]
      rw [bestSplit]
      rcases @ih (cut axis posStart posEnd c.splitPos tmp) _ with h | ⟨d, hd, h⟩
      · rw [h]
        split
        · exact .inr ⟨c, List.mem_cons_self, rfl⟩
        · exact .inl rfl
      · rw [h, hrest]
        exact .inr ⟨d, List.mem_cons_of_mem c hd, rfl⟩

/-- The test on the axis is part of the test on the boxes. -/
theorem slab_meets {p : SceneObject R} {stop : R} (hstop : b.stop axis = stop) :
    (slab axis p).meets b (b.pos axis) stop = p.boundingBox.intersectAABB b := by
  rw [Bool.eq_iff_iff, Slab.meets, Bool.and_eq_true, Bool.and_eq_true, decide_eq_true_iff,
    decide_eq_true_iff]
  refine ⟨fun h => h.2, fun h => ⟨?_, h⟩⟩
  have haxis := AABB.intersectAABB_iff.mp h axis
  rw [hstop] at haxis
  exact ⟨haxis.2, haxis.1⟩

theorem counted_slabs (c : SplitNode R) :
    counted (objs.map (slab axis)) axis (b.pos axis) (b.stop axis) (b, b) c =
      { c with
        leftCount := c.leftCount + objs.countP
          fun o => o.boundingBox.intersectAABB (b.halves axis c.splitPos).1
        rightCount := c.rightCount + objs.countP
          fun o => o.boundingBox.intersectAABB (b.halves axis c.splitPos).2 } := by
  have hleft : ∀ o : SceneObject R,
      (slab axis o).meets (b.halves axis c.splitPos).1 (b.pos axis)
          ((b.halves axis c.splitPos).1.pos axis + (b.halves axis c.splitPos).1.size axis) =
        o.boundingBox.intersectAABB (b.halves axis c.splitPos).1 :=
    fun o => slab_meets rfl
  have hright : ∀ o : SceneObject R,
      (slab axis o).meets (b.halves axis c.splitPos).2 ((b.halves axis c.splitPos).2.pos axis)
          (b.stop axis) = o.boundingBox.intersectAABB (b.halves axis c.splitPos).2 :=
    fun o => slab_meets AABB.halves_right_stop_self
  simp only [counted, List.countP_map]
  congr 2
  · exact List.countP_congr fun o _ => by rw [← hleft o]; rfl
  · exact List.countP_congr fun o _ => by rw [← hright o]; rfl

end KdTree

variable [IsStrictOrderedRing R]

namespace AABB

variable {b : AABB R} {axis : Fin 3} {s : R}

theorem Proper.halves_left (h : b.Proper) (hlow : b.pos axis ≤ s) :
    (b.halves axis s).1.Proper := by
  intro k
  by_cases hk : k = axis
  · rw [hk, halves_left_size_self]
    exact sub_nonneg.mpr hlow
  · rw [halves_left_size_of_ne hk]
    exact h k

theorem Proper.halves_right (h : b.Proper) (hhigh : s ≤ b.stop axis) :
    (b.halves axis s).2.Proper := by
  intro k
  by_cases hk : k = axis
  · rw [hk, halves_right_size_self]
    exact sub_nonneg.mpr hhigh
  · rw [halves_right_size_of_ne hk]
    exact h k

theorem Proper.calculateSA_nonneg (h : b.Proper) : 0 ≤ b.calculateSA := by
  have h0 := h 0
  have h1 := h 1
  have h2 := h 2
  rw [calculateSA]
  positivity

end AABB

/-- With two sides kept and the third changed to a positive length, a surface stays one. -/
theorem area_pos {x x' y z : R} (hx' : 0 < x') (hy : 0 ≤ y) (hz : 0 ≤ z)
    (harea : 0 < x * y + x * z + y * z) : 0 < x' * y + x' * z + y * z := by
  rcases hy.eq_or_lt with rfl | hy
  · rcases hz.eq_or_lt with rfl | hz
    · simp at harea
    · have := mul_pos hx' hz
      linarith
  · have hxy := mul_pos hx' hy
    have hxz := mul_nonneg hx'.le hz
    have hyz := mul_nonneg hy.le hz
    linarith

namespace AABB

variable {b b' : AABB R} {axis : Fin 3} {s : R}

theorem calculateSA_pos_of_side (axis : Fin 3) (hproper : b'.Proper) (hside : 0 < b'.size axis)
    (hsame : ∀ k, k ≠ axis → b'.size k = b.size k) (hb : 0 < b.calculateSA) :
    0 < b'.calculateSA := by
  have h0 := hproper 0
  have h1 := hproper 1
  have h2 := hproper 2
  rw [calculateSA] at hb ⊢
  fin_cases axis
  · rw [← hsame 1 (by decide), ← hsame 2 (by decide)] at hb
    have := area_pos (x := b.size 0) hside h1 h2 (by linarith)
    simp only [Fin.zero_eta] at this
    linarith
  · rw [← hsame 0 (by decide), ← hsame 2 (by decide)] at hb
    have := area_pos (x := b.size 1) hside h0 h2 (by linarith)
    simp only [Fin.mk_one] at this
    linarith
  · rw [← hsame 0 (by decide), ← hsame 1 (by decide)] at hb
    have := area_pos (x := b.size 2) hside h0 h1 (by linarith)
    simp only [Fin.reduceFinMk] at this
    linarith

theorem calculateSA_halves_left_pos (h : b.Proper) (hb : 0 < b.calculateSA)
    (hlow : b.pos axis < s) : 0 < (b.halves axis s).1.calculateSA := by
  refine calculateSA_pos_of_side axis (h.halves_left hlow.le) ?_ ?_ hb
  · rw [halves_left_size_self]
    exact sub_pos.mpr hlow
  · exact fun k hk => halves_left_size_of_ne hk

theorem calculateSA_halves_right_pos (h : b.Proper) (hb : 0 < b.calculateSA)
    (hhigh : s < b.stop axis) : 0 < (b.halves axis s).2.calculateSA := by
  refine calculateSA_pos_of_side axis (h.halves_right hhigh.le) ?_ ?_ hb
  · rw [halves_right_size_self]
    exact sub_pos.mpr hhigh
  · exact fun k hk => halves_right_size_of_ne hk

end AABB

namespace KdTree

variable {axis : Fin 3} {b : AABB R} {objs : List (SceneObject R)}

/-- A candidate on a face costs more than no split, so a cheap one lies strictly between. -/
theorem between_of_cheap {c : SplitNode R} (hb : b.Proper) (harea : 0 < b.calculateSA)
    (hobjs : ∀ o ∈ objs, o.boundingBox.intersectAABB b = true)
    (hlow : b.pos axis ≤ c.splitPos) (hhigh : c.splitPos ≤ b.stop axis)
    (hleft : c.leftCount = objs.countP
      fun o => o.boundingBox.intersectAABB (b.halves axis c.splitPos).1)
    (hright : c.rightCount = objs.countP
      fun o => o.boundingBox.intersectAABB (b.halves axis c.splitPos).2)
    (hcheap : splitcost (1 / b.calculateSA) (b.halves axis c.splitPos).1.calculateSA
      (b.halves axis c.splitPos).2.calculateSA c ≤ objs.length) :
    b.pos axis < c.splitPos ∧ c.splitPos < b.stop axis := by
  have hall : objs.countP (fun o => o.boundingBox.intersectAABB b) = objs.length :=
    List.countP_eq_length.mpr hobjs
  have hcancel : b.calculateSA * (1 / b.calculateSA) = 1 := mul_one_div_cancel harea.ne'
  have hSAV : 0 ≤ 1 / b.calculateSA := (one_div_pos.mpr harea).le
  have hSA1 := (hb.halves_left hlow).calculateSA_nonneg
  have hSA2 := (hb.halves_right hhigh).calculateSA_nonneg
  rw [splitcost] at hcheap
  constructor
  · refine hlow.lt_of_ne fun heq => ?_
    rw [← heq] at hcheap hright hSA1
    rw [AABB.halves_right_start] at hcheap hright
    rw [hall] at hright
    have hnonneg := mul_nonneg (mul_nonneg hSA1 hSAV) (Nat.cast_nonneg' c.leftCount)
    rw [hright, hcancel] at hcheap
    linarith
  · refine hhigh.lt_of_ne fun heq => ?_
    rw [heq] at hcheap hleft hSA2
    rw [AABB.halves_left_stop] at hcheap hleft
    rw [hall] at hleft
    have hnonneg := mul_nonneg (mul_nonneg hSA2 hSAV) (Nat.cast_nonneg' c.rightCount)
    rw [hleft, hcancel] at hcheap
    linarith

end KdTree

end CodingSample.Raytracing
