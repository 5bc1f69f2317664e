import CodingSample.Raytracing.Built
import CodingSample.Raytracing.Traversal

/-!
# The tree finds what the scan finds

Along a ray the leaves are visited in order, no leaf the ray is in is left out, and each lists every
object that may be hit in it. So the first leaf whose least hit lies in its box has the least hit of
all.
-/

namespace CodingSample.Raytracing

open Prog

variable {R : Type} [Field R] [LinearOrder R] {eyePos d : Vector3 R}

/-! ### Tests of objects -/

section Tests

variable {i : Nat} {objs : List (SceneObject R)} {acc : Hit R} {o : SceneObject R}

/-- The least hit parameter, starting from a bound. -/
def leastHit (eyePos d : Vector3 R) (objs : List (SceneObject R)) (bound : R) : R :=
  objs.foldl (fun m o => if 0 < o.hit eyePos d ∧ o.hit eyePos d < m then o.hit eyePos d else m)
    bound

theorem Hit.test_cases (acc : Hit R) (eyePos d : Vector3 R) (o : SceneObject R) (i : Int) :
    ¬ (0 < o.hit eyePos d ∧ o.hit eyePos d < acc.minT) ∧
        (acc.test eyePos d o i).minT = acc.minT ∧
        (acc.test eyePos d o i).objectIndex = acc.objectIndex ∨
      (0 < o.hit eyePos d ∧ o.hit eyePos d < acc.minT) ∧
        (acc.test eyePos d o i).minT = o.hit eyePos d ∧
        (acc.test eyePos d o i).objectIndex = i := by
  by_cases h : 0 < o.hit eyePos d ∧ o.hit eyePos d < acc.minT
  · rw [test, if_pos h]
    exact .inr ⟨h, rfl, rfl⟩
  · rw [test, if_neg h]
    exact .inl ⟨h, rfl, rfl⟩

theorem scanObjects_minT (eyePos d : Vector3 R) (objs : List (SceneObject R)) (acc : Hit R) :
    (scanObjects eyePos d objs acc).minT = leastHit eyePos d objs acc.minT := by
  induction objs generalizing acc with
  | nil => rfl
  | cons o objs ih =>
      rw [leastHit, List.foldl_cons]
      rcases acc.test_cases eyePos d o o.arrayID with
        ⟨h, hminT, -⟩ | ⟨h, hminT, -⟩
      · rw [if_neg h, ← hminT]
        exact ih _
      · rw [if_pos h, ← hminT]
        exact ih _

/-- The result of testing objects: nothing was below the bound, or it is the index of an object
with the least hit. -/
theorem scanObjects_cases (eyePos d : Vector3 R) (objs : List (SceneObject R)) (acc : Hit R) :
    (scanObjects eyePos d objs acc).minT = acc.minT ∧
        (scanObjects eyePos d objs acc).objectIndex = acc.objectIndex ∨
      (scanObjects eyePos d objs acc).minT < acc.minT ∧ ∃ o ∈ objs, 0 < o.hit eyePos d ∧
        o.hit eyePos d = (scanObjects eyePos d objs acc).minT ∧
        (scanObjects eyePos d objs acc).objectIndex = o.arrayID := by
  induction objs generalizing acc with
  | nil => exact .inl ⟨rfl, rfl⟩
  | cons o objs ih =>
      change (scanObjects eyePos d objs (acc.test eyePos d o o.arrayID)).minT = _ ∧
        (scanObjects eyePos d objs (acc.test eyePos d o o.arrayID)).objectIndex = _ ∨
        (scanObjects eyePos d objs (acc.test eyePos d o o.arrayID)).minT < _ ∧ _
      rcases acc.test_cases eyePos d o o.arrayID with
        ⟨-, hminT, hindex⟩ | ⟨⟨hpos, hlt⟩, hminT, hindex⟩
      · rcases ih (acc.test eyePos d o o.arrayID) with ⟨h, hi⟩ | ⟨h, p, hp, hhit, hpT, hi⟩
        · exact .inl ⟨h.trans hminT, hi.trans hindex⟩
        · exact .inr ⟨hminT ▸ h, p, List.mem_cons_of_mem o hp, hhit, hpT, hi⟩
      · refine .inr ?_
        rcases ih (acc.test eyePos d o o.arrayID) with ⟨h, hi⟩ | ⟨h, p, hp, hhit, hpT, hi⟩
        · refine ⟨?_, o, List.mem_cons_self, hpos, ?_, hi.trans hindex⟩
          · rw [h, hminT]
            exact hlt
          · exact (h.trans hminT).symm
        · refine ⟨?_, p, List.mem_cons_of_mem o hp, hhit, hpT, hi⟩
          exact h.trans (hminT ▸ hlt)

/-- The least hit is below the bound and below every hit of the list. -/
theorem leastHit_le (eyePos d : Vector3 R) (objs : List (SceneObject R)) (bound : R) :
    leastHit eyePos d objs bound ≤ bound ∧
      ∀ o ∈ objs, 0 < o.hit eyePos d → leastHit eyePos d objs bound ≤ o.hit eyePos d := by
  induction objs generalizing bound with
  | nil => exact ⟨le_rfl, fun o ho => absurd ho List.not_mem_nil⟩
  | cons o objs ih =>
      rw [leastHit, List.foldl_cons]
      split_ifs with h
      · obtain ⟨hle, hall⟩ := ih (o.hit eyePos d)
        refine ⟨hle.trans h.2.le, fun p hp hpos => ?_⟩
        rcases List.mem_cons.mp hp with rfl | hp
        · exact hle
        · exact hall p hp hpos
      · obtain ⟨hle, hall⟩ := ih bound
        refine ⟨hle, fun p hp hpos => ?_⟩
        rcases List.mem_cons.mp hp with rfl | hp
        · exact hle.trans (not_lt.mp fun hlt => h ⟨hpos, hlt⟩)
        · exact hall p hp hpos

/-- A least hit below the bound is the hit of an object. -/
theorem exists_leastHit {bound : R} (h : leastHit eyePos d objs bound < bound) :
    ∃ o ∈ objs, 0 < o.hit eyePos d ∧ o.hit eyePos d = leastHit eyePos d objs bound := by
  have hminT := scanObjects_minT eyePos d objs ⟨bound, 0, 0, 0⟩
  rcases scanObjects_cases eyePos d objs ⟨bound, 0, 0, 0⟩ with
    ⟨heq, -⟩ | ⟨-, o, ho, hpos, hhit, -⟩
  · rw [hminT] at heq
    exact absurd heq h.ne
  · exact ⟨o, ho, hpos, hhit.trans hminT⟩

/-- The scan by position is the scan by identifier when the identifiers are the positions. -/
theorem linearScan_eq (objs : List (SceneObject R)) (acc : Hit R)
    (hids : ∀ j o, objs[j]? = some o → o.arrayID = i + j) :
    linearScan eyePos d i objs acc = scanObjects eyePos d objs acc := by
  induction objs generalizing i acc with
  | nil => rfl
  | cons o objs ih =>
      have ho : o.arrayID = i := hids 0 o rfl
      rw [linearScan, ih, ← ho]
      · rfl
      · intro j p hp
        rw [hids (j + 1) p hp]
        omega

end Tests

/-! ### The order of the leaves -/

section Order

variable [IsStrictOrderedRing R] {box left right : AABB R} {axis : Fin 3} {split near far : R}

/-- The position along an axis moves from the entry to the exit. -/
theorem between {t : R} (hnear : near ≤ t) (hfar : t ≤ far) (k : Fin 3) :
    min ((eyePos + near • d) k) ((eyePos + far • d) k) ≤ (eyePos + t • d) k ∧
      (eyePos + t • d) k ≤ max ((eyePos + near • d) k) ((eyePos + far • d) k) := by
  change min (eyePos k + near * d k) (eyePos k + far * d k) ≤ eyePos k + t * d k ∧
    eyePos k + t * d k ≤ max (eyePos k + near * d k) (eyePos k + far * d k)
  rcases le_total 0 (d k) with hd | hd
  · constructor
    · exact (min_le_left _ _).trans (by nlinarith)
    · exact le_trans (by nlinarith) (le_max_right _ _)
  · constructor
    · exact (min_le_right _ _).trans (by nlinarith)
    · exact le_trans (by nlinarith) (le_max_left _ _)

/-- The position of a ray along an axis at two parameters decides their order. -/
theorem le_of_pos_le {t u : R} (hlt : near < far)
    (hmove : (eyePos + near • d) axis < (eyePos + far • d) axis)
    (hle : (eyePos + t • d) axis ≤ (eyePos + u • d) axis) : t ≤ u := by
  change eyePos axis + near * d axis < eyePos axis + far * d axis at hmove
  change eyePos axis + t * d axis ≤ eyePos axis + u * d axis at hle
  have hpos : 0 < d axis := by
    by_contra hcon
    nlinarith
  by_contra hcon
  nlinarith

theorem le_of_pos_ge {t u : R} (hlt : near < far)
    (hmove : (eyePos + far • d) axis < (eyePos + near • d) axis)
    (hle : (eyePos + u • d) axis ≤ (eyePos + t • d) axis) : t ≤ u := by
  change eyePos axis + far * d axis < eyePos axis + near * d axis at hmove
  change eyePos axis + u * d axis ≤ eyePos axis + t * d axis at hle
  have hneg : d axis < 0 := by
    by_contra hcon
    nlinarith
  by_contra hcon
  nlinarith

/-- Both ends on the left: the ray is in the left box throughout. -/
theorem Halves.span_left (h : Halves box axis split left right)
    (hspan : ∀ t ∈ box.span eyePos d, near ≤ t ∧ t ≤ far)
    (hnear : (eyePos + near • d) axis ≤ split) (hfar : (eyePos + far • d) axis ≤ split) :
    box.span eyePos d ⊆ left.span eyePos d := by
  intro t ht
  obtain ⟨hn, hf⟩ := hspan t ht
  exact ⟨ht.1, (h.left_iff _).mpr ⟨ht.2, (between hn hf axis).2.trans (max_le hnear hfar)⟩⟩

/-- Both ends on the right. -/
theorem Halves.span_right (h : Halves box axis split left right)
    (hspan : ∀ t ∈ box.span eyePos d, near ≤ t ∧ t ≤ far)
    (hnear : split ≤ (eyePos + near • d) axis) (hfar : split ≤ (eyePos + far • d) axis) :
    box.span eyePos d ⊆ right.span eyePos d := by
  intro t ht
  obtain ⟨hn, hf⟩ := hspan t ht
  exact ⟨ht.1, (h.right_iff _).mpr ⟨ht.2, (le_min hnear hfar).trans (between hn hf axis).1⟩⟩

omit [IsStrictOrderedRing R] in
/-- In its box the ray is on one of the two sides. -/
theorem Halves.span_cover (h : Halves box axis split left right) {u : R}
    (hu : u ∈ box.span eyePos d) : u ∈ left.span eyePos d ∨ u ∈ right.span eyePos d :=
  (h.covered.covers _ hu.2).imp (fun hl => ⟨hu.1, hl⟩) fun hr => ⟨hu.1, hr⟩

/-- Leaves of a box in the order of the ray: they are in the box, none comes after a later one, and
none that the ray is in is missing. -/
structure AlongRay (eyePos d : Vector3 R) (box : AABB R) (leaves : List (Leaf R)) : Prop where
  within : ∀ l ∈ leaves, l.1.span eyePos d ⊆ box.span eyePos d
  ordered : InOrder (fun l : Leaf R => l.1.span eyePos d) leaves
  covers : ∀ u ∈ box.span eyePos d, ∃ l ∈ leaves, u ∈ l.1.span eyePos d

namespace AlongRay

variable {box₁ box₂ : AABB R} {leaves₁ leaves₂ : List (Leaf R)}

omit [IsStrictOrderedRing R] in
/-- A box with the same part of the ray. -/
theorem of_subset (h : AlongRay eyePos d box₁ leaves₁) (hin : box₁.Inside box)
    (hsub : box.span eyePos d ⊆ box₁.span eyePos d) : AlongRay eyePos d box leaves₁ :=
  ⟨fun l hl => (h.within l hl).trans hin.span, h.ordered, fun u hu => h.covers u (hsub hu)⟩

omit [IsStrictOrderedRing R] in
/-- The near side before the far side. -/
theorem append (h₁ : AlongRay eyePos d box₁ leaves₁) (h₂ : AlongRay eyePos d box₂ leaves₂)
    (hin₁ : box₁.Inside box) (hin₂ : box₂.Inside box)
    (hcovers : ∀ u ∈ box.span eyePos d, u ∈ box₁.span eyePos d ∨ u ∈ box₂.span eyePos d)
    (hle : ∀ t ∈ box₁.span eyePos d, ∀ u ∈ box₂.span eyePos d, t ≤ u) :
    AlongRay eyePos d box (leaves₁ ++ leaves₂) := by
  refine ⟨?_, h₁.ordered.append h₂.ordered h₁.within h₂.within hle, ?_⟩
  · intro l hl
    rcases List.mem_append.mp hl with hl | hl
    · exact (h₁.within l hl).trans hin₁.span
    · exact (h₂.within l hl).trans hin₂.span
  · intro u hu
    rcases hcovers u hu with hu | hu
    · obtain ⟨l, hl, hul⟩ := h₁.covers u hu
      exact ⟨l, List.mem_append_left _ hl, hul⟩
    · obtain ⟨l, hl, hul⟩ := h₂.covers u hu
      exact ⟨l, List.mem_append_right _ hl, hul⟩

end AlongRay

/-- The leaves of a tree are visited along the ray. -/
theorem Tree.visit_alongRay (hd : d ≠ 0) {t : Tree R} (ht : t.EachInner Halves) :
    AlongRay eyePos d t.box (t.visit 0 eyePos d) := by
  induction t with
  | leaf a box cells =>
      refine ⟨?_, List.pairwise_singleton _ _, fun u hu => ⟨_, List.mem_singleton_self _, hu⟩⟩
      intro l hl
      rw [List.mem_singleton.mp hl]
      exact subset_rfl
  | inner a box axis split l r ihl ihr =>
      obtain ⟨hhalves, hl, hr⟩ := ht
      have hspan := fun u (hu : u ∈ box.span eyePos d) => near_far_spec hd hu Prod.mk.eta.symm
      rw [Tree.visit]
      generalize (doIntersectRayKdBox 0 eyePos d box).2 = far at hspan ⊢
      generalize (if (doIntersectRayKdBox 0 eyePos d box).1 = far then (0 : R) else
        (doIntersectRayKdBox 0 eyePos d box).1) = near at hspan ⊢
      have hends : ∀ u ∈ box.span eyePos d, near ≤ u ∧ u ≤ far :=
        fun u hu => ⟨(hspan u hu).2.2.2, (hspan u hu).1⟩
      have hlt : ∀ u ∈ box.span eyePos d, near < far := fun u hu => (hspan u hu).2.2.1
      have hleftpos : ∀ u ∈ l.box.span eyePos d, (eyePos + u • d) axis ≤ split :=
        fun u hu => ((hhalves.left_iff _).mp hu.2).2
      have hrightpos : ∀ u ∈ r.box.span eyePos d, split ≤ (eyePos + u • d) axis :=
        fun u hu => ((hhalves.right_iff _).mp hu.2).2
      have hinl := hhalves.left_inside
      have hinr := hhalves.right_inside
      split_ifs with hnear hfar hfar
      · exact (ihl hl).of_subset hinl (hhalves.span_left hends hnear hfar)
      · refine (ihl hl).append (ihr hr) hinl hinr (fun u => hhalves.span_cover) fun t ht u hu => ?_
        exact le_of_pos_le (hlt t (hinl.span ht)) (hnear.trans_lt (not_le.mp hfar))
          ((hleftpos t ht).trans (hrightpos u hu))
      · exact (ihr hr).of_subset hinr (hhalves.span_right hends (not_le.mp hnear).le hfar.le)
      · refine (ihr hr).append (ihl hl) hinr hinl (fun u hu => (hhalves.span_cover hu).symm)
          fun t ht u hu => ?_
        exact le_of_pos_ge (hlt t (hinr.span ht)) ((not_lt.mp hfar).trans_lt (not_le.mp hnear))
          ((hleftpos u hu).trans (hrightpos t ht))

end Order

/-! ### The search -/

section Search

variable {epsilon : R} {objects : List (SceneObject R)} {acc : Hit R}

/-- The least hit a leaf has to offer. -/
def bestHit (eyePos d : Vector3 R) (l : Leaf R) : Option R :=
  if leastHit eyePos d l.2 (posInf R) = posInf R then none
  else some (leastHit eyePos d l.2 (posInf R))

/-- The hit lies in the box of the leaf, enlarged a little bit. -/
def accepts (epsilon : R) (eyePos d : Vector3 R) (l : Leaf R) (t : R) : Bool :=
  (l.1.enlarge epsilon).contains (eyePos + t • d)

theorem bestHit_eq_some {l : Leaf R} {t : R} :
    bestHit eyePos d l = some t ↔
      leastHit eyePos d l.2 (posInf R) = t ∧ leastHit eyePos d l.2 (posInf R) < posInf R := by
  have hle := (leastHit_le eyePos d l.2 (posInf R)).1
  rw [bestHit]
  split_ifs with h
  · simp [h]
  · rw [Option.some_inj]
    exact ⟨fun ht => ⟨ht, hle.lt_of_ne h⟩, fun ht => ht.1⟩

/-- A leaf without hits offers none. -/
theorem bestHit_eq_none {l : Leaf R} (h : ∀ o ∈ l.2, ¬ 0 < o.hit eyePos d) :
    bestHit eyePos d l = none := by
  by_contra hsome
  obtain ⟨t, ht⟩ := Option.ne_none_iff_exists'.mp hsome
  obtain ⟨o, ho, hpos, -⟩ := exists_leastHit (bestHit_eq_some.mp ht).2
  exact h o ho hpos

/-- The leaf that is found decides the result. -/
theorem searchLeaves_of_firstHit {l : Leaf R} {t : R} {leaves : List (Leaf R)}
    (h : firstHit (bestHit eyePos d) (accepts epsilon eyePos d) leaves = some (l, t)) :
    ∃ acc' : Hit R, searchLeaves epsilon eyePos d leaves acc =
      (t, scanObjects eyePos d l.2 { acc' with minT := posInf R }) := by
  induction leaves generalizing acc with
  | nil => cases h
  | cons l' leaves ih =>
      have hminT := scanObjects_minT eyePos d l'.2 { acc with minT := posInf R }
      rw [firstHit] at h
      rw [searchLeaves, hminT]
      dsimp only at hminT ⊢
      cases hbest : bestHit eyePos d l' with
      | none =>
          rw [hbest] at h
          have hnone : leastHit eyePos d l'.2 (posInf R) = posInf R := by
            by_contra hne
            rw [bestHit, if_neg hne] at hbest
            cases hbest
          rw [if_neg fun hcon => hcon.1 hnone]
          exact ih h
      | some u =>
          rw [hbest] at h
          obtain ⟨rfl, hlt⟩ := bestHit_eq_some.mp hbest
          dsimp only at h
          split_ifs at h with haccept
          · cases h
            rw [if_pos ⟨hlt.ne, haccept⟩]
            exact ⟨acc, rfl⟩
          · rw [if_neg fun hcon => haccept hcon.2]
            exact ih h

/-- Without hits nothing is found, and the object index stays. -/
theorem searchLeaves_of_no_hit {leaves : List (Leaf R)}
    (h : ∀ l ∈ leaves, ∀ o ∈ l.2, ¬ 0 < o.hit eyePos d) :
    (searchLeaves epsilon eyePos d leaves acc).1 = -1 ∧
      (searchLeaves epsilon eyePos d leaves acc).2.objectIndex = acc.objectIndex := by
  induction leaves generalizing acc with
  | nil => exact ⟨rfl, rfl⟩
  | cons l leaves ih =>
      rw [searchLeaves]
      rcases scanObjects_cases eyePos d l.2 { acc with minT := posInf R } with
        ⟨hminT, hindex⟩ | ⟨-, o, ho, hpos, -⟩
      · dsimp only at hminT hindex ⊢
        rw [if_neg fun hcon => hcon.1 hminT]
        generalize scanObjects eyePos d l.2 { acc with minT := posInf R } = acc' at hindex ⊢
        obtain ⟨ht, hrest⟩ : _ ∧ (searchLeaves epsilon eyePos d leaves acc').2.objectIndex = _ :=
          ih fun l' hl' => h l' (List.mem_cons_of_mem l hl')
        exact ⟨ht, hrest.trans hindex⟩
      · exact absurd hpos (h l List.mem_cons_self o ho)

/-- A leaf lists the objects that intersect its box. -/
theorem Tree.Complete.visit {t : Tree R} (ht : t.Complete objects) :
    ∀ l ∈ t.visit epsilon eyePos d,
      l.2.Perm (objects.filter fun o => o.boundingBox.intersectAABB l.1) := by
  induction t with
  | leaf a box cells =>
      intro l hl
      rw [List.mem_singleton.mp hl]
      exact ht
  | inner a box axis split l r ihl ihr =>
      have hboth : ∀ m ∈ l.visit epsilon eyePos d ++ r.visit epsilon eyePos d,
          m.2.Perm (objects.filter fun o => o.boundingBox.intersectAABB m.1) := by
        intro m hm
        rcases List.mem_append.mp hm with hm | hm
        · exact ihl ht.1 m hm
        · exact ihr ht.2 m hm
      intro m hm
      rw [Tree.visit] at hm
      generalize (if (doIntersectRayKdBox epsilon eyePos d box).1 =
        (doIntersectRayKdBox epsilon eyePos d box).2 then (0 : R) else
          (doIntersectRayKdBox epsilon eyePos d box).1) = near at hm
      split_ifs at hm
      · exact hboth m (List.mem_append_left _ hm)
      · exact hboth m hm
      · exact hboth m (List.mem_append_right _ hm)
      · exact hboth m (List.mem_append.mpr (List.mem_append.mp hm).symm)

end Search

/-! ### The same hit -/

/-- What the intersection functions promise of a ray: there is no hit, or the hit is in the box of
the object. -/
def SceneObject.HitsInside (o : SceneObject R) (eyePos d : Vector3 R) : Prop :=
  o.hit eyePos d = -1 ∨ 0 < o.hit eyePos d ∧ o.hit eyePos d < posInf R ∧
    o.boundingBox.contains (eyePos + o.hit eyePos d • d) = true

/-- The identifier of an object is its index. -/
def Scene.Numbered (scene : Scene R) : Prop :=
  ∀ (i : Nat) (o : SceneObject R), scene.objects[i]? = some o → o.arrayID = i

/-- The tree and the scan agree on a ray: they return the same parameter; when it is `-1` both leave
the object index alone, and otherwise the index the tree gives is that of an object that is hit
there. -/
structure SameHit (objects : List (SceneObject R)) (eyePos d : Vector3 R) (objectIndex : Int)
    (tree linear : Result R) : Prop where
  t : tree.t = linear.t
  miss : tree.t = -1 → tree.objectIndex = objectIndex ∧ linear.objectIndex = objectIndex
  hit : tree.t ≠ -1 → ∃ i o, objects[i]? = some o ∧ tree.objectIndex = (i : Nat) ∧
    o.hit eyePos d = tree.t

omit [LinearOrder R] in
theorem AABB.enlarge_zero (box : AABB R) : box.enlarge 0 = box := by
  simp [enlarge]

section Same

variable [IsStrictOrderedRing R] {scene : Scene R} {kd : KdTree R} {epsilon : R}

omit [IsStrictOrderedRing R] in
/-- Every leaf lists the objects that may be hit in it, and no others. -/
theorem KdTree.Holds.mem_leaf {t : Tree R} (ht : kd.Holds scene t) {l : Leaf R}
    (hl : l ∈ t.visit epsilon eyePos d) {o : SceneObject R} :
    o ∈ l.2 ↔ o ∈ scene.objects ∧ o.boundingBox.intersectAABB l.1 = true :=
  ((ht.complete.visit l hl).mem_iff).trans List.mem_filter

/-- In the tree of a scene the search finds the least hit. -/
theorem KdTree.Holds.exists_firstHit {t : Tree R} (ht : kd.Holds scene t)
    (hscene : scene.Enclosed) (hd : d ≠ 0)
    (hhits : ∀ o ∈ scene.objects, o.HitsInside eyePos d)
    (hlt : leastHit eyePos d scene.objects (posInf R) < posInf R) :
    leastHit eyePos d scene.objects (posInf R) ∈ scene.extendsBox.span eyePos d ∧
      ∃ l ∈ t.visit 0 eyePos d,
        firstHit (bestHit eyePos d) (accepts 0 eyePos d) (t.visit 0 eyePos d) =
          some (l, leastHit eyePos d scene.objects (posInf R)) := by
  have halong : AlongRay eyePos d t.box (t.visit 0 eyePos d) := Tree.visit_alongRay hd ht.parted
  obtain ⟨o, ho, hpos, hhit⟩ := exists_leastHit hlt
  have hleast := (leastHit_le eyePos d scene.objects (posInf R)).2
  generalize leastHit eyePos d scene.objects (posInf R) = T at *
  have hbox : T ∈ o.boundingBox.span eyePos d := by
    rcases hhits o ho with hmiss | ⟨-, -, hin⟩
    · rw [hmiss] at hpos
      exact absurd hpos (by norm_num)
    · rw [hhit] at hpos hin
      exact ⟨hpos, hin⟩
  have hspan : T ∈ scene.extendsBox.span eyePos d := (hscene o ho).2.span hbox
  refine ⟨hspan, firstHit_least halong.ordered ?_ ?_ ?_ ?_⟩
  · -- a proposal is the parameter of a hit, so it is positive
    intro l hl t ht'
    obtain ⟨rfl, htlt⟩ := bestHit_eq_some.mp ht'
    obtain ⟨p, -, hp, hpt⟩ := exists_leastHit htlt
    rw [accepts, AABB.enlarge_zero]
    exact ⟨fun hin => ⟨hpt ▸ hp, hin⟩, fun hin => hin.2⟩
  · intro l hl t ht'
    obtain ⟨rfl, htlt⟩ := bestHit_eq_some.mp ht'
    obtain ⟨p, hpl, hp, hpt⟩ := exists_leastHit htlt
    rw [← hpt]
    exact hleast p ((ht.mem_leaf hl).mp hpl).1 hp
  · intro l hl hTl
    have hol : o ∈ l.2 :=
      (ht.mem_leaf hl).mpr ⟨ho, AABB.intersectAABB_of_contains hbox.2 hTl.2⟩
    have hle : leastHit eyePos d l.2 (posInf R) ≤ T :=
      hhit ▸ (leastHit_le eyePos d l.2 (posInf R)).2 o hol hpos
    obtain ⟨p, hpl, hp, hpt⟩ := exists_leastHit (hle.trans_lt hlt)
    have hge : T ≤ leastHit eyePos d l.2 (posInf R) :=
      hpt ▸ hleast p ((ht.mem_leaf hl).mp hpl).1 hp
    exact bestHit_eq_some.mpr ⟨hle.antisymm hge, hle.trans_lt hlt⟩
  · exact halong.covers T (ht.box ▸ hspan)

/-- In the tree of a scene the search agrees with the scan. -/
theorem KdTree.Holds.sameHit {t : Tree R} (ht : kd.Holds scene t) (hscene : scene.Enclosed)
    (hids : scene.Numbered) (hd : d ≠ 0)
    (hhits : ∀ o ∈ scene.objects, o.HitsInside eyePos d) (objectIndex faceIndex : Int) :
    SameHit scene.objects eyePos d objectIndex
      (intersectVisit 0 eyePos d t objectIndex faceIndex scene.extendsBox)
      (intersectLinear eyePos d scene.objects objectIndex faceIndex) := by
  have hscan : linearScan eyePos d 0 scene.objects ⟨posInf R, objectIndex, faceIndex, -1⟩ =
      scanObjects eyePos d scene.objects ⟨posInf R, objectIndex, faceIndex, -1⟩ :=
    linearScan_eq _ _ fun j o ho => (hids j o ho).trans (Nat.zero_add j).symm
  have hminT := scanObjects_minT eyePos d scene.objects ⟨posInf R, objectIndex, faceIndex, -1⟩
  rw [intersectLinear, hscan]
  by_cases hlt : leastHit eyePos d scene.objects (posInf R) < posInf R
  · -- there is a least hit
    obtain ⟨hspan, l, hl, hfirst⟩ := ht.exists_firstHit hscene hd hhits hlt
    obtain ⟨-, hfar, -⟩ := near_far_spec hd hspan Prod.mk.eta.symm
    obtain ⟨acc', hsearch⟩ := searchLeaves_of_firstHit hfirst
    rw [intersectVisit, if_neg fun hcon => hfar.not_ge hcon.2, hsearch, hminT,
      if_pos hlt.ne]
    have hne : leastHit eyePos d scene.objects (posInf R) ≠ -1 := by
      intro hcon
      have hpos : 0 < leastHit eyePos d scene.objects (posInf R) := hspan.1
      rw [hcon] at hpos
      exact absurd hpos (by norm_num)
    refine ⟨rfl, fun hcon => absurd hcon hne, fun _ => ?_⟩
    have hleaf := (bestHit_eq_some.mp (of_firstHit hfirst).2.1).1
    have hleafT := scanObjects_minT eyePos d l.2 { acc' with minT := posInf R }
    rcases scanObjects_cases eyePos d l.2 { acc' with minT := posInf R } with
      ⟨hinf, -⟩ | ⟨-, o, ho, -, hhit, hindex⟩
    · rw [hleafT] at hinf
      exact absurd (hleaf.symm.trans hinf) hlt.ne
    · obtain ⟨i, hi⟩ := List.mem_iff_getElem?.mp ((ht.mem_leaf hl).mp ho).1
      refine ⟨i, o, hi, ?_, hhit.trans (hleafT.trans hleaf)⟩
      rw [← hids i o hi]
      exact hindex
  · -- no object is hit
    have hmiss : ∀ o ∈ scene.objects, ¬ 0 < o.hit eyePos d := by
      intro o ho hpos
      rcases hhits o ho with hmiss | ⟨-, hinf, -⟩
      · rw [hmiss] at hpos
        exact absurd hpos (by norm_num)
      · exact hlt (((leastHit_le eyePos d scene.objects (posInf R)).2 o ho hpos).trans_lt hinf)
    have hlinear : (scanObjects eyePos d scene.objects
          ⟨posInf R, objectIndex, faceIndex, -1⟩).minT = posInf R ∧
        (scanObjects eyePos d scene.objects
          ⟨posInf R, objectIndex, faceIndex, -1⟩).objectIndex = objectIndex := by
      rcases scanObjects_cases eyePos d scene.objects ⟨posInf R, objectIndex, faceIndex, -1⟩ with
        h | ⟨-, o, ho, hpos, -⟩
      · exact h
      · exact absurd hpos (hmiss o ho)
    rw [if_neg fun hcon => hcon hlinear.1]
    have hsearch : (searchLeaves 0 eyePos d (t.visit 0 eyePos d)
          ⟨posInf R, objectIndex, faceIndex, -1⟩).1 = -1 ∧
        (searchLeaves 0 eyePos d (t.visit 0 eyePos d)
          ⟨posInf R, objectIndex, faceIndex, -1⟩).2.objectIndex = objectIndex :=
      searchLeaves_of_no_hit fun l hl o ho => hmiss o ((ht.mem_leaf hl).mp ho).1
    rw [intersectVisit]
    split_ifs
    · exact ⟨rfl, fun _ => ⟨rfl, hlinear.2⟩, fun hcon => absurd rfl hcon⟩
    · exact ⟨hsearch.1, fun _ => ⟨hsearch.2, hlinear.2⟩, fun hcon => absurd hsearch.1 hcon⟩

/-- Building the tree stops only when a pool is used up or when a box without a surface is divided;
otherwise the tree gives every ray the hit of the scan. -/
theorem intersect_sameHit (scene : Scene R) (hscene : scene.Enclosed) (hids : scene.Numbered) :
    ewp scene.buildKdTree
      (fun _ kd => ∀ eyePos d : Vector3 R, d ≠ 0 →
        (∀ o ∈ scene.objects, o.HitsInside eyePos d) → ∀ objectIndex faceIndex : Int,
        ∃ N r, (∀ fuel, N ≤ fuel → intersect 0 fuel true eyePos d scene.objects objectIndex
            faceIndex (some kd) scene.extendsBox false = some r) ∧
          SameHit scene.objects eyePos d objectIndex r
            (intersectLinear eyePos d scene.objects objectIndex faceIndex))
      (fun e => e = .kdMem ∨ e = .objMem ∨
        e = .division ∧ 2 < scene.objects.length ∧ ¬ 0 < scene.extendsBox.calculateSA) .new := by
  refine ewp_mono (ewp_buildKdTree hscene) ?_ fun _ he => he
  rintro _ kd ⟨t, ht⟩ eyePos d hd hhits objectIndex faceIndex
  exact ⟨t.weight, _, fun fuel hfuel => intersect_eq ht.inMemory ht.addr hfuel,
    ht.sameHit hscene hids hd hhits objectIndex faceIndex⟩

theorem cubes_numbered : cubes.Numbered := by
  rintro (_ | _ | _ | i) o ho
  · cases ho
    rfl
  · cases ho
    rfl
  · cases ho
    rfl
  · cases ho

/-- A ray along the first axis that starts in front of the cubes. -/
def eyeInFront : Vector3 ℚ := fun k => if k = 0 then -1 else 1 / 2

def firstAxis : Vector3 ℚ := fun k => if k = 0 then 1 else 0

theorem cube_hit (i : Nat) : (cube i).hit eyeInFront firstAxis = 2 * i + 1 := by
  have htwo : (2 : Fin 3) ≠ 0 := by decide
  have hlt : (-1 : ℚ) < 2 * i := by linarith [(Nat.cast_nonneg i : (0 : ℚ) ≤ i)]
  have hmove : firstAxis = fun k => if k = 0 then 1 else 0 := rfl
  norm_num [cube, eyeInFront, hmove, htwo, hlt]

theorem cube_hitsInside {i : Nat} (h : i ≤ 2) : (cube i).HitsInside eyeInFront firstAxis := by
  have htwo : (2 : Fin 3) ≠ 0 := by decide
  have hi : (i : ℚ) ≤ 2 := Nat.cast_le_ofNat.mpr h
  have hnonneg : (0 : ℚ) ≤ i := Nat.cast_nonneg i
  refine .inr ?_
  rw [cube_hit]
  refine ⟨by linarith, ?_, AABB.contains_iff.mpr (forall_axis.mpr ⟨?_, ?_, ?_⟩)⟩
  · norm_num [posInf]
    linarith
  · change 2 * (i : ℚ) ≤ -1 + (2 * i + 1) * 1 ∧ -1 + (2 * i + 1) * 1 ≤ 2 * (i : ℚ) + 1
    constructor
    · linarith
    · linarith
  · change (0 : ℚ) ≤ 1 / 2 + (2 * i + 1) * 0 ∧ 1 / 2 + (2 * i + 1) * 0 ≤ (0 : ℚ) + 1
    norm_num
  · change (0 : ℚ) ≤ 1 / 2 + (2 * i + 1) * 0 ∧ 1 / 2 + (2 * i + 1) * 0 ≤ (0 : ℚ) + 1
    norm_num

theorem cubes_hitsInside : ∀ o ∈ cubes.objects, o.HitsInside eyeInFront firstAxis := by
  intro o ho
  simp only [cubes, List.mem_cons, List.not_mem_nil, or_false] at ho
  rcases ho with rfl | rfl | rfl
  · exact cube_hitsInside (Nat.zero_le 2)
  · exact cube_hitsInside one_le_two
  · exact cube_hitsInside le_rfl

theorem intersectLinear_cubes :
    (intersectLinear eyeInFront firstAxis cubes.objects 7 7).t = 1 := by
  norm_num [intersectLinear, linearScan, cubes, Hit.test, cube_hit, posInf]

theorem intersect_sameHit_cubes :
    ewp cubes.buildKdTree
      (fun _ kd => ∃ N r, (∀ fuel, N ≤ fuel → intersect 0 fuel true eyeInFront firstAxis
        cubes.objects 7 7 (some kd) cubes.extendsBox false = some r) ∧ r.t = 1)
      (fun e => e = .kdMem ∨ e = .objMem ∨
        e = .division ∧ 2 < cubes.objects.length ∧ ¬ 0 < cubes.extendsBox.calculateSA) .new := by
  have hd : firstAxis ≠ 0 := Function.ne_iff.mpr ⟨0, by decide⟩
  refine ewp_mono (intersect_sameHit cubes cubes_solid.enclosed cubes_numbered) ?_ fun _ he => he
  intro _ kd h
  obtain ⟨N, r, hr, hsame⟩ := h eyeInFront firstAxis hd cubes_hitsInside 7 7
  exact ⟨N, r, hr, hsame.t.trans intersectLinear_cubes⟩

end Same

end CodingSample.Raytracing
