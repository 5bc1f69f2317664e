import CodingSample.Raytracing.Faces
import Mathlib.Algebra.BigOperators.Fin
import Mathlib.Algebra.Order.Ring.Rat
import Mathlib.Tactic.FieldSimp
import Mathlib.Tactic.NormNum

/-!
# The unit cube

`doIntersectUnitCube` intersects the ray with the planes of the six faces and keeps the points that
pass a range test. The tests are written out once for the processor and once for the device.
-/

namespace CodingSample.Raytracing

variable {R : Type} [Field R] [LinearOrder R]

/-- The normals, in the order front, back, left, right, top, bottom. -/
def cubeNorms : Fin 6 → Vector3 R :=
  ![![0, 0, 1], ![0, 0, -1], ![-1, 0, 0], ![1, 0, 0], ![0, 1, 0], ![0, -1, 0]]

def cubePoints : Fin 6 → Vector3 R :=
  ![![0, 0, 1 / 2], ![0, 0, -1 / 2], ![-1 / 2, 0, 0], ![1 / 2, 0, 0], ![0, 1 / 2, 0],
    ![0, -1 / 2, 0]]

/-- The range tests of `cube_intersect.cpp`. -/
def cubeFaceTest (epsilon : R) (intersect : Vector3 R) : Fin 6 → Bool
  | 0 => decide (intersect 1 ≤ 1 / 2 + epsilon) && decide (intersect 1 ≥ -1 / 2 - epsilon) &&
      decide (intersect 0 ≥ -1 / 2 - epsilon) && decide (intersect 0 ≥ 1 / 2 + epsilon)
  | 1 => decide (intersect 1 ≤ 1 / 2 + epsilon) && decide (intersect 1 ≥ -1 / 2 - epsilon) &&
      decide (intersect 0 ≥ -1 / 2 - epsilon) && decide (intersect 0 ≥ 1 / 2 + epsilon)
  | 2 => decide (intersect 1 ≤ 1 / 2 + epsilon) && decide (intersect 1 ≥ -1 / 2 - epsilon) &&
      decide (intersect 2 ≥ -1 / 2 - epsilon) && decide (intersect 2 ≥ 1 / 2 + epsilon)
  | 3 => decide (intersect 1 ≤ 1 / 2 + epsilon) && decide (intersect 1 ≥ -1 / 2 - epsilon) &&
      decide (intersect 2 ≥ -1 / 2 - epsilon) && decide (intersect 2 ≤ 1 / 2 + epsilon)
  | 4 => decide (intersect 2 ≤ 1 / 2 + epsilon) && decide (intersect 2 ≥ -1 / 2 - epsilon) &&
      decide (intersect 0 ≥ -1 / 2 - epsilon) && decide (intersect 0 ≥ 1 / 2 + epsilon)
  | 5 => decide (intersect 2 ≤ 1 / 2 + epsilon) && decide (intersect 2 ≥ -1 / 2 - epsilon) &&
      decide (intersect 0 ≥ -1 / 2 - epsilon) && decide (intersect 0 ≥ 1 / 2 + epsilon)

/-- The range tests of the kernel. -/
def cubeFaceTestDevice (epsilon : R) (intersect : Vector3 R) : Fin 6 → Bool
  | 0 => decide (intersect 1 ≤ 1 / 2 + epsilon) && decide (intersect 1 ≥ -1 / 2 - epsilon) &&
      decide (intersect 0 ≥ -1 / 2 - epsilon) && decide (intersect 0 ≤ 1 / 2 + epsilon)
  | 1 => decide (intersect 1 ≤ 1 / 2 + epsilon) && decide (intersect 1 ≥ -1 / 2 - epsilon) &&
      decide (intersect 0 ≥ -1 / 2 - epsilon) && decide (intersect 0 ≤ 1 / 2 + epsilon)
  | 2 => decide (intersect 1 ≤ 1 / 2 + epsilon) && decide (intersect 1 ≥ -1 / 2 - epsilon) &&
      decide (intersect 2 ≥ -1 / 2 - epsilon) && decide (intersect 2 ≤ 1 / 2 + epsilon)
  | 3 => decide (intersect 1 ≤ 1 / 2 + epsilon) && decide (intersect 1 ≥ -1 / 2 - epsilon) &&
      decide (intersect 2 ≥ -1 / 2 - epsilon) && decide (intersect 2 ≤ 1 / 2 + epsilon)
  | 4 => decide (intersect 2 ≤ 1 / 2 + epsilon) && decide (intersect 2 ≥ -1 / 2 - epsilon) &&
      decide (intersect 0 ≥ -1 / 2 - epsilon) && decide (intersect 0 ≤ 1 / 2 + epsilon)
  | 5 => decide (intersect 2 ≤ 1 / 2 + epsilon) && decide (intersect 2 ≥ -1 / 2 - epsilon) &&
      decide (intersect 0 ≥ -1 / 2 - epsilon) && decide (intersect 0 ≤ 1 / 2 + epsilon)

/-- The parameter of the ray in the plane of a face, for any range tests. -/
def cubeT (faceTest : Vector3 R → Fin 6 → Bool) (epsilon : R) (eyePos d : Vector3 R)
    (i : Fin 6) : R :=
  let t := doIntersectPlane epsilon (cubePoints i) (cubeNorms i) eyePos d
  if faceTest (eyePos + t • d) i then t else -1

def doIntersectUnitCube (epsilon : R) (eyePos d : Vector3 R) (faceIndex : Int) : FaceHit R :=
  nearestFace (cubeT (cubeFaceTest epsilon) epsilon eyePos d) faceIndex

/-- `doIntersectUnitCube` of the kernel. -/
def doIntersectUnitCubeDevice (epsilon : R) (eyePos d : Vector3 R) (faceIndex : Int) :
    FaceHit R :=
  nearestFace (cubeT (cubeFaceTestDevice epsilon) epsilon eyePos d) faceIndex

/-! ### What the faces are -/

def dot (v w : Vector3 R) : R := v 0 * w 0 + v 1 * w 1 + v 2 * w 2

/-- A coordinate within the cube, but for a small distance. -/
def Within (epsilon x : R) : Prop := -1 / 2 - epsilon ≤ x ∧ x ≤ 1 / 2 + epsilon

/-- The ray is not parallel to the plane through `point` and meets it in front of the eye. -/
def MeetsPlane (epsilon : R) (point norm eyePos d : Vector3 R) (t : R) : Prop :=
  epsilon < |dot norm d| ∧ 0 < t ∧ dot norm (eyePos + t • d) = dot norm point

/-- The ray meets the plane of face `i` in a point whose other coordinates are those of a point of
the cube. -/
def FacePoint (epsilon : R) (eyePos d : Vector3 R) (i : Fin 6) (t : R) : Prop :=
  MeetsPlane epsilon (cubePoints i) (cubeNorms i) eyePos d t ∧
    ∀ k, cubeNorms (R := R) i k = 0 → Within epsilon ((eyePos + t • d) k)

/-- The axis of the normal of a face, and its sign. -/
def faceAxis : Fin 6 → Fin 3 := ![2, 2, 0, 0, 1, 1]

def faceSide : Fin 6 → R := ![1, -1, -1, 1, 1, -1]

/-- The two coordinates that the range tests of a face look at. -/
def faceFirst : Fin 6 → Fin 3 := ![1, 1, 1, 1, 2, 2]

def faceSecond : Fin 6 → Fin 3 := ![0, 0, 2, 2, 0, 0]

variable {epsilon t : R} {eyePos d p : Vector3 R} {i : Fin 6} {faceIndex : Int}

variable [IsStrictOrderedRing R]

omit [LinearOrder R] [IsStrictOrderedRing R] in
theorem cubeNorms_apply (i : Fin 6) (k : Fin 3) :
    cubeNorms i k = if k = faceAxis i then faceSide (R := R) i else 0 := by
  fin_cases i <;> fin_cases k <;> rfl

omit [LinearOrder R] [IsStrictOrderedRing R] in
theorem faceSide_cases (i : Fin 6) : faceSide (R := R) i = 1 ∨ faceSide (R := R) i = -1 := by
  fin_cases i
  · exact Or.inl rfl
  · exact Or.inr rfl
  · exact Or.inr rfl
  · exact Or.inl rfl
  · exact Or.inl rfl
  · exact Or.inr rfl

theorem ne_faceAxis_iff {k : Fin 3} : k ≠ faceAxis i ↔ k = faceFirst i ∨ k = faceSecond i := by
  decide +revert

theorem cubeNorms_eq_zero_iff {k : Fin 3} :
    cubeNorms (R := R) i k = 0 ↔ k = faceFirst i ∨ k = faceSecond i := by
  rw [cubeNorms_apply, ← ne_faceAxis_iff]
  split
  · rename_i hk
    refine iff_of_false ?_ (not_not.mpr hk)
    rcases faceSide_cases (R := R) i with h | h
    · rw [h]
      exact one_ne_zero
    · rw [h]
      exact neg_ne_zero.mpr one_ne_zero
  · rename_i hk
    exact iff_of_true rfl hk

theorem facePoint_iff :
    FacePoint epsilon eyePos d i t ↔
      MeetsPlane epsilon (cubePoints i) (cubeNorms i) eyePos d t ∧
        Within epsilon ((eyePos + t • d) (faceFirst i)) ∧
          Within epsilon ((eyePos + t • d) (faceSecond i)) := by
  refine and_congr_right fun _ => ?_
  constructor
  · intro h
    exact ⟨h _ (cubeNorms_eq_zero_iff.mpr (Or.inl rfl)),
      h _ (cubeNorms_eq_zero_iff.mpr (Or.inr rfl))⟩
  · rintro ⟨hfirst, hsecond⟩ k hk
    rcases cubeNorms_eq_zero_iff.mp hk with rfl | rfl
    · exact hfirst
    · exact hsecond

omit [IsStrictOrderedRing R] in
theorem cubeFaceTestDevice_iff :
    cubeFaceTestDevice epsilon p i = true ↔
      Within epsilon (p (faceFirst i)) ∧ Within epsilon (p (faceSecond i)) := by
  have heq : cubeFaceTestDevice epsilon p i = (decide (p (faceFirst i) ≤ 1 / 2 + epsilon) &&
      decide (p (faceFirst i) ≥ -1 / 2 - epsilon) && decide (p (faceSecond i) ≥ -1 / 2 - epsilon) &&
        decide (p (faceSecond i) ≤ 1 / 2 + epsilon)) := by
    fin_cases i <;> rfl
  simp only [heq, Bool.and_eq_true, decide_eq_true_eq, Within, ge_iff_le]
  tauto

/-- Five of the six tests ask for a coordinate at or beyond the far edge of the face. -/
theorem cubeFaceTest_iff (heps : 0 ≤ epsilon) :
    cubeFaceTest epsilon p i = true ↔ Within epsilon (p (faceFirst i)) ∧
      if i = 3 then Within epsilon (p (faceSecond i))
      else 1 / 2 + epsilon ≤ p (faceSecond i) := by
  have heq : cubeFaceTest epsilon p i = (decide (p (faceFirst i) ≤ 1 / 2 + epsilon) &&
      decide (p (faceFirst i) ≥ -1 / 2 - epsilon) && decide (p (faceSecond i) ≥ -1 / 2 - epsilon) &&
        if i = 3 then decide (p (faceSecond i) ≤ 1 / 2 + epsilon)
        else decide (p (faceSecond i) ≥ 1 / 2 + epsilon)) := by
    fin_cases i <;> rfl
  have hlow (hx : 1 / 2 + epsilon ≤ p (faceSecond i)) : -1 / 2 - epsilon ≤ p (faceSecond i) := by
    linarith
  by_cases hi : i = 3
  · simp only [heq, if_pos hi, Bool.and_eq_true, decide_eq_true_eq, Within, ge_iff_le]
    tauto
  · simp only [heq, if_neg hi, Bool.and_eq_true, decide_eq_true_eq, Within, ge_iff_le]
    tauto

/-! ### The parameters -/

/-- The plane is met at the parameter that is computed, if that is positive. -/
theorem meetsPlane_iff {point norm : Vector3 R} (heps : 0 ≤ epsilon) :
    MeetsPlane epsilon point norm eyePos d t ↔
      0 < t ∧ t = doIntersectPlane epsilon point norm eyePos d := by
  have hsum : norm 0 * d 0 + norm 1 * d 1 + norm 2 * d 2 = dot norm d := rfl
  have hdot : dot norm (eyePos + t • d) = dot norm eyePos + t * dot norm d := by
    simp only [dot, Pi.add_apply, Pi.smul_apply, smul_eq_mul]
    ring
  unfold doIntersectPlane MeetsPlane
  simp only [hsum, hdot]
  by_cases hd : |dot norm d| > epsilon
  · have hne : dot norm d ≠ 0 := abs_pos.mp (heps.trans_lt hd)
    rw [if_pos hd, eq_div_iff hne]
    have hplane : norm 0 * point 0 + norm 1 * point 1 + norm 2 * point 2 = dot norm point := rfl
    have heye : norm 0 * eyePos 0 + norm 1 * eyePos 1 + norm 2 * eyePos 2 = dot norm eyePos := rfl
    rw [hplane, heye]
    constructor
    · rintro ⟨-, hpos, heq⟩
      exact ⟨hpos, by linarith⟩
    · rintro ⟨hpos, heq⟩
      exact ⟨hd, hpos, by linarith⟩
  · rw [if_neg hd]
    refine iff_of_false (fun h => hd h.1) ?_
    rintro ⟨hpos, rfl⟩
    linarith

/-- A test that a point passes, at the parameter of its plane. -/
theorem cubeT_pos_iff {faceTest : Vector3 R → Fin 6 → Bool} (heps : 0 ≤ epsilon) :
    0 < t ∧ t = cubeT faceTest epsilon eyePos d i ↔
      MeetsPlane epsilon (cubePoints i) (cubeNorms i) eyePos d t ∧
        faceTest (eyePos + t • d) i = true := by
  rw [meetsPlane_iff heps, cubeT]
  constructor
  · rintro ⟨hpos, heq⟩
    split at heq
    · rename_i htest
      rw [← heq] at htest
      exact ⟨⟨hpos, heq⟩, htest⟩
    · linarith
  · rintro ⟨⟨hpos, heq⟩, htest⟩
    rw [heq] at htest
    rw [if_pos htest]
    exact ⟨hpos, heq⟩

theorem facePoint_iff_device (heps : 0 ≤ epsilon) :
    FacePoint epsilon eyePos d i t ↔
      0 < t ∧ t = cubeT (cubeFaceTestDevice epsilon) epsilon eyePos d i := by
  rw [facePoint_iff, cubeT_pos_iff heps, cubeFaceTestDevice_iff]

/-! ### The law -/

/-- The least parameter at which the ray meets a face, with a face that attains it, or `-1`. -/
def CubeExact (epsilon : R) (eyePos d : Vector3 R) (h : FaceHit R) : Prop :=
  ExactHit (FacePoint epsilon eyePos d) h

/-- The ray goes through a point inside the cube. -/
def ThroughInterior (eyePos d : Vector3 R) : Prop :=
  ∃ t : R, 0 ≤ t ∧ ∀ k, -1 / 2 < (eyePos + t • d) k ∧ (eyePos + t • d) k < 1 / 2

/-- What is asked of the intersection with the cube: it is exact, the device computes the same, and
no ray through the inside that is not nearly parallel to a face misses. -/
def CubeLaw (epsilon : R) (eyePos d : Vector3 R) (faceIndex : Int) : Prop :=
  CubeExact epsilon eyePos d (doIntersectUnitCube epsilon eyePos d faceIndex) ∧
    doIntersectUnitCube epsilon eyePos d faceIndex =
      doIntersectUnitCubeDevice epsilon eyePos d faceIndex ∧
    (ThroughInterior eyePos d → (∀ k, epsilon < |d k|) →
      (doIntersectUnitCube epsilon eyePos d faceIndex).result ≠ -1)

/-- The ray meets the plane of a face in a point on the face or beside it, past the far edge. -/
def Beside (epsilon : R) (eyePos d : Vector3 R) (i : Fin 6) (t : R) : Prop :=
  MeetsPlane epsilon (cubePoints i) (cubeNorms i) eyePos d t ∧
    Within epsilon ((eyePos + t • d) (faceFirst i)) ∧
    -1 / 2 - epsilon ≤ (eyePos + t • d) (faceSecond i) ∧
    (i = 3 → (eyePos + t • d) (faceSecond i) ≤ 1 / 2 + epsilon)

/-- The condition: if the ray meets a face it meets one before `posInf`, and the first plane that it
meets on the face or past the far edge is the one to the right, or is met at the far edge. -/
def CubeSeen (epsilon : R) (eyePos d : Vector3 R) : Prop :=
  ((∃ i t, FacePoint epsilon eyePos d i t) →
      ∃ i t, FacePoint epsilon eyePos d i t ∧ t < posInf R) ∧
    ∀ i t, Beside epsilon eyePos d i t → t < posInf R →
      (∀ j t', Beside epsilon eyePos d j t' → t < t' ∨ t = t' ∧ i ≤ j) →
      i = 3 ∨ (eyePos + t • d) (faceSecond i) = 1 / 2 + epsilon

omit [LinearOrder R] [IsStrictOrderedRing R] in
theorem cubePoints_apply (i : Fin 6) (k : Fin 3) :
    cubePoints i k = if k = faceAxis i then faceSide (R := R) i / 2 else 0 := by
  fin_cases i <;> fin_cases k <;> rfl

omit [LinearOrder R] [IsStrictOrderedRing R] in
theorem dot_cubeNorms (i : Fin 6) (v : Vector3 R) :
    dot (cubeNorms i) v = faceSide i * v (faceAxis i) := by
  have hsum : dot (cubeNorms i) v = ∑ k, cubeNorms i k * v k := by
    rw [Fin.sum_univ_three]
    rfl
  simp only [hsum, cubeNorms_apply, ite_mul, zero_mul, Finset.sum_ite_eq', Finset.mem_univ,
    if_true]

/-! ### Rays through the inside -/

/-- The parameter at which the ray leaves the slab of an axis. -/
def exitT (eyePos d : Vector3 R) (k : Fin 3) : R :=
  ((if 0 < d k then 1 else -1) / 2 - eyePos k) / d k

theorem lt_exitT {u : R} {k : Fin 3} (hd : d k ≠ 0)
    (hin : -1 / 2 < eyePos k + u * d k ∧ eyePos k + u * d k < 1 / 2) : u < exitT eyePos d k := by
  rw [exitT]
  rcases lt_or_gt_of_ne hd with hneg | hpos
  · rw [if_neg (not_lt.mpr hneg.le), lt_div_iff_of_neg hneg]
    linarith
  · rw [if_pos hpos, lt_div_iff₀ hpos]
    linarith

/-- Up to its exit the ray stays in the slab. -/
theorem within_of_le_exitT {u : R} {k : Fin 3} (hd : d k ≠ 0)
    (hin : -1 / 2 < eyePos k + u * d k ∧ eyePos k + u * d k < 1 / 2) (hut : u ≤ t)
    (hexit : t ≤ exitT eyePos d k) :
    -1 / 2 ≤ eyePos k + t * d k ∧ eyePos k + t * d k ≤ 1 / 2 := by
  rw [exitT] at hexit
  rcases lt_or_gt_of_ne hd with hneg | hpos
  · rw [if_neg (not_lt.mpr hneg.le), le_div_iff_of_neg hneg] at hexit
    have hmono := mul_le_mul_of_nonpos_right hut hneg.le
    exact ⟨by linarith, by linarith⟩
  · rw [if_pos hpos, le_div_iff₀ hpos] at hexit
    have hmono := mul_le_mul_of_nonneg_right hut hpos.le
    exact ⟨by linarith, by linarith⟩

omit [IsStrictOrderedRing R] in
/-- The face that a ray leaves along an axis through. -/
theorem exists_face (d : Vector3 R) (k : Fin 3) :
    ∃ i, faceAxis i = k ∧ faceSide i = (if 0 < d k then 1 else -1 : R) := by
  by_cases hpos : 0 < d k
  · rw [if_pos hpos]
    fin_cases k
    · exact ⟨3, rfl, rfl⟩
    · exact ⟨4, rfl, rfl⟩
    · exact ⟨0, rfl, rfl⟩
  · rw [if_neg hpos]
    fin_cases k
    · exact ⟨2, rfl, rfl⟩
    · exact ⟨5, rfl, rfl⟩
    · exact ⟨1, rfl, rfl⟩

/-- Such a ray meets a face. -/
theorem exists_facePoint (heps : 0 ≤ epsilon) (hthrough : ThroughInterior eyePos d)
    (hd : ∀ k, epsilon < |d k|) : ∃ i t, FacePoint epsilon eyePos d i t := by
  obtain ⟨u, hu, hinside⟩ := hthrough
  have hin (k : Fin 3) : -1 / 2 < eyePos k + u * d k ∧ eyePos k + u * d k < 1 / 2 := hinside k
  have hne (k : Fin 3) : d k ≠ 0 := abs_pos.mp (heps.trans_lt (hd k))
  obtain ⟨k, -, hmin⟩ := Finset.exists_min_image Finset.univ (exitT eyePos d) Finset.univ_nonempty
  obtain ⟨i, haxis, hside⟩ := exists_face d k
  have hexit := lt_exitT (hne k) (hin k)
  have hsquare : faceSide (R := R) i * faceSide i = 1 := by
    rcases faceSide_cases (R := R) i with h | h <;> rw [h] <;> norm_num
  refine ⟨i, exitT eyePos d k, ⟨?_, hu.trans_lt hexit, ?_⟩, fun j _ => ?_⟩
  · rw [dot_cubeNorms, haxis, abs_mul]
    rcases faceSide_cases (R := R) i with h | h
    · rw [h, abs_one, one_mul]
      exact hd k
    · rw [h, abs_neg, abs_one, one_mul]
      exact hd k
  · rw [dot_cubeNorms, dot_cubeNorms, cubePoints_apply, if_pos rfl, haxis]
    congr 1
    have hcancel : exitT eyePos d k * d k = faceSide i / 2 - eyePos k := by
      rw [exitT, ← hside, div_mul_cancel₀ _ (hne k)]
    simp only [Pi.add_apply, Pi.smul_apply, smul_eq_mul, hcancel]
    ring
  · have hj := within_of_le_exitT (hne j) (hin j) hexit.le (hmin j (Finset.mem_univ j))
    simp only [Within, Pi.add_apply, Pi.smul_apply, smul_eq_mul]
    exact ⟨by linarith [hj.1], by linarith [hj.2]⟩

/-! ### When the law holds -/

/-- Both range tests are made at the parameter of the plane. -/
theorem cubeT_agree {faceTest faceTest' : Vector3 R → Fin 6 → Bool} (heps : 0 ≤ epsilon)
    (hpos : 0 < cubeT faceTest epsilon eyePos d i)
    (hpos' : 0 < cubeT faceTest' epsilon eyePos d i) :
    cubeT faceTest epsilon eyePos d i = cubeT faceTest' epsilon eyePos d i := by
  have hplane := ((cubeT_pos_iff heps).mp ⟨hpos, rfl⟩).1
  have hplane' := ((cubeT_pos_iff heps).mp ⟨hpos', rfl⟩).1
  rw [((meetsPlane_iff heps).mp hplane).2, ((meetsPlane_iff heps).mp hplane').2]

/-- A point on the face or past its far edge passes one of the two tests. -/
theorem beside_iff (heps : 0 ≤ epsilon) :
    Beside epsilon eyePos d i t ↔
      0 < t ∧ t = either (cubeT (cubeFaceTest epsilon) epsilon eyePos d)
        (cubeT (cubeFaceTestDevice epsilon) epsilon eyePos d) i := by
  rw [eq_either_iff fun j => cubeT_agree heps, cubeT_pos_iff heps, cubeT_pos_iff heps,
    ← and_or_left, cubeFaceTest_iff heps, cubeFaceTestDevice_iff, ← and_or_left, Beside]
  refine and_congr_right fun _ => and_congr_right fun _ => ?_
  unfold Within
  by_cases hi : i = 3
  · rw [if_pos hi, or_self]
    exact and_congr_right fun _ => ⟨fun h => h hi, fun h _ => h⟩
  · rw [if_neg hi]
    constructor
    · rintro ⟨hlow, -⟩
      rcases le_total (1 / 2 + epsilon) ((eyePos + t • d) (faceSecond i)) with hge | hle
      · exact Or.inl hge
      · exact Or.inr ⟨hlow, hle⟩
    · rintro (hge | ⟨hlow, -⟩)
      · exact ⟨by linarith, fun h => absurd h hi⟩
      · exact ⟨hlow, fun h => absurd h hi⟩

/-- Both tests accept such a point only on the face to the right or at the far edge. -/
theorem both_iff (heps : 0 ≤ epsilon) (hbeside : Beside epsilon eyePos d i t) :
    0 < cubeT (cubeFaceTest epsilon) epsilon eyePos d i ∧
        0 < cubeT (cubeFaceTestDevice epsilon) epsilon eyePos d i ↔
      i = 3 ∨ (eyePos + t • d) (faceSecond i) = 1 / 2 + epsilon := by
  obtain ⟨hplane, hfirst, hlow, hright⟩ := hbeside
  have hpos := hplane.2.1
  have htest (faceTest : Vector3 R → Fin 6 → Bool) :
      0 < cubeT faceTest epsilon eyePos d i ↔ faceTest (eyePos + t • d) i = true := by
    constructor
    · intro h
      obtain ⟨hplane', hpass⟩ := (cubeT_pos_iff heps).mp ⟨h, rfl⟩
      have heq := ((meetsPlane_iff heps).mp hplane).2
      have heq' := ((meetsPlane_iff heps).mp hplane').2
      rwa [heq', ← heq] at hpass
    · intro h
      obtain ⟨-, heq⟩ := (cubeT_pos_iff heps).mpr ⟨hplane, h⟩
      exact heq ▸ hpos
  rw [htest, htest, cubeFaceTest_iff heps, cubeFaceTestDevice_iff]
  by_cases hi : i = 3
  · rw [if_pos hi]
    exact iff_of_true ⟨⟨hfirst, hlow, hright hi⟩, hfirst, hlow, hright hi⟩ (Or.inl hi)
  · rw [if_neg hi]
    constructor
    · rintro ⟨⟨-, hge⟩, -, -, hle⟩
      exact Or.inr (le_antisymm hle hge)
    · rintro (h | heq)
      · exact absurd h hi
      · exact ⟨⟨hfirst, heq.ge⟩, hfirst, hlow, heq.le⟩

/-- **The intersection with the cube.** It is exact and the same on both platforms exactly if the
first plane met on its face or past the far edge is one on which the range test errs nowhere. -/
theorem cubeLaw_iff (heps : 0 ≤ epsilon) :
    CubeLaw epsilon eyePos d faceIndex ↔ CubeSeen epsilon eyePos d := by
  have hsame : doIntersectUnitCube epsilon eyePos d faceIndex =
        doIntersectUnitCubeDevice epsilon eyePos d faceIndex ↔
      ∀ i t, Beside epsilon eyePos d i t → t < posInf R →
        (∀ j t', Beside epsilon eyePos d j t' → t < t' ∨ t = t' ∧ i ≤ j) →
        i = 3 ∨ (eyePos + t • d) (faceSecond i) = 1 / 2 + epsilon := by
    rw [doIntersectUnitCube, doIntersectUnitCubeDevice,
      nearestFace_eq_iff fun j => cubeT_agree heps]
    constructor
    · intro h i t hbeside hlt hfirst
      obtain ⟨hpos, heq⟩ := (beside_iff heps).mp hbeside
      refine (both_iff heps hbeside).mp (h i ⟨heq ▸ hpos, fun j hj => ?_⟩ (heq ▸ hlt))
      rw [← heq]
      exact hfirst j _ ((beside_iff heps).mpr ⟨hj, rfl⟩)
    · rintro h i ⟨hpos, hmin⟩ hlt
      have hbeside := (beside_iff heps).mpr ⟨hpos, rfl⟩
      refine (both_iff heps hbeside).mpr (h i _ hbeside hlt ?_)
      intro j t' hj
      obtain ⟨hpos', rfl⟩ := (beside_iff heps).mp hj
      exact hmin j hpos'
  have hdevice : CubeExact epsilon eyePos d (doIntersectUnitCubeDevice epsilon eyePos d faceIndex) ↔
      ((∃ i t, FacePoint epsilon eyePos d i t) →
        ∃ i t, FacePoint epsilon eyePos d i t ∧ t < posInf R) := by
    have hpos (i : Fin 6) (u : R) (h : FacePoint epsilon eyePos d i u) : 0 < u := h.1.2.1
    refine (exactHit_nearestFace_iff hpos fun _ hi => ?_).trans (and_iff_right ?_)
    · exact (facePoint_iff_device heps).mpr ⟨hi, rfl⟩
    intro j u hu
    obtain ⟨hpos, rfl⟩ := (facePoint_iff_device heps).mp hu
    exact ⟨j, hpos, le_rfl⟩
  unfold CubeLaw CubeSeen
  rw [hsame]
  constructor
  · rintro ⟨hexact, hseen, -⟩
    rw [hsame.mpr hseen] at hexact
    exact ⟨hdevice.mp hexact, hseen⟩
  · rintro ⟨hrange, hseen⟩
    rw [hsame.mpr hseen]
    have hexact := hdevice.mpr hrange
    refine ⟨hexact, hseen, fun hthrough hd => ?_⟩
    obtain ⟨i, t, hface⟩ := exists_facePoint heps hthrough hd
    exact hexact.result_ne (fun _ _ h => h.1.2.1) hface

omit [Field R] [LinearOrder R] [IsStrictOrderedRing R] in
theorem cubeLaw_iff_right :
    CubeLaw (1 / 10000 : ℚ) ![2, 0, 0] ![-1, 0, 0] (-1) ↔
      CubeSeen (1 / 10000 : ℚ) ![2, 0, 0] ![-1, 0, 0] :=
  cubeLaw_iff (by norm_num)

omit [Field R] [LinearOrder R] [IsStrictOrderedRing R] in
/-- A ray straight onto the front face misses the cube. -/
theorem cube_misses_front : ¬ CubeLaw (1 / 10000 : ℚ) ![0, 0, 2] ![0, 0, -1] (-1) := by
  have hmiss : doIntersectUnitCube (1 / 10000 : ℚ) ![0, 0, 2] ![0, 0, -1] (-1) = ⟨-1, -1⟩ := by
    decide +kernel
  have hface : FacePoint (1 / 10000 : ℚ) ![0, 0, 2] ![0, 0, -1] 0 (3 / 2) :=
    (facePoint_iff_device (by norm_num)).mpr ⟨by norm_num, by decide +kernel⟩
  rintro ⟨hexact, -⟩
  rw [hmiss] at hexact
  rcases hexact with ⟨i, -, hpoint, -⟩ | ⟨-, hnone⟩
  · exact absurd hpoint.1.2.1 (by norm_num)
  · exact hnone 0 _ hface

end CodingSample.Raytracing
