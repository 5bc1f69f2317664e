import CodingSample.Raytracing.Cube
import Mathlib.Algebra.QuadraticDiscriminant
import Mathlib.Analysis.Real.Sqrt
import Mathlib.Topology.Order.IntermediateValue

/-!
# The unit cone, cylinder and sphere

The flat parts are found with a plane and a disc, the round ones with the roots of a quadratic. The
square root is a parameter of the programs, and what they compute is stated over the real numbers.
-/

namespace CodingSample.Raytracing

section Programs

variable {R : Type} [Field R] [LinearOrder R]

/-- The choice among two parameters; `-1` if none is positive. -/
def leastRoot (t1 t2 : R) : R :=
  if t1 > 0 ∧ t2 ≤ 0 then t1
  else if t1 ≤ 0 ∧ t2 > 0 then t2
  else if t1 > 0 ∧ t2 > 0 then min t1 t2
  else -1

/-- The parameter is dropped if the point there is not between the planes of the caps. -/
def inHeight (epsilon : R) (eyePos d : Vector3 R) (t : R) : R :=
  if ¬ (eyePos 1 + t * d 1 ≤ 1 / 2 + epsilon ∧ eyePos 1 + t * d 1 ≥ -1 / 2 - epsilon) then -1
  else t

/-- The parameter of the round part of a cone or cylinder, with the quadratic `A`, `B`, `C`. Where
`A` is zero the source divides by zero; what it gets is never between the caps and never positive
here. -/
def sideT (sqrt : R → R) (epsilon A B C : R) (eyePos d : Vector3 R) : R :=
  let determinant := B * B - 4 * A * C
  if determinant ≥ 0 then
    leastRoot (inHeight epsilon eyePos d ((-B + sqrt determinant) / (2 * A)))
      (inHeight epsilon eyePos d ((-B - sqrt determinant) / (2 * A)))
  else -1

/-- The parameters of the bottom and the side. -/
def coneT (sqrt : R → R) (epsilon : R) (eyePos d : Vector3 R) : Fin 2 → R
  | 0 =>
      let t := doIntersectPlane epsilon ![0, -1 / 2, 0] ![0, -1, 0] eyePos d
      let intersect := eyePos + t • d
      if ¬ (intersect 0 * intersect 0 + intersect 2 * intersect 2 ≤ 1 / 4) then -1 else t
  | 1 =>
      let A := d 0 * d 0 + d 2 * d 2 - 1 / 4 * d 1 * d 1
      let B := 2 * eyePos 0 * d 0 + 2 * eyePos 2 * d 2 - 1 / 2 * eyePos 1 * d 1 + 1 / 4 * d 1
      let C := eyePos 0 * eyePos 0 + eyePos 2 * eyePos 2 - 1 / 4 * eyePos 1 * eyePos 1 +
        1 / 4 * eyePos 1 - 1 / 16
      sideT sqrt epsilon A B C eyePos d

def doIntersectUnitCone (sqrt : R → R) (epsilon : R) (eyePos d : Vector3 R) (faceIndex : Int) :
    FaceHit R :=
  nearestFace (coneT sqrt epsilon eyePos d) faceIndex

/-- The parameters of the bottom, the top and the side. -/
def cylinderT (sqrt : R → R) (epsilon : R) (eyePos d : Vector3 R) : Fin 3 → R
  | 0 =>
      let t := doIntersectPlane epsilon ![0, -1 / 2, 0] ![0, -1, 0] eyePos d
      let intersect := eyePos + t • d
      if t ≠ -1 ∧ ¬ (intersect 0 * intersect 0 + intersect 2 * intersect 2 ≤ 1 / 4) then -1 else t
  | 1 =>
      let t := doIntersectPlane epsilon ![0, 1 / 2, 0] ![0, 1, 0] eyePos d
      let intersect := eyePos + t • d
      if t ≠ -1 ∧ ¬ (intersect 0 * intersect 0 + intersect 2 * intersect 2 ≤ 1 / 4) then -1 else t
  | 2 =>
      let A := d 0 * d 0 + d 2 * d 2
      let B := 2 * eyePos 0 * d 0 + 2 * eyePos 2 * d 2
      let C := eyePos 0 * eyePos 0 + eyePos 2 * eyePos 2 - 1 / 4
      sideT sqrt epsilon A B C eyePos d

def doIntersectUnitCylinder (sqrt : R → R) (epsilon : R) (eyePos d : Vector3 R)
    (faceIndex : Int) : FaceHit R :=
  nearestFace (cylinderT sqrt epsilon eyePos d) faceIndex

def doIntersectUnitSphere (sqrt : R → R) (eyePos d : Vector3 R) : R :=
  let A := d 0 * d 0 + d 1 * d 1 + d 2 * d 2
  let B := 2 * eyePos 0 * d 0 + 2 * eyePos 1 * d 1 + 2 * eyePos 2 * d 2
  let C := eyePos 0 * eyePos 0 + eyePos 1 * eyePos 1 + eyePos 2 * eyePos 2 - 1 / 4
  let determinant := B * B - 4 * A * C
  let t := if determinant ≥ 0 then
      leastRoot ((-B + sqrt determinant) / (2 * A)) ((-B - sqrt determinant) / (2 * A))
    else -1
  if t > 0 then t else -1

/-- `length` of a vector. -/
def Vector3.length (sqrt : R → R) (v : Vector3 R) : R := sqrt (v 0 * v 0 + v 1 * v 1 + v 2 * v 2)

def checkCylinder (sqrt : R → R) (pos3 : Vector3 R) : Bool :=
  decide (Vector3.length sqrt ![pos3 0, 0, pos3 2] < 1 / 2) && decide (pos3 1 > -1 / 2) &&
    decide (pos3 1 < 1 / 2)

def checkCone (sqrt : R → R) (pos3 : Vector3 R) : Bool :=
  if pos3 1 > -1 / 2 ∧ pos3 1 < 1 / 2 then
    decide (Vector3.length sqrt ![pos3 0, 0, pos3 2] < 1 / 4 - 1 / 2 * pos3 1)
  else false

def checkSphere (sqrt : R → R) (pos3 : Vector3 R) : Bool :=
  decide (Vector3.length sqrt pos3 < 1 / 2)

end Programs

/-! ### The surfaces -/

/-- The disc of a cap at a height. -/
def OnDisc (height : ℝ) (p : Vector3 ℝ) : Prop := p 1 = height ∧ p 0 ^ 2 + p 2 ^ 2 ≤ 1 / 4

/-- The parts of the closed cone: its base and its side, which narrows to the apex. -/
def ConePart : Fin 2 → Vector3 ℝ → Prop
  | 0, p => OnDisc (-1 / 2) p
  | 1, p => -1 / 2 ≤ p 1 ∧ p 1 ≤ 1 / 2 ∧ p 0 ^ 2 + p 2 ^ 2 = ((1 / 2 - p 1) / 2) ^ 2

/-- The parts of the closed cylinder. -/
def CylinderPart : Fin 3 → Vector3 ℝ → Prop
  | 0, p => OnDisc (-1 / 2) p
  | 1, p => OnDisc (1 / 2) p
  | 2, p => -1 / 2 ≤ p 1 ∧ p 1 ≤ 1 / 2 ∧ p 0 ^ 2 + p 2 ^ 2 = 1 / 4

def OnSphere (p : Vector3 ℝ) : Prop := p 0 ^ 2 + p 1 ^ 2 + p 2 ^ 2 = 1 / 4

/-- The ray is at a part of the surface, in front of the eye. -/
def Hits {n : ℕ} (part : Fin n → Vector3 ℝ → Prop) (eyePos d : Vector3 ℝ) (i : Fin n) (t : ℝ) :
    Prop :=
  0 < t ∧ part i (eyePos + t • d)

variable {A B C s t t1 t2 : ℝ} {eyePos d : Vector3 ℝ} {faceIndex : Int}

/-! ### Quadratics -/

theorem leastRoot_pos (h : 0 < leastRoot t1 t2) : leastRoot t1 t2 = t1 ∨ leastRoot t1 t2 = t2 := by
  unfold leastRoot at h ⊢
  split_ifs at h ⊢ with h1 h2 h3
  · exact Or.inl rfl
  · exact Or.inr rfl
  · exact min_choice t1 t2
  · linarith

theorem leastRoot_le_left (h : 0 < t1) : 0 < leastRoot t1 t2 ∧ leastRoot t1 t2 ≤ t1 := by
  unfold leastRoot
  split_ifs with h1 h2 h3
  · exact ⟨h, le_rfl⟩
  · exact absurd h (not_lt.mpr h2.1)
  · exact ⟨lt_min h3.1 h3.2, min_le_left t1 t2⟩
  · exact absurd ⟨h, not_lt.mp fun h2 => h3 ⟨h, h2⟩⟩ h1

theorem leastRoot_le_right (h : 0 < t2) : 0 < leastRoot t1 t2 ∧ leastRoot t1 t2 ≤ t2 := by
  unfold leastRoot
  split_ifs with h1 h2 h3
  · exact absurd h (not_lt.mpr h1.2)
  · exact ⟨h, le_rfl⟩
  · exact ⟨lt_min h3.1 h3.2, min_le_right t1 t2⟩
  · exact absurd ⟨not_lt.mp fun h1 => h3 ⟨h1, h⟩, h⟩ h2

/-- The formula gives the roots. -/
theorem root_iff (hA : A ≠ 0) :
    A * t ^ 2 + B * t + C = 0 ↔ B * B - 4 * A * C ≥ 0 ∧
      (t = (-B + √(B * B - 4 * A * C)) / (2 * A) ∨ t = (-B - √(B * B - 4 * A * C)) / (2 * A)) := by
  have hsq : t ^ 2 = t * t := sq t
  constructor
  · intro h
    have hdet : B * B - 4 * A * C = (2 * A * t + B) ^ 2 := by
      linear_combination (-4 * A) * h
    have hpos : B * B - 4 * A * C ≥ 0 := hdet ▸ sq_nonneg _
    have hdiscrim : discrim A B C = √(B * B - 4 * A * C) * √(B * B - 4 * A * C) := by
      rw [Real.mul_self_sqrt hpos, discrim, sq]
    rw [hsq] at h
    exact ⟨hpos, (quadratic_eq_zero_iff hA hdiscrim t).mp h⟩
  · rintro ⟨hpos, hroot⟩
    have hdiscrim : discrim A B C = √(B * B - 4 * A * C) * √(B * B - 4 * A * C) := by
      rw [Real.mul_self_sqrt hpos, discrim, sq]
    rw [hsq]
    exact (quadratic_eq_zero_iff hA hdiscrim t).mpr hroot

theorem inHeight_pos (h : 0 < inHeight 0 eyePos d t) :
    inHeight 0 eyePos d t = t ∧ -1 / 2 ≤ eyePos 1 + t * d 1 ∧ eyePos 1 + t * d 1 ≤ 1 / 2 := by
  unfold inHeight at h ⊢
  split_ifs at h ⊢ with hin
  · exact ⟨rfl, by linarith [hin.2], by linarith [hin.1]⟩
  · linarith

theorem inHeight_of_between (hlow : -1 / 2 ≤ eyePos 1 + t * d 1)
    (hhigh : eyePos 1 + t * d 1 ≤ 1 / 2) : inHeight 0 eyePos d t = t := by
  unfold inHeight
  rw [if_neg]
  exact not_not.mpr ⟨by linarith, by linarith⟩

/-- What is found is a root between the caps. -/
theorem sideT_sound (h : 0 < sideT Real.sqrt 0 A B C eyePos d) :
    A ≠ 0 ∧ A * sideT Real.sqrt 0 A B C eyePos d ^ 2 + B * sideT Real.sqrt 0 A B C eyePos d + C = 0 ∧
      -1 / 2 ≤ eyePos 1 + sideT Real.sqrt 0 A B C eyePos d * d 1 ∧
      eyePos 1 + sideT Real.sqrt 0 A B C eyePos d * d 1 ≤ 1 / 2 := by
  generalize ht : sideT Real.sqrt 0 A B C eyePos d = t at h
  unfold sideT at ht
  simp only [] at ht
  split_ifs at ht with hdet
  · have hpick (u : ℝ) (hu : inHeight 0 eyePos d u = t) :
        u = t ∧ -1 / 2 ≤ eyePos 1 + t * d 1 ∧ eyePos 1 + t * d 1 ≤ 1 / 2 := by
      obtain ⟨heq, hbetween⟩ := inHeight_pos (hu ▸ h)
      have hut : u = t := heq.symm.trans hu
      exact ⟨hut, hut ▸ hbetween⟩
    have hne (num : ℝ) (hroot : num / (2 * A) = t) : A ≠ 0 := by
      rintro rfl
      rw [mul_zero, div_zero] at hroot
      exact absurd h (hroot ▸ lt_irrefl 0)
    rcases leastRoot_pos (ht.symm ▸ h) with heq | heq
    · obtain ⟨hroot, hbetween⟩ := hpick _ (heq.symm.trans ht)
      have hA := hne _ hroot
      exact ⟨hA, (root_iff hA).mpr ⟨hdet, Or.inl hroot.symm⟩, hbetween⟩
    · obtain ⟨hroot, hbetween⟩ := hpick _ (heq.symm.trans ht)
      have hA := hne _ hroot
      exact ⟨hA, (root_iff hA).mpr ⟨hdet, Or.inr hroot.symm⟩, hbetween⟩
  · linarith

/-- No positive root between the caps comes earlier. -/
theorem sideT_least (hA : A ≠ 0) (hpos : 0 < t) (hroot : A * t ^ 2 + B * t + C = 0)
    (hlow : -1 / 2 ≤ eyePos 1 + t * d 1) (hhigh : eyePos 1 + t * d 1 ≤ 1 / 2) :
    0 < sideT Real.sqrt 0 A B C eyePos d ∧ sideT Real.sqrt 0 A B C eyePos d ≤ t := by
  obtain ⟨hdet, hroots⟩ := (root_iff hA).mp hroot
  have hin := inHeight_of_between hlow hhigh
  unfold sideT
  simp only []
  rw [if_pos hdet]
  rcases hroots with heq | heq
  · rw [← heq, hin]
    exact leastRoot_le_left hpos
  · rw [← heq, hin]
    exact leastRoot_le_right hpos

/-- A root between a negative and a non-negative value. -/
theorem exists_root (hC : C < 0) (hs : 0 < s) (hvalue : 0 ≤ A * s ^ 2 + B * s + C) :
    ∃ t, 0 < t ∧ t ≤ s ∧ A * t ^ 2 + B * t + C = 0 := by
  have hcont : ContinuousOn (fun t : ℝ => A * t ^ 2 + B * t + C) (Set.Icc 0 s) := by fun_prop
  have hmem : (0 : ℝ) ∈ Set.Icc ((fun t : ℝ => A * t ^ 2 + B * t + C) 0)
      ((fun t : ℝ => A * t ^ 2 + B * t + C) s) := by
    refine ⟨?_, hvalue⟩
    simpa using hC.le
  obtain ⟨t, ⟨h0, hts⟩, hroot⟩ := intermediate_value_Icc hs.le hcont hmem
  refine ⟨t, h0.lt_of_ne ?_, hts, hroot⟩
  rintro rfl
  have hzero : C = 0 := by simpa using hroot
  exact absurd hzero hC.ne

/-- A quadratic that opens upwards has a positive root if it is negative at zero. -/
theorem exists_root_of_pos (hA : 0 < A) (hC : C < 0) : ∃ t, 0 < t ∧ A * t ^ 2 + B * t + C = 0 := by
  have hdet : B * B < B * B - 4 * A * C := by nlinarith
  have hsqrt : |B| < √(B * B - 4 * A * C) := by
    rw [← Real.sqrt_mul_self_eq_abs]
    exact Real.sqrt_lt_sqrt (mul_self_nonneg B) hdet
  refine ⟨(-B + √(B * B - 4 * A * C)) / (2 * A), ?_, ?_⟩
  · have hB := le_abs_self B
    exact div_pos (by linarith) (by linarith)
  · exact (root_iff hA.ne').mpr ⟨(mul_self_nonneg B).trans hdet.le, Or.inl rfl⟩

end CodingSample.Raytracing
