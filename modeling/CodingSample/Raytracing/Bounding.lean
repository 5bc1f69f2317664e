import CodingSample.Raytracing.Loading
import CodingSample.Raytracing.Quadrics
import Mathlib.Data.Matrix.Mul
import Mathlib.LinearAlgebra.Matrix.NonsingularInverse

/-!
# The boxes around placed objects

Every shape has a box around its image under the transform of the object: the smallest one for the
cube, a closed formula for the others where the transform is rigid, and that of the cube elsewhere.
-/

namespace CodingSample.Raytracing

abbrev Matrix4x4 (R : Type) := Matrix (Fin 4) (Fin 4) R

section Programs

variable {R : Type} [Field R] [LinearOrder R]

/-- `operator *` of a matrix and a vector. -/
def Matrix4x4.mulVec4 (matrix : Matrix4x4 R) (rhs : Fin 4 → R) : Fin 4 → R := fun r =>
  matrix r 0 * rhs 0 + matrix r 1 * rhs 1 + matrix r 2 * rhs 2 + matrix r 3 * rhs 3

/-- The place of a point: the product divided by its last coordinate. -/
def Matrix4x4.place (matrix : Matrix4x4 R) (p : Vector3 R) : Vector3 R :=
  let tmp := matrix.mulVec4 ![p 0, p 1, p 2, 1]
  ![tmp 0 / tmp 3, tmp 1 / tmp 3, tmp 2 / tmp 3]

/-- `eq` is the comparison `EQ`. -/
def checkOrthonormal (eq : R → R → Bool) (matrix : Matrix4x4 R) : Bool :=
  let result := matrix * matrix.transpose
  decide (∀ r c, eq (result r c) (if r = c then 1 else 0) = true)

/-- The matrix without its translation. -/
def Matrix4x4.ignoreTranslation (matrix : Matrix4x4 R) : Matrix4x4 R := fun r c =>
  if c = 3 ∧ r ≠ 3 then 0 else matrix r c

def cubeVertices : List (Vector3 R) :=
  [![1 / 2, 1 / 2, 1 / 2], ![1 / 2, 1 / 2, -1 / 2], ![1 / 2, -1 / 2, 1 / 2],
    ![1 / 2, -1 / 2, -1 / 2], ![-1 / 2, 1 / 2, 1 / 2], ![-1 / 2, 1 / 2, -1 / 2],
    ![-1 / 2, -1 / 2, 1 / 2], ![-1 / 2, -1 / 2, -1 / 2]]

/-- The corners `min` and `max` with one more point. -/
def growCorners (corners : Vector3 R × Vector3 R) (tmp : Vector3 R) : Vector3 R × Vector3 R :=
  (fun k => if tmp k < corners.1 k then tmp k else corners.1 k,
    fun k => if tmp k > corners.2 k then tmp k else corners.2 k)

def computeCubeAABB (transform : Matrix4x4 R) : AABB R :=
  let corners := (cubeVertices.map transform.place).foldl growCorners
    (fun _ => posInf R, fun _ => -posInf R)
  ⟨corners.1, corners.2 - corners.1⟩

def computeSphereAABB (sqrt : R → R) (eq : R → R → Bool) (transform : Matrix4x4 R) : AABB R :=
  if checkOrthonormal eq transform.ignoreTranslation then
    let verticeOrigin3 := transform.place ![0, 0, 0]
    let verticE3 := transform.place ![0, 1 / 2, 0]
    let distv := verticE3 - verticeOrigin3
    let r := sqrt (distv 0 * distv 0 + distv 1 * distv 1 + distv 2 * distv 2)
    ⟨verticeOrigin3 - fun _ => r, fun _ => 2 * r⟩
  else computeCubeAABB transform

/-- How far a disc across the axis from `a` to `b` reaches along axis `k`, for radius one. -/
def discReach (sqrt : R → R) (a b : Vector3 R) (k : Fin 3) : R :=
  let x := (a 0 - b 0) * (a 0 - b 0)
  let y := (a 1 - b 1) * (a 1 - b 1)
  let z := (a 2 - b 2) * (a 2 - b 2)
  match k with
  | 0 => sqrt ((y + z) / (x + y + z))
  | 1 => sqrt ((x + z) / (x + y + z))
  | 2 => sqrt ((x + y) / (x + y + z))

def computeConeAABB (sqrt : R → R) (eq : R → R → Bool) (transform : Matrix4x4 R) : AABB R :=
  if checkOrthonormal eq transform.ignoreTranslation then
    let top := transform.place ![0, 1 / 2, 0]
    let bottom := transform.place ![0, -1 / 2, 0]
    let pos : Vector3 R := fun k =>
      min (top k) (bottom k - discReach sqrt top bottom k * (1 / 2))
    ⟨pos, fun k => max (top k) (bottom k + discReach sqrt top bottom k * (1 / 2)) - pos k⟩
  else computeCubeAABB transform

/-- The swap of two coordinates that are not in order. -/
def swapEnds (a b : R) : R × R := if b < a then (b, a) else (a, b)

def computeCylinderAABB (sqrt : R → R) (eq : R → R → Bool) (transform : Matrix4x4 R) : AABB R :=
  if checkOrthonormal eq transform.ignoreTranslation then
    let top := transform.place ![0, 1 / 2, 0]
    let bottom := transform.place ![0, -1 / 2, 0]
    let ends : Fin 3 → R × R := fun k => swapEnds (top k) (bottom k)
    let reach := discReach sqrt top bottom
    ⟨fun k => (ends k).1 - reach k * (1 / 2),
      fun k => (ends k).2 - (ends k).1 + 2 * reach k * (1 / 2)⟩
  else computeCubeAABB transform

inductive PrimitiveType
  | none
  | cube
  | cone
  | cylinder
  | torus
  | sphere
  | mesh
  deriving DecidableEq, Repr

/-- The box that `addPrimitive` computes; nothing where the source asserts. -/
def primitiveBox (sqrt : R → R) (eq : R → R → Bool) (transform : Matrix4x4 R) :
    PrimitiveType → Option (AABB R)
  | .cube => some (computeCubeAABB transform)
  | .cone => some (computeConeAABB sqrt eq transform)
  | .cylinder => some (computeCylinderAABB sqrt eq transform)
  | .sphere => some (computeSphereAABB sqrt eq transform)
  | .torus | .mesh | .none => Option.none

/-- What `addPrimitive` is given: the kind, the transform and the rest of the object. -/
structure Placement (R : Type) where
  type : PrimitiveType
  transform : Matrix4x4 R
  obj : SceneObject R

namespace Scene

def addPlaced (sqrt : R → R) (eq : R → R → Bool) (scene : Scene R) (placement : Placement R) :
    Option (Scene R) :=
  (primitiveBox sqrt eq placement.transform placement.type).map fun box =>
    scene.addPrimitive { placement.obj with boundingBox := box }

def loadPlaced (sqrt : R → R) (eq : R → R → Bool) (placements : List (Placement R)) :
    Option (Scene R) :=
  placements.foldlM (addPlaced sqrt eq) initExtends

end Scene

end Programs

/-! ### Corners of a list of points -/

/-- What a choice between two values reaches along a list: it is related to the start and to every
value, and it is one of them. -/
theorem foldl_choice {α : Type} {choose : α → α → α} {rel : α → α → Prop} [IsTrans α rel]
    [Std.Refl rel]
    (hchoose : ∀ c x, rel (choose c x) c ∧ rel (choose c x) x ∧ (choose c x = c ∨ choose c x = x))
    (values : List α) (c : α) : rel (values.foldl choose c) c ∧
      (∀ x ∈ values, rel (values.foldl choose c) x) ∧
      (values.foldl choose c = c ∨ ∃ x ∈ values, values.foldl choose c = x) := by
  induction values generalizing c with
  | nil => exact ⟨refl_of rel c, fun x hx => absurd hx List.not_mem_nil, Or.inl rfl⟩
  | cons x values ih =>
      obtain ⟨hstart, hall, hsome⟩ := ih (choose c x)
      obtain ⟨hc, hx, hone⟩ := hchoose c x
      rw [List.foldl_cons]
      refine ⟨trans_of rel hstart hc, ?_, ?_⟩
      · intro y hy
        rcases List.mem_cons.mp hy with rfl | hy
        · exact trans_of rel hstart hx
        · exact hall y hy
      · rcases hsome with hsome | ⟨y, hy, heq⟩
        · rcases hone with hone | hone
          · exact Or.inl (hsome.trans hone)
          · exact Or.inr ⟨x, List.mem_cons_self, hsome.trans hone⟩
        · exact Or.inr ⟨y, List.mem_cons_of_mem x hy, heq⟩

section Corners

variable {R : Type} [LinearOrder R] {corners : Vector3 R × Vector3 R} {l : List (Vector3 R)}

theorem growCorners_low (k : Fin 3) : (l.foldl growCorners corners).1 k =
    (l.map fun q => q k).foldl (fun c x => if x < c then x else c) (corners.1 k) := by
  induction l generalizing corners with
  | nil => rfl
  | cons q l ih => exact ih

theorem growCorners_high (k : Fin 3) : (l.foldl growCorners corners).2 k =
    (l.map fun q => q k).foldl (fun c x => if x > c then x else c) (corners.2 k) := by
  induction l generalizing corners with
  | nil => rfl
  | cons q l ih => exact ih

end Corners

/-! ### The shapes and their places -/

variable {M : Matrix4x4 ℝ} {p : Vector3 ℝ}

def InCube (p : Vector3 ℝ) : Prop := ∀ k, -1 / 2 ≤ p k ∧ p k ≤ 1 / 2

def InSphere (p : Vector3 ℝ) : Prop := p 0 ^ 2 + p 1 ^ 2 + p 2 ^ 2 ≤ 1 / 4

def InCone (p : Vector3 ℝ) : Prop :=
  -1 / 2 ≤ p 1 ∧ p 1 ≤ 1 / 2 ∧ p 0 ^ 2 + p 2 ^ 2 ≤ ((1 / 2 - p 1) / 2) ^ 2

def InCylinder (p : Vector3 ℝ) : Prop := -1 / 2 ≤ p 1 ∧ p 1 ≤ 1 / 2 ∧ p 0 ^ 2 + p 2 ^ 2 ≤ 1 / 4

theorem half_of_sq_le {x : ℝ} (h : x ^ 2 ≤ 1 / 4) : -1 / 2 ≤ x ∧ x ≤ 1 / 2 := by
  have hsq : x ^ 2 ≤ (1 / 2) ^ 2 := by linarith
  have habs := abs_le.mp (abs_le_of_sq_le_sq hsq (by norm_num))
  exact ⟨by linarith [habs.1], habs.2⟩

theorem InSphere.inCube (h : InSphere p) : InCube p := by
  unfold InSphere at h
  rw [InCube, forall_axis]
  refine ⟨half_of_sq_le ?_, half_of_sq_le ?_, half_of_sq_le ?_⟩ <;>
    linarith [sq_nonneg (p 0), sq_nonneg (p 1), sq_nonneg (p 2)]

theorem InCylinder.inCube (h : InCylinder p) : InCube p := by
  obtain ⟨hlow, hhigh, hround⟩ := h
  rw [InCube, forall_axis]
  refine ⟨half_of_sq_le ?_, ⟨hlow, hhigh⟩, half_of_sq_le ?_⟩ <;>
    linarith [sq_nonneg (p 0), sq_nonneg (p 2)]

/-- The cone is part of the cylinder. -/
theorem InCone.inCylinder (h : InCone p) : InCylinder p := by
  obtain ⟨hlow, hhigh, hround⟩ := h
  have hradius : ((1 / 2 - p 1) / 2) ^ 2 ≤ (1 / 2) ^ 2 := by
    apply pow_le_pow_left₀ <;> linarith
  exact ⟨hlow, hhigh, hround.trans (by linarith)⟩

/-- The last row of an affine transform. -/
def IsAffine (M : Matrix4x4 ℝ) : Prop := M 3 0 = 0 ∧ M 3 1 = 0 ∧ M 3 2 = 0 ∧ M 3 3 = 1

theorem place_apply (h : IsAffine M) (k : Fin 3) : M.place p k =
    M k.castSucc 0 * p 0 + M k.castSucc 1 * p 1 + M k.castSucc 2 * p 2 + M k.castSucc 3 := by
  obtain ⟨hx, hy, hz, hw⟩ := h
  have hlast : M.mulVec4 ![p 0, p 1, p 2, 1] 3 = 1 := by
    simp [Matrix4x4.mulVec4, hx, hy, hz, hw]
  have hrow : M.place p k =
      M.mulVec4 ![p 0, p 1, p 2, 1] k.castSucc / M.mulVec4 ![p 0, p 1, p 2, 1] 3 := by
    fin_cases k <;> rfl
  rw [hrow, hlast, div_one]
  simp [Matrix4x4.mulVec4]

/-- The linear part is orthonormal: its rows and the image of the axis have length one. -/
structure Rigid (M : Matrix4x4 ℝ) : Prop where
  row : ∀ k : Fin 3,
    M k.castSucc 0 ^ 2 + M k.castSucc 1 ^ 2 + M k.castSucc 2 ^ 2 = 1
  axis : M 0 1 ^ 2 + M 1 1 ^ 2 + M 2 1 ^ 2 = 1

/-- The comparison in exact arithmetic. -/
noncomputable def exactEq (a b : ℝ) : Bool := decide (a = b)

theorem checkOrthonormal_iff :
    checkOrthonormal exactEq M = true ↔ M * M.transpose = 1 := by
  unfold checkOrthonormal exactEq
  simp only [decide_eq_true_eq]
  constructor
  · intro h
    ext r c
    rw [h r c, Matrix.one_apply]
  · intro h r c
    rw [h, Matrix.one_apply]

theorem rigid_of_checkOrthonormal (ha : IsAffine M)
    (h : checkOrthonormal exactEq M.ignoreTranslation = true) : Rigid M := by
  rw [checkOrthonormal_iff] at h
  have hcol := mul_eq_one_comm.mp h
  have hkeep (r : Fin 4) (c : Fin 3) : M.ignoreTranslation r c.castSucc = M r c.castSucc := by
    apply if_neg
    rintro ⟨hlast, -⟩
    exact (Fin.castSucc_lt_last c).ne hlast
  constructor
  · intro k
    have hrow := congrFun (congrFun h k.castSucc) k.castSucc
    have htranslation : M.ignoreTranslation k.castSucc 3 = 0 :=
      if_pos ⟨rfl, (Fin.castSucc_lt_last k).ne⟩
    rw [Matrix.mul_apply, Matrix.one_apply_eq, Fin.sum_univ_four] at hrow
    simp only [Matrix.transpose_apply, htranslation, mul_zero, add_zero] at hrow
    rw [sq, sq, sq]
    exact hrow
  · have haxis := congrFun (congrFun hcol 1) 1
    rw [Matrix.mul_apply, Matrix.one_apply_eq, Fin.sum_univ_four] at haxis
    have hlast : M.ignoreTranslation 3 1 = 0 := ha.2.1
    simp only [Matrix.transpose_apply, hlast, mul_zero, add_zero] at haxis
    rw [sq, sq, sq]
    exact haxis

/-- The box contains the image of the shape. -/
def Encloses (box : AABB ℝ) (M : Matrix4x4 ℝ) (shape : Vector3 ℝ → Prop) : Prop :=
  ∀ p, shape p → box.contains (M.place p) = true

theorem Encloses.mono {box : AABB ℝ} {shape shape' : Vector3 ℝ → Prop}
    (h : Encloses box M shape) (hsub : ∀ p, shape' p → shape p) : Encloses box M shape' :=
  fun p hp => h p (hsub p hp)

/-! ### The cube -/

theorem mem_cubeVertices (h : ∀ k, p k = 1 / 2 ∨ p k = -1 / 2) : p ∈ cubeVertices := by
  have hp : p = ![p 0, p 1, p 2] := by
    funext k
    fin_cases k <;> rfl
  rw [hp]
  rcases h 0 with hx | hx <;> rcases h 1 with hy | hy <;> rcases h 2 with hz | hz <;>
    rw [hx, hy, hz] <;> simp [cubeVertices]

theorem inCube_of_sq {x y z : ℝ} (hx : x ^ 2 = 1 / 4) (hy : y ^ 2 = 1 / 4) (hz : z ^ 2 = 1 / 4) :
    InCube ![x, y, z] := by
  rw [InCube, forall_axis]
  exact ⟨half_of_sq_le hx.le, half_of_sq_le hy.le, half_of_sq_le hz.le⟩

theorem vertex_inCube (h : p ∈ cubeVertices) : InCube p := by
  simp only [cubeVertices, List.mem_cons, List.not_mem_nil, or_false] at h
  rcases h with rfl | rfl | rfl | rfl | rfl | rfl | rfl | rfl <;>
    exact inCube_of_sq (by norm_num) (by norm_num) (by norm_num)

/-- A linear form is least and greatest over the cube at a vertex. -/
theorem exists_vertex (a : Vector3 ℝ) (h : InCube p) : ∃ q ∈ cubeVertices,
    a 0 * q 0 + a 1 * q 1 + a 2 * q 2 ≤ a 0 * p 0 + a 1 * p 1 + a 2 * p 2 := by
  have hterm (k : Fin 3) : a k * (if 0 ≤ a k then -1 / 2 else 1 / 2) ≤ a k * p k := by
    split
    · exact mul_le_mul_of_nonneg_left (h k).1 ‹_›
    · exact mul_le_mul_of_nonpos_left (h k).2 (not_le.mp ‹_›).le
  refine ⟨fun k => if 0 ≤ a k then -1 / 2 else 1 / 2, mem_cubeVertices fun k => ?_, ?_⟩
  · by_cases hk : 0 ≤ a k
    · exact Or.inr (if_pos hk)
    · exact Or.inl (if_neg hk)
  · linarith [hterm 0, hterm 1, hterm 2]

/-- The places of the vertices are below `posInf`. -/
def WithinInf (M : Matrix4x4 ℝ) : Prop :=
  ∀ q ∈ cubeVertices, ∀ k, |M.place q k| < posInf ℝ

/-- A corner that no start value reaches is the place of a vertex. -/
theorem vertex_of_choice {rel : ℝ → ℝ → Prop} {start c : ℝ} {k : Fin 3}
    (hstart : ∀ q ∈ cubeVertices, ¬rel start (M.place q k))
    (hall : ∀ x ∈ (cubeVertices.map M.place).map fun q => q k, rel c x)
    (hsome : c = start ∨ ∃ x ∈ (cubeVertices.map M.place).map fun q => q k, c = x) :
    (∀ q ∈ cubeVertices, rel c (M.place q k)) ∧ ∃ q ∈ cubeVertices, c = M.place q k := by
  have hmem (q : Vector3 ℝ) (hq : q ∈ cubeVertices) :
      M.place q k ∈ (cubeVertices.map M.place).map fun q => q k :=
    List.mem_map_of_mem (List.mem_map_of_mem hq)
  refine ⟨fun q hq => hall _ (hmem q hq), ?_⟩
  rcases hsome with rfl | ⟨x, hx, heq⟩
  · have hfirst : ![1 / 2, 1 / 2, 1 / 2] ∈ (cubeVertices : List (Vector3 ℝ)) := List.mem_cons_self
    exact absurd (hall _ (hmem _ hfirst)) (hstart _ hfirst)
  · obtain ⟨_, hplace, rfl⟩ := List.mem_map.mp hx
    obtain ⟨q, hvertex, rfl⟩ := List.mem_map.mp hplace
    exact ⟨q, hvertex, heq⟩

theorem cube_low (hM : WithinInf M) (k : Fin 3) :
    (∀ q ∈ cubeVertices, (computeCubeAABB M).pos k ≤ M.place q k) ∧
      ∃ q ∈ cubeVertices, (computeCubeAABB M).pos k = M.place q k := by
  have hchoose (c x : ℝ) : (if x < c then x else c) ≤ c ∧ (if x < c then x else c) ≤ x ∧
      ((if x < c then x else c) = c ∨ (if x < c then x else c) = x) := by
    split_ifs with hx
    · exact ⟨hx.le, le_rfl, Or.inr rfl⟩
    · exact ⟨le_rfl, not_lt.mp hx, Or.inl rfl⟩
  obtain ⟨-, hall, hsome⟩ := foldl_choice hchoose
    ((cubeVertices.map M.place).map fun q => q k) (posInf ℝ)
  have hpos : (computeCubeAABB M).pos k = ((cubeVertices.map M.place).foldl growCorners
      (fun _ => posInf ℝ, fun _ => -posInf ℝ)).1 k := rfl
  rw [hpos, growCorners_low]
  refine vertex_of_choice (fun q hq => ?_) hall hsome
  exact not_le.mpr (abs_lt.mp (hM q hq k)).2

theorem cube_high (hM : WithinInf M) (k : Fin 3) :
    (∀ q ∈ cubeVertices, M.place q k ≤ (computeCubeAABB M).stop k) ∧
      ∃ q ∈ cubeVertices, (computeCubeAABB M).stop k = M.place q k := by
  have hchoose (c x : ℝ) : (if x > c then x else c) ≥ c ∧ (if x > c then x else c) ≥ x ∧
      ((if x > c then x else c) = c ∨ (if x > c then x else c) = x) := by
    split_ifs with hx
    · exact ⟨hx.le, le_rfl, Or.inr rfl⟩
    · exact ⟨le_rfl, not_lt.mp hx, Or.inl rfl⟩
  obtain ⟨-, hall, hsome⟩ := foldl_choice hchoose
    ((cubeVertices.map M.place).map fun q => q k) (-posInf ℝ)
  have hstop : (computeCubeAABB M).stop k = ((cubeVertices.map M.place).foldl growCorners
      (fun _ => posInf ℝ, fun _ => -posInf ℝ)).2 k := add_sub_cancel _ _
  rw [hstop, growCorners_high]
  refine vertex_of_choice (fun q hq => ?_) hall hsome
  exact not_le.mpr (abs_lt.mp (hM q hq k)).1

theorem cube_encloses (ha : IsAffine M) (hM : WithinInf M) :
    Encloses (computeCubeAABB M) M InCube := by
  intro p hp
  rw [AABB.contains_iff]
  intro k
  constructor
  · obtain ⟨q, hq, hle⟩ := exists_vertex (fun j => M k.castSucc j.castSucc) hp
    have hbelow := (cube_low hM k).1 q hq
    rw [place_apply ha] at hbelow ⊢
    exact hbelow.trans (add_le_add_left hle _)
  · obtain ⟨q, hq, hle⟩ := exists_vertex (fun j => -M k.castSucc j.castSucc) hp
    have habove := (cube_high hM k).1 q hq
    rw [place_apply ha] at habove ⊢
    refine le_trans ?_ habove
    have hx : M k.castSucc (Fin.castSucc 0) = M k.castSucc 0 := rfl
    have hy : M k.castSucc (Fin.castSucc 1) = M k.castSucc 1 := rfl
    have hz : M k.castSucc (Fin.castSucc 2) = M k.castSucc 2 := rfl
    rw [hx, hy, hz] at hle
    linarith

/-- No smaller box contains the image of the cube. -/
theorem cube_smallest (hM : WithinInf M) {c : AABB ℝ} (hc : Encloses c M InCube) :
    (computeCubeAABB M).Inside c := by
  intro k
  obtain ⟨-, q, hq, hlow⟩ := cube_low hM k
  obtain ⟨-, q', hq', hhigh⟩ := cube_high hM k
  have hin := AABB.contains_iff.mp (hc q (vertex_inCube hq)) k
  have hin' := AABB.contains_iff.mp (hc q' (vertex_inCube hq')) k
  rw [hlow, hhigh]
  exact ⟨hin.1, hin'.2⟩

/-! ### Rigid placements -/

/-- The squares of the three coordinates of the image of the axis, without coordinate `k`. -/
theorem Rigid.across (h : Rigid M) (k : Fin 3) :
    M k.castSucc 0 ^ 2 + M k.castSucc 2 ^ 2 = 1 - M k.castSucc 1 ^ 2 := by
  linarith [h.row k]

theorem discReach_eq (ha : IsAffine M) (h : Rigid M) (k : Fin 3) :
    discReach Real.sqrt (M.place ![0, 1 / 2, 0]) (M.place ![0, -1 / 2, 0]) k =
      √(M k.castSucc 0 ^ 2 + M k.castSucc 2 ^ 2) := by
  have haxis (j : Fin 3) : M.place ![0, 1 / 2, 0] j - M.place ![0, -1 / 2, 0] j =
      M j.castSucc 1 := by
    rw [place_apply ha, place_apply ha]
    simp
    ring
  have hsum := h.axis
  have hx : M.place ![0, 1 / 2, 0] 0 - M.place ![0, -1 / 2, 0] 0 = M 0 1 := haxis 0
  have hy : M.place ![0, 1 / 2, 0] 1 - M.place ![0, -1 / 2, 0] 1 = M 1 1 := haxis 1
  have hz : M.place ![0, 1 / 2, 0] 2 - M.place ![0, -1 / 2, 0] 2 = M 2 1 := haxis 2
  have hone : M 0 1 * M 0 1 + M 1 1 * M 1 1 + M 2 1 * M 2 1 = 1 := by
    rw [← sq, ← sq, ← sq]
    exact hsum
  rw [h.across]
  unfold discReach
  simp only [hx, hy, hz, hone]
  fin_cases k
  · have heq : M 1 1 * M 1 1 + M 2 1 * M 2 1 = 1 - M 0 1 ^ 2 := by linarith [sq (M 0 1)]
    simp only [heq, div_one]
    rfl
  · have heq : M 0 1 * M 0 1 + M 2 1 * M 2 1 = 1 - M 1 1 ^ 2 := by linarith [sq (M 1 1)]
    simp only [heq, div_one]
    rfl
  · have heq : M 0 1 * M 0 1 + M 1 1 * M 1 1 = 1 - M 2 1 ^ 2 := by linarith [sq (M 2 1)]
    simp only [heq, div_one]
    rfl

/-- A point across the axis is no further than the reach. -/
theorem abs_across_le {a b x y radius : ℝ} (hradius : 0 ≤ radius)
    (h : x ^ 2 + y ^ 2 ≤ radius ^ 2) : |a * x + b * y| ≤ √(a ^ 2 + b ^ 2) * radius := by
  have hnonneg : 0 ≤ a ^ 2 + b ^ 2 := add_nonneg (sq_nonneg a) (sq_nonneg b)
  apply abs_le_of_sq_le_sq
  · have hcauchy : (a * x + b * y) ^ 2 ≤ (a ^ 2 + b ^ 2) * (x ^ 2 + y ^ 2) := by
      linarith [sq_nonneg (a * y - b * x)]
    calc
      (a * x + b * y) ^ 2 ≤ (a ^ 2 + b ^ 2) * (x ^ 2 + y ^ 2) := hcauchy
      _ ≤ (a ^ 2 + b ^ 2) * radius ^ 2 := mul_le_mul_of_nonneg_left h hnonneg
      _ = (√(a ^ 2 + b ^ 2) * radius) ^ 2 := by rw [mul_pow, Real.sq_sqrt hnonneg]
  · exact mul_nonneg (Real.sqrt_nonneg _) hradius

/-- Between two values, in a proportion. -/
theorem min_le_mix {x y r : ℝ} (h0 : 0 ≤ r) (h1 : r ≤ 1) : min x y ≤ (1 - r) * x + r * y := by
  have hx := mul_le_mul_of_nonneg_left (min_le_left x y) (sub_nonneg.mpr h1)
  have hy := mul_le_mul_of_nonneg_left (min_le_right x y) h0
  linarith

theorem mix_le_max {x y r : ℝ} (h0 : 0 ≤ r) (h1 : r ≤ 1) : (1 - r) * x + r * y ≤ max x y := by
  have hx := mul_le_mul_of_nonneg_left (le_max_left x y) (sub_nonneg.mpr h1)
  have hy := mul_le_mul_of_nonneg_left (le_max_right x y) h0
  linarith

theorem top_apply (ha : IsAffine M) (k : Fin 3) :
    M.place ![0, 1 / 2, 0] k = M k.castSucc 3 + M k.castSucc 1 / 2 := by
  rw [place_apply ha]
  simp
  ring

theorem bottom_apply (ha : IsAffine M) (k : Fin 3) :
    M.place ![0, -1 / 2, 0] k = M k.castSucc 3 - M k.castSucc 1 / 2 := by
  rw [place_apply ha]
  simp
  ring

theorem origin_apply (ha : IsAffine M) (k : Fin 3) : M.place ![0, 0, 0] k = M k.castSucc 3 := by
  rw [place_apply ha]
  simp

theorem sphere_encloses (ha : IsAffine M) (hM : WithinInf M) :
    Encloses (computeSphereAABB Real.sqrt exactEq M) M InSphere := by
  unfold computeSphereAABB
  split
  · rename_i hortho
    have hrigid := rigid_of_checkOrthonormal ha hortho
    have hdist (j : Fin 3) :
        (M.place ![0, 1 / 2, 0] - M.place ![0, 0, 0]) j = M j.castSucc 1 / 2 := by
      rw [Pi.sub_apply, top_apply ha, origin_apply ha]
      ring
    have hsum : M (Fin.castSucc 0) 1 / 2 * (M (Fin.castSucc 0) 1 / 2) +
        M (Fin.castSucc 1) 1 / 2 * (M (Fin.castSucc 1) 1 / 2) +
          M (Fin.castSucc 2) 1 / 2 * (M (Fin.castSucc 2) 1 / 2) = (1 / 2) ^ 2 := by
      have haxis : M (Fin.castSucc 0) 1 ^ 2 + M (Fin.castSucc 1) 1 ^ 2 +
        M (Fin.castSucc 2) 1 ^ 2 = 1 := hrigid.axis
      linarith
    intro p hp
    simp only [hdist, hsum, Real.sqrt_sq one_half_pos.le]
    rw [AABB.contains_iff]
    intro k
    have hrow := hrigid.row k
    have hdot : |M k.castSucc 0 * p 0 + M k.castSucc 1 * p 1 + M k.castSucc 2 * p 2| ≤ 1 / 2 := by
      apply abs_le_of_sq_le_sq _ one_half_pos.le
      calc
        _ ≤ (M k.castSucc 0 ^ 2 + M k.castSucc 1 ^ 2 + M k.castSucc 2 ^ 2) *
            (p 0 ^ 2 + p 1 ^ 2 + p 2 ^ 2) := by
          linarith [sq_nonneg (M k.castSucc 0 * p 1 - M k.castSucc 1 * p 0),
            sq_nonneg (M k.castSucc 0 * p 2 - M k.castSucc 2 * p 0),
            sq_nonneg (M k.castSucc 1 * p 2 - M k.castSucc 2 * p 1)]
        _ = p 0 ^ 2 + p 1 ^ 2 + p 2 ^ 2 := by rw [hrow, one_mul]
        _ ≤ (1 / 2) ^ 2 := hp.trans (by norm_num)
    obtain ⟨hlow, hhigh⟩ := abs_le.mp hdot
    simp only [AABB.stop_apply, Pi.sub_apply, origin_apply ha, place_apply ha]
    constructor <;> linarith
  · exact (cube_encloses ha hM).mono fun p => InSphere.inCube

theorem cone_encloses (ha : IsAffine M) (hM : WithinInf M) :
    Encloses (computeConeAABB Real.sqrt exactEq M) M InCone := by
  unfold computeConeAABB
  split
  · rename_i hortho
    have hrigid := rigid_of_checkOrthonormal ha hortho
    rintro p ⟨hlow, hhigh, hround⟩
    rw [AABB.contains_iff]
    intro k
    have hradius : 0 ≤ (1 / 2 - p 1) / 2 := by linarith
    have hacross := abs_le.mp
      (abs_across_le (a := M k.castSucc 0) (b := M k.castSucc 2) hradius hround)
    have h0 : 0 ≤ 1 / 2 - p 1 := by linarith
    have h1 : 1 / 2 - p 1 ≤ 1 := by linarith
    simp only [AABB.stop_apply, add_sub_cancel, discReach_eq ha hrigid, top_apply ha,
      bottom_apply ha, place_apply ha]
    constructor
    · refine (min_le_mix h0 h1).trans ?_
      linarith [hacross.1]
    · refine le_trans ?_ (mix_le_max h0 h1)
      linarith [hacross.2]
  · exact (cube_encloses ha hM).mono fun p hp => hp.inCylinder.inCube

theorem swapEnds_eq {R : Type} [LinearOrder R] (a b : R) : swapEnds a b = (min a b, max a b) := by
  unfold swapEnds
  split
  · rename_i hlt
    rw [min_eq_right hlt.le, max_eq_left hlt.le]
  · rename_i hge
    rw [min_eq_left (not_lt.mp hge), max_eq_right (not_lt.mp hge)]

theorem cylinder_encloses (ha : IsAffine M) (hM : WithinInf M) :
    Encloses (computeCylinderAABB Real.sqrt exactEq M) M InCylinder := by
  unfold computeCylinderAABB
  split
  · rename_i hortho
    have hrigid := rigid_of_checkOrthonormal ha hortho
    rintro p ⟨hlow, hhigh, hround⟩
    rw [AABB.contains_iff]
    intro k
    have hradius : p 0 ^ 2 + p 2 ^ 2 ≤ (1 / 2) ^ 2 := hround.trans (by norm_num)
    have hacross := abs_le.mp
      (abs_across_le (a := M k.castSucc 0) (b := M k.castSucc 2) one_half_pos.le hradius)
    have h0 : 0 ≤ 1 / 2 - p 1 := by linarith
    have h1 : 1 / 2 - p 1 ≤ 1 := by linarith
    have hmin := min_le_mix (x := M k.castSucc 3 + M k.castSucc 1 / 2)
      (y := M k.castSucc 3 - M k.castSucc 1 / 2) h0 h1
    have hmax := mix_le_max (x := M k.castSucc 3 + M k.castSucc 1 / 2)
      (y := M k.castSucc 3 - M k.castSucc 1 / 2) h0 h1
    simp only [AABB.stop_apply, swapEnds_eq, discReach_eq ha hrigid, top_apply ha,
      bottom_apply ha, place_apply ha]
    constructor
    · linarith [hacross.1]
    · linarith [hacross.2]
  · exact (cube_encloses ha hM).mono fun p => InCylinder.inCube

/-! ### Scenes of placed objects -/

/-- The shape of a kind of object. -/
def Shape : PrimitiveType → Vector3 ℝ → Prop
  | .cube => InCube
  | .cone => InCone
  | .cylinder => InCylinder
  | .sphere => InSphere
  | .torus | .mesh | .none => fun _ => False

theorem primitiveBox_encloses {type : PrimitiveType} {box : AABB ℝ} (ha : IsAffine M)
    (hM : WithinInf M) (h : primitiveBox Real.sqrt exactEq M type = some box) :
    Encloses box M (Shape type) := by
  cases type with
  | cube => exact Option.some.inj h ▸ cube_encloses ha hM
  | cone => exact Option.some.inj h ▸ cone_encloses ha hM
  | cylinder => exact Option.some.inj h ▸ cylinder_encloses ha hM
  | sphere => exact Option.some.inj h ▸ sphere_encloses ha hM
  | torus => cases h
  | mesh => cases h
  | none => cases h

theorem origin_inCube : InCube ![0, 0, 0] := by
  have hcoord : -1 / 2 ≤ (0 : ℝ) ∧ (0 : ℝ) ≤ 1 / 2 := by norm_num
  rw [InCube, forall_axis]
  exact ⟨hcoord, hcoord, hcoord⟩

/-- Every shape has its centre. -/
theorem shape_origin {type : PrimitiveType} {box : AABB ℝ}
    (h : primitiveBox Real.sqrt exactEq M type = some box) : Shape type ![0, 0, 0] := by
  cases type with
  | cube => exact origin_inCube
  | cone =>
      have hcone : -1 / 2 ≤ (0 : ℝ) ∧ (0 : ℝ) ≤ 1 / 2 ∧
        (0 : ℝ) ^ 2 + 0 ^ 2 ≤ ((1 / 2 - 0) / 2) ^ 2 := by norm_num
      exact hcone
  | cylinder =>
      have hcylinder : -1 / 2 ≤ (0 : ℝ) ∧ (0 : ℝ) ≤ 1 / 2 ∧ (0 : ℝ) ^ 2 + 0 ^ 2 ≤ 1 / 4 := by
        norm_num
      exact hcylinder
  | sphere =>
      have hsphere : (0 : ℝ) ^ 2 + 0 ^ 2 + 0 ^ 2 ≤ 1 / 4 := by norm_num
      exact hsphere
  | torus => cases h
  | mesh => cases h
  | none => cases h

/-- The place of the centre lies between the places of two opposite vertices. -/
theorem origin_lt (ha : IsAffine M) (hM : WithinInf M) (k : Fin 3) :
    M.place ![0, 0, 0] k < posInf ℝ := by
  have hin := AABB.contains_iff.mp (cube_encloses ha hM _ origin_inCube) k
  obtain ⟨q, hq, hstop⟩ := (cube_high hM k).2
  exact hin.2.trans_lt (hstop ▸ (abs_lt.mp (hM q hq k)).2)

/-- The boxes of placed objects are as the loader needs them. -/
theorem primitiveBox_proper {type : PrimitiveType} {box : AABB ℝ} (ha : IsAffine M)
    (hM : WithinInf M) (h : primitiveBox Real.sqrt exactEq M type = some box) :
    box.Proper ∧ ∀ k, box.pos k < posInf ℝ := by
  have hin (k : Fin 3) :=
    AABB.contains_iff.mp (primitiveBox_encloses ha hM h _ (shape_origin h)) k
  refine ⟨fun k => ?_, fun k => (hin k).1.trans_lt (origin_lt ha hM k)⟩
  have hle := (hin k).1.trans (hin k).2
  rw [AABB.stop_apply] at hle
  linarith

namespace Scene

theorem Snug.addPlaced {scene scene' : Scene ℝ} {placement : Placement ℝ} (h : scene.Snug)
    (ha : IsAffine placement.transform) (hM : WithinInf placement.transform)
    (hadd : addPlaced Real.sqrt exactEq scene placement = some scene') : scene'.Snug := by
  obtain ⟨box, hbox, rfl⟩ := Option.map_eq_some_iff.mp hadd
  obtain ⟨hproper, hpos⟩ := primitiveBox_proper ha hM hbox
  exact h.addPrimitive hproper hpos

/-- The boxes that the calls of `addPrimitive` compute. -/
noncomputable def placedBox (placement : Placement ℝ) : Option (AABB ℝ) :=
  primitiveBox Real.sqrt exactEq placement.transform placement.type

theorem loadPlaced_spec (placements : List (Placement ℝ))
    (hplaced : ∀ p ∈ placements, IsAffine p.transform ∧ WithinInf p.transform)
    (hkinds : ∀ p ∈ placements, (placedBox p).isSome) (start : Scene ℝ) (hstart : start.Snug) :
    ∃ scene, placements.foldlM (addPlaced Real.sqrt exactEq) start = some scene ∧ scene.Snug ∧
      scene.boxes.map some = start.boxes.map some ++ placements.map placedBox := by
  induction placements generalizing start with
  | nil => exact ⟨start, rfl, hstart, by simp⟩
  | cons placement placements ih =>
      obtain ⟨ha, hM⟩ := hplaced placement List.mem_cons_self
      obtain ⟨box, hbox⟩ := Option.isSome_iff_exists.mp (hkinds placement List.mem_cons_self)
      have hadd : addPlaced Real.sqrt exactEq start placement =
          some (start.addPrimitive { placement.obj with boundingBox := box }) :=
        Option.map_eq_some_iff.mpr ⟨box, hbox, rfl⟩
      obtain ⟨scene, hrest, hsnug, hboxes⟩ :=
        ih (fun p hp => hplaced p (List.mem_cons_of_mem placement hp))
          (fun p hp => hkinds p (List.mem_cons_of_mem placement hp)) _
          (hstart.addPlaced ha hM hadd)
      refine ⟨scene, ?_, hsnug, ?_⟩
      · rw [List.foldlM_cons, hadd]
        exact hrest
      · rw [hboxes, boxes_addPrimitive, List.map_append, List.append_assoc,
          List.map_cons (f := placedBox), hbox]
        rfl

end Scene

/-- Every box contains its shape, that of the cube is the smallest, and the extends box of a loaded
scene is the smallest around its objects. -/
theorem boxes_conservative :
    (∀ M, IsAffine M → WithinInf M →
      (Encloses (computeCubeAABB M) M InCube ∧
        ∀ c, Encloses c M InCube → (computeCubeAABB M).Inside c) ∧
      Encloses (computeSphereAABB Real.sqrt exactEq M) M InSphere ∧
      Encloses (computeConeAABB Real.sqrt exactEq M) M InCone ∧
      Encloses (computeCylinderAABB Real.sqrt exactEq M) M InCylinder) ∧
    ∀ placements : List (Placement ℝ),
      (∀ p ∈ placements, IsAffine p.transform ∧ WithinInf p.transform) →
      (∀ p ∈ placements, (Scene.placedBox p).isSome) →
      ∃ scene, Scene.loadPlaced Real.sqrt exactEq placements = some scene ∧
        scene.boxes.map some = placements.map Scene.placedBox ∧
        Scene.Smallest scene.extendsBox scene.boxes := by
  refine ⟨fun M ha hM => ?_, fun placements hplaced hkinds => ?_⟩
  · exact ⟨⟨cube_encloses ha hM, fun c => cube_smallest hM⟩, sphere_encloses ha hM,
      cone_encloses ha hM, cylinder_encloses ha hM⟩
  · obtain ⟨scene, hload, hsnug, hboxes⟩ :=
      Scene.loadPlaced_spec placements hplaced hkinds _ (Or.inl ⟨rfl, rfl⟩)
    exact ⟨scene, hload, hboxes, hsnug.smallest⟩

theorem one_isAffine : IsAffine 1 := by
  refine ⟨?_, ?_, ?_, Matrix.one_apply_eq 3⟩ <;> exact Matrix.one_apply_ne (by decide)

theorem one_withinInf : WithinInf 1 := by
  intro q hq k
  have hplace : (1 : Matrix4x4 ℝ).place q k = q k := by
    rw [place_apply one_isAffine]
    fin_cases k <;> simp [Matrix.one_apply]
  have hrange : (1 / 2 : ℝ) < posInf ℝ := by norm_num [posInf]
  obtain ⟨hlow, hhigh⟩ := vertex_inCube hq k
  rw [hplace, abs_lt]
  constructor <;> linarith

/-- A cube where it was built. -/
theorem boxes_conservative_cube : (computeCubeAABB (1 : Matrix4x4 ℝ)).contains
      ((1 : Matrix4x4 ℝ).place ![0, 0, 0]) = true ∧
    ∃ scene, Scene.loadPlaced Real.sqrt exactEq
      [⟨.cube, 1, ⟨computeCubeAABB 1, 0, fun _ _ => 0, fun _ _ => id⟩⟩] = some scene ∧
        Scene.Smallest scene.extendsBox scene.boxes := by
  refine ⟨(boxes_conservative.1 1 one_isAffine one_withinInf).1.1 _ origin_inCube, ?_⟩
  obtain ⟨scene, hload, -, hsmallest⟩ := boxes_conservative.2
    [⟨.cube, 1, ⟨computeCubeAABB 1, 0, fun _ _ => 0, fun _ _ => id⟩⟩]
    (fun p hp => List.mem_singleton.mp hp ▸ ⟨one_isAffine, one_withinInf⟩)
    (fun p hp => List.mem_singleton.mp hp ▸ rfl)
  exact ⟨scene, hload, hsmallest⟩

end CodingSample.Raytracing
