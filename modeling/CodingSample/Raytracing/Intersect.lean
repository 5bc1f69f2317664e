import CodingSample.Raytracing.KdTree
import CodingSample.Raytracing.Rays

/-!
# Intersecting a ray with the scene

The branch with the tree walks to a leaf, keeping the far side of each split on a stack, and takes
the least hit of the leaf if it lies in the leaf's box. The loops follow pointers, so they are given
fuel; a run without a result has used it up or has followed a null pointer.
-/

namespace CodingSample.Raytracing

variable {R : Type} [Field R] [LinearOrder R]

/-- The local variable `minT`, the two results and `tempFaceIndex`. -/
structure Hit (R : Type) where
  minT : R
  objectIndex : Int
  faceIndex : Int
  tempFaceIndex : Int

/-- The body of the loops over objects. -/
def Hit.test (eyePos d : Vector3 R) (curObj : SceneObject R) (index : Int) (acc : Hit R) : Hit R :=
  let t := curObj.hit eyePos d
  let tempFaceIndex := curObj.face eyePos d acc.tempFaceIndex
  if t > 0 ∧ t < acc.minT then
    { minT := t, objectIndex := index, faceIndex := tempFaceIndex, tempFaceIndex := tempFaceIndex }
  else { acc with tempFaceIndex := tempFaceIndex }

/-- The branch without the tree, from the index `i` on. -/
def linearScan (eyePos d : Vector3 R) : Nat → List (SceneObject R) → Hit R → Hit R
  | _, [], acc => acc
  | i, curObj :: objects, acc =>
      linearScan eyePos d (i + 1) objects (acc.test eyePos d curObj i)

/-- What `intersect` returns: `t`, `objectIndex` and `faceIndex`. -/
structure Result (R : Type) where
  t : R
  objectIndex : Int
  faceIndex : Int

def intersectLinear (eyePos d : Vector3 R) (objects : List (SceneObject R))
    (objectIndex faceIndex : Int) : Result R :=
  let acc := linearScan eyePos d 0 objects ⟨posInf R, objectIndex, faceIndex, -1⟩
  ⟨if acc.minT ≠ posInf R then acc.minT else -1, acc.objectIndex, acc.faceIndex⟩

/-- The inner loop: from a node to a leaf. -/
def descend (epsilon : R) (eyePos d : Vector3 R) (kd : KdTree R) :
    Nat → Option Nat → List (Option Nat) → Option (Nat × List (Option Nat))
  | 0, _, _ => none
  | _, none, _ => none
  | fuel + 1, some p, nodeStack =>
      let current := kd.kdMem p
      if current.leaf then some (p, nodeStack)
      else
        let (near, far) := doIntersectRayKdBox epsilon eyePos d current.box
        let axis := current.axis
        let splitPos := current.split
        let near := if near = far then 0 else near
        let nearPos := eyePos + near • d
        let farPos := eyePos + far • d
        if nearPos axis ≤ splitPos then
          if farPos axis ≤ splitPos then descend epsilon eyePos d kd fuel current.left nodeStack
          else descend epsilon eyePos d kd fuel current.left (current.right :: nodeStack)
        else
          if farPos axis > splitPos then descend epsilon eyePos d kd fuel current.right nodeStack
          else descend epsilon eyePos d kd fuel current.right (current.left :: nodeStack)

/-- The loop over the objects of a leaf. -/
def scanLeaf (eyePos d : Vector3 R) (kd : KdTree R) : Nat → Option Nat → Hit R → Option (Hit R)
  | 0, _, _ => none
  | _, none, acc => some acc
  | fuel + 1, some p, acc => match (kd.objMem p).object with
    | none => none
    | some curObj =>
        scanLeaf eyePos d kd fuel (kd.objMem p).next (acc.test eyePos d curObj curObj.arrayID)

/-- The box of a leaf, enlarged a little bit. -/
def AABB.enlarge (epsilon : R) (box : AABB R) : AABB R :=
  ⟨fun k => box.pos k - epsilon, fun k => box.size k + 2 * epsilon⟩

/-- The outer loop. -/
def search (epsilon : R) (eyePos d : Vector3 R) (kd : KdTree R) :
    Nat → Option Nat → List (Option Nat) → Hit R → Option (R × Hit R)
  | 0, _, _, _ => none
  | _, none, _, acc => some (-1, acc)
  | fuel + 1, some current, nodeStack, acc => do
      let (leaf, nodeStack) ← descend epsilon eyePos d kd fuel (some current) nodeStack
      let acc ← scanLeaf eyePos d kd fuel (kd.kdMem leaf).objList { acc with minT := posInf R }
      let dst := eyePos + acc.minT • d
      let curBox := (kd.kdMem leaf).box.enlarge epsilon
      if acc.minT ≠ posInf R ∧ curBox.contains dst = true then some (acc.minT, acc)
      else match nodeStack with
        | [] => some (-1, acc)
        | next :: nodeStack => search epsilon eyePos d kd fuel next nodeStack acc

/-- `intersect`. The tree is used when the settings ask for it, there is one, and the ray does not
refract. -/
def intersect (epsilon : R) (fuel : Nat) (useKdTree : Bool) (eyePos d : Vector3 R)
    (objects : List (SceneObject R)) (objectIndex faceIndex : Int) (tree : Option (KdTree R))
    (extendsBox : AABB R) (refract : Bool) : Option (Result R) :=
  match tree with
  | none => some (intersectLinear eyePos d objects objectIndex faceIndex)
  | some tree =>
      if useKdTree && !refract then
        let (near, far) := doIntersectRayKdBox epsilon eyePos d extendsBox
        if near ≤ 0 ∧ far ≤ 0 then some ⟨-1, objectIndex, faceIndex⟩
        else
          (search epsilon eyePos d tree fuel (some tree.root) []
            ⟨posInf R, objectIndex, faceIndex, -1⟩).map fun (resultT, acc) =>
              ⟨resultT, acc.objectIndex, acc.faceIndex⟩
      else some (intersectLinear eyePos d objects objectIndex faceIndex)

end CodingSample.Raytracing
