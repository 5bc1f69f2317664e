import CodingSample.Raytracing.Intersect

/-!
# The kernel

The tree is copied into two arrays of fixed size, in which an index stands for a pointer and `-1`
for the null pointer. The kernel walks them with a stack of fixed size. The indices it follows are
recorded.
-/

namespace CodingSample.Raytracing

open Prog

variable {R : Type}

structure KdTreeNodeDevice (R : Type) where
  boxBegin : Vector3 R
  boxSize : Vector3 R
  split : R
  leaf : Bool
  axis : Fin 3
  leftIndex : Int
  rightIndex : Int
  objIndex : Int

structure ObjectNodeDevice where
  objectIndex : Int
  nextNodeIndex : Int

/-- The difference to the start of the array. -/
def copyIndex : Option Nat → Int
  | none => -1
  | some p => p

def copyNode (n : KdTreeNode R) : KdTreeNodeDevice R :=
  { boxBegin := n.box.pos, boxSize := n.box.size, split := n.split, leaf := n.leaf, axis := n.axis,
    leftIndex := copyIndex n.left, rightIndex := copyIndex n.right,
    objIndex := copyIndex n.objList }

def copyObjectNode (n : ObjectNode R) : ObjectNodeDevice :=
  ⟨copyIndex (n.object.map SceneObject.arrayID), copyIndex n.next⟩

/-- What is copied to the device. -/
structure DeviceTree (R : Type) where
  kdNodes : List (KdTreeNodeDevice R)
  objNodes : List ObjectNodeDevice

def copyKdTree (tree : KdTree R) : DeviceTree R where
  kdNodes := (List.range kdtreeArraySize).map fun i => copyNode (tree.kdMem i)
  objNodes := (List.range kdtreeArraySize).map fun i => copyObjectNode (tree.objMem i)

/-- What can go wrong in the kernel. -/
inductive KernelFault
  /-- the loops go on -/
  | fuel
  /-- an index is outside its array -/
  | index
  /-- `nodeStack` is full -/
  | overflow
  deriving DecidableEq

/-- The indices of nodes and of object nodes that have been followed. -/
structure Followed where
  nodes : List Int
  objectNodes : List Int

abbrev Kernel (α : Type) := Prog KernelFault Followed α

def nodeStackSize : Nat := 1024

/-- The entry of an array at an index. -/
def readAt {α : Type} (mem : List α) (i : Int) : Kernel α :=
  match if 0 ≤ i then mem[i.toNat]? else none with
  | none => fail .index
  | some x => pure x

def readNode (mem : List (KdTreeNodeDevice R)) (i : Int) : Kernel (KdTreeNodeDevice R) := do
  modify fun f => { f with nodes := i :: f.nodes }
  readAt mem i

def readObjectNode (mem : List ObjectNodeDevice) (i : Int) : Kernel ObjectNodeDevice := do
  modify fun f => { f with objectNodes := i :: f.objectNodes }
  readAt mem i

variable [Field R] [LinearOrder R]

/-- The inner loop. -/
def descendDevice (epsilon : R) (eyePos d : Vector3 R) (kdtreeNodes : List (KdTreeNodeDevice R)) :
    Nat → KdTreeNodeDevice R → List Int → Kernel (KdTreeNodeDevice R × List Int)
  | 0, _, _ => fail .fuel
  | fuel + 1, current, nodeStack =>
      if current.leaf then pure (current, nodeStack)
      else
        let (near, far) :=
          doIntersectRayKdBox epsilon eyePos d ⟨current.boxBegin, current.boxSize⟩
        let axis := current.axis
        let splitPos := current.split
        let near := if near = far then 0 else near
        let nearPos := eyePos + near • d
        let farPos := eyePos + far • d
        if nearPos axis ≤ splitPos then
          if farPos axis ≤ splitPos then
            readNode kdtreeNodes current.leftIndex >>= fun next =>
              descendDevice epsilon eyePos d kdtreeNodes fuel next nodeStack
          else
            check .overflow (decide (nodeStack.length < nodeStackSize)) >>= fun _ =>
              readNode kdtreeNodes current.leftIndex >>= fun next =>
                descendDevice epsilon eyePos d kdtreeNodes fuel next
                  (current.rightIndex :: nodeStack)
        else
          if farPos axis > splitPos then
            readNode kdtreeNodes current.rightIndex >>= fun next =>
              descendDevice epsilon eyePos d kdtreeNodes fuel next nodeStack
          else
            check .overflow (decide (nodeStack.length < nodeStackSize)) >>= fun _ =>
              readNode kdtreeNodes current.rightIndex >>= fun next =>
                descendDevice epsilon eyePos d kdtreeNodes fuel next
                  (current.leftIndex :: nodeStack)

/-- The loop over the objects of a leaf. -/
def scanDevice (eyePos d : Vector3 R) (objectData : List (SceneObject R))
    (objectNodes : List ObjectNodeDevice) : Nat → Int → Hit R → Kernel (Hit R)
  | 0, _, _ => fail .fuel
  | fuel + 1, objIndex, acc =>
      if objIndex = -1 then pure acc
      else do
        let objList ← readObjectNode objectNodes objIndex
        let curSceneObj ← readAt objectData objList.objectIndex
        scanDevice eyePos d objectData objectNodes fuel objList.nextNodeIndex
          (acc.test eyePos d curSceneObj objList.objectIndex)

/-- The outer loop. -/
def searchDevice (epsilon : R) (eyePos d : Vector3 R) (objectData : List (SceneObject R))
    (tree : DeviceTree R) : Nat → Int → List Int → Hit R → Kernel (R × Hit R)
  | 0, _, _, _ => fail .fuel
  | fuel + 1, nextIndex, nodeStack, acc =>
      if nextIndex = -1 then pure (-1, acc)
      else do
        let current ← readNode tree.kdNodes nextIndex
        let (current, nodeStack) ←
          descendDevice epsilon eyePos d tree.kdNodes fuel current nodeStack
        let acc ← scanDevice eyePos d objectData tree.objNodes fuel current.objIndex
          { acc with minT := posInf R }
        let dst := eyePos + acc.minT • d
        let curBox := (AABB.mk current.boxBegin current.boxSize).enlarge epsilon
        if acc.minT ≠ posInf R ∧ curBox.contains dst = true then pure (acc.minT, acc)
        else match nodeStack with
          | [] => pure (-1, acc)
          | nextIndex :: nodeStack =>
              searchDevice epsilon eyePos d objectData tree fuel nextIndex nodeStack acc

/-- `intersect` in the kernel. -/
def intersectDevice (epsilon : R) (fuel : Nat) (useKdTree : Bool) (eyePos d : Vector3 R)
    (objectData : List (SceneObject R)) (objectIndex faceIndex : Int) (tree : DeviceTree R) :
    Kernel (Result R) :=
  if !useKdTree then pure (intersectLinear eyePos d objectData objectIndex faceIndex)
  else do
    let root ← readNode tree.kdNodes 0
    let (near, far) := doIntersectRayKdBox epsilon eyePos d ⟨root.boxBegin, root.boxSize⟩
    if near ≤ 0 ∧ far ≤ 0 then pure ⟨-1, objectIndex, faceIndex⟩
    else do
      let (resultT, acc) ← searchDevice epsilon eyePos d objectData tree fuel 0 []
        ⟨posInf R, objectIndex, faceIndex, -1⟩
      pure ⟨resultT, acc.objectIndex, acc.faceIndex⟩

end CodingSample.Raytracing
