import CodingSample.Prog.Basic
import CodingSample.Raytracing.Box

/-!
# Building the kd-tree

The nodes of the tree and the cells of their object lists live in two arrays of fixed size, and a
pointer is an index into one of them. The candidates for a split plane are kept in a list whose
nodes come from a pool and go back to it before the next node is divided.
-/

namespace CodingSample.Raytracing

open Prog

/-- An object of the scene. `hit` and `face` are what `doIntersect` returns and stores when it is
given the ray in the space of the object. -/
structure SceneObject (R : Type) where
  boundingBox : AABB R
  arrayID : Nat
  hit : Vector3 R → Vector3 R → R
  face : Vector3 R → Vector3 R → Int → Int

structure Scene (R : Type) where
  objects : List (SceneObject R)
  extendsBox : AABB R

/-- A candidate for the split plane, in a list through `next`. -/
structure SplitNode (R : Type) where
  splitPos : R
  leftCount : Nat
  rightCount : Nat

structure ObjectNode (R : Type) where
  object : Option (SceneObject R)
  next : Option Nat

structure KdTreeNode (R : Type) where
  box : AABB R
  split : R
  leaf : Bool
  axis : Fin 3
  left : Option Nat
  right : Option Nat
  objList : Option Nat

structure KdTree (R : Type) where
  allocated : Bool
  root : Nat
  splitList : List (SplitNode R)
  splitPool : List (SplitNode R)
  kdPtr : Nat
  objPtr : Option Nat
  kdMem : Nat → KdTreeNode R
  objMem : Nat → ObjectNode R

def maxTreeDepth : Nat := 32

def kdtreeArraySize : Nat := 100000

/-- What can stop the construction. -/
inductive Fault
  /-- `assert(0)`: the memory has not been allocated -/
  | assertion
  /-- no tree node is left -/
  | kdMem
  /-- no object node is left -/
  | objMem
  /-- a null pointer is followed -/
  | null
  /-- an array of `objCount` entries is exceeded, or read before it is filled -/
  | bounds
  /-- `1 / 0` -/
  | division
  deriving DecidableEq

variable {R : Type} [Field R] [LinearOrder R]

def KdTreeNode.new : KdTreeNode R :=
  { box := ⟨fun _ => 0, fun _ => 0⟩, split := 0, leaf := true, axis := 0, left := none,
    right := none, objList := none }

namespace KdTree

/-- The tree after the constructor. -/
def new : KdTree R :=
  { allocated := false, root := 0, splitList := [], splitPool := [], kdPtr := 0, objPtr := none,
    kdMem := fun _ => .new, objMem := fun _ => ⟨none, none⟩ }

/-- The object nodes are linked in the order of the array. The entry the loop ends at is the one
behind the array. -/
def allocateMem (kd : KdTree R) : KdTree R :=
  { kd with
    kdMem := fun _ => .new
    objMem := fun i => ⟨none, if i < kdtreeArraySize then some (i + 1) else none⟩
    kdPtr := 0
    objPtr := some 0
    allocated := true }

def setNode (p : Nat) (f : KdTreeNode R → KdTreeNode R) (kd : KdTree R) : KdTree R :=
  { kd with kdMem := Function.update kd.kdMem p (f (kd.kdMem p)) }

def setObjectNode (p : Nat) (n : ObjectNode R) (kd : KdTree R) : KdTree R :=
  { kd with objMem := Function.update kd.objMem p n }

def newObjectNode : Prog Fault (KdTree R) Nat := do
  let kd ← get
  match kd.objPtr with
  | none => fail .objMem
  | some retval =>
      check .objMem (decide (retval < kdtreeArraySize))
      modify fun kd => { kd with objPtr := (kd.objMem retval).next }
      modify (setObjectNode retval ⟨none, none⟩)
      pure retval

def newKdTreeNode : Prog Fault (KdTree R) Nat := do
  let kd ← get
  check .kdMem (decide (kd.kdPtr < kdtreeArraySize))
  modify (setNode kd.kdPtr fun _ => .new)
  modify fun kd => { kd with kdPtr := kd.kdPtr + 1 }
  pure kd.kdPtr

def newKdTreeNodePair : Prog Fault (KdTree R) Nat := do
  let kd ← get
  check .kdMem (decide (kd.kdPtr + 1 < kdtreeArraySize))
  modify (setNode kd.kdPtr fun _ => .new)
  modify (setNode (kd.kdPtr + 1) fun _ => .new)
  modify fun kd => { kd with kdPtr := kd.kdPtr + 2 }
  pure kd.kdPtr

def init : Prog Fault (KdTree R) Unit := do
  modify allocateMem
  let root ← newKdTreeNode
  modify fun kd => { kd with root := root }

/-- `KdTreeNode::add`: the new object comes to the front of the list. -/
def add (p : Nat) (object : SceneObject R) : Prog Fault (KdTree R) Unit := do
  let node ← newObjectNode
  let kd ← get
  modify (setObjectNode node ⟨some object, (kd.kdMem p).objList⟩)
  modify (setNode p fun n => { n with objList := some node })

/-- The loop that looks for the place behind the first node; without a result the position is there
already. -/
def insertAfter (newNode : SplitNode R) : List (SplitNode R) → Option (List (SplitNode R))
  | [] => some [newNode]
  | next :: rest =>
      if newNode.splitPos ≥ next.splitPos then
        if newNode.splitPos = next.splitPos then none
        else (insertAfter newNode rest).map (next :: ·)
      else some (newNode :: next :: rest)

def insertSplitPos (splitPos : R) : Prog Fault (KdTree R) Unit := do
  let kd ← get
  match kd.splitPool with
  | [] => fail .null
  | _ :: pool =>
      let newNode : SplitNode R := ⟨splitPos, 0, 0⟩
      match kd.splitList with
      | [] => modify fun kd => { kd with splitList := [newNode], splitPool := pool }
      | first :: rest =>
          if splitPos < first.splitPos then
            modify fun kd => { kd with splitList := newNode :: first :: rest, splitPool := pool }
          else if splitPos = first.splitPos then
            modify fun kd => { kd with splitPool := newNode :: pool }
          else match insertAfter newNode rest with
            | none => modify fun kd => { kd with splitPool := newNode :: pool }
            | some rest' =>
                modify fun kd => { kd with splitList := first :: rest', splitPool := pool }

/-- Only positions within the box are candidates. -/
def insertWithin (posStart posEnd splitPos : R) : Prog Fault (KdTree R) Unit :=
  if splitPos ≥ posStart ∧ splitPos ≤ posEnd then insertSplitPos splitPos else pure ()

/-- An object with its range on the split axis: the entries of `parray`, `eleft` and `eright`. -/
structure Slab (R : Type) where
  object : SceneObject R
  eleft : R
  eright : R

/-- `calculateAABBRange` -/
def slab (axis : Fin 3) (p : SceneObject R) : Slab R :=
  ⟨p, p.boundingBox.pos axis, p.boundingBox.pos axis + p.boundingBox.size axis⟩

/-- The loop over the object list of a node, with arrays of the given length. -/
def collect (axis : Fin 3) (posStart posEnd : R) :
    Nat → Option Nat → Prog Fault (KdTree R) (List (Slab R))
  | _, none => pure []
  | 0, some _ => fail .bounds
  | n + 1, some objNodes => do
      let kd ← get
      match (kd.objMem objNodes).object with
      | none => fail .null
      | some p =>
          let s := slab axis p
          insertWithin posStart posEnd s.eleft
          insertWithin posStart posEnd s.eright
          let rest ← collect axis posStart posEnd n (kd.objMem objNodes).next
          pure (s :: rest)

/-- The test for putting an object on one side. -/
def Slab.meets (s : Slab R) (box : AABB R) (start stop : R) : Bool :=
  decide (s.eleft ≤ stop) && decide (s.eright ≥ start) && s.object.boundingBox.intersectAABB box

/-- The two temporaries cut at the next candidate; their other coordinates are left alone. -/
def cut (axis : Fin 3) (posStart posEnd splitPos : R) (tmp : AABB R × AABB R) : AABB R × AABB R :=
  (tmp.1.setSize axis (splitPos - posStart),
    (tmp.2.setPos axis splitPos).setSize axis (posEnd - splitPos))

/-- Count for every candidate the objects on its two sides. -/
def countSplits (parray : List (Slab R)) (axis : Fin 3) (posStart posEnd : R) :
    AABB R × AABB R → List (SplitNode R) → List (SplitNode R)
  | _, [] => []
  | tmp, splist :: rest =>
      let tmp := cut axis posStart posEnd splist.splitPos tmp
      let leftEnd := tmp.1.pos axis + tmp.1.size axis
      let rightStart := tmp.2.pos axis
      { splist with
        leftCount := splist.leftCount + parray.countP (·.meets tmp.1 posStart leftEnd)
        rightCount := splist.rightCount + parray.countP (·.meets tmp.2 rightStart posEnd) } ::
        countSplits parray axis posStart posEnd tmp rest

/-- The cheapest cut so far. -/
structure Best (R : Type) where
  min : R
  bestpos : R
  leftAABB : AABB R
  rightAABB : AABB R

/-- The cost of a candidate whose sides have the surface areas `SA1` and `SA2`. -/
def splitcost (SAV SA1 SA2 : R) (splist : SplitNode R) : R :=
  3 / 10 + 1 * (SA1 * SAV * splist.leftCount + SA2 * SAV * splist.rightCount)

/-- The loop over the candidates that keeps the cheapest. -/
def bestSplit (SAV : R) (axis : Fin 3) (posStart posEnd : R) :
    Best R → AABB R × AABB R → List (SplitNode R) → Best R
  | best, _, [] => best
  | best, tmp, splist :: rest =>
      let tmp := cut axis posStart posEnd splist.splitPos tmp
      let cost := splitcost SAV tmp.1.calculateSA tmp.2.calculateSA splist
      let best := if cost < best.min then ⟨cost, splist.splitPos, tmp.1, tmp.2⟩ else best
      bestSplit SAV axis posStart posEnd best tmp rest

def addIf (test : Bool) (p : Nat) (object : SceneObject R) : Prog Fault (KdTree R) Unit :=
  if test then add p object else pure ()

/-- Put the objects into the lists of the two children, and count them. -/
def distribute (axis : Fin 3) (leftAABB rightAABB : AABB R) (left right : Nat) :
    List (Slab R) → Nat × Nat → Prog Fault (KdTree R) (Nat × Nat)
  | [], counts => pure counts
  | s :: rest, (leftCount, rightCount) => do
      let onLeft := s.meets leftAABB (leftAABB.pos axis) (leftAABB.pos axis + leftAABB.size axis)
      let onRight := s.meets rightAABB (rightAABB.pos axis)
        (rightAABB.pos axis + rightAABB.size axis)
      addIf onLeft left s.object
      addIf onRight right s.object
      distribute axis leftAABB rightAABB left right rest
        (if onLeft then leftCount + 1 else leftCount,
          if onRight then rightCount + 1 else rightCount)

/-- The axis of the longest side. -/
def splitAxis (s : Vector3 R) : Fin 3 :=
  if s 0 ≥ s 1 ∧ s 0 ≥ s 2 then 0
  else if s 1 ≥ s 0 ∧ s 1 ≥ s 2 then 1
  else 2

/-- The used split nodes go back to the pool. -/
def recycle (kd : KdTree R) : KdTree R :=
  { kd with splitPool := kd.splitList ++ kd.splitPool, splitList := [] }

/-- Two children and what the recursion needs of them. -/
structure Children (R : Type) where
  left : Nat
  leftAABB : AABB R
  leftCount : Nat
  rightAABB : AABB R
  rightCount : Nat

/-- The first part of `subdivide`: the entries of `parray` and the cheapest cut. -/
def findSplit (node : Nat) (aabb : AABB R) (objCount : Nat) :
    Prog Fault (KdTree R) (List (Slab R) × Best R) := do
  modify recycle
  let axis := splitAxis aabb.size
  modify (setNode node fun n => { n with axis := axis })
  let kd ← get
  let posStart := aabb.pos axis
  let posEnd := aabb.pos axis + aabb.size axis
  let parray ← collect axis posStart posEnd objCount (kd.kdMem node).objList
  check .bounds (parray.length == objCount)
  modify fun kd =>
    { kd with splitList := countSplits parray axis posStart posEnd (aabb, aabb) kd.splitList }
  check .division (decide (aabb.calculateSA ≠ 0))
  let SAV := 1 / aabb.calculateSA
  let kd ← get
  let unset : AABB R := ⟨fun _ => 0, fun _ => 0⟩
  pure (parray, bestSplit SAV axis posStart posEnd ⟨posInf R, 0, unset, unset⟩ (aabb, aabb)
    kd.splitList)

/-- The second part: the children, with their objects and boxes. -/
def makeChildren (node : Nat) (axis : Fin 3) (best : Best R) (parray : List (Slab R)) :
    Prog Fault (KdTree R) (Children R) := do
  modify (setNode node fun n => { n with split := best.bestpos })
  let left ← newKdTreeNodePair
  let (leftCount, rightCount) ←
    distribute axis best.leftAABB best.rightAABB left (left + 1) parray (0, 0)
  modify (setNode left fun n => { n with box := best.leftAABB })
  modify (setNode (left + 1) fun n => { n with box := best.rightAABB })
  modify (setNode node fun n =>
    { n with left := some left, right := some (left + 1), leaf := false })
  pure ⟨left, best.leftAABB, leftCount, best.rightAABB, rightCount⟩

/-- `subdivide` up to the recursion. There is no result when the node stays a leaf, since no cut
costs less than none. -/
def divideNode (node : Nat) (aabb : AABB R) (objCount : Nat) :
    Prog Fault (KdTree R) (Option (Children R)) := do
  let (parray, best) ← findSplit node aabb objCount
  if best.min > objCount then do
    modify (setNode node fun n => { n with leaf := true })
    pure none
  else do
    let c ← makeChildren node (splitAxis aabb.size) best parray
    pure (some c)

def subdivide (node : Nat) (aabb : AABB R) (depth objCount : Nat) :
    Prog Fault (KdTree R) Unit :=
  divideNode node aabb objCount >>= fun
  | none => pure ()
  | some c =>
      if _h : depth < maxTreeDepth then
        (if c.leftCount > 2 then subdivide c.left c.leftAABB (depth + 1) c.leftCount
          else pure ()) >>= fun _ =>
        if c.rightCount > 2 then subdivide (c.left + 1) c.rightAABB (depth + 1) c.rightCount
        else pure ()
      else pure ()
termination_by maxTreeDepth - depth

def build (scene : Scene R) : Prog Fault (KdTree R) Unit := do
  let kd ← get
  check .assertion kd.allocated
  let objectCount := scene.objects.length
  each (add kd.root) scene.objects
  modify (setNode kd.root fun n => { n with box := scene.extendsBox })
  modify fun kd =>
    { kd with splitPool := List.replicate (2 * objectCount + 1) ⟨0, 0, 0⟩, splitList := [] }
  if objectCount > 2 then do
    modify (setNode kd.root fun n => { n with leaf := false })
    subdivide kd.root scene.extendsBox 0 objectCount
  else pure ()

end KdTree

/-- `Scene::buildKdTree`: what it does to the new tree. -/
def Scene.buildKdTree (scene : Scene R) : Prog Fault (KdTree R) Unit := do
  KdTree.init
  KdTree.build scene

end CodingSample.Raytracing
