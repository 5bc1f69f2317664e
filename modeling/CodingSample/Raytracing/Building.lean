import CodingSample.Prog.Raise
import CodingSample.Raytracing.SplitArray

/-!
# The split nodes while the kd-tree is built

The construction with the split nodes in memory. It keeps a record of them: before and after every
call of `insertSplitPos`, and after the loop over the objects of a node.
-/

namespace CodingSample.Raytracing

open Raise

/-- A moment of the construction. -/
inductive Moment (R : Type)
  | called (nodes : SplitArray R)
  | returned (nodes : SplitArray R)
  | collected (nodes : SplitArray R) (objects : List (SceneObject R)) (axis : Fin 3) (aabb : AABB R)

/-- The tree, the split nodes and the moments so far, the last one first. -/
structure Builder (R : Type) where
  tree : KdTree R
  nodes : SplitArray R
  history : List (Moment R)

namespace SplitArray

variable {R : Type}

/-- The nodes of the list from a pointer. -/
def walk (s : SplitArray R) : Nat → Option Nat → Except SplitFault (List Nat)
  | _, none => .ok []
  | 0, some _ => .error .endless
  | n + 1, some list => do
      let rest ← walk s n (s.next list)
      .ok (list :: rest)

/-- A node with its counts. -/
def get (s : SplitArray R) (p : Nat) : SplitNode R :=
  ⟨s.splitPos p, s.leftCount p, s.rightCount p⟩

/-- The nodes that `build` allocates, all of them in the pool. -/
def allocate [Zero R] (objectCount : Nat) : SplitArray R :=
  { size := 2 * objectCount + 1
    splitPos := fun _ => 0
    leftCount := fun _ => 0
    rightCount := fun _ => 0
    next := fun i => if i < 2 * objectCount then some (i + 1) else none
    splitList := none
    splitPool := some 0 }

variable [Field R] [LinearOrder R]

/-- Count for every candidate the objects on its two sides. -/
def countSplits (parray : List (KdTree.Slab R)) (axis : Fin 3) (posStart posEnd : R) :
    AABB R × AABB R → List Nat → SplitArray R → SplitArray R
  | _, [], s => s
  | tmp, p :: rest, s =>
      let tmp := KdTree.cut axis posStart posEnd (s.splitPos p) tmp
      let leftEnd := tmp.1.pos axis + tmp.1.size axis
      let rightStart := tmp.2.pos axis
      countSplits parray axis posStart posEnd tmp rest { s with
        leftCount := Function.update s.leftCount p
          (s.leftCount p + parray.countP (·.meets tmp.1 posStart leftEnd))
        rightCount := Function.update s.rightCount p
          (s.rightCount p + parray.countP (·.meets tmp.2 rightStart posEnd)) }

end SplitArray

namespace Builder

variable {R α : Type}

/-- A step that does not touch the split nodes. -/
def onTree (m : Prog Fault (KdTree R) α) : Raise SplitFault (Builder R) α := fun s =>
  match m s.tree with
  | .error e => (.error (.tree e), s)
  | .ok (a, tree) => (.ok a, { s with tree := tree })

/-- A step on the split nodes. -/
def onNodes (f : SplitArray R → Except SplitFault (SplitArray R)) :
    Raise SplitFault (Builder R) Unit := fun s =>
  match f s.nodes with
  | .error e => (.error e, s)
  | .ok nodes => (.ok (), { s with nodes := nodes })

def record (moment : SplitArray R → Moment R) : Raise SplitFault (Builder R) Unit :=
  modify fun s => { s with history := moment s.nodes :: s.history }

section Search

variable [LinearOrder R]

def insertSplitPos (splitPos : R) : Raise SplitFault (Builder R) Unit := do
  record .called
  onNodes (·.insertSplitPos splitPos)
  record .returned

/-- Only positions within the box are candidates. -/
def insertWithin (posStart posEnd splitPos : R) : Raise SplitFault (Builder R) Unit :=
  if splitPos ≥ posStart ∧ splitPos ≤ posEnd then insertSplitPos splitPos else pure ()

end Search

variable [Field R] [LinearOrder R]

/-- The loop over the object list of a node, with arrays of the given length. -/
def collect (axis : Fin 3) (posStart posEnd : R) :
    Nat → Option Nat → Raise SplitFault (Builder R) (List (KdTree.Slab R))
  | _, none => pure []
  | 0, some _ => raise (.tree .bounds)
  | n + 1, some objNodes => do
      let cell ← gets fun s => s.tree.objMem objNodes
      match cell.object with
      | none => raise (.tree .null)
      | some p =>
          let s := KdTree.slab axis p
          insertWithin posStart posEnd s.eleft
          insertWithin posStart posEnd s.eright
          let rest ← collect axis posStart posEnd n cell.next
          pure (s :: rest)

/-- The loop over the candidates that keeps the cheapest. A box without a surface has no cheap cut:
the source divides by zero, and no cost is then less than the minimum. -/
def bestOf (aabb : AABB R) (axis : Fin 3) (splits : List (SplitNode R)) : KdTree.Best R :=
  let unset : AABB R := ⟨fun _ => 0, fun _ => 0⟩
  if aabb.calculateSA = 0 then ⟨posInf R, 0, unset, unset⟩
  else KdTree.bestSplit (1 / aabb.calculateSA) axis (aabb.pos axis)
    (aabb.pos axis + aabb.size axis) ⟨posInf R, 0, unset, unset⟩ (aabb, aabb) splits

/-- The first part of `subdivide`: the entries of `parray` and the cheapest cut. -/
def findSplit (node : Nat) (aabb : AABB R) (objCount : Nat) :
    Raise SplitFault (Builder R) (List (KdTree.Slab R) × KdTree.Best R) := do
  onNodes SplitArray.recycle
  let axis := KdTree.splitAxis aabb.size
  onTree (Prog.modify (KdTree.setNode node fun n => { n with axis := axis }))
  let objNodes ← gets fun s => (s.tree.kdMem node).objList
  let posStart := aabb.pos axis
  let posEnd := aabb.pos axis + aabb.size axis
  let parray ← collect axis posStart posEnd objCount objNodes
  record (.collected · (parray.map KdTree.Slab.object) axis aabb)
  raiseIf (parray.length != objCount) (.tree .bounds)
  onNodes fun nodes => do
    let splits ← nodes.walk nodes.size nodes.splitList
    .ok (nodes.countSplits parray axis posStart posEnd (aabb, aabb) splits)
  let nodes ← gets Builder.nodes
  match nodes.walk nodes.size nodes.splitList with
  | .error e => raise e
  | .ok splits => pure (parray, bestOf aabb axis (splits.map nodes.get))

/-- `subdivide` up to the recursion. -/
def divideNode (node : Nat) (aabb : AABB R) (objCount : Nat) :
    Raise SplitFault (Builder R) (Option (KdTree.Children R)) := do
  let (parray, best) ← findSplit node aabb objCount
  if best.min > objCount then do
    onTree (Prog.modify (KdTree.setNode node fun n => { n with leaf := true }))
    pure none
  else do
    let c ← onTree (KdTree.makeChildren node (KdTree.splitAxis aabb.size) best parray)
    pure (some c)

def subdivide (node : Nat) (aabb : AABB R) (depth objCount : Nat) :
    Raise SplitFault (Builder R) Unit :=
  divideNode node aabb objCount >>= fun
  | none => pure ()
  | some c =>
      if _h : depth < maxTreeDepth then
        (if c.leftCount > 2 then subdivide c.left c.leftAABB (depth + 1) c.leftCount
          else pure ()) >>= fun _ =>
        if c.rightCount > 2 then subdivide (c.left + 1) c.rightAABB (depth + 1) c.rightCount
        else pure ()
      else pure ()
termination_by maxTreeDepth - depth

def build (scene : Scene R) : Raise SplitFault (Builder R) Unit := do
  let kd ← gets Builder.tree
  onTree (Prog.check .assertion kd.allocated)
  let objectCount := scene.objects.length
  onTree (Prog.each (KdTree.add kd.root) scene.objects)
  onTree (Prog.modify (KdTree.setNode kd.root fun n => { n with box := scene.extendsBox }))
  onNodes fun _ => .ok (SplitArray.allocate objectCount)
  if objectCount > 2 then do
    onTree (Prog.modify (KdTree.setNode kd.root fun n => { n with leaf := false }))
    subdivide kd.root scene.extendsBox 0 objectCount
  else pure ()

end Builder

/-! ### What every moment shows -/

open SplitArray

/-- The two lists hold all nodes, no call finds the pool empty, and the candidates of a node are the
ends of its objects within its range. -/
def Moment.Sound {R : Type} [Add R] [LinearOrder R] (size : Nat) : Moment R → Prop
  | .called nodes => nodes.size = size ∧ ∃ as bs, Held nodes as bs ∧ bs ≠ []
  | .returned nodes => nodes.size = size ∧ ∃ as bs, Held nodes as bs
  | .collected nodes objects axis aabb => nodes.size = size ∧ ∃ as bs, Held nodes as bs ∧
      ∀ v, v ∈ as.map nodes.splitPos ↔ (aabb.pos axis ≤ v ∧ v ≤ aabb.stop axis) ∧
        ∃ o ∈ objects, v = o.boundingBox.pos axis ∨ v = o.boundingBox.stop axis

namespace Builder

variable {R α : Type} [Field R] [LinearOrder R] {size n : Nat} {axis : Fin 3}
  {posStart posEnd v : R} {s : Builder R} {as bs : List Nat} {Q : α → Builder R → Prop}

/-- The record so far. -/
def Recorded (size : Nat) (s : Builder R) : Prop := ∀ m ∈ s.history, m.Sound size

/-- The construction may stop for another reason, but not for the split nodes. -/
def Elsewhere (size : Nat) (e : SplitFault) (s : Builder R) : Prop :=
  s.Recorded size ∧ ∃ fault, e = .tree fault

/-- The split nodes between two steps, with the record so far. -/
structure At (size : Nat) (s : Builder R) (as bs : List Nat) : Prop where
  recorded : s.Recorded size
  size_eq : s.nodes.size = size
  held : Held s.nodes as bs

theorem leaves_onTree {m : Prog Fault (KdTree R) α} (h : s.Recorded size)
    (hQ : ∀ a tree, m s.tree = .ok (a, tree) → Q a { s with tree := tree }) :
    leaves (onTree m) Q (Elsewhere size) s := by
  unfold leaves onTree
  cases hm : m s.tree with
  | error e => exact ⟨h, e, rfl⟩
  | ok r => exact hQ r.1 r.2 hm

theorem At.onTree {tree : KdTree R} (h : At size s as bs) :
    At size { s with tree := tree } as bs :=
  ⟨h.recorded, h.size_eq, h.held⟩

omit [Field R] [LinearOrder R] in
theorem leaves_onNodes {f : SplitArray R → Except SplitFault (SplitArray R)} {nodes : SplitArray R}
    {Q : Unit → Builder R → Prop} {E : SplitFault → Builder R → Prop} (hf : f s.nodes = .ok nodes)
    (hQ : Q () { s with nodes := nodes }) : leaves (onNodes f) Q E s := by
  unfold leaves onNodes
  rw [hf]
  exact hQ

/-- A moment is added to the record. -/
theorem At.record (h : At size s as bs) (moment : SplitArray R → Moment R)
    (hm : (moment s.nodes).Sound size) :
    At size { s with history := moment s.nodes :: s.history } as bs where
  recorded m hmem := by
    rcases List.mem_cons.mp hmem with rfl | hmem
    · exact hm
    · exact h.recorded m hmem
  size_eq := h.size_eq
  held := h.held

/-- What some insertions leave: at most `k` nodes fewer in the pool, and the positions for which `P`
holds among the candidates. -/
def Gained (size k : Nat) (P : R → Prop) (s : Builder R) (as bs : List Nat) (s' : Builder R) : Prop :=
  ∃ as' bs', At size s' as' bs' ∧ s'.tree = s.tree ∧ bs.length ≤ bs'.length + k ∧
    ∀ x, x ∈ as'.map s'.nodes.splitPos ↔ P x ∨ x ∈ as.map s.nodes.splitPos

theorem leaves_insertSplitPos (h : At size s as bs) (hbs : bs ≠ []) (v : R) :
    leaves (insertSplitPos v) (fun _ => Gained size 1 (· = v) s as bs) (Elsewhere size) s := by
  obtain ⟨b, bs, rfl⟩ := List.exists_cons_of_ne_nil hbs
  obtain ⟨nodes, as', bs', hok, hinserted⟩ := h.held.insertSplitPos v
  have hcalled := h.record .called ⟨h.size_eq, as, b :: bs, h.held, hbs⟩
  have hsize : nodes.size = size := hinserted.size.trans h.size_eq
  have hreturned : At size (⟨s.tree, nodes, .called s.nodes :: s.history⟩ : Builder R) as' bs' :=
    ⟨hcalled.recorded, hsize, hinserted.held⟩
  unfold insertSplitPos record
  rw [leaves_modify_bind]
  refine leaves_bind_of (Q := fun _ s' => s' = ⟨s.tree, nodes, .called s.nodes :: s.history⟩)
    (leaves_onNodes hok rfl) ?_
  rintro _ _ rfl
  rw [leaves_modify]
  exact ⟨as', bs', hreturned.record .returned ⟨hsize, as', bs', hinserted.held⟩, rfl, hinserted.pool,
    hinserted.mem⟩

theorem leaves_insertWithin (h : At size s as bs) (hbs : bs ≠ []) :
    leaves (insertWithin posStart posEnd v)
      (fun _ => Gained size 1 (fun x => (posStart ≤ x ∧ x ≤ posEnd) ∧ x = v) s as bs)
      (Elsewhere size) s := by
  unfold insertWithin
  split_ifs with hv
  · refine leaves_mono (leaves_insertSplitPos h hbs v) ?_ fun _ _ he => he
    rintro _ s' ⟨as', bs', hat, htree, hpool, hmem⟩
    refine ⟨as', bs', hat, htree, hpool, fun x => (hmem x).trans (or_congr_left ?_)⟩
    constructor
    · rintro rfl
      exact ⟨hv, rfl⟩
    · exact And.right
  · refine leaves_pure.mpr ⟨as, bs, h, rfl, Nat.le_succ _, fun x => ?_⟩
    refine (or_iff_right ?_).symm
    rintro ⟨hx, rfl⟩
    exact hv hx

/-- The positions that an object brings. -/
def Ends (posStart posEnd : R) (slabs : List (KdTree.Slab R)) (x : R) : Prop :=
  (posStart ≤ x ∧ x ≤ posEnd) ∧ ∃ slab ∈ slabs, x = slab.eleft ∨ x = slab.eright

omit [Field R] in
theorem ends_cons {slab : KdTree.Slab R} {slabs : List (KdTree.Slab R)} {x : R} :
    Ends posStart posEnd (slab :: slabs) x ↔ Ends posStart posEnd slabs x ∨
      ((posStart ≤ x ∧ x ≤ posEnd) ∧ x = slab.eright) ∨
      (posStart ≤ x ∧ x ≤ posEnd) ∧ x = slab.eleft := by
  unfold Ends
  rw [List.exists_mem_cons_iff, ← and_or_left, ← and_or_left, or_comm, or_comm (a := x = slab.eleft)]

/-- The loop over the objects of a node inserts their ends. -/
theorem leaves_collect {p : Option Nat} (h : At size s as bs) (hbs : 2 * n < bs.length) :
    leaves (collect axis posStart posEnd n p)
      (fun slabs s' => slabs.length ≤ n ∧ (∀ slab ∈ slabs, slab = KdTree.slab axis slab.object) ∧
        Gained size (2 * n) (Ends posStart posEnd slabs) s as bs s') (Elsewhere size) s := by
  induction n generalizing p s as bs with
  | zero =>
      cases p with
      | none =>
          refine ⟨le_rfl, fun slab hslab => absurd hslab List.not_mem_nil, as, bs, h, rfl, le_rfl,
            fun x => (or_iff_right ?_).symm⟩
          rintro ⟨-, slab, hslab, -⟩
          exact absurd hslab List.not_mem_nil
      | some _ => exact ⟨h.recorded, .bounds, rfl⟩
  | succ n ih =>
      cases p with
      | none =>
          refine ⟨Nat.zero_le _, fun slab hslab => absurd hslab List.not_mem_nil, as, bs, h, rfl,
            Nat.le_add_right _ _, fun x => (or_iff_right ?_).symm⟩
          rintro ⟨-, slab, hslab, -⟩
          exact absurd hslab List.not_mem_nil
      | some objNodes =>
          rw [collect, leaves_gets_bind]
          cases hobject : (s.tree.objMem objNodes).object with
          | none => exact ⟨h.recorded, .null, rfl⟩
          | some object =>
              dsimp only
              have hne : bs ≠ [] := List.ne_nil_of_length_pos (by omega)
              refine leaves_bind_of (leaves_insertWithin h hne) ?_
              rintro _ s₁ ⟨as₁, bs₁, h₁, htree₁, hpool₁, hmem₁⟩
              have hne₁ : bs₁ ≠ [] := List.ne_nil_of_length_pos (by omega)
              refine leaves_bind_of (leaves_insertWithin h₁ hne₁) ?_
              rintro _ s₂ ⟨as₂, bs₂, h₂, htree₂, hpool₂, hmem₂⟩
              refine leaves_bind_of (ih h₂ (by omega)) ?_
              rintro slabs s₃ ⟨hlength, hslabs, as₃, bs₃, h₃, htree₃, hpool₃, hmem₃⟩
              refine ⟨Nat.succ_le_succ hlength, fun slab hslab => ?_, as₃, bs₃, h₃,
                htree₃.trans (htree₂.trans htree₁), by omega, fun x => ?_⟩
              · rcases List.mem_cons.mp hslab with rfl | hslab
                · rfl
                · exact hslabs slab hslab
              · rw [hmem₃, hmem₂, hmem₁, ends_cons, or_assoc, or_assoc]

/-! ### One node -/

omit [Field R] [LinearOrder R] in
theorem walk_spec {nodes : SplitArray R} (h : Linked nodes.next as) (hn : as.length ≤ n) :
    nodes.walk n as.head? = .ok as := by
  induction n generalizing as with
  | zero =>
      obtain rfl : as = [] := List.length_eq_zero_iff.mp (Nat.le_zero.mp hn)
      rfl
  | succ n ih =>
      cases as with
      | nil => rfl
      | cons a as =>
          obtain ⟨hnext, hrest⟩ := h
          have htail := ih hrest (Nat.le_of_succ_le_succ hn)
          rw [List.head?_cons, SplitArray.walk, hnext, htail]
          rfl

omit [Field R] in
theorem Held.walk {nodes : SplitArray R} (h : Held nodes as bs) :
    nodes.walk nodes.size nodes.splitList = .ok as := by
  rw [h.list_head]
  refine walk_spec h.list ?_
  have hall := h.all.length_eq
  rw [List.length_range, List.length_append] at hall
  omega

/-- Counting changes the counts only. -/
theorem countSplits_same (axis : Fin 3) (posStart posEnd : R) (parray : List (KdTree.Slab R))
    (tmp : AABB R × AABB R) (ptrs : List Nat) (nodes : SplitArray R) : ∃ leftCount rightCount,
      nodes.countSplits parray axis posStart posEnd tmp ptrs =
        { nodes with leftCount := leftCount, rightCount := rightCount } := by
  induction ptrs generalizing nodes tmp with
  | nil => exact ⟨_, _, rfl⟩
  | cons p ptrs ih =>
      rw [SplitArray.countSplits]
      obtain ⟨leftCount, rightCount, heq⟩ :=
        ih (KdTree.cut axis posStart posEnd (nodes.splitPos p) tmp) _
      exact ⟨leftCount, rightCount, heq⟩

theorem Held.countSplits {nodes : SplitArray R} (h : Held nodes as bs) (axis : Fin 3)
    (posStart posEnd : R) (parray : List (KdTree.Slab R)) (tmp : AABB R × AABB R)
    (ptrs : List Nat) :
    Held (nodes.countSplits parray axis posStart posEnd tmp ptrs) as bs ∧
      (nodes.countSplits parray axis posStart posEnd tmp ptrs).size = nodes.size := by
  obtain ⟨leftCount, rightCount, heq⟩ :=
    countSplits_same axis posStart posEnd parray tmp ptrs nodes
  rw [heq]
  exact ⟨⟨h.list_head, h.list, h.pool_head, h.pool, h.all, h.sorted⟩, rfl⟩

/-- The state between two nodes. -/
def Between (size : Nat) (s : Builder R) : Prop := ∃ as bs, At size s as bs

/-- The positions of the candidates, in terms of the boxes of the objects. -/
theorem ends_iff {aabb : AABB R} {slabs : List (KdTree.Slab R)}
    (hslabs : ∀ slab ∈ slabs, slab = KdTree.slab axis slab.object) (x : R) :
    Ends (aabb.pos axis) (aabb.stop axis) slabs x ↔
      (aabb.pos axis ≤ x ∧ x ≤ aabb.stop axis) ∧ ∃ o ∈ slabs.map KdTree.Slab.object,
        x = o.boundingBox.pos axis ∨ x = o.boundingBox.stop axis := by
  refine and_congr_right fun _ => ?_
  constructor
  · rintro ⟨slab, hslab, hx⟩
    refine ⟨slab.object, List.mem_map_of_mem hslab, ?_⟩
    rw [hslabs slab hslab] at hx
    exact hx
  · rintro ⟨o, ho, hx⟩
    obtain ⟨slab, hslab, rfl⟩ := List.mem_map.mp ho
    refine ⟨slab, hslab, ?_⟩
    rw [hslabs slab hslab]
    exact hx

theorem leaves_findSplit {node objCount : Nat} {aabb : AABB R} (h : Between size s)
    (hcount : 2 * objCount < size) :
    leaves (findSplit node aabb objCount)
      (fun r s' => r.1.length = objCount ∧ Between size s') (Elsewhere size) s := by
  obtain ⟨as, bs, hat⟩ := h
  obtain ⟨nodes, hrecycle, hheld, hsize⟩ := hat.held.recycle
  unfold findSplit
  refine leaves_bind_of (Q := fun _ s' => s' = { s with nodes := nodes })
    (leaves_onNodes hrecycle rfl) ?_
  rintro _ _ rfl
  have hat₁ : At size { s with nodes := nodes } [] (as ++ bs) :=
    ⟨hat.recorded, hsize.trans hat.size_eq, hheld⟩
  have hlength : (as ++ bs).length = size := by
    rw [hat.held.all.length_eq, List.length_range, hat.size_eq]
  refine leaves_bind_of (leaves_onTree hat₁.recorded (Q := fun _ s' => At size s' [] (as ++ bs))
    fun _ tree _ => hat₁.onTree) ?_
  intro _ s₂ hat₂
  rw [leaves_gets_bind]
  refine leaves_bind_of (leaves_collect hat₂ (hlength ▸ hcount)) ?_
  rintro slabs s₃ ⟨hle, hslabs, as₃, bs₃, hat₃, -, -, hmem⟩
  have hsound : (Moment.collected s₃.nodes (slabs.map KdTree.Slab.object)
      (KdTree.splitAxis aabb.size) aabb).Sound size := by
    refine ⟨hat₃.size_eq, as₃, bs₃, hat₃.held, fun x => ?_⟩
    rw [hmem]
    refine (or_iff_left ?_).trans (ends_iff hslabs x)
    exact List.not_mem_nil
  have hat₄ := hat₃.record (fun nodes => .collected nodes
    (slabs.map KdTree.Slab.object) (KdTree.splitAxis aabb.size) aabb) hsound
  unfold record
  rw [leaves_modify_bind]
  generalize ({ s₃ with history := _ } : Builder R) = s₄ at hat₄ ⊢
  by_cases hlen : slabs.length = objCount
  · have htest : (slabs.length != objCount) = false := bne_eq_false_iff_eq.mpr hlen
    rw [htest, raiseIf_false]
    refine leaves_bind_of (Q := fun _ s' => At size s' as₃ bs₃) hat₄ fun _ s₅ hat₅ => ?_
    obtain ⟨hcounted, hsize₅⟩ := Held.countSplits hat₅.held (KdTree.splitAxis aabb.size)
      (aabb.pos (KdTree.splitAxis aabb.size))
      (aabb.pos (KdTree.splitAxis aabb.size) + aabb.size (KdTree.splitAxis aabb.size))
      slabs (aabb, aabb) as₃
    generalize hnodes : s₅.nodes.countSplits slabs (KdTree.splitAxis aabb.size)
      (aabb.pos (KdTree.splitAxis aabb.size))
      (aabb.pos (KdTree.splitAxis aabb.size) + aabb.size (KdTree.splitAxis aabb.size))
      (aabb, aabb) as₃ = counted at hcounted hsize₅
    have hat₆ : At size { s₅ with nodes := counted } as₃ bs₃ :=
      ⟨hat₅.recorded, hsize₅.trans hat₅.size_eq, hcounted⟩
    refine leaves_bind_of (Q := fun _ s' => At size s' as₃ bs₃) (leaves_onNodes ?_ hat₆) ?_
    · rw [Held.walk hat₅.held, ← hnodes]
      rfl
    · intro _ s₇ hat₇
      rw [leaves_gets_bind, Held.walk hat₇.held]
      exact ⟨hlen, as₃, bs₃, hat₇⟩
  · have htest : (slabs.length != objCount) = true := bne_iff_ne.mpr hlen
    rw [htest, raiseIf_true]
    refine leaves_bind_of (Q := fun _ _ => False) ?_ fun _ _ hfalse => hfalse.elim
    exact ⟨hat₄.recorded, .bounds, rfl⟩

/-! ### The recursion -/

/-- The counts of the two sides. -/
theorem distribute_counts {boxL boxR : AABB R} {left right : Nat} {slabs : List (KdTree.Slab R)}
    {counts : Nat × Nat} {kd : KdTree R} :
    Prog.wlp (KdTree.distribute axis boxL boxR left right slabs counts)
      (fun r _ => r.1 ≤ counts.1 + slabs.length ∧ r.2 ≤ counts.2 + slabs.length) kd := by
  induction slabs generalizing counts kd with
  | nil => exact Prog.wlp_pure.mpr ⟨le_rfl, le_rfl⟩
  | cons slab slabs ih =>
      obtain ⟨leftCount, rightCount⟩ := counts
      rw [KdTree.distribute]
      refine Prog.wlp_bind_of (Q := fun _ _ => True) (fun _ _ _ => trivial) fun _ kd₁ _ => ?_
      refine Prog.wlp_bind_of (Q := fun _ _ => True) (fun _ _ _ => trivial) fun _ kd₂ _ => ?_
      refine Prog.wlp_mono ih fun r _ hr => ?_
      rw [List.length_cons]
      dsimp only at hr
      split_ifs at hr <;> omega

theorem makeChildren_counts {node : Nat} {best : KdTree.Best R} {slabs : List (KdTree.Slab R)}
    {kd : KdTree R} :
    Prog.wlp (KdTree.makeChildren node axis best slabs)
      (fun c _ => c.leftCount ≤ slabs.length ∧ c.rightCount ≤ slabs.length) kd := by
  unfold KdTree.makeChildren
  refine Prog.wlp_bind_of (Q := fun _ _ => True) (fun _ _ _ => trivial) fun _ kd₁ _ => ?_
  refine Prog.wlp_bind_of (Q := fun _ _ => True) (fun _ _ _ => trivial) fun left kd₂ _ => ?_
  refine Prog.wlp_bind_of distribute_counts ?_
  rintro ⟨leftCount, rightCount⟩ kd₃ ⟨hleft, hright⟩
  rw [Nat.zero_add] at hleft hright
  dsimp only
  rw [Prog.wlp_bind, Prog.wlp_modify, Prog.wlp_bind, Prog.wlp_modify, Prog.wlp_bind,
    Prog.wlp_modify, Prog.wlp_pure]
  exact ⟨hleft, hright⟩

theorem Between.onTree {tree : KdTree R} (h : Between size s) :
    Between size { s with tree := tree } := by
  obtain ⟨as, bs, hat⟩ := h
  exact ⟨as, bs, hat.onTree⟩

theorem Between.recorded (h : Between size s) : s.Recorded size := by
  obtain ⟨as, bs, hat⟩ := h
  exact hat.recorded

theorem leaves_divideNode {node objCount : Nat} {aabb : AABB R} (h : Between size s)
    (hcount : 2 * objCount < size) :
    leaves (divideNode node aabb objCount)
      (fun r s' => Between size s' ∧ ∀ c, r = some c → c.leftCount ≤ objCount ∧
        c.rightCount ≤ objCount) (Elsewhere size) s := by
  unfold divideNode
  refine leaves_bind_of (leaves_findSplit h hcount) ?_
  rintro ⟨parray, best⟩ s₁ ⟨hlength, h₁⟩
  dsimp only
  split_ifs
  · refine leaves_bind_of (leaves_onTree h₁.recorded (Q := fun _ s' => Between size s')
      fun _ tree _ => h₁.onTree) fun _ s₂ h₂ => ?_
    exact ⟨h₂, fun c hc => by cases hc⟩
  · refine leaves_bind_of (leaves_onTree h₁.recorded (Q := fun c s' => Between size s' ∧
      c.leftCount ≤ objCount ∧ c.rightCount ≤ objCount) fun c tree hm => ?_) ?_
    · exact ⟨h₁.onTree, hlength ▸ makeChildren_counts c tree hm⟩
    · rintro c s₂ ⟨h₂, hcounts⟩
      exact ⟨h₂, fun c' hc => by cases hc; exact hcounts⟩

theorem leaves_subdivide {node objCount depth : Nat} {aabb : AABB R} (h : Between size s)
    (hcount : 2 * objCount < size) :
    leaves (subdivide node aabb depth objCount) (fun _ s' => Between size s') (Elsewhere size)
      s := by
  induction hdepth : maxTreeDepth - depth generalizing node objCount depth aabb s with
  | zero =>
      rw [subdivide]
      refine leaves_bind_of (leaves_divideNode h hcount) ?_
      rintro (_ | c) s₁ ⟨h₁, -⟩
      · exact h₁
      · have hdeep : ¬ depth < maxTreeDepth := by omega
        dsimp only
        rw [dif_neg hdeep]
        exact h₁
  | succ k ih =>
      rw [subdivide]
      refine leaves_bind_of (leaves_divideNode h hcount) ?_
      rintro (_ | c) s₁ ⟨h₁, hcounts⟩
      · exact h₁
      · obtain ⟨hleft, hright⟩ := hcounts c rfl
        have hdeep : depth < maxTreeDepth := by omega
        have hrest : maxTreeDepth - (depth + 1) = k := by omega
        dsimp only
        rw [dif_pos hdeep]
        refine leaves_bind_of (Q := fun _ s' => Between size s') ?_ ?_
        · split_ifs
          · exact ih h₁ (by omega) hrest
          · exact h₁
        · intro _ s₂ h₂
          split_ifs
          · exact ih h₂ (by omega) hrest
          · exact h₂

/-! ### The whole construction -/

theorem linked_range {next : Nat → Option Nat} {first k : Nat}
    (hnext : ∀ i, first ≤ i → i + 1 < first + k → next i = some (i + 1))
    (hlast : 0 < k → next (first + k - 1) = none) : Linked next (List.range' first k) := by
  induction k generalizing first with
  | zero => exact trivial
  | succ k ih =>
      rw [List.range'_succ]
      refine ⟨?_, ih (fun i hi hlt => hnext i (Nat.le_of_succ_le hi) (by omega)) fun hk => ?_⟩
      · cases k with
        | zero => exact hlast Nat.one_pos
        | succ k => exact hnext first le_rfl (by omega)
      · have hpos := hlast (Nat.succ_pos k)
        rwa [show first + (k + 1) - 1 = first + 1 + k - 1 by omega] at hpos

theorem held_allocate (objectCount : Nat) :
    Held (SplitArray.allocate objectCount : SplitArray R) []
      (List.range (2 * objectCount + 1)) where
  list_head := rfl
  list := trivial
  pool_head := by
    rw [List.range_succ_eq_map]
    rfl
  pool := by
    rw [List.range_eq_range']
    refine linked_range (fun i _ hlt => if_pos (by omega)) fun _ => if_neg (by omega)
  all := List.Perm.refl _
  sorted := List.Pairwise.nil

theorem leaves_build (scene : Scene R) (h : s.history = []) :
    leaves (build scene) (fun _ s' => s'.Recorded (2 * scene.objects.length + 1))
      (Elsewhere (2 * scene.objects.length + 1)) s := by
  have hstart (tree : KdTree R) (nodes : SplitArray R) :
      (⟨tree, nodes, []⟩ : Builder R).Recorded (2 * scene.objects.length + 1) :=
    fun m hm => absurd hm List.not_mem_nil
  obtain ⟨tree, nodes, history⟩ := s
  obtain rfl : history = [] := h
  have hkeep {α : Type} {m : Prog Fault (KdTree R) α} {s : Builder R} (hs : s.history = []) :
      leaves (onTree m) (fun _ s' => s'.history = [])
        (Elsewhere (2 * scene.objects.length + 1)) s := by
    refine leaves_onTree ?_ fun _ _ _ => hs
    rw [Recorded, hs]
    exact fun m hm => absurd hm List.not_mem_nil
  unfold build
  rw [leaves_gets_bind]
  refine leaves_bind_of (hkeep rfl) fun _ s₁ h₁ => ?_
  refine leaves_bind_of (hkeep h₁) fun _ s₂ h₂ => ?_
  refine leaves_bind_of (hkeep h₂) fun _ s₃ h₃ => ?_
  refine leaves_bind_of (Q := fun _ s' => s'.history = [] ∧
    s'.nodes = SplitArray.allocate scene.objects.length) (leaves_onNodes rfl ⟨h₃, rfl⟩) ?_
  rintro _ s₄ ⟨h₄, hnodes⟩
  have hrecorded : s₄.Recorded (2 * scene.objects.length + 1) := by
    rw [Recorded, h₄]
    exact fun m hm => absurd hm List.not_mem_nil
  have hbetween : Between (2 * scene.objects.length + 1) s₄ := by
    refine ⟨[], List.range (2 * scene.objects.length + 1), hrecorded, ?_, ?_⟩
    · rw [hnodes]
      rfl
    · rw [hnodes]
      exact held_allocate _
  split_ifs
  · refine leaves_bind_of (leaves_onTree hrecorded (Q := fun _ s' => Between _ s')
      fun _ tree _ => hbetween.onTree) fun _ s₅ h₅ => ?_
    exact leaves_mono (leaves_subdivide h₅ (Nat.lt_succ_self _)) (fun _ _ h => h.recorded)
      fun _ _ he => he
  · exact hrecorded

end Builder

end CodingSample.Raytracing
