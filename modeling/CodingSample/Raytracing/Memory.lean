import CodingSample.Raytracing.Splits

/-!
# The kd-tree in memory

Which tree the two arrays hold, and what the construction leaves alone: it writes fresh nodes and
the nodes it is called with, so a part of the tree that is finished stays as it is.
-/

namespace CodingSample.Raytracing

open Prog

/-- A kd-tree with the addresses of its nodes and of the cells of its object lists. -/
inductive Tree (R : Type)
  | leaf (addr : Nat) (box : AABB R) (cells : List (Nat × SceneObject R))
  | inner (addr : Nat) (box : AABB R) (axis : Fin 3) (split : R) (left right : Tree R)

/-- The list that starts at a pointer has these cells. -/
def Listed {R : Type} (mem : Nat → ObjectNode R) : Option Nat → List (Nat × SceneObject R) → Prop
  | p, [] => p = none
  | p, (i, o) :: rest => p = some i ∧ (mem i).object = some o ∧ Listed mem (mem i).next rest

namespace Tree

variable {R : Type}

def addr : Tree R → Nat
  | leaf a _ _ => a
  | inner a _ _ _ _ _ => a

def box : Tree R → AABB R
  | leaf _ b _ => b
  | inner _ b _ _ _ _ => b

/-- The addresses of all nodes. -/
def addrs : Tree R → List Nat
  | leaf a _ _ => [a]
  | inner a _ _ _ l r => a :: (l.addrs ++ r.addrs)

/-- The addresses of all cells of object lists. -/
def cellAddrs : Tree R → List Nat
  | leaf _ _ cells => cells.map Prod.fst
  | inner _ _ _ _ l r => l.cellAddrs ++ r.cellAddrs

/-- The greatest depth of a node, the root being at depth 0. -/
def height : Tree R → Nat
  | leaf _ _ _ => 0
  | inner _ _ _ _ l r => max l.height r.height + 1

/-- The arrays hold the tree. -/
def InMemory (kd : KdTree R) : Tree R → Prop
  | leaf a b cells => (kd.kdMem a).leaf = true ∧ (kd.kdMem a).box = b ∧
      Listed kd.objMem (kd.kdMem a).objList cells
  | inner a b axis split l r => (kd.kdMem a).leaf = false ∧ (kd.kdMem a).box = b ∧
      (kd.kdMem a).axis = axis ∧ (kd.kdMem a).split = split ∧ (kd.kdMem a).left = some l.addr ∧
      (kd.kdMem a).right = some r.addr ∧ l.InMemory kd ∧ r.InMemory kd

/-- Every inner node, with the boxes of its children, satisfies `P`. -/
def EachInner (P : AABB R → Fin 3 → R → AABB R → AABB R → Prop) : Tree R → Prop
  | leaf _ _ _ => True
  | inner _ b axis split l r => P b axis split l.box r.box ∧ l.EachInner P ∧ r.EachInner P

/-- Every leaf lists the objects whose boxes intersect its box, each as often as it is there. -/
def Complete [Field R] [LinearOrder R] (objects : List (SceneObject R)) : Tree R → Prop
  | leaf _ b cells =>
      (cells.map Prod.snd).Perm (objects.filter fun o => o.boundingBox.intersectAABB b)
  | inner _ _ _ _ l r => l.Complete objects ∧ r.Complete objects

theorem EachInner.mono {P Q : AABB R → Fin 3 → R → AABB R → AABB R → Prop} {t : Tree R}
    (h : t.EachInner P) (hPQ : ∀ b axis split l r, P b axis split l r → Q b axis split l r) :
    t.EachInner Q := by
  induction t with
  | leaf _ _ _ => exact trivial
  | inner _ b axis split l r ihl ihr => exact ⟨hPQ _ _ _ _ _ h.1, ihl h.2.1, ihr h.2.2⟩

end Tree

theorem Listed.congr {R : Type} {mem mem' : Nat → ObjectNode R} {p : Option Nat}
    {cells : List (Nat × SceneObject R)} (h : Listed mem p cells)
    (hmem : ∀ c ∈ cells, mem' c.1 = mem c.1) : Listed mem' p cells := by
  induction cells generalizing p with
  | nil => exact h
  | cons c cells ih =>
      obtain ⟨hp, hobject, hrest⟩ := h
      have hc := hmem c List.mem_cons_self
      refine ⟨hp, ?_, ?_⟩
      · rw [hc]
        exact hobject
      · rw [hc]
        exact ih hrest fun d hd => hmem d (List.mem_cons_of_mem c hd)

namespace KdTree

variable {R : Type}

/-- The first object node that is not in use. -/
def objTop (kd : KdTree R) : Nat := kd.objPtr.getD 0

/-- The pools: what is not in use is linked up to the end of the array, and none of the `n` split
nodes is lost. -/
structure Pools (n : Nat) (kd : KdTree R) : Prop where
  objPtr : kd.objPtr = some kd.objTop
  objTop_le : kd.objTop ≤ kdtreeArraySize
  next : ∀ i, kd.objTop ≤ i → i < kdtreeArraySize → (kd.objMem i).next = some (i + 1)
  kdPtr_le : kd.kdPtr ≤ kdtreeArraySize
  splits : kd.splitList.length + kd.splitPool.length = n

/-- What has been in use before is as before, but for the nodes in `ps`. -/
structure Grown (ps : Set Nat) (kd kd' : KdTree R) : Prop where
  root : kd'.root = kd.root
  kdPtr_le : kd.kdPtr ≤ kd'.kdPtr
  objTop_le : kd.objTop ≤ kd'.objTop
  kdMem : ∀ q, q < kd.kdPtr → q ∉ ps → kd'.kdMem q = kd.kdMem q
  objMem : ∀ i, i < kd.objTop → kd'.objMem i = kd.objMem i

/-- The object list of a node. -/
def Has (kd : KdTree R) (p : Nat) (objs : List (SceneObject R)) : Prop :=
  ∃ cells, Listed kd.objMem (kd.kdMem p).objList cells ∧ (∀ c ∈ cells, c.1 < kd.objTop) ∧
    cells.map Prod.snd = objs

variable {kd kd' kd'' : KdTree R} {n p q : Nat} {ps : Set Nat} {o : SceneObject R}
  {objs objsL : List (SceneObject R)}

namespace Grown

theorem refl (ps : Set Nat) (kd : KdTree R) : Grown ps kd kd :=
  ⟨rfl, le_rfl, le_rfl, fun _ _ _ => rfl, fun _ _ => rfl⟩

/-- Two steps one after the other; what the second may change beyond the first is fresh. -/
theorem trans {ps' : Set Nat} (h : Grown ps kd kd') (h' : Grown ps' kd' kd'')
    (hps : ∀ q ∈ ps', q < kd.kdPtr → q ∈ ps) : Grown ps kd kd'' where
  root := h'.root.trans h.root
  kdPtr_le := h.kdPtr_le.trans h'.kdPtr_le
  objTop_le := h.objTop_le.trans h'.objTop_le
  kdMem q hq hnot := by
    rw [h'.kdMem q (hq.trans_le h.kdPtr_le) fun hmem => hnot (hps q hmem hq)]
    exact h.kdMem q hq hnot
  objMem i hi := by
    rw [h'.objMem i (hi.trans_le h.objTop_le)]
    exact h.objMem i hi

end Grown

theorem Has.of_objList (h : kd.Has p objs) (hobj : kd'.objMem = kd.objMem)
    (hlist : (kd'.kdMem q).objList = (kd.kdMem p).objList) (htop : kd'.objTop = kd.objTop) :
    kd'.Has q objs := by
  obtain ⟨cells, hlisted, hcells, hobjs⟩ := h
  refine ⟨cells, ?_, ?_, hobjs⟩
  · rw [hobj, hlist]
    exact hlisted
  · rw [htop]
    exact hcells

theorem Has.grown (h : kd.Has p objs) (hgrown : Grown ps kd kd') (hp : p < kd.kdPtr)
    (hps : p ∉ ps) : kd'.Has p objs := by
  obtain ⟨cells, hlisted, hcells, hobjs⟩ := h
  refine ⟨cells, ?_, fun c hc => (hcells c hc).trans_le hgrown.objTop_le, hobjs⟩
  rw [hgrown.kdMem p hp hps]
  exact hlisted.congr fun c hc => hgrown.objMem c.1 (hcells c hc)

/-- A finished part of the tree stays in memory. -/
theorem Grown.inMemory {t : Tree R} (h : Grown ps kd kd') (ht : t.InMemory kd)
    (haddrs : ∀ a ∈ t.addrs, a < kd.kdPtr ∧ a ∉ ps) (hcells : ∀ i ∈ t.cellAddrs, i < kd.objTop) :
    t.InMemory kd' := by
  induction t with
  | leaf a b cells =>
      obtain ⟨ha, hnot⟩ := haddrs a List.mem_cons_self
      obtain ⟨hleaf, hbox, hlisted⟩ := ht
      rw [Tree.InMemory, h.kdMem a ha hnot]
      refine ⟨hleaf, hbox, hlisted.congr fun c hc => h.objMem c.1 ?_⟩
      exact hcells c.1 (List.mem_map_of_mem hc)
  | inner a b axis split l r ihl ihr =>
      obtain ⟨ha, hnot⟩ := haddrs a List.mem_cons_self
      obtain ⟨hleaf, hbox, haxis, hsplit, hleft, hright, hl, hr⟩ := ht
      rw [Tree.InMemory, h.kdMem a ha hnot]
      refine ⟨hleaf, hbox, haxis, hsplit, hleft, hright, ihl hl ?_ ?_, ihr hr ?_ ?_⟩
      · exact fun b hb => haddrs b (List.mem_cons_of_mem a (List.mem_append_left _ hb))
      · exact fun i hi => hcells i (List.mem_append_left _ hi)
      · exact fun b hb => haddrs b (List.mem_cons_of_mem a (List.mem_append_right _ hb))
      · exact fun i hi => hcells i (List.mem_append_right _ hi)

/-! ### Writing nodes -/

@[simp] theorem setNode_kdMem_self {f : KdTreeNode R → KdTreeNode R} :
    (setNode p f kd).kdMem p = f (kd.kdMem p) := Function.update_self ..

theorem setNode_kdMem_of_ne {f : KdTreeNode R → KdTreeNode R} (h : q ≠ p) :
    (setNode p f kd).kdMem q = kd.kdMem q := Function.update_of_ne h ..

@[simp] theorem setNode_kdPtr {f : KdTreeNode R → KdTreeNode R} :
    (setNode p f kd).kdPtr = kd.kdPtr := rfl

theorem Pools.setNode {f : KdTreeNode R → KdTreeNode R} (h : Pools n kd) :
    Pools n (kd.setNode p f) := ⟨h.objPtr, h.objTop_le, h.next, h.kdPtr_le, h.splits⟩

theorem Grown.setNode {f : KdTreeNode R → KdTreeNode R} (hp : p ∈ ps) :
    Grown ps kd (kd.setNode p f) where
  root := rfl
  kdPtr_le := le_rfl
  objTop_le := le_rfl
  kdMem q _ hq := by
    refine setNode_kdMem_of_ne ?_
    rintro rfl
    exact hq hp
  objMem _ _ := rfl

theorem Pools.recycle (h : Pools n kd) : Pools n kd.recycle where
  objPtr := h.objPtr
  objTop_le := h.objTop_le
  next := h.next
  kdPtr_le := h.kdPtr_le
  splits := by
    have hsplits := h.splits
    simp only [KdTree.recycle, List.length_nil, List.length_append]
    omega

theorem Grown.recycle (ps : Set Nat) : Grown ps kd kd.recycle :=
  ⟨rfl, le_rfl, le_rfl, fun _ _ _ => rfl, fun _ _ => rfl⟩

/-- A node can be changed at will, as long as its list stays. -/
theorem Has.setNode {f : KdTreeNode R → KdTreeNode R} (h : kd.Has q objs)
    (hf : ∀ x, (f x).objList = x.objList) : (kd.setNode p f).Has q objs := by
  refine h.of_objList rfl ?_ rfl
  by_cases hq : q = p
  · rw [hq, setNode_kdMem_self, hf]
  · rw [setNode_kdMem_of_ne hq]

/-- The state in which a node has got its children. -/
def linked (node left : Nat) (boxL boxR : AABB R) (kd : KdTree R) : KdTree R :=
  setNode node (fun x => { x with left := some left, right := some (left + 1), leaf := false })
    (setNode (left + 1) (fun x => { x with box := boxR })
      (setNode left (fun x => { x with box := boxL }) kd))

section Linked

variable {node left : Nat} {boxL boxR : AABB R}

theorem linked_kdMem_node (hL : node ≠ left) (hR : node ≠ left + 1) :
    (linked node left boxL boxR kd).kdMem node =
      { kd.kdMem node with left := some left, right := some (left + 1), leaf := false } := by
  rw [linked, setNode_kdMem_self, setNode_kdMem_of_ne hR, setNode_kdMem_of_ne hL]

theorem linked_kdMem_left (hL : node ≠ left) :
    (linked node left boxL boxR kd).kdMem left = { kd.kdMem left with box := boxL } := by
  rw [linked, setNode_kdMem_of_ne hL.symm, setNode_kdMem_of_ne (Nat.lt_succ_self left).ne,
    setNode_kdMem_self]

theorem linked_kdMem_right (hR : node ≠ left + 1) :
    (linked node left boxL boxR kd).kdMem (left + 1) =
      { kd.kdMem (left + 1) with box := boxR } := by
  rw [linked, setNode_kdMem_of_ne hR.symm, setNode_kdMem_self,
    setNode_kdMem_of_ne (Nat.lt_succ_self left).ne']

theorem Has.linked (h : kd.Has q objs) : (linked node left boxL boxR kd).Has q objs := by
  refine Has.setNode (Has.setNode (Has.setNode h ?_) ?_) ?_
  · exact fun _ => rfl
  · exact fun _ => rfl
  · exact fun _ => rfl

theorem Pools.linked (h : Pools n kd) : Pools n (linked node left boxL boxR kd) :=
  h.setNode.setNode.setNode

theorem Grown.linked : Grown {node, left, left + 1} kd (linked node left boxL boxR kd) := by
  refine ((Grown.setNode ?_).trans (Grown.setNode ?_) fun _ hq _ => hq).trans (Grown.setNode ?_)
    fun _ hq _ => hq
  · exact .inr (.inl rfl)
  · exact .inr (.inr rfl)
  · exact .inl rfl

end Linked

/-! ### Fresh nodes -/

theorem ewp_newKdTreeNodePair [Field R] (h : Pools n kd) :
    ewp newKdTreeNodePair
      (fun p kd' => p = kd.kdPtr ∧ Pools n kd' ∧ Grown ∅ kd kd' ∧ kd'.kdPtr = kd.kdPtr + 2 ∧
        kd'.kdMem kd.kdPtr = .new ∧ kd'.kdMem (kd.kdPtr + 1) = .new)
      (fun e => e = .kdMem) kd := by
  unfold newKdTreeNodePair
  rw [ewp_bind, ewp_get, ewp_bind, ewp_check]
  refine ⟨fun hlt => ?_, fun _ => rfl⟩
  have hne : kd.kdPtr ≠ kd.kdPtr + 1 := (Nat.lt_succ_self _).ne
  rw [ewp_bind, ewp_modify, ewp_bind, ewp_modify, ewp_bind, ewp_modify, ewp_pure]
  refine ⟨rfl, ?_, ?_, rfl, ?_, ?_⟩
  · exact ⟨h.objPtr, h.objTop_le, h.next, of_decide_eq_true hlt, h.splits⟩
  · refine ⟨rfl, Nat.le_add_right _ 2, le_rfl, fun q hq _ => ?_, fun _ _ => rfl⟩
    have hneq : q ≠ kd.kdPtr + 1 := (hq.trans (Nat.lt_succ_self _)).ne
    exact (Function.update_of_ne hneq ..).trans (Function.update_of_ne hq.ne ..)
  · exact (Function.update_of_ne hne ..).trans (Function.update_self ..)
  · exact Function.update_self ..

/-! ### Object nodes -/

/-- The state after an object has come to the front of a list. -/
def added (p : Nat) (o : SceneObject R) (kd : KdTree R) : KdTree R :=
  { kd with
    objPtr := some (kd.objTop + 1)
    objMem := Function.update kd.objMem kd.objTop ⟨some o, (kd.kdMem p).objList⟩
    kdMem := Function.update kd.kdMem p { kd.kdMem p with objList := some kd.objTop } }

theorem ewp_add (h : Pools n kd) :
    ewp (add p o) (fun _ kd' => kd.objTop < kdtreeArraySize ∧ kd' = added p o kd)
      (fun e => e = .objMem) kd := by
  unfold add newObjectNode
  simp only [ewp_bind, ewp_get]
  rw [h.objPtr]
  simp only [ewp_bind, ewp_check, ewp_modify, ewp_pure, decide_eq_true_eq]
  refine ⟨fun hlt => ⟨hlt, ?_⟩, fun _ => trivial⟩
  have hnext := h.next kd.objTop le_rfl hlt
  simp only [setObjectNode, KdTree.setNode, added, Function.update_idem, hnext]

theorem Pools.added (h : Pools n kd) (hlt : kd.objTop < kdtreeArraySize) :
    Pools n (added p o kd) where
  objPtr := rfl
  objTop_le := hlt
  next i hi hsize := by
    have hne : i ≠ kd.objTop := by
      have : kd.objTop + 1 ≤ i := hi
      omega
    have hmem : (KdTree.added p o kd).objMem i = kd.objMem i := Function.update_of_ne hne ..
    rw [hmem]
    exact h.next i (Nat.le_of_succ_le hi) hsize
  kdPtr_le := h.kdPtr_le
  splits := h.splits

theorem Grown.added (hp : p ∈ ps) : Grown ps kd (added p o kd) where
  root := rfl
  kdPtr_le := le_rfl
  objTop_le := Nat.le_succ _
  kdMem q _ hq := by
    refine Function.update_of_ne ?_ ..
    rintro rfl
    exact hq hp
  objMem i hi := Function.update_of_ne hi.ne ..

theorem added_kdMem_self :
    (added p o kd).kdMem p = { kd.kdMem p with objList := some kd.objTop } :=
  Function.update_self ..

theorem added_kdMem_of_ne (h : q ≠ p) : (added p o kd).kdMem q = kd.kdMem q :=
  Function.update_of_ne h ..

theorem added_objMem_self :
    (added p o kd).objMem kd.objTop = ⟨some o, (kd.kdMem p).objList⟩ :=
  Function.update_self ..

theorem Has.added_self (h : kd.Has p objs) : (added p o kd).Has p (o :: objs) := by
  obtain ⟨cells, hlisted, hcells, hobjs⟩ := h
  refine ⟨(kd.objTop, o) :: cells, ⟨?_, ?_, ?_⟩, ?_, ?_⟩
  · rw [added_kdMem_self]
  · rw [added_objMem_self]
  · rw [added_objMem_self]
    exact hlisted.congr fun c hc => Function.update_of_ne (hcells c hc).ne ..
  · intro c hc
    rcases List.mem_cons.mp hc with rfl | hc
    · exact Nat.lt_succ_self _
    · exact (hcells c hc).trans (Nat.lt_succ_self _)
  · rw [List.map_cons, hobjs]

theorem Has.added_of_ne (h : kd.Has q objs) (hq : q ≠ p) : (added p o kd).Has q objs := by
  obtain ⟨cells, hlisted, hcells, hobjs⟩ := h
  refine ⟨cells, ?_, fun c hc => (hcells c hc).trans (Nat.lt_succ_self _), hobjs⟩
  rw [added_kdMem_of_ne hq]
  exact hlisted.congr fun c hc => Function.update_of_ne (hcells c hc).ne ..

theorem added_leaf : ((added p o kd).kdMem q).leaf = (kd.kdMem q).leaf := by
  by_cases hq : q = p
  · rw [hq, added_kdMem_self]
  · rw [added_kdMem_of_ne hq]

theorem ewp_addIf {test : Bool} {o : SceneObject R} (h : Pools n kd) :
    ewp (addIf test p o)
      (fun _ kd' => Pools n kd' ∧ kd' = if test then added p o kd else kd)
      (fun e => e = .objMem) kd := by
  cases test with
  | false => exact ewp_pure.mpr ⟨h, rfl⟩
  | true =>
      refine ewp_mono (ewp_add h) ?_ fun _ he => he
      rintro _ _ ⟨hlt, rfl⟩
      exact ⟨h.added hlt, rfl⟩

/-- What an object that comes to one list or not leaves there. -/
theorem Has.addIf {test : Bool} {o : SceneObject R} (h : kd.Has p objs) :
    (if test then added p o kd else kd).Has p (if test then o :: objs else objs) := by
  cases test with
  | false => exact h
  | true => exact h.added_self

theorem Has.addIf_of_ne {q : Nat} {test : Bool} {o : SceneObject R} (h : kd.Has q objs)
    (hq : q ≠ p) : (if test then added p o kd else kd).Has q objs := by
  cases test with
  | false => exact h
  | true => exact h.added_of_ne hq

theorem Grown.addIf {ps : Set Nat} {test : Bool} {o : SceneObject R} (hp : p ∈ ps) :
    Grown ps kd (if test then KdTree.added p o kd else kd) := by
  cases test with
  | false => exact Grown.refl ps kd
  | true => exact Grown.added hp

/-- The state after the loop over the objects: the fields of the two children are as before, but for
the lists. -/
structure Distributed (left right : Nat) (kd kd' : KdTree R) : Prop where
  grown : Grown {left, right} kd kd'
  kdPtr : kd'.kdPtr = kd.kdPtr
  leaf : ∀ q, (kd'.kdMem q).leaf = (kd.kdMem q).leaf

namespace Distributed

variable {left right : Nat}

theorem trans (h : Distributed left right kd kd') (h' : Distributed left right kd' kd'') :
    Distributed left right kd kd'' where
  grown := h.grown.trans h'.grown fun _ hq _ => hq
  kdPtr := h'.kdPtr.trans h.kdPtr
  leaf q := (h'.leaf q).trans (h.leaf q)

theorem addIf {test : Bool} {o : SceneObject R} (hp : p ∈ ({left, right} : Set Nat)) :
    Distributed left right kd (if test then added p o kd else kd) := by
  cases test with
  | false => exact ⟨Grown.refl _ kd, rfl, fun _ => rfl⟩
  | true => exact ⟨Grown.added hp, rfl, fun _ => added_leaf⟩

end Distributed

/-- The object in front is added last. -/
theorem reverse_filter_cons {test : SceneObject R → Bool} {o : SceneObject R} :
    ((o :: objs).filter test).reverse ++ objsL =
      (objs.filter test).reverse ++ (if test o then o :: objsL else objsL) := by
  cases h : test o with
  | false => rw [List.filter_cons_of_neg (by rw [h]; exact Bool.false_ne_true)]; rfl
  | true =>
      rw [List.filter_cons_of_pos h, List.reverse_cons, List.append_assoc]
      rfl

end KdTree

end CodingSample.Raytracing
