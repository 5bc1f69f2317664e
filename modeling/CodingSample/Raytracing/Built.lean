import CodingSample.Raytracing.Division
import Mathlib.Algebra.Order.Ring.Rat
import Mathlib.Data.List.Perm.Basic
import Mathlib.Tactic.NormNum

/-!
# The tree that is built

Every node that is divided has in its list exactly the objects whose boxes intersect its own, and
so have its children. The recursion over the depth carries this to the leaves.
-/

namespace CodingSample.Raytracing

open Prog

namespace KdTree

section Start

variable {R : Type} {kd : KdTree R} {n p : Nat}

/-- The state `init` leaves. -/
theorem ewp_init [Field R] (E : Fault → Prop) :
    ewp init (fun _ kd' => Pools 0 kd' ∧ kd'.allocated = true ∧ kd'.root = 0 ∧ kd'.kdPtr = 1 ∧
      kd'.objTop = 0 ∧ kd'.kdMem 0 = .new) E (new : KdTree R) := by
  have hsize : 0 < kdtreeArraySize := by decide
  unfold init newKdTreeNode
  rw [ewp_bind, ewp_modify, ewp_bind, ewp_bind, ewp_get, ewp_bind, ewp_check]
  refine ⟨fun _ => ?_, fun h => absurd hsize (of_decide_eq_false h)⟩
  rw [ewp_bind, ewp_modify, ewp_bind, ewp_modify, ewp_pure, ewp_modify]
  refine ⟨⟨rfl, Nat.zero_le _, fun i _ hi => ?_, hsize, rfl⟩, rfl, rfl, rfl, rfl, ?_⟩
  · exact if_pos hi
  · change (setNode 0 (fun _ => .new) (new : KdTree R).allocateMem).kdMem 0 = .new
    exact setNode_kdMem_self

/-- The root gets all objects. -/
theorem ewp_addAll {objects : List (SceneObject R)} (hkd : Pools n kd) (htop : kd.objTop = 0)
    (hhas : kd.Has p []) :
    ewp (each (add p) objects) (fun _ kd' => Pools n kd' ∧ Grown {p} kd kd' ∧
      kd'.kdPtr = kd.kdPtr ∧ (kd'.kdMem p).leaf = (kd.kdMem p).leaf ∧
      kd'.objTop = objects.length ∧ kd'.Has p objects.reverse) (fun e => e = .objMem) kd := by
  refine ewp_mono (ewp_each (I := fun rest kd' => ∃ done, done ++ rest = objects ∧ Pools n kd' ∧
    Grown {p} kd kd' ∧ kd'.kdPtr = kd.kdPtr ∧ (kd'.kdMem p).leaf = (kd.kdMem p).leaf ∧
    kd'.objTop = done.length ∧ kd'.Has p done.reverse) ?_ ?_) ?_ fun _ he => he
  · exact ⟨[], rfl, hkd, Grown.refl _ kd, rfl, rfl, htop, hhas⟩
  · rintro o rest kd₁ ⟨done, hdone, hkd₁, hgrown, hkdPtr, hleaf, htop₁, hhas₁⟩
    refine ewp_mono (ewp_add hkd₁) ?_ fun _ he => he
    rintro _ _ ⟨hlt, rfl⟩
    refine ⟨done ++ [o], ?_, hkd₁.added hlt, ?_, hkdPtr, added_leaf.trans hleaf, ?_, ?_⟩
    · rw [List.append_assoc]
      exact hdone
    · exact hgrown.trans (Grown.added (Set.mem_singleton p)) fun _ hq _ => hq
    · rw [List.length_append, ← htop₁]
      rfl
    · rw [List.reverse_append]
      exact hhas₁.added_self
  · rintro _ kd₁ ⟨done, hdone, hrest⟩
    rw [List.append_nil] at hdone
    rw [← hdone]
    exact hrest

end Start

variable {R : Type} [Field R] [LinearOrder R] {kd kd' : KdTree R} {n p node h : Nat}
  {aabb : AABB R} {objs all : List (SceneObject R)}

/-- A finished subtree: it occupies its root and fresh nodes, has no more than `h` levels below the
root, is cut by planes and lists in its leaves the objects `all`. -/
structure Built (all : List (SceneObject R)) (node : Nat) (aabb : AABB R) (h : Nat)
    (kd kd' : KdTree R) (t : Tree R) : Prop where
  grown : Grown {node} kd kd'
  addr : t.addr = node
  box : t.box = aabb
  inMemory : t.InMemory kd'
  addrs : ∀ a ∈ t.addrs, a = node ∨ kd.kdPtr ≤ a ∧ a < kd'.kdPtr
  cells : ∀ i ∈ t.cellAddrs, i < kd'.objTop
  parted : t.EachInner Halves
  complete : t.Complete all
  height : t.height ≤ h

/-- A node that stays a leaf. -/
theorem Built.leaf (hgrown : Grown {node} kd kd') (hleaf : (kd'.kdMem node).leaf = true)
    (hbox : (kd'.kdMem node).box = aabb) (hhas : kd'.Has node objs)
    (hobjs : objs.Perm (all.filter fun o => o.boundingBox.intersectAABB aabb)) :
    ∃ t, Built all node aabb h kd kd' t := by
  obtain ⟨cells, hlisted, hcells, rfl⟩ := hhas
  refine ⟨.leaf node aabb cells, hgrown, rfl, rfl, ⟨hleaf, hbox, hlisted⟩, ?_, ?_, trivial, hobjs,
    Nat.zero_le h⟩
  · exact fun a ha => .inl (List.mem_singleton.mp ha)
  · intro i hi
    obtain ⟨c, hc, rfl⟩ := List.mem_map.mp hi
    exact hcells c hc

/-- What goes to a side of a box is what of all the objects intersects it. -/
theorem perm_side {box : AABB R}
    (hobjs : objs.Perm (all.filter fun o => o.boundingBox.intersectAABB aabb))
    (hinside : box.Inside aabb) :
    (objs.filter fun o => o.boundingBox.intersectAABB box).reverse.Perm
      (all.filter fun o => o.boundingBox.intersectAABB box) := by
  have hfilter : (all.filter fun o => o.boundingBox.intersectAABB aabb).filter
      (fun o => o.boundingBox.intersectAABB box) =
        all.filter fun o => o.boundingBox.intersectAABB box := by
    rw [List.filter_filter]
    refine List.filter_congr fun o _ => ?_
    rw [Bool.and_eq_left_iff_imp]
    exact fun ho => AABB.intersectAABB_mono ho hinside
  rw [← hfilter]
  exact (List.reverse_perm _).trans (hobjs.filter _)

/-- A node over two finished subtrees. -/
theorem Built.inner {kd₁ kd₂ kd₃ : KdTree R} {c : Children R} {tl tr : Tree R}
    (hnode : node < kd.kdPtr) (hgrown : Grown {node} kd kd₁)
    (hbox : (kd₁.kdMem node).box = aabb) (hdivided : Divided node aabb objs kd.kdPtr kd₁ c)
    (hl : Built all c.left c.leftAABB h kd₁ kd₂ tl)
    (hr : Built all (c.left + 1) c.rightAABB h kd₂ kd₃ tr) :
    ∃ t, Built all node aabb (h + 1) kd kd₃ t := by
  have hkdPtr := hdivided.kdPtr
  have hleft := hdivided.left_eq
  have hle₂ := hl.grown.kdPtr_le
  have hle₃ := hr.grown.kdPtr_le
  have hnode₃ : kd₃.kdMem node = kd₁.kdMem node := by
    rw [hr.grown.kdMem node (by omega) fun hmem => ?_,
      hl.grown.kdMem node (by omega) fun hmem => ?_]
    · have : node = c.left := hmem
      omega
    · have : node = c.left + 1 := hmem
      omega
  have hinMemory : tl.InMemory kd₃ := by
    refine hr.grown.inMemory hl.inMemory (fun a ha => ?_) hl.cells
    have haddrs := hl.addrs a ha
    refine ⟨by omega, fun hmem => ?_⟩
    have : a = c.left + 1 := hmem
    omega
  refine ⟨.inner node aabb (kd₁.kdMem node).axis (kd₁.kdMem node).split tl tr, ?_, rfl, rfl, ?_, ?_,
    ?_, ?_, ⟨hl.complete, hr.complete⟩, ?_⟩
  · refine (hgrown.trans hl.grown ?_).trans hr.grown ?_
    · rintro q rfl hq
      omega
    · rintro q rfl hq
      omega
  · rw [Tree.InMemory, hnode₃, hl.addr, hr.addr]
    exact ⟨hdivided.leaf, hbox, rfl, rfl, hdivided.left, hdivided.right, hinMemory, hr.inMemory⟩
  · intro a ha
    rcases List.mem_cons.mp ha with rfl | ha
    · exact .inl rfl
    · rcases List.mem_append.mp ha with ha | ha
      · have := hl.addrs a ha
        omega
      · have := hr.addrs a ha
        omega
  · intro i hi
    rcases List.mem_append.mp hi with hi | hi
    · exact (hl.cells i hi).trans_le hr.grown.objTop_le
    · exact hr.cells i hi
  · refine ⟨?_, hl.parted, hr.parted⟩
    rw [hl.box, hr.box]
    exact hdivided.halves
  · exact Nat.succ_le_succ (max_le hl.height hr.height)

/-- The tree lies within the arrays. -/
theorem Built.addrs_lt {t : Tree R} (ht : Built all node aabb h kd kd' t) (hkd' : Pools n kd')
    (hnode : node < kd.kdPtr) : ∀ a ∈ t.addrs, a < kdtreeArraySize := by
  intro a ha
  have hle := hkd'.kdPtr_le
  have hgrown := ht.grown.kdPtr_le
  have haddr := ht.addrs a ha
  omega

theorem Built.cells_lt {t : Tree R} (ht : Built all node aabb h kd kd' t) (hkd' : Pools n kd') :
    ∀ i ∈ t.cellAddrs, i < kdtreeArraySize :=
  fun i hi => (ht.cells i hi).trans_le hkd'.objTop_le

/-- A child stays as it is while the tree grows below another node. -/
theorem Child.grown {q count : Nat} {box : AABB R} (hchild : Child kd p box objs count)
    (hgrown : Grown {q} kd kd') (hne : p ≠ q) : Child kd' p box objs count := by
  have hmem := hgrown.kdMem p hchild.lt hne
  refine ⟨hchild.lt.trans_le hgrown.kdPtr_le, ?_, ?_, hchild.has.grown hgrown hchild.lt hne,
    hchild.count_eq, hchild.proper, hchild.area⟩
  · rw [hmem]
    exact hchild.leaf
  · rw [hmem]
    exact hchild.box_eq

/-- What a call of `subdivide` leaves behind. -/
def Done (all : List (SceneObject R)) (node : Nat) (aabb : AABB R) (h n : Nat) (kd : KdTree R) :
    Unit → KdTree R → Prop :=
  fun _ kd' => Pools n kd' ∧ ∃ t, Built all node aabb h kd kd' t

/-- A child is divided or stays a leaf. -/
theorem ewp_child {count : Nat} {box : AABB R} {below : Prog Fault (KdTree R) Unit}
    (hkd : Pools n kd) (hchild : Child kd p box objs count) (hinside : box.Inside aabb)
    (hobjs : objs.Perm (all.filter fun o => o.boundingBox.intersectAABB aabb))
    (hbelow : ewp below (Done all p box h n kd) (Stops box) kd) :
    ewp (if count > 2 then below else pure ()) (Done all p box h n kd) (Stops aabb) kd := by
  split_ifs
  · refine ewp_mono hbelow (fun _ _ h => h) ?_
    rintro e (he | he | ⟨-, harea⟩)
    · exact .inl he
    · exact .inr (.inl he)
    · exact absurd hchild.area harea
  · exact ewp_pure.mpr ⟨hkd, Built.leaf (Grown.refl _ kd) hchild.leaf hchild.box_eq hchild.has
      (perm_side hobjs hinside)⟩

variable [IsStrictOrderedRing R]

/-- The subtree below a node, by recursion over the depth. -/
theorem ewp_subdivide {kd : KdTree R} {node : Nat} {aabb : AABB R} {objs : List (SceneObject R)}
    (depth : Nat) (hdepth : depth ≤ maxTreeDepth) (hkd : Pools n kd) (hnode : node < kd.kdPtr)
    (hbox : (kd.kdMem node).box = aabb) (hhas : kd.Has node objs) (hproper : aabb.Proper)
    (hobjs : objs.Perm (all.filter fun o => o.boundingBox.intersectAABB aabb))
    (hn : 2 * all.length ≤ n) (hinf : (all.length : R) < posInf R) :
    ewp (subdivide node aabb depth objs.length)
      (Done all node aabb (maxTreeDepth + 1 - depth) n kd) (Stops aabb) kd := by
  have hmem : ∀ o ∈ objs, o.boundingBox.intersectAABB aabb = true :=
    fun o ho => (List.mem_filter.mp (hobjs.mem_iff.mp ho)).2
  have hlength : objs.length ≤ all.length := hobjs.length_eq.trans_le (List.length_filter_le _ _)
  have hcast : (objs.length : R) ≤ all.length := Nat.cast_le.mpr hlength
  rw [subdivide]
  refine ewp_bind_of (ewp_divideNode hkd hnode hhas hproper hmem (by omega)
    (hcast.trans_lt hinf)) ?_
  rintro (_ | c) kd₁ ⟨hkd₁, hgrown₁, hbox₁, hdivided⟩
  · exact ewp_pure.mpr ⟨hkd₁, Built.leaf hgrown₁ hdivided.1 (hbox₁.trans hbox) hdivided.2 hobjs⟩
  · have hchildL := hdivided.leftChild
    have hchildR := hdivided.rightChild
    have hneR : c.left + 1 ≠ c.left := Nat.succ_ne_self _
    have hinsideL := hdivided.halves.left_inside
    have hinsideR := hdivided.halves.right_inside
    dsimp only
    by_cases hlt : depth < maxTreeDepth
    · rw [dif_pos hlt]
      have hheight : maxTreeDepth + 1 - depth = maxTreeDepth + 1 - (depth + 1) + 1 := by omega
      rw [hheight]
      have hbelowL : ewp (subdivide c.left c.leftAABB (depth + 1) c.leftCount)
          (Done all c.left c.leftAABB (maxTreeDepth + 1 - (depth + 1)) n kd₁)
          (Stops c.leftAABB) kd₁ := by
        rw [hchildL.count_eq]
        exact ewp_subdivide (depth + 1) hlt hkd₁ hchildL.lt hchildL.box_eq hchildL.has
          hchildL.proper (perm_side hobjs hinsideL) hn hinf
      refine ewp_bind_of (ewp_child hkd₁ hchildL hinsideL hobjs hbelowL) ?_
      rintro _ kd₂ ⟨hkd₂, tl, htl⟩
      have hchildR₂ := hchildR.grown htl.grown hneR
      have hbelowR : ewp (subdivide (c.left + 1) c.rightAABB (depth + 1) c.rightCount)
          (Done all (c.left + 1) c.rightAABB (maxTreeDepth + 1 - (depth + 1)) n kd₂)
          (Stops c.rightAABB) kd₂ := by
        rw [hchildR₂.count_eq]
        exact ewp_subdivide (depth + 1) hlt hkd₂ hchildR₂.lt hchildR₂.box_eq hchildR₂.has
          hchildR₂.proper (perm_side hobjs hinsideR) hn hinf
      refine ewp_mono (ewp_child hkd₂ hchildR₂ hinsideR hobjs hbelowR) ?_ fun _ he => he
      rintro _ kd₃ ⟨hkd₃, tr, htr⟩
      exact ⟨hkd₃, Built.inner hnode hgrown₁ (hbox₁.trans hbox) hdivided htl htr⟩
    · rw [dif_neg hlt]
      obtain rfl : depth = maxTreeDepth := hdepth.antisymm (not_lt.mp hlt)
      obtain ⟨tl, htl⟩ := Built.leaf (h := 0) (Grown.refl {c.left} kd₁) hchildL.leaf hchildL.box_eq
        hchildL.has (perm_side hobjs hinsideL)
      obtain ⟨tr, htr⟩ := Built.leaf (h := 0) (Grown.refl {c.left + 1} kd₁) hchildR.leaf
        hchildR.box_eq hchildR.has (perm_side hobjs hinsideR)
      rw [Nat.add_sub_cancel_left]
      exact ewp_pure.mpr
        ⟨hkd₁, Built.inner hnode hgrown₁ (hbox₁.trans hbox) hdivided htl htr⟩
termination_by maxTreeDepth - depth

end KdTree

variable {R : Type} [Field R] [LinearOrder R]

/-- The boxes of the objects have no negative sides and lie in the extends box. -/
def Scene.Enclosed (scene : Scene R) : Prop :=
  ∀ o ∈ scene.objects, o.boundingBox.Proper ∧ o.boundingBox.Inside scene.extendsBox

/-- What `build` leaves in memory. -/
structure KdTree.Holds (kd : KdTree R) (scene : Scene R) (t : Tree R) : Prop where
  root : kd.root = 0
  addr : t.addr = kd.root
  box : t.box = scene.extendsBox
  inMemory : t.InMemory kd
  parted : t.EachInner Halves
  complete : t.Complete scene.objects
  height : t.height ≤ maxTreeDepth + 1
  addrs : ∀ a ∈ t.addrs, a < kdtreeArraySize
  cells : ∀ i ∈ t.cellAddrs, i < kdtreeArraySize

variable [IsStrictOrderedRing R] {scene : Scene R}

theorem Scene.Enclosed.intersects (h : scene.Enclosed) :
    (scene.objects.filter fun o => o.boundingBox.intersectAABB scene.extendsBox) =
      scene.objects :=
  List.filter_eq_self.mpr fun o ho => (h o ho).2.intersectAABB (h o ho).1

/-- A box around a proper box is proper. -/
theorem AABB.Inside.proper {b b2 : AABB R} (h : b.Inside b2) (hb : b.Proper) : b2.Proper := by
  intro k
  have hsize := hb k
  have hlow := (h k).1
  have hhigh := (h k).2
  rw [stop_apply, stop_apply] at hhigh
  linarith

/-- The construction stops only when a pool is used up or when a box without a surface is divided;
otherwise it leaves a tree in memory that loses no object. -/
theorem ewp_buildKdTree (hscene : scene.Enclosed) :
    ewp scene.buildKdTree (fun _ kd => ∃ t, kd.Holds scene t)
      (fun e => e = .kdMem ∨ e = .objMem ∨
        e = .division ∧ 2 < scene.objects.length ∧ ¬ 0 < scene.extendsBox.calculateSA) .new := by
  unfold Scene.buildKdTree
  refine ewp_bind_of (KdTree.ewp_init _) ?_
  rintro _ kd₀ ⟨hkd₀, halloc, hroot, hkdPtr₀, htop₀, hnew⟩
  unfold KdTree.build
  rw [ewp_bind, ewp_get, ewp_bind, halloc, check_true, ewp_pure]
  have hhas₀ : kd₀.Has kd₀.root [] := by
    refine ⟨[], ?_, fun c hc => absurd hc List.not_mem_nil, rfl⟩
    rw [hroot, hnew]
    rfl
  refine ewp_bind_of (ewp_mono (KdTree.ewp_addAll hkd₀ htop₀ hhas₀) (fun _ _ h => h)
    fun _ he => .inr (.inl he)) ?_
  rintro _ kd₁ ⟨hkd₁, hgrown₁, hkdPtr₁, hleaf₁, htop₁, hhas₁⟩
  rw [ewp_bind, ewp_modify, ewp_bind, ewp_modify]
  generalize hkd₂ : ({
    KdTree.setNode kd₀.root (fun x => { x with box := scene.extendsBox }) kd₁ with
    splitPool := List.replicate (2 * scene.objects.length + 1) ⟨0, 0, 0⟩
    splitList := [] } : KdTree R) = kd₂
  have hpools₂ : KdTree.Pools (2 * scene.objects.length + 1) kd₂ := by
    rw [← hkd₂]
    exact ⟨hkd₁.objPtr, hkd₁.objTop_le, hkd₁.next, hkd₁.kdPtr_le,
      (Nat.zero_add _).trans List.length_replicate⟩
  have hnode₂ : kd₂.kdMem kd₀.root = { kd₁.kdMem kd₀.root with box := scene.extendsBox } := by
    rw [← hkd₂]
    exact Function.update_self ..
  have hhas₂ : kd₂.Has kd₀.root scene.objects.reverse := by
    refine hhas₁.of_objList ?_ ?_ ?_
    · rw [← hkd₂]
      rfl
    · rw [hnode₂]
    · rw [← hkd₂]
      rfl
  have hkdPtr₂ : kd₀.root < kd₂.kdPtr := by
    rw [← hkd₂]
    change kd₀.root < kd₁.kdPtr
    rw [hroot, hkdPtr₁, hkdPtr₀]
    exact one_pos
  have hroot₂ : kd₂.root = kd₀.root := by
    rw [← hkd₂]
    exact hgrown₁.root
  have hobjs : scene.objects.reverse.Perm
      (scene.objects.filter fun o => o.boundingBox.intersectAABB scene.extendsBox) := by
    rw [hscene.intersects]
    exact List.reverse_perm _
  split_ifs with hcount
  · rw [ewp_bind, ewp_modify]
    have hproper : scene.extendsBox.Proper := by
      obtain ⟨o, ho⟩ := List.exists_mem_of_length_pos (Nat.zero_lt_of_lt hcount)
      exact (hscene o ho).2.proper (hscene o ho).1
    have hinf : (scene.objects.length : R) < posInf R := by
      have hle : scene.objects.length ≤ kdtreeArraySize := htop₁ ▸ hkd₁.objTop_le
      have hlt : kdtreeArraySize < 0x7FFFFFFF := by decide
      exact Nat.cast_lt.mpr (hle.trans_lt hlt)
    have hbox₃ : ((kd₂.setNode kd₀.root fun x => { x with leaf := false }).kdMem kd₀.root).box =
        scene.extendsBox := by
      rw [KdTree.setNode_kdMem_self, hnode₂]
    have hsubdivide := KdTree.ewp_subdivide 0 (Nat.zero_le _) hpools₂.setNode hkdPtr₂ hbox₃
      (hhas₂.setNode fun _ => rfl) hproper hobjs (Nat.le_succ _) hinf
    rw [List.length_reverse] at hsubdivide
    refine ewp_mono hsubdivide ?_ ?_
    · rintro _ kd₃ ⟨hpools₃, t, ht⟩
      have hroot₃ := ht.grown.root.trans hroot₂
      exact ⟨t, hroot₃.trans hroot, ht.addr.trans hroot₃.symm, ht.box, ht.inMemory, ht.parted,
        ht.complete, ht.height, ht.addrs_lt hpools₃ hkdPtr₂, ht.cells_lt hpools₃⟩
    · rintro e (he | he | ⟨he, harea⟩)
      · exact .inl he
      · exact .inr (.inl he)
      · exact .inr (.inr ⟨he, hcount, harea⟩)
  · have hleaf₂ : (kd₂.kdMem kd₀.root).leaf = true := by
      rw [hnode₂, hleaf₁, hroot, hnew]
      rfl
    have hbuilt : ∃ t, KdTree.Built scene.objects kd₀.root scene.extendsBox 0 kd₂ kd₂ t :=
      KdTree.Built.leaf (KdTree.Grown.refl _ kd₂) hleaf₂ (congrArg KdTreeNode.box hnode₂) hhas₂
        hobjs
    obtain ⟨t, ht⟩ := hbuilt
    exact ewp_pure.mpr ⟨t, hroot₂.trans hroot, ht.addr.trans hroot₂.symm, ht.box, ht.inMemory,
      ht.parted, ht.complete, ht.height.trans (Nat.zero_le _), ht.addrs_lt hpools₂ hkdPtr₂,
      ht.cells_lt hpools₂⟩

/-! ### No object is lost -/

/-- Every object has a box with three positive sides, inside the extends box. -/
def Scene.Solid (scene : Scene R) : Prop :=
  ∀ o ∈ scene.objects, (∀ k, 0 < o.boundingBox.size k) ∧ o.boundingBox.Inside scene.extendsBox

omit [IsStrictOrderedRing R] in
theorem Scene.Solid.enclosed (h : scene.Solid) : scene.Enclosed :=
  fun o ho => ⟨fun k => ((h o ho).1 k).le, (h o ho).2⟩

/-- A scene with an object has a surface to divide. -/
theorem Scene.Solid.area_pos (h : scene.Solid) (hne : 0 < scene.objects.length) :
    0 < scene.extendsBox.calculateSA := by
  obtain ⟨o, ho⟩ := List.exists_mem_of_length_pos hne
  have hside : ∀ k, 0 < scene.extendsBox.size k := by
    intro k
    have hsize := (h o ho).1 k
    have hlow := ((h o ho).2 k).1
    have hhigh := ((h o ho).2 k).2
    rw [AABB.stop_apply, AABB.stop_apply] at hhigh
    linarith
  have h0 := hside 0
  have h1 := hside 1
  have h2 := hside 2
  rw [AABB.calculateSA]
  positivity

/-- Building the tree ends, unless a pool is used up, with a tree in memory whose inner nodes are
covered by their children, whose leaves list the objects that intersect them, and whose depth is
bounded. -/
theorem build_loses_nothing (scene : Scene R) (hscene : scene.Solid) :
    ewp scene.buildKdTree
      (fun _ kd => ∃ t : Tree R, t.addr = kd.root ∧ t.box = scene.extendsBox ∧ t.InMemory kd ∧
        t.EachInner Covered ∧ t.Complete scene.objects ∧ t.height ≤ maxTreeDepth + 1)
      (fun e => e = .kdMem ∨ e = .objMem) .new := by
  refine ewp_mono (ewp_buildKdTree hscene.enclosed) ?_ ?_
  · rintro _ kd ⟨t, ht⟩
    exact ⟨t, ht.addr, ht.box, ht.inMemory, ht.parted.mono fun _ _ _ _ _ h => h.covered,
      ht.complete, ht.height⟩
  · rintro e (he | he | ⟨-, hcount, harea⟩)
    · exact .inl he
    · exact .inr he
    · exact absurd (hscene.area_pos (Nat.zero_lt_of_lt hcount)) harea

/-- A unit cube that is hit at its lower face by the rays along the first axis. -/
def cube (i : Nat) : SceneObject ℚ where
  boundingBox := ⟨fun k => if k = 0 then 2 * i else 0, fun _ => 1⟩
  arrayID := i
  hit eye d :=
    if d = (fun k => if k = 0 then 1 else 0) ∧ eye 0 < 2 * i ∧ 0 ≤ eye 1 ∧ eye 1 ≤ 1 ∧
      0 ≤ eye 2 ∧ eye 2 ≤ 1 then 2 * i - eye 0 else -1
  face _ _ f := f

/-- Three cubes in a row. -/
def cubes : Scene ℚ :=
  ⟨[cube 0, cube 1, cube 2], ⟨fun _ => 0, fun k => if k = 0 then 5 else 1⟩⟩

theorem cubes_solid : cubes.Solid := by
  have htwo : (2 : Fin 3) ≠ 0 := by decide
  intro o ho
  simp only [cubes, List.mem_cons, List.not_mem_nil, or_false] at ho
  refine ⟨?_, forall_axis.mpr ?_⟩
  · rcases ho with rfl | rfl | rfl
    · exact fun _ => one_pos
    · exact fun _ => one_pos
    · exact fun _ => one_pos
  · rcases ho with rfl | rfl | rfl
    · norm_num [cubes, cube, AABB.stop, htwo]
    · norm_num [cubes, cube, AABB.stop, htwo]
    · norm_num [cubes, cube, AABB.stop, htwo]

theorem build_loses_nothing_cubes :
    ewp cubes.buildKdTree
      (fun _ kd => ∃ t : Tree ℚ, t.addr = kd.root ∧ t.box = cubes.extendsBox ∧ t.InMemory kd ∧
        t.EachInner Covered ∧ t.Complete cubes.objects ∧ t.height ≤ maxTreeDepth + 1)
      (fun e => e = .kdMem ∨ e = .objMem) .new :=
  build_loses_nothing cubes cubes_solid

end CodingSample.Raytracing
