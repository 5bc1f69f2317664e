import CodingSample.Raytracing.Kernel
import CodingSample.Raytracing.SameHit

/-!
# The kernel walks the tree as the program does

The two machines take the same steps: a node of the kernel is the copy of the node the program is
at, and its stack holds the indices of the nodes on the stack of the program. The subtrees on the
stack are the lower the more there are below them, which bounds the stack by the height of the tree.
-/

namespace CodingSample.Raytracing

open Prog

variable {R : Type}

@[simp] theorem copyIndex_none : copyIndex none = -1 := rfl

@[simp] theorem copyIndex_some (p : Nat) : copyIndex (some p) = p := rfl

/-! ### Reading the copy -/

section Reading

variable {kd : KdTree R} {t : Tree R} {f : Followed} {p : Nat}

/-- Only indices of the tree have been followed. -/
structure Followed.Within (f : Followed) (t : Tree R) : Prop where
  nodes : ∀ i ∈ f.nodes, ∃ a ∈ t.addrs, i = (a : Nat)
  objectNodes : ∀ i ∈ f.objectNodes, ∃ a ∈ t.cellAddrs, i = (a : Nat)

theorem readAt_apply {α : Type} {mem : List α} {x : α} (h : mem[p]? = some x) (f : Followed) :
    readAt mem (p : Int) f = .ok (x, f) := by
  rw [readAt, if_pos (Int.natCast_nonneg p), Int.toNat_natCast, h]
  rfl

/-- A node of the tree is read from its copy. -/
theorem wp_readNode (hp : p ∈ t.addrs) (hlt : p < kdtreeArraySize) (hf : f.Within t) :
    wp (readNode (copyKdTree kd).kdNodes p)
      (fun n f' => n = copyNode (kd.kdMem p) ∧ f'.Within t) f := by
  have hread : (copyKdTree kd).kdNodes[p]? = some (copyNode (kd.kdMem p)) := by
    rw [copyKdTree, List.getElem?_map, List.getElem?_range hlt]
    rfl
  unfold readNode
  rw [wp_bind, wp_modify, wp_of_eq (readAt_apply hread _)]
  refine ⟨rfl, fun i hi => ?_, hf.objectNodes⟩
  rcases List.mem_cons.mp hi with rfl | hi
  · exact ⟨p, hp, rfl⟩
  · exact hf.nodes i hi

theorem wp_readObjectNode (hp : p ∈ t.cellAddrs) (hlt : p < kdtreeArraySize) (hf : f.Within t) :
    wp (readObjectNode (copyKdTree kd).objNodes p)
      (fun n f' => n = copyObjectNode (kd.objMem p) ∧ f'.Within t) f := by
  have hread : (copyKdTree kd).objNodes[p]? = some (copyObjectNode (kd.objMem p)) := by
    rw [copyKdTree, List.getElem?_map, List.getElem?_range hlt]
    rfl
  unfold readObjectNode
  rw [wp_bind, wp_modify, wp_of_eq (readAt_apply hread _)]
  refine ⟨rfl, hf.nodes, fun i hi => ?_⟩
  rcases List.mem_cons.mp hi with rfl | hi
  · exact ⟨p, hp, rfl⟩
  · exact hf.objectNodes i hi

end Reading

variable [Field R] [LinearOrder R] {kd : KdTree R} {scene : Scene R} {t s l r : Tree R}
  {ts : List (Tree R)} {f : Followed} {epsilon : R} {eyePos d : Vector3 R} {fuel h : Nat}
  {objIndex : Option Nat}

/-- A subtree of the tree of a scene. -/
structure Part (kd : KdTree R) (scene : Scene R) (t s : Tree R) : Prop where
  inMemory : s.InMemory kd
  complete : s.Complete scene.objects
  addrs : ∀ a ∈ s.addrs, a ∈ t.addrs
  cells : ∀ i ∈ s.cellAddrs, i ∈ t.cellAddrs

theorem Part.left {a : Nat} {box : AABB R} {axis : Fin 3} {split : R}
    (hs : Part kd scene t (.inner a box axis split l r)) : Part kd scene t l :=
  ⟨hs.inMemory.2.2.2.2.2.2.1, hs.complete.1,
    fun b hb => hs.addrs b (List.mem_cons_of_mem a (List.mem_append_left _ hb)),
    fun i hi => hs.cells i (List.mem_append_left _ hi)⟩

theorem Part.right {a : Nat} {box : AABB R} {axis : Fin 3} {split : R}
    (hs : Part kd scene t (.inner a box axis split l r)) : Part kd scene t r :=
  ⟨hs.inMemory.2.2.2.2.2.2.2, hs.complete.2,
    fun b hb => hs.addrs b (List.mem_cons_of_mem a (List.mem_append_right _ hb)),
    fun i hi => hs.cells i (List.mem_append_right _ hi)⟩

/-- A cell of a leaf, and where its object is. -/
theorem Part.cell {a : Nat} {box : AABB R} {cells : List (Nat × SceneObject R)}
    (hs : Part kd scene t (.leaf a box cells)) (hids : scene.Numbered) :
    ∀ c ∈ cells, c.1 ∈ t.cellAddrs ∧ scene.objects[c.2.arrayID]? = some c.2 := by
  intro c hc
  have hmem := hs.complete.mem_iff.mp (List.mem_map_of_mem hc)
  obtain ⟨i, hi⟩ := List.mem_iff_getElem?.mp (List.mem_of_mem_filter hmem)
  refine ⟨hs.cells c.1 (List.mem_map_of_mem hc), ?_⟩
  rw [hids i c.2 hi]
  exact hi

omit [Field R] [LinearOrder R] in
theorem Tree.addr_mem (s : Tree R) : s.addr ∈ s.addrs := by
  cases s with
  | leaf a box cells => exact List.mem_singleton_self a
  | inner a box axis split l r => exact List.mem_cons_self

theorem Part.box (hs : Part kd scene t s) : (kd.kdMem s.addr).box = s.box := by
  cases s with
  | leaf a box cells => exact hs.inMemory.2.1
  | inner a box axis split l r => exact hs.inMemory.2.1

theorem Part.addr (hs : Part kd scene t s) : s.addr ∈ t.addrs := hs.addrs _ s.addr_mem

/-- Going to a subtree. -/
theorem wp_readNode_bind {α : Type} {k : KdTreeNodeDevice R → Kernel α}
    {Q : α → Followed → Prop} (hlt : ∀ a ∈ t.addrs, a < kdtreeArraySize)
    (hs : Part kd scene t s) (hf : f.Within t)
    (hk : ∀ f', f'.Within t → wp (k (copyNode (kd.kdMem s.addr))) Q f') :
    wp (readNode (copyKdTree kd).kdNodes (copyIndex (some s.addr)) >>= k) Q f := by
  refine wp_bind_of (wp_readNode hs.addr (hlt _ hs.addr) hf) ?_
  rintro _ f' ⟨rfl, hf'⟩
  exact hk f' hf'

/-- Subtrees on the stack, the top first: each has at most `h` levels less one for every subtree
below it on the stack. -/
def Fits (kd : KdTree R) (scene : Scene R) (t : Tree R) (h : Nat) : List (Tree R) → Prop
  | [] => True
  | s :: ts => Part kd scene t s ∧ s.height + ts.length ≤ h ∧ Fits kd scene t h ts

/-- The stack of the program. -/
def pointers (ts : List (Tree R)) : List (Option Nat) := ts.map fun s => some s.addr

/-- The stack of the kernel. -/
def indices (ts : List (Tree R)) : List Int := ts.map fun s => (s.addr : Nat)

/-- The post-condition of the inner loop of the kernel: it is at the copy of the leaf the program is
at, and the stacks hold the same subtrees. -/
def AtLeaf (kd : KdTree R) (scene : Scene R) (t : Tree R) (h a : Nat)
    (nodeStack : List (Option Nat)) (r : KdTreeNodeDevice R × List Int) (f : Followed) : Prop :=
  f.Within t ∧ r.1 = copyNode (kd.kdMem a) ∧ ∃ box cells ts,
    Part kd scene t (.leaf a box cells) ∧ Fits kd scene t h ts ∧ nodeStack = pointers ts ∧
      r.2 = indices ts

/-- The inner loops take the same steps. -/
theorem wp_descendDevice (hlt : ∀ a ∈ t.addrs, a < kdtreeArraySize) (hh : h ≤ nodeStackSize)
    (hs : Part kd scene t s) (hheight : s.height + ts.length ≤ h) (hts : Fits kd scene t h ts)
    (hf : f.Within t) {a : Nat} {nodeStack : List (Option Nat)}
    (hrun : descend epsilon eyePos d kd fuel (some s.addr) (pointers ts) = some (a, nodeStack)) :
    wp (descendDevice epsilon eyePos d (copyKdTree kd).kdNodes fuel (copyNode (kd.kdMem s.addr))
      (indices ts)) (AtLeaf kd scene t h a nodeStack) f := by
  induction s generalizing ts fuel f with
  | leaf a' box cells =>
      have hleaf := hs.inMemory.1
      cases fuel with
      | zero => cases hrun
      | succ fuel =>
          rw [Tree.addr, descend, hleaf] at hrun
          rw [Tree.addr, descendDevice, copyNode, hleaf]
          cases hrun
          exact wp_pure.mpr ⟨hf, by rw [copyNode, hleaf], box, cells, ts, hs, hts, rfl, rfl⟩
  | inner a' box axis split l r ihl ihr =>
      obtain ⟨hleaf, hbox, haxis, hsplit, hleft, hright, -⟩ := hs.inMemory
      rw [Tree.height] at hheight
      cases fuel with
      | zero => cases hrun
      | succ fuel =>
          rw [Tree.addr, descend, hleaf, hbox, haxis, hsplit, hleft, hright] at hrun
          rw [Tree.addr, descendDevice, copyNode, hleaf, hbox, haxis, hsplit, hleft, hright]
          dsimp only at hrun ⊢
          rw [if_neg Bool.false_ne_true] at hrun ⊢
          have hroom : (indices ts).length < nodeStackSize := by
            rw [indices, List.length_map]
            omega
          generalize (if (doIntersectRayKdBox epsilon eyePos d box).1 =
            (doIntersectRayKdBox epsilon eyePos d box).2 then (0 : R) else
              (doIntersectRayKdBox epsilon eyePos d box).1) = near at hrun ⊢
          split_ifs at hrun ⊢
          · refine wp_readNode_bind hlt hs.left hf fun f' hf' => ?_
            exact ihl hs.left (by omega) hts hf' hrun
          · have hpush : Fits kd scene t h (r :: ts) := ⟨hs.right, by omega, hts⟩
            have hdeeper : l.height + (r :: ts).length ≤ h := by
              rw [List.length_cons]
              omega
            refine wp_bind.mpr (wp_check.mpr ⟨decide_eq_true hroom, ?_⟩)
            refine wp_readNode_bind hlt hs.left hf fun f' hf' => ?_
            exact ihl hs.left hdeeper hpush hf' hrun
          · refine wp_readNode_bind hlt hs.right hf fun f' hf' => ?_
            exact ihr hs.right (by omega) hts hf' hrun
          · have hpush : Fits kd scene t h (l :: ts) := ⟨hs.left, by omega, hts⟩
            have hdeeper : r.height + (l :: ts).length ≤ h := by
              rw [List.length_cons]
              omega
            refine wp_bind.mpr (wp_check.mpr ⟨decide_eq_true hroom, ?_⟩)
            refine wp_readNode_bind hlt hs.right hf fun f' hf' => ?_
            exact ihr hs.right hdeeper hpush hf' hrun

/-- The loops over the objects of a leaf test the same objects. -/
theorem wp_scanDevice (hlt : ∀ i ∈ t.cellAddrs, i < kdtreeArraySize) {p : Option Nat}
    {cells : List (Nat × SceneObject R)} (hlisted : Listed kd.objMem p cells)
    (hcells : ∀ c ∈ cells, c.1 ∈ t.cellAddrs ∧ scene.objects[c.2.arrayID]? = some c.2)
    (hf : f.Within t) {acc acc' : Hit R} (hrun : scanLeaf eyePos d kd fuel p acc = some acc') :
    wp (scanDevice eyePos d scene.objects (copyKdTree kd).objNodes fuel (copyIndex p) acc)
      (fun r f' => f'.Within t ∧ r = acc') f := by
  induction cells generalizing fuel p acc f with
  | nil =>
      obtain rfl : p = none := hlisted
      cases fuel with
      | zero => cases hrun
      | succ fuel =>
          rw [scanDevice, copyIndex_none, if_pos rfl]
          cases hrun
          exact wp_pure.mpr ⟨hf, rfl⟩
  | cons c cells ih =>
      obtain ⟨i, o⟩ := c
      obtain ⟨rfl, hobject, hrest⟩ := hlisted
      obtain ⟨hi, ho⟩ := hcells _ List.mem_cons_self
      cases fuel with
      | zero => cases hrun
      | succ fuel =>
          rw [scanLeaf, hobject] at hrun
          rw [scanDevice, copyIndex_some, if_neg (by omega)]
          refine wp_bind_of (wp_readObjectNode hi (hlt i hi) hf) ?_
          rintro _ f' ⟨rfl, hf'⟩
          rw [copyObjectNode, hobject, Option.map_some, copyIndex_some, wp_bind,
            wp_of_eq (readAt_apply ho f')]
          exact ih hrest (fun c hc => hcells c (List.mem_cons_of_mem _ hc)) hf' hrun

/-- The outer loops take the same steps. -/
theorem wp_searchDevice (hids : scene.Numbered) (hlt : ∀ a ∈ t.addrs, a < kdtreeArraySize)
    (hcells : ∀ i ∈ t.cellAddrs, i < kdtreeArraySize) (hh : h ≤ nodeStackSize)
    (hfits : Fits kd scene t h (s :: ts)) (hf : f.Within t) {acc : Hit R} {r : R × Hit R}
    (hrun : search epsilon eyePos d kd fuel (some s.addr) (pointers ts) acc = some r) :
    wp (searchDevice epsilon eyePos d scene.objects (copyKdTree kd) fuel (s.addr : Nat)
      (indices ts) acc) (fun r' f' => f'.Within t ∧ r' = r) f := by
  induction fuel generalizing s ts f acc with
  | zero => cases hrun
  | succ fuel ih =>
      obtain ⟨hs, hheight, hts⟩ := hfits
      rw [search] at hrun
      obtain ⟨⟨a, nodeStack⟩, hdescend, hrun⟩ := Option.bind_eq_some_iff.mp hrun
      obtain ⟨acc', hscan, hrun⟩ := Option.bind_eq_some_iff.mp hrun
      rw [searchDevice, if_neg (by omega), ← copyIndex_some]
      refine wp_readNode_bind hlt hs hf fun f₁ hf₁ => ?_
      refine wp_bind_of (wp_descendDevice hlt hh hs hheight hts hf₁ hdescend) ?_
      rintro ⟨_, _⟩ f₂ ⟨hf₂, rfl, box, cells, ts', hleaf, hts', rfl, rfl⟩
      have hscanned := wp_scanDevice hcells hleaf.inMemory.2.2 (hleaf.cell hids) hf₂ hscan
      refine wp_bind_of hscanned ?_
      rintro acc₁ f₃ ⟨hf₃, rfl⟩
      change (if _ then _ else _) = _ at hrun
      change wp (if acc₁.minT ≠ posInf R ∧ ((kd.kdMem a).box.enlarge epsilon).contains
        (eyePos + acc₁.minT • d) = true then _ else _) _ f₃
      split_ifs at hrun ⊢ with haccept
      · cases hrun
        exact wp_pure.mpr ⟨hf₃, rfl⟩
      · cases ts' with
        | nil =>
            cases hrun
            exact wp_pure.mpr ⟨hf₃, rfl⟩
        | cons s' ts' => exact ih hts' hf₃ hrun

/-- In the kernel a ray has the result that it has in the program, every index that is followed is
one of the tree, and nothing goes wrong. -/
theorem KdTree.Holds.wp_intersectDevice (ht : kd.Holds scene t) (hids : scene.Numbered)
    {objectIndex faceIndex : Int} (hfuel : t.weight ≤ fuel) :
    wp (intersectDevice epsilon fuel true eyePos d scene.objects objectIndex faceIndex
        (copyKdTree kd))
      (fun r f => f.Within t ∧
        r = intersectVisit epsilon eyePos d t objectIndex faceIndex scene.extendsBox) ⟨[], []⟩ := by
  have hpart : Part kd scene t t := ⟨ht.inMemory, ht.complete, fun _ h => h, fun _ h => h⟩
  have hempty : (⟨[], []⟩ : Followed).Within t :=
    ⟨fun _ h => absurd h List.not_mem_nil, fun _ h => absurd h List.not_mem_nil⟩
  have haddr : t.addr = 0 := ht.addr.trans ht.root
  have hheight : t.height + ([] : List (Tree R)).length ≤ maxTreeDepth + 1 := ht.height
  have hfits : Fits kd scene t (maxTreeDepth + 1) [t] := ⟨hpart, hheight, trivial⟩
  have hroot : (kd.kdMem 0).box = scene.extendsBox := by
    rw [← haddr, ← ht.box]
    exact hpart.box
  have hmem : 0 ∈ t.addrs := by
    rw [← haddr]
    exact hpart.addr
  unfold intersectDevice
  refine wp_bind_of (wp_readNode hmem (by decide) hempty) ?_
  rintro _ f₁ ⟨rfl, hf₁⟩
  change wp (if (doIntersectRayKdBox epsilon eyePos d (kd.kdMem 0).box).1 ≤ 0 ∧
    (doIntersectRayKdBox epsilon eyePos d (kd.kdMem 0).box).2 ≤ 0 then _ else _) _ f₁
  rw [hroot, intersectVisit]
  split_ifs
  · exact wp_pure.mpr ⟨hf₁, rfl⟩
  · have hrun : search epsilon eyePos d kd fuel (some t.addr) [] _ = some _ :=
      search_root ht.inMemory hfuel ⟨posInf R, objectIndex, faceIndex, -1⟩
    have hdevice := wp_searchDevice hids ht.addrs ht.cells (by decide) hfits hf₁ hrun
    rw [haddr] at hdevice
    refine wp_bind_of hdevice ?_
    rintro _ f₂ ⟨hf₂, rfl⟩
    exact wp_pure.mpr ⟨hf₂, rfl⟩

/-- Whenever the construction ends, every ray has the same result in the program and in the kernel;
there the loops stay in the tree, and the stack does not overflow. -/
theorem intersect_eq_kernel [IsStrictOrderedRing R] (scene : Scene R) (hscene : scene.Enclosed)
    (hids : scene.Numbered) :
    ewp scene.buildKdTree
      (fun _ kd => ∃ t : Tree R, t.addr = kd.root ∧ t.InMemory kd ∧
        ∀ (epsilon : R) (eyePos d : Vector3 R) (objectIndex faceIndex : Int), ∃ N r,
          ∀ fuel, N ≤ fuel →
            intersect epsilon fuel true eyePos d scene.objects objectIndex faceIndex (some kd)
              scene.extendsBox false = some r ∧
            ∃ followed : Followed, followed.Within t ∧
              intersectDevice epsilon fuel true eyePos d scene.objects objectIndex faceIndex
                (copyKdTree kd) ⟨[], []⟩ = .ok (r, followed))
      (fun e => e = .kdMem ∨ e = .objMem ∨
        e = .division ∧ 2 < scene.objects.length ∧ ¬ 0 < scene.extendsBox.calculateSA) .new := by
  refine ewp_mono (ewp_buildKdTree hscene) ?_ fun _ he => he
  rintro _ kd ⟨t, ht⟩
  refine ⟨t, ht.addr, ht.inMemory, fun epsilon eyePos d objectIndex faceIndex =>
    ⟨t.weight, _, fun fuel hfuel => ⟨intersect_eq ht.inMemory ht.addr hfuel, ?_⟩⟩⟩
  obtain ⟨_, followed, hrun, hwithin, rfl⟩ := ht.wp_intersectDevice hids hfuel
  exact ⟨followed, hwithin, hrun⟩

theorem intersect_eq_kernel_cubes :
    ewp cubes.buildKdTree
      (fun _ kd => ∃ t : Tree ℚ, t.addr = kd.root ∧ t.InMemory kd ∧
        ∀ (epsilon : ℚ) (eyePos d : Vector3 ℚ) (objectIndex faceIndex : Int), ∃ N r,
          ∀ fuel, N ≤ fuel →
            intersect epsilon fuel true eyePos d cubes.objects objectIndex faceIndex (some kd)
              cubes.extendsBox false = some r ∧
            ∃ followed : Followed, followed.Within t ∧
              intersectDevice epsilon fuel true eyePos d cubes.objects objectIndex faceIndex
                (copyKdTree kd) ⟨[], []⟩ = .ok (r, followed))
      (fun e => e = .kdMem ∨ e = .objMem ∨
        e = .division ∧ 2 < cubes.objects.length ∧ ¬ 0 < cubes.extendsBox.calculateSA) .new :=
  intersect_eq_kernel cubes cubes_solid.enclosed cubes_numbered

end CodingSample.Raytracing
