import CodingSample.Raytracing.Memory

/-!
# Dividing one node

A node is cut strictly inside its box or stays a leaf. Its children get the objects of its list
whose boxes intersect theirs.
-/

namespace CodingSample.Raytracing

open Prog

namespace KdTree

section Candidates

variable {R : Type} [LinearOrder R]

variable {kd kd' kd'' : KdTree R} {posStart posEnd v : R} {E : Fault → Prop}

/-! ### The candidates -/

theorem insertAfter_eq_some {c : SplitNode R} {l l' : List (SplitNode R)}
    (h : insertAfter c l = some l') :
    l'.length = l.length + 1 ∧ ∀ d ∈ l', d = c ∨ d ∈ l := by
  induction l generalizing l' with
  | nil =>
      cases h
      exact ⟨rfl, fun d hd => .inl (List.mem_singleton.mp hd)⟩
  | cons next rest ih =>
      rw [insertAfter] at h
      split at h
      · split at h
        · cases h
        · obtain ⟨rest', hrest, rfl⟩ := Option.map_eq_some_iff.mp h
          obtain ⟨hlength, hmem⟩ := ih hrest
          refine ⟨congrArg (· + 1) hlength, fun d hd => ?_⟩
          rcases List.mem_cons.mp hd with rfl | hd
          · exact .inr List.mem_cons_self
          · exact (hmem d hd).imp_right (List.mem_cons_of_mem next)
      · cases h
        exact ⟨rfl, fun d hd => List.mem_cons.mp hd⟩

/-- The candidates after some insertions: at most `k` nodes were taken from the pool, none is lost,
and every new candidate satisfies `P`. -/
structure Candidates (P : SplitNode R → Prop) (k : Nat) (kd kd' : KdTree R) : Prop where
  same : kd' = { kd with splitList := kd'.splitList, splitPool := kd'.splitPool }
  length : kd'.splitList.length + kd'.splitPool.length =
    kd.splitList.length + kd.splitPool.length
  pool : kd.splitPool.length ≤ kd'.splitPool.length + k
  mem : ∀ c ∈ kd'.splitList, c ∈ kd.splitList ∨ P c

namespace Candidates

variable {P : SplitNode R → Prop} {k k' : Nat}

omit [LinearOrder R] in
theorem refl (P : SplitNode R → Prop) (k : Nat) (kd : KdTree R) : Candidates P k kd kd :=
  ⟨rfl, rfl, Nat.le_add_right _ _, fun _ => .inl⟩

omit [LinearOrder R] in
theorem trans (h : Candidates P k kd kd') (h' : Candidates P k' kd' kd'') :
    Candidates P (k + k') kd kd'' where
  same := by
    rw [h'.same, h.same]
  length := h'.length.trans h.length
  pool := by
    have := h.pool
    have := h'.pool
    omega
  mem c hc := (h'.mem c hc).elim (h.mem c) .inr

end Candidates

theorem ewp_insertSplitPos {P : SplitNode R → Prop} (hpool : 0 < kd.splitPool.length)
    (hP : P ⟨v, 0, 0⟩) :
    ewp (insertSplitPos v) (fun _ kd' => Candidates P 1 kd kd') E kd := by
  unfold insertSplitPos
  rw [ewp_bind, ewp_get]
  cases hsp : kd.splitPool with
  | nil =>
      rw [hsp] at hpool
      exact absurd hpool (lt_irrefl _)
  | cons c pool =>
      have hnew : ∀ d ∈ [(⟨v, 0, 0⟩ : SplitNode R)], P d := by
        intro d hd
        rw [List.mem_singleton.mp hd]
        exact hP
      cases hsl : kd.splitList with
      | nil =>
          rw [ewp_modify]
          refine ⟨rfl, ?_, ?_, fun d hd => .inr (hnew d hd)⟩
          · simp only [hsl, hsp, List.length_cons, List.length_nil]
            omega
          · simp only [hsp, List.length_cons]
            exact le_rfl
      | cons first rest =>
          dsimp only
          split_ifs
          · rw [ewp_modify]
            refine ⟨rfl, ?_, ?_, ?_⟩
            · simp only [hsl, hsp, List.length_cons]
              omega
            · simp only [hsp, List.length_cons]
              exact le_rfl
            · intro d hd
              rcases List.mem_cons.mp hd with rfl | hd
              · exact .inr hP
              · rw [hsl]
                exact .inl hd
          · rw [ewp_modify]
            refine ⟨rfl, ?_, ?_, fun d hd => .inl hd⟩
            · simp only [hsp, List.length_cons]
            · simp only [hsp, List.length_cons]
              exact Nat.le_succ _
          · cases hins : insertAfter ⟨v, 0, 0⟩ rest with
            | none =>
                dsimp only
                rw [ewp_modify]
                refine ⟨rfl, ?_, ?_, fun d hd => .inl hd⟩
                · simp only [hsp, List.length_cons]
                · simp only [hsp, List.length_cons]
                  exact Nat.le_succ _
            | some rest' =>
                obtain ⟨hlength, hmem⟩ := insertAfter_eq_some hins
                dsimp only
                rw [ewp_modify]
                refine ⟨rfl, ?_, ?_, ?_⟩
                · simp only [hsl, hsp, List.length_cons, hlength]
                  omega
                · simp only [hsp, List.length_cons]
                  exact le_rfl
                · intro d hd
                  rw [hsl]
                  rcases List.mem_cons.mp hd with rfl | hd
                  · exact .inl List.mem_cons_self
                  · rcases hmem d hd with rfl | hd
                    · exact .inr hP
                    · exact .inl (List.mem_cons_of_mem first hd)

/-- A candidate as it is inserted while the box reaches from `posStart` to `posEnd`. -/
def Fresh (posStart posEnd : R) (c : SplitNode R) : Prop :=
  c.leftCount = 0 ∧ c.rightCount = 0 ∧ posStart ≤ c.splitPos ∧ c.splitPos ≤ posEnd

theorem ewp_insertWithin (hpool : 0 < kd.splitPool.length) :
    ewp (insertWithin posStart posEnd v)
      (fun _ kd' => Candidates (Fresh posStart posEnd) 1 kd kd') E kd := by
  unfold insertWithin
  split_ifs with hv
  · exact ewp_insertSplitPos hpool ⟨rfl, rfl, hv⟩
  · exact ewp_pure.mpr (Candidates.refl _ 1 kd)

end Candidates

variable {R : Type} [Field R] [LinearOrder R]

variable {kd kd' : KdTree R} {n p : Nat} {axis : Fin 3} {posStart posEnd : R}
  {objs objsL objsR : List (SceneObject R)} {E : Fault → Prop}

/-- The loop over the objects of a node returns them all and inserts their faces. -/
theorem ewp_collect {cells : List (Nat × SceneObject R)} {k : Nat} {q : Option Nat}
    (hlisted : Listed kd.objMem q cells) (hk : cells.length ≤ k)
    (hpool : 2 * cells.length ≤ kd.splitPool.length) :
    ewp (collect axis posStart posEnd k q)
      (fun slabs kd' => slabs = (cells.map Prod.snd).map (slab axis) ∧
        Candidates (Fresh posStart posEnd) (2 * cells.length) kd kd') E kd := by
  induction cells generalizing kd k q with
  | nil =>
      obtain rfl : q = none := hlisted
      rw [collect, ewp_pure]
      exact ⟨rfl, Candidates.refl _ _ kd⟩
  | cons cell cells ih =>
      obtain ⟨i, o⟩ := cell
      obtain ⟨rfl, hobject, hrest⟩ := hlisted
      rw [List.length_cons] at hk hpool
      obtain ⟨k, rfl⟩ : ∃ j, k = j + 1 := ⟨k - 1, by omega⟩
      rw [collect, ewp_bind, ewp_get, hobject]
      have hpool₀ : 0 < kd.splitPool.length := by omega
      refine ewp_bind_of (ewp_insertWithin hpool₀) fun _ kd₁ h₁ => ?_
      have hpool₁ : 0 < kd₁.splitPool.length := by
        have := h₁.pool
        omega
      refine ewp_bind_of (ewp_insertWithin hpool₁) fun _ kd₂ h₂ => ?_
      have hmem₂ : kd₂.objMem = kd.objMem := by
        rw [h₂.same, h₁.same]
      have hrest₂ : Listed kd₂.objMem (kd.objMem i).next cells := by
        rw [hmem₂]
        exact hrest
      have hpool₂ : 2 * cells.length ≤ kd₂.splitPool.length := by
        have := h₁.pool
        have := h₂.pool
        omega
      refine ewp_bind_of (ih hrest₂ (Nat.le_of_succ_le_succ hk) hpool₂) fun slabs kd₃ h₃ => ?_
      refine ewp_pure.mpr ⟨?_, ?_⟩
      · rw [h₃.1]
        rfl
      · have hall := (h₁.trans h₂).trans h₃.2
        have hcount : 1 + 1 + 2 * cells.length = 2 * (cells.length + 1) := by omega
        rw [hcount] at hall
        exact hall

omit [Field R] [LinearOrder R] in
theorem Candidates.grown {P : SplitNode R → Prop} {k : Nat} (h : Candidates P k kd kd')
    (ps : Set Nat) : Grown ps kd kd' := by
  rw [h.same]
  exact ⟨rfl, le_rfl, le_rfl, fun _ _ _ => rfl, fun _ _ => rfl⟩

omit [Field R] [LinearOrder R] in
theorem Candidates.pools {P : SplitNode R → Prop} {k : Nat} (h : Candidates P k kd kd')
    (hkd : Pools n kd) : Pools n kd' := by
  have hlength := h.length.trans hkd.splits
  rw [h.same]
  exact ⟨hkd.objPtr, hkd.objTop_le, hkd.next, hkd.kdPtr_le, hlength⟩

/-! ### The children -/

theorem ewp_distribute {left right : Nat} (hne : left ≠ right) {boxL boxR : AABB R}
    (hkd : Pools n kd) (hleft : kd.Has left objsL) (hright : kd.Has right objsR)
    (objs : List (SceneObject R)) (counts : Nat × Nat) :
    ewp (distribute axis boxL boxR left right (objs.map (slab axis)) counts)
      (fun c kd' => Pools n kd' ∧ Distributed left right kd kd' ∧
        kd'.Has left ((objs.filter fun o => o.boundingBox.intersectAABB boxL).reverse ++ objsL) ∧
        kd'.Has right ((objs.filter fun o => o.boundingBox.intersectAABB boxR).reverse ++ objsR) ∧
        c.1 = counts.1 + objs.countP (fun o => o.boundingBox.intersectAABB boxL) ∧
        c.2 = counts.2 + objs.countP (fun o => o.boundingBox.intersectAABB boxR))
      (fun e => e = .objMem) kd := by
  induction objs generalizing kd counts objsL objsR with
  | nil => exact ewp_pure.mpr ⟨hkd, ⟨Grown.refl _ kd, rfl, fun _ => rfl⟩, hleft, hright, rfl, rfl⟩
  | cons o objs ih =>
      have hmeetsL : (slab axis o).meets boxL (boxL.pos axis) (boxL.pos axis + boxL.size axis) =
          o.boundingBox.intersectAABB boxL := slab_meets rfl
      have hmeetsR : (slab axis o).meets boxR (boxR.pos axis) (boxR.pos axis + boxR.size axis) =
          o.boundingBox.intersectAABB boxR := slab_meets rfl
      have hobject : (slab axis o).object = o := rfl
      rw [List.map_cons, distribute, hmeetsL, hmeetsR, hobject]
      refine ewp_bind_of (ewp_addIf hkd) ?_
      rintro _ _ ⟨hkd₁, rfl⟩
      refine ewp_bind_of (ewp_addIf hkd₁) ?_
      rintro _ _ ⟨hkd₂, rfl⟩
      refine ewp_mono (ih hkd₂ (hleft.addIf.addIf_of_ne hne) (hright.addIf_of_ne hne.symm).addIf _)
        ?_ fun _ he => he
      rintro c kd' ⟨hpools, hdist, hleft', hright', hc₁, hc₂⟩
      rw [← reverse_filter_cons] at hleft' hright'
      refine ⟨hpools, ?_, hleft', hright', ?_, ?_⟩
      · exact ((Distributed.addIf (.inl rfl)).trans (Distributed.addIf (.inr rfl))).trans hdist
      · rw [hc₁, List.countP_cons]
        split_ifs <;> omega
      · rw [hc₂, List.countP_cons]
        split_ifs <;> omega

/-! ### The choice of the plane -/

/-- A cut strictly between two faces of a box. -/
structure CutInside (box : AABB R) (axis : Fin 3) (best : Best R) : Prop where
  area : 0 < box.calculateSA
  low : box.pos axis < best.bestpos
  high : best.bestpos < box.stop axis
  leftAABB : best.leftAABB = (box.halves axis best.bestpos).1
  rightAABB : best.rightAABB = (box.halves axis best.bestpos).2

variable [IsStrictOrderedRing R] {node : Nat} {aabb : AABB R}

/-- Among counted candidates a cut that costs no more than none runs through the inside. -/
theorem cutInside_of_cheap {l : List (SplitNode R)} {best : Best R} (hproper : aabb.Proper)
    (harea : 0 < aabb.calculateSA)
    (hobjs : ∀ o ∈ objs, o.boundingBox.intersectAABB aabb = true)
    (hinf : (objs.length : R) < posInf R) (hbest : best.min = posInf R)
    (hl : ∀ c ∈ l, Fresh (aabb.pos axis) (aabb.stop axis) c)
    (hcheap : (bestSplit (1 / aabb.calculateSA) axis (aabb.pos axis) (aabb.stop axis) best
      (aabb, aabb) (countSplits (objs.map (slab axis)) axis (aabb.pos axis) (aabb.stop axis)
        (aabb, aabb) l)).min ≤ objs.length) :
    CutInside aabb axis (bestSplit (1 / aabb.calculateSA) axis (aabb.pos axis) (aabb.stop axis) best
      (aabb, aabb) (countSplits (objs.map (slab axis)) axis (aabb.pos axis) (aabb.stop axis)
        (aabb, aabb) l)) := by
  rw [countSplits_eq_map] at hcheap ⊢
  rcases bestSplit_cases best with h | ⟨d, hd, h⟩
  · rw [h, hbest] at hcheap
    exact absurd hinf hcheap.not_gt
  · obtain ⟨c, hc, hcd⟩ := List.mem_map.mp hd
    obtain ⟨hleft, hright, hlow, hhigh⟩ := hl c hc
    rw [counted_slabs, hleft, hright, Nat.zero_add, Nat.zero_add] at hcd
    have hsplit : d.splitPos = c.splitPos := by rw [← hcd]
    rw [← hsplit] at hlow hhigh
    have hcountL : d.leftCount = objs.countP
        fun o => o.boundingBox.intersectAABB (aabb.halves axis d.splitPos).1 := by rw [← hcd]
    have hcountR : d.rightCount = objs.countP
        fun o => o.boundingBox.intersectAABB (aabb.halves axis d.splitPos).2 := by rw [← hcd]
    rw [h] at hcheap ⊢
    have hbetween := between_of_cheap hproper harea hobjs hlow hhigh hcountL hcountR hcheap
    exact ⟨harea, hbetween.1, hbetween.2, rfl, rfl⟩

/-- What the choice of the plane leaves: only the split nodes and the axis of the node change. -/
structure Chosen (node : Nat) (aabb : AABB R) (objs : List (SceneObject R)) (best : Best R)
    (n : Nat) (kd kd' : KdTree R) : Prop where
  pools : Pools n kd'
  grown : Grown {node} kd kd'
  kdPtr : kd'.kdPtr = kd.kdPtr
  objTop : kd'.objTop = kd.objTop
  objMem : kd'.objMem = kd.objMem
  node_eq : kd'.kdMem node = { kd.kdMem node with axis := splitAxis aabb.size }
  cheap : best.min ≤ objs.length → CutInside aabb (splitAxis aabb.size) best

theorem ewp_findSplit (hkd : Pools n kd) (hhas : kd.Has node objs) (hproper : aabb.Proper)
    (hobjs : ∀ o ∈ objs, o.boundingBox.intersectAABB aabb = true) (hn : 2 * objs.length ≤ n)
    (hinf : (objs.length : R) < posInf R) :
    ewp (findSplit node aabb objs.length)
      (fun r kd' => r.1 = objs.map (slab (splitAxis aabb.size)) ∧
        Chosen node aabb objs r.2 n kd kd')
      (fun e => e = .division ∧ ¬ 0 < aabb.calculateSA) kd := by
  obtain ⟨cells, hlisted, -, rfl⟩ := hhas
  rw [List.length_map] at hn
  unfold findSplit
  rw [ewp_bind, ewp_modify]
  dsimp only
  rw [ewp_bind, ewp_modify, ewp_bind, ewp_get]
  generalize hkd₁ : setNode node (fun x => { x with axis := splitAxis aabb.size }) kd.recycle = kd₁
  have hpools₁ : Pools n kd₁ := hkd₁ ▸ hkd.recycle.setNode
  have hgrown₁ : Grown {node} kd kd₁ := by
    rw [← hkd₁]
    exact (Grown.recycle {node}).trans (Grown.setNode (Set.mem_singleton node)) fun _ hq _ => hq
  have hnode₁ : kd₁.kdMem node = { kd.kdMem node with axis := splitAxis aabb.size } := by
    rw [← hkd₁, setNode_kdMem_self]
    rfl
  have hlisted₁ : Listed kd₁.objMem (kd₁.kdMem node).objList cells := by
    rw [hnode₁, ← hkd₁]
    exact hlisted
  have hempty : kd₁.splitList = [] := by
    rw [← hkd₁]
    rfl
  have hpool : 2 * cells.length ≤ kd₁.splitPool.length := by
    have hsplits := hpools₁.splits
    rw [hempty, List.length_nil] at hsplits
    omega
  refine ewp_bind_of (ewp_collect hlisted₁ (List.length_map Prod.snd).ge hpool) ?_
  rintro slabs kd₂ ⟨rfl, hcand⟩
  have hlength : (((cells.map Prod.snd).map (slab (splitAxis aabb.size))).length ==
      (cells.map Prod.snd).length) = true := by
    rw [List.length_map, beq_self_eq_true]
  rw [hlength, check_true, ewp_bind, ewp_pure, ewp_bind, ewp_modify, ewp_bind, ewp_check]
  constructor
  · intro hSA
    have harea : 0 < aabb.calculateSA :=
      hproper.calculateSA_nonneg.lt_of_ne' (of_decide_eq_true hSA)
    rw [ewp_bind, ewp_get, ewp_pure]
    have hfresh : ∀ c ∈ kd₂.splitList,
        Fresh (aabb.pos (splitAxis aabb.size)) (aabb.stop (splitAxis aabb.size)) c := by
      intro c hc
      refine (hcand.mem c hc).resolve_left fun h => ?_
      rw [hempty] at h
      exact absurd h List.not_mem_nil
    have hpools₂ := hcand.pools hpools₁
    have hgrown₂ := hgrown₁.trans (hcand.grown {node}) fun _ hq _ => hq
    have hsame : kd₂.kdMem = kd₁.kdMem ∧ kd₂.objMem = kd.objMem ∧ kd₂.kdPtr = kd.kdPtr ∧
        kd₂.objPtr = kd.objPtr := by
      rw [hcand.same, ← hkd₁]
      exact ⟨rfl, rfl, rfl, rfl⟩
    refine ⟨rfl, ⟨hpools₂.objPtr, hpools₂.objTop_le, hpools₂.next, hpools₂.kdPtr_le, ?_⟩,
      ⟨hgrown₂.root, hgrown₂.kdPtr_le, hgrown₂.objTop_le, hgrown₂.kdMem, hgrown₂.objMem⟩,
      hsame.2.2.1,
      congrArg (Option.getD · 0) hsame.2.2.2, hsame.2.1, (congrFun hsame.1 node).trans hnode₁, ?_⟩
    · rw [countSplits_eq_map, List.length_map]
      exact hpools₂.splits
    · exact cutInside_of_cheap hproper harea hobjs hinf rfl hfresh
  · intro hSA
    have hzero : aabb.calculateSA = 0 := by
      by_contra h
      rw [decide_eq_true h] at hSA
      cases hSA
    exact ⟨rfl, hzero.not_gt⟩

/-! ### One division -/

/-- A fresh node with the objects of a box. -/
structure Child (kd : KdTree R) (p : Nat) (box : AABB R) (objs : List (SceneObject R))
    (count : Nat) : Prop where
  lt : p < kd.kdPtr
  leaf : (kd.kdMem p).leaf = true
  box_eq : (kd.kdMem p).box = box
  has : kd.Has p (objs.filter fun o => o.boundingBox.intersectAABB box).reverse
  count_eq : count = (objs.filter fun o => o.boundingBox.intersectAABB box).reverse.length
  proper : box.Proper
  area : 0 < box.calculateSA

/-- A node with two children at `next` and behind it, for the objects of its own list. -/
structure Divided (node : Nat) (aabb : AABB R) (objs : List (SceneObject R)) (next : Nat)
    (kd' : KdTree R) (c : Children R) : Prop where
  left_eq : c.left = next
  kdPtr : kd'.kdPtr = next + 2
  leaf : (kd'.kdMem node).leaf = false
  left : (kd'.kdMem node).left = some c.left
  right : (kd'.kdMem node).right = some (c.left + 1)
  halves : Halves aabb (kd'.kdMem node).axis (kd'.kdMem node).split c.leftAABB c.rightAABB
  leftChild : Child kd' c.left c.leftAABB objs c.leftCount
  rightChild : Child kd' (c.left + 1) c.rightAABB objs c.rightCount

theorem ewp_makeChildren {best : Best R} (hkd : Pools n kd) (hnode : node < kd.kdPtr)
    (hproper : aabb.Proper) (hcut : CutInside aabb axis best)
    (haxis : (kd.kdMem node).axis = axis) :
    ewp (makeChildren node axis best (objs.map (slab axis)))
      (fun c kd' => Pools n kd' ∧ Grown {node} kd kd' ∧
        (kd'.kdMem node).box = (kd.kdMem node).box ∧ Divided node aabb objs kd.kdPtr kd' c)
      (fun e => e = .kdMem ∨ e = .objMem) kd := by
  unfold makeChildren
  rw [ewp_bind, ewp_modify]
  refine ewp_bind_of (ewp_mono (ewp_newKdTreeNodePair (hkd.setNode)) (fun _ _ h => h)
    fun _ he => .inl he) ?_
  rintro left kd₂ ⟨rfl, hpools₂, hgrown₂, hkdPtr₂, hnewL, hnewR⟩
  simp only [setNode_kdPtr] at hkdPtr₂ hnewL hnewR ⊢
  have hneL : node ≠ kd.kdPtr := hnode.ne
  have hneR : node ≠ kd.kdPtr + 1 := by omega
  have hnode₂ : kd₂.kdMem node = { kd.kdMem node with split := best.bestpos } := by
    rw [hgrown₂.kdMem node hnode (Set.notMem_empty node), setNode_kdMem_self]
  have hhasL : kd₂.Has kd.kdPtr [] := by
    refine ⟨[], ?_, fun c hc => absurd hc List.not_mem_nil, rfl⟩
    rw [hnewL]
    rfl
  have hhasR : kd₂.Has (kd.kdPtr + 1) [] := by
    refine ⟨[], ?_, fun c hc => absurd hc List.not_mem_nil, rfl⟩
    rw [hnewR]
    rfl
  refine ewp_bind_of (ewp_mono (ewp_distribute (Nat.lt_succ_self _).ne hpools₂ hhasL hhasR objs
    (0, 0)) (fun _ _ h => h) fun _ he => .inr he) ?_
  rintro ⟨leftCount, rightCount⟩ kd₃ ⟨hpools₃, hdist, hL, hR, hcountL, hcountR⟩
  rw [ewp_bind, ewp_modify, ewp_bind, ewp_modify, ewp_bind, ewp_modify, ewp_pure]
  have hnode₃ : kd₃.kdMem node = { kd.kdMem node with split := best.bestpos } := by
    rw [hdist.grown.kdMem node (by omega) ?_, hnode₂]
    rintro (rfl | rfl)
    · exact hneL rfl
    · exact hneR rfl
  have hleafL : (kd₃.kdMem kd.kdPtr).leaf = true := by
    rw [hdist.leaf, hnewL]
    rfl
  have hleafR : (kd₃.kdMem (kd.kdPtr + 1)).leaf = true := by
    rw [hdist.leaf, hnewR]
    rfl
  have hkdPtr₃ : kd₃.kdPtr = kd.kdPtr + 2 := hdist.kdPtr.trans hkdPtr₂
  have hgrown : Grown {node} kd (linked node kd.kdPtr best.leftAABB best.rightAABB kd₃) := by
    refine (((Grown.setNode (Set.mem_singleton node)).trans hgrown₂ ?_).trans hdist.grown ?_).trans
      Grown.linked ?_
    · exact fun q hq _ => absurd hq (Set.notMem_empty q)
    · rintro q (rfl | rfl) hq
      · exact absurd hq (lt_irrefl _)
      · exact absurd hq (Nat.lt_succ_self _).not_gt
    · rintro q (rfl | rfl | rfl) hq
      · exact Set.mem_singleton q
      · exact absurd hq (lt_irrefl _)
      · exact absurd hq (Nat.lt_succ_self _).not_gt
  have hmemN : (linked node kd.kdPtr best.leftAABB best.rightAABB kd₃).kdMem node = _ :=
    linked_kdMem_node hneL hneR
  rw [hnode₃] at hmemN
  have hmemL : (linked node kd.kdPtr best.leftAABB best.rightAABB kd₃).kdMem kd.kdPtr = _ :=
    linked_kdMem_left hneL
  have hmemR : (linked node kd.kdPtr best.leftAABB best.rightAABB kd₃).kdMem (kd.kdPtr + 1) = _ :=
    linked_kdMem_right hneR
  rw [List.append_nil] at hL hR
  have hboxN : ((linked node kd.kdPtr best.leftAABB best.rightAABB kd₃).kdMem node).box =
      (kd.kdMem node).box := by
    rw [hmemN]
  refine ⟨hpools₃.linked, hgrown, hboxN, ?_⟩
  refine ⟨rfl, hkdPtr₃, congrArg KdTreeNode.leaf hmemN, congrArg KdTreeNode.left hmemN,
    congrArg KdTreeNode.right hmemN, ?_, ?_, ?_⟩
  · change Halves aabb ((linked node kd.kdPtr best.leftAABB best.rightAABB kd₃).kdMem node).axis
      ((linked node kd.kdPtr best.leftAABB best.rightAABB kd₃).kdMem node).split best.leftAABB
      best.rightAABB
    rw [hmemN, haxis, hcut.leftAABB, hcut.rightAABB]
    exact AABB.halves_spec hcut.low.le hcut.high.le
  · refine ⟨?_, (congrArg KdTreeNode.leaf hmemL).trans hleafL, congrArg KdTreeNode.box hmemL,
      hL.linked, ?_, ?_, ?_⟩
    · exact hkdPtr₃ ▸ Nat.lt_add_of_pos_right two_pos
    · rw [List.length_reverse, ← List.countP_eq_length_filter]
      exact hcountL.trans (Nat.zero_add _)
    · rw [hcut.leftAABB]
      exact hproper.halves_left hcut.low.le
    · rw [hcut.leftAABB]
      exact AABB.calculateSA_halves_left_pos hproper hcut.area hcut.low
  · refine ⟨?_, (congrArg KdTreeNode.leaf hmemR).trans hleafR, congrArg KdTreeNode.box hmemR,
      hR.linked, ?_, ?_, ?_⟩
    · exact hkdPtr₃ ▸ Nat.lt_succ_self _
    · rw [List.length_reverse, ← List.countP_eq_length_filter]
      exact hcountR.trans (Nat.zero_add _)
    · rw [hcut.rightAABB]
      exact hproper.halves_right hcut.high.le
    · rw [hcut.rightAABB]
      exact AABB.calculateSA_halves_right_pos hproper hcut.area hcut.high

/-- The faults of the construction: a pool is used up, or a box without a surface is divided. -/
def Stops (aabb : AABB R) (e : Fault) : Prop :=
  e = .kdMem ∨ e = .objMem ∨ e = .division ∧ ¬ 0 < aabb.calculateSA

theorem ewp_divideNode (hkd : Pools n kd) (hnode : node < kd.kdPtr) (hhas : kd.Has node objs)
    (hproper : aabb.Proper) (hobjs : ∀ o ∈ objs, o.boundingBox.intersectAABB aabb = true)
    (hn : 2 * objs.length ≤ n) (hinf : (objs.length : R) < posInf R) :
    ewp (divideNode node aabb objs.length)
      (fun r kd' => Pools n kd' ∧ Grown {node} kd kd' ∧
        (kd'.kdMem node).box = (kd.kdMem node).box ∧
        match r with
        | none => (kd'.kdMem node).leaf = true ∧ kd'.Has node objs
        | some c => Divided node aabb objs kd.kdPtr kd' c)
      (Stops aabb) kd := by
  unfold divideNode
  refine ewp_bind_of (ewp_mono (ewp_findSplit hkd hhas hproper hobjs hn hinf) (fun _ _ h => h)
    fun _ he => .inr (.inr he)) ?_
  rintro ⟨parray, best⟩ kd₁ ⟨hparray, hchosen⟩
  dsimp only at hparray hchosen ⊢
  rw [hparray]
  have hbox₁ : (kd₁.kdMem node).box = (kd.kdMem node).box := by
    rw [hchosen.node_eq]
  split_ifs with hmin
  · rw [ewp_bind, ewp_modify, ewp_pure]
    refine ⟨hchosen.pools.setNode, ?_, ?_, ?_, ?_⟩
    · exact hchosen.grown.trans (Grown.setNode (Set.mem_singleton node)) fun _ hq _ => hq
    · rw [setNode_kdMem_self]
      exact hbox₁
    · rw [setNode_kdMem_self]
    · refine (hhas.of_objList hchosen.objMem ?_ hchosen.objTop).setNode fun _ => rfl
      rw [hchosen.node_eq]
  · have haxis : (kd₁.kdMem node).axis = splitAxis aabb.size := by
      rw [hchosen.node_eq]
    refine ewp_bind_of (ewp_mono (ewp_makeChildren hchosen.pools (hchosen.kdPtr ▸ hnode) hproper
      (hchosen.cheap (not_lt.mp hmin)) haxis) (fun _ _ h => h) ?_) ?_
    · rintro e (rfl | rfl)
      · exact .inl rfl
      · exact .inr (.inl rfl)
    · rintro c kd₂ ⟨hpools, hgrown, hbox, hdivided⟩
      rw [hchosen.kdPtr] at hdivided
      exact ⟨hpools, hchosen.grown.trans hgrown fun _ hq _ => hq, hbox.trans hbox₁, hdivided⟩

end KdTree

end CodingSample.Raytracing
