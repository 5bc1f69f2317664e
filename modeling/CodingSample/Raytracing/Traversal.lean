import CodingSample.Data.FrontToBack
import CodingSample.Raytracing.Intersect
import CodingSample.Raytracing.Memory

/-!
# Walking the tree

The order in which the leaves are visited is read off the tree. The loops with the stack visit the
leaves of a tree in memory in this order, and the order is the one along the ray.
-/

namespace CodingSample.Raytracing

variable {R : Type}

/-- A bound on the rounds of the loops over a tree. -/
def Tree.weight : Tree R → Nat
  | leaf _ _ cells => cells.length + 2
  | inner _ _ _ _ l r => l.weight + r.weight

theorem Tree.height_add_two_le (t : Tree R) : t.height + 2 ≤ t.weight := by
  induction t with
  | leaf _ _ cells => exact Nat.add_le_add_right (Nat.zero_le _) 2
  | inner _ _ _ _ l r ihl ihr =>
      rw [height, weight]
      omega

/-- A leaf: its box and its objects. -/
abbrev Leaf (R : Type) := AABB R × List (SceneObject R)

variable [Field R] [LinearOrder R]

/-- The leaves in the order of the visit. -/
def Tree.visit (epsilon : R) (eyePos d : Vector3 R) : Tree R → List (Leaf R)
  | leaf _ box cells => [(box, cells.map Prod.snd)]
  | inner _ box axis split l r =>
      let near := (doIntersectRayKdBox epsilon eyePos d box).1
      let far := (doIntersectRayKdBox epsilon eyePos d box).2
      let near := if near = far then 0 else near
      if (eyePos + near • d) axis ≤ split then
        if (eyePos + far • d) axis ≤ split then l.visit epsilon eyePos d
        else l.visit epsilon eyePos d ++ r.visit epsilon eyePos d
      else
        if (eyePos + far • d) axis > split then r.visit epsilon eyePos d
        else r.visit epsilon eyePos d ++ l.visit epsilon eyePos d

/-- All objects of a leaf are tested. -/
def scanObjects (eyePos d : Vector3 R) (objs : List (SceneObject R)) (acc : Hit R) : Hit R :=
  objs.foldl (fun acc o => acc.test eyePos d o o.arrayID) acc

/-- The leaves are tried one after the other. -/
def searchLeaves (epsilon : R) (eyePos d : Vector3 R) : List (Leaf R) → Hit R → R × Hit R
  | [], acc => (-1, acc)
  | l :: leaves, acc =>
      let acc := scanObjects eyePos d l.2 { acc with minT := posInf R }
      if acc.minT ≠ posInf R ∧ (l.1.enlarge epsilon).contains (eyePos + acc.minT • d) = true then
        (acc.minT, acc)
      else searchLeaves epsilon eyePos d leaves acc

/-! ### The loops visit the leaves -/

section Loops

variable {epsilon : R} {eyePos d : Vector3 R} {kd : KdTree R}

theorem scanLeaf_eq {cells : List (Nat × SceneObject R)} {p : Option Nat} {fuel : Nat}
    (hlisted : Listed kd.objMem p cells) (hfuel : cells.length < fuel) (acc : Hit R) :
    scanLeaf eyePos d kd fuel p acc = some (scanObjects eyePos d (cells.map Prod.snd) acc) := by
  induction cells generalizing p fuel acc with
  | nil =>
      obtain rfl : p = none := hlisted
      cases fuel with
      | zero => exact absurd hfuel (Nat.not_lt_zero _)
      | succ fuel => rfl
  | cons cell cells ih =>
      obtain ⟨i, o⟩ := cell
      obtain ⟨rfl, hobject, hrest⟩ := hlisted
      cases fuel with
      | zero => exact absurd hfuel (Nat.not_lt_zero _)
      | succ fuel =>
          rw [scanLeaf, hobject]
          exact ih hrest (Nat.lt_of_succ_lt_succ hfuel) _

/-- A run of the inner loop ends at the first of these leaves and leaves the subtrees with the
others on the stack. -/
def Reached (epsilon : R) (eyePos d : Vector3 R) (kd : KdTree R)
    (run : Option (Nat × List (Option Nat))) (nodeStack : List (Option Nat))
    (leaves : List (Leaf R)) (weight : Nat) : Prop :=
  ∃ a box cells, ∃ ts : List (Tree R),
    run = some (a, ts.map (fun s => some s.addr) ++ nodeStack) ∧
    (Tree.leaf a box cells).InMemory kd ∧ (∀ s ∈ ts, s.InMemory kd) ∧
    leaves = (box, cells.map Prod.snd) :: ts.flatMap (Tree.visit epsilon eyePos d) ∧
    cells.length + 2 + (ts.map Tree.weight).sum ≤ weight

namespace Reached

variable {run : Option (Nat × List (Option Nat))} {nodeStack : List (Option Nat)}
  {leaves : List (Leaf R)} {weight weight' : Nat}

theorem mono (h : Reached epsilon eyePos d kd run nodeStack leaves weight)
    (hle : weight ≤ weight') : Reached epsilon eyePos d kd run nodeStack leaves weight' := by
  obtain ⟨a, box, cells, ts, hrun, ha, hts, hleaves, hweight⟩ := h
  exact ⟨a, box, cells, ts, hrun, ha, hts, hleaves, hweight.trans hle⟩

/-- A subtree that was pushed before is visited after. -/
theorem push {t : Tree R} (ht : t.InMemory kd)
    (h : Reached epsilon eyePos d kd run (some t.addr :: nodeStack) leaves weight) :
    Reached epsilon eyePos d kd run nodeStack (leaves ++ t.visit epsilon eyePos d)
      (weight + t.weight) := by
  obtain ⟨a, box, cells, ts, hrun, ha, hts, hleaves, hweight⟩ := h
  refine ⟨a, box, cells, ts ++ [t], ?_, ha, ?_, ?_, ?_⟩
  · rw [hrun, List.map_append, List.append_assoc]
    rfl
  · intro s hs
    rcases List.mem_append.mp hs with hs | hs
    · exact hts s hs
    · rw [List.mem_singleton.mp hs]
      exact ht
  · rw [hleaves, List.flatMap_append, List.flatMap_singleton, List.cons_append]
  · rw [List.map_append, List.sum_append, List.map_singleton, List.sum_singleton]
    omega

end Reached

theorem descend_reaches {t : Tree R} {fuel : Nat} (ht : t.InMemory kd) (hfuel : t.height < fuel)
    (nodeStack : List (Option Nat)) :
    Reached epsilon eyePos d kd (descend epsilon eyePos d kd fuel (some t.addr) nodeStack) nodeStack
      (t.visit epsilon eyePos d) t.weight := by
  induction t generalizing fuel nodeStack with
  | leaf a box cells =>
      cases fuel with
      | zero => exact absurd hfuel (Nat.not_lt_zero _)
      | succ fuel =>
          refine ⟨a, box, cells, [], ?_, ht, ?_, rfl, le_rfl⟩
          · rw [Tree.addr, descend]
            exact if_pos ht.1
          · exact fun s hs => absurd hs List.not_mem_nil
  | inner a box axis split l r ihl ihr =>
      obtain ⟨hleaf, hbox, haxis, hsplit, hleft, hright, hl, hr⟩ := ht
      cases fuel with
      | zero => exact absurd hfuel (Nat.not_lt_zero _)
      | succ fuel =>
          rw [Tree.height] at hfuel
          have hfuell : l.height < fuel := by omega
          have hfuelr : r.height < fuel := by omega
          rw [Tree.addr, descend, hleaf, hbox, haxis, hsplit, hleft, hright, Tree.visit,
            Tree.weight]
          dsimp only
          rw [if_neg Bool.false_ne_true]
          generalize (if (doIntersectRayKdBox epsilon eyePos d box).1 =
            (doIntersectRayKdBox epsilon eyePos d box).2 then (0 : R) else
              (doIntersectRayKdBox epsilon eyePos d box).1) = near
          split_ifs
          · exact (ihl hl hfuell nodeStack).mono (Nat.le_add_right _ _)
          · exact (ihl hl hfuell _).push hr
          · exact (ihr hr hfuelr nodeStack).mono (Nat.le_add_left _ _)
          · rw [Nat.add_comm]
            exact (ihr hr hfuelr _).push hl

/-- The outer loop tries the leaves of the trees on the stack in order. -/
theorem search_eq {t : Tree R} {ts : List (Tree R)} {fuel : Nat}
    (hts : ∀ s ∈ t :: ts, s.InMemory kd) (hfuel : ((t :: ts).map Tree.weight).sum ≤ fuel)
    (acc : Hit R) :
    search epsilon eyePos d kd fuel (some t.addr) (ts.map fun s => some s.addr) acc =
      some (searchLeaves epsilon eyePos d ((t :: ts).flatMap (Tree.visit epsilon eyePos d))
        acc) := by
  induction fuel generalizing t ts acc with
  | zero =>
      rw [List.map_cons, List.sum_cons] at hfuel
      have := t.height_add_two_le
      omega
  | succ fuel ih =>
      rw [List.map_cons, List.sum_cons] at hfuel
      have hheight := t.height_add_two_le
      have hdepth : t.height < fuel := by omega
      have hreaches : Reached epsilon eyePos d kd _ (ts.map fun s => some s.addr) _ _ :=
        descend_reaches (hts t List.mem_cons_self) hdepth _
      obtain ⟨a, box, cells, ts', hrun, ha, hts', hleaves, hweight⟩ := hreaches
      have hcells : cells.length < fuel := by omega
      rw [search, hrun]
      change (do
        let acc ← scanLeaf eyePos d kd fuel (kd.kdMem a).objList { acc with minT := posInf R }
        _) = _
      rw [scanLeaf_eq ha.2.2 hcells, List.flatMap_cons, hleaves, List.cons_append, searchLeaves,
        ← List.flatMap_append, ← ha.2.1]
      change (if _ then _ else _) = _
      split_ifs with haccept
      · rfl
      · have hall : ∀ s ∈ ts' ++ ts, s.InMemory kd := by
          intro s hs
          rcases List.mem_append.mp hs with hs | hs
          · exact hts' s hs
          · exact hts s (List.mem_cons_of_mem t hs)
        have hsum : ((ts' ++ ts).map Tree.weight).sum ≤ fuel := by
          rw [List.map_append, List.sum_append]
          omega
        rw [← List.map_append]
        cases hstack : ts' ++ ts with
        | nil => rfl
        | cons s rest =>
            rw [hstack] at hall hsum
            exact ih hall hsum _

theorem search_root {t : Tree R} {fuel : Nat} (ht : t.InMemory kd) (hfuel : t.weight ≤ fuel)
    (acc : Hit R) :
    search epsilon eyePos d kd fuel (some t.addr) [] acc =
      some (searchLeaves epsilon eyePos d (t.visit epsilon eyePos d) acc) := by
  have hall : ∀ s ∈ [t], s.InMemory kd := fun s hs => List.mem_singleton.mp hs ▸ ht
  have hsum : (([t] : List (Tree R)).map Tree.weight).sum ≤ fuel := by
    rw [List.map_singleton, List.sum_singleton]
    exact hfuel
  rw [← List.flatMap_singleton (Tree.visit epsilon eyePos d) t]
  exact search_eq hall hsum acc

/-- What `intersect` returns when it walks a tree. -/
def intersectVisit (epsilon : R) (eyePos d : Vector3 R) (t : Tree R) (objectIndex faceIndex : Int)
    (extendsBox : AABB R) : Result R :=
  if (doIntersectRayKdBox epsilon eyePos d extendsBox).1 ≤ 0 ∧
      (doIntersectRayKdBox epsilon eyePos d extendsBox).2 ≤ 0 then ⟨-1, objectIndex, faceIndex⟩
  else
    let (resultT, acc) := searchLeaves epsilon eyePos d (t.visit epsilon eyePos d)
      ⟨posInf R, objectIndex, faceIndex, -1⟩
    ⟨resultT, acc.objectIndex, acc.faceIndex⟩

/-- With enough fuel the branch with the tree ends. -/
theorem intersect_eq {t : Tree R} (ht : t.InMemory kd) (haddr : t.addr = kd.root)
    {objects : List (SceneObject R)} {objectIndex faceIndex : Int} {extendsBox : AABB R}
    {fuel : Nat} (hfuel : t.weight ≤ fuel) :
    intersect epsilon fuel true eyePos d objects objectIndex faceIndex (some kd) extendsBox
        false = some (intersectVisit epsilon eyePos d t objectIndex faceIndex extendsBox) := by
  have huse : (true && !false) = true := rfl
  rw [intersectVisit, intersect]
  dsimp only
  rw [if_pos huse, ← haddr, search_root ht hfuel]
  split_ifs
  · rfl
  · rfl

end Loops

end CodingSample.Raytracing
