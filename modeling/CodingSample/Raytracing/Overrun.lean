import CodingSample.Raytracing.Memory

/-!
# The entry behind the object nodes

`allocateMem` links every object node to the one behind it and ends with a write through the pointer
that is left, which points behind the array. With room for that write, what it does is what the
construction of the tree starts from.
-/

namespace CodingSample.Raytracing

open Prog

namespace KdTree

variable {R : Type} {size n ptr : Nat} {kd : KdTree R}

/-- `setNext` through a pointer into an array of `size` object nodes. -/
def setNextAt (size ptr : Nat) (next : Option Nat) : Prog Fault (KdTree R) Unit := do
  check .objMem (decide (ptr < size))
  modify fun kd => setObjectNode ptr { kd.objMem ptr with next := next } kd

/-- The loop over the object nodes with `n` rounds left, and the write after it. -/
def linkObjectNodes (size : Nat) : Nat → Nat → Prog Fault (KdTree R) Unit
  | 0, ptr => setNextAt size ptr none
  | n + 1, ptr => do
      setNextAt size ptr (some (ptr + 1))
      linkObjectNodes size n (ptr + 1)

theorem setNextAt_of_lt {next : Option Nat} (h : ptr < size) :
    setNextAt size ptr next kd =
      .ok ((), setObjectNode ptr { kd.objMem ptr with next := next } kd) := by
  rw [setNextAt, decide_eq_true h, check_true]
  rfl

theorem setNextAt_of_le {next : Option Nat} (h : size ≤ ptr) :
    setNextAt size ptr next kd = .error .objMem := by
  rw [setNextAt, decide_eq_false (not_lt.mpr h), check_false]
  rfl

/-- The object nodes after the loop from `ptr` to `stop`. -/
def linkedMem (ptr stop : Nat) (mem : Nat → ObjectNode R) (i : Nat) : ObjectNode R :=
  if ptr ≤ i ∧ i ≤ stop then ⟨(mem i).object, if i < stop then some (i + 1) else none⟩ else mem i

def linkedUpTo (ptr stop : Nat) (kd : KdTree R) : KdTree R :=
  { kd with objMem := linkedMem ptr stop kd.objMem }

section Linking

variable {stop i : Nat} {mem : Nat → ObjectNode R}

theorem linkedMem_of_lt (hlow : ptr ≤ i) (hhigh : i < stop) :
    linkedMem ptr stop mem i = ⟨(mem i).object, some (i + 1)⟩ := by
  rw [linkedMem, if_pos (And.intro hlow hhigh.le), if_pos hhigh]

theorem linkedMem_stop (hlow : ptr ≤ stop) :
    linkedMem ptr stop mem stop = ⟨(mem stop).object, none⟩ := by
  rw [linkedMem, if_pos (And.intro hlow le_rfl), if_neg (lt_irrefl stop)]

theorem linkedMem_of_outside (h : i < ptr ∨ stop < i) : linkedMem ptr stop mem i = mem i := by
  rw [linkedMem, if_neg]
  rintro ⟨hlow, hhigh⟩
  omega

/-- The write after the loop. -/
theorem linkedMem_last :
    Function.update mem ptr ⟨(mem ptr).object, none⟩ = linkedMem ptr ptr mem := by
  funext i
  by_cases hi : i = ptr
  · rw [hi, Function.update_self, linkedMem_stop le_rfl]
  · rw [Function.update_of_ne hi, linkedMem_of_outside (lt_or_gt_of_ne hi)]

/-- One round of the loop. -/
theorem linkedMem_step (h : ptr < stop) :
    linkedMem (ptr + 1) stop (Function.update mem ptr ⟨(mem ptr).object, some (ptr + 1)⟩) =
      linkedMem ptr stop mem := by
  funext i
  rcases lt_trichotomy i ptr with hlt | rfl | hgt
  · rw [linkedMem_of_outside (.inl (hlt.trans (Nat.lt_succ_self ptr))),
      linkedMem_of_outside (.inl hlt), Function.update_of_ne hlt.ne]
  · rw [linkedMem_of_outside (.inl (Nat.lt_succ_self i)), Function.update_self,
      linkedMem_of_lt le_rfl h]
  · rcases lt_trichotomy i stop with hi | rfl | hi
    · rw [linkedMem_of_lt hgt hi, linkedMem_of_lt hgt.le hi, Function.update_of_ne hgt.ne']
    · rw [linkedMem_stop hgt, linkedMem_stop hgt.le, Function.update_of_ne hgt.ne']
    · rw [linkedMem_of_outside (.inr hi), linkedMem_of_outside (.inr hi),
        Function.update_of_ne hgt.ne']

end Linking

/-- With room for the last write the loop returns. -/
theorem linkObjectNodes_of_lt (h : ptr + n < size) :
    linkObjectNodes size n ptr kd = .ok ((), linkedUpTo ptr (ptr + n) kd) := by
  induction n generalizing ptr kd with
  | zero =>
      have hptr : ptr < size := h
      rw [linkObjectNodes, setNextAt_of_lt hptr, setObjectNode, linkedMem_last]
      rfl
  | succ n ih =>
      have hptr : ptr < size := by omega
      have hrest : ptr + 1 + n < size := by omega
      have hstop : ptr + 1 + n = ptr + (n + 1) := by omega
      have hlt : ptr < ptr + (n + 1) := by omega
      rw [linkObjectNodes, bind_eq_of_ok (setNextAt_of_lt hptr), ih hrest, hstop, linkedUpTo,
        setObjectNode, linkedMem_step hlt]
      rfl

/-- Without it, some write goes behind the array. -/
theorem linkObjectNodes_of_le (h : size ≤ ptr + n) :
    linkObjectNodes size n ptr kd = .error .objMem := by
  induction n generalizing ptr kd with
  | zero => exact setNextAt_of_le h
  | succ n ih =>
      rw [linkObjectNodes]
      rcases lt_or_ge ptr size with hlt | hge
      · have hrest : size ≤ ptr + 1 + n := by omega
        rw [bind_eq_of_ok (setNextAt_of_lt hlt)]
        exact ih hrest
      · exact bind_eq_of_error (setNextAt_of_le hge)

variable [Field R] [LinearOrder R]

/-- `allocateMem` with its writes to the object nodes, of which there are `size`. -/
def allocateMemIn (size : Nat) : Prog Fault (KdTree R) Unit := do
  modify fun kd =>
    { kd with
      kdMem := fun _ => .new
      objMem := fun _ => ⟨none, none⟩
      kdPtr := 0
      objPtr := some 0 }
  linkObjectNodes size kdtreeArraySize 0
  modify fun kd => { kd with allocated := true }

def initIn (size : Nat) : Prog Fault (KdTree R) Unit := do
  allocateMemIn size
  let root ← newKdTreeNode
  modify fun kd => { kd with root := root }

omit [LinearOrder R] in
/-- In an array with one more entry the memory is as the construction expects it. -/
theorem allocateMemIn_of_lt (h : kdtreeArraySize < size) :
    allocateMemIn size kd = .ok ((), kd.allocateMem) := by
  have hmem : linkedMem (R := R) 0 kdtreeArraySize (fun _ => ⟨none, none⟩) =
      fun i => ⟨none, if i < kdtreeArraySize then some (i + 1) else none⟩ := by
    funext i
    rcases lt_trichotomy i kdtreeArraySize with hlt | rfl | hgt
    · rw [linkedMem_of_lt (Nat.zero_le i) hlt, if_pos hlt]
    · rw [linkedMem_stop (Nat.zero_le _), if_neg (lt_irrefl _)]
    · rw [linkedMem_of_outside (.inr hgt), if_neg hgt.not_gt]
  rw [allocateMemIn, bind_eq_of_ok (modify_apply _ kd),
    bind_eq_of_ok (linkObjectNodes_of_lt ((Nat.zero_add _).trans_lt h)), modify_apply,
    Nat.zero_add, linkedUpTo, hmem]
  rfl

omit [LinearOrder R] in
theorem allocateMemIn_overrun : allocateMemIn kdtreeArraySize kd = .error .objMem := by
  rw [allocateMemIn, bind_eq_of_ok (modify_apply _ kd)]
  exact bind_eq_of_error (linkObjectNodes_of_le (Nat.zero_add _).ge)

end KdTree

variable {R : Type} [Field R] [LinearOrder R]

/-- `init` and `build` with `size` object nodes. -/
def Scene.buildKdTreeIn (size : Nat) (scene : Scene R) : Prog Fault (KdTree R) Unit := do
  KdTree.initIn size
  KdTree.build scene

/-- With one more object node the construction is the one above: what else can stop it is a pool that
is used up. -/
theorem buildKdTreeIn_of_lt {size : Nat} (h : kdtreeArraySize < size) (scene : Scene R)
    (kd : KdTree R) : scene.buildKdTreeIn size kd = scene.buildKdTree kd := by
  have hinit : KdTree.initIn size kd = KdTree.init kd := by
    rw [KdTree.initIn, bind_eq_of_ok (KdTree.allocateMemIn_of_lt h), KdTree.init,
      bind_eq_of_ok (modify_apply _ kd)]
  rw [Scene.buildKdTreeIn, Scene.buildKdTree, bind_apply, bind_apply, hinit]

/-- A fault that the source does not test for: an access outside the arrays or through a null
pointer. -/
def Fault.Overrun (e : Fault) : Prop := e = .kdMem ∨ e = .objMem ∨ e = .null

/-- `init` followed by `build` stays within the pools. -/
def Scene.WithinPools (scene : Scene R) : Prop :=
  ∀ e, scene.buildKdTreeIn kdtreeArraySize .new = .error e → ¬ e.Overrun

theorem buildKdTreeIn_overrun (scene : Scene R) (kd : KdTree R) :
    scene.buildKdTreeIn kdtreeArraySize kd = .error .objMem := by
  have hinit : KdTree.initIn kdtreeArraySize kd = .error .objMem := by
    rw [KdTree.initIn]
    exact bind_eq_of_error KdTree.allocateMemIn_overrun
  rw [Scene.buildKdTreeIn]
  exact bind_eq_of_error hinit

/-- No scene is built within the pools. -/
theorem never_within_pools (scene : Scene R) : ¬ scene.WithinPools :=
  fun h => h _ (buildKdTreeIn_overrun scene .new) (.inr (.inl rfl))

/-- Not even the scene without objects. -/
theorem empty_scene_overrun : ¬ (⟨[], ⟨fun _ => 0, fun _ => 0⟩⟩ : Scene ℚ).WithinPools := by
  intro h
  exact h _ (buildKdTreeIn_overrun _ _) (.inr (.inl rfl))

end CodingSample.Raytracing
