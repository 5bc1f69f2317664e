import CodingSample.Raytracing.SameHit

/-!
# Loading a scene

The extends box grows with every object that is added, and the objects are numbered in the order
they are added.
-/

namespace CodingSample.Raytracing

variable {R : Type} [Field R] [LinearOrder R]

namespace Scene

/-- The scene after `initExtends`. -/
def initExtends : Scene R := ⟨[], ⟨fun _ => posInf R, fun _ => 0⟩⟩

/-- The corner of the extends box moves to the new object. -/
def lowerPos (pos : Vector3 R) (box : AABB R) : Vector3 R :=
  fun k => if pos k > box.pos k then box.pos k else pos k

/-- `addPrimitive`, for an object whose box has been computed. -/
def addPrimitive (scene : Scene R) (obj : SceneObject R) : Scene R :=
  let extendsPos := lowerPos scene.extendsBox.pos obj.boundingBox
  let bakPos := scene.extendsBox.pos
  let bakPos :=
    if bakPos 0 = posInf R ∧ bakPos 1 = posInf R ∧ bakPos 2 = posInf R then extendsPos else bakPos
  let max := obj.boundingBox.pos + obj.boundingBox.size
  let extMax := bakPos + scene.extendsBox.size
  let extMax : Vector3 R := fun k => if extMax k < max k then max k else extMax k
  { objects := scene.objects ++ [{ obj with arrayID := scene.objects.length }]
    extendsBox := ⟨extendsPos, extMax - extendsPos⟩ }

/-- The scene with these objects. -/
def load (objs : List (SceneObject R)) : Scene R := objs.foldl addPrimitive initExtends

variable {scene : Scene R} {obj : SceneObject R} {objs : List (SceneObject R)}

/-- What holds of a scene while it is loaded. -/
structure Loaded (scene : Scene R) : Prop where
  enclosed : scene.Enclosed
  numbered : scene.Numbered
  started : scene.objects = [] ∨ scene.extendsBox.pos 0 < posInf R

omit [Field R] in
theorem lowerPos_le (pos : Vector3 R) (box : AABB R) (k : Fin 3) :
    lowerPos pos box k ≤ pos k ∧ lowerPos pos box k ≤ box.pos k := by
  rw [lowerPos]
  split_ifs with h
  · exact ⟨h.le, le_rfl⟩
  · exact ⟨le_rfl, not_lt.mp h⟩

theorem numbered_addPrimitive (h : scene.Numbered) : (scene.addPrimitive obj).Numbered := by
  intro i o hi
  change (scene.objects ++ [{ obj with arrayID := scene.objects.length }])[i]? = some o at hi
  rcases lt_or_ge i scene.objects.length with hlt | hge
  · rw [List.getElem?_append_left hlt] at hi
    exact h i o hi
  · rw [List.getElem?_append_right hge] at hi
    obtain ⟨hsub, rfl⟩ := List.getElem?_eq_some_iff.mp hi
    simp only [List.length_singleton] at hsub
    simp only [List.getElem_singleton]
    omega

theorem stop_addPrimitive (k : Fin 3) :
    obj.boundingBox.stop k ≤ (scene.addPrimitive obj).extendsBox.stop k ∧
      (scene.extendsBox.pos 0 < posInf R →
        scene.extendsBox.stop k ≤ (scene.addPrimitive obj).extendsBox.stop k) := by
  simp only [addPrimitive, AABB.stop_apply, Pi.sub_apply, Pi.add_apply, add_sub_cancel]
  have hbak : scene.extendsBox.pos 0 < posInf R → ¬ (scene.extendsBox.pos 0 = posInf R ∧
      scene.extendsBox.pos 1 = posInf R ∧ scene.extendsBox.pos 2 = posInf R) :=
    fun hlt hcon => hlt.ne hcon.1
  split_ifs with hinit hmax hmax
  · exact ⟨le_rfl, fun hlt => absurd hinit (hbak hlt)⟩
  · exact ⟨not_lt.mp hmax, fun hlt => absurd hinit (hbak hlt)⟩
  · exact ⟨le_rfl, fun _ => hmax.le⟩
  · exact ⟨not_lt.mp hmax, fun _ => le_rfl⟩

/-- The extends box covers the new object. -/
theorem inside_addPrimitive : obj.boundingBox.Inside (scene.addPrimitive obj).extendsBox :=
  fun k => ⟨(lowerPos_le _ _ k).2, (stop_addPrimitive k).1⟩

/-- The extends box covers what it covered before. -/
theorem extendsBox_addPrimitive (h : scene.extendsBox.pos 0 < posInf R) :
    scene.extendsBox.Inside (scene.addPrimitive obj).extendsBox :=
  fun k => ⟨(lowerPos_le _ _ k).1, (stop_addPrimitive k).2 h⟩

theorem Loaded.addPrimitive (h : scene.Loaded) (hproper : obj.boundingBox.Proper)
    (hpos : obj.boundingBox.pos 0 < posInf R) : (scene.addPrimitive obj).Loaded := by
  refine ⟨?_, numbered_addPrimitive h.numbered, .inr ((lowerPos_le _ _ 0).2.trans_lt hpos)⟩
  intro o ho
  rcases List.mem_append.mp ho with ho | ho
  · have hstarted := h.started.resolve_left (List.ne_nil_of_mem ho)
    obtain ⟨ho', hin⟩ := h.enclosed o ho
    exact ⟨ho', hin.trans (extendsBox_addPrimitive hstarted)⟩
  · rw [List.mem_singleton.mp ho]
    exact ⟨hproper, inside_addPrimitive⟩

/-- Every scene that is loaded encloses its objects and numbers them. -/
theorem loaded_load (hobjs : ∀ o ∈ objs, o.boundingBox.Proper ∧ o.boundingBox.pos 0 < posInf R) :
    (load objs).Loaded := by
  have hstart : (initExtends : Scene R).Loaded :=
    ⟨fun _ ho => absurd ho List.not_mem_nil, fun _ _ hi => absurd hi (by simp [initExtends]),
      .inl rfl⟩
  rw [load]
  generalize (initExtends : Scene R) = scene at hstart ⊢
  induction objs generalizing scene with
  | nil => exact hstart
  | cons o objs ih =>
      obtain ⟨hproper, hpos⟩ := hobjs o List.mem_cons_self
      exact ih (fun p hp => hobjs p (List.mem_cons_of_mem o hp)) _
        (hstart.addPrimitive hproper hpos)

/-! ### The extends box is no larger than it must be -/

/-- The box contains all the boxes, and every box that does contains it, or is at least as large
where there is nothing to contain. -/
def Smallest (box : AABB R) (boxes : List (AABB R)) : Prop :=
  (∀ b ∈ boxes, b.Inside box) ∧ ∀ c : AABB R, c.Proper → (∀ b ∈ boxes, b.Inside c) →
    (∀ k, box.size k ≤ c.size k) ∧ (boxes ≠ [] → box.Inside c)

/-- The boxes of the objects. -/
def boxes (scene : Scene R) : List (AABB R) := scene.objects.map SceneObject.boundingBox

theorem boxes_addPrimitive :
    (scene.addPrimitive obj).boxes = scene.boxes ++ [obj.boundingBox] := by
  simp [boxes, addPrimitive]

/-- While a scene is loaded, a box around the old objects and the new one contains the new extends
box. -/
theorem addPrimitive_inside {c : AABB R} (hstarted : scene.extendsBox.pos 0 < posInf R)
    (hold : scene.extendsBox.Inside c) (hnew : obj.boundingBox.Inside c) :
    (scene.addPrimitive obj).extendsBox.Inside c := by
  have hbak : ¬ (scene.extendsBox.pos 0 = posInf R ∧ scene.extendsBox.pos 1 = posInf R ∧
      scene.extendsBox.pos 2 = posInf R) := fun hinf => hstarted.ne hinf.1
  intro k
  simp only [addPrimitive, AABB.stop_apply, Pi.sub_apply, Pi.add_apply, add_sub_cancel,
    if_neg hbak]
  constructor
  · rw [lowerPos]
    split_ifs
    · exact (hnew k).1
    · exact (hold k).1
  · split_ifs
    · exact (hnew k).2
    · exact (hold k).2

variable [IsStrictOrderedRing R]

/-- The first object gives its own box. -/
theorem extendsBox_first (hstart : scene.extendsBox = (initExtends : Scene R).extendsBox)
    (hproper : obj.boundingBox.Proper) (hpos : ∀ k, obj.boundingBox.pos k < posInf R) :
    (scene.addPrimitive obj).extendsBox = obj.boundingBox := by
  have hlower : lowerPos (fun _ => posInf R) obj.boundingBox = obj.boundingBox.pos := by
    funext k
    exact if_pos (hpos k)
  simp only [addPrimitive, hstart, initExtends, hlower, and_self, if_true]
  congr 1
  funext k
  simp only [Pi.sub_apply, Pi.add_apply, add_zero]
  split_ifs with hlt
  · exact add_sub_cancel_left _ _
  · have hzero : obj.boundingBox.size k ≤ 0 := by linarith [not_lt.mp hlt]
    rw [sub_self]
    exact le_antisymm (hproper k) hzero

/-- What the extends box is while a scene is loaded. -/
def Snug (scene : Scene R) : Prop :=
  scene.boxes = [] ∧ scene.extendsBox = (initExtends : Scene R).extendsBox ∨
    scene.boxes ≠ [] ∧ scene.extendsBox.pos 0 < posInf R ∧
      (∀ b ∈ scene.boxes, b.Inside scene.extendsBox) ∧
      ∀ c : AABB R, (∀ b ∈ scene.boxes, b.Inside c) → scene.extendsBox.Inside c

theorem Snug.addPrimitive (h : scene.Snug) (hproper : obj.boundingBox.Proper)
    (hpos : ∀ k, obj.boundingBox.pos k < posInf R) : (scene.addPrimitive obj).Snug := by
  have hlast (c : AABB R) (hc : ∀ b ∈ scene.boxes ++ [obj.boundingBox], b.Inside c) :
      obj.boundingBox.Inside c := hc _ (List.mem_append_right _ List.mem_cons_self)
  rw [Snug, boxes_addPrimitive]
  refine Or.inr ⟨by simp, ?_⟩
  rcases h with ⟨hnone, hstart⟩ | ⟨-, hstarted, hall, hleast⟩
  · rw [extendsBox_first hstart hproper hpos, hnone]
    rw [hnone] at hlast
    refine ⟨hpos 0, fun b hb => ?_, hlast⟩
    rw [List.nil_append, List.mem_singleton] at hb
    rw [hb]
    exact AABB.Inside.refl _
  · refine ⟨(lowerPos_le _ _ 0).1.trans_lt hstarted, fun b hb => ?_, fun c hc => ?_⟩
    · rcases List.mem_append.mp hb with hb | hb
      · exact (hall b hb).trans (extendsBox_addPrimitive hstarted)
      · rw [List.mem_singleton.mp hb]
        exact inside_addPrimitive
    · exact addPrimitive_inside hstarted (hleast c fun b hb => hc b (List.mem_append_left _ hb))
        (hlast c hc)

theorem Snug.smallest (h : scene.Snug) : Smallest scene.extendsBox scene.boxes := by
  rcases h with ⟨hnone, hstart⟩ | ⟨-, -, hall, hleast⟩
  · rw [hnone, hstart]
    exact ⟨fun b hb => absurd hb List.not_mem_nil,
      fun c hc _ => ⟨hc, fun hne => absurd rfl hne⟩⟩
  · refine ⟨hall, fun c _ hc => ⟨fun k => ?_, fun _ => hleast c hc⟩⟩
    obtain ⟨hlow, hhigh⟩ := hleast c hc k
    rw [AABB.stop_apply, AABB.stop_apply] at hhigh
    linarith

end Scene

end CodingSample.Raytracing
