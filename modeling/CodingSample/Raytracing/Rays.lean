import CodingSample.Raytracing.Box
import Mathlib.Data.Finset.Max
import Mathlib.Data.Fintype.Basic
import Mathlib.Tactic.Ring

/-!
# A ray and a box

The parameters at which a ray is in a box form an interval. The program finds its ends among the
six planes of the faces, and takes the entry as 0 when it finds one parameter only.
-/

namespace CodingSample.Raytracing

variable {R : Type} [Field R] [LinearOrder R]

def doIntersectPlane (epsilon : R) (point norm eyePos d : Vector3 R) : R :=
  let denominator := norm 0 * d 0 + norm 1 * d 1 + norm 2 * d 2
  if |denominator| > epsilon then
    ((norm 0 * point 0 + norm 1 * point 1 + norm 2 * point 2) -
      (norm 0 * eyePos 0 + norm 1 * eyePos 1 + norm 2 * eyePos 2)) / denominator
  else -1

/-- `range` holds the bounds on the two other axes. -/
def checkRange (intersect : Vector3 R) (range : Fin 4 → R) (axis : Fin 3) : Bool :=
  match axis with
  | 0 => decide (intersect 1 ≥ range 0) && decide (intersect 1 ≤ range 1) &&
      decide (intersect 2 ≥ range 2) && decide (intersect 2 ≤ range 3)
  | 1 => decide (intersect 0 ≥ range 0) && decide (intersect 0 ≤ range 1) &&
      decide (intersect 2 ≥ range 2) && decide (intersect 2 ≤ range 3)
  | 2 => decide (intersect 0 ≥ range 0) && decide (intersect 0 ≤ range 1) &&
      decide (intersect 1 ≥ range 2) && decide (intersect 1 ≤ range 3)

def norm (axis : Fin 3) : Vector3 R := fun k => if k = axis then 1 else 0

def range (start stop : Vector3 R) : Fin 3 → Fin 4 → R
  | 0 => ![start 1, stop 1, start 2, stop 2]
  | 1 => ![start 0, stop 0, start 2, stop 2]
  | 2 => ![start 0, stop 0, start 1, stop 1]

/-- The faces in the order of `t`: for each axis the one at `start` and the one at `end`. -/
def faces : List (Fin 3 × Bool) :=
  [(0, false), (0, true), (1, false), (1, true), (2, false), (2, true)]

/-- What the loop over the faces keeps. -/
structure NearFar (R : Type) where
  min : R
  max : R
  near : R
  far : R

/-- A face point at the parameter `t` counts when `counts` holds. -/
def NearFar.update (acc : NearFar R) (t : R) (counts : Bool) : NearFar R :=
  let acc := if counts && decide (acc.min > t) then { acc with min := t, near := t } else acc
  if counts && decide (acc.max < t) then { acc with max := t, far := t } else acc

/-- The parameter of the ray in the plane of a face. -/
def faceT (epsilon : R) (eyePos d : Vector3 R) (box : AABB R) (face : Fin 3 × Bool) : R :=
  doIntersectPlane epsilon (if face.2 then box.pos + box.size else box.pos) (norm face.1) eyePos d

/-- The face is hit in front of the eye. -/
def faceHit (epsilon : R) (eyePos d : Vector3 R) (box : AABB R) (face : Fin 3 × Bool) : Bool :=
  let t := faceT epsilon eyePos d box face
  decide (t > 0) &&
    checkRange (eyePos + t • d) (range box.pos (box.pos + box.size) face.1) face.1

def NearFar.start : NearFar R := ⟨posInf R, -posInf R, -1, -1⟩

/-- The loop over the six faces. -/
def nearFar (epsilon : R) (eyePos d : Vector3 R) (box : AABB R) : NearFar R :=
  faces.foldl (fun acc face =>
    acc.update (faceT epsilon eyePos d box face) (faceHit epsilon eyePos d box face)) .start

/-- The entry `near` and the exit `far`, or `-1`. -/
def doIntersectRayKdBox (epsilon : R) (eyePos d : Vector3 R) (box : AABB R) : R × R :=
  ((nearFar epsilon eyePos d box).near, (nearFar epsilon eyePos d box).far)

/-- The parameters in front of the eye at which the ray is in the box. -/
def AABB.span (eyePos d : Vector3 R) (box : AABB R) : Set R :=
  {t | 0 < t ∧ box.contains (eyePos + t • d) = true}

variable {eyePos d : Vector3 R} {box : AABB R} {t u : R} {k : Fin 3}

theorem AABB.mem_span :
    t ∈ box.span eyePos d ↔
      0 < t ∧ ∀ k, box.pos k ≤ eyePos k + t * d k ∧ eyePos k + t * d k ≤ box.stop k := by
  exact and_congr_right fun _ => contains_iff

theorem AABB.Inside.span {box2 : AABB R} (h : box.Inside box2) :
    box.span eyePos d ⊆ box2.span eyePos d :=
  fun _ ht => ⟨ht.1, h.contains ht.2⟩

omit [Field R] in
theorem checkRange_iff {p start stop : Vector3 R} {axis : Fin 3} :
    checkRange p (range start stop axis) axis = true ↔
      ∀ k, k ≠ axis → start k ≤ p k ∧ p k ≤ stop k := by
  rw [forall_axis]
  fin_cases axis
  · simp only [checkRange, Bool.and_eq_true, decide_eq_true_eq]
    simp [range, and_assoc]
  · simp only [checkRange, Bool.and_eq_true, decide_eq_true_eq]
    simp [range, and_assoc]
  · simp only [checkRange, Bool.and_eq_true, decide_eq_true_eq]
    simp [range, and_assoc]

omit [LinearOrder R] in
theorem norm_mul_sum {axis : Fin 3} {v : Vector3 R} :
    norm axis 0 * v 0 + norm axis 1 * v 1 + norm axis 2 * v 2 = v axis := by
  fin_cases axis
  · simp [norm]
  · simp [norm]
  · simp [norm]

theorem AABB.proper_of_span [IsStrictOrderedRing R] (ht : t ∈ box.span eyePos d) :
    box.Proper := by
  intro k
  have hk := (AABB.mem_span.mp ht).2 k
  rw [AABB.stop_apply] at hk
  linarith

/-! ### The least and the greatest parameter -/

/-- What the loop has kept after the face points `ts`. -/
structure NearFar.Tracks (ts : List R) (acc : NearFar R) : Prop where
  far : ts = [] ∧ acc.max = -posInf R ∧ acc.far = -1 ∨
    acc.far ∈ ts ∧ acc.max = acc.far ∧ ∀ t ∈ ts, t ≤ acc.far
  near : acc.near = -1 ∧ acc.min = posInf R ∧ (∀ t ∈ ts, posInf R ≤ t) ∨
    acc.near ∈ ts ∧ acc.min = acc.near ∧ ∀ t ∈ ts, acc.near ≤ t

namespace NearFar

variable {ts : List R} {acc : NearFar R}

omit [Field R] in
theorem update_false : acc.update t false = acc := rfl

omit [Field R] in
theorem update_true :
    acc.update t true =
      { min := if acc.min > t then t else acc.min
        near := if acc.min > t then t else acc.near
        max := if acc.max < t then t else acc.max
        far := if acc.max < t then t else acc.far } := by
  simp only [update, Bool.true_and, decide_eq_true_eq]
  split_ifs <;> rfl

theorem Tracks.update [IsStrictOrderedRing R] (h : acc.Tracks ts) (ht : 0 < t) :
    (acc.update t true).Tracks (ts ++ [t]) := by
  have hself : t ∈ ts ++ [t] := List.mem_append_right ts (List.mem_singleton_self t)
  have hinf : -posInf R < t := lt_of_le_of_lt (neg_nonpos.mpr (Nat.cast_nonneg' _)) ht
  have hall : ∀ {P : R → Prop}, (∀ u ∈ ts, P u) → P t → ∀ u ∈ ts ++ [t], P u := by
    intro P hts hP u hu
    rcases List.mem_append.mp hu with hu | hu
    · exact hts u hu
    · rw [List.mem_singleton.mp hu]
      exact hP
  rw [update_true]
  constructor
  · refine .inr ?_
    dsimp only
    rcases h.far with ⟨hnil, hmax, -⟩ | ⟨hmem, hmax, hle⟩
    · have hlt : acc.max < t := by
        rw [hmax]
        exact hinf
      rw [if_pos hlt, if_pos hlt]
      refine ⟨hself, rfl, hall (fun u hu => ?_) le_rfl⟩
      rw [hnil] at hu
      exact absurd hu List.not_mem_nil
    · split_ifs with hlt
      · exact ⟨hself, rfl, hall (fun u hu => (hle u hu).trans (hmax ▸ hlt.le)) le_rfl⟩
      · exact ⟨List.mem_append_left _ hmem, hmax, hall hle (hmax ▸ not_lt.mp hlt)⟩
  · dsimp only
    split_ifs with hlt
    · refine .inr ⟨hself, rfl, hall (fun u hu => ?_) le_rfl⟩
      rcases h.near with ⟨-, hmin, hge⟩ | ⟨-, hmin, hge⟩
      · exact (hmin ▸ hlt.le).trans (hge u hu)
      · exact (hmin ▸ hlt.le).trans (hge u hu)
    · rcases h.near with ⟨hnear, hmin, hge⟩ | ⟨hmem, hmin, hge⟩
      · exact .inl ⟨hnear, hmin, hall hge (hmin ▸ not_lt.mp hlt)⟩
      · exact .inr ⟨List.mem_append_left _ hmem, hmin, hall hge (hmin ▸ not_lt.mp hlt)⟩

/-- The loop keeps the least and the greatest parameter of the faces that count. -/
theorem Tracks.foldl [IsStrictOrderedRing R] {ι : Type} {param : ι → R} {counts : ι → Bool}
    (hpos : ∀ i, counts i = true → 0 < param i) (l : List ι) (h : acc.Tracks ts) :
    (l.foldl (fun (acc : NearFar R) i => acc.update (param i) (counts i)) acc).Tracks
      (ts ++ (l.filter counts).map param) := by
  induction l generalizing acc ts with
  | nil =>
      rw [List.filter_nil, List.map_nil, List.append_nil]
      exact h
  | cons i l ih =>
      rw [List.foldl_cons]
      cases hi : counts i with
      | false =>
          rw [List.filter_cons_of_neg (by rw [hi]; exact Bool.false_ne_true)]
          exact ih h
      | true =>
          rw [List.filter_cons_of_pos hi, List.map_cons, List.append_cons]
          exact ih (h.update (hpos i hi))

end NearFar

variable [IsStrictOrderedRing R]

theorem mem_faces (face : Fin 3 × Bool) : face ∈ faces := by
  obtain ⟨k, side⟩ := face
  fin_cases k
  · cases side <;> decide
  · cases side <;> decide
  · cases side <;> decide

omit [IsStrictOrderedRing R] in
theorem faceT_pos {epsilon : R} {face : Fin 3 × Bool}
    (h : faceHit epsilon eyePos d box face = true) : 0 < faceT epsilon eyePos d box face := by
  rw [faceHit, Bool.and_eq_true] at h
  exact of_decide_eq_true h.1

theorem nearFar_tracks (epsilon : R) :
    (nearFar epsilon eyePos d box).Tracks
      ((faces.filter (faceHit epsilon eyePos d box)).map (faceT epsilon eyePos d box)) := by
  have hstart : (NearFar.start : NearFar R).Tracks [] :=
    ⟨.inl ⟨rfl, rfl, rfl⟩, .inl ⟨rfl, rfl, fun _ hu => absurd hu List.not_mem_nil⟩⟩
  exact hstart.foldl (fun _ => faceT_pos) faces

omit [IsStrictOrderedRing R] in
/-- The face points in front of the eye, in no order. -/
theorem mem_faceTs {epsilon : R} :
    t ∈ (faces.filter (faceHit epsilon eyePos d box)).map (faceT epsilon eyePos d box) ↔
      ∃ face, faceHit epsilon eyePos d box face = true ∧
        faceT epsilon eyePos d box face = t := by
  simp only [List.mem_map, List.mem_filter, mem_faces, true_and]

/-! ### Exact arithmetic -/

/-- The coordinate of a face. -/
def AABB.side (box : AABB R) (face : Fin 3 × Bool) : R :=
  if face.2 then box.stop face.1 else box.pos face.1

variable {face : Fin 3 × Bool}

theorem faceT_eq (face : Fin 3 × Bool) :
    faceT 0 eyePos d box face =
      if d face.1 = 0 then -1 else (box.side face - eyePos face.1) / d face.1 := by
  have hside : (if face.2 then box.pos + box.size else box.pos) face.1 = box.side face := by
    rw [AABB.side]
    split_ifs <;> rfl
  simp only [faceT, doIntersectPlane, norm_mul_sum, hside, gt_iff_lt, abs_pos, ite_not]

theorem faceT_mul (h : d face.1 ≠ 0) :
    eyePos face.1 + faceT 0 eyePos d box face * d face.1 = box.side face := by
  rw [faceT_eq, if_neg h, div_mul_cancel₀ _ h]
  ring

theorem eq_faceT (h : d face.1 ≠ 0) (ht : eyePos face.1 + t * d face.1 = box.side face) :
    faceT 0 eyePos d box face = t := by
  rw [faceT_eq, if_neg h, ← ht, add_sub_cancel_left, mul_div_cancel_right₀ _ h]

theorem AABB.Proper.side (h : box.Proper) (face : Fin 3 × Bool) :
    box.pos face.1 ≤ box.side face ∧ box.side face ≤ box.stop face.1 := by
  have hk := h face.1
  rw [AABB.side]
  split_ifs
  · exact ⟨by rw [stop_apply]; linarith, le_rfl⟩
  · exact ⟨le_rfl, by rw [stop_apply]; linarith⟩

/-- A face counts when the ray crosses its plane in front of the eye and inside the box. -/
theorem faceHit_iff (h : box.Proper) :
    faceHit 0 eyePos d box face = true ↔
      d face.1 ≠ 0 ∧ faceT 0 eyePos d box face ∈ box.span eyePos d := by
  rw [faceHit, Bool.and_eq_true, decide_eq_true_iff, checkRange_iff, AABB.mem_span]
  constructor
  · rintro ⟨hpos, hrange⟩
    have hd : d face.1 ≠ 0 := by
      intro hd
      rw [faceT_eq, if_pos hd] at hpos
      exact absurd hpos (by norm_num)
    refine ⟨hd, hpos, fun k => ?_⟩
    by_cases hk : k = face.1
    · rw [hk, faceT_mul hd]
      exact h.side face
    · exact hrange k hk
  · exact fun ⟨_, hpos, hin⟩ => ⟨hpos, fun k _ => hin k⟩

/-- The face of an axis towards which the ray moves. -/
def exitFace (d : Vector3 R) (k : Fin 3) : Fin 3 × Bool := (k, decide (0 < d k))

omit [IsStrictOrderedRing R] in
theorem side_exitFace_of_pos (h : 0 < d k) : box.side (exitFace d k) = box.stop k :=
  if_pos (decide_eq_true h)

omit [IsStrictOrderedRing R] in
theorem side_exitFace_of_neg (h : d k < 0) : box.side (exitFace d k) = box.pos k :=
  if_neg fun hpos => h.not_gt (of_decide_eq_true hpos)

/-- From inside the box the ray leaves it through a face. -/
theorem exists_exit (hd : d ≠ 0) (ht : t ∈ box.span eyePos d) :
    ∃ face, faceHit 0 eyePos d box face = true ∧ t ≤ faceT 0 eyePos d box face := by
  have hproper := AABB.proper_of_span ht
  obtain ⟨htpos, hin⟩ := AABB.mem_span.mp ht
  have hmul : ∀ k, d k ≠ 0 →
      eyePos k + faceT 0 eyePos d box (exitFace d k) * d k = box.side (exitFace d k) := by
    intro k hk
    have hface : d (exitFace d k).1 ≠ 0 := hk
    exact faceT_mul hface
  have hafter : ∀ k, d k ≠ 0 → t ≤ faceT 0 eyePos d box (exitFace d k) := by
    intro k hk
    have hmulk := hmul k hk
    have hink := hin k
    rcases hk.lt_or_gt with hneg | hpos
    · rw [side_exitFace_of_neg hneg] at hmulk
      nlinarith
    · rw [side_exitFace_of_pos hpos] at hmulk
      nlinarith
  -- the axis whose face comes first
  obtain ⟨k₀, hk₀⟩ : ∃ k, d k ≠ 0 := Function.ne_iff.mp hd
  obtain ⟨k, hk, hmin⟩ := Finset.exists_min_image (Finset.univ.filter fun k => d k ≠ 0)
    (fun k => faceT 0 eyePos d box (exitFace d k))
    ⟨k₀, Finset.mem_filter.mpr ⟨Finset.mem_univ _, hk₀⟩⟩
  replace hk := (Finset.mem_filter.mp hk).2
  refine ⟨exitFace d k, (faceHit_iff hproper).mpr ⟨hk, AABB.mem_span.mpr ⟨?_, fun j => ?_⟩⟩,
    hafter k hk⟩
  · exact htpos.trans_le (hafter k hk)
  · have hinj := hin j
    have htk := hafter k hk
    by_cases hj : d j = 0
    · rw [hj, mul_zero, add_zero] at hinj ⊢
      exact hinj
    · have hmulj := hmul j hj
      have hkj := hmin j (Finset.mem_filter.mpr ⟨Finset.mem_univ _, hj⟩)
      rcases lt_or_gt_of_ne hj with hneg | hpos
      · rw [side_exitFace_of_neg hneg] at hmulj
        constructor
        · nlinarith
        · nlinarith
      · rw [side_exitFace_of_pos hpos] at hmulj
        constructor
        · nlinarith
        · nlinarith

/-- A ray that is in the box before and after it crosses the plane of a face is not there when it
crosses: nothing comes before the entry. -/
theorem le_of_mem_span {near far : R} (hnear : d face.1 ≠ 0)
    (hplane : eyePos face.1 + near * d face.1 = box.side face) (hfar : far ∈ box.span eyePos d)
    (hlt : near < far) (ht : t ∈ box.span eyePos d) : near ≤ t := by
  by_contra hcon
  have htn := not_le.mp hcon
  have hint := (AABB.mem_span.mp ht).2 face.1
  have hinf := (AABB.mem_span.mp hfar).2 face.1
  rw [AABB.side] at hplane
  rcases lt_or_gt_of_ne hnear with hneg | hpos
  · split_ifs at hplane
    · nlinarith
    · nlinarith
  · split_ifs at hplane
    · nlinarith
    · nlinarith

/-- What `near` and `far` say about a ray that comes into the box: `far` is the last parameter in
the box, and `near`, taken as 0 when it equals `far`, comes before all of them. -/
theorem near_far_spec {near far : R} (hd : d ≠ 0) (ht : t ∈ box.span eyePos d)
    (h : doIntersectRayKdBox 0 eyePos d box = (near, far)) :
    t ≤ far ∧ 0 < far ∧ (if near = far then 0 else near) < far ∧
      (if near = far then 0 else near) ≤ t := by
  have hproper := AABB.proper_of_span ht
  have htracks : (nearFar 0 eyePos d box).Tracks _ := nearFar_tracks 0
  obtain ⟨hn, hf⟩ := Prod.mk.inj h
  obtain ⟨face, hface, hle⟩ := exists_exit hd ht
  have hmem := mem_faceTs.mpr ⟨face, hface, rfl⟩
  have htpos : 0 < t := ht.1
  obtain ⟨hfarmem, -, hfarge⟩ := htracks.far.resolve_left fun hnil => by
    rw [hnil.1] at hmem
    exact List.not_mem_nil hmem
  rw [hf] at hfarmem hfarge
  have htfar : t ≤ far := hle.trans (hfarge _ hmem)
  have hfarpos : 0 < far := htpos.trans_le htfar
  refine ⟨htfar, hfarpos, ?_⟩
  split_ifs with heq
  · exact ⟨hfarpos, htpos.le⟩
  · rcases htracks.near with ⟨hnear, -, -⟩ | ⟨hnearmem, -, -⟩
    · -- every face lies beyond the greatest number
      rw [hn] at hnear
      rw [hnear]
      have hneg : (-1 : R) < 0 := neg_one_lt_zero
      exact ⟨hneg.trans hfarpos, (hneg.trans htpos).le⟩
    · rw [hn] at hnearmem
      obtain ⟨nearFace, hnearFace, rfl⟩ := mem_faceTs.mp hnearmem
      obtain ⟨hnear, hnearin⟩ := (faceHit_iff hproper).mp hnearFace
      obtain ⟨farFace, hfarFace, rfl⟩ := mem_faceTs.mp hfarmem
      have hlt := (hfarge _ hnearmem).lt_of_ne heq
      have hfarin := ((faceHit_iff hproper).mp hfarFace).2
      exact ⟨hlt, le_of_mem_span hnear (faceT_mul hnear) hfarin hlt ht⟩

end CodingSample.Raytracing
