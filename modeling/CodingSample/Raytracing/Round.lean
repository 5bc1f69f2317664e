import CodingSample.Raytracing.Quadrics
import Mathlib.Order.Interval.Set.Infinite

/-!
# Exactness of the cone, the cylinder and the sphere

A line that runs along the side of the double cone makes the quadratic linear. The source then loses
its only root, which matters if the ray does not come through the base first.
-/

namespace CodingSample.Raytracing

variable {A B C s t u : ℝ} {eyePos d : Vector3 ℝ} {faceIndex : Int}

theorem along_apply (k : Fin 3) : (eyePos + t • d) k = eyePos k + t * d k := rfl

/-! ### The flat parts -/

/-- The plane of a cap. -/
theorem capT_iff {height side : ℝ} (hside : side ≠ 0) :
    0 < t ∧ t = doIntersectPlane 0 ![0, height, 0] ![0, side, 0] eyePos d ↔
      d 1 ≠ 0 ∧ 0 < t ∧ eyePos 1 + t * d 1 = height := by
  rw [← meetsPlane_iff le_rfl, MeetsPlane]
  have hdir : dot ![0, side, 0] d = side * d 1 := by simp [dot]
  have hat : dot ![0, side, 0] (eyePos + t • d) = side * (eyePos 1 + t * d 1) := by
    simp [dot]
  have hpoint : dot ![0, side, 0] ![0, height, 0] = side * height := by simp [dot]
  rw [hdir, hat, hpoint, abs_pos, mul_ne_zero_iff_left hside]
  have hcancel : side * (eyePos 1 + t * d 1) = side * height ↔ eyePos 1 + t * d 1 = height :=
    mul_right_inj' hside
  rw [hcancel]

/-- The disc test behind a plane. -/
theorem discT_iff {plane : ℝ} (inDisc : ℝ → Prop) [DecidablePred inDisc] :
    0 < t ∧ t = (if ¬ inDisc plane then -1 else plane) ↔ (0 < t ∧ t = plane) ∧ inDisc t := by
  constructor
  · rintro ⟨hpos, heq⟩
    split at heq
    · linarith
    · rename_i hin
      exact ⟨⟨hpos, heq⟩, heq ▸ not_not.mp hin⟩
  · rintro ⟨⟨hpos, rfl⟩, hin⟩
    rw [if_neg (not_not.mpr hin)]
    exact ⟨hpos, rfl⟩

/-- The cylinder skips the test if the plane is not met. -/
theorem discT_skip {plane : ℝ} (inDisc : ℝ → Prop) [DecidablePred inDisc] :
    (if plane ≠ -1 ∧ ¬ inDisc plane then -1 else plane) =
      if ¬ inDisc plane then -1 else plane := by
  by_cases hplane : plane = -1
  · simp [hplane]
  · simp [hplane]

/-- A cap: its plane and its disc. -/
theorem capDiscT_iff {height side : ℝ} (hside : side ≠ 0) :
    0 < t ∧ t =
        (let plane := doIntersectPlane 0 ![0, height, 0] ![0, side, 0] eyePos d
        let intersect := eyePos + plane • d
        if ¬ (intersect 0 * intersect 0 + intersect 2 * intersect 2 ≤ 1 / 4) then -1
        else plane) ↔
      d 1 ≠ 0 ∧ 0 < t ∧ OnDisc height (eyePos + t • d) := by
  simp only []
  rw [discT_iff (fun u => (eyePos + u • d) 0 * (eyePos + u • d) 0 +
    (eyePos + u • d) 2 * (eyePos + u • d) 2 ≤ 1 / 4), capT_iff hside, OnDisc, sq, sq]
  constructor
  · rintro ⟨⟨hne, hpos, hheight⟩, hin⟩
    exact ⟨hne, hpos, hheight, hin⟩
  · rintro ⟨hne, hpos, hheight, hin⟩
    exact ⟨⟨hne, hpos, hheight⟩, hin⟩

/-- The bottom of the cone. -/
theorem coneT_base_iff :
    0 < t ∧ t = coneT Real.sqrt 0 eyePos d 0 ↔ d 1 ≠ 0 ∧ Hits ConePart eyePos d 0 t := by
  have hside : (-1 : ℝ) ≠ 0 := by norm_num
  exact capDiscT_iff hside

/-- The bottom and the top of the cylinder. -/
theorem cylinderT_bottom_iff :
    0 < t ∧ t = cylinderT Real.sqrt 0 eyePos d 0 ↔ d 1 ≠ 0 ∧ Hits CylinderPart eyePos d 0 t := by
  have hside : (-1 : ℝ) ≠ 0 := by norm_num
  unfold cylinderT
  simp only []
  rw [discT_skip (fun u => (eyePos + u • d) 0 * (eyePos + u • d) 0 +
    (eyePos + u • d) 2 * (eyePos + u • d) 2 ≤ 1 / 4)]
  exact capDiscT_iff hside

theorem cylinderT_top_iff :
    0 < t ∧ t = cylinderT Real.sqrt 0 eyePos d 1 ↔ d 1 ≠ 0 ∧ Hits CylinderPart eyePos d 1 t := by
  unfold cylinderT
  simp only []
  rw [discT_skip (fun u => (eyePos + u • d) 0 * (eyePos + u • d) 0 +
    (eyePos + u • d) 2 * (eyePos + u • d) 2 ≤ 1 / 4)]
  exact capDiscT_iff one_ne_zero

/-! ### The round parts -/

/-- The coefficients of the quadratics. -/
noncomputable def coneA (d : Vector3 ℝ) : ℝ := d 0 * d 0 + d 2 * d 2 - 1 / 4 * d 1 * d 1

noncomputable def coneB (eyePos d : Vector3 ℝ) : ℝ :=
  2 * eyePos 0 * d 0 + 2 * eyePos 2 * d 2 - 1 / 2 * eyePos 1 * d 1 + 1 / 4 * d 1

noncomputable def coneC (eyePos : Vector3 ℝ) : ℝ :=
  eyePos 0 * eyePos 0 + eyePos 2 * eyePos 2 - 1 / 4 * eyePos 1 * eyePos 1 + 1 / 4 * eyePos 1 -
    1 / 16

noncomputable def cylinderA (d : Vector3 ℝ) : ℝ := d 0 * d 0 + d 2 * d 2

noncomputable def cylinderB (eyePos d : Vector3 ℝ) : ℝ := 2 * eyePos 0 * d 0 + 2 * eyePos 2 * d 2

noncomputable def cylinderC (eyePos : Vector3 ℝ) : ℝ :=
  eyePos 0 * eyePos 0 + eyePos 2 * eyePos 2 - 1 / 4

theorem coneT_side : coneT Real.sqrt 0 eyePos d 1 =
    sideT Real.sqrt 0 (coneA d) (coneB eyePos d) (coneC eyePos) eyePos d := rfl

theorem cylinderT_side : cylinderT Real.sqrt 0 eyePos d 2 =
    sideT Real.sqrt 0 (cylinderA d) (cylinderB eyePos d) (cylinderC eyePos) eyePos d := rfl

theorem cone_value : coneA d * t ^ 2 + coneB eyePos d * t + coneC eyePos =
    (eyePos + t • d) 0 ^ 2 + (eyePos + t • d) 2 ^ 2 - ((1 / 2 - (eyePos + t • d) 1) / 2) ^ 2 := by
  simp only [along_apply, coneA, coneB, coneC]
  ring

theorem cylinder_value : cylinderA d * t ^ 2 + cylinderB eyePos d * t + cylinderC eyePos =
    (eyePos + t • d) 0 ^ 2 + (eyePos + t • d) 2 ^ 2 - 1 / 4 := by
  simp only [along_apply, cylinderA, cylinderB, cylinderC]
  ring

/-- The side of the cone is met at the roots between the caps. -/
theorem cone_hits_side_iff : Hits ConePart eyePos d 1 t ↔
    0 < t ∧ coneA d * t ^ 2 + coneB eyePos d * t + coneC eyePos = 0 ∧
      -1 / 2 ≤ eyePos 1 + t * d 1 ∧ eyePos 1 + t * d 1 ≤ 1 / 2 := by
  rw [cone_value, sub_eq_zero]
  constructor
  · rintro ⟨hpos, hlow, hhigh, hround⟩
    exact ⟨hpos, hround, hlow, hhigh⟩
  · rintro ⟨hpos, hround, hlow, hhigh⟩
    exact ⟨hpos, hlow, hhigh, hround⟩

theorem cylinder_hits_side_iff : Hits CylinderPart eyePos d 2 t ↔
    0 < t ∧ cylinderA d * t ^ 2 + cylinderB eyePos d * t + cylinderC eyePos = 0 ∧
      -1 / 2 ≤ eyePos 1 + t * d 1 ∧ eyePos 1 + t * d 1 ≤ 1 / 2 := by
  rw [cylinder_value, sub_eq_zero]
  constructor
  · rintro ⟨hpos, hlow, hhigh, hround⟩
    exact ⟨hpos, hround, hlow, hhigh⟩
  · rintro ⟨hpos, hround, hlow, hhigh⟩
    exact ⟨hpos, hlow, hhigh, hround⟩

/-- Every positive parameter of the cone is a hit. -/
theorem coneT_sound (i : Fin 2) (h : 0 < coneT Real.sqrt 0 eyePos d i) :
    Hits ConePart eyePos d i (coneT Real.sqrt 0 eyePos d i) := by
  fin_cases i
  · exact (coneT_base_iff.mp ⟨h, rfl⟩).2
  · obtain ⟨-, hroot, hbetween⟩ := sideT_sound (coneT_side ▸ h)
    exact cone_hits_side_iff.mpr ⟨h, hroot, hbetween⟩

theorem cylinderT_sound (i : Fin 3) (h : 0 < cylinderT Real.sqrt 0 eyePos d i) :
    Hits CylinderPart eyePos d i (cylinderT Real.sqrt 0 eyePos d i) := by
  fin_cases i
  · exact (cylinderT_bottom_iff.mp ⟨h, rfl⟩).2
  · exact (cylinderT_top_iff.mp ⟨h, rfl⟩).2
  · obtain ⟨-, hroot, hbetween⟩ := sideT_sound (cylinderT_side ▸ h)
    exact cylinder_hits_side_iff.mpr ⟨h, hroot, hbetween⟩

/-! ### Rays with finitely many hits -/

theorem infinite_of_open {hits : Set ℝ} {near : ℝ → Prop} (hopen : IsOpen {t | near t})
    (hsub : ∀ t, near t → t ∈ hits) (hu : near u) : hits.Infinite :=
  (infinite_of_mem_nhds u (hopen.mem_nhds hu)).mono hsub

/-- A ray in the plane of a cap, with finitely many points on it, touches the rim only. -/
theorem rim_of_finite {height : ℝ} (hflat : d 1 = 0) (hpos : 0 < u)
    (h : OnDisc height (eyePos + u • d))
    (hfinite : {t : ℝ | 0 < t ∧ OnDisc height (eyePos + t • d)}.Finite) :
    (eyePos + u • d) 0 ^ 2 + (eyePos + u • d) 2 ^ 2 = 1 / 4 := by
  by_contra hne
  have hlt : (eyePos + u • d) 0 ^ 2 + (eyePos + u • d) 2 ^ 2 < 1 / 4 := h.2.lt_of_ne hne
  have hopen : IsOpen {t : ℝ | 0 < t ∧
      (eyePos 0 + t * d 0) ^ 2 + (eyePos 2 + t * d 2) ^ 2 < 1 / 4} := by
    have hcont : Continuous fun t : ℝ =>
        (eyePos 0 + t * d 0) ^ 2 + (eyePos 2 + t * d 2) ^ 2 := by fun_prop
    exact (isOpen_lt continuous_const continuous_id).inter (isOpen_lt hcont continuous_const)
  refine infinite_of_open hopen (fun t ht => ?_) ⟨hpos, hlt⟩ hfinite
  have hheight : eyePos 1 + u * d 1 = height := h.1
  rw [hflat, mul_zero] at hheight
  refine ⟨ht.1, ?_, ht.2.le⟩
  rw [along_apply, hflat, mul_zero, hheight]

/-- A ray along the axis never has just one point on the side of the cylinder. -/
theorem upright_infinite (hup : d 1 ≠ 0) (hpos : 0 < u) (hlow : -1 / 2 ≤ eyePos 1 + u * d 1)
    (hhigh : eyePos 1 + u * d 1 ≤ 1 / 2) :
    {t : ℝ | 0 < t ∧ -1 / 2 ≤ eyePos 1 + t * d 1 ∧ eyePos 1 + t * d 1 ≤ 1 / 2}.Infinite := by
  have hscale : 0 < |d 1| := abs_pos.mpr hup
  have hbetween (t : ℝ) : |t - -eyePos 1 / d 1| ≤ 1 / 2 / |d 1| ↔
      -1 / 2 ≤ eyePos 1 + t * d 1 ∧ eyePos 1 + t * d 1 ≤ 1 / 2 := by
    have hheight : (t - -eyePos 1 / d 1) * d 1 = eyePos 1 + t * d 1 := by
      field_simp
      ring
    rw [le_div_iff₀ hscale, ← abs_mul, hheight, abs_le, neg_div]
  have hu := (hbetween u).mpr ⟨hlow, hhigh⟩
  rw [abs_le] at hu
  have hgap : 0 < 1 / 2 / |d 1| := div_pos one_half_pos hscale
  have hlt : max (-eyePos 1 / d 1 - 1 / 2 / |d 1|) 0 < -eyePos 1 / d 1 + 1 / 2 / |d 1| := by
    apply max_lt <;> linarith [hu.2]
  apply (Set.Ioo_infinite hlt).mono
  rintro t ⟨hleft, hright⟩
  have hpos : 0 < t := (le_max_right _ _).trans_lt hleft
  have hmin := (le_max_left _ _).trans_lt hleft
  refine ⟨hpos, (hbetween t).mp (abs_le.mpr ⟨?_, ?_⟩)⟩ <;> linarith

/-- Only finitely many roots, unless all coefficients are zero. -/
theorem roots_finite (hC : C ≠ 0) : {t : ℝ | A * t ^ 2 + B * t + C = 0}.Finite := by
  by_cases hA : A = 0
  · apply (Set.finite_singleton (-C / B)).subset
    intro t ht
    have hlinear : B * t = -C := by
      have hroot : A * t ^ 2 + B * t + C = 0 := ht
      rw [hA, zero_mul, zero_add] at hroot
      linarith
    have hB : B ≠ 0 := by
      rintro rfl
      rw [zero_mul] at hlinear
      exact hC (by linarith)
    rw [Set.mem_singleton_iff, eq_div_iff hB, mul_comm, hlinear]
  · apply (Set.toFinite {(-B + √(B * B - 4 * A * C)) / (2 * A),
      (-B - √(B * B - 4 * A * C)) / (2 * A)}).subset
    intro t ht
    exact ((root_iff hA).mp ht).2

/-- A level ray moves sideways. -/
theorem level_pos (hd : d ≠ 0) (hflat : d 1 = 0) : 0 < d 0 * d 0 + d 2 * d 2 := by
  have hsum := add_nonneg (mul_self_nonneg (d 0)) (mul_self_nonneg (d 2))
  refine hsum.lt_of_ne fun hzero => hd ?_
  obtain ⟨hx0, hz0⟩ := mul_self_add_mul_self_eq_zero.mp hzero.symm
  funext k
  fin_cases k
  · exact hx0
  · exact hflat
  · exact hz0

/-- Up to a time at which a quadratic is not negative, it has a root unless it starts and ends
negative. -/
theorem value_or_root (hC : C < 0) (hs : 0 < s) :
    A * s ^ 2 + B * s + C ≤ 0 ∨ ∃ t, 0 < t ∧ t ≤ s ∧ A * t ^ 2 + B * t + C = 0 := by
  rcases le_total (A * s ^ 2 + B * s + C) 0 with hneg | hpos
  · exact Or.inl hneg
  · exact Or.inr (exists_root hC hs hpos)

/-! ### The cone -/

theorem cone_side_covered (hA : coneA d ≠ 0) (h : Hits ConePart eyePos d 1 u) :
    ∃ i, 0 < coneT Real.sqrt 0 eyePos d i ∧ coneT Real.sqrt 0 eyePos d i ≤ u := by
  obtain ⟨hpos, hroot, hlow, hhigh⟩ := cone_hits_side_iff.mp h
  refine ⟨1, ?_⟩
  rw [coneT_side]
  exact sideT_least hA hpos hroot hlow hhigh

theorem cone_base_covered (hd : d ≠ 0) (hfinite : {t | ∃ i, Hits ConePart eyePos d i t}.Finite)
    (h : Hits ConePart eyePos d 0 u) :
    ∃ i, 0 < coneT Real.sqrt 0 eyePos d i ∧ coneT Real.sqrt 0 eyePos d i ≤ u := by
  by_cases hflat : d 1 = 0
  · have hrim := rim_of_finite hflat h.1 h.2 (hfinite.subset fun t ht => ⟨0, ht⟩)
    have hheight : (eyePos + u • d) 1 = -1 / 2 := h.2.1
    have hside : Hits ConePart eyePos d 1 u := by
      refine ⟨h.1, hheight.ge, ?_, ?_⟩
      · rw [hheight]
        norm_num
      · rw [hrim, hheight]
        norm_num
    have hA : coneA d ≠ 0 := by
      have hpos := level_pos hd hflat
      unfold coneA
      rw [hflat]
      linarith
    exact cone_side_covered hA hside
  · obtain ⟨hpos, heq⟩ := coneT_base_iff.mpr ⟨hflat, h⟩
    exact ⟨0, heq ▸ hpos, heq.ge⟩

/-- The least hit is among the parameters, unless the side is met along itself first. -/
theorem cone_covered_iff (hd : d ≠ 0) (hfinite : {t | ∃ i, Hits ConePart eyePos d i t}.Finite) :
    (∀ j u, Hits ConePart eyePos d j u →
        ∃ i, 0 < coneT Real.sqrt 0 eyePos d i ∧ coneT Real.sqrt 0 eyePos d i ≤ u) ↔
      (coneA d = 0 → ∀ t, Hits ConePart eyePos d 1 t → ∃ t' ≤ t, Hits ConePart eyePos d 0 t') := by
  constructor
  · intro h hA t ht
    obtain ⟨i, hpos, hle⟩ := h 1 t ht
    refine ⟨_, hle, ?_⟩
    fin_cases i
    · exact coneT_sound 0 hpos
    · exact absurd hA (sideT_sound (coneT_side ▸ hpos)).1
  · intro h j u hu
    have hbase := fun u hu => cone_base_covered (u := u) hd hfinite hu
    fin_cases j
    · exact hbase u hu
    · by_cases hA : coneA d = 0
      · obtain ⟨t', hle, ht'⟩ := h hA u hu
        obtain ⟨i, hpos, hi⟩ := hbase t' ht'
        exact ⟨i, hpos, hi.trans hle⟩
      · exact cone_side_covered hA hu

theorem checkCone_inside (h : checkCone Real.sqrt eyePos = true) :
    -1 / 2 < eyePos 1 ∧ eyePos 1 < 1 / 2 ∧ coneC eyePos < 0 := by
  unfold checkCone at h
  split_ifs at h with hbetween
  obtain ⟨hlow, hhigh⟩ := hbetween
  have hradius : (0 : ℝ) < 1 / 4 - 1 / 2 * eyePos 1 := by linarith
  have hlength := of_decide_eq_true h
  unfold Vector3.length at hlength
  rw [Real.sqrt_lt' hradius] at hlength
  refine ⟨hlow, hhigh, ?_⟩
  have hvalue : eyePos 0 * eyePos 0 + 0 * 0 + eyePos 2 * eyePos 2 <
      (1 / 4 - 1 / 2 * eyePos 1) ^ 2 := hlength
  unfold coneC
  linarith [sq (1 / 4 - 1 / 2 * eyePos 1)]

/-- From inside, the ray has finitely many hits. -/
theorem cone_inside_finite (hlow : -1 / 2 < eyePos 1) (hC : coneC eyePos < 0) :
    {t | ∃ i, Hits ConePart eyePos d i t}.Finite := by
  have hside := roots_finite (A := coneA d) (B := coneB eyePos d) hC.ne
  apply (hside.union (Set.finite_singleton ((-1 / 2 - eyePos 1) / d 1))).subset
  rintro t ⟨i, hi⟩
  fin_cases i
  · refine Or.inr ?_
    have hheight : eyePos 1 + t * d 1 = -1 / 2 := hi.2.1
    have hup : d 1 ≠ 0 := by
      intro hflat
      rw [hflat, mul_zero, add_zero] at hheight
      exact absurd hheight hlow.ne'
    rw [Set.mem_singleton_iff, eq_div_iff hup]
    linarith
  · exact Or.inl (cone_hits_side_iff.mp hi).2.1

/-- From inside, every ray leaves the cone. -/
theorem cone_inside_hits (hd : d ≠ 0) (hlow : -1 / 2 < eyePos 1) (hhigh : eyePos 1 < 1 / 2)
    (hC : coneC eyePos < 0) : ∃ i t, Hits ConePart eyePos d i t := by
  rcases lt_trichotomy (d 1) 0 with hdown | hflat | hup
  · have hs : 0 < (-1 / 2 - eyePos 1) / d 1 := div_pos_of_neg_of_neg (by linarith) hdown
    have hheight : eyePos 1 + (-1 / 2 - eyePos 1) / d 1 * d 1 = -1 / 2 := by
      rw [div_mul_cancel₀ _ hdown.ne]
      ring
    rcases value_or_root (A := coneA d) (B := coneB eyePos d) hC hs with
      hneg | ⟨t, hpos, hle, hroot⟩
    · refine ⟨0, _, hs, hheight, ?_⟩
      rw [cone_value, along_apply 1, hheight] at hneg
      norm_num at hneg ⊢
      linarith
    · have hbelow := mul_le_mul_of_nonpos_right hle hdown.le
      have habove := mul_nonpos_of_nonneg_of_nonpos hpos.le hdown.le
      exact ⟨1, t, cone_hits_side_iff.mpr ⟨hpos, hroot, by linarith, by linarith⟩⟩
  · have hA : 0 < coneA d := by
      have hpos := level_pos hd hflat
      unfold coneA
      rw [hflat]
      linarith
    obtain ⟨t, hpos, hroot⟩ := exists_root_of_pos (B := coneB eyePos d) hA hC
    refine ⟨1, t, cone_hits_side_iff.mpr ⟨hpos, hroot, ?_, ?_⟩⟩ <;>
      rw [hflat, mul_zero, add_zero]
    · exact hlow.le
    · exact hhigh.le
  · have hs : 0 < (1 / 2 - eyePos 1) / d 1 := div_pos (by linarith) hup
    have hheight : eyePos 1 + (1 / 2 - eyePos 1) / d 1 * d 1 = 1 / 2 := by
      rw [div_mul_cancel₀ _ hup.ne']
      ring
    have hvalue : 0 ≤ coneA d * ((1 / 2 - eyePos 1) / d 1) ^ 2 +
        coneB eyePos d * ((1 / 2 - eyePos 1) / d 1) + coneC eyePos := by
      rw [cone_value, along_apply 1, hheight, sub_self, zero_div, zero_pow two_ne_zero, sub_zero]
      exact add_nonneg (sq_nonneg _) (sq_nonneg _)
    obtain ⟨t, hpos, hle, hroot⟩ := exists_root hC hs hvalue
    have hbelow := mul_le_mul_of_nonneg_right hle hup.le
    have habove := mul_nonneg hpos.le hup.le
    exact ⟨1, t, cone_hits_side_iff.mpr ⟨hpos, hroot, by linarith, by linarith⟩⟩

/-! ### The cylinder -/

theorem cylinder_side_covered (hA : cylinderA d ≠ 0) (h : Hits CylinderPart eyePos d 2 u) :
    ∃ i, 0 < cylinderT Real.sqrt 0 eyePos d i ∧ cylinderT Real.sqrt 0 eyePos d i ≤ u := by
  obtain ⟨hpos, hroot, hlow, hhigh⟩ := cylinder_hits_side_iff.mp h
  refine ⟨2, ?_⟩
  rw [cylinderT_side]
  exact sideT_least hA hpos hroot hlow hhigh

/-- A level ray touches a cap at its rim, which the side has too. -/
theorem cylinder_rim_covered (hd : d ≠ 0) (hflat : d 1 = 0) (hpos : 0 < u)
    (hlow : -1 / 2 ≤ (eyePos + u • d) 1) (hhigh : (eyePos + u • d) 1 ≤ 1 / 2)
    (hrim : (eyePos + u • d) 0 ^ 2 + (eyePos + u • d) 2 ^ 2 = 1 / 4) :
    ∃ i, 0 < cylinderT Real.sqrt 0 eyePos d i ∧ cylinderT Real.sqrt 0 eyePos d i ≤ u :=
  cylinder_side_covered (level_pos hd hflat).ne' ⟨hpos, hlow, hhigh, hrim⟩

/-- The least hit is among the parameters. -/
theorem cylinder_covered (hd : d ≠ 0)
    (hfinite : {t | ∃ i, Hits CylinderPart eyePos d i t}.Finite) (j : Fin 3)
    (h : Hits CylinderPart eyePos d j u) :
    ∃ i, 0 < cylinderT Real.sqrt 0 eyePos d i ∧ cylinderT Real.sqrt 0 eyePos d i ≤ u := by
  fin_cases j
  · by_cases hflat : d 1 = 0
    · have hrim := rim_of_finite hflat h.1 h.2 (hfinite.subset fun t ht => ⟨0, ht⟩)
      have hheight : (eyePos + u • d) 1 = -1 / 2 := h.2.1
      exact cylinder_rim_covered hd hflat h.1 hheight.ge (by rw [hheight]; norm_num) hrim
    · obtain ⟨hpos, heq⟩ := cylinderT_bottom_iff.mpr ⟨hflat, h⟩
      exact ⟨0, heq ▸ hpos, heq.ge⟩
  · by_cases hflat : d 1 = 0
    · have hrim := rim_of_finite hflat h.1 h.2 (hfinite.subset fun t ht => ⟨1, ht⟩)
      have hheight : (eyePos + u • d) 1 = 1 / 2 := h.2.1
      exact cylinder_rim_covered hd hflat h.1 (by rw [hheight]; norm_num) hheight.le hrim
    · obtain ⟨hpos, heq⟩ := cylinderT_top_iff.mpr ⟨hflat, h⟩
      exact ⟨1, heq ▸ hpos, heq.ge⟩
  · apply cylinder_side_covered _ h
    intro hA
    obtain ⟨hpos, hlow, hhigh, hround⟩ := h
    obtain ⟨hx, hz⟩ : d 0 = 0 ∧ d 2 = 0 := mul_self_add_mul_self_eq_zero.mp hA
    have hup : d 1 ≠ 0 := fun hflat => (level_pos hd hflat).ne' hA
    refine upright_infinite hup hpos hlow hhigh (hfinite.subset ?_)
    rintro t ⟨htpos, htlow, hthigh⟩
    refine ⟨2, htpos, htlow, hthigh, ?_⟩
    rw [along_apply, along_apply, hx, hz] at hround ⊢
    simpa using hround

theorem checkCylinder_inside (h : checkCylinder Real.sqrt eyePos = true) :
    -1 / 2 < eyePos 1 ∧ eyePos 1 < 1 / 2 ∧ cylinderC eyePos < 0 := by
  unfold checkCylinder at h
  rw [Bool.and_eq_true, Bool.and_eq_true, decide_eq_true_eq, decide_eq_true_eq,
    decide_eq_true_eq] at h
  obtain ⟨⟨hlength, hlow⟩, hhigh⟩ := h
  unfold Vector3.length at hlength
  rw [Real.sqrt_lt' one_half_pos] at hlength
  refine ⟨hlow, hhigh, ?_⟩
  have hvalue : eyePos 0 * eyePos 0 + 0 * 0 + eyePos 2 * eyePos 2 < (1 / 2) ^ 2 := hlength
  unfold cylinderC
  linarith

/-- From inside, every ray leaves through a cap or the side. -/
theorem cylinder_inside_hits (hd : d ≠ 0) (hlow : -1 / 2 < eyePos 1) (hhigh : eyePos 1 < 1 / 2)
    (hC : cylinderC eyePos < 0) : ∃ i t, Hits CylinderPart eyePos d i t := by
  have hside {t : ℝ} (hpos : 0 < t)
      (hroot : cylinderA d * t ^ 2 + cylinderB eyePos d * t + cylinderC eyePos = 0)
      (hlow : -1 / 2 ≤ eyePos 1 + t * d 1) (hhigh : eyePos 1 + t * d 1 ≤ 1 / 2) :
      ∃ i t, Hits CylinderPart eyePos d i t :=
    ⟨2, t, cylinder_hits_side_iff.mpr ⟨hpos, hroot, hlow, hhigh⟩⟩
  rcases lt_trichotomy (d 1) 0 with hdown | hflat | hup
  · have hs : 0 < (-1 / 2 - eyePos 1) / d 1 := div_pos_of_neg_of_neg (by linarith) hdown
    have hheight : eyePos 1 + (-1 / 2 - eyePos 1) / d 1 * d 1 = -1 / 2 := by
      rw [div_mul_cancel₀ _ hdown.ne]
      ring
    rcases value_or_root (A := cylinderA d) (B := cylinderB eyePos d) hC hs with
      hneg | ⟨t, hpos, hle, hroot⟩
    · refine ⟨0, _, hs, hheight, ?_⟩
      rw [cylinder_value] at hneg
      exact sub_nonpos.mp hneg
    · have hbelow := mul_le_mul_of_nonpos_right hle hdown.le
      have habove := mul_nonpos_of_nonneg_of_nonpos hpos.le hdown.le
      exact hside hpos hroot (by linarith) (by linarith)
  · obtain ⟨t, hpos, hroot⟩ :=
      exists_root_of_pos (B := cylinderB eyePos d) (level_pos hd hflat) hC
    have hheight : eyePos 1 + t * d 1 = eyePos 1 := by rw [hflat, mul_zero, add_zero]
    exact hside hpos hroot (hlow.le.trans hheight.ge) (hheight.le.trans hhigh.le)
  · have hs : 0 < (1 / 2 - eyePos 1) / d 1 := div_pos (by linarith) hup
    have hheight : eyePos 1 + (1 / 2 - eyePos 1) / d 1 * d 1 = 1 / 2 := by
      rw [div_mul_cancel₀ _ hup.ne']
      ring
    rcases value_or_root (A := cylinderA d) (B := cylinderB eyePos d) hC hs with
      hneg | ⟨t, hpos, hle, hroot⟩
    · refine ⟨1, _, hs, hheight, ?_⟩
      rw [cylinder_value] at hneg
      exact sub_nonpos.mp hneg
    · have hbelow := mul_le_mul_of_nonneg_right hle hup.le
      have habove := mul_nonneg hpos.le hup.le
      exact hside hpos hroot (by linarith) (by linarith)

/-- From inside, the ray has finitely many hits. -/
theorem cylinder_inside_finite (hlow : -1 / 2 < eyePos 1) (hhigh : eyePos 1 < 1 / 2)
    (hC : cylinderC eyePos < 0) : {t | ∃ i, Hits CylinderPart eyePos d i t}.Finite := by
  have hside := roots_finite (A := cylinderA d) (B := cylinderB eyePos d) hC.ne
  have hcaps := Set.toFinite {(-1 / 2 - eyePos 1) / d 1, (1 / 2 - eyePos 1) / d 1}
  have hcap {t height : ℝ} (hne : eyePos 1 ≠ height) (hheight : eyePos 1 + t * d 1 = height) :
      t = (height - eyePos 1) / d 1 := by
    have hup : d 1 ≠ 0 := by
      intro hflat
      rw [hflat, mul_zero, add_zero] at hheight
      exact hne hheight
    rw [eq_div_iff hup]
    linarith
  apply (hside.union hcaps).subset
  rintro t ⟨i, hi⟩
  fin_cases i
  · exact Or.inr (Or.inl (hcap hlow.ne' hi.2.1))
  · exact Or.inr (Or.inr (hcap hhigh.ne hi.2.1))
  · exact Or.inl (cylinder_hits_side_iff.mp hi).2.1

/-! ### The sphere -/

theorem doIntersectUnitSphere_eq : doIntersectUnitSphere Real.sqrt eyePos d =
    (let A := d 0 * d 0 + d 1 * d 1 + d 2 * d 2
    let B := 2 * eyePos 0 * d 0 + 2 * eyePos 1 * d 1 + 2 * eyePos 2 * d 2
    let C := eyePos 0 * eyePos 0 + eyePos 1 * eyePos 1 + eyePos 2 * eyePos 2 - 1 / 4
    let t := sideT Real.sqrt 0 A B C 0 0
    if t > 0 then t else -1) := by
  have hkeep (u : ℝ) : inHeight 0 0 0 u = u := inHeight_of_between (by norm_num) (by norm_num)
  unfold doIntersectUnitSphere sideT
  simp only [hkeep]

theorem sphere_value :
    (d 0 * d 0 + d 1 * d 1 + d 2 * d 2) * t ^ 2 +
        (2 * eyePos 0 * d 0 + 2 * eyePos 1 * d 1 + 2 * eyePos 2 * d 2) * t +
        (eyePos 0 * eyePos 0 + eyePos 1 * eyePos 1 + eyePos 2 * eyePos 2 - 1 / 4) =
      (eyePos + t • d) 0 ^ 2 + (eyePos + t • d) 1 ^ 2 + (eyePos + t • d) 2 ^ 2 - 1 / 4 := by
  simp only [along_apply]
  ring

theorem sphere_root_iff : OnSphere (eyePos + t • d) ↔
    (d 0 * d 0 + d 1 * d 1 + d 2 * d 2) * t ^ 2 +
        (2 * eyePos 0 * d 0 + 2 * eyePos 1 * d 1 + 2 * eyePos 2 * d 2) * t +
        (eyePos 0 * eyePos 0 + eyePos 1 * eyePos 1 + eyePos 2 * eyePos 2 - 1 / 4) = 0 := by
  rw [sphere_value, sub_eq_zero, OnSphere]

theorem length_sq_pos (hd : d ≠ 0) : 0 < d 0 * d 0 + d 1 * d 1 + d 2 * d 2 := by
  by_cases hflat : d 1 = 0
  · have hpos := level_pos hd hflat
    linarith [mul_self_nonneg (d 1)]
  · have hpos := mul_self_pos.mpr hflat
    linarith [mul_self_nonneg (d 0), mul_self_nonneg (d 2)]

/-- The value is the least positive parameter of a point on the sphere, or `-1`. -/
def ExactRoot (hits : ℝ → Prop) (t : ℝ) : Prop :=
  (0 < t ∧ hits t ∧ ∀ u, 0 < u → hits u → t ≤ u) ∨ t = -1 ∧ ∀ u, 0 < u → ¬ hits u

theorem sphere_exact (hd : d ≠ 0) :
    ExactRoot (fun t => OnSphere (eyePos + t • d)) (doIntersectUnitSphere Real.sqrt eyePos d) := by
  have hA := (length_sq_pos hd).ne'
  rw [doIntersectUnitSphere_eq]
  simp only []
  have hzero (u : ℝ) : (0 : Vector3 ℝ) 1 + u * (0 : Vector3 ℝ) 1 = 0 := by simp
  have hleast (u : ℝ) (hpos : 0 < u) (hu : OnSphere (eyePos + u • d)) :=
    have hlow : -1 / 2 ≤ (0 : Vector3 ℝ) 1 + u * (0 : Vector3 ℝ) 1 := by rw [hzero]; norm_num
    have hhigh : (0 : Vector3 ℝ) 1 + u * (0 : Vector3 ℝ) 1 ≤ 1 / 2 := by rw [hzero]; norm_num
    sideT_least hA hpos (sphere_root_iff.mp hu) hlow hhigh
  split
  · rename_i hpos
    refine Or.inl ⟨hpos, ?_, fun u hu hon => (hleast u hu hon).2⟩
    exact sphere_root_iff.mpr (sideT_sound hpos).2.1
  · rename_i hneg
    exact Or.inr ⟨rfl, fun u hu hon => hneg (hleast u hu hon).1⟩

theorem checkSphere_hits (hd : d ≠ 0) (h : checkSphere Real.sqrt eyePos = true) :
    ∃ t : ℝ, 0 < t ∧ OnSphere (eyePos + t • d) := by
  have hlength := of_decide_eq_true h
  unfold Vector3.length at hlength
  rw [Real.sqrt_lt' one_half_pos] at hlength
  have hC : eyePos 0 * eyePos 0 + eyePos 1 * eyePos 1 + eyePos 2 * eyePos 2 - 1 / 4 < 0 := by
    linarith
  obtain ⟨t, hpos, hroot⟩ := exists_root_of_pos (length_sq_pos hd) hC
  exact ⟨t, hpos, sphere_root_iff.mpr hroot⟩

/-! ### What the functions promise -/

variable (eyePos d) (faceIndex)

def ConeLaw : Prop :=
  d ≠ 0 →
    ({t | ∃ i, Hits ConePart eyePos d i t}.Finite →
      ExactHit (Hits ConePart eyePos d) (doIntersectUnitCone Real.sqrt 0 eyePos d faceIndex)) ∧
    (checkCone Real.sqrt eyePos = true →
      (doIntersectUnitCone Real.sqrt 0 eyePos d faceIndex).result ≠ -1)

def CylinderLaw : Prop :=
  d ≠ 0 →
    ({t | ∃ i, Hits CylinderPart eyePos d i t}.Finite →
      ExactHit (Hits CylinderPart eyePos d)
        (doIntersectUnitCylinder Real.sqrt 0 eyePos d faceIndex)) ∧
    (checkCylinder Real.sqrt eyePos = true →
      (doIntersectUnitCylinder Real.sqrt 0 eyePos d faceIndex).result ≠ -1)

def SphereLaw : Prop :=
  d ≠ 0 →
    ExactRoot (fun t => OnSphere (eyePos + t • d)) (doIntersectUnitSphere Real.sqrt eyePos d) ∧
    (checkSphere Real.sqrt eyePos = true → doIntersectUnitSphere Real.sqrt eyePos d ≠ -1)

/-- Where there are hits, one comes before `posInf`. -/
def InRange {n : ℕ} (hits : Fin n → ℝ → Prop) : Prop :=
  (∃ i t, hits i t) → ∃ i t, hits i t ∧ t < posInf ℝ

/-- The condition for the cone: the hits are in range, and a ray parallel to a line of the side
meets the base before the side. -/
def ConeSeen : Prop :=
  d ≠ 0 → {t | ∃ i, Hits ConePart eyePos d i t}.Finite →
    (coneA d = 0 → ∀ t, Hits ConePart eyePos d 1 t → ∃ t' ≤ t, Hits ConePart eyePos d 0 t') ∧
      InRange (Hits ConePart eyePos d)

def CylinderSeen : Prop :=
  d ≠ 0 → {t | ∃ i, Hits CylinderPart eyePos d i t}.Finite →
    InRange (Hits CylinderPart eyePos d)

variable {eyePos d}

theorem hits_pos {n : ℕ} {part : Fin n → Vector3 ℝ → Prop} (i : Fin n) (t : ℝ)
    (h : Hits part eyePos d i t) : 0 < t :=
  h.1

theorem coneLaw_iff : ConeLaw eyePos d faceIndex ↔ ConeSeen eyePos d := by
  have hexact (hd : d ≠ 0) (hfinite : {t | ∃ i, Hits ConePart eyePos d i t}.Finite) :
      ExactHit (Hits ConePart eyePos d) (doIntersectUnitCone Real.sqrt 0 eyePos d faceIndex) ↔
        (coneA d = 0 → ∀ t, Hits ConePart eyePos d 1 t → ∃ t' ≤ t, Hits ConePart eyePos d 0 t') ∧
          InRange (Hits ConePart eyePos d) := by
    rw [doIntersectUnitCone, exactHit_nearestFace_iff hits_pos coneT_sound,
      cone_covered_iff hd hfinite, InRange]
  constructor
  · intro h hd hfinite
    exact (hexact hd hfinite).mp ((h hd).1 hfinite)
  · intro h hd
    refine ⟨fun hfinite => (hexact hd hfinite).mpr (h hd hfinite), fun hcheck => ?_⟩
    obtain ⟨hlow, hhigh, hC⟩ := checkCone_inside hcheck
    have hfinite := cone_inside_finite (d := d) hlow hC
    obtain ⟨i, t, ht⟩ := cone_inside_hits hd hlow hhigh hC
    exact ((hexact hd hfinite).mpr (h hd hfinite)).result_ne hits_pos ht

theorem cylinderLaw_iff : CylinderLaw eyePos d faceIndex ↔ CylinderSeen eyePos d := by
  have hexact (hd : d ≠ 0) (hfinite : {t | ∃ i, Hits CylinderPart eyePos d i t}.Finite) :
      ExactHit (Hits CylinderPart eyePos d)
          (doIntersectUnitCylinder Real.sqrt 0 eyePos d faceIndex) ↔
        InRange (Hits CylinderPart eyePos d) := by
    rw [doIntersectUnitCylinder, exactHit_nearestFace_iff hits_pos cylinderT_sound, InRange]
    exact and_iff_right fun j u hu => cylinder_covered hd hfinite j hu
  constructor
  · intro h hd hfinite
    exact (hexact hd hfinite).mp ((h hd).1 hfinite)
  · intro h hd
    refine ⟨fun hfinite => (hexact hd hfinite).mpr (h hd hfinite), fun hcheck => ?_⟩
    obtain ⟨hlow, hhigh, hC⟩ := checkCylinder_inside hcheck
    have hfinite := cylinder_inside_finite (d := d) hlow hhigh hC
    obtain ⟨i, t, ht⟩ := cylinder_inside_hits hd hlow hhigh hC
    exact ((hexact hd hfinite).mpr (h hd hfinite)).result_ne hits_pos ht

theorem sphereLaw : SphereLaw eyePos d := by
  intro hd
  have hexact : ExactRoot (fun t => OnSphere (eyePos + t • d))
      (doIntersectUnitSphere Real.sqrt eyePos d) := sphere_exact hd
  refine ⟨hexact, fun hcheck heq => ?_⟩
  obtain ⟨t, hpos, hon⟩ := checkSphere_hits hd hcheck
  rcases hexact with ⟨hresult, -, -⟩ | ⟨-, hnone⟩
  · linarith
  · exact hnone t hpos hon

/-- The cone and the cylinder are exact under their conditions, the sphere always. -/
theorem roundLaw_iff : (ConeLaw eyePos d faceIndex ↔ ConeSeen eyePos d) ∧
    (CylinderLaw eyePos d faceIndex ↔ CylinderSeen eyePos d) ∧ SphereLaw eyePos d :=
  ⟨coneLaw_iff faceIndex, cylinderLaw_iff faceIndex, sphereLaw⟩

/-- Parallel to a line of the side, from a point inside. -/
theorem cone_misses_side : checkCone Real.sqrt ![0, 0, 0] = true ∧
    Hits ConePart ![0, 0, 0] ![1, 2, 0] 1 (1 / 8) ∧
    (doIntersectUnitCone Real.sqrt 0 ![0, 0, 0] ![1, 2, 0] (-1)).result = -1 ∧
    ¬ ConeLaw ![0, 0, 0] ![1, 2, 0] (-1) := by
  have hcheck : checkCone Real.sqrt (![0, 0, 0] : Vector3 ℝ) = true := by
    simp [checkCone, Vector3.length]
    norm_num
  have hpart : -1 / 2 ≤ (0 : ℝ) + 1 / 8 * 2 ∧ (0 : ℝ) + 1 / 8 * 2 ≤ 1 / 2 ∧
      ((0 : ℝ) + 1 / 8 * 1) ^ 2 + (0 + 1 / 8 * 0) ^ 2 = ((1 / 2 - (0 + 1 / 8 * 2)) / 2) ^ 2 := by
    norm_num
  have hhit : Hits ConePart ![0, 0, 0] ![1, 2, 0] 1 (1 / 8) := ⟨by norm_num, hpart⟩
  have hmiss : (doIntersectUnitCone Real.sqrt 0 ![0, 0, 0] ![1, 2, 0] (-1)).result = -1 := by
    rcases nearestFace_cases (coneT Real.sqrt 0 ![0, 0, 0] ![1, 2, 0]) (-1) with
      ⟨-, heq⟩ | ⟨i, hi, -, -⟩
    · exact congrArg FaceHit.result heq
    · exfalso
      fin_cases i
      · obtain ⟨hpos, hheight, -⟩ := coneT_sound 0 hi.1
        have hbelow : (0 : ℝ) + coneT Real.sqrt 0 ![0, 0, 0] ![1, 2, 0] 0 * 2 = -1 / 2 := hheight
        linarith
      · apply (sideT_sound (coneT_side ▸ hi.1)).1
        have hA : coneA ![1, 2, 0] = 1 * 1 + 0 * 0 - 1 / 4 * 2 * 2 := rfl
        rw [hA]
        norm_num
  refine ⟨hcheck, hhit, hmiss, fun h => ?_⟩
  have hne : (![1, 2, 0] : Vector3 ℝ) ≠ 0 := fun heq => one_ne_zero (congrFun heq 0)
  exact (h hne).2 hcheck hmiss

end CodingSample.Raytracing
