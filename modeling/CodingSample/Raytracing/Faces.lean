import CodingSample.Raytracing.Rays
import Mathlib.Data.Prod.Lex
import Mathlib.Data.Finset.Max

/-!
# The least parameter over the parts of a surface

Each shape computes a parameter for every part of its surface and keeps the least positive one. Of
parts with the same parameter the first one wins.
-/

namespace CodingSample.Raytracing

/-- The value of an intersection function and the `faceIndex` it stores. -/
structure FaceHit (R : Type) where
  result : R
  faceIndex : Int
  deriving DecidableEq

variable {R : Type} [Field R] [LinearOrder R] {n : ℕ}

/-- The loop over the parts: `minT` and `faceIndex`. -/
def scanFaces (t : Fin n → R) : List (Fin n) → R × Int → R × Int
  | [], acc => acc
  | i :: rest, acc => scanFaces t rest (if t i > 0 ∧ t i < acc.1 then (t i, i) else acc)

/-- The end of an intersection function with the parameters `t`. -/
def nearestFace (t : Fin n → R) (faceIndex : Int) : FaceHit R :=
  let acc := scanFaces t (List.finRange n) (posInf R, faceIndex)
  ⟨if acc.1 ≠ posInf R then acc.1 else -1, acc.2⟩

variable {t : Fin n → R} {l : List (Fin n)} {faceIndex : Int}

/-- Part `i` comes first among the parts in `l` with a positive parameter. -/
def FirstIn (t : Fin n → R) (l : List (Fin n)) (i : Fin n) : Prop :=
  i ∈ l ∧ 0 < t i ∧ ∀ j ∈ l, 0 < t j → t i < t j ∨ t i = t j ∧ i ≤ j

theorem scanFaces_cases (acc : R × Int) (hl : l.Pairwise (· < ·)) :
    (∀ i ∈ l, 0 < t i → acc.1 ≤ t i) ∧ scanFaces t l acc = acc ∨
      ∃ i, FirstIn t l i ∧ t i < acc.1 ∧ scanFaces t l acc = (t i, (i : Int)) := by
  induction l generalizing acc with
  | nil => exact Or.inl ⟨fun i hi => absurd hi List.not_mem_nil, rfl⟩
  | cons i rest ih =>
      obtain ⟨hfirst, hrest⟩ := List.pairwise_cons.mp hl
      rw [scanFaces]
      by_cases hi : t i > 0 ∧ t i < acc.1
      · rw [if_pos hi]
        rcases ih (t i, (i : Int)) hrest with ⟨hall, hscan⟩ | ⟨j, ⟨hj, hpos, hmin⟩, hlt, hscan⟩
        · refine Or.inr ⟨i, ⟨List.mem_cons_self, hi.1, fun j hj hpos => ?_⟩, hi.2, hscan⟩
          rcases List.mem_cons.mp hj with rfl | hj
          · exact Or.inr ⟨rfl, le_rfl⟩
          · rcases (hall j hj hpos).lt_or_eq with hlt | heq
            · exact Or.inl hlt
            · exact Or.inr ⟨heq, (hfirst j hj).le⟩
        · refine Or.inr ⟨j, ⟨List.mem_cons_of_mem i hj, hpos, fun k hk hk0 => ?_⟩,
            hlt.trans hi.2, hscan⟩
          rcases List.mem_cons.mp hk with rfl | hk
          · exact Or.inl hlt
          · exact hmin k hk hk0
      · rw [if_neg hi]
        have hskip : 0 < t i → acc.1 ≤ t i := fun hpos => not_lt.mp fun hlt => hi ⟨hpos, hlt⟩
        rcases ih acc hrest with ⟨hall, hscan⟩ | ⟨j, ⟨hj, hpos, hmin⟩, hlt, hscan⟩
        · refine Or.inl ⟨fun k hk hk0 => ?_, hscan⟩
          rcases List.mem_cons.mp hk with rfl | hk
          · exact hskip hk0
          · exact hall k hk hk0
        · refine Or.inr ⟨j, ⟨List.mem_cons_of_mem i hj, hpos, fun k hk hk0 => ?_⟩, hlt, hscan⟩
          rcases List.mem_cons.mp hk with rfl | hk
          · exact Or.inl (hlt.trans_le (hskip hk0))
          · exact hmin k hk hk0

/-- Part `i` comes first among all parts with a positive parameter. -/
def First (t : Fin n → R) (i : Fin n) : Prop :=
  0 < t i ∧ ∀ j, 0 < t j → t i < t j ∨ t i = t j ∧ i ≤ j

theorem First.le {i j : Fin n} (h : First t i) (hj : 0 < t j) : t i ≤ t j := by
  rcases h.2 j hj with hlt | ⟨heq, -⟩
  · exact hlt.le
  · exact heq.le

theorem First.unique {i j : Fin n} (hi : First t i) (hj : First t j) : i = j := by
  rcases hi.2 j hj.1 with hlt | ⟨heq, hle⟩
  · exact absurd (hj.le hi.1) (not_le.mpr hlt)
  · rcases hj.2 i hi.1 with hlt | ⟨-, hle'⟩
    · exact absurd heq.symm hlt.ne
    · exact le_antisymm hle hle'

/-- The result is the first part if its parameter is in range, and nothing otherwise. -/
theorem nearestFace_cases (t : Fin n → R) (faceIndex : Int) :
    (∀ i, 0 < t i → posInf R ≤ t i) ∧ nearestFace t faceIndex = ⟨-1, faceIndex⟩ ∨
      ∃ i, First t i ∧ t i < posInf R ∧ nearestFace t faceIndex = ⟨t i, i⟩ := by
  have hsorted : (List.finRange n).Pairwise (· < ·) := List.pairwise_lt_finRange n
  rcases scanFaces_cases (t := t) (posInf R, faceIndex) hsorted with
    ⟨hall, hscan⟩ | ⟨i, ⟨-, hpos, hmin⟩, hlt, hscan⟩
  · refine Or.inl ⟨fun i => hall i (List.mem_finRange i), ?_⟩
    rw [nearestFace, hscan]
    simp
  · refine Or.inr ⟨i, ⟨hpos, fun j => hmin j (List.mem_finRange j)⟩, hlt, ?_⟩
    rw [nearestFace, hscan]
    simp [hlt.ne]

theorem exists_first (h : ∃ i, 0 < t i) : ∃ i, First t i := by
  obtain ⟨i, hi⟩ := h
  have hne : (Finset.univ.filter fun i => 0 < t i).Nonempty :=
    ⟨i, Finset.mem_filter.mpr ⟨Finset.mem_univ i, hi⟩⟩
  obtain ⟨j, hj, hmin⟩ := Finset.exists_min_image _ (fun i => toLex (t i, i)) hne
  refine ⟨j, (Finset.mem_filter.mp hj).2, fun k hk => ?_⟩
  have hle := hmin k (Finset.mem_filter.mpr ⟨Finset.mem_univ k, hk⟩)
  rcases (Prod.Lex.toLex_le_toLex.mp hle) with hlt | ⟨heq, hle⟩
  · exact Or.inl hlt
  · exact Or.inr ⟨heq, hle⟩

variable [IsStrictOrderedRing R]

omit [IsStrictOrderedRing R] in
theorem nearestFace_of_first {i : Fin n} (h : First t i) (hlt : t i < posInf R) :
    nearestFace t faceIndex = ⟨t i, i⟩ := by
  rcases nearestFace_cases t faceIndex with ⟨hall, -⟩ | ⟨j, hj, -, hhit⟩
  · exact absurd (hall i h.1) (not_le.mpr hlt)
  · rw [hhit, h.unique hj]

/-- The value is the least parameter at which a part is hit and `faceIndex` a part that is hit
there, or the value is `-1` and no part is hit. -/
def ExactHit (hits : Fin n → R → Prop) (h : FaceHit R) : Prop :=
  (∃ i : Fin n, h.faceIndex = i ∧ hits i h.result ∧ ∀ j u, hits j u → h.result ≤ u) ∨
    h.result = -1 ∧ ∀ i u, ¬ hits i u

theorem ExactHit.result_ne {hits : Fin n → R → Prop} {h : FaceHit R} {i : Fin n} {u : R}
    (hexact : ExactHit hits h) (hpos : ∀ i u, hits i u → 0 < u) (hu : hits i u) :
    h.result ≠ -1 := by
  rcases hexact with ⟨j, -, hj, -⟩ | ⟨-, hnone⟩
  · intro heq
    have := hpos j _ hj
    linarith
  · exact absurd hu (hnone i u)

/-- With parameters that are hits, the least one is exact if no hit comes before all of them and,
where there are hits, one is within `posInf`. -/
theorem exactHit_nearestFace_iff {hits : Fin n → R → Prop} (hpos : ∀ i u, hits i u → 0 < u)
    (hsound : ∀ i, 0 < t i → hits i (t i)) :
    ExactHit hits (nearestFace t faceIndex) ↔ (∀ j u, hits j u → ∃ i, 0 < t i ∧ t i ≤ u) ∧
      ((∃ j u, hits j u) → ∃ j u, hits j u ∧ u < posInf R) := by
  rcases nearestFace_cases t faceIndex with ⟨hall, hhit⟩ | ⟨i, hi, hlt, hhit⟩
  · rw [hhit]
    constructor
    · rintro (⟨i, -, hneg, -⟩ | ⟨-, hnone⟩)
      · have hlt : (0 : R) < -1 := hpos i _ hneg
        linarith
      · exact ⟨fun j u hu => absurd hu (hnone j u), fun ⟨j, u, hu⟩ => absurd hu (hnone j u)⟩
    · rintro ⟨hcovered, hrange⟩
      refine Or.inr ⟨rfl, fun j u hu => ?_⟩
      obtain ⟨k, w, hw, hlt⟩ := hrange ⟨j, u, hu⟩
      obtain ⟨i, hi, hle⟩ := hcovered k w hw
      exact absurd (hall i hi) (not_le.mpr (hle.trans_lt hlt))
  · rw [hhit]
    constructor
    · rintro (⟨-, -, -, hmin⟩ | ⟨hneg, -⟩)
      · exact ⟨fun j u hu => ⟨i, hi.1, hmin j u hu⟩, fun _ => ⟨i, t i, hsound i hi.1, hlt⟩⟩
      · have hlt : t i = -1 := hneg
        linarith [hi.1]
    · rintro ⟨hcovered, -⟩
      refine Or.inl ⟨i, rfl, hsound i hi.1, fun j u hu => ?_⟩
      obtain ⟨k, hk, hle⟩ := hcovered j u hu
      exact (hi.le hk).trans hle

/-- Two sets of parameters that agree where both are positive. -/
def either (t t' : Fin n → R) (i : Fin n) : R := if 0 < t i then t i else t' i

omit [IsStrictOrderedRing R] in
theorem either_pos {t' : Fin n → R} {i : Fin n} : 0 < either t t' i ↔ 0 < t i ∨ 0 < t' i := by
  unfold either
  split
  · rename_i h
    exact iff_of_true h (Or.inl h)
  · rename_i h
    exact ⟨Or.inr, fun hor => hor.resolve_left h⟩

omit [IsStrictOrderedRing R] in
theorem either_of_pos_right {t' : Fin n → R} {i : Fin n}
    (hagree : ∀ i, 0 < t i → 0 < t' i → t i = t' i) (h : 0 < t' i) : either t t' i = t' i := by
  unfold either
  split
  · exact hagree i ‹_› h
  · rfl

omit [IsStrictOrderedRing R] in
theorem eq_either_iff {t' : Fin n → R} {i : Fin n} {u : R}
    (hagree : ∀ i, 0 < t i → 0 < t' i → t i = t' i) :
    0 < u ∧ u = either t t' i ↔ (0 < u ∧ u = t i) ∨ 0 < u ∧ u = t' i := by
  constructor
  · rintro ⟨hpos, heq⟩
    rw [heq] at hpos
    rcases either_pos.mp hpos with hleft | hright
    · have hself : either t t' i = t i := if_pos hleft
      rw [hself] at heq
      exact Or.inl ⟨heq ▸ hleft, heq⟩
    · rw [either_of_pos_right hagree hright] at heq
      exact Or.inr ⟨heq ▸ hright, heq⟩
  · rintro (⟨hpos, rfl⟩ | ⟨hpos, rfl⟩)
    · exact ⟨hpos, (if_pos hpos).symm⟩
    · exact ⟨hpos, (either_of_pos_right hagree hpos).symm⟩

omit [IsStrictOrderedRing R] in
theorem First.left {t' : Fin n → R} {i : Fin n} (h : First (either t t') i) (hi : 0 < t i) :
    First t i := by
  refine ⟨hi, fun j hj => ?_⟩
  have hself : either t t' i = t i := if_pos hi
  have hother : either t t' j = t j := if_pos hj
  have hmin := h.2 j (either_pos.mpr (Or.inl hj))
  rwa [hself, hother] at hmin

omit [IsStrictOrderedRing R] in
theorem First.right {t' : Fin n → R} {i : Fin n}
    (hagree : ∀ i, 0 < t i → 0 < t' i → t i = t' i) (h : First (either t t') i)
    (hi : 0 < t' i) : First t' i := by
  refine ⟨hi, fun j hj => ?_⟩
  have hmin := h.2 j (either_pos.mpr (Or.inr hj))
  rwa [either_of_pos_right hagree hi, either_of_pos_right hagree hj] at hmin

/-- Two such functions return the same exactly if the first part that either of them accepts is
accepted by both. -/
theorem nearestFace_eq_iff {t' : Fin n → R} (hagree : ∀ i, 0 < t i → 0 < t' i → t i = t' i) :
    nearestFace t faceIndex = nearestFace t' faceIndex ↔
      ∀ i, First (either t t') i → either t t' i < posInf R → 0 < t i ∧ 0 < t' i := by
  constructor
  · intro heq i hi hlt
    rcases either_pos.mp hi.1 with hpos | hpos
    · have hself : either t t' i = t i := if_pos hpos
      rw [hself] at hlt
      rw [nearestFace_of_first (hi.left hpos) hlt] at heq
      rcases nearestFace_cases t' faceIndex with ⟨-, hhit⟩ | ⟨j, hj, -, hhit⟩
      · rw [hhit] at heq
        have hneg : t i = -1 := congrArg FaceHit.result heq
        linarith
      · rw [hhit] at heq
        have hface : (i : Int) = (j : Int) := congrArg FaceHit.faceIndex heq
        have hij : i = j := by
          apply Fin.ext
          exact_mod_cast hface
        exact ⟨hpos, hij ▸ hj.1⟩
    · rw [either_of_pos_right hagree hpos] at hlt
      rw [nearestFace_of_first (hi.right hagree hpos) hlt] at heq
      rcases nearestFace_cases t faceIndex with ⟨-, hhit⟩ | ⟨j, hj, -, hhit⟩
      · rw [hhit] at heq
        have hneg : -1 = t' i := congrArg FaceHit.result heq
        linarith
      · rw [hhit] at heq
        have hface : (j : Int) = (i : Int) := congrArg FaceHit.faceIndex heq
        have hij : j = i := by
          apply Fin.ext
          exact_mod_cast hface
        exact ⟨hij ▸ hj.1, hpos⟩
  · intro h
    have hboth {i : Fin n} (hpos : 0 < either t t' i) (hlt : either t t' i < posInf R) :
        nearestFace t faceIndex = nearestFace t' faceIndex := by
      obtain ⟨k, hk⟩ := exists_first ⟨i, hpos⟩
      have hklt := (hk.le hpos).trans_lt hlt
      obtain ⟨hk1, hk2⟩ := h k hk hklt
      have hself : either t t' k = t k := if_pos hk1
      rw [nearestFace_of_first (hk.left hk1) (hself ▸ hklt),
        nearestFace_of_first (hk.right hagree hk2) (either_of_pos_right hagree hk2 ▸ hklt),
        hagree k hk1 hk2]
    rcases nearestFace_cases t faceIndex with ⟨-, hhit⟩ | ⟨i, hi, hlt, -⟩
    · rcases nearestFace_cases t' faceIndex with ⟨-, hhit'⟩ | ⟨j, hj, hlt, -⟩
      · rw [hhit, hhit']
      · apply hboth (either_pos.mpr (Or.inr hj.1))
        rw [either_of_pos_right hagree hj.1]
        exact hlt
    · apply hboth (either_pos.mpr (Or.inl hi.1))
      have hself : either t t' i = t i := if_pos hi.1
      rw [hself]
      exact hlt

end CodingSample.Raytracing
