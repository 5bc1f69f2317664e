import Mathlib.Algebra.Group.Action.Pi
import Mathlib.Algebra.Order.Field.Basic
import Mathlib.Data.Fin.VecNotation
import Mathlib.Tactic.FinCases
import Mathlib.Tactic.Linarith
import Mathlib.Tactic.Positivity

/-!
# Axis-aligned boxes

The coordinates are those of an ordered field, computed without rounding.
-/

namespace CodingSample.Raytracing

/-- The three coordinates `xyz`. -/
abbrev Vector3 (R : Type) := Fin 3 → R

/-- There are three axes. -/
instance axesNeZero : NeZero 3 := ⟨Nat.succ_ne_zero 2⟩

instance twoAtLeastTwo : Nat.AtLeastTwo 2 := ⟨le_rfl⟩

instance fourNeZero : NeZero 4 := ⟨Nat.succ_ne_zero 3⟩

instance fourAtLeastTwo : Nat.AtLeastTwo 4 := ⟨Nat.le_add_left 2 2⟩

instance sixteenAtLeastTwo : Nat.AtLeastTwo 16 := ⟨Nat.le_add_left 2 14⟩

/-- A number above every length and every parameter of a ray. -/
def posInf (R : Type) [NatCast R] : R := (0x7FFFFFFF : ℕ)

structure AABB (R : Type) where
  pos : Vector3 R
  size : Vector3 R

theorem forall_axis {P : Fin 3 → Prop} : (∀ k, P k) ↔ P 0 ∧ P 1 ∧ P 2 := by
  refine ⟨fun h => ⟨h 0, h 1, h 2⟩, fun h k => ?_⟩
  obtain ⟨hx, hy, hz⟩ := h
  fin_cases k
  · exact hx
  · exact hy
  · exact hz

namespace AABB

section Coordinates

variable {R : Type}

/-- Overwrite one coordinate of the corner. -/
def setPos (b : AABB R) (axis : Fin 3) (v : R) : AABB R :=
  { b with pos := Function.update b.pos axis v }

/-- Overwrite one coordinate of the size. -/
def setSize (b : AABB R) (axis : Fin 3) (v : R) : AABB R :=
  { b with size := Function.update b.size axis v }

variable {b : AABB R} {axis k : Fin 3} {v w : R}

@[simp] theorem setPos_pos_self : (b.setPos axis v).pos axis = v := Function.update_self ..

theorem setPos_pos_of_ne (h : k ≠ axis) : (b.setPos axis v).pos k = b.pos k :=
  Function.update_of_ne h ..

@[simp] theorem setPos_size : (b.setPos axis v).size = b.size := rfl

@[simp] theorem setSize_size_self : (b.setSize axis v).size axis = v := Function.update_self ..

theorem setSize_size_of_ne (h : k ≠ axis) : (b.setSize axis v).size k = b.size k :=
  Function.update_of_ne h ..

@[simp] theorem setSize_pos : (b.setSize axis v).pos = b.pos := rfl

theorem setPos_setPos : (b.setPos axis v).setPos axis w = b.setPos axis w := by
  simp [setPos]

theorem setSize_setSize : (b.setSize axis v).setSize axis w = b.setSize axis w := by
  simp [setSize]

theorem setSize_setPos : (b.setSize axis w).setPos axis v = (b.setPos axis v).setSize axis w := rfl

/-- The far corner. -/
def stop [Add R] (b : AABB R) : Vector3 R := b.pos + b.size

@[simp] theorem stop_apply [Add R] : b.stop k = b.pos k + b.size k := rfl

end Coordinates

section Defs

variable {R : Type} [Field R] [LinearOrder R]

def intersectAABB (b b2 : AABB R) : Bool :=
  let v1 := b2.pos
  let v2 := b2.pos + b2.size
  let v3 := b.pos
  let v4 := b.pos + b.size
  decide (v4 0 ≥ v1 0) && decide (v3 0 ≤ v2 0) &&
    (decide (v4 1 ≥ v1 1) && decide (v3 1 ≤ v2 1)) &&
    (decide (v4 2 ≥ v1 2) && decide (v3 2 ≤ v2 2))

def contains (b : AABB R) (pos : Vector3 R) : Bool :=
  let v1 := b.pos
  let v2 := b.pos + b.size
  decide (pos 0 ≥ v1 0) && decide (pos 0 ≤ v2 0) &&
    (decide (pos 1 ≥ v1 1) && decide (pos 1 ≤ v2 1)) &&
    (decide (pos 2 ≥ v1 2) && decide (pos 2 ≤ v2 2))

/-- The first box lies in the second. -/
def Inside (b b2 : AABB R) : Prop := ∀ k, b2.pos k ≤ b.pos k ∧ b.stop k ≤ b2.stop k

end Defs

def calculateSA {R : Type} [Field R] (b : AABB R) : R :=
  2 * (b.size 0 * b.size 2 + b.size 0 * b.size 1 + b.size 2 * b.size 1)

/-- The sides have no negative length. -/
def Proper {R : Type} [Zero R] [LE R] (b : AABB R) : Prop := ∀ k, 0 ≤ b.size k

variable {R : Type} [Field R] [LinearOrder R] {b b2 c : AABB R} {p : Vector3 R}

theorem contains_iff : b.contains p = true ↔ ∀ k, b.pos k ≤ p k ∧ p k ≤ b.stop k := by
  rw [forall_axis]
  simp [contains, and_assoc]

theorem intersectAABB_iff :
    b.intersectAABB b2 = true ↔ ∀ k, b2.pos k ≤ b.stop k ∧ b.pos k ≤ b2.stop k := by
  rw [forall_axis]
  simp [intersectAABB, and_assoc]

/-- Two boxes with a common point intersect. -/
theorem intersectAABB_of_contains (h : b.contains p = true) (h2 : b2.contains p = true) :
    b.intersectAABB b2 = true := by
  rw [contains_iff] at h h2
  exact intersectAABB_iff.mpr fun k =>
    ⟨(h2 k).1.trans (h k).2, (h k).1.trans (h2 k).2⟩

/-- What intersects a box intersects every box around it. -/
theorem intersectAABB_mono (h : b.intersectAABB b2 = true) (hin : b2.Inside c) :
    b.intersectAABB c = true := by
  rw [intersectAABB_iff] at h ⊢
  exact fun k => ⟨(hin k).1.trans (h k).1, (h k).2.trans (hin k).2⟩

theorem Inside.contains (h : b.Inside b2) (hp : b.contains p = true) : b2.contains p = true := by
  rw [contains_iff] at hp ⊢
  exact fun k => ⟨(h k).1.trans (hp k).1, (hp k).2.trans (h k).2⟩

theorem Inside.refl (b : AABB R) : b.Inside b := fun _ => ⟨le_rfl, le_rfl⟩

theorem Inside.trans (h : b.Inside b2) (h2 : b2.Inside c) : b.Inside c :=
  fun k => ⟨(h2 k).1.trans (h k).1, (h k).2.trans (h2 k).2⟩

variable [IsStrictOrderedRing R]

theorem Inside.intersectAABB (h : b.Inside b2) (hb : b.Proper) : b.intersectAABB b2 = true := by
  refine intersectAABB_iff.mpr fun k => ?_
  have hsize := hb k
  have hlow := (h k).1
  have hhigh := (h k).2
  rw [stop_apply] at hhigh ⊢
  exact ⟨by linarith, by rw [stop_apply] at *; linarith⟩

end AABB

end CodingSample.Raytracing
