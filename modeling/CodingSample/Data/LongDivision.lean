import Mathlib.Tactic.Ring

/-!
# A digit of a quotient

The digit is estimated from the leading digits `u` of the dividend `U` and the leading digits `v` of
the divisor `V`, which `w` stands behind.
-/

namespace CodingSample

variable {u v w U V q : Nat}

/-- An estimate that is too large for the leading digits is too large. -/
theorem lt_mul_of_leading_lt (hU : U < (u + 1) * w) (hV : v * w ≤ V) (h : u < q * v) :
    U < q * V :=
  calc U < (u + 1) * w := hU
    _ ≤ q * v * w := Nat.mul_le_mul_right w h
    _ = q * (v * w) := Nat.mul_assoc q v w
    _ ≤ q * V := Nat.mul_le_mul_left q hV

/-- An estimate that is not too large for the leading digits is too large by one at most. -/
theorem mul_le_of_leading_le (hU : u * w ≤ U) (hV : V < (v + 1) * w) (h : (q + 1) * v ≤ u)
    (hq : q ≤ v) : q * V ≤ U :=
  calc q * V ≤ q * ((v + 1) * w) := Nat.mul_le_mul_left q (Nat.le_of_lt hV)
    _ = (q * v + q) * w := by ring
    _ ≤ (q * v + v) * w := Nat.mul_le_mul_right w (Nat.add_le_add_left hq _)
    _ = (q + 1) * v * w := by ring
    _ ≤ u * w := Nat.mul_le_mul_right w h
    _ ≤ U := hU

/-- The digits before the last one give the numbers that are compared. -/
theorem leading_le_iff {b u₀ v₁ v₂ r x : Nat} (hr : q * v₁ + r = u₀) :
    q * (v₁ * b + v₂) ≤ u₀ * b + x ↔ v₂ * q ≤ r * b + x := by
  have hleft : q * (v₁ * b + v₂) = q * v₁ * b + v₂ * q := by ring
  have hright : u₀ * b + x = q * v₁ * b + (r * b + x) := by
    rw [← hr]
    ring
  omega

end CodingSample
