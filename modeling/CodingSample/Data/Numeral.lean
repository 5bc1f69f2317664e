import Mathlib.Algebra.Order.Ring.Nat
import Mathlib.Tactic.Ring

/-!
# Numerals

Digits to a base that stand one after another, the first one counting most.
-/

namespace CodingSample

variable {b s c o k l : Nat} {d e : Nat → Nat}

/-- The number with the `k` digits from `o` on. -/
def numeral (b : Nat) (d : Nat → Nat) (o : Nat) : Nat → Nat
  | 0 => 0
  | k + 1 => numeral b d o k * b + d (o + k)

theorem numeral_congr (h : ∀ i < k, d (o + i) = e (o + i)) :
    numeral b d o k = numeral b e o k := by
  induction k with
  | zero => rfl
  | succ k ih =>
      rw [numeral, numeral, ih fun i hi => h i (Nat.lt_succ_of_lt hi), h k (Nat.lt_succ_self k)]

theorem numeral_add : numeral b d o (k + l) = numeral b d o k * b ^ l + numeral b d (o + k) l := by
  induction l with
  | zero => simp [numeral]
  | succ l ih =>
      calc numeral b d o (k + (l + 1)) = numeral b d o (k + l) * b + d (o + (k + l)) := rfl
        _ = (numeral b d o k * b ^ l + numeral b d (o + k) l) * b + d (o + k + l) := by
            rw [ih, Nat.add_assoc o]
        _ = numeral b d o k * b ^ (l + 1) + numeral b d (o + k) (l + 1) := by
            rw [numeral]
            ring

@[simp] theorem numeral_one : numeral b d o 1 = d o := by
  simp [numeral]

theorem numeral_head : numeral b d o (k + 1) = d o * b ^ k + numeral b d (o + 1) k := by
  rw [Nat.add_comm k 1, numeral_add, numeral_one]

theorem numeral_lt (h : ∀ i < k, d (o + i) < b) : numeral b d o k < b ^ k := by
  induction k with
  | zero => exact Nat.one_pos
  | succ k ih =>
      have hk : numeral b d o k + 1 ≤ b ^ k := ih fun i hi => h i (Nat.lt_succ_of_lt hi)
      calc numeral b d o (k + 1) < numeral b d o k * b + b := by
            rw [numeral]
            exact Nat.add_lt_add_left (h k (Nat.lt_succ_self k)) _
        _ = (numeral b d o k + 1) * b := by ring
        _ ≤ b ^ k * b := Nat.mul_le_mul_right b hk
        _ = b ^ (k + 1) := by rw [pow_succ]

theorem numeral_of_zero (h : ∀ i < k, d (o + i) = 0) : numeral b d o k = 0 := by
  induction k with
  | zero => rfl
  | succ k ih =>
      rw [numeral, ih fun i hi => h i (Nat.lt_succ_of_lt hi), h k (Nat.lt_succ_self k),
        Nat.zero_mul]

theorem numeral_of_leading (h : ∀ i < k, d (o + i) = 0) :
    numeral b d o (k + l) = numeral b d (o + k) l := by
  rw [numeral_add, numeral_of_zero h, Nat.zero_mul, Nat.zero_add]

/-- A number below the weight of the first digit has the digit zero. -/
theorem digit_eq_zero_of_numeral_lt (h : numeral b d o (k + 1) < b ^ k) : d o = 0 := by
  rw [numeral_head] at h
  by_contra hne
  have hle : b ^ k ≤ d o * b ^ k := Nat.le_mul_of_pos_left _ (Nat.pos_of_ne_zero hne)
  omega

/-! ### Shifts by less than a digit -/

/-- Each digit takes the high part of the next one below its own low part. -/
theorem numeral_shl_prefix (hb : s * c = b)
    (h : ∀ i < k, e (o + i) = d (o + i) % c * s + d (o + i + 1) / c) :
    numeral b e o k + d o / c * b ^ k = numeral b d o k * s + d (o + k) / c := by
  induction k with
  | zero => simp [numeral]
  | succ k ih =>
      have hk := ih fun i hi => h i (Nat.lt_succ_of_lt hi)
      have hdigit : d (o + k) / c * b + d (o + k) % c * s = d (o + k) * s := by
        rw [← hb]
        calc d (o + k) / c * (s * c) + d (o + k) % c * s
            = (c * (d (o + k) / c) + d (o + k) % c) * s := by ring
          _ = d (o + k) * s := by rw [Nat.div_add_mod]
      calc numeral b e o (k + 1) + d o / c * b ^ (k + 1)
          = (numeral b e o k + d o / c * b ^ k) * b + e (o + k) := by
            rw [numeral]
            ring
        _ = numeral b d o k * s * b + (d (o + k) / c * b + d (o + k) % c * s) +
              d (o + k + 1) / c := by
            rw [hk, h k (Nat.lt_succ_self k)]
            ring
        _ = numeral b d o (k + 1) * s + d (o + (k + 1)) / c := by
            rw [hdigit, numeral, Nat.add_assoc o k 1]
            ring

theorem numeral_shl (hb : s * c = b) (htop : d o < c)
    (h : ∀ i < k, e (o + i) = d (o + i) % c * s + d (o + i + 1) / c)
    (hlast : e (o + k) = d (o + k) % c * s) :
    numeral b e o (k + 1) = numeral b d o (k + 1) * s := by
  have hleading := numeral_shl_prefix hb h
  rw [Nat.div_eq_of_lt htop, Nat.zero_mul, Nat.add_zero] at hleading
  calc numeral b e o (k + 1) = numeral b e o k * b + d (o + k) % c * s := by rw [numeral, hlast]
    _ = numeral b d o k * b * s + (c * (d (o + k) / c) + d (o + k) % c) * s := by
        rw [hleading, ← hb]
        ring
    _ = numeral b d o (k + 1) * s := by
        rw [Nat.div_add_mod, numeral]
        ring

/-- Each digit takes the low part of the one before it above its own high part. -/
theorem numeral_shr (hb : s * c = b) (htop : d o = 0)
    (h : ∀ i < k, e (o + i + 1) = d (o + i + 1) / s + d (o + i) % s * c) :
    numeral b d (o + 1) k = numeral b e (o + 1) k * s + d (o + k) % s := by
  induction k with
  | zero => simp [numeral, htop]
  | succ k ih =>
      have hk := ih fun i hi => h i (Nat.lt_succ_of_lt hi)
      have hindex : o + 1 + k = o + k + 1 := by omega
      calc numeral b d (o + 1) (k + 1)
          = (numeral b e (o + 1) k * s + d (o + k) % s) * b +
              (s * (d (o + k + 1) / s) + d (o + k + 1) % s) := by
            rw [numeral, hk, hindex, Nat.div_add_mod]
        _ = (numeral b e (o + 1) k * b + e (o + k + 1)) * s + d (o + k + 1) % s := by
            rw [h k (Nat.lt_succ_self k), ← hb]
            ring
        _ = numeral b e (o + 1) (k + 1) * s + d (o + (k + 1)) % s := by
            rw [numeral, hindex, Nat.add_assoc o k 1]

end CodingSample
