import CodingSample.Data.Numeral
import CodingSample.Util.Math

/-!
# Numbers and their digits

What the macros for halves and the shifts do to the numbers that digits stand for.
-/

namespace CodingSample.Util

variable {x y a b : UInt32} {u v : Digits} {o k d i : Nat}

/-- The number that `k` digits from `o` on stand for. -/
def value (u : Digits) (o k : Nat) : Nat := numeral 65536 (fun i => (u i).toNat) o k

theorem value_head : value u o (k + 1) = (u o).toNat * 65536 ^ k + value u (o + 1) k :=
  numeral_head

/-- Every place holds a digit. -/
def AllDigits (u : Digits) : Prop := ∀ i, (u i).toNat < 65536

theorem AllDigits.update (h : AllDigits u) (hx : x.toNat < 65536) :
    AllDigits (Function.update u i x) := by
  intro j
  rw [Function.update_apply]
  split
  · exact hx
  · exact h j

theorem AllDigits.value_lt (h : AllDigits u) : value u o k < 65536 ^ k := numeral_lt fun _ _ => h _

/-! ### Halves -/

theorem toNat_hhalf : (hhalf x).toNat = x.toNat / 65536 := by
  simp [hhalf, Nat.shiftRight_eq_div_pow]

theorem toNat_lhalf : (lhalf x).toNat = x.toNat % 65536 := by
  rw [lhalf, UInt32.toNat_and]
  exact Nat.and_two_pow_sub_one_eq_mod x.toNat 16

theorem lhalf_lt : (lhalf x).toNat < 65536 := by
  rw [toNat_lhalf]
  exact Nat.mod_lt _ (by decide)

theorem toNat_combine (ha : a.toNat < 65536) (hb : b.toNat < 65536) :
    (combine a b).toNat = a.toNat * 65536 + b.toNat := by
  have hshift : (a <<< halfBits).toNat = a.toNat * 65536 := by
    rw [UInt32.toNat_shiftLeft]
    simp only [halfBits, UInt32.reduceToNat, Nat.reduceMod, Nat.shiftLeft_eq, Nat.reducePow]
    omega
  rw [combine, UInt32.toNat_or, hshift, Nat.mul_comm]
  exact (Nat.two_pow_add_eq_or_of_lt (i := 16) hb a.toNat).symm

theorem toNat_high {z : UInt64} : (high z).toNat = z.toNat / 4294967296 := by
  have h := z.toNat_lt
  simp only [high, UInt64.toNat_toUInt32, UInt64.toNat_shiftRight, UInt64.reduceToNat,
    Nat.reduceMod, Nat.shiftRight_eq_div_pow, Nat.reducePow]
  omega

theorem toNat_low {z : UInt64} : (low z).toNat = z.toNat % 4294967296 := UInt64.toNat_toUInt32 z

theorem toNat_quad : (quad a b).toNat = a.toNat * 4294967296 + b.toNat := by
  have ha := a.toNat_lt
  have hshift : (a.toUInt64 <<< 32).toNat = a.toNat * 4294967296 := by
    rw [UInt64.toNat_shiftLeft, UInt32.toNat_toUInt64]
    simp only [UInt64.reduceToNat, Nat.reduceMod, Nat.shiftLeft_eq, Nat.reducePow]
    omega
  rw [quad, UInt64.toNat_or, hshift, UInt32.toNat_toUInt64, Nat.mul_comm]
  exact (Nat.two_pow_add_eq_or_of_lt (i := 32) b.toNat_lt a.toNat).symm

theorem allDigits_digitsOf (z : UInt64) : AllDigits (digitsOf z) := by
  have hhalf_lt : ∀ x : UInt32, (hhalf x).toNat < 65536 := fun x => by
    rw [toNat_hhalf]
    have h := x.toNat_lt
    omega
  intro i
  unfold digitsOf
  split
  · exact hhalf_lt _
  · exact lhalf_lt
  · exact hhalf_lt _
  · exact lhalf_lt
  · exact (by decide : (0 : UInt32).toNat < 65536)

theorem value_digitsOf (z : UInt64) : value (digitsOf z) 1 4 = z.toNat := by
  have h := z.toNat_lt
  simp only [value, numeral, digitsOf, toNat_hhalf, toNat_lhalf, toNat_high, toNat_low,
    Nat.reduceAdd]
  omega

/-- Four digits put together. -/
theorem toNat_quad_combine (h : AllDigits u) :
    (quad (combine (u 1) (u 2)) (combine (u 3) (u 4))).toNat = value u 1 4 := by
  rw [toNat_quad, toNat_combine (h 1) (h 2), toNat_combine (h 3) (h 4)]
  simp only [value, numeral, Nat.reduceAdd]
  ring

/-! ### Shifts -/

theorem two_pow_mul (hd : d ≤ 16) : 2 ^ d * 2 ^ (16 - d) = 65536 := by
  rw [← pow_add, Nat.add_sub_cancel' hd]
  rfl

theorem toNat_ofNat_shift (hd : d ≤ 16) : (UInt32.ofNat d).toNat = d := by
  rw [UInt32.toNat_ofNat']
  omega

theorem toNat_halfBits_sub (hd : d ≤ 16) : (halfBits - UInt32.ofNat d).toNat = 16 - d := by
  rw [UInt32.toNat_sub_of_le]
  · rw [toNat_ofNat_shift hd]
    rfl
  · rw [UInt32.le_iff_toNat_le, toNat_ofNat_shift hd]
    exact hd

theorem toNat_shiftRight_digit {z : UInt32} (hz : z.toNat ≤ 16) :
    (x >>> z).toNat = x.toNat / 2 ^ z.toNat := by
  rw [UInt32.toNat_shiftRight, Nat.shiftRight_eq_div_pow, Nat.mod_eq_of_lt (by omega)]

/-- The low part of a digit, shifted up. -/
theorem toNat_lhalf_shiftLeft {z : UInt32} {c : Nat} (hz : z.toNat ≤ 16)
    (hc : 2 ^ z.toNat * c = 65536) : (lhalf (x <<< z)).toNat = x.toNat % c * 2 ^ z.toNat := by
  have hdvd : (65536 : Nat) ∣ 2 ^ 32 := by decide
  rw [toNat_lhalf, UInt32.toNat_shiftLeft, Nat.shiftLeft_eq,
    Nat.mod_eq_of_lt (a := z.toNat) (by omega), Nat.mod_mod_of_dvd _ hdvd, ← hc,
    Nat.mul_comm x.toNat, Nat.mul_mod_mul_left, Nat.mul_comm]

theorem or_eq_add {m n e : Nat} (hn : n < 2 ^ e) : m * 2 ^ e ||| n = m * 2 ^ e + n := by
  rw [Nat.mul_comm]
  exact (Nat.two_pow_add_eq_or_of_lt hn m).symm

/-- A digit that is shifted up takes the high part of the next one. -/
theorem toNat_shl_digit (hd : d ≤ 16) (hy : y.toNat < 65536) :
    (lhalf (x <<< UInt32.ofNat d) ||| (y >>> (halfBits - UInt32.ofNat d))).toNat =
      x.toNat % 2 ^ (16 - d) * 2 ^ d + y.toNat / 2 ^ (16 - d) := by
  have hpow := two_pow_mul hd
  have hleft : (lhalf (x <<< UInt32.ofNat d)).toNat = x.toNat % 2 ^ (16 - d) * 2 ^ d := by
    rw [toNat_lhalf_shiftLeft (c := 2 ^ (16 - d)) (by rw [toNat_ofNat_shift hd]; exact hd)
      (by rw [toNat_ofNat_shift hd]; exact hpow), toNat_ofNat_shift hd]
  have hright : (y >>> (halfBits - UInt32.ofNat d)).toNat = y.toNat / 2 ^ (16 - d) := by
    rw [toNat_shiftRight_digit (by rw [toNat_halfBits_sub hd]; omega), toNat_halfBits_sub hd]
  have hlt : y.toNat / 2 ^ (16 - d) < 2 ^ d := by
    apply Nat.div_lt_of_lt_mul
    rw [Nat.mul_comm, hpow]
    exact hy
  rw [UInt32.toNat_or, hleft, hright, or_eq_add hlt]

/-- A digit that is shifted down takes the low part of the one before it. -/
theorem toNat_shr_digit (hd : d ≤ 16) (hx : x.toNat < 65536) :
    ((x >>> UInt32.ofNat d) ||| lhalf (y <<< (halfBits - UInt32.ofNat d))).toNat =
      x.toNat / 2 ^ d + y.toNat % 2 ^ d * 2 ^ (16 - d) := by
  have hpow := two_pow_mul hd
  have hleft : (x >>> UInt32.ofNat d).toNat = x.toNat / 2 ^ d := by
    rw [toNat_shiftRight_digit (by rw [toNat_ofNat_shift hd]; exact hd), toNat_ofNat_shift hd]
  have hright : (lhalf (y <<< (halfBits - UInt32.ofNat d))).toNat =
      y.toNat % 2 ^ d * 2 ^ (16 - d) := by
    rw [toNat_lhalf_shiftLeft (c := 2 ^ d) (by rw [toNat_halfBits_sub hd]; omega)
      (by rw [toNat_halfBits_sub hd, Nat.mul_comm]; exact hpow), toNat_halfBits_sub hd]
  have hlt : x.toNat / 2 ^ d < 2 ^ (16 - d) := by
    apply Nat.div_lt_of_lt_mul
    rw [hpow]
    exact hx
  rw [UInt32.toNat_or, hleft, hright, Nat.or_comm, or_eq_add hlt, Nat.add_comm]

/-- What `shl` writes. -/
theorem shl_apply (sh : UInt32) (o k i : Nat) (p : Digits) (j : Nat) :
    shl sh o k i p j = if j < o + i ∨ o + i + k < j then p j
      else if j = o + i + k then lhalf (p j <<< sh)
      else lhalf (p j <<< sh) ||| (p (j + 1) >>> (halfBits - sh)) := by
  induction k generalizing i p with
  | zero =>
      rw [shl, Function.update_apply]
      split
      · rename_i hj
        rw [hj, if_neg (by omega), if_pos (Nat.add_zero _).symm]
      · rw [if_pos (by omega)]
  | succ k ih =>
      rw [shl, ih]
      by_cases hj : j < o + i + 1
      · rw [if_pos (.inl hj), Function.update_apply]
        split
        · rename_i heq
          rw [if_neg (by omega), if_neg (by omega), heq]
        · rw [if_pos (by omega)]
      · have hne : j ≠ o + i := by omega
        have hne' : j + 1 ≠ o + i := by omega
        rw [Function.update_of_ne hne, Function.update_of_ne hne']
        have houter : (j < o + (i + 1) ∨ o + (i + 1) + k < j) ↔
            (j < o + i ∨ o + i + (k + 1) < j) := by
          omega
        have hlast : j = o + (i + 1) + k ↔ j = o + i + (k + 1) := by omega
        simp only [houter, hlast]

theorem value_shl (h : AllDigits u) (hd : d ≤ 16) (htop : (u o).toNat < 2 ^ (16 - d)) :
    value (shl (UInt32.ofNat d) o k 0 u) o (k + 1) = value u o (k + 1) * 2 ^ d := by
  refine numeral_shl (two_pow_mul hd) htop (fun i hi => ?_) ?_
  · simp only [shl_apply]
    rw [if_neg (by omega), if_neg (by omega), toNat_shl_digit hd (h _)]
  · simp only [shl_apply]
    rw [if_neg (by omega), if_pos (Nat.add_zero o ▸ rfl),
      toNat_lhalf_shiftLeft (c := 2 ^ (16 - d)) (by rw [toNat_ofNat_shift hd]; exact hd)
        (by rw [toNat_ofNat_shift hd]; exact two_pow_mul hd), toNat_ofNat_shift hd]

theorem allDigits_shl (h : AllDigits u) (hd : d ≤ 16) :
    AllDigits (shl (UInt32.ofNat d) o k 0 u) := by
  intro j
  rw [shl_apply]
  split
  · exact h j
  · split
    · exact lhalf_lt
    · rw [toNat_shl_digit hd (h _)]
      have hpow := two_pow_mul hd
      have hlow : (u j).toNat % 2 ^ (16 - d) + 1 ≤ 2 ^ (16 - d) :=
        Nat.mod_lt _ (Nat.two_pow_pos _)
      have hhigh : (u (j + 1)).toNat / 2 ^ (16 - d) < 2 ^ d := by
        apply Nat.div_lt_of_lt_mul
        rw [Nat.mul_comm, hpow]
        exact h (j + 1)
      calc (u j).toNat % 2 ^ (16 - d) * 2 ^ d + (u (j + 1)).toNat / 2 ^ (16 - d)
          < (u j).toNat % 2 ^ (16 - d) * 2 ^ d + 2 ^ d := Nat.add_lt_add_left hhigh _
        _ = ((u j).toNat % 2 ^ (16 - d) + 1) * 2 ^ d := by ring
        _ ≤ 2 ^ (16 - d) * 2 ^ d := Nat.mul_le_mul_right _ hlow
        _ = 65536 := by rw [Nat.mul_comm, hpow]

/-- What the loop that shifts the remainder back writes. -/
theorem shiftBack_apply (sh : UInt32) (o k : Nat) (p : Digits) (j : Nat) :
    shiftBack sh k (o + k) p j = if j < o ∨ o + k < j then p j
      else if j = o then 0
      else (p j >>> sh) ||| lhalf (p (j - 1) <<< (halfBits - sh)) := by
  induction k generalizing p with
  | zero =>
      rw [shiftBack, Function.update_apply]
      split
      · rename_i hj
        rw [if_neg (by omega), if_pos (hj.trans (Nat.add_zero o))]
      · rw [if_pos (by omega)]
  | succ k ih =>
      rw [shiftBack, Nat.add_sub_assoc (by omega), Nat.add_sub_cancel, ih]
      by_cases hj : o + (k + 1) ≤ j
      · rw [if_pos (by omega), Function.update_apply]
        split
        · rename_i heq
          rw [if_neg (by omega), if_neg (by omega), heq, Nat.add_sub_assoc (by omega),
            Nat.add_sub_cancel]
        · rw [if_pos (by omega)]
      · have hne : j ≠ o + (k + 1) := by omega
        have hne' : j - 1 ≠ o + (k + 1) := by omega
        rw [Function.update_of_ne hne, Function.update_of_ne hne']
        have houter : (j < o ∨ o + k < j) ↔ (j < o ∨ o + (k + 1) < j) := by omega
        simp only [houter]

theorem value_shiftBack (h : AllDigits u) (hd : d ≤ 16) (htop : u o = 0) :
    ∃ r < 2 ^ d, value u (o + 1) k =
      value (shiftBack (UInt32.ofNat d) k (o + k) u) (o + 1) k * 2 ^ d + r := by
  refine ⟨(u (o + k)).toNat % 2 ^ d, Nat.mod_lt _ (Nat.two_pow_pos d),
    numeral_shr (two_pow_mul hd) (by rw [htop]; rfl) fun i hi => ?_⟩
  simp only [shiftBack_apply]
  rw [if_neg (by omega), if_neg (by omega), Nat.add_sub_cancel, toNat_shr_digit hd (h _)]

theorem allDigits_shiftBack (h : AllDigits u) (hd : d ≤ 16) :
    AllDigits (shiftBack (UInt32.ofNat d) k (o + k) u) := by
  intro j
  rw [shiftBack_apply]
  split
  · exact h j
  · split
    · exact (by decide : (0 : UInt32).toNat < 65536)
    · rw [toNat_shr_digit hd (h j)]
      have hpow := two_pow_mul hd
      have hlow : (u (j - 1)).toNat % 2 ^ d + 1 ≤ 2 ^ d := Nat.mod_lt _ (Nat.two_pow_pos _)
      have hhigh : (u j).toNat / 2 ^ d < 2 ^ (16 - d) := by
        apply Nat.div_lt_of_lt_mul
        rw [hpow]
        exact h j
      calc (u j).toNat / 2 ^ d + (u (j - 1)).toNat % 2 ^ d * 2 ^ (16 - d)
          < 2 ^ (16 - d) + (u (j - 1)).toNat % 2 ^ d * 2 ^ (16 - d) :=
            Nat.add_lt_add_right hhigh _
        _ = ((u (j - 1)).toNat % 2 ^ d + 1) * 2 ^ (16 - d) := by ring
        _ ≤ 2 ^ d * 2 ^ (16 - d) := Nat.mul_le_mul_right _ hlow
        _ = 65536 := hpow

end CodingSample.Util
