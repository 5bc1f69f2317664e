import CodingSample.Data.LongDivision
import CodingSample.Util.Halves

/-!
# Program D

One round divides `n + 1` digits of the dividend by the `n` digits of the divisor: the estimate of
D3 is too large by one at most, D4 subtracts the multiple of the divisor that it tells, and D6 adds
the divisor back if this was too much.
-/

namespace CodingSample.Util

variable {u v q : Digits} {v1 v2 uj2 qhat rhat t : UInt32} {j k n fuel : Nat} {tooBig : Bool}

/-! ### D3 -/

/-- What holds of an estimate `qhat` of the digit when `u3` are the three leading digits of the
dividend `U`, `v1` and `v2` lead the divisor `V`, and `w` is the weight of the digits behind. -/
structure Estimating (v1 v2 uj2 : UInt32) (u0 w U V : Nat) (tooBig : Bool) (qhat rhat : UInt32) :
    Prop where
  rest : qhat.toNat * v1.toNat + rhat.toNat = u0
  low : rhat.toNat < 65536
  above : U < (qhat.toNat + 1) * V
  wrong : tooBig = true → U < qhat.toNat * V ∧ qhat.toNat ≤ 65536
  digit : tooBig = false → qhat.toNat < 65536

/-- The numbers that the estimate is made from. -/
structure Leading (v1 v2 uj2 : UInt32) (u0 w U V : Nat) : Prop where
  v1_ge : 32768 ≤ v1.toNat
  v1_lt : v1.toNat < 65536
  v2_lt : v2.toNat < 65536
  uj2_lt : uj2.toNat < 65536
  U_ge : (u0 * 65536 + uj2.toNat) * w ≤ U
  U_lt : U < (u0 * 65536 + uj2.toNat + 1) * w
  V_ge : (v1.toNat * 65536 + v2.toNat) * w ≤ V
  V_lt : V < (v1.toNat * 65536 + v2.toNat + 1) * w

section

variable {u0 w U V : Nat}

/-- An estimate that passes the test. -/
theorem Leading.pass (h : Leading v1 v2 uj2 u0 w U V) (hq : qhat.toNat < 65536)
    (hrest : qhat.toNat * v1.toNat + rhat.toNat = u0)
    (htest : v2.toNat * qhat.toNat ≤ rhat.toNat * 65536 + uj2.toNat) :
    (qhat.toNat - 1) * V ≤ U := by
  have hlead := (leading_le_iff hrest).mpr htest
  rcases Nat.eq_zero_or_pos qhat.toNat with hzero | hpos
  · rw [hzero, Nat.zero_sub, Nat.zero_mul]
    exact Nat.zero_le U
  · refine mul_le_of_leading_le h.U_ge h.V_lt ?_ ?_
    · rw [Nat.sub_add_cancel hpos]
      exact hlead
    · have hv1 := h.v1_ge
      omega

theorem adjust_spec (h : Leading v1 v2 uj2 u0 w U V)
    (hs : Estimating v1 v2 uj2 u0 w U V tooBig qhat rhat)
    (hfuel : 65536 ≤ rhat.toNat + fuel * v1.toNat) :
    ∃ r, adjust v1 v2 uj2 (fuel + 1) tooBig qhat rhat = some r ∧ r.toNat < 65536 ∧
      U < (r.toNat + 1) * V ∧ (r.toNat - 1) * V ≤ U := by
  induction fuel generalizing tooBig qhat rhat with
  | zero =>
      have hlow := hs.low
      omega
  | succ fuel ih =>
      have hv1 := h.v1_lt
      have hlow := hs.low
      have hcombine : (combine rhat uj2).toNat = rhat.toNat * 65536 + uj2.toNat :=
        toNat_combine hs.low h.uj2_lt
      rw [adjust]
      split
      · rename_i hcond
        have hwrong : U < qhat.toNat * V ∧ qhat.toNat ≤ 65536 := by
          rcases hcond with htrue | htest
          · exact hs.wrong htrue
          cases htooBig : tooBig with
          | true => exact hs.wrong htooBig
          | false =>
              have hq := hs.digit htooBig
              have hprod : (v2 * qhat).toNat = v2.toNat * qhat.toNat := by
                rw [UInt32.toNat_mul]
                apply Nat.mod_eq_of_lt
                calc v2.toNat * qhat.toNat ≤ 65535 * 65535 :=
                      Nat.mul_le_mul (Nat.le_of_lt_succ h.v2_lt) (Nat.le_of_lt_succ hq)
                  _ < 2 ^ 32 := by decide
              refine ⟨lt_mul_of_leading_lt h.U_lt h.V_ge ?_, Nat.le_of_lt hq⟩
              rw [gt_iff_lt, UInt32.lt_iff_toNat_lt, hprod, hcombine] at htest
              by_contra hle
              exact absurd ((leading_le_iff hs.rest).mp (Nat.not_lt.mp hle)) (Nat.not_le.mpr htest)
        obtain ⟨hbelow, hle⟩ := hwrong
        have hpos : 0 < qhat.toNat := by
          by_contra hzero
          rw [Nat.eq_zero_of_not_pos hzero, Nat.zero_mul] at hbelow
          exact Nat.not_lt_zero _ hbelow
        have hdec : (qhat - 1).toNat = qhat.toNat - 1 := by
          rw [UInt32.toNat_sub_of_le]
          · rfl
          · rw [UInt32.le_iff_toNat_le]
            exact hpos
        have hinc : (rhat + v1).toNat = rhat.toNat + v1.toNat := by
          rw [UInt32.toNat_add]
          exact Nat.mod_eq_of_lt (by omega)
        have habove : U < ((qhat - 1).toNat + 1) * V := by
          rw [hdec, Nat.sub_add_cancel hpos]
          exact hbelow
        have hrest : (qhat - 1).toNat * v1.toNat + (rhat + v1).toNat = u0 := by
          have hmul : qhat.toNat * v1.toNat = (qhat.toNat - 1) * v1.toNat + v1.toNat := by
            rw [Nat.sub_one_mul, Nat.sub_add_cancel (Nat.le_mul_of_pos_left _ hpos)]
          rw [hdec, hinc, ← hs.rest, hmul]
          omega
        have hdigit : (qhat - 1).toNat < 65536 := by omega
        simp only [digitBase, ge_iff_le, UInt32.le_iff_toNat_le, hinc, UInt32.reduceToNat]
        split
        · rename_i hbreak
          refine ⟨qhat - 1, rfl, hdigit, habove, h.pass hdigit hrest ?_⟩
          calc v2.toNat * (qhat - 1).toNat ≤ 65535 * 65536 :=
                Nat.mul_le_mul (Nat.le_of_lt_succ h.v2_lt) (Nat.le_of_lt hdigit)
            _ ≤ (rhat + v1).toNat * 65536 + uj2.toNat := by omega
        · rename_i hlt
          refine ih ⟨hrest, by omega, habove, fun hfalse => ?_, fun _ => hdigit⟩ ?_
          · cases hfalse
          · rw [Nat.succ_mul] at hfuel
            omega
      · rename_i hcond
        obtain ⟨hfalse, htest⟩ := not_or.mp hcond
        have hq := hs.digit (Bool.eq_false_iff.mpr hfalse)
        refine ⟨qhat, rfl, hq, hs.above, h.pass hq hs.rest ?_⟩
        have hprod : (v2 * qhat).toNat = v2.toNat * qhat.toNat := by
          rw [UInt32.toNat_mul]
          apply Nat.mod_eq_of_lt
          calc v2.toNat * qhat.toNat ≤ 65535 * 65535 :=
                Nat.mul_le_mul (Nat.le_of_lt_succ h.v2_lt) (Nat.le_of_lt_succ hq)
            _ < 2 ^ 32 := by decide
        rw [gt_iff_lt, UInt32.lt_iff_toNat_lt, hprod, hcombine] at htest
        exact Nat.not_lt.mp htest

end

/-- The leading digits of a window of the dividend and of the divisor. -/
theorem leading_of_window (hu : AllDigits u) (hv : AllDigits v) (hv1 : 32768 ≤ (v 1).toNat) :
    Leading (v 1) (v 2) (u (j + 2)) ((u j).toNat * 65536 + (u (j + 1)).toNat) (65536 ^ k)
      (value u j (k + 3)) (value v 1 (k + 2)) := by
  have hU : value u j (k + 3) = value u j 3 * 65536 ^ k + value u (j + 3) k := by
    rw [Nat.add_comm k 3]
    exact numeral_add
  have hV : value v 1 (k + 2) = value v 1 2 * 65536 ^ k + value v (1 + 2) k := by
    rw [Nat.add_comm k 2]
    exact numeral_add
  have hU3 : value u j 3 =
      ((u j).toNat * 65536 + (u (j + 1)).toNat) * 65536 + (u (j + 2)).toNat := by
    simp [value, numeral]
  have hV2 : value v 1 2 = (v 1).toNat * 65536 + (v 2).toNat := by
    simp [value, numeral]
  have hUlow : value u (j + 3) k < 65536 ^ k := hu.value_lt
  have hVlow : value v (1 + 2) k < 65536 ^ k := hv.value_lt
  rw [hU3] at hU
  rw [hV2] at hV
  refine ⟨hv1, hv 1, hv 2, hu _, ?_, ?_, ?_, ?_⟩
  · rw [hU]
    exact Nat.le_add_right _ _
  · rw [hU, Nat.add_one_mul]
    exact Nat.add_lt_add_left hUlow _
  · rw [hV]
    exact Nat.le_add_right _ _
  · rw [hV, Nat.add_one_mul]
    exact Nat.add_lt_add_left hVlow _

theorem quotientDigit_spec (hu : AllDigits u) (hv : AllDigits v) (hv1 : 32768 ≤ (v 1).toNat)
    (hlt : value u j (k + 2) < value v 1 (k + 2)) :
    ∃ qhat, quotientDigit u (v 1) (v 2) j = some qhat ∧ qhat.toNat < 65536 ∧
      value u j (k + 3) < (qhat.toNat + 1) * value v 1 (k + 2) ∧
      (qhat.toNat - 1) * value v 1 (k + 2) ≤ value u j (k + 3) := by
  have hlead := leading_of_window (j := j) (k := k) hu hv hv1
  set V := value v 1 (k + 2) with hV
  have hVhead : V = (v 1).toNat * 65536 ^ (k + 1) + value v (1 + 1) (k + 1) := value_head
  have hUhead : value u j (k + 2) =
      (u j).toNat * 65536 ^ (k + 1) + value u (j + 1) (k + 1) := value_head
  have hVlow : value v (1 + 1) (k + 1) < 65536 ^ (k + 1) := hv.value_lt
  have hUV : value u j (k + 3) < 65536 * V := by
    have hlast : value u j (k + 3) = value u j (k + 2) * 65536 + (u (j + (k + 2))).toNat := rfl
    have hdigit := hu (j + (k + 2))
    omega
  have hle : (u j).toNat ≤ (v 1).toNat := by
    by_contra hgt
    have hmul : ((v 1).toNat + 1) * 65536 ^ (k + 1) ≤ (u j).toNat * 65536 ^ (k + 1) :=
      Nat.mul_le_mul_right _ (Nat.lt_of_not_le hgt)
    rw [Nat.add_one_mul] at hmul
    omega
  have hv1lt := hv 1
  have huj1 := hu (j + 1)
  unfold quotientDigit
  dsimp only
  split
  · rename_i heq
    refine adjust_spec hlead ⟨?_, huj1, ?_, fun _ => ⟨?_, by decide⟩, fun h => by cases h⟩ ?_
    · rw [heq, Nat.mul_comm]
      rfl
    · exact hUV.trans_le (Nat.mul_le_mul_right V (by decide))
    · exact hUV
    · omega
  · rename_i hne
    have hneNat : (u j).toNat ≠ (v 1).toNat := fun h => hne (UInt32.toNat_inj.mp h)
    have hnn : (combine (u j) (u (j + 1))).toNat =
        (u j).toNat * 65536 + (u (j + 1)).toNat := toNat_combine (hu j) (hu (j + 1))
    have hpos : 0 < (v 1).toNat := by omega
    have hmod : (combine (u j) (u (j + 1)) % v 1).toNat < (v 1).toNat := by
      rw [UInt32.toNat_mod]
      exact Nat.mod_lt _ hpos
    refine adjust_spec hlead ⟨?_, by omega, ?_, (fun h => by cases h), fun _ => ?_⟩ (by omega)
    · rw [UInt32.toNat_div, UInt32.toNat_mod, hnn, Nat.mul_comm, Nat.div_add_mod]
    · -- the quotient of the two leading digits by the leading digit is not too small
      rw [UInt32.toNat_div, hnn]
      have hdiv := Nat.lt_div_mul_add (a := (u j).toNat * 65536 + (u (j + 1)).toNat) hpos
      set e := ((u j).toNat * 65536 + (u (j + 1)).toNat) / (v 1).toNat
      have hsplit : value u j (k + 3) =
          value u j 2 * 65536 ^ (k + 1) + value u (j + 2) (k + 1) := by
        rw [show k + 3 = 2 + (k + 1) by omega]
        exact numeral_add
      have htwo : value u j 2 = (u j).toNat * 65536 + (u (j + 1)).toNat := by
        simp [value, numeral]
      have hlow : value u (j + 2) (k + 1) < 65536 ^ (k + 1) := hu.value_lt
      calc value u j (k + 3) < (value u j 2 + 1) * 65536 ^ (k + 1) := by
            rw [hsplit, Nat.add_one_mul]
            exact Nat.add_lt_add_left hlow _
        _ ≤ (e + 1) * (v 1).toNat * 65536 ^ (k + 1) := by
            apply Nat.mul_le_mul_right
            rw [htwo, Nat.add_one_mul]
            omega
        _ = (e + 1) * ((v 1).toNat * 65536 ^ (k + 1)) := Nat.mul_assoc _ _ _
        _ ≤ (e + 1) * V := by
            apply Nat.mul_le_mul_left
            rw [hVhead]
            exact Nat.le_add_right _ _
    · rw [UInt32.toNat_div, hnn]
      apply Nat.div_lt_of_lt_mul
      have hsucc : (u j).toNat + 1 ≤ (v 1).toNat := Nat.lt_of_le_of_ne hle hneNat
      omega

/-! ### D4 to D6 -/

/-- The digits that a loop over the `k` digits behind `j` leaves as they are. -/
def SameOutside (u u' : Digits) (j k : Nat) : Prop := ∀ i, i ≤ j ∨ j + k < i → u' i = u i

theorem value_congr {u' : Digits} {o : Nat} (h : ∀ i < k, u' (o + i) = u (o + i)) :
    value u' o k = value u o k :=
  numeral_congr fun i hi => congrArg UInt32.toNat (h i hi)

/-- One digit less a digit of a multiple and a borrow. -/
theorem subtract_digit {x y : UInt32} (hx : x.toNat < 65536) (hy : y.toNat < 65536)
    (hq : qhat.toNat < 65536) (ht : t.toNat < 65536) :
    (lhalf (x - y * qhat - t)).toNat + qhat.toNat * y.toNat + t.toNat =
        x.toNat + ((digitBase - hhalf (x - y * qhat - t)) &&& (digitBase - 1)).toNat * 65536 ∧
      ((digitBase - hhalf (x - y * qhat - t)) &&& (digitBase - 1)).toNat < 65536 := by
  have hle : y.toNat * qhat.toNat ≤ 65535 * 65535 :=
    Nat.mul_le_mul (Nat.le_of_lt_succ hy) (Nat.le_of_lt_succ hq)
  have hprod : (y * qhat).toNat = y.toNat * qhat.toNat := by
    rw [UInt32.toNat_mul]
    exact Nat.mod_eq_of_lt (by omega)
  have hdiff : (x - y * qhat - t).toNat =
      (4294967296 - t.toNat + (4294967296 - y.toNat * qhat.toNat + x.toNat) % 4294967296) %
        4294967296 := by
    rw [UInt32.toNat_sub, UInt32.toNat_sub, hprod]
  have hborrow : ((digitBase - hhalf (x - y * qhat - t)) &&& (digitBase - 1)).toNat =
      (65536 - (x - y * qhat - t).toNat / 65536) % 65536 := by
    have hhigh : (hhalf (x - y * qhat - t)).toNat = (x - y * qhat - t).toNat / 65536 := toNat_hhalf
    have hlt := (x - y * qhat - t).toNat_lt
    have hsub : (digitBase - hhalf (x - y * qhat - t)).toNat =
        65536 - (x - y * qhat - t).toNat / 65536 := by
      rw [UInt32.toNat_sub_of_le]
      · rw [hhigh]
        rfl
      · rw [UInt32.le_iff_toNat_le, hhigh]
        change _ ≤ 65536
        omega
    rw [UInt32.toNat_and, hsub]
    exact Nat.and_two_pow_sub_one_eq_mod _ 16
  rw [hborrow, toNat_lhalf, hdiff, Nat.mul_comm qhat.toNat]
  generalize y.toNat * qhat.toNat = p at hle
  omega

theorem multiplySubtract_spec (hu : AllDigits u) (hv : AllDigits v) (hq : qhat.toNat < 65536)
    (ht : t.toNat < 65536) :
    AllDigits (multiplySubtract v qhat j k u t).1 ∧
      (multiplySubtract v qhat j k u t).2.toNat < 65536 ∧
      SameOutside u (multiplySubtract v qhat j k u t).1 j k ∧
      value (multiplySubtract v qhat j k u t).1 (j + 1) k + qhat.toNat * value v 1 k + t.toNat =
        value u (j + 1) k + (multiplySubtract v qhat j k u t).2.toNat * 65536 ^ k := by
  induction k generalizing u t with
  | zero => exact ⟨hu, ht, fun _ _ => rfl, by simp [multiplySubtract, value, numeral]⟩
  | succ k ih =>
      obtain ⟨hdigit, hborrow⟩ := subtract_digit (hu (j + (k + 1))) (hv (k + 1)) hq ht
      rw [multiplySubtract]
      set x := u (j + (k + 1)) - v (k + 1) * qhat - t
      set u₁ := Function.update u (j + (k + 1)) (lhalf x) with hu₁
      set t₁ := (digitBase - hhalf x) &&& (digitBase - 1)
      obtain ⟨hall, hlt, hsame, hvalue⟩ := ih (u := u₁) (t := t₁) (hu.update lhalf_lt) hborrow
      refine ⟨hall, hlt, ?_, ?_⟩
      · intro i hi
        rw [hsame i (by omega), hu₁, Function.update_of_ne (by omega)]
      · have hlast : ((multiplySubtract v qhat j k u₁ t₁).1 (j + 1 + k)) = lhalf x := by
          rw [hsame _ (by omega), hu₁, Nat.add_right_comm j 1 k]
          exact Function.update_self ..
        have hbefore : value u₁ (j + 1) k = value u (j + 1) k := by
          apply value_congr
          intro i hi
          rw [hu₁, Function.update_of_ne (by omega)]
        have hindex : u (j + 1 + k) = u (j + (k + 1)) := by rw [Nat.add_right_comm j 1 k]; rfl
        have hone : v (1 + k) = v (k + 1) := by rw [Nat.add_comm]
        rw [hbefore] at hvalue
        simp only [value, numeral] at hvalue ⊢
        rw [hlast, hindex, hone, pow_succ]
        generalize numeral 65536 (fun i => ((multiplySubtract v qhat j k u₁ t₁).1 i).toNat)
          (j + 1) k = r at *
        calc (r * 65536 + (lhalf x).toNat) +
              qhat.toNat * (numeral 65536 (fun i => (v i).toNat) 1 k * 65536 + (v (k + 1)).toNat) +
              t.toNat
            = (r + qhat.toNat * numeral 65536 (fun i => (v i).toNat) 1 k) * 65536 +
                ((lhalf x).toNat + qhat.toNat * (v (k + 1)).toNat + t.toNat) := by ring
          _ = (r + qhat.toNat * numeral 65536 (fun i => (v i).toNat) 1 k + t₁.toNat) * 65536 +
                (u (j + (k + 1))).toNat := by
              rw [hdigit]
              ring
          _ = _ := by
              rw [hvalue]
              ring

theorem addBack_spec (hu : AllDigits u) (hv : AllDigits v) (ht : t.toNat ≤ 1) :
    AllDigits (addBack v j k u t).1 ∧ (addBack v j k u t).2.toNat ≤ 1 ∧
      SameOutside u (addBack v j k u t).1 j k ∧
      value (addBack v j k u t).1 (j + 1) k + (addBack v j k u t).2.toNat * 65536 ^ k =
        value u (j + 1) k + value v 1 k + t.toNat := by
  induction k generalizing u t with
  | zero => exact ⟨hu, ht, fun _ _ => rfl, by simp [addBack, value, numeral]⟩
  | succ k ih =>
      have hx := hu (j + (k + 1))
      have hy := hv (k + 1)
      have hsum : (t + (u (j + (k + 1)) + v (k + 1))).toNat =
          t.toNat + ((u (j + (k + 1))).toNat + (v (k + 1)).toNat) := by
        rw [UInt32.toNat_add, UInt32.toNat_add]
        omega
      rw [addBack]
      set x := t + (u (j + (k + 1)) + v (k + 1))
      set u₁ := Function.update u (j + (k + 1)) (lhalf x) with hu₁
      have hcarry : (hhalf x).toNat ≤ 1 := by
        rw [toNat_hhalf]
        omega
      obtain ⟨hall, hle, hsame, hvalue⟩ := ih (u := u₁) (t := hhalf x) (hu.update lhalf_lt) hcarry
      refine ⟨hall, hle, ?_, ?_⟩
      · intro i hi
        rw [hsame i (by omega), hu₁, Function.update_of_ne (by omega)]
      · have hlast : ((addBack v j k u₁ (hhalf x)).1 (j + 1 + k)) = lhalf x := by
          rw [hsame _ (by omega), hu₁, Nat.add_right_comm j 1 k]
          exact Function.update_self ..
        have hbefore : value u₁ (j + 1) k = value u (j + 1) k := by
          apply value_congr
          intro i hi
          rw [hu₁, Function.update_of_ne (by omega)]
        have hindex : u (j + 1 + k) = u (j + (k + 1)) := by rw [Nat.add_right_comm j 1 k]; rfl
        have hone : v (1 + k) = v (k + 1) := by rw [Nat.add_comm]
        have hdigit : (hhalf x).toNat * 65536 + (lhalf x).toNat = x.toNat := by
          rw [toNat_hhalf, toNat_lhalf]
          omega
        rw [hbefore] at hvalue
        simp only [value, numeral] at hvalue ⊢
        rw [hlast, hindex, hone, pow_succ]
        calc numeral 65536 (fun i => ((addBack v j k u₁ (hhalf x)).1 i).toNat) (j + 1) k * 65536 +
              (lhalf x).toNat + (addBack v j k u₁ (hhalf x)).2.toNat * (65536 ^ k * 65536)
            = (numeral 65536 (fun i => ((addBack v j k u₁ (hhalf x)).1 i).toNat) (j + 1) k +
                (addBack v j k u₁ (hhalf x)).2.toNat * 65536 ^ k) * 65536 + (lhalf x).toNat := by
              ring
          _ = (numeral 65536 (fun i => (u i).toNat) (j + 1) k +
                numeral 65536 (fun i => (v i).toNat) 1 k) * 65536 +
                ((hhalf x).toNat * 65536 + (lhalf x).toNat) := by
              rw [hvalue]
              ring
          _ = _ := by
              rw [hdigit, hsum]
              ring

/-- The first digit of the window less the borrow. -/
theorem subtract_first {x : UInt32} (hx : x.toNat < 65536) (ht : t.toNat < 65536) :
    (hhalf (x - t) = 0 → (lhalf (x - t)).toNat + t.toNat = x.toNat) ∧
      (hhalf (x - t) ≠ 0 → (lhalf (x - t)).toNat + t.toNat = x.toNat + 65536) := by
  have hdiff : (x - t).toNat = (4294967296 - t.toNat + x.toNat) % 4294967296 := by
    rw [UInt32.toNat_sub]
  have hzero : hhalf (x - t) = 0 ↔ (x - t).toNat / 65536 = 0 := by
    rw [← UInt32.toNat_inj, toNat_hhalf]
    rfl
  rw [ne_eq, hzero, toNat_lhalf, hdiff]
  omega

theorem value_update_first {x : UInt32} {u' : Digits} (hsame : ∀ i, j < i → u' i = u i)
    (hx : u' j = x) : value u' j (n + 1) = x.toNat * 65536 ^ n + value u (j + 1) n := by
  have hrest : value u' (j + 1) n = value u (j + 1) n :=
    value_congr fun i _ => hsame (j + 1 + i) (by omega)
  rw [← hrest, ← hx]
  exact value_head

/-- A round leaves the remainder of the window and gives its quotient. -/
theorem subtractMultiple_spec (hu : AllDigits u) (hv : AllDigits v) (hq : qhat.toNat < 65536)
    (hlow : value u j (n + 1) < (qhat.toNat + 1) * value v 1 n)
    (hhigh : (qhat.toNat - 1) * value v 1 n ≤ value u j (n + 1)) :
    AllDigits (subtractMultiple v n u j qhat).1 ∧
      (∀ i, i < j ∨ j + n < i → (subtractMultiple v n u j qhat).1 i = u i) ∧
      value (subtractMultiple v n u j qhat).1 j (n + 1) = value u j (n + 1) % value v 1 n ∧
      (subtractMultiple v n u j qhat).2.toNat = value u j (n + 1) / value v 1 n := by
  obtain ⟨hall, hborrow, hsame, hvalue⟩ := multiplySubtract_spec (j := j) (k := n) (t := 0) hu hv hq
    (by decide)
  unfold subtractMultiple
  generalize multiplySubtract v qhat j n u 0 = r at hall hborrow hsame hvalue
  obtain ⟨u₁, t₁⟩ := r
  dsimp only at hall hborrow hsame hvalue ⊢
  have hfirst := subtract_first (hall j) hborrow
  rw [hsame j (.inl (le_refl j))] at hfirst ⊢
  have hU : value u j (n + 1) = (u j).toNat * 65536 ^ n + value u (j + 1) n := value_head
  set t₂ := u j - t₁
  set u₂ := Function.update u₁ j (lhalf t₂) with hu₂
  have hall₂ : AllDigits u₂ := hall.update lhalf_lt
  have hzero : (0 : UInt32).toNat = 0 := rfl
  rw [hzero, Nat.add_zero] at hvalue
  -- the value with the multiple of the divisor, before and after the subtraction
  have hvalue₂ : value u₂ j (n + 1) = (lhalf t₂).toNat * 65536 ^ n + value u₁ (j + 1) n :=
    value_update_first (fun i hi => Function.update_of_ne (Nat.ne_of_gt hi) _ _)
      (Function.update_self ..)
  have hsum : value u₂ j (n + 1) + qhat.toNat * value v 1 n =
      ((lhalf t₂).toNat + t₁.toNat) * 65536 ^ n + value u (j + 1) n := by
    rw [hvalue₂, Nat.add_assoc, hvalue]
    ring
  split
  · rename_i hne
    rw [hfirst.2 hne, Nat.add_mul, Nat.add_right_comm, ← hU] at hsum
    have hbound : value u₂ j (n + 1) < 65536 * 65536 ^ n := by
      rw [Nat.mul_comm, ← pow_succ]
      exact hall₂.value_lt
    have hpos : 0 < qhat.toNat := by
      by_contra hq0
      rw [Nat.eq_zero_of_not_pos hq0, Nat.zero_mul] at hsum
      omega
    have hqV : qhat.toNat * value v 1 n = (qhat.toNat - 1) * value v 1 n + value v 1 n := by
      rw [← Nat.add_one_mul, Nat.sub_add_cancel hpos]
    obtain ⟨hall₃, hcarry, hsame₃, hvalue₃⟩ := addBack_spec (j := j) (k := n) (t := 0) hall₂ hv
      (by decide)
    generalize addBack v j n u₂ 0 = r at hall₃ hcarry hsame₃ hvalue₃
    obtain ⟨u₃, t₃⟩ := r
    dsimp only at hall₃ hcarry hsame₃ hvalue₃ ⊢
    rw [hzero, Nat.add_zero] at hvalue₃
    have hdec : (qhat - 1).toNat = qhat.toNat - 1 := by
      rw [UInt32.toNat_sub_of_le]
      · rfl
      · rw [UInt32.le_iff_toNat_le]
        exact hpos
    have hV : value v 1 n < 65536 ^ n := hv.value_lt
    have hrest : value u₃ (j + 1) n < 65536 ^ n := hall₃.value_lt
    have hhead : value u₂ j (n + 1) = (u₂ j).toNat * 65536 ^ n + value u₂ (j + 1) n := value_head
    -- the remainder, with the digit that is carried out of the window
    have hback : ((u₂ j).toNat + t₃.toNat) * 65536 ^ n + value u₃ (j + 1) n =
        65536 * 65536 ^ n + (value u j (n + 1) - (qhat.toNat - 1) * value v 1 n) := by
      rw [Nat.add_mul]
      omega
    have hlt : value u j (n + 1) - (qhat.toNat - 1) * value v 1 n < value v 1 n := by omega
    have htop : (u₂ j).toNat + t₃.toNat = 65536 := by
      have hdiv := congrArg (· / 65536 ^ n) hback
      simp only [Nat.mul_comm _ (65536 ^ n), Nat.mul_add_div (Nat.pow_pos (by decide : 0 < 65536)),
        Nat.div_eq_of_lt hrest, Nat.div_eq_of_lt (hlt.trans hV), Nat.add_zero] at hdiv
      exact hdiv
    rw [htop] at hback
    have hsumtop : (lhalf (u₃ j + t₃)).toNat = 0 := by
      rw [hsame₃ j (.inl (le_refl j)), toNat_lhalf, UInt32.toNat_add, htop]
    refine ⟨hall₃.update lhalf_lt, ?_, ?_, ?_⟩
    · intro i hi
      rw [Function.update_of_ne (by omega), hsame₃ i (by omega), hu₂,
        Function.update_of_ne (by omega), hsame i (by omega)]
    · rw [value_update_first (fun i hi => Function.update_of_ne (Nat.ne_of_gt hi) _ _)
        (Function.update_self ..), hsumtop, Nat.zero_mul, Nat.zero_add,
        Nat.add_left_cancel hback]
      have hsplit : value u j (n + 1) = (value u j (n + 1) - (qhat.toNat - 1) * value v 1 n) +
          value v 1 n * (qhat.toNat - 1) := by
        rw [Nat.mul_comm (value v 1 n)]
        omega
      conv_rhs => rw [hsplit, Nat.add_mul_mod_self_left, Nat.mod_eq_of_lt hlt]
    · rw [hdec]
      refine (Nat.div_eq_of_lt_le hhigh ?_).symm
      rw [Nat.sub_add_cancel hpos]
      omega
  · rename_i hnot
    rw [hfirst.1 (not_not.mp hnot), ← hU] at hsum
    have hlt : value u₂ j (n + 1) < value v 1 n := by
      rw [Nat.add_one_mul] at hlow
      omega
    refine ⟨hall₂, ?_, ?_, ?_⟩
    · intro i hi
      change u₂ i = u i
      rw [hu₂, Function.update_of_ne (by omega), hsame i (by omega)]
    · rw [← hsum, Nat.mul_comm, Nat.add_mul_mod_self_left, Nat.mod_eq_of_lt hlt]
    · refine (Nat.div_eq_of_lt_le ?_ hlow).symm
      rw [← hsum]
      exact Nat.le_add_left _ _

/-! ### The rounds -/

theorem divisionLoop_spec (hv : AllDigits v) (hv1 : 32768 ≤ (v 1).toNat) {uAt : Nat}
    (qAt : Nat) (hu : AllDigits u) (hq : AllDigits q)
    (hlt : value u uAt (n + 2) < value v 1 (n + 2)) :
    ∃ u' q', divisionLoop v (n + 2) k uAt qAt u q = some (u', q') ∧ AllDigits u' ∧ AllDigits q' ∧
      (∀ i, i < uAt → u' i = u i) ∧ (∀ i < k, u' (uAt + i) = 0) ∧
      (∀ i, i < qAt → q' i = q i) ∧
      value q' qAt k = value u uAt (n + 2 + k) / value v 1 (n + 2) ∧
      value u' (uAt + k) (n + 2) = value u uAt (n + 2 + k) % value v 1 (n + 2) := by
  induction k generalizing uAt qAt u q with
  | zero =>
      refine ⟨u, q, rfl, hu, hq, fun _ _ => rfl, fun _ h => absurd h (Nat.not_lt_zero _),
        fun _ _ => rfl, ?_, ?_⟩
      · rw [Nat.add_zero, Nat.div_eq_of_lt hlt]
        rfl
      · rw [Nat.add_zero, Nat.add_zero, Nat.mod_eq_of_lt hlt]
  | succ k ih =>
      obtain ⟨qhat, hqhat, hdigit, hlow, hhigh⟩ := quotientDigit_spec hu hv hv1 hlt
      obtain ⟨hall, hsame, hmod, hdiv⟩ := subtractMultiple_spec (n := n + 2) hu hv hdigit hlow hhigh
      rw [divisionLoop, hqhat]
      dsimp only
      generalize subtractMultiple v (n + 2) u uAt qhat = r at hall hsame hmod hdiv
      obtain ⟨u₁, q₁⟩ := r
      dsimp only at hall hsame hmod hdiv ⊢
      have hVpos : 0 < value v 1 (n + 2) := Nat.zero_lt_of_lt hlt
      have hVlt : value v 1 (n + 2) < 65536 ^ (n + 2) := hv.value_lt
      have hRlt : value u₁ uAt (n + 2 + 1) < value v 1 (n + 2) := by
        rw [hmod]
        exact Nat.mod_lt _ hVpos
      have htop : u₁ uAt = 0 := UInt32.toNat_inj.mp
        (digit_eq_zero_of_numeral_lt (d := fun i => (u₁ i).toNat) (hRlt.trans hVlt))
      have hnext : value u₁ (uAt + 1) (n + 2) = value u₁ uAt (n + 2 + 1) := by
        have hhead : value u₁ uAt (n + 2 + 1) =
            (u₁ uAt).toNat * 65536 ^ (n + 2) + value u₁ (uAt + 1) (n + 2) := value_head
        rw [hhead, htop]
        simp
      have hq₁ : q₁.toNat < 65536 := by
        rw [hdiv]
        apply Nat.div_lt_of_lt_mul
        have hlast : value u uAt (n + 2 + 1) =
            value u uAt (n + 2) * 65536 + (u (uAt + (n + 2))).toNat := rfl
        have hdig := hu (uAt + (n + 2))
        rw [hlast, Nat.mul_comm]
        omega
      obtain ⟨u', q', hrun, hallu, hallq, hframe, hzero, hqframe, hquot, hrem⟩ :=
        ih (qAt + 1) hall (hq.update hq₁) (hnext.trans_lt hRlt)
      -- the digits behind the window have not changed
      have htail : value u₁ (uAt + (n + 2 + 1)) k = value u (uAt + (n + 2 + 1)) k := by
        apply value_congr
        intro i _
        exact hsame _ (by omega)
      have hwhole : value u uAt (n + 2 + (k + 1)) =
          value u uAt (n + 2 + 1) * 65536 ^ k + value u (uAt + (n + 2 + 1)) k := by
        rw [show n + 2 + (k + 1) = n + 2 + 1 + k by omega]
        exact numeral_add
      have hwhole₁ : value u₁ (uAt + 1) (n + 2 + k) =
          value u uAt (n + 2 + 1) % value v 1 (n + 2) * 65536 ^ k +
            value u (uAt + (n + 2 + 1)) k := by
        rw [← hmod, ← hnext, ← htail, show uAt + (n + 2 + 1) = uAt + 1 + (n + 2) by omega]
        exact numeral_add
      have hsplit : value u uAt (n + 2 + (k + 1)) = value u₁ (uAt + 1) (n + 2 + k) +
          value v 1 (n + 2) * (value u uAt (n + 2 + 1) / value v 1 (n + 2) * 65536 ^ k) := by
        rw [hwhole, hwhole₁]
        conv_lhs => rw [← Nat.mod_add_div (value u uAt (n + 2 + 1)) (value v 1 (n + 2))]
        ring
      refine ⟨u', q', hrun, hallu, hallq, ?_, ?_, ?_, ?_, ?_⟩
      · intro i hi
        rw [hframe i (by omega), hsame i (by omega)]
      · intro i hi
        cases i with
        | zero =>
            rw [Nat.add_zero, hframe uAt (Nat.lt_succ_self uAt)]
            exact htop
        | succ i =>
            rw [show uAt + (i + 1) = uAt + 1 + i by omega]
            exact hzero i (Nat.lt_of_succ_lt_succ hi)
      · intro i hi
        rw [hqframe i (by omega), Function.update_of_ne (by omega)]
      · have hhead : value q' qAt (k + 1) =
            (q' qAt).toNat * 65536 ^ k + value q' (qAt + 1) k := value_head
        rw [hhead, hqframe qAt (Nat.lt_succ_self qAt), Function.update_self, hdiv, hquot, hsplit,
          Nat.add_mul_div_left _ _ hVpos, Nat.add_comm]
      · rw [show uAt + (k + 1) = uAt + 1 + k by omega, hrem, hsplit, Nat.add_mul_mod_self_left]

end CodingSample.Util
