import CodingSample.Util.ProgramD
import Mathlib.Tactic.NormNum

/-!
# `__qdivrem` divides

For all operands of 64 bits, by whichever of the three ways the source takes.
-/

namespace CodingSample.Util

variable {u v : Digits} {k d o : Nat}

/-! ### The lengths -/

theorem divisorLength_cases (v : Digits) :
    (divisorLength v 4 = 1 ∧ v 1 = 0 ∧ v 2 = 0 ∧ v 3 = 0) ∨
      ∃ k ≤ 2, divisorLength v 4 = k + 2 ∧ v (3 - k) ≠ 0 ∧ ∀ i, 1 ≤ i → i < 3 - k → v i = 0 := by
  by_cases h1 : v 1 = 0
  · by_cases h2 : v 2 = 0
    · by_cases h3 : v 3 = 0
      · exact .inl ⟨by simp [divisorLength, h1, h2, h3], h1, h2, h3⟩
      · refine .inr ⟨0, by decide, by simp [divisorLength, h1, h2, h3], h3, fun i hi hlt => ?_⟩
        obtain rfl | rfl : i = 1 ∨ i = 2 := by omega
        · exact h1
        · exact h2
    · refine .inr ⟨1, by decide, by simp [divisorLength, h1, h2], h2, fun i hi hlt => ?_⟩
      obtain rfl : i = 1 := by omega
      exact h1
  · exact .inr ⟨2, by decide, by simp [divisorLength, h1], h1, fun i hi hlt => by omega⟩

theorem dividendStart_spec {fuel : Nat} (h : ∃ i < fuel, u (o + 1 + i) ≠ 0) :
    ∃ e < fuel, dividendStart u fuel o = some (o + e) ∧ u (o + e + 1) ≠ 0 ∧
      ∀ i < e, u (o + 1 + i) = 0 := by
  induction fuel generalizing o with
  | zero =>
      obtain ⟨i, hi, -⟩ := h
      exact absurd hi (Nat.not_lt_zero i)
  | succ fuel ih =>
      rw [dividendStart]
      split
      · rename_i hzero
        obtain ⟨i, hi, hne⟩ := h
        have hnext : ∃ i < fuel, u (o + 1 + 1 + i) ≠ 0 := by
          cases i with
          | zero => exact absurd hzero hne
          | succ i => exact ⟨i, Nat.lt_of_succ_lt_succ hi, by rwa [Nat.add_right_comm (o + 1) 1 i]⟩
        obtain ⟨e, he, hstart, hdigit, hbefore⟩ := ih hnext
        refine ⟨e + 1, Nat.succ_lt_succ he, ?_, ?_, ?_⟩
        · rw [hstart, Nat.add_right_comm o 1 e, Nat.add_assoc]
        · rwa [Nat.add_right_comm o 1 e] at hdigit
        · intro i hi
          cases i with
          | zero => exact hzero
          | succ i =>
              have hi' := hbefore i (Nat.lt_of_succ_lt_succ hi)
              rwa [Nat.add_right_comm (o + 1) 1 i] at hi'
      · rename_i hne
        exact ⟨0, Nat.succ_pos fuel, rfl, hne, fun i hi => absurd hi (Nat.not_lt_zero i)⟩

theorem normalizer_spec {fuel : Nat} {t : UInt32} (ht : t.toNat < 65536)
    (hfuel : 32768 ≤ t.toNat * 2 ^ fuel) :
    ∃ e, normalizer (fuel + 1) t d = some (d + e) ∧ 32768 ≤ t.toNat * 2 ^ e ∧
      t.toNat * 2 ^ e < 65536 := by
  have hhalf : (digitBase / 2).toNat = 32768 := rfl
  induction fuel generalizing t d with
  | zero =>
      rw [pow_zero, Nat.mul_one] at hfuel
      refine ⟨0, ?_, by simpa using hfuel, by simpa using ht⟩
      rw [normalizer, if_neg (by rw [UInt32.lt_iff_toNat_lt, hhalf]; omega), Nat.add_zero]
  | succ fuel ih =>
      rw [normalizer]
      split
      · rename_i hlt
        rw [UInt32.lt_iff_toNat_lt, hhalf] at hlt
        have hshift : (t <<< 1).toNat = t.toNat * 2 := by
          rw [UInt32.toNat_shiftLeft]
          simp only [UInt32.reduceToNat, Nat.reduceMod, Nat.shiftLeft_eq, Nat.reducePow]
          omega
        obtain ⟨e, he, hge, hle⟩ := ih (d := d + 1) (t := t <<< 1) (by omega)
          (by rw [hshift, Nat.mul_assoc, ← pow_succ']; exact hfuel)
        rw [hshift, Nat.mul_assoc, ← pow_succ'] at hge hle
        exact ⟨e + 1, by rw [he, Nat.add_right_comm d 1 e, Nat.add_assoc], hge, hle⟩
      · rename_i hge
        rw [UInt32.lt_iff_toNat_lt, hhalf] at hge
        exact ⟨0, rfl, by rw [pow_zero]; omega, by rw [pow_zero]; omega⟩

/-! ### Program D as a whole -/

theorem value_offset (c : Nat) : value (fun i => v (c + i)) o k = value v (c + o) k := by
  unfold value
  induction k with
  | zero => rfl
  | succ k ih => rw [numeral, numeral, ih, Nat.add_assoc]

/-- The digits that are shifted if there is something to shift by. -/
theorem shl_of_pos (h : AllDigits u) (hd : d ≤ 16) (htop : (u o).toNat < 2 ^ (16 - d)) :
    ∃ u', (if d > 0 then shl (UInt32.ofNat d) o k 0 u else u) = u' ∧ AllDigits u' ∧
      value u' o (k + 1) = value u o (k + 1) * 2 ^ d ∧ ∀ i < o, u' i = u i := by
  refine ⟨_, rfl, ?_⟩
  split
  · refine ⟨allDigits_shl h hd, value_shl h hd htop, fun i hi => ?_⟩
    rw [shl_apply, if_pos (by omega)]
  · rename_i hzero
    rw [Nat.eq_zero_of_not_pos hzero, pow_zero, Nat.mul_one]
    exact ⟨h, rfl, fun _ _ => rfl⟩

/-- The remainder, shifted back. -/
theorem shiftBack_of_pos {r : Nat} (h : AllDigits u) (hd : d ≤ 16) (hzero : ∀ i ≤ o, u i = 0)
    (hvalue : value u (o + 1) k = r * 2 ^ d) :
    ∃ u', (if d > 0 then shiftBack (UInt32.ofNat d) k (o + k) u else u) = u' ∧ AllDigits u' ∧
      value u' 1 (o + k) = r := by
  have hleading : ∀ {u' : Digits}, (∀ i ≤ o, u' i = 0) →
      value u' 1 (o + k) = value u' (o + 1) k := by
    intro u' hu'
    rw [Nat.add_comm o 1]
    refine numeral_of_leading fun i hi => ?_
    rw [hu' (1 + i) (by omega)]
    rfl
  refine ⟨_, rfl, ?_⟩
  split
  · refine ⟨allDigits_shiftBack h hd, ?_⟩
    rw [hleading]
    · obtain ⟨e, he, heq⟩ := value_shiftBack (k := k) h hd (hzero o (Nat.le_refl o))
      rw [hvalue] at heq
      have hdiv := congrArg (· / 2 ^ d) heq
      simp only [Nat.mul_comm _ (2 ^ d), Nat.mul_add_div (Nat.two_pow_pos d), Nat.div_eq_of_lt he,
        Nat.mul_div_cancel_left _ (Nat.two_pow_pos d), Nat.add_zero] at hdiv
      exact hdiv.symm
    · intro i hi
      rw [shiftBack_apply]
      rcases Nat.lt_or_eq_of_le hi with hlt | heq
      · rw [if_pos (.inl hlt), hzero i hi]
      · rw [if_neg (by omega), if_pos heq]
  · rename_i hnot
    rw [Nat.eq_zero_of_not_pos hnot, pow_zero, Nat.mul_one] at hvalue
    exact ⟨h, (hleading hzero).trans hvalue⟩

theorem longDivision_spec {U V : UInt64} (hk : k ≤ 2) (hle : V.toNat ≤ U.toNat)
    (hv : AllDigits v) (hv1 : v 1 ≠ 0) (hV : value v 1 (k + 2) = V.toNat) :
    longDivision (digitsOf U) v (k + 2) = some (U / V, U % V) := by
  have hu := allDigits_digitsOf U
  have hU := value_digitsOf U
  have hv1pos : 0 < (v 1).toNat := Nat.pos_of_ne_zero fun h => hv1 (UInt32.toNat_inj.mp h)
  have hVge : 65536 ^ (k + 1) ≤ V.toNat := by
    rw [← hV, value_head]
    exact (Nat.le_mul_of_pos_left _ hv1pos).trans (Nat.le_add_right _ _)
  have hVpos : 0 < V.toNat := (Nat.pow_pos (by decide)).trans_le hVge
  -- where the dividend starts
  have hstart : ∃ i < 4, digitsOf U (0 + 1 + i) ≠ 0 := by
    by_contra hno
    have hzero : value (digitsOf U) 1 4 = 0 := by
      refine numeral_of_zero fun i hi => ?_
      have hdigit : digitsOf U (1 + i) = 0 := by
        by_contra hne
        exact hno ⟨i, hi, hne⟩
      rw [hdigit]
      rfl
    omega
  obtain ⟨o, ho, hdividend, -, hbefore⟩ := dividendStart_spec hstart
  rw [Nat.zero_add] at hdividend
  have hzero : ∀ i ≤ o, digitsOf U i = 0 := by
    intro i hi
    cases i with
    | zero => rfl
    | succ i =>
        have h := hbefore i hi
        rwa [Nat.zero_add, Nat.add_comm 1 i] at h
  have hUstart : value (digitsOf U) (o + 1) (4 - o) = U.toNat := by
    rw [← hU, show (4 : Nat) = o + (4 - o) by omega, Nat.add_comm o 1, Nat.add_sub_cancel_left]
    refine (numeral_of_leading fun i hi => ?_).symm
    rw [hzero (1 + i) (by omega)]
    rfl
  have hUlt : U.toNat < 65536 ^ (4 - o) := hUstart ▸ hu.value_lt
  have hlen : k + 1 < 4 - o :=
    (Nat.pow_lt_pow_iff_right (by decide : 1 < 65536)).mp (hVge.trans_lt (hle.trans_lt hUlt))
  obtain ⟨m, hm⟩ : ∃ m, 4 - (k + 2) - o = m := ⟨_, rfl⟩
  have htotal : o + m + (k + 2) = 4 := by omega
  -- the normalized operands
  have hlong : 32768 ≤ (v 1).toNat * 2 ^ 16 := by omega
  obtain ⟨d, hd, hdge, hdlt⟩ := normalizer_spec (d := 0) (hv 1) hlong
  rw [Nat.zero_add] at hd
  have hd16 : d ≤ 16 := by
    have hpow : 2 ^ d ≤ 2 ^ 16 := (Nat.le_mul_of_pos_left _ hv1pos).trans (Nat.le_of_lt hdlt)
    exact (Nat.pow_le_pow_iff_right (by decide : 1 < 2)).mp hpow
  have hutop : (digitsOf U o).toNat < 2 ^ (16 - d) := by
    rw [hzero o (Nat.le_refl o)]
    exact Nat.two_pow_pos _
  have hvtop : (v 1).toNat < 2 ^ (16 - d) := by
    rw [← two_pow_mul hd16, Nat.mul_comm] at hdlt
    exact Nat.lt_of_mul_lt_mul_left hdlt
  obtain ⟨u₁, hu₁, hall₁, hvalue₁, hframe₁⟩ := shl_of_pos (k := m + (k + 2)) hu hd16 hutop
  obtain ⟨v₁, hv₁, hallv, hvaluev, -⟩ := shl_of_pos (k := k + 1) hv hd16 hvtop
  have hu₁value : value u₁ o (m + (k + 2) + 1) = U.toNat * 2 ^ d := by
    rw [hvalue₁, value_head, hzero o (Nat.le_refl o), ← hUstart, show m + (k + 2) = 4 - o by omega]
    simp
  have hv₁value : value v₁ 1 (k + 2) = V.toNat * 2 ^ d := by rw [hvaluev, hV]
  have hv₁one : 32768 ≤ (v₁ 1).toNat := by
    have hlow : value v₁ (1 + 1) (k + 1) < 65536 ^ (k + 1) := hallv.value_lt
    have hhead : V.toNat * 2 ^ d = (v₁ 1).toNat * 65536 ^ (k + 1) + value v₁ (1 + 1) (k + 1) := by
      rw [← hv₁value, value_head]
    have hge : 32768 * 65536 ^ (k + 1) ≤ V.toNat * 2 ^ d :=
      calc 32768 * 65536 ^ (k + 1) ≤ (v 1).toNat * 2 ^ d * 65536 ^ (k + 1) :=
            Nat.mul_le_mul_right _ hdge
        _ = (v 1).toNat * 65536 ^ (k + 1) * 2 ^ d := Nat.mul_right_comm _ _ _
        _ ≤ V.toNat * 2 ^ d := by
            apply Nat.mul_le_mul_right
            rw [← hV, value_head]
            exact Nat.le_add_right _ _
    by_contra hlt
    have hmul : ((v₁ 1).toNat + 1) * 65536 ^ (k + 1) ≤ 32768 * 65536 ^ (k + 1) :=
      Nat.mul_le_mul_right _ (Nat.lt_of_not_le hlt)
    rw [Nat.add_one_mul] at hmul
    omega
  have hwindow : value u₁ o (k + 2) < value v₁ 1 (k + 2) := by
    have hsplit : value u₁ o (k + 2 + (m + 1)) =
        value u₁ o (k + 2) * 65536 ^ (m + 1) + value u₁ (o + (k + 2)) (m + 1) := numeral_add
    rw [show k + 2 + (m + 1) = m + (k + 2) + 1 by omega, hu₁value] at hsplit
    rw [hv₁value]
    refine Nat.lt_of_mul_lt_mul_right (a := 65536 ^ (m + 1)) ?_
    calc value u₁ o (k + 2) * 65536 ^ (m + 1) ≤ U.toNat * 2 ^ d := by omega
      _ < 65536 ^ (4 - o) * 2 ^ d := Nat.mul_lt_mul_of_pos_right hUlt (Nat.two_pow_pos d)
      _ = 65536 ^ (k + 1) * 2 ^ d * 65536 ^ (m + 1) := by
          rw [show 4 - o = k + 1 + (m + 1) by omega, pow_add]
          ring
      _ ≤ V.toNat * 2 ^ d * 65536 ^ (m + 1) :=
          Nat.mul_le_mul_right _ (Nat.mul_le_mul_right _ hVge)
  have hallq : AllDigits fun _ => 0 := fun _ => (by decide : (0 : UInt32).toNat < 65536)
  obtain ⟨u₂, q, hloop, hall₂, hallq, hframe₂, hzero₂, hqzero, hquot, hrem⟩ :=
    divisionLoop_spec (k := m + 1) hallv hv₁one (4 - m) hall₁ hallq hwindow
  rw [show k + 2 + (m + 1) = m + (k + 2) + 1 by omega, hu₁value, hv₁value] at hquot hrem
  rw [Nat.mul_div_mul_right _ _ (Nat.two_pow_pos d)] at hquot
  rw [Nat.mul_mod_mul_right, ← Nat.add_assoc] at hrem
  -- the remainder
  have hclear : ∀ i ≤ o + m, u₂ i = 0 := by
    intro i hi
    by_cases hio : i < o
    · rw [hframe₂ i hio, hframe₁ i hio, hzero i (Nat.le_of_lt hio)]
    · have h := hzero₂ (i - o) (by omega)
      rwa [Nat.add_sub_cancel' (Nat.not_lt.mp hio)] at h
  obtain ⟨u₃, hu₃, hall₃, hvalue₃⟩ := shiftBack_of_pos hall₂ hd16 hclear hrem
  rw [htotal] at hvalue₃ hu₃
  have hqvalue : value q 1 4 = U.toNat / V.toNat := by
    rw [← hquot, show (4 : Nat) = 3 - m + (m + 1) by omega]
    have hleading := numeral_of_leading (b := 65536) (d := fun i => (q i).toNat) (o := 1)
      (k := 3 - m) (l := m + 1) fun i hi => by
        rw [hqzero (1 + i) (by omega)]
        rfl
    rw [show 1 + (3 - m) = 4 - m by omega] at hleading
    rw [show 3 - m + (m + 1) - m = 4 - m by omega]
    exact hleading
  simp only [longDivision, hdividend, hd, Option.bind_eq_bind, Option.bind_some, hm, htotal]
  rw [show k + 2 - 1 = k + 1 by omega, hu₁, hv₁, hloop]
  simp only [Option.bind_some, hu₃, Option.pure_def, Option.some.injEq, Prod.mk.injEq]
  constructor
  · rw [← UInt64.toNat_inj, toNat_quad_combine hallq, hqvalue, UInt64.toNat_div]
  · rw [← UInt64.toNat_inj, toNat_quad_combine hall₃, hvalue₃, UInt64.toNat_mod]

/-! ### A divisor of one digit -/

theorem div_step (a b t : Nat) :
    (a * 65536 + b) / t = a / t * 65536 + (a % t * 65536 + b) / t ∧
      (a * 65536 + b) % t = (a % t * 65536 + b) % t := by
  have hsplit : a * 65536 + b = a % t * 65536 + b + t * (a / t * 65536) := by
    conv_lhs => rw [← Nat.mod_add_div a t]
    ring
  rcases Nat.eq_zero_or_pos t with rfl | ht
  · simp
  · rw [hsplit, Nat.add_mul_div_left _ _ ht, Nat.add_mul_mod_self_left, Nat.add_comm]
    exact ⟨rfl, rfl⟩

/-- One step of the division by a digit. -/
theorem short_step {r x t : UInt32} (hr : r.toNat < t.toNat) (ht : t.toNat < 65536)
    (hx : x.toNat < 65536) :
    (combine r x / t).toNat = (r.toNat * 65536 + x.toNat) / t.toNat ∧
      (combine r x % t).toNat = (r.toNat * 65536 + x.toNat) % t.toNat ∧
      (combine r x / t).toNat < 65536 ∧ (combine r x % t).toNat < t.toNat := by
  have hcombine := toNat_combine (hr.trans ht) hx
  have hdiv : (combine r x / t).toNat = (r.toNat * 65536 + x.toNat) / t.toNat := by
    rw [UInt32.toNat_div, hcombine]
  have hmod : (combine r x % t).toNat = (r.toNat * 65536 + x.toNat) % t.toNat := by
    rw [UInt32.toNat_mod, hcombine]
  refine ⟨hdiv, hmod, ?_, ?_⟩
  · rw [hdiv]
    apply Nat.div_lt_of_lt_mul
    omega
  · rw [hmod]
    exact Nat.mod_lt _ (Nat.zero_lt_of_lt hr)

theorem shortDivision_spec {U V : UInt64} {t : UInt32} (ht : t.toNat = V.toNat)
    (htlt : t.toNat < 65536) (htpos : 0 < t.toNat) :
    shortDivision (digitsOf U) t = (U / V, U % V) := by
  have hu := allDigits_digitsOf U
  have hvalue : value (digitsOf U) 1 4 = (((digitsOf U 1).toNat * 65536 + (digitsOf U 2).toNat) *
      65536 + (digitsOf U 3).toNat) * 65536 + (digitsOf U 4).toNat := by
    simp [value, numeral]
  have hU := value_digitsOf U
  rw [hvalue] at hU
  have hr1 : (digitsOf U 1 % t).toNat < t.toNat := by
    rw [UInt32.toNat_mod]
    exact Nat.mod_lt _ htpos
  obtain ⟨hq2, hm2, hlt2, hr2⟩ := short_step hr1 htlt (hu 2)
  obtain ⟨hq3, hm3, hlt3, hr3⟩ := short_step hr2 htlt (hu 3)
  obtain ⟨hq4, hm4, hlt4, hr4⟩ := short_step hr3 htlt (hu 4)
  have hlt1 : (digitsOf U 1 / t).toNat < 65536 := by
    rw [UInt32.toNat_div]
    exact (Nat.div_le_self _ _).trans_lt (hu 1)
  rw [UInt32.toNat_mod (digitsOf U 1) t] at hq2 hm2
  -- the steps, from the first digits on
  have step2 := div_step (digitsOf U 1).toNat (digitsOf U 2).toNat t.toNat
  have step3 := div_step ((digitsOf U 1).toNat * 65536 + (digitsOf U 2).toNat)
    (digitsOf U 3).toNat t.toNat
  have step4 := div_step (((digitsOf U 1).toNat * 65536 + (digitsOf U 2).toNat) * 65536 +
    (digitsOf U 3).toNat) (digitsOf U 4).toNat t.toNat
  rw [step2.2, ← hm2] at step3
  rw [step3.2, ← hm3, ← hq4, ← hm4, step3.1, ← hq3, step2.1, ← hq2, hU, ht] at step4
  simp only [shortDivision, Prod.mk.injEq]
  constructor
  · rw [← UInt64.toNat_inj, toNat_quad, toNat_combine hlt1 hlt2, toNat_combine hlt3 hlt4,
      UInt64.toNat_div, step4.1, UInt32.toNat_div (digitsOf U 1), ht]
    ring
  · rw [← UInt64.toNat_inj, UInt32.toNat_toUInt64, UInt64.toNat_mod, step4.2]

/-! ### The whole function -/

theorem qdivrem_eq (uq vq : UInt64) :
    qdivrem uq vq = if vq = 0 then none else some (uq / vq, uq % vq) := by
  unfold qdivrem
  split
  · rfl
  rename_i hzero
  have hpos : 0 < vq.toNat := Nat.pos_of_ne_zero fun h => hzero (UInt64.toNat_inj.mp h)
  split
  · rename_i hlt
    rw [UInt64.lt_iff_toNat_lt] at hlt
    refine congrArg some (Prod.ext ?_ ?_)
    · rw [← UInt64.toNat_inj, UInt64.toNat_div, Nat.div_eq_of_lt hlt]
      rfl
    · rw [← UInt64.toNat_inj, UInt64.toNat_mod, Nat.mod_eq_of_lt hlt]
  rename_i hle
  rw [UInt64.lt_iff_toNat_lt, Nat.not_lt] at hle
  have hv := allDigits_digitsOf vq
  have hvalue := value_digitsOf vq
  dsimp only
  rcases divisorLength_cases (digitsOf vq) with ⟨hone, h1, h2, h3⟩ | ⟨k, hk, hlen, hne, hbefore⟩
  · rw [if_pos hone]
    have hdigit : (digitsOf vq 4).toNat = vq.toNat := by
      rw [← hvalue]
      simp [value, numeral, h1, h2, h3]
    rw [shortDivision_spec hdigit (hv 4) (hdigit.symm ▸ hpos)]
  · rw [if_neg (by omega), hlen]
    have hfirst : 4 - (k + 2) + 1 = 3 - k := by omega
    refine longDivision_spec hk hle (fun i => hv _) (hfirst.symm ▸ hne) ?_
    rw [value_offset, hfirst, ← hvalue]
    have hleading := numeral_of_leading (b := 65536) (d := fun i => (digitsOf vq i).toNat) (o := 1)
      (k := 2 - k) (l := k + 2) fun i hi => by
        rw [hbefore (1 + i) (by omega) (by omega)]
        rfl
    rw [show 2 - k + (k + 2) = 4 by omega, show 1 + (2 - k) = 3 - k by omega] at hleading
    exact hleading.symm

theorem decide_lt_zero (x : Int64) : decide (x < 0) = x.toBitVec.msb := by
  rw [← BitVec.slt_zero_eq_msb]
  exact Bool.decide_eq_true

theorem divdi3_eq (x y : Int64) : divdi3 x y = if y = 0 then none else some (x / y) := by
  have hzero : y = 0 ↔ y.toBitVec = 0 := Int64.toBitVec_inj.symm
  have hub : (if y < 0 then -y.toUInt64 else y.toUInt64) = 0 ↔ y = 0 := by
    rw [hzero, ← UInt64.toBitVec_inj]
    split
    · simp
    · simp
  unfold divdi3
  dsimp only
  rw [qdivrem_eq]
  simp only [hub]
  by_cases hy0 : y = 0
  · rw [if_pos hy0, if_pos hy0]
    rfl
  · rw [if_neg hy0, if_neg hy0, Option.map_some]
    refine congrArg some (Int64.toBitVec_inj.mp ?_)
    have hx := decide_lt_zero x
    have hy := decide_lt_zero y
    rw [Int64.toBitVec_div, BitVec.sdiv, ← hx, ← hy]
    by_cases hxlt : x < 0 <;> by_cases hylt : y < 0
    · simp [hxlt, hylt]
    · simp [hxlt, hylt]
    · simp [hxlt, hylt]
    · simp [hxlt, hylt]

/-- The routines divide for all operands, the signed one towards zero; a divisor of zero traps. -/
theorem divides (a b : UInt64) (x y : Int64) :
    qdivrem a b = (if b = 0 then none else some (a / b, a % b)) ∧
      udivdi3 a b = (if b = 0 then none else some (a / b)) ∧
      umoddi3 a b = (if b = 0 then none else some (a % b)) ∧
      divdi3 x y = if y = 0 then none else some (x / y) := by
  refine ⟨qdivrem_eq a b, ?_, ?_, ?_⟩
  · rw [udivdi3, qdivrem_eq]
    split <;> rfl
  · rw [umoddi3, qdivrem_eq]
    split <;> rfl
  · exact divdi3_eq x y

end CodingSample.Util
