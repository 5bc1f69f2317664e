import Mathlib.Data.Nat.Find
import Mathlib.Tactic.Common
import Mathlib.Tactic.Ring
import Mathlib.Algebra.Order.Ring.Nat

/-!
# Tilings by dyadic blocks

The block `(k, i)` is the range of the numbers `p` with `p / 2 ^ k = i`. A family of blocks tiles
the numbers below `n` if each lies in one block and no block reaches past `n`. Two halves can be
joined and a block can be split; a tiling in which no two halves are left to join is the one by the
greatest blocks.
-/

namespace CodingSample.DyadicTiling

variable {n m k l i j p : Nat} {T : Nat → Nat → Prop}

theorem div_succ (p k : Nat) : p / 2 ^ (k + 1) = p / 2 ^ k / 2 := by
  rw [pow_succ, Nat.div_div_eq_div_mul]

theorem mul_div_self (i k : Nat) : i * 2 ^ k / 2 ^ k = i :=
  Nat.mul_div_cancel i (Nat.two_pow_pos k)

theorem parent_end (k i : Nat) : (i + 1) * 2 ^ (k + 1) = (2 * i + 2) * 2 ^ k := by
  rw [pow_succ]
  ring

/-- A larger block with the same number ends later. -/
theorem end_mono (h : k ≤ l) : (p / 2 ^ k + 1) * 2 ^ k ≤ (p / 2 ^ l + 1) * 2 ^ l := by
  induction l, h using Nat.le_induction with
  | base => exact le_refl _
  | succ l _ ih =>
      calc (p / 2 ^ k + 1) * 2 ^ k ≤ (p / 2 ^ l + 1) * 2 ^ l := ih
        _ ≤ (2 * (p / 2 ^ (l + 1)) + 2) * 2 ^ l := by
          apply Nat.mul_le_mul_right
          rw [div_succ]
          omega
        _ = (p / 2 ^ (l + 1) + 1) * 2 ^ (l + 1) := (parent_end l _).symm

/-- Every number below `n` is in one block of the family, and no block reaches past `n`. -/
structure Tiles (n : Nat) (T : Nat → Nat → Prop) : Prop where
  inside : ∀ k i, T k i → (i + 1) * 2 ^ k ≤ n
  cover : ∀ p < n, ∃ k, T k (p / 2 ^ k)
  single : ∀ p k l, T k (p / 2 ^ k) → T l (p / 2 ^ l) → k = l

namespace Tiles

theorem congr {T' : Nat → Nat → Prop} (h : Tiles n T) (hT : ∀ k i, T' k i ↔ T k i) :
    Tiles n T' := by
  have heq : T' = T := by
    funext k i
    exact propext (hT k i)
  rw [heq]
  exact h

theorem start_lt (h : Tiles n T) (hT : T k i) : i * 2 ^ k < n := by
  have hend := h.inside k i hT
  have hpos := Nat.two_pow_pos k
  rw [Nat.add_mul] at hend
  omega

/-- No block of the tiling lies in another. -/
theorem not_part (h : Tiles n T) (hT : T k i) (hlt : k < l) : ¬ T l (i * 2 ^ k / 2 ^ l) := by
  intro hl
  have hk : T k (i * 2 ^ k / 2 ^ k) := by
    rw [mul_div_self]
    exact hT
  exact hlt.ne (h.single _ k l hk hl)

/-- A block of the tiling is not split there. -/
theorem half_notMem (h : Tiles n T) (hT : T (k + 1) i) (hj : j / 2 = i) : ¬ T k j := by
  intro hk
  apply h.not_part hk (Nat.lt_succ_self k)
  rw [div_succ, mul_div_self, hj]
  exact hT

theorem split (h : Tiles n T) (hT : T (k + 1) i) :
    Tiles n fun l j => T l j ∧ ¬ (l = k + 1 ∧ j = i) ∨ l = k ∧ j / 2 = i := by
  refine ⟨?_, ?_, ?_⟩
  · rintro l j (⟨hl, -⟩ | ⟨rfl, hj⟩)
    · exact h.inside l j hl
    · have hend := h.inside _ _ hT
      rw [parent_end] at hend
      refine le_trans (Nat.mul_le_mul_right _ ?_) hend
      omega
  · intro p hp
    by_cases hin : p / 2 ^ (k + 1) = i
    · refine ⟨k, .inr ⟨rfl, ?_⟩⟩
      rw [← div_succ, hin]
    · obtain ⟨l, hl⟩ := h.cover p hp
      refine ⟨l, .inl ⟨hl, ?_⟩⟩
      rintro ⟨rfl, heq⟩
      exact hin heq
  · -- a number of the block that was split is in no other block
    have hother : ∀ p l, p / 2 ^ k / 2 = i → T l (p / 2 ^ l) → l = k + 1 := by
      intro p l hp hl
      refine h.single p l (k + 1) hl ?_
      rw [div_succ, hp]
      exact hT
    rintro p l l' (⟨hl, hne⟩ | ⟨rfl, hp⟩) (⟨hl', hne'⟩ | ⟨rfl, hp'⟩)
    · exact h.single p l l' hl hl'
    · obtain rfl := hother p l hp' hl
      rw [div_succ] at hne
      exact absurd ⟨rfl, hp'⟩ hne
    · obtain rfl := hother p l' hp hl'
      rw [div_succ] at hne'
      exact absurd ⟨rfl, hp⟩ hne'
    · rfl

theorem join (h : Tiles n T) (hleft : T k (2 * i)) (hright : T k (2 * i + 1)) :
    Tiles n fun l j => T l j ∧ ¬ (l = k ∧ j / 2 = i) ∨ l = k + 1 ∧ j = i := by
  have hhalf : ∀ p, p / 2 ^ k / 2 = i → T k (p / 2 ^ k) := by
    intro p hp
    rcases Nat.mod_two_eq_zero_or_one (p / 2 ^ k) with hmod | hmod
    · have heq : p / 2 ^ k = 2 * i := by omega
      rw [heq]
      exact hleft
    · have heq : p / 2 ^ k = 2 * i + 1 := by omega
      rw [heq]
      exact hright
  refine ⟨?_, ?_, ?_⟩
  · rintro l j (⟨hl, -⟩ | ⟨rfl, rfl⟩)
    · exact h.inside l j hl
    · rw [parent_end]
      exact h.inside _ _ hright
  · intro p hp
    by_cases hin : p / 2 ^ k / 2 = i
    · refine ⟨k + 1, .inr ⟨rfl, ?_⟩⟩
      rw [div_succ, hin]
    · obtain ⟨l, hl⟩ := h.cover p hp
      refine ⟨l, .inl ⟨hl, ?_⟩⟩
      rintro ⟨rfl, heq⟩
      exact hin heq
  · have hother : ∀ p l, p / 2 ^ (k + 1) = i → T l (p / 2 ^ l) → l = k := by
      intro p l hp hl
      rw [div_succ] at hp
      exact h.single p l k hl (hhalf p hp)
    rintro p l l' (⟨hl, hne⟩ | ⟨rfl, hp⟩) (⟨hl', hne'⟩ | ⟨rfl, hp'⟩)
    · exact h.single p l l' hl hl'
    · obtain rfl := hother p l hp' hl
      rw [div_succ] at hp'
      exact absurd ⟨rfl, hp'⟩ hne
    · obtain rfl := hother p l' hp hl'
      rw [div_succ] at hp
      exact absurd ⟨rfl, hp⟩ hne'
    · rfl

end Tiles

/-! ### The tiling by the greatest blocks -/

/-- A block below `n` of order at most `m` whose double is no such block. -/
def Greatest (n m k i : Nat) : Prop :=
  k ≤ m ∧ (i + 1) * 2 ^ k ≤ n ∧ (k < m → n < (i / 2 + 1) * 2 ^ (k + 1))

/-- One number lies in one greatest block. -/
theorem Greatest.order_le (hk : Greatest n m k (p / 2 ^ k)) (hl : Greatest n m l (p / 2 ^ l)) :
    l ≤ k := by
  by_contra hlt
  rw [not_le] at hlt
  have hpast := hk.2.2 (lt_of_lt_of_le hlt hl.1)
  rw [← div_succ] at hpast
  exact absurd (le_trans (end_mono hlt) hl.2.1) (not_le.mpr hpast)

/-- Every number below `n` lies in a greatest block. -/
theorem exists_greatest (hp : p < n) : ∃ k, Greatest n m k (p / 2 ^ k) := by
  let Fits (k : Nat) : Prop := (p / 2 ^ k + 1) * 2 ^ k ≤ n
  have hzero : Fits 0 := by
    change (p / 2 ^ 0 + 1) * 2 ^ 0 ≤ n
    simpa using Nat.succ_le_of_lt hp
  refine ⟨Nat.findGreatest Fits m, Nat.findGreatest_le m, ?_, ?_⟩
  · exact Nat.findGreatest_spec (P := Fits) (Nat.zero_le m) hzero
  · intro hlt
    rw [← div_succ, ← not_le]
    exact Nat.findGreatest_is_greatest (P := Fits) (Nat.lt_succ_self _) hlt

theorem tiles_greatest (n m : Nat) : Tiles n (Greatest n m) := by
  refine ⟨fun k i h => h.2.1, fun p hp => exists_greatest hp, fun p k l hk hl => ?_⟩
  exact le_antisymm (hl.order_le hk) (hk.order_le hl)

/-- A block of a tiling without two halves to join is a greatest block. -/
theorem Tiles.greatest_of_mem (h : Tiles n T) (horder : ∀ k i, T k i → k ≤ m)
    (hmerged : ∀ k i, k < m → T k (2 * i) → ¬ T k (2 * i + 1)) (hT : T k i) :
    Greatest n m k i := by
  refine ⟨horder k i hT, h.inside k i hT, fun hlt => ?_⟩
  by_contra hfits
  rw [not_lt] at hfits
  -- the blocks that lie in the double of the block, down to the least one
  induction k using Nat.strong_induction_on generalizing i with
  | _ k ih =>
      -- the other half starts at `q`
      obtain ⟨b, hb, hpair⟩ : ∃ b, b / 2 = i / 2 ∧ b ≠ i ∧ (T k i → ¬ T k b) := by
        rcases Nat.mod_two_eq_zero_or_one i with hmod | hmod
        · have heq : i = 2 * (i / 2) := by omega
          refine ⟨2 * (i / 2) + 1, by omega, by omega, ?_⟩
          rw [heq]
          simpa using hmerged k (i / 2) hlt
        · have heq : i = 2 * (i / 2) + 1 := by omega
          refine ⟨2 * (i / 2), by omega, by omega, fun hi hb => ?_⟩
          refine hmerged k (i / 2) hlt hb ?_
          rw [← heq]
          exact hi
      have hq : b * 2 ^ k < n := by
        have hpos := Nat.two_pow_pos k
        rw [parent_end] at hfits
        have hle : (b + 1) * 2 ^ k ≤ (2 * (i / 2) + 2) * 2 ^ k := by
          apply Nat.mul_le_mul_right
          omega
        rw [Nat.add_mul] at hle
        omega
      obtain ⟨l, hl⟩ := h.cover _ hq
      rcases Nat.lt_trichotomy l k with hlk | rfl | hkl
      · refine ih l hlk hl (hlk.trans hlt) ?_
        refine le_trans ?_ hfits
        have hparent : b * 2 ^ k / 2 ^ (k + 1) = i / 2 := by
          rw [div_succ, mul_div_self, hb]
        rw [← div_succ, ← hparent]
        exact end_mono (by omega)
      · rw [mul_div_self] at hl
        exact hpair.2 hT hl
      · apply h.not_part hT hkl
        obtain ⟨d, rfl⟩ := Nat.exists_eq_add_of_lt hkl
        have hsame : i * 2 ^ k / 2 ^ (k + d + 1) = b * 2 ^ k / 2 ^ (k + d + 1) := by
          have hsplit : 2 ^ (k + d + 1) = 2 ^ k * 2 * 2 ^ d := by ring
          rw [hsplit, ← Nat.div_div_eq_div_mul, ← Nat.div_div_eq_div_mul,
            ← Nat.div_div_eq_div_mul, ← Nat.div_div_eq_div_mul, mul_div_self, mul_div_self, hb]
        rw [hsame]
        exact hl

/-- **A tiling without two halves to join** is the tiling by the greatest blocks. -/
theorem Tiles.iff_greatest (h : Tiles n T) (horder : ∀ k i, T k i → k ≤ m)
    (hmerged : ∀ k i, k < m → T k (2 * i) → ¬ T k (2 * i + 1)) :
    T k i ↔ Greatest n m k i := by
  constructor
  · exact h.greatest_of_mem horder hmerged
  · intro hg
    have hp := (tiles_greatest n m).start_lt hg
    obtain ⟨l, hl⟩ := h.cover _ hp
    have hgl := h.greatest_of_mem horder hmerged hl
    have hgk : Greatest n m k (i * 2 ^ k / 2 ^ k) := by
      rw [mul_div_self]
      exact hg
    obtain rfl := (tiles_greatest n m).single _ l k hgl hgk
    rw [mul_div_self] at hl
    exact hl

end CodingSample.DyadicTiling
