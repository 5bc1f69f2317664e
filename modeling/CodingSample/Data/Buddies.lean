import CodingSample.Data.Dyadic

/-!
# The buddy system

Free blocks and blocks in use tile the numbers below `n`, and one bit for each two halves says
whether exactly one of them is free. Taking a block or putting one back turns the bit over; a block
in use may be opened into its halves, and two free halves closed. Two free halves are only left in
the one place where an operation is under way.
-/

namespace CodingSample

open DyadicTiling

variable {n m k l i j : Nat} {free free' out out' : Nat → Nat → Prop} {bit bit' : Nat → Nat → Bool}
  {pending : Option (Nat × Nat)}

/-- The books of a buddy system with blocks up to order `m`. The halves of the block `pending` may
both be free. -/
structure Buddies (n m : Nat) (free out : Nat → Nat → Prop) (bit : Nat → Nat → Bool)
    (pending : Option (Nat × Nat)) : Prop where
  tiles : Tiles n fun k i => free k i ∨ out k i
  apart : ∀ k i, free k i → ¬ out k i
  order : ∀ k i, free k i ∨ out k i → k ≤ m
  bits : ∀ k i, k < m → (i + 1) * 2 ^ (k + 1) ≤ n →
    (bit (k + 1) i = true ↔ ¬ (free k (2 * i) ↔ free k (2 * i + 1)))
  merged : ∀ k i, k < m → free k (2 * i) → free k (2 * i + 1) → pending = some (k + 1, i)

namespace Buddies

theorem two_mul_div (j : Nat) : 2 * j / 2 = j := by omega

theorem two_mul_add_one_div (j : Nat) : (2 * j + 1) / 2 = j := by omega

/-- At the start the free blocks are the greatest ones. -/
theorem initial (hfree : ∀ k i, free k i ↔ Greatest n m k i) (hout : ∀ k i, ¬ out k i)
    (hbit : ∀ k i, k < m → (i + 1) * 2 ^ (k + 1) ≤ n → bit (k + 1) i = false) :
    Buddies n m free out bit none := by
  have hhalf : ∀ k i j, k < m → (i + 1) * 2 ^ (k + 1) ≤ n → j / 2 = i → ¬ free k j := by
    intro k i j hk hfits hj hf
    have hpast := ((hfree k j).mp hf).2.2 hk
    rw [hj] at hpast
    omega
  refine ⟨?_, fun k i _ => hout k i, ?_, ?_, ?_⟩
  · refine (tiles_greatest n m).congr fun k i => ?_
    simp [hfree, hout]
  · rintro k i (hf | ho)
    · exact ((hfree k i).mp hf).1
    · exact absurd ho (hout k i)
  · intro k i hk hfits
    rw [hbit k i hk hfits]
    have hleft := hhalf k i (2 * i) hk hfits (two_mul_div i)
    have hright := hhalf k i (2 * i + 1) hk hfits (two_mul_add_one_div i)
    simp [hleft, hright]
  · intro k i hk hleft hright
    have hfits := ((hfree k _).mp hright).2.1
    refine absurd hleft (hhalf k i _ hk ?_ (two_mul_div i))
    rw [parent_end]
    exact hfits

/-- When nothing is in use the free blocks are the ones of the start. -/
theorem free_iff_greatest (h : Buddies n m free out bit none) (hout : ∀ k i, ¬ out k i) :
    free k i ↔ Greatest n m k i := by
  have htiles : Tiles n free := by
    refine h.tiles.congr fun k i => ?_
    simp [hout]
  refine htiles.iff_greatest (fun k i hf => h.order k i (.inl hf)) ?_
  intro k i hk hleft hright
  exact absurd (h.merged k i hk hleft hright).symm (Option.some_ne_none _)

/-- The block of a block that is not a greatest one fits. -/
theorem parent_fits (h : Buddies n m free out bit pending) (hi : free k i ∨ out k i) (hk : k < m)
    (hg : ¬ Greatest n m k i) : (i / 2 + 1) * 2 ^ (k + 1) ≤ n := by
  by_contra hpast
  exact hg ⟨hk.le, h.tiles.inside k i hi, fun _ => not_le.mp hpast⟩

/-- The bit of a block that is not free and not split is clear. -/
theorem bit_of_out (h : Buddies n m free out bit pending) (hi : out (k + 1) i) :
    bit (k + 1) i = false := by
  have hk : k < m := h.order _ i (.inr hi)
  have hhalf : ∀ j, j / 2 = i → ¬ free k j := fun j hj hf =>
    h.tiles.half_notMem (.inr hi) hj (.inl hf)
  have hbit := h.bits k i hk (h.tiles.inside _ i (.inr hi))
  have hleft := hhalf _ (two_mul_div i)
  have hright := hhalf _ (two_mul_add_one_div i)
  simpa [hleft, hright] using hbit

/-- A clear bit says that the other half is free too. -/
theorem buddy_free (h : Buddies n m free out bit pending) (hi : free k i) (hk : k < m)
    (hfits : (i / 2 + 1) * 2 ^ (k + 1) ≤ n) (hbit : bit (k + 1) (i / 2) = false) :
    free k (2 * (i / 2)) ∧ free k (2 * (i / 2) + 1) := by
  have hiff := h.bits k (i / 2) hk hfits
  rw [hbit] at hiff
  have hboth : free k (2 * (i / 2)) ↔ free k (2 * (i / 2) + 1) := by simpa using hiff
  rcases Nat.mod_two_eq_zero_or_one i with hmod | hmod
  · have heq : 2 * (i / 2) = i := by omega
    rw [heq] at hboth ⊢
    exact ⟨hi, hboth.mp hi⟩
  · have heq : 2 * (i / 2) + 1 = i := by omega
    rw [heq] at hboth ⊢
    exact ⟨hboth.mpr hi, hi⟩

/-- A set bit says that the halves are not left to close. -/
theorem settle (h : Buddies n m free out bit (some (k + 1, i))) (hk : k < m)
    (hfits : (i + 1) * 2 ^ (k + 1) ≤ n) (hbit : bit (k + 1) i = true) :
    Buddies n m free out bit none := by
  refine ⟨h.tiles, h.apart, h.order, h.bits, ?_⟩
  intro l j hl hleft hright
  have heq := h.merged l j hl hleft hright
  simp only [Option.some.injEq, Prod.mk.injEq, Nat.add_right_cancel_iff] at heq
  obtain ⟨rfl, rfl⟩ := heq
  exact absurd (iff_of_true hleft hright) ((h.bits k i hk hfits).mp hbit)

/-! ### Taking a block and putting one back -/

/-- The bits after one block has become free or in use. -/
theorem bits_toggle (h : Buddies n m free out bit pending)
    (hfree : ∀ l j, free' l j ↔ (free l j ↔ ¬ (l = k ∧ j = i)))
    (hbit : ∀ l j, l < m → (j + 1) * 2 ^ (l + 1) ≤ n →
      bit' (l + 1) j = if l = k ∧ j = i / 2 then !bit (l + 1) j else bit (l + 1) j)
    (hl : l < m) (hfits : (j + 1) * 2 ^ (l + 1) ≤ n) :
    bit' (l + 1) j = true ↔ ¬ (free' l (2 * j) ↔ free' l (2 * j + 1)) := by
  have hold := h.bits l j hl hfits
  rw [hbit l j hl hfits, hfree, hfree]
  by_cases hpair : l = k ∧ j = i / 2
  · obtain ⟨rfl, rfl⟩ := hpair
    rw [if_pos ⟨rfl, rfl⟩, Bool.not_eq_true', ← Bool.not_eq_true, hold]
    rcases Nat.mod_two_eq_zero_or_one i with hmod | hmod
    · have heven : 2 * (i / 2) = i := by omega
      have hodd : ¬ i + 1 = i := by omega
      simp only [heven, hodd, and_true, and_false, not_true_eq_false, not_false_eq_true, iff_true,
        iff_false]
      tauto
    · have heven : ¬ 2 * (i / 2) = i := by omega
      have hodd : 2 * (i / 2) + 1 = i := by omega
      simp only [heven, hodd, and_true, and_false, not_true_eq_false, not_false_eq_true, iff_true,
        iff_false]
      tauto
  · rw [if_neg hpair, hold]
    have hleft : ¬ (l = k ∧ 2 * j = i) := fun ⟨hlk, hj⟩ => hpair ⟨hlk, by omega⟩
    have hright : ¬ (l = k ∧ 2 * j + 1 = i) := fun ⟨hlk, hj⟩ => hpair ⟨hlk, by omega⟩
    simp only [hleft, hright, not_false_eq_true, iff_true]

theorem take (h : Buddies n m free out bit pending) (hi : free k i)
    (hpending : ∀ l j, pending = some (l, j) → l = k + 1 ∧ j = i / 2)
    (hfree : ∀ l j, free' l j ↔ free l j ∧ ¬ (l = k ∧ j = i))
    (hout : ∀ l j, out' l j ↔ out l j ∨ l = k ∧ j = i)
    (hbit : ∀ l j, l < m → (j + 1) * 2 ^ (l + 1) ≤ n →
      bit' (l + 1) j = if l = k ∧ j = i / 2 then !bit (l + 1) j else bit (l + 1) j) :
    Buddies n m free' out' bit' none := by
  have hsame : ∀ l j, free' l j ∨ out' l j ↔ free l j ∨ out l j := by
    intro l j
    rw [hfree, hout]
    by_cases heq : l = k ∧ j = i
    · obtain ⟨rfl, rfl⟩ := heq
      simp [hi]
    · simp [heq]
  refine ⟨h.tiles.congr hsame, ?_, fun l j hlj => h.order l j ((hsame l j).mp hlj), ?_, ?_⟩
  · intro l j hf ho
    obtain ⟨hf, hne⟩ := (hfree l j).mp hf
    rcases (hout l j).mp ho with ho | heq
    · exact h.apart l j hf ho
    · exact hne heq
  · intro l j hl hfits
    refine h.bits_toggle (fun l j => ?_) hbit hl hfits
    rw [hfree]
    by_cases heq : l = k ∧ j = i
    · obtain ⟨rfl, rfl⟩ := heq
      simp [hi]
    · simp [heq]
  · intro l j hl hleft hright
    obtain ⟨hleft, hne⟩ := (hfree _ _).mp hleft
    obtain ⟨hright, hne'⟩ := (hfree _ _).mp hright
    obtain ⟨hlk, hj⟩ := hpending _ _ (h.merged l j hl hleft hright)
    omega

theorem put (h : Buddies n m free out bit none) (hi : out k i)
    (hfree : ∀ l j, free' l j ↔ free l j ∨ l = k ∧ j = i)
    (hout : ∀ l j, out' l j ↔ out l j ∧ ¬ (l = k ∧ j = i))
    (hbit : ∀ l j, l < m → (j + 1) * 2 ^ (l + 1) ≤ n →
      bit' (l + 1) j = if l = k ∧ j = i / 2 then !bit (l + 1) j else bit (l + 1) j) :
    Buddies n m free' out' bit' (some (k + 1, i / 2)) := by
  have hnot : ¬ free k i := fun hf => h.apart k i hf hi
  have hsame : ∀ l j, free' l j ∨ out' l j ↔ free l j ∨ out l j := by
    intro l j
    rw [hfree, hout]
    by_cases heq : l = k ∧ j = i
    · obtain ⟨rfl, rfl⟩ := heq
      simp [hi]
    · simp [heq]
  refine ⟨h.tiles.congr hsame, ?_, fun l j hlj => h.order l j ((hsame l j).mp hlj), ?_, ?_⟩
  · intro l j hf ho
    obtain ⟨ho, hne⟩ := (hout l j).mp ho
    rcases (hfree l j).mp hf with hf | heq
    · exact h.apart l j hf ho
    · exact hne heq
  · intro l j hl hfits
    refine h.bits_toggle (fun l j => ?_) hbit hl hfits
    rw [hfree]
    by_cases heq : l = k ∧ j = i
    · obtain ⟨rfl, rfl⟩ := heq
      simp [hnot]
    · simp [heq]
  · intro l j hl hleft hright
    rcases (hfree _ _).mp hleft with hleft | ⟨rfl, hj⟩
    · rcases (hfree _ _).mp hright with hright | ⟨rfl, hj⟩
      · exact absurd (h.merged l j hl hleft hright).symm (Option.some_ne_none _)
      · have hpair : j = i / 2 := by omega
        rw [hpair]
    · have hpair : j = i / 2 := by omega
      rw [hpair]

/-! ### Opening and closing a block -/

/-- The bits when both halves of a block, or none, are free before and after. -/
theorem bits_halves (h : Buddies n m free out bit pending)
    (hfree : ∀ l j, ¬ (l = k ∧ j / 2 = i) → (free' l j ↔ free l j))
    (hold : free k (2 * i) ↔ free k (2 * i + 1)) (hnew : free' k (2 * i) ↔ free' k (2 * i + 1))
    (hl : l < m) (hfits : (j + 1) * 2 ^ (l + 1) ≤ n) :
    bit (l + 1) j = true ↔ ¬ (free' l (2 * j) ↔ free' l (2 * j + 1)) := by
  rw [h.bits l j hl hfits]
  by_cases hpair : l = k ∧ j = i
  · obtain ⟨rfl, rfl⟩ := hpair
    exact not_congr (iff_of_true hold hnew)
  · have hleft : ¬ (l = k ∧ 2 * j / 2 = i) := by rwa [two_mul_div]
    have hright : ¬ (l = k ∧ (2 * j + 1) / 2 = i) := by rwa [two_mul_add_one_div]
    rw [hfree l _ hleft, hfree l _ hright]

theorem opened (h : Buddies n m free out bit none) (hi : out (k + 1) i)
    (hfree : ∀ l j, free' l j ↔ free l j ∨ l = k ∧ j / 2 = i)
    (hout : ∀ l j, out' l j ↔ out l j ∧ ¬ (l = k + 1 ∧ j = i)) :
    Buddies n m free' out' bit (some (k + 1, i)) := by
  have hhalf : ∀ j, j / 2 = i → ¬ (free k j ∨ out k j) := fun j hj =>
    h.tiles.half_notMem (.inr hi) hj
  have hfree_ne : ∀ l j, free l j → ¬ (l = k + 1 ∧ j = i) := by
    rintro l j hf ⟨rfl, rfl⟩
    exact h.apart _ _ hf hi
  have hsame : ∀ l j, free' l j ∨ out' l j ↔
      (free l j ∨ out l j) ∧ ¬ (l = k + 1 ∧ j = i) ∨ l = k ∧ j / 2 = i := by
    intro l j
    have hne := hfree_ne l j
    rw [hfree, hout]
    tauto
  refine ⟨(h.tiles.split (.inr hi)).congr hsame, ?_, ?_, ?_, ?_⟩
  · intro l j hf ho
    obtain ⟨ho, -⟩ := (hout l j).mp ho
    rcases (hfree l j).mp hf with hf | ⟨rfl, hj⟩
    · exact h.apart l j hf ho
    · exact hhalf j hj (.inr ho)
  · intro l j hlj
    rcases (hsame l j).mp hlj with ⟨hlj, -⟩ | ⟨rfl, -⟩
    · exact h.order l j hlj
    · exact (Nat.le_succ l).trans (h.order _ i (.inr hi))
  · intro l j hl hfits
    refine h.bits_halves (k := k) (i := i) ?_ (iff_of_false ?_ ?_) (iff_of_true ?_ ?_) hl hfits
    · intro l j hne
      rw [hfree]
      simp [hne]
    · exact fun hf => hhalf _ (two_mul_div i) (.inl hf)
    · exact fun hf => hhalf _ (two_mul_add_one_div i) (.inl hf)
    · exact (hfree _ _).mpr (.inr ⟨rfl, two_mul_div i⟩)
    · exact (hfree _ _).mpr (.inr ⟨rfl, two_mul_add_one_div i⟩)
  · intro l j hl hleft hright
    rcases (hfree _ _).mp hleft with hleft | ⟨rfl, hj⟩
    · rcases (hfree _ _).mp hright with hright | ⟨rfl, hj⟩
      · exact absurd (h.merged l j hl hleft hright).symm (Option.some_ne_none _)
      · rw [two_mul_add_one_div] at hj
        rw [hj]
    · rw [two_mul_div] at hj
      rw [hj]

theorem closed (h : Buddies n m free out bit (some (k + 1, i))) (hk : k < m)
    (hleft : free k (2 * i)) (hright : free k (2 * i + 1))
    (hfree : ∀ l j, free' l j ↔ free l j ∧ ¬ (l = k ∧ j / 2 = i))
    (hout : ∀ l j, out' l j ↔ out l j ∨ l = k + 1 ∧ j = i) :
    Buddies n m free' out' bit none := by
  have hhalf : ∀ j, j / 2 = i → free k j := by
    intro j hj
    rcases Nat.mod_two_eq_zero_or_one j with hmod | hmod
    · have heq : j = 2 * i := by omega
      rw [heq]
      exact hleft
    · have heq : j = 2 * i + 1 := by omega
      rw [heq]
      exact hright
  have hout_ne : ∀ l j, out l j → ¬ (l = k ∧ j / 2 = i) := by
    rintro l j ho ⟨rfl, hj⟩
    exact h.apart _ _ (hhalf j hj) ho
  have hsame : ∀ l j, free' l j ∨ out' l j ↔
      (free l j ∨ out l j) ∧ ¬ (l = k ∧ j / 2 = i) ∨ l = k + 1 ∧ j = i := by
    intro l j
    have hne := hout_ne l j
    rw [hfree, hout]
    tauto
  refine ⟨(h.tiles.join (.inl hleft) (.inl hright)).congr hsame, ?_, ?_, ?_, ?_⟩
  · intro l j hf ho
    obtain ⟨hf, -⟩ := (hfree l j).mp hf
    rcases (hout l j).mp ho with ho | ⟨rfl, rfl⟩
    · exact h.apart l j hf ho
    · exact h.tiles.half_notMem (.inl hf) (two_mul_div j) (.inl hleft)
  · intro l j hlj
    rcases (hsame l j).mp hlj with ⟨hlj, -⟩ | ⟨rfl, -⟩
    · exact h.order l j hlj
    · exact hk
  · intro l j hl hfits
    refine h.bits_halves (k := k) (i := i) ?_ (iff_of_true hleft hright) (iff_of_false ?_ ?_)
      hl hfits
    · intro l j hne
      rw [hfree]
      simp [hne]
    · exact fun hf => ((hfree _ _).mp hf).2 ⟨rfl, two_mul_div i⟩
    · exact fun hf => ((hfree _ _).mp hf).2 ⟨rfl, two_mul_add_one_div i⟩
  · intro l j hl hf hf'
    obtain ⟨hf, hne⟩ := (hfree _ _).mp hf
    have heq := h.merged l j hl hf ((hfree _ _).mp hf').1
    simp only [Option.some.injEq, Prod.mk.injEq, Nat.add_right_cancel_iff] at heq
    obtain ⟨rfl, rfl⟩ := heq
    exact absurd ⟨rfl, two_mul_div i⟩ hne

end Buddies

end CodingSample
