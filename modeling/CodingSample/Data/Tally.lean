import Mathlib.Data.Finset.Card
import Mathlib.Data.Finset.Insert

/-!
# Tallies

The number of places of a finite set that pass a test, and how it moves when one place changes.
-/

namespace CodingSample

variable {α : Type} {S : Finset α} {p q : α → Bool} {a : α}

def tally (S : Finset α) (p : α → Bool) : Nat := (S.filter fun a => p a = true).card

theorem tally_congr (h : ∀ a ∈ S, p a = q a) : tally S p = tally S q := by
  unfold tally
  congr 1
  apply Finset.filter_congr
  intro a ha
  rw [h a ha]

theorem tally_eq_zero_iff : tally S p = 0 ↔ ∀ a ∈ S, p a = false := by
  simp [tally, Finset.filter_eq_empty_iff]

theorem tally_pos (ha : a ∈ S) (hp : p a = true) : 0 < tally S p := by
  apply Nat.pos_of_ne_zero
  intro hzero
  have hfalse := tally_eq_zero_iff.mp hzero a ha
  rw [hp] at hfalse
  cases hfalse

/-- One more place passes. -/
theorem tally_succ (ha : a ∈ S) (hp : p a = false) (hq : q a = true)
    (h : ∀ b ∈ S, b ≠ a → p b = q b) : tally S q = tally S p + 1 := by
  classical
  have hnot : a ∉ S.filter fun b => p b = true := by simp [hp]
  unfold tally
  rw [← Finset.card_insert_of_notMem hnot]
  congr 1
  ext b
  rw [Finset.mem_insert, Finset.mem_filter, Finset.mem_filter]
  by_cases hb : b = a
  · simp [hb, ha, hq]
  · constructor
    · rintro ⟨hmem, hpass⟩
      exact Or.inr ⟨hmem, (h b hmem hb).trans hpass⟩
    · rintro (heq | ⟨hmem, hpass⟩)
      · exact absurd heq hb
      · exact ⟨hmem, (h b hmem hb).symm.trans hpass⟩

/-- A place that goes from the set. -/
theorem tally_erase [DecidableEq α] (ha : a ∈ S) :
    tally S p = tally (S.erase a) p + if p a then 1 else 0 := by
  unfold tally
  rw [Finset.filter_erase]
  by_cases hp : p a = true
  · rw [if_pos hp, Finset.card_erase_add_one (Finset.mem_filter.mpr ⟨ha, hp⟩)]
  · have hout : a ∉ S.filter fun b => p b = true := fun hmem => hp (Finset.mem_filter.mp hmem).2
    rw [if_neg hp, Finset.erase_eq_of_notMem hout, Nat.add_zero]

/-- One place changes. -/
theorem tally_change [DecidableEq α] (ha : a ∈ S) (h : ∀ b ∈ S, b ≠ a → p b = q b) :
    (tally S q : Int) = tally S p - (if p a then 1 else 0) + if q a then 1 else 0 := by
  have hp : tally S p = _ := tally_erase (p := p) ha
  have hq : tally S q = _ := tally_erase (p := q) ha
  have hrest : tally (S.erase a) p = tally (S.erase a) q :=
    tally_congr fun b hb => h b (Finset.mem_of_mem_erase hb) (Finset.ne_of_mem_erase hb)
  rw [hp, hq, hrest]
  split <;> split <;> push_cast <;> omega

end CodingSample
