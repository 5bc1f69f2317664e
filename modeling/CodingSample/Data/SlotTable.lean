import Mathlib.Algebra.BigOperators.Group.Finset.Basic
import Mathlib.Algebra.Order.Group.Multiset
import Mathlib.Data.Multiset.Range

/-!
# Tables of slots

A table has slots `0, …, n - 1`, and a slot holding `0` is empty. What the table holds is a
multiset, so that "in exactly one slot of exactly one table" can be said as an equation between
sums of multisets.
-/

namespace CodingSample

open Finset

variable {α : Type} [DecidableEq α] [Zero α]

/-- What the first `n` slots of a table hold, empty slots left out. -/
def held (n : Nat) (f : Nat → α) : Multiset α :=
  ((Multiset.range n).map f).filter (· ≠ 0)

theorem mem_held {n : Nat} {f : Nat → α} {a : α} :
    a ∈ held n f ↔ (∃ i < n, f i = a) ∧ a ≠ 0 := by
  simp [held]

theorem held_congr {n : Nat} {f g : Nat → α} (h : ∀ i < n, f i = g i) : held n f = held n g := by
  unfold held
  rw [Multiset.map_congr rfl fun i hi => h i (Multiset.mem_range.mp hi)]

@[simp] theorem held_zero (n : Nat) : held n (fun _ => (0 : α)) = 0 := by
  unfold held
  rw [Multiset.filter_eq_nil]
  intro a ha
  have : a = 0 := by simpa using (Multiset.mem_map.mp ha).imp fun _ h => h.2.symm
  simpa using this

/-- Filling an empty slot adds its new content. -/
theorem held_update_of_empty {n k : Nat} {f : Nat → α} {a : α} (hk : k < n) (hf : f k = 0)
    (ha : a ≠ 0) : held n (Function.update f k a) = a ::ₘ held n f := by
  have hrange : Multiset.range n = k ::ₘ (Multiset.range n).erase k :=
    (Multiset.cons_erase (Multiset.mem_range.mpr hk)).symm
  have hrest : ((Multiset.range n).erase k).map (Function.update f k a) =
      ((Multiset.range n).erase k).map f := by
    refine Multiset.map_congr rfl fun i hi => ?_
    have hne : i ≠ k := ((Multiset.nodup_range n).mem_erase_iff.mp hi).1
    rw [Function.update_of_ne hne]
  unfold held
  rw [hrange, Multiset.map_cons, Multiset.map_cons, hrest, Function.update_self, hf]
  simp [ha]

/-- Emptying a slot takes out what it held. -/
theorem cons_held_update_zero {n k : Nat} {f : Nat → α} (hk : k < n) (hf : f k ≠ 0) :
    f k ::ₘ held n (Function.update f k 0) = held n f := by
  have h := held_update_of_empty (f := Function.update f k 0) hk (by simp) hf
  rw [Function.update_idem, Function.update_eq_self] at h
  exact h.symm

theorem eq_of_nodup_held {n i j : Nat} {f : Nat → α} (h : (held n f).Nodup) (hi : i < n)
    (hj : j < n) (hne : f i ≠ 0) (heq : f i = f j) : i = j := by
  by_contra hij
  rw [← cons_held_update_zero hi hne] at h
  refine (Multiset.nodup_cons.mp h).1 (mem_held.mpr ⟨⟨j, hj, ?_⟩, hne⟩)
  rw [Function.update_of_ne (Ne.symm hij), heq]

/-- What the slots in a list hold, empty ones left out. -/
def heldIn (xs : List Nat) (f : Nat → α) : Multiset α := ((xs.map f).filter (· ≠ 0) : List α)

theorem held_eq_heldIn (n : Nat) (f : Nat → α) : held n f = heldIn (List.range n) f := by
  simp [held, heldIn, Multiset.range]

@[simp] theorem heldIn_nil (f : Nat → α) : heldIn [] f = 0 := rfl

theorem heldIn_cons_of_empty {k : Nat} {xs : List Nat} {f : Nat → α} (hf : f k = 0) :
    heldIn (k :: xs) f = heldIn xs f := by
  simp [heldIn, hf]

theorem heldIn_cons_of_ne {k : Nat} {xs : List Nat} {f : Nat → α} (hf : f k ≠ 0) :
    heldIn (k :: xs) f = f k ::ₘ heldIn xs f := by
  simp [heldIn, hf]

theorem heldIn_le_held {n : Nat} {xs : List Nat} {f : Nat → α} (h : xs.Sublist (List.range n)) :
    heldIn xs f ≤ held n f := by
  rw [held_eq_heldIn]
  exact Multiset.coe_le.mpr ((h.map f).filter _).subperm

omit [DecidableEq α] [Zero α] in
theorem disjoint_of_nodup_sum {n i j : Nat} {f : Nat → Multiset α}
    (h : (∑ k ∈ range n, f k).Nodup) (hi : i < n) (hj : j < n) (hij : i ≠ j) :
    Disjoint (f i) (f j) := by
  rw [← add_sum_erase _ _ (mem_range.mpr hi),
    ← add_sum_erase _ _ (mem_erase.mpr ⟨Ne.symm hij, mem_range.mpr hj⟩), ← add_assoc] at h
  exact (Multiset.nodup_add.mp (Multiset.nodup_add.mp h).1).2.2

omit [DecidableEq α] [Zero α] in
/-- A family of tables in which only the one at `i` gained something. -/
theorem sum_range_add_at {n i : Nat} {f g : Nat → Multiset α} {a : Multiset α} (hi : i < n)
    (hself : g i = a + f i) (hne : ∀ j < n, j ≠ i → g j = f j) :
    ∑ j ∈ range n, g j = a + ∑ j ∈ range n, f j := by
  have hmem : i ∈ range n := mem_range.mpr hi
  rw [← add_sum_erase _ _ hmem, ← add_sum_erase _ _ hmem, hself, add_assoc]
  congr 2
  refine sum_congr rfl fun j hj => ?_
  obtain ⟨hne', hj⟩ := mem_erase.mp hj
  exact hne j (mem_range.mp hj) hne'

end CodingSample
