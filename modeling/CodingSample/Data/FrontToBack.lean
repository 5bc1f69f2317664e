import Mathlib.Data.Set.Basic
import Mathlib.Order.Defs.LinearOrder

/-!
# Searching front to back

Cells are visited in order of their spans. Each cell proposes a value, which may belong to a later
cell, and the search ends at the first cell whose proposal lies in its own span. When the least
value of all lies in the span of some cell and that cell proposes it, the search finds it.
-/

namespace CodingSample

variable {α L : Type}

/-- No value in the span of an earlier cell is above one of a later cell. -/
def InOrder [LE α] (span : L → Set α) (cells : List L) : Prop :=
  cells.Pairwise fun l l' => ∀ t ∈ span l, ∀ u ∈ span l', t ≤ u

/-- The first cell with a proposal that it accepts. -/
def firstHit (best : L → Option α) (accept : L → α → Bool) : List L → Option (L × α)
  | [] => none
  | l :: cells => match best l with
    | none => firstHit best accept cells
    | some t => if accept l t then some (l, t) else firstHit best accept cells

namespace InOrder

variable {span : L → Set α} {cells cells' : List L}

/-- Two searches one after the other. -/
theorem append [LE α] (h : InOrder span cells) (h' : InOrder span cells') {s s' : Set α}
    (hs : ∀ l ∈ cells, span l ⊆ s) (hs' : ∀ l ∈ cells', span l ⊆ s')
    (hle : ∀ t ∈ s, ∀ u ∈ s', t ≤ u) : InOrder span (cells ++ cells') :=
  List.pairwise_append.mpr ⟨h, h', fun l hl l' hl' t ht u hu =>
    hle t (hs l hl ht) u (hs' l' hl' hu)⟩

end InOrder

variable {best : L → Option α} {accept : L → α → Bool} {span : L → Set α} {cells : List L}

/-- Without proposals nothing is found. -/
theorem firstHit_eq_none (h : ∀ l ∈ cells, best l = none) :
    firstHit best accept cells = none := by
  induction cells with
  | nil => rfl
  | cons l cells ih =>
      rw [firstHit, h l List.mem_cons_self]
      exact ih fun l' hl' => h l' (List.mem_cons_of_mem l hl')

/-- What is found is a proposal that its cell accepts. -/
theorem of_firstHit {l : L} {t : α} (h : firstHit best accept cells = some (l, t)) :
    l ∈ cells ∧ best l = some t ∧ accept l t = true := by
  induction cells with
  | nil => cases h
  | cons l' cells ih =>
      rw [firstHit] at h
      cases hbest : best l' with
      | none =>
          rw [hbest] at h
          obtain ⟨hl, ht⟩ := ih h
          exact ⟨List.mem_cons_of_mem l' hl, ht⟩
      | some u =>
          rw [hbest] at h
          dsimp only at h
          split_ifs at h with haccept
          · cases h
            exact ⟨List.mem_cons_self, hbest, haccept⟩
          · obtain ⟨hl, ht⟩ := ih h
            exact ⟨List.mem_cons_of_mem l' hl, ht⟩

/-- The search finds the least value, if its cell proposes it and no proposal is below it. -/
theorem firstHit_least [PartialOrder α] {T : α} (horder : InOrder span cells)
    (haccept : ∀ l ∈ cells, ∀ t, best l = some t → (accept l t = true ↔ t ∈ span l))
    (hleast : ∀ l ∈ cells, ∀ t, best l = some t → T ≤ t)
    (hbest : ∀ l ∈ cells, T ∈ span l → best l = some T) (hcover : ∃ l ∈ cells, T ∈ span l) :
    ∃ l ∈ cells, firstHit best accept cells = some (l, T) := by
  induction cells with
  | nil =>
      obtain ⟨l, hl, -⟩ := hcover
      exact absurd hl List.not_mem_nil
  | cons l cells ih =>
      obtain ⟨hfirst, hrest⟩ := List.pairwise_cons.mp horder
      by_cases hT : T ∈ span l
      · refine ⟨l, List.mem_cons_self, ?_⟩
        have hproposed := hbest l List.mem_cons_self hT
        rw [firstHit, hproposed]
        exact if_pos ((haccept l List.mem_cons_self T hproposed).mpr hT)
      · -- the cell that has the least value comes later
        obtain ⟨l', hl', hT'⟩ : ∃ l' ∈ cells, T ∈ span l' := by
          obtain ⟨l', hl', hT'⟩ := hcover
          rcases List.mem_cons.mp hl' with rfl | hl'
          · exact absurd hT' hT
          · exact ⟨l', hl', hT'⟩
        have hskip : ∀ t, best l = some t → accept l t = false := by
          intro t ht
          by_contra haccepted
          have htl := (haccept l List.mem_cons_self t ht).mp (Bool.not_eq_false _ ▸ haccepted)
          have hle : t ≤ T := hfirst l' hl' t htl T hT'
          obtain rfl : T = t := (hleast l List.mem_cons_self t ht).antisymm hle
          exact hT htl
        obtain ⟨m, hm, hfound⟩ := ih hrest (fun l hl => haccept l (List.mem_cons_of_mem _ hl))
          (fun l hl => hleast l (List.mem_cons_of_mem _ hl))
          (fun l hl => hbest l (List.mem_cons_of_mem _ hl)) ⟨l', hl', hT'⟩
        refine ⟨m, List.mem_cons_of_mem l hm, ?_⟩
        rw [firstHit]
        cases hl : best l with
        | none => exact hfound
        | some t =>
            dsimp only
            rw [hskip t hl]
            exact hfound

end CodingSample
