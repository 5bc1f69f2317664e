import Mathlib.Data.List.Infix
import Mathlib.Data.List.Nodup

/-!
# Objects that depend on one another

Each object has numbered dependencies, `next a k` being number `k` of the object `a`. A chain of
dependencies is the list of the numbers that it takes.
-/

namespace CodingSample.Dependencies

variable {ι κ : Type} {next : ι → κ → Option ι} {a b : ι} {k : κ} {p q : List κ} {l : List ι}

/-- Where a chain leads. -/
def follow (next : ι → κ → Option ι) : ι → List κ → Option ι
  | a, [] => some a
  | a, k :: p => (next a k).bind fun b => follow next b p

@[simp] theorem follow_nil : follow next a [] = some a := rfl

theorem follow_append :
    follow next a (p ++ q) = (follow next a p).bind fun b => follow next b q := by
  induction p generalizing a with
  | nil => rfl
  | cons k p ih =>
      rw [List.cons_append, follow, follow, Option.bind_assoc]
      congr 1
      funext b
      exact ih

theorem follow_snoc (h : follow next a p = some b) : follow next a (p ++ [k]) = next b k := by
  rw [follow_append, h, Option.bind_some, follow]
  cases next b k <;> rfl

/-- A chain that goes on after another. -/
theorem exists_follow_of_prefix (hpq : p <+: q) (hp : follow next a p = some b) :
    ∃ r, q = p ++ r ∧ follow next a q = follow next b r := by
  obtain ⟨r, rfl⟩ := hpq
  exact ⟨r, rfl, by rw [follow_append, hp, Option.bind_some]⟩

/-- The objects hold all their dependencies. -/
def Closed (next : ι → κ → Option ι) (l : List ι) : Prop :=
  ∀ a ∈ l, ∀ k b, next a k = some b → b ∈ l

theorem Closed.follow (h : Closed next l) (ha : a ∈ l)
    (hp : Dependencies.follow next a p = some b) : b ∈ l := by
  induction p generalizing a with
  | nil =>
      cases hp
      exact ha
  | cons k p ih =>
      obtain ⟨c, hc, hb⟩ := Option.bind_eq_some_iff.mp hp
      exact ih (h a ha k c hc) hb

/-- Every object comes after its dependencies. -/
def Ordered (next : ι → κ → Option ι) (l : List ι) : Prop :=
  ∀ l₁ a l₂, l = l₁ ++ a :: l₂ → ∀ k b, next a k = some b → b ∈ l₁

theorem Ordered.nil : Ordered next [] := fun l₁ a l₂ h => by simp at h

theorem Ordered.snoc (h : Ordered next l) (ha : ∀ k b, next a k = some b → b ∈ l) :
    Ordered next (l ++ [a]) := by
  intro l₁ c l₂ heq
  rcases List.eq_nil_or_concat' l₂ with rfl | ⟨l₂, d, rfl⟩
  · obtain ⟨rfl, hac⟩ := List.append_inj' heq rfl
    cases hac
    exact ha
  · rw [← List.cons_append, ← List.append_assoc] at heq
    exact h l₁ c l₂ (List.append_inj' heq rfl).1

theorem Ordered.closed (h : Ordered next l) : Closed next l := by
  intro a ha k b hb
  obtain ⟨l₁, l₂, rfl⟩ := List.append_of_mem ha
  exact List.mem_append_left _ (h l₁ a l₂ rfl k b hb)

end CodingSample.Dependencies
