import CodingSample.Data.Ring

/-!
# The place of an element

Where only the list that an element is in matters, and not its position there, the lists through
a link field are a function from the elements to their lists, and a length for each list.
-/

namespace CodingSample

variable {H T : Type} {l : Links (H ⊕ T)} {home : T → Option H} {size : H → Int} {h : H} {t : T}

/-- An element is in the list `home` gives for it, or in none, and `size` counts the lists. -/
def Placed (l : Links (H ⊕ T)) (home : T → Option H) (size : H → Int) : Prop :=
  ∃ q : H → List T, Rings l q ∧ (∀ h t, t ∈ q h ↔ home t = some h) ∧
    ∀ h, size h = ((q h).length : Int)

namespace Placed

/-- The links of an element are null exactly when it is in no list. -/
theorem null_iff (hp : Placed l home size) :
    l.next (.inr t) = none ∧ l.prev (.inr t) = none ↔ home t = none := by
  obtain ⟨q, hr, hmem, -⟩ := hp
  rw [hr.null_iff.1]
  constructor
  · intro hnot
    rw [Option.eq_none_iff_forall_ne_some]
    exact fun h heq => hnot h ((hmem h t).mpr heq)
  · intro hnone h hin
    cases hnone.symm.trans ((hmem h t).mp hin)

/-- An element that has no list is in no ring. -/
theorem rings_free (hp : Placed l home size) (ht : home t = none) :
    ∃ q, Rings l q ∧ ∀ g, t ∉ q g := by
  obtain ⟨q, hr, hmem, -⟩ := hp
  refine ⟨q, hr, ?_⟩
  intro g hin
  cases ht.symm.trans ((hmem g t).mp hin)

/-- A list is empty or begins with an element that has it. -/
theorem next_head (hp : Placed l home size) (h : H) : l.next (.inl h) = some (.inl h) ∨
    ∃ t, l.next (.inl h) = some (.inr t) ∧ home t = some h := by
  obtain ⟨q, hr, hmem, -⟩ := hp
  have hq : q h = [] ++ q h := rfl
  have hnext : l.next (.inl h) = some (firstOf h (q h)) := (hr.adj hq).1
  cases hlist : q h with
  | nil =>
      rw [hlist] at hnext
      exact Or.inl hnext
  | cons t ts =>
      rw [hlist] at hnext
      refine Or.inr ⟨t, hnext, (hmem h t).mp ?_⟩
      rw [hlist]
      exact List.mem_cons_self

section Edits

variable [DecidableEq H] [DecidableEq T]

theorem remove (hp : Placed l home size) (ht : home t = some h) :
    ∃ l', l.remove (.inr t) = some l' ∧
      Placed l' (Function.update home t none) (Function.update size h (size h - 1)) := by
  obtain ⟨q, hr, hmem, hsize⟩ := hp
  obtain ⟨xs, ys, hq⟩ := List.append_of_mem ((hmem h t).mpr ht)
  obtain ⟨l', hrem, hr', -⟩ := hr.remove_spec hq
  refine ⟨l', hrem, _, hr', ?_, ?_⟩
  · intro g u
    have hnodup := hr.nodup h
    rw [hq, List.perm_middle.nodup_iff, List.nodup_cons] at hnodup
    by_cases hu : u = t
    · subst hu
      rw [Function.update_self]
      refine iff_of_false ?_ nofun
      by_cases hg : g = h
      · rw [hg, Function.update_self]
        exact hnodup.1
      · rw [Function.update_of_ne hg, hmem, ht]
        exact fun heq => hg (Option.some.inj heq).symm
    · rw [Function.update_of_ne hu, ← hmem]
      by_cases hg : g = h
      · rw [hg, Function.update_self, hq]
        simp [hu]
      · rw [Function.update_of_ne hg]
  · intro g
    by_cases hg : g = h
    · rw [hg, Function.update_self, Function.update_self, hsize, hq, List.length_append,
        List.length_append, List.length_cons]
      omega
    · rw [Function.update_of_ne hg, Function.update_of_ne hg, hsize]

/-- A list with one more element. -/
theorem of_perm {q : H → List T} {zs : List T} {l' : Links (H ⊕ T)}
    (hmem : ∀ h t, t ∈ q h ↔ home t = some h) (hsize : ∀ h, size h = ((q h).length : Int))
    (ht : home t = none) (hr' : Rings l' (Function.update q h zs)) (hperm : zs.Perm (t :: q h)) :
    Placed l' (Function.update home t (some h)) (Function.update size h (size h + 1)) := by
  refine ⟨_, hr', ?_, ?_⟩
  · intro g u
    by_cases hg : g = h
    · subst hg
      rw [Function.update_self, hperm.mem_iff, List.mem_cons, hmem]
      by_cases hu : u = t
      · subst hu
        rw [Function.update_self]
        exact iff_of_true (Or.inl rfl) rfl
      · rw [Function.update_of_ne hu]
        exact or_iff_right hu
    · rw [Function.update_of_ne hg, hmem]
      by_cases hu : u = t
      · subst hu
        rw [Function.update_self, ht]
        exact iff_of_false nofun fun heq => hg (Option.some.inj heq).symm
      · rw [Function.update_of_ne hu]
  · intro g
    by_cases hg : g = h
    · subst hg
      rw [Function.update_self, Function.update_self, hperm.length_eq, hsize, List.length_cons]
      omega
    · rw [Function.update_of_ne hg, Function.update_of_ne hg, hsize]

theorem insertHead (hp : Placed l home size) (ht : home t = none) (h : H) :
    ∃ l', l.insertHead (.inl h) (.inr t) = some l' ∧
      Placed l' (Function.update home t (some h)) (Function.update size h (size h + 1)) := by
  obtain ⟨q, hr, hmem, hsize⟩ := hp
  have hfree : ∀ g, t ∉ q g := by
    intro g hin
    cases ht.symm.trans ((hmem g t).mp hin)
  obtain ⟨l', hins, hr'⟩ := hr.insertHead_spec (h := h) hfree
  exact ⟨l', hins, of_perm hmem hsize ht hr' (.refl _)⟩

theorem insertTail (hp : Placed l home size) (ht : home t = none) (h : H) :
    ∃ l', l.insertTail (.inl h) (.inr t) = some l' ∧
      Placed l' (Function.update home t (some h)) (Function.update size h (size h + 1)) := by
  obtain ⟨q, hr, hmem, hsize⟩ := hp
  have hfree : ∀ g, t ∉ q g := by
    intro g hin
    cases ht.symm.trans ((hmem g t).mp hin)
  obtain ⟨l', hins, hr'⟩ := hr.insertTail_spec (h := h) hfree
  exact ⟨l', hins, of_perm hmem hsize ht hr' (List.perm_append_singleton t (q h))⟩

/-- Inserting an element and removing it again. -/
theorem remove_insertHead (hp : Placed l home size) (ht : home t = none) {l' : Links (H ⊕ T)}
    (hins : l.insertHead (.inl h) (.inr t) = some l') : l'.remove (.inr t) = some l := by
  obtain ⟨q, hr, hfree⟩ := hp.rings_free ht
  exact hr.remove_insertHead hfree hins

theorem remove_insertTail (hp : Placed l home size) (ht : home t = none) {l' : Links (H ⊕ T)}
    (hins : l.insertTail (.inl h) (.inr t) = some l') : l'.remove (.inr t) = some l := by
  obtain ⟨q, hr, hfree⟩ := hp.rings_free ht
  exact hr.remove_insertTail hfree hins

/-- Out of a list and into another one, or back into the same one. -/
theorem move (hp : Placed l home size) {g : H} (ht : home t = some g) (h : H) :
    ∃ l₁ l₂, l.remove (.inr t) = some l₁ ∧ l₁.insertTail (.inl h) (.inr t) = some l₂ ∧
      Placed l₂ (Function.update home t (some h))
        (Function.update (Function.update size g (size g - 1)) h
          (Function.update size g (size g - 1) h + 1)) := by
  obtain ⟨l₁, hrem, hp₁⟩ := hp.remove ht
  obtain ⟨l₂, hins, hp₂⟩ := hp₁.insertTail (Function.update_self _ _ _) h
  rw [Function.update_idem] at hp₂
  exact ⟨l₁, l₂, hrem, hins, hp₂⟩

end Edits

end Placed

end CodingSample
