import CodingSample.Prog.Basic
import Mathlib.Algebra.Group.Basic

/-!
# Programs that change a count

A count of the state, such as how many references there are to each of some objects, that a program
changes by an amount that its value tells, as long as the state is sound.
-/

namespace CodingSample.Prog

variable {ε σ α β M : Type} [AddCommGroup M] {sound : σ → Prop} {count : σ → M}

theorem wlp_zoom {τ : Type} {read : τ → σ} {write : σ → τ → τ} {m : Prog ε σ α} {P : α → τ → Prop}
    {t : τ} : wlp (zoom read write m) P t ↔ wlp m (fun a s' => P a (write s' t)) (read t) := by
  unfold wlp zoom
  cases h : m (read t) with
  | error e => simp
  | ok r =>
      obtain ⟨a, s'⟩ := r
      simp only [Except.ok.injEq, Prod.mk.injEq, and_imp]
      exact ⟨fun hP a' s'' ha hs => by subst ha hs; exact hP _ _ rfl rfl,
        fun hP a' t' ha ht => by subst ha ht; exact hP _ _ rfl rfl⟩

/-- If the program returns from a sound state, the state is sound, and the count has changed by what
`d` says of the value. -/
def Changes (sound : σ → Prop) (count : σ → M) (m : Prog ε σ α) (d : α → M) : Prop :=
  ∀ s, sound s → wlp m (fun a s' => sound s' ∧ count s' = count s + d a) s

namespace Changes

theorem pure {a : α} {d : α → M} (h : d a = 0) :
    Changes sound count (Pure.pure a : Prog ε σ α) d := fun s hs => by
  rw [wlp_pure, h, add_zero]
  exact ⟨hs, rfl⟩

theorem fail {e : ε} {d : α → M} : Changes sound count (Prog.fail e : Prog ε σ α) d :=
  fun _ _ => wlp_fail.mpr trivial

theorem check {e : ε} {test : Bool} :
    Changes sound count (Prog.check e test : Prog ε σ Unit) fun _ => 0 :=
  fun _ hs => wlp_check.mpr fun _ => ⟨hs, (add_zero _).symm⟩

theorem modify {f : σ → σ} {n : M} (h : ∀ s, sound s → sound (f s) ∧ count (f s) = count s + n) :
    Changes sound count (Prog.modify f : Prog ε σ Unit) fun _ => n :=
  fun s hs => wlp_modify.mpr (h s hs)

theorem congr {m : Prog ε σ α} {d d' : α → M} (h : Changes sound count m d)
    (hd : ∀ a, d a = d' a) : Changes sound count m d' := fun s hs =>
  wlp_mono (h s hs) fun a _ ha => by rw [← hd]; exact ha

theorem bind {m : Prog ε σ α} {f : α → Prog ε σ β} {d : α → M} {d' : β → M}
    (hm : Changes sound count m d) (hf : ∀ a, Changes sound count (f a) fun b => d' b - d a) :
    Changes sound count (m >>= f) d' := by
  intro s hs
  refine wlp_bind_of (hm s hs) ?_
  rintro a s1 ⟨hs1, h1⟩
  refine wlp_mono (hf a s1 hs1) ?_
  rintro b s2 ⟨hs2, h2⟩
  refine ⟨hs2, ?_⟩
  rw [h2, h1, add_assoc, add_sub_cancel]

/-- A step that leaves the count. -/
theorem bind_zero {m : Prog ε σ α} {f : α → Prog ε σ β} {d : β → M}
    (hm : Changes sound count m fun _ => 0) (hf : ∀ a, Changes sound count (f a) d) :
    Changes sound count (m >>= f) d :=
  hm.bind fun a => (hf a).congr fun b => (sub_zero (d b)).symm

theorem get_bind {f : σ → Prog ε σ α} {d : α → M} (hf : ∀ s, Changes sound count (f s) d) :
    Changes sound count (Prog.get >>= f) d :=
  bind_zero (fun _ hs => wlp_get.mpr ⟨hs, (add_zero _).symm⟩) hf

theorem ite {c : Prop} [Decidable c] {m m' : Prog ε σ α} {d : α → M}
    (h : c → Changes sound count m d) (h' : ¬ c → Changes sound count m' d) :
    Changes sound count (if c then m else m') d := by
  split
  · exact h ‹_›
  · exact h' ‹_›

theorem each {ι : Type} {f : ι → Prog ε σ Unit} (h : ∀ x, Changes sound count (f x) fun _ => 0)
    (xs : List ι) : Changes sound count (Prog.each f xs) fun _ => 0 := by
  induction xs with
  | nil => exact .pure rfl
  | cons x xs ih => exact .bind_zero (h x) fun _ => ih

theorem zoom {τ : Type} {read : τ → σ} {write : σ → τ → τ} {m : Prog ε σ α} {d : α → M}
    (h : Changes sound count m d) (hwrite : ∀ s t, read (write s t) = s) :
    Changes (fun t => sound (read t)) (fun t => count (read t)) (Prog.zoom read write m) d := by
  intro t ht
  rw [wlp_zoom]
  refine wlp_mono (h (read t) ht) ?_
  intro a s hs
  simp only [hwrite]
  exact hs

end Changes

end CodingSample.Prog
