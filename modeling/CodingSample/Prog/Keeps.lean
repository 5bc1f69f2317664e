import CodingSample.Prog.Basic

/-!
# Programs that keep a property

A property of the state that each step keeps is kept by a program, whatever the program computes.
-/

namespace CodingSample.Prog

variable {ε σ α β ι : Type} {P : σ → Prop}

theorem wlp_and {m : Prog ε σ α} {Q Q' : α → σ → Prop} {s : σ} (h : wlp m Q s) (h' : wlp m Q' s) :
    wlp m (fun a s' => Q a s' ∧ Q' a s') s := fun a s' hrun => ⟨h a s' hrun, h' a s' hrun⟩

/-- If the program returns, the property still holds. -/
def Keeps (P : σ → Prop) (m : Prog ε σ α) : Prop := ∀ s, P s → wlp m (fun _ s' => P s') s

namespace Keeps

theorem pure (a : α) : Keeps P (Pure.pure a : Prog ε σ α) := fun _ hs => wlp_pure.mpr hs

theorem fail (e : ε) : Keeps P (Prog.fail e : Prog ε σ α) := fun _ _ => wlp_fail.mpr trivial

theorem get : Keeps P (Prog.get : Prog ε σ σ) := fun _ hs => wlp_get.mpr hs

theorem modify {f : σ → σ} (h : ∀ s, P s → P (f s)) : Keeps P (Prog.modify f : Prog ε σ Unit) :=
  fun s hs => wlp_modify.mpr (h s hs)

theorem check (e : ε) (test : Bool) : Keeps P (Prog.check e test : Prog ε σ Unit) :=
  fun _ hs => wlp_check.mpr fun _ => hs

theorem bind {m : Prog ε σ α} {f : α → Prog ε σ β} (hm : Keeps P m) (hf : ∀ a, Keeps P (f a)) :
    Keeps P (m >>= f) := fun s hs => wlp_bind_of (hm s hs) fun a s' hs' => hf a s' hs'

theorem each {f : ι → Prog ε σ Unit} (h : ∀ x, Keeps P (f x)) (xs : List ι) :
    Keeps P (Prog.each f xs) := fun _ hs =>
  wlp_each (I := fun _ s => P s) hs fun x _ t ht => h x t ht

theorem ite {c : Prop} [Decidable c] {m m' : Prog ε σ α} (h : c → Keeps P m)
    (h' : ¬ c → Keeps P m') : Keeps P (if c then m else m') := by
  split
  · exact h ‹_›
  · exact h' ‹_›

end Keeps

end CodingSample.Prog
