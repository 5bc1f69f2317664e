import Mathlib.Tactic.Common

/-!
# Stateful programs with exceptions

A program that raises keeps the changes it made to the state so far, and a handler continues from
them. This is how a script that edits a file behaves.
-/

namespace CodingSample

/-- A program over states `σ` that returns an `α` or raises an `ε`. -/
def Raise (ε σ α : Type) : Type := σ → Except ε α × σ

namespace Raise

variable {ε σ α β : Type}

instance : Monad (Raise ε σ) where
  pure a := fun s => (.ok a, s)
  bind m f := fun s => match m s with
    | (.error e, s') => (.error e, s')
    | (.ok a, s') => f a s'

/-- A value computed from the state. -/
def gets (f : σ → α) : Raise ε σ α := fun s => (.ok (f s), s)

def modify (f : σ → σ) : Raise ε σ Unit := fun s => (.ok (), f s)

def raise (e : ε) : Raise ε σ α := fun s => (.error e, s)

/-- Raise `e` if the test holds. -/
def raiseIf (test : Bool) (e : ε) : Raise ε σ Unit := if test then raise e else pure ()

/-- Run `m`, and `h` if it raises. -/
def tryExcept (m : Raise ε σ α) (h : ε → Raise ε σ α) : Raise ε σ α := fun s => match m s with
  | (.error e, s') => h e s'
  | (.ok a, s') => (.ok a, s')

/-- Run a program for each element of a list, in order. -/
def each {ι : Type} (f : ι → Raise ε σ Unit) : List ι → Raise ε σ Unit
  | [] => pure ()
  | x :: xs => f x >>= fun _ => each f xs

@[simp] theorem pure_apply (a : α) (s : σ) : (pure a : Raise ε σ α) s = (.ok a, s) := rfl

@[simp] theorem gets_apply (f : σ → α) (s : σ) :
    (gets f : Raise ε σ α) s = (.ok (f s), s) := rfl

@[simp] theorem modify_apply (f : σ → σ) (s : σ) :
    (modify f : Raise ε σ Unit) s = (.ok (), f s) := rfl

@[simp] theorem raise_apply (e : ε) (s : σ) : (raise e : Raise ε σ α) s = (.error e, s) := rfl

@[simp] theorem raiseIf_true (e : ε) : (raiseIf true e : Raise ε σ Unit) = raise e := rfl

@[simp] theorem raiseIf_false (e : ε) : (raiseIf false e : Raise ε σ Unit) = pure () := rfl

theorem bind_apply (m : Raise ε σ α) (f : α → Raise ε σ β) (s : σ) :
    (m >>= f) s = match m s with
      | (.error e, s') => (.error e, s')
      | (.ok a, s') => f a s' := rfl

theorem bind_of_ok {m : Raise ε σ α} {f : α → Raise ε σ β} {s s' : σ} {a : α}
    (h : m s = (.ok a, s')) : (m >>= f) s = f a s' := by
  rw [bind_apply, h]

theorem bind_of_error {m : Raise ε σ α} {f : α → Raise ε σ β} {s s' : σ} {e : ε}
    (h : m s = (.error e, s')) : (m >>= f) s = (.error e, s') := by
  rw [bind_apply, h]

@[simp] theorem gets_bind_apply (g : σ → α) (f : α → Raise ε σ β) (s : σ) :
    (gets g >>= f) s = f (g s) s := rfl

@[simp] theorem modify_bind_apply (g : σ → σ) (f : Unit → Raise ε σ β) (s : σ) :
    (modify g >>= f) s = f () (g s) := rfl

@[simp] theorem pure_bind_apply (a : α) (f : α → Raise ε σ β) (s : σ) :
    ((pure a : Raise ε σ α) >>= f) s = f a s := rfl

/-- A loop whose rounds all return follows its invariant to the end. -/
theorem each_ok {ι : Type} {f : ι → Raise ε σ Unit} {I : List ι → σ → Prop} {l : List ι}
    {s : σ} (hinit : I l s)
    (hstep : ∀ x rest t, I (x :: rest) t → ∃ t', f x t = (.ok (), t') ∧ I rest t') :
    ∃ s', each f l s = (.ok (), s') ∧ I [] s' := by
  induction l generalizing s with
  | nil => exact ⟨s, rfl, hinit⟩
  | cons x l ih =>
      obtain ⟨t, hbody, ht⟩ := hstep x l s hinit
      obtain ⟨s', heach, hs'⟩ := ih ht
      exact ⟨s', by rw [each, bind_of_ok hbody, heach], hs'⟩

/-! ### What a program leaves -/

/-- What the program returns and the state it leaves satisfy `Q`; if it raises, the exception and
the state satisfy `E`. -/
def leaves (m : Raise ε σ α) (Q : α → σ → Prop) (E : ε → σ → Prop) (s : σ) : Prop :=
  match m s with
  | (.error e, s') => E e s'
  | (.ok a, s') => Q a s'

section Leaves

variable {m : Raise ε σ α} {f : α → Raise ε σ β} {Q Q' : α → σ → Prop} {R : β → σ → Prop}
  {E E' : ε → σ → Prop} {s : σ}

theorem leaves_mono (h : leaves m Q E s) (hQ : ∀ a s', Q a s' → Q' a s')
    (hE : ∀ e s', E e s' → E' e s') : leaves m Q' E' s := by
  unfold leaves at h ⊢
  split at h
  · exact hE _ _ h
  · exact hQ _ _ h

theorem leaves_bind_of (h : leaves m Q E s) (hf : ∀ a s', Q a s' → leaves (f a) R E s') :
    leaves (m >>= f) R E s := by
  unfold leaves at h ⊢
  rw [bind_apply]
  split at h
  · exact h
  · exact hf _ _ h

@[simp] theorem leaves_pure {a : α} : leaves (pure a : Raise ε σ α) Q E s ↔ Q a s := Iff.rfl

@[simp] theorem leaves_gets_bind {g : σ → α} :
    leaves (gets g >>= f) R E s ↔ leaves (f (g s)) R E s := Iff.rfl

@[simp] theorem leaves_modify {g : σ → σ} {P : Unit → σ → Prop} :
    leaves (modify g : Raise ε σ Unit) P E s ↔ P () (g s) := Iff.rfl

@[simp] theorem leaves_modify_bind {g : σ → σ} {f : Unit → Raise ε σ β} :
    leaves (modify g >>= f) R E s ↔ leaves (f ()) R E (g s) := Iff.rfl

@[simp] theorem leaves_raise {e : ε} : leaves (raise e : Raise ε σ α) Q E s ↔ E e s := Iff.rfl

end Leaves

end Raise

end CodingSample
