import Mathlib.Tactic.Common

/-!
# Stateful programs that can go wrong

A program reads and updates a state and either returns a value or stops with a fault. The two
predicate transformers are the weakest precondition `wp` (the program returns, and the
postcondition holds) and the weakest liberal precondition `wlp` (if it returns, the postcondition
holds). Every specification below this module is stated with one of the two.
-/

namespace CodingSample

/-- A program over states `σ` that returns an `α` or stops with a fault in `ε`. -/
def Prog (ε σ α : Type) : Type := σ → Except ε (α × σ)

namespace Prog

variable {ε σ α β : Type}

instance : Monad (Prog ε σ) where
  pure a := fun s => .ok (a, s)
  bind m f := fun s => match m s with
    | .error e => .error e
    | .ok (a, s') => f a s'

/-- The current state. -/
def get : Prog ε σ σ := fun s => .ok (s, s)

def modify (f : σ → σ) : Prog ε σ Unit := fun s => .ok ((), f s)

def fail (e : ε) : Prog ε σ α := fun _ => .error e

/-- Stop with `e` unless the test holds. -/
def check (e : ε) (test : Bool) : Prog ε σ Unit := if test then pure () else fail e

/-- Run a program on one component of a larger state. -/
def zoom {τ : Type} (read : τ → σ) (write : σ → τ → τ) (m : Prog ε σ α) : Prog ε τ α := fun t =>
  match m (read t) with
  | .error e => .error e
  | .ok (a, s') => .ok (a, write s' t)

/-- Run a program for each element of a list, in order. -/
def each {ι : Type} (f : ι → Prog ε σ Unit) : List ι → Prog ε σ Unit
  | [] => pure ()
  | x :: xs => f x >>= fun _ => each f xs

/-- The program returns from `s`, and what it returns satisfies `Q`. -/
def wp (m : Prog ε σ α) (Q : α → σ → Prop) (s : σ) : Prop :=
  ∃ a s', m s = .ok (a, s') ∧ Q a s'

/-- If the program returns from `s`, then what it returns satisfies `Q`. -/
def wlp (m : Prog ε σ α) (Q : α → σ → Prop) (s : σ) : Prop :=
  ∀ a s', m s = .ok (a, s') → Q a s'

@[simp] theorem pure_apply (a : α) (s : σ) : (pure a : Prog ε σ α) s = .ok (a, s) := rfl

@[simp] theorem get_apply (s : σ) : (get : Prog ε σ σ) s = .ok (s, s) := rfl

@[simp] theorem modify_apply (f : σ → σ) (s : σ) :
    (modify f : Prog ε σ Unit) s = .ok ((), f s) := rfl

@[simp] theorem fail_apply (e : ε) (s : σ) : (fail e : Prog ε σ α) s = .error e := rfl

theorem bind_apply (m : Prog ε σ α) (f : α → Prog ε σ β) (s : σ) :
    (m >>= f) s = match m s with
      | .error e => .error e
      | .ok (a, s') => f a s' := rfl

theorem bind_eq_of_ok {m : Prog ε σ α} {f : α → Prog ε σ β} {s s' : σ} {a : α}
    (h : m s = .ok (a, s')) : (m >>= f) s = f a s' := by
  simp [bind_apply, h]

theorem bind_eq_of_error {m : Prog ε σ α} {f : α → Prog ε σ β} {s : σ} {e : ε}
    (h : m s = .error e) : (m >>= f) s = .error e := by
  simp [bind_apply, h]

theorem bind_ok_iff {m : Prog ε σ α} {f : α → Prog ε σ β} {s : σ} {r : β × σ} :
    (m >>= f) s = .ok r ↔ ∃ a s', m s = .ok (a, s') ∧ f a s' = .ok r := by
  rw [bind_apply]
  cases h : m s with
  | error e => simp
  | ok p =>
      obtain ⟨a, s'⟩ := p
      simp

@[simp] theorem check_true (e : ε) : (check e true : Prog ε σ Unit) = pure () := rfl

@[simp] theorem check_false (e : ε) : (check e false : Prog ε σ Unit) = fail e := rfl

theorem check_ok_iff {e : ε} {test : Bool} {s : σ} {r : Unit × σ} :
    (check e test : Prog ε σ Unit) s = .ok r ↔ test = true ∧ r = ((), s) := by
  cases test <;> simp [eq_comm]

theorem each_of_noop {ι : Type} {f : ι → Prog ε σ Unit} {l : List ι} {s : σ}
    (h : ∀ x ∈ l, f x s = .ok ((), s)) : each f l s = .ok ((), s) := by
  induction l with
  | nil => rfl
  | cons x l ih =>
      rw [each, bind_eq_of_ok (h x List.mem_cons_self)]
      exact ih fun y hy => h y (List.mem_cons_of_mem _ hy)

/-! ### Weakest preconditions -/

section Wp

variable {m : Prog ε σ α} {f : α → Prog ε σ β} {Q Q' : α → σ → Prop} {R : β → σ → Prop} {s : σ}

theorem wp_mono (h : wp m Q s) (hQ : ∀ a s', Q a s' → Q' a s') : wp m Q' s := by
  obtain ⟨a, s', hm, hq⟩ := h
  exact ⟨a, s', hm, hQ a s' hq⟩

@[simp] theorem wp_pure {a : α} : wp (pure a : Prog ε σ α) Q s ↔ Q a s := by
  simp [wp]

theorem wp_bind : wp (m >>= f) R s ↔ wp m (fun a s' => wp (f a) R s') s := by
  simp only [wp, bind_ok_iff]
  constructor
  · rintro ⟨b, s'', ⟨a, s', hm, hf⟩, hr⟩
    exact ⟨a, s', hm, b, s'', hf, hr⟩
  · rintro ⟨a, s', hm, b, s'', hf, hr⟩
    exact ⟨b, s'', ⟨a, s', hm, hf⟩, hr⟩

@[simp] theorem wp_get {P : σ → σ → Prop} : wp (get : Prog ε σ σ) P s ↔ P s s := by
  simp [wp]

@[simp] theorem wp_modify {g : σ → σ} {P : Unit → σ → Prop} :
    wp (modify g : Prog ε σ Unit) P s ↔ P () (g s) := by
  constructor
  · rintro ⟨_, _, h, hp⟩
    cases h
    exact hp
  · exact fun h => ⟨(), _, rfl, h⟩

@[simp] theorem wp_fail {e : ε} : wp (fail e : Prog ε σ α) Q s ↔ False := by
  simp [wp]

theorem wp_check {e : ε} {test : Bool} {P : Unit → σ → Prop} :
    wp (check e test : Prog ε σ Unit) P s ↔ test = true ∧ P () s := by
  cases test <;> simp

theorem wp_zoom {τ : Type} {read : τ → σ} {write : σ → τ → τ} {P : α → τ → Prop} {t : τ} :
    wp (zoom read write m) P t ↔ wp m (fun a s' => P a (write s' t)) (read t) := by
  unfold wp zoom
  cases h : m (read t) with
  | error e => simp
  | ok r =>
      obtain ⟨a, s'⟩ := r
      simp

/-- Pass the result of a program whose behaviour from `s` is known to what follows. -/
theorem wp_bind_of (h : wp m Q s) (hf : ∀ a s', Q a s' → wp (f a) R s') : wp (m >>= f) R s :=
  wp_bind.mpr (wp_mono h hf)

theorem wp_of_eq {a : α} {s' : σ} (h : m s = .ok (a, s')) : wp m Q s ↔ Q a s' := by
  simp [wp, h]

/-- A loop over a list keeps an invariant that may speak about the elements still to come. -/
theorem wp_each {ι : Type} {body : ι → Prog ε σ Unit} {I : List ι → σ → Prop} {xs : List ι}
    (hinit : I xs s)
    (hstep : ∀ x rest t, I (x :: rest) t → wp (body x) (fun _ t' => I rest t') t) :
    wp (each body xs) (fun _ t => I [] t) s := by
  induction xs generalizing s with
  | nil => exact wp_pure.mpr hinit
  | cons x xs ih => exact wp_bind_of (hstep x xs s hinit) fun _ t ht => ih ht

end Wp

/-! ### Weakest liberal preconditions -/

section Wlp

variable {m : Prog ε σ α} {f : α → Prog ε σ β} {Q Q' : α → σ → Prop} {R : β → σ → Prop} {s : σ}

theorem wlp_of_wp (h : wp m Q s) : wlp m Q s := by
  obtain ⟨a, s', hm, hq⟩ := h
  intro b t hb
  rw [hm] at hb
  cases hb
  exact hq

theorem wlp_mono (h : wlp m Q s) (hQ : ∀ a s', Q a s' → Q' a s') : wlp m Q' s :=
  fun a s' hm => hQ a s' (h a s' hm)

@[simp] theorem wlp_pure {a : α} : wlp (pure a : Prog ε σ α) Q s ↔ Q a s := by
  simp [wlp]

theorem wlp_bind : wlp (m >>= f) R s ↔ wlp m (fun a s' => wlp (f a) R s') s := by
  simp only [wlp, bind_ok_iff]
  constructor
  · intro h a s' hm b s'' hf
    exact h b s'' ⟨a, s', hm, hf⟩
  · rintro h b s'' ⟨a, s', hm, hf⟩
    exact h a s' hm b s'' hf

@[simp] theorem wlp_get {P : σ → σ → Prop} : wlp (get : Prog ε σ σ) P s ↔ P s s := by
  simp [wlp]

@[simp] theorem wlp_modify {g : σ → σ} {P : Unit → σ → Prop} :
    wlp (modify g : Prog ε σ Unit) P s ↔ P () (g s) := by
  constructor
  · exact fun h => h () _ rfl
  · intro h a s' hs
    cases hs
    exact h

@[simp] theorem wlp_fail {e : ε} : wlp (fail e : Prog ε σ α) Q s ↔ True := by
  simp [wlp]

theorem wlp_check {e : ε} {test : Bool} {P : Unit → σ → Prop} :
    wlp (check e test : Prog ε σ Unit) P s ↔ (test = true → P () s) := by
  cases test <;> simp

theorem wlp_each {ι : Type} {body : ι → Prog ε σ Unit} {I : List ι → σ → Prop} {xs : List ι}
    (hinit : I xs s)
    (hstep : ∀ x rest t, I (x :: rest) t → wlp (body x) (fun _ t' => I rest t') t) :
    wlp (each body xs) (fun _ t => I [] t) s := by
  induction xs generalizing s with
  | nil => exact wlp_pure.mpr hinit
  | cons x xs ih => exact wlp_bind.mpr (wlp_mono (hstep x xs s hinit) fun _ t ht => ih ht)

theorem wlp_bind_of (h : wlp m Q s) (hf : ∀ a s', Q a s' → wlp (f a) R s') :
    wlp (m >>= f) R s :=
  wlp_bind.mpr (wlp_mono h hf)

end Wlp

/-! ### Programs that may stop -/

/-- If the program returns from `s`, what it returns satisfies `Q`; if it stops, the fault
satisfies `E`. -/
def ewp (m : Prog ε σ α) (Q : α → σ → Prop) (E : ε → Prop) (s : σ) : Prop :=
  match m s with
  | .error e => E e
  | .ok (a, s') => Q a s'

section Ewp

variable {m : Prog ε σ α} {f : α → Prog ε σ β} {Q Q' : α → σ → Prop} {R : β → σ → Prop}
  {E E' : ε → Prop} {s : σ}

theorem ewp_mono (h : ewp m Q E s) (hQ : ∀ a s', Q a s' → Q' a s') (hE : ∀ e, E e → E' e) :
    ewp m Q' E' s := by
  unfold ewp at h ⊢
  split at h
  · exact hE _ h
  · exact hQ _ _ h

theorem ewp_bind : ewp (m >>= f) R E s ↔ ewp m (fun a s' => ewp (f a) R E s') E s := by
  unfold ewp
  rw [bind_apply]
  cases h : m s with
  | error e => exact Iff.rfl
  | ok p => exact Iff.rfl

theorem ewp_bind_of (h : ewp m Q E s) (hf : ∀ a s', Q a s' → ewp (f a) R E s') :
    ewp (m >>= f) R E s :=
  ewp_bind.mpr (ewp_mono h hf fun _ he => he)

@[simp] theorem ewp_pure {a : α} : ewp (pure a : Prog ε σ α) Q E s ↔ Q a s := Iff.rfl

@[simp] theorem ewp_get {P : σ → σ → Prop} : ewp (get : Prog ε σ σ) P E s ↔ P s s := Iff.rfl

@[simp] theorem ewp_modify {g : σ → σ} {P : Unit → σ → Prop} :
    ewp (modify g : Prog ε σ Unit) P E s ↔ P () (g s) := Iff.rfl

@[simp] theorem ewp_fail {e : ε} : ewp (fail e : Prog ε σ α) Q E s ↔ E e := Iff.rfl

theorem ewp_of_ok {a : α} {s' : σ} (h : m s = .ok (a, s')) : ewp m Q E s ↔ Q a s' := by
  unfold ewp
  rw [h]

theorem ewp_check {e : ε} {test : Bool} {P : Unit → σ → Prop} :
    ewp (check e test : Prog ε σ Unit) P E s ↔ (test = true → P () s) ∧ (test = false → E e) := by
  cases test <;> simp

theorem ewp_each {ι : Type} {body : ι → Prog ε σ Unit} {I : List ι → σ → Prop} {xs : List ι}
    (hinit : I xs s)
    (hstep : ∀ x rest t, I (x :: rest) t → ewp (body x) (fun _ t' => I rest t') E t) :
    ewp (each body xs) (fun _ t => I [] t) E s := by
  induction xs generalizing s with
  | nil => exact hinit
  | cons x xs ih => exact ewp_bind_of (hstep x xs s hinit) fun _ t ht => ih ht

/-- A program that cannot stop returns. -/
theorem wp_of_ewp (h : ewp m Q E s) (hE : ∀ e, ¬ E e) : wp m Q s := by
  unfold ewp at h
  split at h
  · exact absurd h (hE _)
  · rename_i heq
    exact ⟨_, _, heq, h⟩

end Ewp

end Prog

end CodingSample
