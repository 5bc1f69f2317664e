import CodingSample.Uthreads.Steps
import Mathlib.Logic.Function.Iterate

/-!
# Mutexes and condition variables on the abstract machine
-/

namespace CodingSample.Uthreads

open Prog

variable {M C : Type} [DecidableEq M] [DecidableEq C] {s : Machine M C} {a : Abs M C}
  {h : Head M C} {t : Nat} {E : Fault → Prop}

namespace Abs

variable (a)

def setOwner (mtx : M) (owner : Option Nat) : Abs M C :=
  a.onCore fun c => { c with mOwner := Function.update c.mOwner mtx owner }

/-- The current thread goes to the front of a queue. -/
def push (h : Head M C) : Abs M C := a.setQ h (a.core.utCurthr :: a.q h)

def lock (mtx : M) : Bool × Abs M C :=
  if a.core.mOwner mtx = none then
    (true, a.setOwner mtx (some a.core.utCurthr))
  else if a.core.mOwner mtx = some a.core.utCurthr then
    (false, a.block (.lock mtx))
  else
    (false, (a.push (.mtx mtx)).block (.lock mtx))

def trylock (mtx : M) : Int × Abs M C :=
  if a.core.mOwner mtx = none then (1, a.setOwner mtx (some a.core.utCurthr)) else (0, a)

def unlock (mtx : M) : Abs M C :=
  match (a.q (.mtx mtx)).getLast? with
  | none => a.setOwner mtx none
  | some t => ((a.setQ (.mtx mtx) (a.q (.mtx mtx)).dropLast).setOwner mtx (some t)).wake t

def condWait (cond : C) (mtx : M) : Abs M C :=
  ((a.push (.cond cond)).unlock mtx).block (.condWait cond mtx)

def signal (cond : C) : Abs M C :=
  match (a.q (.cond cond)).getLast? with
  | none => a
  | some t => (a.setQ (.cond cond) (a.q (.cond cond)).dropLast).wake t

def broadcast (cond : C) : Abs M C := (fun b => b.signal cond)^[(a.q (.cond cond)).length] a

/-- What the library relies on about a thread in the queue of a mutex or condition variable. -/
structure Asleep (t : Nat) : Prop where
  lt : t < uthMaxUthreads
  id : (a.core.uthreads t).utId = t
  prio : 0 ≤ (a.core.uthreads t).utPrio ∧ (a.core.uthreads t).utPrio ≤ uthMaxprio
  state : a.core.state t = .wait

end Abs

namespace Abs

theorem utCurthr_wake : (a.wake t).core.utCurthr = a.core.utCurthr := by
  unfold wake
  split <;> rfl

theorem uthreads_wake_of_ne {u : Nat} (hu : u ≠ t) :
    (a.wake t).core.uthreads u = a.core.uthreads u := by
  unfold wake
  split
  · exact Function.update_of_ne hu _ _
  · rfl

/-- Unlocking wakes another thread at most. -/
theorem cur_unlock {mtx : M} (hne : ∀ t ∈ a.q (.mtx mtx), t ≠ a.core.utCurthr) :
    (a.unlock mtx).core.cur = a.core.cur := by
  unfold unlock
  rcases List.eq_nil_or_concat (a.q (.mtx mtx)) with hq | ⟨xs, t, hq⟩
  · rw [hq]
    rfl
  · rw [List.concat_eq_append] at hq
    have ht := hne t (by simp [hq])
    rw [hq, List.getLast?_concat]
    simp only []
    rw [Core.cur, utCurthr_wake]
    exact uthreads_wake_of_ne ht.symm

end Abs

/-- A thread taken from its queue is in no list. -/
theorem View.free_of_dropped (hv : View s a) {xs : List Nat} (hq : a.q h = xs ++ [t]) :
    (a.setQ h xs).Free t := by
  intro g
  change t ∉ Function.update a.q h xs g
  have hmem : t ∈ a.q h := by simp [hq]
  by_cases hg : g = h
  · subst hg
    rw [Function.update_self]
    have hnodup := hv.rings.nodup g
    rw [hq] at hnodup
    intro hx
    exact (List.nodup_append.mp hnodup).2.2 t hx t List.mem_cons_self rfl
  · rw [Function.update_of_ne hg]
    exact fun hmem' => hg (hv.rings.unique g h t hmem' hmem)

omit [DecidableEq M] [DecidableEq C] in
theorem Abs.Asleep.wakeable (has : a.Asleep t) {b : Abs M C}
    (hcore : b.core.uthreads = a.core.uthreads) (hfree : b.Free t) : b.Wakeable t :=
  ⟨has.lt, by rw [hcore]; exact has.id, by rw [hcore]; exact has.prio, hfree⟩

omit [DecidableEq M] [DecidableEq C] in
theorem Abs.Asleep.ne_noState (has : a.Asleep t) : a.core.state t ≠ .noState := by
  rw [has.state]
  decide

omit [DecidableEq C] in
theorem ewp_setOwner (hv : View s a) (mtx : M) (owner : Option Nat) :
    ewp (setOwner mtx owner) (fun _ s' => View s' (a.setOwner mtx owner)) E s :=
  hv.onCore fun c => { c with mOwner := Function.update c.mOwner mtx owner }

theorem ewp_uthreadMtxLock (hv : View s a) (hcur : a.core.cur.utState = .onCpu)
    (hfree : a.Free a.core.utCurthr) (mtx : M) :
    ewp (uthreadMtxLock mtx)
      (fun r s' => r = (a.lock mtx).1 ∧ View s' (a.lock mtx).2) E s := by
  unfold uthreadMtxLock Abs.lock
  rw [ewp_bind, ewp_getCore, hv.core]
  split
  · rw [ewp_bind]
    refine ewp_mono (ewp_setOwner (E := E) hv mtx _) ?_ fun _ he => he
    intro _ s1 hv1
    exact ⟨rfl, hv1⟩
  · rw [ewp_bind]
    split
    · rename_i hown
      refine ewp_doIf (fun hne => absurd hown hne) fun _ => ?_
      refine ewp_bind_of (ewp_uthreadBlock hv hcur (.lock mtx)) ?_
      intro _ s1 hv1
      exact ⟨rfl, hv1⟩
    · rename_i hown
      refine ewp_doIf (fun _ => ?_) fun hno => absurd hown hno
      refine ewp_mono (ewp_utqueueEnqueue (h := .mtx mtx) hv (by rintro ⟨⟩) hfree) ?_ fun _ he => he
      intro _ s1 hv1
      refine ewp_bind_of (ewp_uthreadBlock hv1 hcur (.lock mtx)) ?_
      intro _ s2 hv2
      exact ⟨rfl, hv2⟩

omit [DecidableEq C] in
theorem ewp_uthreadMtxTrylock (hv : View s a) (mtx : M) :
    ewp (uthreadMtxTrylock mtx)
      (fun r s' => r = (a.trylock mtx).1 ∧ View s' (a.trylock mtx).2) E s := by
  unfold uthreadMtxTrylock Abs.trylock
  rw [ewp_bind, ewp_getCore, hv.core]
  split
  · rw [ewp_bind]
    refine ewp_mono (ewp_setOwner (E := E) hv mtx _) ?_ fun _ he => he
    intro _ s1 hv1
    exact ⟨rfl, hv1⟩
  · exact ⟨rfl, hv⟩

/-- The dequeue and wake-up shared by unlock, signal and broadcast. -/
theorem ewp_dequeue (hv : View s a) (hh : h ≠ .reap) {xs : List Nat}
    (hq : a.q h = xs ++ [t]) {f : Option Nat → U M C Unit} {Q : Unit → Machine M C → Prop}
    (hf : ∀ s', View s' (a.setQ h xs) → ewp (f (some t)) Q E s') :
    ewp (utqueueDequeue h >>= f) Q E s := by
  refine ewp_bind_of (ewp_utqueueDequeue hv hh hq) ?_
  rintro r s1 ⟨rfl, hv1, -⟩
  exact hf s1 hv1

theorem ewp_uthreadMtxUnlock (hv : View s a) (mtx : M)
    (hasleep : ∀ t ∈ a.q (.mtx mtx), a.Asleep t)
    (hE : a.core.mOwner mtx ≠ some a.core.utCurthr → E (.assertion .uthreadMtxUnlock)) :
    ewp (uthreadMtxUnlock mtx) (fun _ s' => a.core.mOwner mtx = some a.core.utCurthr ∧
      View s' (a.unlock mtx)) E s := by
  unfold uthreadMtxUnlock Abs.unlock
  rw [ewp_bind, ewp_getCore, hv.core, ewp_bind, assert, ewp_check]
  refine ⟨fun hown => ?_, fun hown => hE (of_decide_eq_false hown)⟩
  have hown := of_decide_eq_true hown
  refine ewp_bind_of (ewp_utqueueEmpty (h := .mtx mtx) hv (by rintro ⟨⟩)) ?_
  rintro r s1 ⟨rfl, rfl⟩
  rcases List.eq_nil_or_concat (a.q (.mtx mtx)) with hq | ⟨xs, t, hq⟩
  · rw [hq]
    refine ewp_mono (ewp_setOwner (E := E) hv mtx none) ?_ fun _ he => he
    intro _ s2 hv2
    exact ⟨hown, hv2⟩
  · rw [List.concat_eq_append] at hq
    have hempty : (a.q (.mtx mtx)).isEmpty = false := by simp [hq]
    have hsleep := hasleep t (by simp [hq])
    rw [hempty, if_neg (by decide)]
    refine ewp_dequeue (h := .mtx mtx) hv (by rintro ⟨⟩) hq ?_
    intro s2 hv2
    refine ewp_bind_of (ewp_setOwner (E := E) hv2 mtx (some t)) ?_
    intro _ s3 hv3
    refine ewp_mono (ewp_uthreadWake hv3 hsleep.ne_noState fun _ =>
      hsleep.wakeable rfl (hv.free_of_dropped hq)) ?_ fun _ he => he
    intro _ s4 hv4
    rw [hq, List.getLast?_concat, List.dropLast_concat]
    exact ⟨hown, hv4⟩

theorem ewp_uthreadCondWait (hv : View s a) (hcur : a.core.cur.utState = .onCpu)
    (hfree : a.Free a.core.utCurthr) (cond : C) (mtx : M)
    (hasleep : ∀ t ∈ a.q (.mtx mtx), a.Asleep t)
    (hE : a.core.mOwner mtx ≠ some a.core.utCurthr → E (.assertion .uthreadCondWait)) :
    ewp (uthreadCondWait cond mtx) (fun _ s' => a.core.mOwner mtx = some a.core.utCurthr ∧
      View s' (a.condWait cond mtx)) E s := by
  unfold uthreadCondWait Abs.condWait
  rw [ewp_bind, ewp_getCore, hv.core, ewp_bind, assert, ewp_check]
  refine ⟨fun hown => ?_, fun hown => hE (of_decide_eq_false hown)⟩
  have hown := of_decide_eq_true hown
  refine ewp_bind_of (ewp_utqueueEnqueue (h := .cond cond) hv (by rintro ⟨⟩) hfree) ?_
  intro _ s1 hv1
  have hq : (a.push (.cond cond)).q (.mtx mtx) = a.q (.mtx mtx) := by
    simp [Abs.push, Abs.setQ]
  refine ewp_bind_of (ewp_uthreadMtxUnlock (a := a.push (.cond cond)) hv1 mtx ?_
    fun hne => absurd hown hne) ?_
  · rw [hq]
    intro t ht
    obtain ⟨hlt, hid, hprio, hstate⟩ := hasleep t ht
    exact ⟨hlt, hid, hprio, hstate⟩
  · rintro _ s2 ⟨-, hv2⟩
    refine ewp_mono (ewp_uthreadBlock (E := E) hv2 ?_ (.condWait cond mtx)) ?_ fun _ he => he
    · rw [Abs.cur_unlock]
      · exact hcur
      · rw [hq]
        intro t ht heq
        have hstate := (hasleep t ht).state
        rw [heq] at hstate
        exact UthreadState.noConfusion (hcur.symm.trans hstate)
    · intro _ s3 hv3
      exact ⟨hown, hv3⟩

theorem Abs.signal_of_concat {cond : C} {xs : List Nat} (hq : a.q (.cond cond) = xs ++ [t]) :
    a.signal cond = (a.setQ (.cond cond) xs).wake t := by
  rw [Abs.signal, hq, List.getLast?_concat, List.dropLast_concat]

theorem Abs.signal_of_nil {cond : C} (hq : a.q (.cond cond) = []) : a.signal cond = a := by
  rw [Abs.signal, hq]
  rfl

theorem ewp_uthreadCondSignal (hv : View s a) (cond : C)
    (hasleep : ∀ t ∈ a.q (.cond cond), a.Asleep t) :
    ewp (uthreadCondSignal cond) (fun _ s' => View s' (a.signal cond)) E s := by
  unfold uthreadCondSignal
  refine ewp_bind_of (ewp_utqueueEmpty (h := .cond cond) hv nofun) ?_
  rintro r s1 ⟨rfl, rfl⟩
  rcases List.eq_nil_or_concat (a.q (.cond cond)) with hq | ⟨xs, t, hq⟩
  · rw [hq, Abs.signal_of_nil hq]
    exact hv
  · rw [List.concat_eq_append] at hq
    have hempty : (a.q (.cond cond)).isEmpty = false := by simp [hq]
    have hsleep := hasleep t (by simp [hq])
    rw [hempty, if_neg (by decide), Abs.signal_of_concat hq]
    refine ewp_dequeue (h := .cond cond) hv nofun hq ?_
    intro s2 hv2
    exact ewp_uthreadWake hv2 hsleep.ne_noState fun _ =>
      hsleep.wakeable rfl (hv.free_of_dropped hq)

/-- Waking the thread at the back leaves the other sleepers as they are. -/
theorem Abs.asleep_signal {cond : C} {xs : List Nat} (hq : a.q (.cond cond) = xs ++ [t])
    (hnodup : (xs ++ [t]).Nodup) (hasleep : ∀ u ∈ xs ++ [t], a.Asleep u) :
    (a.signal cond).q (.cond cond) = xs ∧ ∀ u ∈ xs, (a.signal cond).Asleep u := by
  have hwait : (a.setQ (.cond cond) xs).core.state t = .wait := (hasleep t (by simp)).state
  have hcore (u : Nat) (hu : u ≠ t) :
      (a.signal cond).core.uthreads u = a.core.uthreads u := by
    rw [Abs.signal_of_concat hq, Abs.uthreads_wake_of_ne hu]
    rfl
  refine ⟨?_, ?_⟩
  · rw [Abs.signal_of_concat hq, Abs.wake, if_pos hwait]
    simp [Abs.ready, Abs.setQ, Abs.onCore, runqTable]
  · intro u hu
    have hne : u ≠ t := by
      rintro rfl
      exact (List.nodup_append.mp hnodup).2.2 u hu u List.mem_cons_self rfl
    obtain ⟨hlt, hid, hprio, hstate⟩ := hasleep u (List.mem_append_left _ hu)
    refine ⟨hlt, by rw [hcore u hne]; exact hid, by rw [hcore u hne]; exact hprio, ?_⟩
    rw [Core.state, hcore u hne]
    exact hstate

theorem ewp_broadcastLoop (cond : C) (fuel : Nat) (hv : View s a)
    (hasleep : ∀ t ∈ a.q (.cond cond), a.Asleep t) (hfuel : (a.q (.cond cond)).length < fuel) :
    ewp (broadcastLoop cond fuel) (fun _ s' => View s' (a.broadcast cond)) E s := by
  induction fuel generalizing s a with
  | zero => exact absurd hfuel (Nat.not_lt_zero _)
  | succ fuel ih =>
      unfold broadcastLoop
      refine ewp_bind_of (ewp_utqueueEmpty (h := .cond cond) hv nofun) ?_
      rintro r s1 ⟨rfl, rfl⟩
      rcases List.eq_nil_or_concat (a.q (.cond cond)) with hq | ⟨xs, t, hq⟩
      · have hsame : a.broadcast cond = a := by rw [Abs.broadcast, hq]; rfl
        rw [hq, hsame]
        exact hv
      · rw [List.concat_eq_append] at hq
        have hempty : (a.q (.cond cond)).isEmpty = false := by simp [hq]
        have hsleep := hasleep t (by simp [hq])
        have hnodup := hv.rings.nodup (.cond cond)
        rw [hq] at hasleep hnodup
        obtain ⟨hq', hasleep'⟩ := Abs.asleep_signal hq hnodup hasleep
        have hnext : a.broadcast cond = (a.signal cond).broadcast cond := by
          rw [Abs.broadcast, Abs.broadcast, hq', hq, List.length_append, List.length_singleton,
            Function.iterate_succ_apply]
        rw [hempty, if_neg (by decide), hnext]
        refine ewp_dequeue (h := .cond cond) hv nofun hq ?_
        intro s2 hv2
        refine ewp_bind_of (ewp_uthreadWake hv2 hsleep.ne_noState fun _ =>
          hsleep.wakeable rfl (hv.free_of_dropped hq)) ?_
        intro _ s3 hv3
        rw [← Abs.signal_of_concat hq] at hv3
        refine ih hv3 ?_ ?_
        · rw [hq']
          exact hasleep'
        · rw [hq'] 
          rw [hq, List.length_append, List.length_singleton] at hfuel
          omega

theorem ewp_uthreadCondBroadcast (hv : View s a) (cond : C)
    (hasleep : ∀ t ∈ a.q (.cond cond), a.Asleep t) :
    ewp (uthreadCondBroadcast cond) (fun _ s' => View s' (a.broadcast cond)) E s := by
  refine ewp_broadcastLoop cond _ hv hasleep (Nat.lt_succ_of_le ?_)
  exact length_le_of_lt (hv.rings.nodup _) fun t ht => (hasleep t ht).lt

end CodingSample.Uthreads
