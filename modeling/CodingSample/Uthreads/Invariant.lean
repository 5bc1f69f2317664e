import CodingSample.Uthreads.ThreadSteps

/-!
# The invariant

A thread has one link, so the state and the context of a thread determine the list it is in. The
rest of the invariant relates the threads that wait in `uthread_join` to the `ut_waiter` of the
thread they wait for.
-/

namespace CodingSample.Uthreads

variable {M C : Type}

/-- The record and the context of a thread. -/
abbrev Slot (M C : Type) : Type := Uthread × Ctx M C

def Core.slot (c : Core M C) (t : Nat) : Slot M C := (c.uthreads t, c.utCtx t)

/-- The thread was created and has not exited. -/
def Uthread.Alive (u : Uthread) : Prop := u.utState ≠ .noState ∧ u.utState ≠ .zombie

instance (u : Uthread) : Decidable u.Alive := inferInstanceAs (Decidable (_ ∧ _))

/-- The contexts of the threads that are alive. -/
def Ctx.Legal : Ctx M C → Prop
  | .user | .yield | .lock _ | .condWait _ _ | .reaper => True
  | .join uid => uid < uthMaxUthreads
  | _ => False

/-- The list a waiting thread is in. -/
def Ctx.queue : Ctx M C → Option (Head M C)
  | .lock m => some (.mtx m)
  | .condWait c _ => some (.cond c)
  | _ => Option.none

/-- The list a thread is in. -/
def Slot.place (sl : Slot M C) : Option (Head M C) :=
  match sl.1.utState with
  | .runnable => some (runqTable sl.1.utPrio)
  | .wait => sl.2.queue
  | .zombie => if sl.1.utDetached then some .reap else none
  | _ => none

/-- What holds of thread `t` by itself; `r` is the reaper. -/
structure Slot.Own (r t : Nat) (sl : Slot M C) : Prop where
  id : sl.1.utState ≠ .noState → sl.1.utId = t
  prio : 0 ≤ sl.1.utPrio ∧ sl.1.utPrio ≤ uthMaxprio
  exited : sl.1.utHasExited = true ↔ sl.1.utState = .zombie
  stack : sl.1.utStack = none
  ctx : sl.1.Alive → sl.2.Legal
  reaper : sl.1.Alive → (sl.2 = .reaper ↔ t = r)
  waiter : ∀ w, sl.1.utWaiter = some w → w < uthMaxUthreads

/-- What holds of a thread `t` and a thread `w` that may wait for it. -/
structure Slot.Pair (t : Nat) (st : Slot M C) (w : Nat) (sw : Slot M C) : Prop where
  waiting : st.1.Alive → st.1.utWaiter = some w → sw.1.utState = .wait ∧ sw.2 = .join t
  joining : sw.1.utState = .runnable ∨ sw.1.utState = .onCpu → sw.2 = .join t →
    st.1.utState = .zombie ∧ st.1.utDetached = false ∧ st.1.utWaiter = some w

structure Abs.Inv (a : Abs M C) : Prop where
  reaper_lt : a.core.reaperThrId < uthMaxUthreads
  reaper_alive : (a.core.uthreads a.core.reaperThrId).Alive
  own : ∀ t, t < uthMaxUthreads → (a.core.slot t).Own a.core.reaperThrId t
  pair : ∀ t w, t < uthMaxUthreads → w < uthMaxUthreads →
    Slot.Pair t (a.core.slot t) w (a.core.slot w)
  queued : ∀ h t, t ∈ a.q h ↔ t < uthMaxUthreads ∧ (a.core.slot t).place = some h

/-- The thread on the processor is the current one, and while the processor looks for another
thread there is none. -/
def Core.OneCpu (c : Core M C) : Prop :=
  (c.switching = false → c.utCurthr < uthMaxUthreads) ∧
    ∀ t, t < uthMaxUthreads → (c.state t = .onCpu ↔ c.switching = false ∧ t = c.utCurthr)

variable {a b : Abs M C} {t w : Nat} {h : Head M C}

namespace Abs.Inv

/-- The invariant has to be proved again for the threads that changed, and for each of them with
every other thread. -/
theorem change (hi : a.Inv) (X : Nat → Prop)
    (hreaper : b.core.reaperThrId = a.core.reaperThrId)
    (hslot : ∀ u, ¬ X u → b.core.slot u = a.core.slot u)
    (hqueue : ∀ u g, ¬ X u → (u ∈ b.q g ↔ u ∈ a.q g))
    (halive : X a.core.reaperThrId → (b.core.uthreads a.core.reaperThrId).Alive)
    (hown : ∀ u, u < uthMaxUthreads → X u → (b.core.slot u).Own a.core.reaperThrId u)
    (hpair : ∀ u v, u < uthMaxUthreads → v < uthMaxUthreads → X u ∨ X v →
      Slot.Pair u (b.core.slot u) v (b.core.slot v))
    (hplace : ∀ u g, X u → (u ∈ b.q g ↔ u < uthMaxUthreads ∧ (b.core.slot u).place = some g)) :
    b.Inv := by
  refine ⟨?_, ?_, ?_, ?_, ?_⟩
  · rw [hreaper]
    exact hi.reaper_lt
  · rw [hreaper]
    by_cases hx : X a.core.reaperThrId
    · exact halive hx
    · have hsame : b.core.uthreads a.core.reaperThrId = a.core.uthreads a.core.reaperThrId :=
        congrArg Prod.fst (hslot _ hx)
      rw [hsame]
      exact hi.reaper_alive
  · intro u hu
    rw [hreaper]
    by_cases hx : X u
    · exact hown u hu hx
    · rw [hslot u hx]
      exact hi.own u hu
  · intro u v hu hv
    by_cases hx : X u ∨ X v
    · exact hpair u v hu hv hx
    · rw [hslot u (not_or.mp hx).1, hslot v (not_or.mp hx).2]
      exact hi.pair u v hu hv
  · intro g u
    by_cases hx : X u
    · exact hplace u g hx
    · rw [hqueue u g hx, hslot u hx]
      exact hi.queued g u

/-- One thread changed. -/
theorem change_one (hi : a.Inv) (ht : t < uthMaxUthreads)
    (hreaper : b.core.reaperThrId = a.core.reaperThrId)
    (hslot : ∀ u, u ≠ t → b.core.slot u = a.core.slot u)
    (hqueue : ∀ u g, u ≠ t → (u ∈ b.q g ↔ u ∈ a.q g))
    (halive : t = a.core.reaperThrId → (b.core.uthreads t).Alive)
    (hown : (b.core.slot t).Own a.core.reaperThrId t)
    (hpair : ∀ u, u < uthMaxUthreads → u ≠ t →
      Slot.Pair t (b.core.slot t) u (a.core.slot u) ∧
        Slot.Pair u (a.core.slot u) t (b.core.slot t))
    (hself : Slot.Pair t (b.core.slot t) t (b.core.slot t))
    (hplace : ∀ g, t ∈ b.q g ↔ (b.core.slot t).place = some g) : b.Inv := by
  refine hi.change (fun u => u = t) hreaper hslot hqueue ?_ ?_ ?_ ?_
  · intro heq
    rw [heq]
    exact halive heq.symm
  · rintro u - rfl
    exact hown
  · intro u v hu hv hx
    by_cases hut : u = t
    · subst hut
      by_cases hvu : v = u
      · rw [hvu]
        exact hself
      · rw [hslot v hvu]
        exact (hpair v hv hvu).1
    · have hvt : v = t := hx.resolve_left hut
      subst hvt
      rw [hslot u hut]
      exact (hpair u hu hut).2
  · rintro u g rfl
    rw [hplace g]
    exact ⟨fun hp => ⟨ht, hp⟩, fun hp => hp.2⟩

theorem mem_lt (hi : a.Inv) (hmem : t ∈ a.q h) : t < uthMaxUthreads :=
  ((hi.queued h t).mp hmem).1

theorem mem_place (hi : a.Inv) (hmem : t ∈ a.q h) : (a.core.slot t).place = some h :=
  ((hi.queued h t).mp hmem).2

theorem free_of_place (hi : a.Inv) (hplace : (a.core.slot t).place = none) : a.Free t := by
  intro g hmem
  rw [hi.mem_place hmem] at hplace
  cases hplace

end Abs.Inv

namespace Slot

variable {sl : Slot M C}

theorem place_of_onCpu (hstate : sl.1.utState = .onCpu) : sl.place = none := by
  simp [place, hstate]

theorem place_of_noState (hstate : sl.1.utState = .noState) : sl.place = none := by
  simp [place, hstate]

theorem place_of_runnable (hstate : sl.1.utState = .runnable) :
    sl.place = some (runqTable sl.1.utPrio) := by
  simp [place, hstate]

theorem place_of_wait (hstate : sl.1.utState = .wait) : sl.place = sl.2.queue := by
  simp [place, hstate]

theorem place_of_zombie (hstate : sl.1.utState = .zombie) :
    sl.place = if sl.1.utDetached then some .reap else none := by
  simp [place, hstate]

theorem queue_ne_runq (k : Ctx M C) (i : Nat) : k.queue ≠ some (.runq i) := by
  cases k <;> simp [Ctx.queue]

theorem queue_ne_reap (k : Ctx M C) : k.queue ≠ some .reap := by
  cases k <;> simp [Ctx.queue]

/-- The threads in a run queue are runnable. -/
theorem runnable_of_place {i : Nat} (hplace : sl.place = some (.runq i)) :
    sl.1.utState = .runnable := by
  cases hstate : sl.1.utState with
  | runnable => rfl
  | wait =>
      rw [place_of_wait hstate] at hplace
      exact absurd hplace (queue_ne_runq _ _)
  | zombie =>
      rw [place_of_zombie hstate] at hplace
      split at hplace <;> cases hplace
  | noState => rw [place_of_noState hstate] at hplace; cases hplace
  | onCpu => rw [place_of_onCpu hstate] at hplace; cases hplace

theorem zombie_of_place (hplace : sl.place = some .reap) :
    sl.1.utState = .zombie ∧ sl.1.utDetached = true := by
  cases hstate : sl.1.utState with
  | runnable => rw [place_of_runnable hstate] at hplace; cases hplace
  | wait =>
      rw [place_of_wait hstate] at hplace
      exact absurd hplace (queue_ne_reap _)
  | zombie =>
      rw [place_of_zombie hstate] at hplace
      split at hplace
      · rename_i hdet
        exact ⟨rfl, hdet⟩
      · cases hplace
  | noState => rw [place_of_noState hstate] at hplace; cases hplace
  | onCpu => rw [place_of_onCpu hstate] at hplace; cases hplace

/-- The threads in the queue of a mutex or a condition variable wait there. -/
theorem wait_of_place (hplace : sl.place = some h) (hrunq : ∀ i, h ≠ .runq i)
    (hreap : h ≠ .reap) : sl.1.utState = .wait ∧ sl.2.queue = some h := by
  cases hstate : sl.1.utState with
  | runnable =>
      rw [place_of_runnable hstate] at hplace
      cases hplace
      exact absurd rfl (hrunq _)
  | wait =>
      rw [place_of_wait hstate] at hplace
      exact ⟨rfl, hplace⟩
  | zombie =>
      rw [place_of_zombie hstate] at hplace
      split at hplace
      · cases hplace
        exact absurd rfl hreap
      · cases hplace
  | noState => rw [place_of_noState hstate] at hplace; cases hplace
  | onCpu => rw [place_of_onCpu hstate] at hplace; cases hplace

end Slot

end CodingSample.Uthreads
