import CodingSample.Uthreads.Preserve

/-!
# Events on the abstract machine

An event has one outcome on the abstract machine. It keeps the invariant, and the library does the
same to the memory.
-/

namespace CodingSample.Uthreads

open Prog

variable {M C : Type} [DecidableEq M] [DecidableEq C] {s : Machine M C} {a b : Abs M C}
  {t w : Nat} {h : Head M C} {e : Event M C}

namespace Abs

variable (a)

/-- The current thread returns to its own code. -/
def returns : Abs M C := a.onCore fun c => c.setCtx c.utCurthr .user

def call : Call M C → Option Ret × Abs M C
  | .yield => (none, a.yield)
  | .setprio id prio => (some ((a.setprio id prio).1, 0), (a.setprio id prio).2)
  | .create prio => (some (a.create .user prio).1, (a.create .user prio).2)
  | .exit status => (none, a.exit status)
  | .join uid => a.join uid
  | .detach uid => (some ((a.detach uid).1, 0), (a.detach uid).2)
  | .lock m => (if (a.lock m).1 then some (0, 0) else none, (a.lock m).2)
  | .trylock m => (some ((a.trylock m).1, 0), (a.trylock m).2)
  | .unlock m => (some (0, 0), a.unlock m)
  | .condWait c m => (none, a.condWait c m)
  | .signal c => (some (0, 0), a.signal c)
  | .broadcast c => (some (0, 0), a.broadcast c)

/-- The current thread goes on. The other contexts are never those of a running thread. -/
def resume : Option Ret × Abs M C :=
  match a.core.utCtx a.core.utCurthr with
  | .yield | .lock _ => (some (0, 0), a.returns)
  | .condWait _ m =>
      if (a.lock m).1 then (some (0, 0), (a.lock m).2.returns) else (none, (a.lock m).2)
  | .join uid =>
      match (a.joinLoop uid).1 with
      | some r => (some r, (a.joinLoop uid).2.returns)
      | none => (none, (a.joinLoop uid).2)
  | .reaper => (none, a.reapAll.block .reaper)
  | _ => (none, a)

def step : Event M C → Option Ret × Abs M C
  | .call c => a.call c
  | .resume => a.resume
  | .switch => (none, a.switch)

end Abs

/-! ### What an event leaves alone -/

namespace Abs

section Fields

omit [DecidableEq M] [DecidableEq C]

@[simp] theorem core_onCore (f : Core M C → Core M C) : (a.onCore f).core = f a.core := rfl

@[simp] theorem q_onCore (f : Core M C → Core M C) : (a.onCore f).q = a.q := rfl

end Fields

@[simp] theorem core_setQ {l : List Nat} : (a.setQ h l).core = a.core := rfl

theorem core_ready : (a.ready t).core = a.core.setState t .runnable := rfl

theorem core_wake :
    (a.wake t).core = if a.core.state t = .wait then a.core.setState t .runnable else a.core := by
  unfold wake
  split <;> rfl

@[simp] theorem utCtx_wake : (a.wake t).core.utCtx = a.core.utCtx := by
  rw [core_wake]
  split <;> rfl

@[simp] theorem mOwner_wake : (a.wake t).core.mOwner = a.core.mOwner := by
  rw [core_wake]
  split <;> rfl

@[simp] theorem switching_wake : (a.wake t).core.switching = a.core.switching := by
  rw [core_wake]
  split <;> rfl

@[simp] theorem reaperThrId_wake : (a.wake t).core.reaperThrId = a.core.reaperThrId := by
  rw [core_wake]
  split <;> rfl

/-- The state of a thread that another one wakes. -/
theorem state_wake {u : Nat} : (a.wake t).core.state u =
    if u = t ∧ a.core.state t = .wait then .runnable else a.core.state u := by
  rw [core_wake]
  by_cases hwait : a.core.state t = .wait
  · rw [if_pos hwait]
    by_cases hu : u = t
    · rw [if_pos ⟨hu, hwait⟩, hu]
      simp [Core.state, Core.setState, Core.setThread]
    · simp [hu, Core.state, Core.setState, Core.setThread]
  · rw [if_neg hwait, if_neg fun hx => hwait hx.2]

/-- Waking does not put a thread on the processor. -/
theorem onCpu_wake {u : Nat} :
    (a.wake t).core.state u = .onCpu ↔ a.core.state u = .onCpu := by
  rw [state_wake]
  split
  · rename_i hu
    rw [hu.1, hu.2]
    decide
  · rfl

end Abs

namespace Abs

attribute [simp] utCurthr_wake

@[simp] theorem utCurthr_unlock {m : M} : (a.unlock m).core.utCurthr = a.core.utCurthr := by
  unfold unlock
  split <;> simp [setOwner]

@[simp] theorem utCtx_unlock {m : M} : (a.unlock m).core.utCtx = a.core.utCtx := by
  unfold unlock
  split <;> simp [setOwner]

@[simp] theorem switching_unlock {m : M} : (a.unlock m).core.switching = a.core.switching := by
  unfold unlock
  split <;> simp [setOwner]

@[simp] theorem reaperThrId_unlock {m : M} :
    (a.unlock m).core.reaperThrId = a.core.reaperThrId := by
  unfold unlock
  split <;> simp [setOwner]

theorem onCpu_unlock {m : M} {u : Nat} :
    (a.unlock m).core.state u = .onCpu ↔ a.core.state u = .onCpu := by
  unfold unlock
  split
  · rfl
  · exact onCpu_wake

theorem q_unlock {m : M} {c : C} : (a.unlock m).q (.cond c) = a.q (.cond c) := by
  unfold unlock
  split
  · rfl
  · unfold wake
    split <;> simp [ready, setQ, setOwner, onCore, runqTable]

@[simp] theorem utCurthr_signal {c : C} : (a.signal c).core.utCurthr = a.core.utCurthr := by
  unfold signal
  split <;> simp

@[simp] theorem utCtx_signal {c : C} : (a.signal c).core.utCtx = a.core.utCtx := by
  unfold signal
  split <;> simp

@[simp] theorem switching_signal {c : C} : (a.signal c).core.switching = a.core.switching := by
  unfold signal
  split <;> simp

@[simp] theorem mOwner_signal {c : C} : (a.signal c).core.mOwner = a.core.mOwner := by
  unfold signal
  split <;> simp

theorem onCpu_signal {c : C} {u : Nat} :
    (a.signal c).core.state u = .onCpu ↔ a.core.state u = .onCpu := by
  unfold signal
  split
  · rfl
  · exact onCpu_wake

/-- What each signal of a broadcast leaves alone, the broadcast leaves alone. -/
theorem iterate_signal {α : Type} (f : Abs M C → α) {c : C}
    (hf : ∀ b : Abs M C, f (b.signal c) = f b) (n : Nat) :
    f ((fun b => b.signal c)^[n] a) = f a := by
  induction n generalizing a with
  | zero => rfl
  | succ n ih =>
      rw [Function.iterate_succ_apply, ih]
      exact hf a

theorem onCpu_broadcast {c : C} {u : Nat} :
    (a.broadcast c).core.state u = .onCpu ↔ a.core.state u = .onCpu :=
  iff_of_eq (iterate_signal (fun b => b.core.state u = .onCpu)
    (fun _ => propext onCpu_signal) _)

@[simp] theorem utCurthr_broadcast {c : C} :
    (a.broadcast c).core.utCurthr = a.core.utCurthr :=
  iterate_signal (fun b => b.core.utCurthr) (fun _ => utCurthr_signal) _

@[simp] theorem utCtx_broadcast {c : C} : (a.broadcast c).core.utCtx = a.core.utCtx :=
  iterate_signal (fun b => b.core.utCtx) (fun _ => utCtx_signal) _

@[simp] theorem switching_broadcast {c : C} :
    (a.broadcast c).core.switching = a.core.switching :=
  iterate_signal (fun b => b.core.switching) (fun _ => switching_signal) _

@[simp] theorem mOwner_broadcast {c : C} : (a.broadcast c).core.mOwner = a.core.mOwner :=
  iterate_signal (fun b => b.core.mOwner) (fun _ => mOwner_signal) _

@[simp] theorem utCurthr_afterExit {detached : Bool} {waiter : Option Nat} :
    (a.afterExit detached waiter).core.utCurthr = a.core.utCurthr := by
  unfold afterExit reapable
  split
  · simp
  · split <;> simp

@[simp] theorem utCtx_afterExit {detached : Bool} {waiter : Option Nat} :
    (a.afterExit detached waiter).core.utCtx = a.core.utCtx := by
  unfold afterExit reapable
  split
  · simp
  · split <;> simp

@[simp] theorem switching_afterExit {detached : Bool} {waiter : Option Nat} :
    (a.afterExit detached waiter).core.switching = a.core.switching := by
  unfold afterExit reapable
  split
  · simp
  · split <;> simp

@[simp] theorem mOwner_afterExit {detached : Bool} {waiter : Option Nat} :
    (a.afterExit detached waiter).core.mOwner = a.core.mOwner := by
  unfold afterExit reapable
  split
  · simp
  · split <;> simp

@[simp] theorem reaperThrId_afterExit {detached : Bool} {waiter : Option Nat} :
    (a.afterExit detached waiter).core.reaperThrId = a.core.reaperThrId := by
  unfold afterExit reapable
  split
  · simp
  · split <;> simp

theorem onCpu_afterExit {detached : Bool} {waiter : Option Nat} {u : Nat} :
    (a.afterExit detached waiter).core.state u = .onCpu ↔ a.core.state u = .onCpu := by
  unfold afterExit reapable
  split
  · exact onCpu_wake
  · split
    · exact onCpu_wake
    · rfl

/-- A thread that does not wait keeps its state. -/
theorem state_wake_of_ne {u : Nat} (hu : a.core.state u ≠ .wait) :
    (a.wake t).core.state u = a.core.state u := by
  rw [state_wake, if_neg]
  rintro ⟨rfl, hwait⟩
  exact hu hwait

theorem state_afterExit_of_ne {detached : Bool} {waiter : Option Nat} {u : Nat}
    (hu : a.core.state u ≠ .wait) :
    (a.afterExit detached waiter).core.state u = a.core.state u := by
  unfold afterExit reapable
  split
  · exact state_wake_of_ne hu
  · split
    · exact state_wake_of_ne hu
    · rfl

end Abs

/-! ### Calls of the current thread -/

/-- The current thread runs its own code. -/
structure Abs.Running (a : Abs M C) : Prop where
  lt : a.core.utCurthr < uthMaxUthreads
  cur : a.core.state a.core.utCurthr = .onCpu
  switching : a.core.switching = false
  ctx : a.core.utCtx a.core.utCurthr = .user

namespace Abs.Inv

omit [DecidableEq M] [DecidableEq C] in
theorem ne_reaper (hi : a.Inv) (hr : a.Running) : a.core.utCurthr ≠ a.core.reaperThrId := by
  intro heq
  have hctx := ((hi.own _ hr.lt).reaper (alive_of_onCpu hr.cur)).mpr heq
  rw [Core.slot, hr.ctx] at hctx
  cases hctx

omit [DecidableEq M] [DecidableEq C] in
theorem free_cur (hi : a.Inv) (hcur : a.core.state a.core.utCurthr = .onCpu) :
    a.Free a.core.utCurthr :=
  hi.free_of_place (Slot.place_of_onCpu hcur)

theorem lock (hi : a.Inv) (hlt : a.core.utCurthr < uthMaxUthreads)
    (hcur : a.core.state a.core.utCurthr = .onCpu)
    (hne : a.core.utCurthr ≠ a.core.reaperThrId) {m : M}
    (hown : a.core.mOwner m ≠ some a.core.utCurthr) : (a.lock m).2.Inv := by
  unfold Abs.lock
  split
  · exact hi.congr rfl (fun _ => rfl) rfl
  · have hfree := hi.free_cur hcur
    refine hi.block hlt hcur rfl rfl (fun _ => rfl) ?_ ?_ trivial (iff_of_false nofun hne)
    · intro u g hu
      exact (mem_push hfree).trans (by rw [if_neg hu])
    · intro g
      refine (mem_push hfree).trans ?_
      rw [if_pos rfl, Ctx.queue, Option.some_inj, eq_comm]

/-- The thread that waited longest leaves the queue and is woken. -/
theorem release (hi : a.Inv) (hnodup : ∀ h, (a.q h).Nodup) {xs : List Nat}
    (hq : a.q h = xs ++ [t]) (hrunq : ∀ i, h ≠ .runq i) (hreap : h ≠ .reap)
    (f : Core M C → Core M C) (hf : (f a.core).slot = a.core.slot)
    (hreaper : (f a.core).reaperThrId = a.core.reaperThrId) :
    (((a.setQ h xs).onCore f).wake t).Inv := by
  have hmem : t ∈ a.q h := by simp [hq]
  obtain ⟨hwait, hctx⟩ := Slot.wait_of_place (hi.mem_place hmem) hrunq hreap
  have hstate : ((a.setQ h xs).onCore f).core.state t = .wait := by
    have hrec : (f a.core).uthreads t = a.core.uthreads t := congrArg (fun g => (g t).1) hf
    rw [Core.state, core_onCore, core_setQ, hrec]
    exact hwait
  unfold Abs.wake
  rw [if_pos hstate]
  refine hi.ready (hi.mem_lt hmem) hwait hreaper (fun u => congrFun hf u) (fun u g => mem_drop hq)
    (free_drop hi (hnodup h) hq) ?_
  intro u _ hjoin
  have hctx : (a.core.utCtx t).queue = some h := hctx
  rw [hjoin] at hctx
  cases hctx

theorem unlock (hi : a.Inv) (hnodup : ∀ h, (a.q h).Nodup) (m : M) : (a.unlock m).Inv := by
  unfold Abs.unlock
  rcases List.eq_nil_or_concat (a.q (.mtx m)) with hq | ⟨xs, t, hq⟩
  · rw [hq]
    exact hi.congr rfl (fun _ => rfl) rfl
  · rw [List.concat_eq_append] at hq
    rw [hq, List.getLast?_concat, List.dropLast_concat]
    exact hi.release hnodup hq nofun nofun
      (fun c => { c with mOwner := Function.update c.mOwner m (some t) }) rfl rfl

theorem signal (hi : a.Inv) (hnodup : ∀ h, (a.q h).Nodup) (c : C) : (a.signal c).Inv := by
  rcases List.eq_nil_or_concat (a.q (.cond c)) with hq | ⟨xs, t, hq⟩
  · rw [Abs.signal_of_nil hq]
    exact hi
  · rw [List.concat_eq_append] at hq
    rw [Abs.signal_of_concat hq]
    exact hi.release hnodup hq nofun nofun id rfl rfl

end Abs.Inv

/-- Waking a thread that is in no list keeps the lists free of repetitions. -/
theorem Abs.nodup_wake (hnodup : ∀ h, (a.q h).Nodup) (hfree : a.Free t) (g : Head M C) :
    ((a.wake t).q g).Nodup := by
  unfold Abs.wake
  split
  · change (Function.update a.q _ _ g).Nodup
    rw [Function.update_apply]
    split
    · exact List.nodup_cons.mpr ⟨hfree _, hnodup _⟩
    · exact hnodup g
  · exact hnodup g

theorem Abs.nodup_signal (hi : a.Inv) (hnodup : ∀ h, (a.q h).Nodup) (c : C) (g : Head M C) :
    ((a.signal c).q g).Nodup := by
  rcases List.eq_nil_or_concat (a.q (.cond c)) with hq | ⟨xs, t, hq⟩
  · rw [Abs.signal_of_nil hq]
    exact hnodup g
  · rw [List.concat_eq_append] at hq
    rw [Abs.signal_of_concat hq]
    refine nodup_wake (fun g => ?_) (free_drop hi (hnodup _) hq) g
    change (Function.update a.q _ _ g).Nodup
    rw [Function.update_apply]
    split
    · have hxs := hnodup (.cond c)
      rw [hq] at hxs
      exact (List.nodup_append.mp hxs).1
    · exact hnodup g

namespace Abs.Inv

theorem broadcast (hi : a.Inv) (hnodup : ∀ h, (a.q h).Nodup) (c : C) : (a.broadcast c).Inv := by
  unfold Abs.broadcast
  generalize (a.q (.cond c)).length = n
  induction n generalizing a with
  | zero => exact hi
  | succ n ih =>
      rw [Function.iterate_succ_apply]
      exact ih (hi.signal hnodup c) (nodup_signal hi hnodup c)

/-- The condition's queue is entered before the mutex is released, which makes no difference to
the lists. -/
theorem condWait_eq (a : Abs M C) (c : C) (m : M) :
    (a.push (.cond c)).unlock m = (a.unlock m).setQ (.cond c)
      (a.core.utCurthr :: a.q (.cond c)) := by
  have hq : (a.push (.cond c)).q (.mtx m) = a.q (.mtx m) := by
    simp [Abs.push, Abs.setQ]
  unfold Abs.unlock
  rw [hq]
  cases (a.q (.mtx m)).getLast? with
  | none => rfl
  | some t =>
      by_cases hwait : a.core.state t = .wait
      · have hwait' : ((a.push (.cond c)).setQ (.mtx m) (a.q (.mtx m)).dropLast
            |>.setOwner m (some t)).core.state t = .wait := hwait
        have hwait'' : (a.setQ (.mtx m) (a.q (.mtx m)).dropLast
            |>.setOwner m (some t)).core.state t = .wait := hwait
        simp only [Abs.wake, if_pos hwait', if_pos hwait'']
        simp [Abs.ready, Abs.push, Abs.setQ, Abs.setOwner, Abs.onCore, runqTable,
          Function.update_comm]
      · have hwait' : ¬ ((a.push (.cond c)).setQ (.mtx m) (a.q (.mtx m)).dropLast
            |>.setOwner m (some t)).core.state t = .wait := hwait
        have hwait'' : ¬ (a.setQ (.mtx m) (a.q (.mtx m)).dropLast
            |>.setOwner m (some t)).core.state t = .wait := hwait
        simp only [Abs.wake, if_neg hwait', if_neg hwait'']
        simp [Abs.push, Abs.setQ, Abs.setOwner, Abs.onCore, Function.update_comm]

theorem condWait (hi : a.Inv) (hnodup : ∀ h, (a.q h).Nodup)
    (hlt : a.core.utCurthr < uthMaxUthreads) (hcur : a.core.state a.core.utCurthr = .onCpu)
    (hne : a.core.utCurthr ≠ a.core.reaperThrId) (c : C) (m : M) : (a.condWait c m).Inv := by
  have hi' := hi.unlock hnodup m
  have hcur' : (a.unlock m).core.state (a.unlock m).core.utCurthr = .onCpu := by
    rw [utCurthr_unlock, onCpu_unlock]
    exact hcur
  have hfree := hi'.free_cur hcur'
  have heq : (a.push (.cond c)).unlock m = (a.unlock m).push (.cond c) := by
    rw [condWait_eq, Abs.push, q_unlock, utCurthr_unlock]
  unfold Abs.condWait
  rw [heq]
  refine hi'.block (by simpa using hlt) hcur' rfl rfl (fun _ => rfl) ?_ ?_ trivial
    (iff_of_false (by rintro ⟨⟩) (by simpa using hne))
  · intro u g hu
    exact (mem_push hfree).trans (by rw [if_neg hu])
  · intro g
    refine (mem_push hfree).trans ?_
    rw [if_pos rfl, Ctx.queue, Option.some_inj, eq_comm]

/-! ### Threads that end -/

omit [DecidableEq M] [DecidableEq C] in
/-- The reaper waits in no list. -/
theorem free_reaper (hi : a.Inv) (hwait : a.core.state a.core.reaperThrId = .wait) :
    a.Free a.core.reaperThrId := by
  have hctx := ((hi.own _ hi.reaper_lt).reaper hi.reaper_alive).mpr rfl
  refine hi.free_of_place ?_
  rw [Slot.place_of_wait hwait, hctx]
  rfl

theorem wake_reaper (hi : a.Inv) : (a.wake a.core.reaperThrId).Inv := by
  have hctx := ((hi.own _ hi.reaper_lt).reaper hi.reaper_alive).mpr rfl
  unfold Abs.wake
  split
  · rename_i hwait
    refine hi.ready hi.reaper_lt hwait rfl (fun _ => rfl) (fun _ _ _ => Iff.rfl)
      (hi.free_reaper hwait) ?_
    intro u _ hjoin
    have hctx : a.core.utCtx a.core.reaperThrId = .reaper := hctx
    rw [hjoin] at hctx
    cases hctx
  · exact hi

omit [DecidableEq M] [DecidableEq C] in
/-- The thread that waits for the current one sleeps in `uthread_join`. -/
theorem waiter_cur (hi : a.Inv) (hr : a.Running) (hw : a.core.cur.utWaiter = some w) :
    w < uthMaxUthreads ∧ a.core.state w = .wait ∧ a.core.utCtx w = .join a.core.utCurthr := by
  have hlt := (hi.own _ hr.lt).waiter w hw
  exact ⟨hlt, (hi.pair _ w hr.lt hlt).waiting (alive_of_onCpu hr.cur) hw⟩

omit [DecidableEq M] [DecidableEq C] in
theorem state_die {status : Int} {u : Nat} (hu : u ≠ a.core.utCurthr) :
    (a.die status).core.uthreads u = a.core.uthreads u :=
  Function.update_of_ne hu _ _

omit [DecidableEq M] [DecidableEq C] in
theorem ne_cur_of_wait (hr : a.Running) {u : Nat} (hwait : a.core.state u = .wait) :
    u ≠ a.core.utCurthr := by
  rintro rfl
  exact UthreadState.noConfusion (hwait.symm.trans hr.cur)

omit [DecidableEq M] [DecidableEq C] in
/-- A thread that nobody detached exits. -/
theorem die_joinable (hi : a.Inv) (hr : a.Running) (status : Int)
    (hdet : a.core.cur.utDetached = false) : (a.die status).Inv := by
  refine hi.die hr.lt hr.cur (hi.ne_reaper hr) a.q (fun _ _ _ => Iff.rfl) ?_
  intro g
  rw [hdet, if_neg Bool.false_ne_true]
  exact iff_of_false (hi.free_cur hr.cur g) nofun

/-- A detached thread exits and goes on the reaper's list. -/
theorem die_detached (hi : a.Inv) (hr : a.Running) (status : Int)
    (hdet : a.core.cur.utDetached = true) :
    ((a.die status).setQ .reap (a.q .reap ++ [a.core.utCurthr])).Inv := by
  refine hi.die hr.lt hr.cur (hi.ne_reaper hr) _ ?_ ?_
  · intro u g hu
    refine mem_setQ.trans ?_
    split
    · rename_i hg
      rw [hg]
      simp [hu]
    · rfl
  · intro g
    rw [hdet, if_pos rfl, Option.some_inj, eq_comm (b := g)]
    refine mem_setQ.trans ?_
    split
    · rename_i hg
      exact iff_of_true (by simp) hg
    · rename_i hg
      exact iff_of_false (hi.free_cur hr.cur g) hg

theorem afterExit (hi : a.Inv) (hr : a.Running) (status : Int) :
    ((a.die status).afterExit a.core.cur.utDetached a.core.cur.utWaiter).Inv := by
  unfold Abs.afterExit
  cases hdet : a.core.cur.utDetached with
  | true =>
      rw [if_pos rfl]
      exact (hi.die_detached hr status hdet).wake_reaper
  | false =>
      rw [if_neg Bool.false_ne_true]
      cases hw : a.core.cur.utWaiter with
      | none => exact hi.die_joinable hr status hdet
      | some w =>
          obtain ⟨hlt, hwait, hjoin⟩ := hi.waiter_cur hr hw
          have hi' := hi.die_joinable hr status hdet
          have hne := ne_cur_of_wait hr hwait
          have hwait' : (a.die status).core.state w = .wait := by
            rw [Core.state, state_die hne]
            exact hwait
          refine hi'.wake hlt (hi'.free_of_place ?_) ?_
          · rw [Slot.place_of_wait hwait']
            change (a.core.utCtx w).queue = none
            rw [hjoin]
            rfl
          · intro u _ hju
            have hju : a.core.utCtx w = .join u := hju
            rw [hjoin] at hju
            cases hju
            simp only [Abs.die, core_onCore, Core.state, Core.setThread, Function.update_self]
            exact ⟨trivial, hdet, hw⟩

theorem exit (hi : a.Inv) (hr : a.Running) (status : Int) : (a.exit status).Inv := by
  have hi' := hi.afterExit hr status
  set b := (a.die status).afterExit a.core.cur.utDetached a.core.cur.utWaiter with hb
  have hcurthr : b.core.utCurthr = a.core.utCurthr := utCurthr_afterExit
  have hdead : (a.die status).core.state a.core.utCurthr = .zombie := by
    simp [Abs.die, Core.state, Core.setThread]
  have hzombie : b.core.state a.core.utCurthr = .zombie := by
    rw [hb, state_afterExit_of_ne, hdead]
    rw [hdead]
    decide
  refine hi'.deadCtx (t := a.core.utCurthr) (k := .exited) hr.lt hzombie rfl ?_ ?_ rfl
  · intro u hu
    refine Core.slot_update_of_ne rfl (Function.update_of_ne ?_ _ _)
    rw [hcurthr]
    exact hu
  · change (b.core.uthreads _, Function.update b.core.utCtx b.core.utCurthr Ctx.exited _) = _
    rw [hcurthr, Function.update_self]

end Abs.Inv

end CodingSample.Uthreads
