import CodingSample.Uthreads.Runs

/-!
# What an event can change

For each thread: its record, where it goes on, and the lists of the mutexes, the condition
variables and the reaper. The properties of whole runs are read off these cases.
-/

namespace CodingSample.Uthreads

variable {M C : Type} [DecidableEq M] [DecidableEq C] {s s' : Machine M C} {a b : Abs M C}
  {t u : Nat} {h : Head M C} {e : Event M C} {r : Option Ret}

/-! ### Records -/

/-- The record changes in its priority, its error number and its place in the scheduler only. -/
structure Uthread.Steady (r r' : Uthread) : Prop where
  exited : r'.utHasExited = r.utHasExited
  exit : r'.utExit = r.utExit
  detached : r'.utDetached = r.utDetached
  waiter : r'.utWaiter = r.utWaiter
  noState : r'.utState = .noState ↔ r.utState = .noState
  zombie : r'.utState = .zombie ↔ r.utState = .zombie

theorem Uthread.Steady.refl (r : Uthread) : r.Steady r :=
  ⟨rfl, rfl, rfl, rfl, Iff.rfl, Iff.rfl⟩

theorem Uthread.Steady.trans {r r' r'' : Uthread} (h : r.Steady r') (h' : r'.Steady r'') :
    r.Steady r'' :=
  ⟨h'.exited.trans h.exited, h'.exit.trans h.exit, h'.detached.trans h.detached,
    h'.waiter.trans h.waiter, h'.noState.trans h.noState, h'.zombie.trans h.zombie⟩

/-- The event creates, ends, joins, detaches or wipes thread `u`. -/
def Abs.Hits (a : Abs M C) (e : Event M C) (r : Option Ret) (u : Nat) : Prop :=
  match e with
  | .call (.create _) => r = some (0, (u : Int))
  | .call (.exit _) => u = a.core.utCurthr
  | .call (.join uid) => u = uid.toNat ∧ ∀ x, r = some x → x.1 = 0
  | .call (.detach uid) => u = uid.toNat ∧ r = some (0, 0)
  | .resume => a.core.utCtx a.core.utCurthr = .join u ∨
      a.core.utCtx a.core.utCurthr = .reaper ∧ u ∈ a.q .reap
  | _ => False

/-- What happens to the record of thread `u`. -/
inductive Abs.RecChange (a : Abs M C) (e : Event M C) (r : Option Ret) (u : Nat) (r' : Uthread) :
    Prop
  | steady (hnot : ¬ a.Hits e r u) (h : (a.core.uthreads u).Steady r')
  | created (prio : Int) (he : e = .call (.create prio)) (hr : r = some (0, (u : Int)))
      (hlt : u < uthMaxUthreads) (hbefore : a.core.state u = .noState)
      (hafter : r' = { Uthread.zero with utId := u, utState := .runnable, utPrio := prio })
  | exited (status : Int) (he : e = .call (.exit status)) (hu : u = a.core.utCurthr)
      (hafter : Uthread.Steady { a.core.cur with
        utState := .zombie, utExit := status, utHasExited := true } r')
  | joining (uid : Int) (he : e = .call (.join uid)) (hr : r = none) (hu : u = uid.toNat)
      (hjoin : Joins a.core uid) (hexit : (a.core.uthreads u).utHasExited = false)
      (hafter : Uthread.Steady { a.core.uthreads u with
        utWaiter := some a.core.utCurthr } r')
  | joined (uid : Int) (he : e = .call (.join uid))
      (hr : r = some (0, (a.core.uthreads u).utExit)) (hu : u = uid.toNat)
      (hjoin : Joins a.core uid) (hexit : (a.core.uthreads u).utHasExited = true)
      (hafter : Uthread.Steady { a.core.uthreads u with
        utWaiter := some a.core.utCurthr, utDetached := true } r')
  | detached (uid : Int) (he : e = .call (.detach uid)) (hr : r = some (0, 0))
      (hu : u = uid.toNat) (hthread : ¬ NoThread a.core uid)
      (hcur : a.core.cur.utWaiter = none) (hdet : (a.core.uthreads u).utDetached = false)
      (hafter : Uthread.Steady { a.core.uthreads u with utDetached := true } r')
  | rejoined (he : e = .resume) (hctx : a.core.utCtx a.core.utCurthr = .join u)
      (hr : r = some (0, (a.core.uthreads u).utExit))
      (hafter : Uthread.Steady { a.core.uthreads u with utDetached := true } r')
  | reaped (he : e = .resume) (hctx : a.core.utCtx a.core.utCurthr = .reaper)
      (hmem : u ∈ a.q .reap) (hafter : r' = .zero)

namespace Abs

omit [DecidableEq M] [DecidableEq C] in
/-- A living thread changes its place in the scheduler. -/
theorem steady_setState (halive : (a.core.uthreads t).Alive) {x : UthreadState}
    (hx : x ≠ .noState ∧ x ≠ .zombie) (u : Nat) :
    (a.core.uthreads u).Steady ((a.core.setState t x).uthreads u) := by
  by_cases hu : u = t
  · subst hu
    simp only [Core.setState, Core.setThread, Function.update_self]
    exact ⟨rfl, rfl, rfl, rfl, iff_of_false hx.1 halive.1, iff_of_false hx.2 halive.2⟩
  · simp only [Core.setState, Core.setThread, Function.update_of_ne hu]
    exact .refl _

theorem steady_wake (u : Nat) : (a.core.uthreads u).Steady ((a.wake t).core.uthreads u) := by
  rw [core_wake]
  split
  · rename_i hwait
    exact steady_setState (Inv.alive_of_wait hwait) (x := .runnable) ⟨nofun, nofun⟩ u
  · exact .refl _

omit [DecidableEq M] [DecidableEq C] in
theorem steady_setThread {r' : Uthread} (hr' : (a.core.uthreads t).Steady r') (u : Nat) :
    (a.core.uthreads u).Steady ((a.core.setThread t r').uthreads u) := by
  by_cases hu : u = t
  · subst hu
    simp only [Core.setThread, Function.update_self]
    exact hr'
  · simp only [Core.setThread, Function.update_of_ne hu]
    exact .refl _

theorem steady_setprio {id prio : Int} (u : Nat) :
    (a.core.uthreads u).Steady ((a.setprio id prio).2.core.uthreads u) := by
  have hrefl : ∀ r : Uthread, r.Steady { r with utPrio := prio } := fun _ =>
    ⟨rfl, rfl, rfl, rfl, Iff.rfl, Iff.rfl⟩
  have herr : ∀ (r : Uthread) errno, r.Steady { r with utErrno := errno } := fun _ _ =>
    ⟨rfl, rfl, rfl, rfl, Iff.rfl, Iff.rfl⟩
  unfold setprio
  split
  · exact steady_setThread (herr _ _) u
  split
  · exact steady_setThread (herr _ _) u
  split
  · exact steady_setThread (hrefl _) u
  · exact steady_setThread (hrefl _) u

theorem steady_afterExit (detached : Bool) (waiter : Option Nat) (u : Nat) :
    (a.core.uthreads u).Steady ((a.afterExit detached waiter).core.uthreads u) := by
  unfold afterExit
  split
  · exact steady_wake (a := a.setQ .reap _) u
  · split
    · exact steady_wake u
    · exact .refl _

theorem steady_unlock {m : M} (u : Nat) :
    (a.core.uthreads u).Steady ((a.unlock m).core.uthreads u) := by
  unfold unlock
  split
  · exact .refl _
  · exact steady_wake (a := (a.setQ _ _).setOwner m _) u

theorem steady_signal {c : C} (u : Nat) :
    (a.core.uthreads u).Steady ((a.signal c).core.uthreads u) := by
  unfold signal
  split
  · exact .refl _
  · exact steady_wake (a := a.setQ _ _) u

theorem steady_broadcast {c : C} (u : Nat) :
    (a.core.uthreads u).Steady ((a.broadcast c).core.uthreads u) := by
  unfold broadcast
  generalize (a.q (.cond c)).length = n
  induction n generalizing a with
  | zero => exact .refl _
  | succ n ih =>
      rw [Function.iterate_succ_apply]
      exact (steady_signal u).trans ih

omit [DecidableEq M] [DecidableEq C] in
theorem steady_block {k : Ctx M C} (hcur : a.core.state a.core.utCurthr = .onCpu) (u : Nat) :
    (a.core.uthreads u).Steady ((a.block k).core.uthreads u) :=
  steady_setState (Inv.alive_of_onCpu hcur) (x := .wait) ⟨nofun, nofun⟩ u

theorem steady_lock {m : M} (hcur : a.core.state a.core.utCurthr = .onCpu) (u : Nat) :
    (a.core.uthreads u).Steady ((a.lock m).2.core.uthreads u) := by
  unfold lock
  split
  · exact .refl _
  split
  · exact steady_block hcur u
  · exact steady_block (a := a.push (.mtx m)) hcur u

theorem recChange_join (hr : a.Running) (uid : Int) (u : Nat) :
    a.RecChange (.call (.join uid)) (a.join uid).1 u ((a.join uid).2.core.uthreads u) := by
  have herr : ∀ (r : Uthread) errno, r.Steady { r with utErrno := errno } := fun _ _ =>
    ⟨rfl, rfl, rfl, rfl, Iff.rfl, Iff.rfl⟩
  have hfail {errno : Int} (hne : errno ≠ 0) :
      ¬ a.Hits (.call (.join uid)) (some (errno, 0)) u :=
    fun h => hne (h.2 _ rfl)
  unfold join
  split
  · exact .steady (hfail (by simp)) (steady_setThread (herr _ _) u)
  rename_i hthread
  split
  · exact .steady (hfail (by simp)) (steady_setThread (herr _ _) u)
  split
  · exact .steady (hfail (by simp)) (steady_setThread (herr _ _) u)
  rename_i hguard
  have hjoin : Joins a.core uid :=
    ⟨hthread, Classical.not_not.mp (not_or.mp hguard).1, by simpa using (not_or.mp hguard).2⟩
  have hexit : ((a.setWaiter uid.toNat).core.uthreads uid.toNat).utHasExited =
      (a.core.uthreads uid.toNat).utHasExited := by
    simp [Abs.setWaiter, Core.setThread]
  have hother (hu : u ≠ uid.toNat) :
      (a.setWaiter uid.toNat).core.uthreads u = a.core.uthreads u :=
    Function.update_of_ne hu _ _
  have hself : (a.setWaiter uid.toNat).core.uthreads uid.toNat =
      { a.core.uthreads uid.toNat with utWaiter := some a.core.utCurthr } :=
    Function.update_self _ _ _
  unfold joinLoop
  rw [hexit]
  split
  · rename_i hrunning
    have hblock := steady_block (a := a.setWaiter uid.toNat) (k := .join uid.toNat)
      ((SameCpu.setWaiter.onCpu _).mpr hr.cur) u
    by_cases hu : u = uid.toNat
    · subst hu
      rw [hself] at hblock
      exact .joining uid rfl rfl rfl hjoin hrunning hblock
    · rw [hother hu] at hblock
      exact .steady (fun h => hu h.1) hblock
  · rename_i hexited
    have hwake := steady_wake (a := ((a.setWaiter uid.toNat).setDetached uid.toNat).setQ .reap
      ((a.setWaiter uid.toNat).q .reap ++ [uid.toNat])) (t := a.core.reaperThrId) u
    by_cases hu : u = uid.toNat
    · subst hu
      refine .joined uid rfl ?_ rfl hjoin (by simpa using hexited) ?_
      · rw [hself]
      · have hrec : ((a.setWaiter uid.toNat).setDetached uid.toNat).core.uthreads uid.toNat =
            { a.core.uthreads uid.toNat with
              utWaiter := some a.core.utCurthr, utDetached := true } := by
          refine (Function.update_self _ _ _).trans ?_
          rw [hself]
        rw [core_setQ, hrec] at hwake
        exact hwake
    · have hrec : ((a.setWaiter uid.toNat).setDetached uid.toNat).core.uthreads u =
          a.core.uthreads u := (Function.update_of_ne hu _ _).trans (hother hu)
      rw [core_setQ, hrec] at hwake
      exact .steady (fun h => hu h.1) hwake

omit [DecidableEq M] [DecidableEq C] in
theorem recChange_detach (uid : Int) (u : Nat) :
    a.RecChange (.call (.detach uid)) (some ((a.detach uid).1, 0)) u
      ((a.detach uid).2.core.uthreads u) := by
  have herr : ∀ (r : Uthread) errno, r.Steady { r with utErrno := errno } := fun _ _ =>
    ⟨rfl, rfl, rfl, rfl, Iff.rfl, Iff.rfl⟩
  have hfail {errno : Int} (hne : errno ≠ 0) :
      ¬ a.Hits (.call (.detach uid)) (some (errno, 0)) u :=
    fun h => hne (congrArg Prod.fst (Option.some.inj h.2))
  unfold detach
  split
  · exact .steady (hfail (by simp)) (steady_setThread (herr _ _) u)
  rename_i hthread
  split
  · exact .steady (hfail (by simp)) (steady_setThread (herr _ _) u)
  rename_i hguard
  by_cases hu : u = uid.toNat
  · subst hu
    refine .detached uid rfl rfl rfl hthread (Classical.not_not.mp (not_or.mp hguard).2)
      (by simpa using (not_or.mp hguard).1) ?_
    have hrec : (a.setDetached uid.toNat).core.uthreads uid.toNat =
        { a.core.uthreads uid.toNat with utDetached := true } := Function.update_self _ _ _
    rw [hrec]
    exact .refl _
  · have hrec : (a.setDetached uid.toNat).core.uthreads u = a.core.uthreads u :=
      Function.update_of_ne hu _ _
    rw [hrec]
    exact .steady (fun h => hu h.1) (.refl _)

theorem recChange_create (prio : Int) (u : Nat) :
    a.RecChange (.call (.create prio)) (some (a.create .user prio).1) u
      ((a.create .user prio).2.core.uthreads u) := by
  unfold create
  split
  · exact .steady nofun (.refl _)
  · rename_i t hfound
    obtain ⟨hlt, hstate⟩ := uthreadAllocFrom_spec rfl hfound
    by_cases hu : u = t
    · subst hu
      exact .created prio rfl rfl hlt hstate (Function.update_self _ _ _)
    · have hrec : (a.spawn t .user prio).core.uthreads u = a.core.uthreads u :=
        Function.update_of_ne hu _ _
      simp only [hrec]
      refine .steady ?_ (.refl _)
      intro h
      exact hu (Int.ofNat.inj (congrArg Prod.snd (Option.some.inj h))).symm

theorem recChange_call (hg : a.Good) {c : Call M C} (he : Event.Enabled a.core (.call c))
    (u : Nat) : a.RecChange (.call c) (a.call c).1 u ((a.call c).2.core.uthreads u) := by
  have hr := hg.running he
  have hi := hg.inv
  cases c with
  | yield =>
      refine .steady nofun ?_
      exact (steady_setState (Inv.alive_of_onCpu hr.cur) (x := .runnable) ⟨nofun, nofun⟩ u)
  | setprio id prio => exact .steady nofun (steady_setprio u)
  | create prio => exact recChange_create prio u
  | exit status =>
      have hafter := steady_afterExit (a := a.die status) a.core.cur.utDetached
        a.core.cur.utWaiter u
      by_cases hu : u = a.core.utCurthr
      · subst hu
        refine .exited status rfl rfl ?_
        have hrec : (a.die status).core.uthreads a.core.utCurthr = { a.core.cur with
            utState := .zombie, utExit := status, utHasExited := true } :=
          Function.update_self _ _ _
        rw [hrec] at hafter
        exact hafter
      · rw [Inv.state_die hu] at hafter
        exact .steady hu hafter
  | join uid => exact recChange_join hr uid u
  | detach uid => exact recChange_detach uid u
  | lock m => exact .steady nofun (steady_lock hr.cur u)
  | trylock m =>
      refine .steady nofun ?_
      simp only [Abs.call, Abs.trylock]
      split <;> exact .refl _
  | unlock m => exact .steady nofun (steady_unlock u)
  | condWait c m =>
      refine .steady nofun ?_
      have hcur : ((a.push (.cond c)).unlock m).core.state
          ((a.push (.cond c)).unlock m).core.utCurthr = .onCpu := by
        rw [utCurthr_unlock, onCpu_unlock]
        exact hr.cur
      exact (steady_unlock (a := a.push (.cond c)) u).trans (steady_block hcur u)
  | signal c => exact .steady nofun (steady_signal u)
  | broadcast c => exact .steady nofun (steady_broadcast u)

theorem recChange_resume (hg : a.Good) (he : Event.Enabled a.core .resume) (u : Nat) :
    a.RecChange .resume a.resume.1 u (a.resume.2.core.uthreads u) := by
  obtain ⟨hsw, hctx⟩ := he
  obtain ⟨hlt, hcur⟩ := hg.cur hsw
  have hlegal : (a.core.utCtx a.core.utCurthr).Legal :=
    (hg.inv.own _ hlt).ctx (Inv.alive_of_onCpu hcur)
  have hnot {r : Option Ret} (hjoin : a.core.utCtx a.core.utCurthr ≠ .join u)
      (hreaper : a.core.utCtx a.core.utCurthr ≠ .reaper) : ¬ a.Hits .resume r u :=
    not_or.mpr ⟨hjoin, fun h => hreaper h.1⟩
  unfold Abs.resume
  cases hk : a.core.utCtx a.core.utCurthr with
  | yield => exact .steady (hnot (by rw [hk]; rintro ⟨⟩) (by rw [hk]; rintro ⟨⟩)) (.refl _)
  | lock m => exact .steady (hnot (by rw [hk]; rintro ⟨⟩) (by rw [hk]; rintro ⟨⟩)) (.refl _)
  | condWait c m =>
      simp only []
      split
      · exact .steady (hnot (by rw [hk]; rintro ⟨⟩) (by rw [hk]; rintro ⟨⟩)) (steady_lock hcur u)
      · exact .steady (hnot (by rw [hk]; rintro ⟨⟩) (by rw [hk]; rintro ⟨⟩)) (steady_lock hcur u)
  | join uid =>
      obtain ⟨hloop, -⟩ := hg.joins hsw hk
      simp only [hloop]
      have hwake := steady_wake (a := (a.setDetached uid).setQ .reap (a.q .reap ++ [uid]))
        (t := a.core.reaperThrId) u
      by_cases hu : u = uid
      · subst hu
        refine .rejoined rfl hk rfl ?_
        have hrec : (a.setDetached u).core.uthreads u =
            { a.core.uthreads u with utDetached := true } := Function.update_self _ _ _
        rw [core_setQ, hrec] at hwake
        exact hwake
      · have hrec : (a.setDetached uid).core.uthreads u = a.core.uthreads u :=
          Function.update_of_ne hu _ _
        rw [core_setQ, hrec] at hwake
        refine .steady (hnot ?_ (by rw [hk]; rintro ⟨⟩)) hwake
        rw [hk]
        exact fun h => hu (Ctx.join.inj h).symm
  | reaper =>
      by_cases hu : u ∈ a.q .reap
      · refine .reaped rfl hk hu ?_
        have hne : u ≠ a.core.utCurthr := by
          rintro rfl
          have hzombie := (Slot.zombie_of_place (hg.inv.mem_place hu)).1
          exact UthreadState.noConfusion (hzombie.symm.trans hcur)
        refine (Function.update_of_ne hne _ _).trans ?_
        simp [reapAll, Core.destroy, hu]
      · have hrec : a.reapAll.core.uthreads u = a.core.uthreads u := by
          simp [reapAll, Core.destroy, hu]
        have hblock := steady_block (a := a.reapAll) (k := .reaper)
          (((SameCpu.reapAll hg.inv).onCpu _).mpr hcur) u
        rw [hrec] at hblock
        refine .steady (not_or.mpr ⟨?_, fun h => hu h.2⟩) hblock
        rw [hk]
        rintro ⟨⟩
  | user => exact absurd hk hctx
  | none => rw [hk] at hlegal; exact hlegal.elim
  | reaperStart => rw [hk] at hlegal; exact hlegal.elim
  | exited => rw [hk] at hlegal; exact hlegal.elim
  | firstThr mainThr => rw [hk] at hlegal; exact hlegal.elim
  | block k => rw [hk] at hlegal; exact hlegal.elim

theorem recChange_switch (hg : a.Good) (u : Nat) :
    a.RecChange .switch none u (a.switch.core.uthreads u) := by
  refine .steady nofun ?_
  unfold switch
  generalize [7, 6, 5, 4, 3, 2, 1, 0] = l
  induction l with
  | nil => exact .refl _
  | cons i rest ih =>
      unfold switchScan
      split
      · exact ih
      · rename_i t hlast
        have hrun := Slot.runnable_of_place (hg.inv.mem_place (List.mem_of_getLast? hlast))
        exact steady_setState (Inv.alive_of_runnable hrun) (x := .onCpu) ⟨nofun, nofun⟩ u

/-- What an event does to the record of a thread. -/
theorem recChange (hg : a.Good) (he : e.Enabled a.core) (u : Nat) :
    a.RecChange e (a.step e).1 u ((a.step e).2.core.uthreads u) := by
  cases e with
  | call c => exact recChange_call hg he u
  | resume => exact recChange_resume hg he u
  | switch => exact recChange_switch hg u

end Abs

/-! ### Where a thread goes on -/

/-- Where the current thread goes on after an event that does not return. -/
def Event.leaves (c : Core M C) : Event M C → Ctx M C
  | .call .yield => .yield
  | .call (.exit _) => .exited
  | .call (.join uid) => .join uid.toNat
  | .call (.lock m) => .lock m
  | .call (.condWait cond m) => .condWait cond m
  | .resume =>
      match c.utCtx c.utCurthr with
      | .condWait _ m => .lock m
      | k => k
  | _ => .user

/-- What happens to the context of thread `u`. -/
inductive Abs.CtxChange (a : Abs M C) (e : Event M C) (r : Option Ret) (u : Nat) (k : Ctx M C) :
    Prop
  | same (hu : e ≠ .switch → u ≠ a.core.utCurthr) (h : k = a.core.utCtx u)
  | returned (hu : u = a.core.utCurthr) (hr : r ≠ none) (h : k = .user)
  | left (hu : u = a.core.utCurthr) (hr : r = none) (he : e ≠ .switch)
      (h : k = e.leaves a.core)
  | created (hbefore : a.core.state u = .noState) (h : k = .user)
  | reaped (hmem : u ∈ a.q .reap) (h : k = .none)

namespace Abs

omit [DecidableEq M] [DecidableEq C] in
theorem utCtx_block {k : Ctx M C} :
    (a.block k).core.utCtx = Function.update a.core.utCtx a.core.utCurthr k := rfl

omit [DecidableEq M] [DecidableEq C] in
/-- An event that leaves the contexts alone returns. -/
theorem CtxChange.of_eq {k : Ctx M C} (hcur : a.core.utCtx a.core.utCurthr = .user) (hr : r ≠ none)
    (hk : k = a.core.utCtx u) : a.CtxChange e r u k := by
  by_cases hu : u = a.core.utCurthr
  · exact .returned hu hr (by rw [hk, hu, hcur])
  · exact .same (fun _ => hu) hk

omit [DecidableEq M] [DecidableEq C] in
/-- The current thread gives up the processor. -/
theorem CtxChange.of_update {k : Ctx M C} (hr : r = none) (he : e ≠ .switch)
    (hk : k = Function.update a.core.utCtx a.core.utCurthr (e.leaves a.core) u) :
    a.CtxChange e r u k := by
  by_cases hu : u = a.core.utCurthr
  · subst hu
    exact .left rfl hr he (by rw [hk, Function.update_self])
  · exact .same (fun _ => hu) (by rw [hk, Function.update_of_ne hu])

omit [DecidableEq M] [DecidableEq C] in
/-- The current thread returns. -/
theorem CtxChange.of_returns {k : Ctx M C} (hr : r ≠ none)
    (hk : k = Function.update a.core.utCtx a.core.utCurthr .user u) : a.CtxChange e r u k := by
  by_cases hu : u = a.core.utCurthr
  · subst hu
    exact .returned rfl hr (by rw [hk, Function.update_self])
  · exact .same (fun _ => hu) (by rw [hk, Function.update_of_ne hu])

theorem ctxChange_join (hcur : a.core.utCtx a.core.utCurthr = .user) (uid : Int) (u : Nat) :
    a.CtxChange (.call (.join uid)) (a.join uid).1 u ((a.join uid).2.core.utCtx u) := by
  unfold join
  split
  · exact .of_eq hcur nofun rfl
  split
  · exact .of_eq hcur nofun rfl
  split
  · exact .of_eq hcur nofun rfl
  unfold joinLoop
  split
  · exact .of_update rfl nofun rfl
  · exact .of_eq hcur nofun (congrFun utCtx_reapable u)

theorem ctxChange_lock {m : M} (he : e ≠ .switch) (hleaves : e.leaves a.core = .lock m)
    (hlock : (a.lock m).1 = false) :
    a.CtxChange e none u ((a.lock m).2.core.utCtx u) := by
  refine .of_update rfl he ?_
  rw [hleaves]
  unfold lock at hlock ⊢
  split
  · rename_i hfree
    rw [if_pos hfree] at hlock
    cases hlock
  split <;> rfl

theorem utCtx_lock {m : M} (hlock : (a.lock m).1 = true) :
    (a.lock m).2.core.utCtx = a.core.utCtx := by
  unfold lock at hlock ⊢
  split
  · rfl
  · rename_i hfree
    rw [if_neg hfree] at hlock
    split at hlock <;> cases hlock

theorem ctxChange_call {c : Call M C} (hcur : a.core.utCtx a.core.utCurthr = .user) (u : Nat) :
    a.CtxChange (.call c) (a.call c).1 u ((a.call c).2.core.utCtx u) := by
  cases c with
  | yield => exact .of_update rfl nofun rfl
  | setprio id prio => exact .of_eq hcur nofun (congrFun utCtx_setprio.1 u)
  | create prio =>
      simp only [Abs.call, Abs.create]
      split
      · exact .of_eq hcur nofun rfl
      · rename_i t hfound
        obtain ⟨-, hstate⟩ := uthreadAllocFrom_spec rfl hfound
        by_cases hu : u = t
        · subst hu
          exact .created hstate (Function.update_self _ _ _)
        · exact .of_eq hcur nofun (Function.update_of_ne hu _ _)
  | exit status =>
      refine .of_update rfl nofun ?_
      change Function.update (Core.utCtx _) (Core.utCurthr _) _ u = _
      rw [utCtx_afterExit, utCurthr_afterExit]
      rfl
  | join uid => exact ctxChange_join hcur uid u
  | detach uid =>
      refine .of_eq hcur nofun ?_
      simp only [Abs.call, Abs.detach]
      split
      · rfl
      split <;> rfl
  | lock m =>
      simp only [Abs.call]
      cases hlock : (a.lock m).1 with
      | true => exact .of_eq hcur nofun (congrFun (utCtx_lock hlock) u)
      | false => exact ctxChange_lock nofun rfl hlock
  | trylock m =>
      refine .of_eq hcur nofun ?_
      simp only [Abs.call, Abs.trylock]
      split <;> rfl
  | unlock m => exact .of_eq hcur nofun (congrFun utCtx_unlock u)
  | condWait c m =>
      refine .of_update rfl nofun ?_
      simp only [Abs.call, Abs.condWait]
      rw [utCtx_block, utCtx_unlock, utCurthr_unlock]
      rfl
  | signal c => exact .of_eq hcur nofun (congrFun utCtx_signal u)
  | broadcast c => exact .of_eq hcur nofun (congrFun utCtx_broadcast u)

theorem ctxChange_resume (hg : a.Good) (he : Event.Enabled a.core .resume) (u : Nat) :
    a.CtxChange .resume a.resume.1 u (a.resume.2.core.utCtx u) := by
  obtain ⟨hsw, hctx⟩ := he
  obtain ⟨hlt, hcur⟩ := hg.cur hsw
  have hlegal : (a.core.utCtx a.core.utCurthr).Legal :=
    (hg.inv.own _ hlt).ctx (Inv.alive_of_onCpu hcur)
  unfold Abs.resume
  cases hk : a.core.utCtx a.core.utCurthr with
  | yield => exact .of_returns nofun rfl
  | lock m => exact .of_returns nofun rfl
  | condWait c m =>
      simp only []
      cases hlock : (a.lock m).1 with
      | true =>
          refine .of_returns nofun ?_
          change Function.update (Core.utCtx _) (Core.utCurthr _) _ u = _
          rw [utCtx_lock hlock]
          unfold lock at hlock ⊢
          split
          · rfl
          · split <;> rfl
      | false =>
          refine ctxChange_lock nofun ?_ hlock
          simp only [Event.leaves, hk]
  | join uid =>
      obtain ⟨hloop, -⟩ := hg.joins hsw hk
      simp only [hloop]
      refine .of_returns nofun ?_
      change Function.update (Core.utCtx _) (Core.utCurthr _) _ u = _
      rw [utCtx_reapable, SameCpu.reapable.curthr]
      rfl
  | reaper =>
      by_cases hu : u ∈ a.q .reap
      · refine .reaped hu ?_
        have hne : u ≠ a.core.utCurthr := by
          rintro rfl
          have hzombie := (Slot.zombie_of_place (hg.inv.mem_place hu)).1
          exact UthreadState.noConfusion (hzombie.symm.trans hcur)
        rw [utCtx_block]
        refine (Function.update_of_ne hne _ _).trans ?_
        exact if_pos hu
      · refine .of_update rfl nofun ?_
        have hleaves : Event.leaves a.core .resume = .reaper := by
          simp only [Event.leaves, hk]
        rw [hleaves, utCtx_block]
        change Function.update a.reapAll.core.utCtx a.core.utCurthr .reaper u = _
        rw [Function.update_apply, Function.update_apply]
        split
        · rfl
        · exact if_neg hu
  | user => exact absurd hk hctx
  | none => rw [hk] at hlegal; exact hlegal.elim
  | reaperStart => rw [hk] at hlegal; exact hlegal.elim
  | exited => rw [hk] at hlegal; exact hlegal.elim
  | firstThr mainThr => rw [hk] at hlegal; exact hlegal.elim
  | block k => rw [hk] at hlegal; exact hlegal.elim

theorem utCtx_switchScan (l : List Nat) : (a.switchScan l).core.utCtx = a.core.utCtx := by
  induction l with
  | nil => rfl
  | cons i rest ih =>
      unfold switchScan
      split
      · exact ih
      · rfl

/-- What an event does to the context of a thread. -/
theorem ctxChange (hg : a.Good) (he : e.Enabled a.core) (u : Nat) :
    a.CtxChange e (a.step e).1 u ((a.step e).2.core.utCtx u) := by
  cases e with
  | call c => exact ctxChange_call he.2 u
  | resume => exact ctxChange_resume hg he u
  | switch => exact .same (fun h => absurd rfl h) (congrFun (utCtx_switchScan _) u)

end Abs

/-! ### Scheduling states -/

/-- Why a waiting thread becomes runnable. -/
inductive Abs.Wakes (a : Abs M C) (e : Event M C) (u : Nat) : Prop
  | unlock (m : M) (he : e = .call (.unlock m) ∨ ∃ c, e = .call (.condWait c m))
      (hlast : (a.q (.mtx m)).getLast? = some u)
  | signal (c : C) (he : e = .call (.signal c)) (hlast : (a.q (.cond c)).getLast? = some u)
  | broadcast (c : C) (he : e = .call (.broadcast c)) (hmem : u ∈ a.q (.cond c))
  | exit (status : Int) (he : e = .call (.exit status)) (hwaiter : a.core.cur.utWaiter = some u)
  | reaper (hu : u = a.core.reaperThrId)

/-- What happens to the scheduling state of thread `u`. -/
inductive Abs.StateChange (a : Abs M C) (e : Event M C) (r : Option Ret) (u : Nat)
    (x : UthreadState) : Prop
  | same (hu : e ≠ .switch → r = none → u ≠ a.core.utCurthr) (h : x = a.core.state u)
  | woken (hbefore : a.core.state u = .wait) (why : a.Wakes e u) (h : x = .runnable)
  | scheduled (he : e = .switch) (hbefore : a.core.state u = .runnable) (h : x = .onCpu)
  | left (hu : u = a.core.utCurthr) (hr : r = none) (he : e ≠ .switch)
      (h : x = .wait ∨ e = .call .yield ∧ x = .runnable ∨
        (∃ status, e = .call (.exit status)) ∧ x = .zombie)
  | created (hbefore : a.core.state u = .noState) (h : x = .runnable)
  | reaped (hmem : u ∈ a.q .reap) (h : x = .noState)

namespace Abs

omit [DecidableEq M] [DecidableEq C] in
theorem StateChange.of_eq {x : UthreadState} (hr : r ≠ none) (hx : x = a.core.state u) :
    a.StateChange e r u x :=
  .same (fun _ h => absurd h hr) hx

theorem StateChange.of_wake (hr : r ≠ none) (hstate : b.core.state = a.core.state)
    (why : a.Wakes e t) : a.StateChange e r u ((b.wake t).core.state u) := by
  rw [state_wake, hstate]
  split
  · rename_i hu
    obtain ⟨rfl, hwait⟩ := hu
    exact .woken hwait why rfl
  · exact .of_eq hr rfl

omit [DecidableEq M] [DecidableEq C] in
/-- The current thread waits. -/
theorem StateChange.of_block {k : Ctx M C} (hcurthr : b.core.utCurthr = a.core.utCurthr)
    (hstate : b.core.state u = a.core.state u) (hr : r = none) (he : e ≠ .switch) :
    a.StateChange e r u ((b.block k).core.state u) := by
  rw [state_block, hcurthr, hstate]
  split
  · rename_i hu
    exact .left hu hr he (Or.inl rfl)
  · rename_i hu
    exact .same (fun _ _ => hu) rfl

theorem state_reapable {u : Nat} : (a.reapable t).core.state u =
    if u = a.core.reaperThrId ∧ a.core.state a.core.reaperThrId = .wait then .runnable
    else a.core.state u :=
  state_wake

theorem StateChange.of_reapable (hr : r ≠ none)
    (hreaper : b.core.reaperThrId = a.core.reaperThrId)
    (hstate : ∀ v, b.core.state v = a.core.state v) :
    a.StateChange e r u ((b.reapable t).core.state u) := by
  rw [state_reapable, hreaper, hstate, hstate]
  split
  · rename_i hu
    obtain ⟨rfl, hwait⟩ := hu
    exact .woken hwait (.reaper rfl) rfl
  · exact .of_eq hr rfl

theorem state_setprio {id prio : Int} {u : Nat} :
    (a.setprio id prio).2.core.state u = a.core.state u := by
  unfold setprio
  split
  · exact state_setThread rfl
  split
  · exact state_setThread rfl
  split
  · have hstate : ({ a.core.uthreads id.toNat with utPrio := prio } : Uthread).utState =
        a.core.state id.toNat := rfl
    exact state_setThread hstate
  · exact state_setThread rfl

theorem state_unlock {m : M} {u : Nat} : (a.unlock m).core.state u =
    if (a.q (.mtx m)).getLast? = some u ∧ a.core.state u = .wait then .runnable
    else a.core.state u := by
  unfold unlock
  cases (a.q (.mtx m)).getLast? with
  | none => exact (if_neg (by simp)).symm
  | some t =>
      refine state_wake.trans ?_
      change (if u = t ∧ a.core.state t = .wait then _ else a.core.state u) = _
      refine if_congr ?_ rfl rfl
      rw [Option.some_inj, eq_comm (a := t)]
      exact and_congr_right fun h => by rw [h]

theorem state_signal {c : C} {u : Nat} : (a.signal c).core.state u =
    if (a.q (.cond c)).getLast? = some u ∧ a.core.state u = .wait then .runnable
    else a.core.state u := by
  unfold signal
  cases (a.q (.cond c)).getLast? with
  | none => exact (if_neg (by simp)).symm
  | some t =>
      refine state_wake.trans ?_
      change (if u = t ∧ a.core.state t = .wait then _ else a.core.state u) = _
      refine if_congr ?_ rfl rfl
      rw [Option.some_inj, eq_comm (a := t)]
      exact and_congr_right fun h => by rw [h]

theorem q_ready_of_ne (hh : ∀ i, h ≠ .runq i) : (a.ready t).q h = a.q h :=
  Function.update_of_ne (hh _) _ _

/-- Waking changes run queues only. -/
theorem q_wake_of_ne (hh : ∀ i, h ≠ .runq i) : (a.wake t).q h = a.q h := by
  unfold wake
  split
  · exact q_ready_of_ne hh
  · rfl

theorem q_signal_cond {c : C} : (a.signal c).q (.cond c) = (a.q (.cond c)).dropLast := by
  rcases List.eq_nil_or_concat (a.q (.cond c)) with hq | ⟨xs, t, hq⟩
  · rw [signal_of_nil hq, hq]
    rfl
  · rw [List.concat_eq_append] at hq
    rw [signal_of_concat hq, q_wake_of_ne (h := .cond c) nofun, hq, List.dropLast_concat]
    exact Function.update_self _ _ _

/-- A broadcast makes threads of the condition's queue runnable. -/
theorem state_broadcast (c : C) (u : Nat) :
    (a.broadcast c).core.state u = a.core.state u ∨
      u ∈ a.q (.cond c) ∧ a.core.state u = .wait ∧
        (a.broadcast c).core.state u = .runnable := by
  unfold broadcast
  generalize (a.q (.cond c)).length = n
  induction n generalizing a with
  | zero => exact Or.inl rfl
  | succ n ih =>
      rw [Function.iterate_succ_apply]
      have hsub : ∀ v ∈ (a.signal c).q (.cond c), v ∈ a.q (.cond c) := by
        rw [q_signal_cond]
        exact fun v hv => (List.dropLast_sublist _).subset hv
      have hfirst := state_signal (a := a) (c := c) (u := u)
      split at hfirst
      · rename_i hlast
        refine Or.inr ⟨List.mem_of_getLast? hlast.1, hlast.2, ?_⟩
        rcases ih (a := a.signal c) with hrest | ⟨-, hwait, -⟩
        · exact hrest.trans hfirst
        · exact UthreadState.noConfusion (hfirst.symm.trans hwait)
      · rcases ih (a := a.signal c) with hrest | ⟨hmem, hwait, hrun⟩
        · exact Or.inl (hrest.trans hfirst)
        · exact Or.inr ⟨hsub u hmem, hfirst.symm.trans hwait, hrun⟩

theorem stateChange_exit (status : Int) (u : Nat) :
    a.StateChange (.call (.exit status)) none u ((a.exit status).core.state u) := by
  change a.StateChange _ _ u (((a.die status).afterExit _ _).core.state u)
  have hdead : (a.die status).core.state a.core.utCurthr = .zombie := by
    rw [state_die, if_pos rfl]
  by_cases hu : u = a.core.utCurthr
  · subst hu
    refine .left rfl rfl nofun (Or.inr (Or.inr ⟨⟨status, rfl⟩, ?_⟩))
    rw [state_afterExit_of_ne, hdead]
    rw [hdead]
    decide
  · have hsame : (a.die status).core.state u = a.core.state u := by
      rw [state_die, if_neg hu]
    have hwoken {t : Nat} (hut : u = t ∧ (a.die status).core.state t = .wait) :
        a.core.state u = .wait := by
      rw [← hsame, hut.1, hut.2]
    unfold afterExit
    split
    · rw [state_reapable, hsame]
      split
      · rename_i hreaper
        exact .woken (hwoken hreaper) (.reaper hreaper.1) rfl
      · exact .same (fun _ _ => hu) rfl
    · split
      · rename_i w hw
        rw [state_wake, hsame]
        split
        · rename_i hwait
          exact .woken (hwoken hwait) (.exit status rfl (hwait.1 ▸ hw)) rfl
        · exact .same (fun _ _ => hu) rfl
      · exact .same (fun _ _ => hu) hsame

theorem stateChange_join (uid : Int) (u : Nat) :
    a.StateChange (.call (.join uid)) (a.join uid).1 u ((a.join uid).2.core.state u) := by
  unfold join
  split
  · exact .of_eq nofun (state_setThread rfl)
  split
  · exact .of_eq nofun (state_setThread rfl)
  split
  · exact .of_eq nofun (state_setThread rfl)
  unfold joinLoop
  split
  · exact .of_block rfl state_setWaiter rfl nofun
  · exact .of_reapable nofun rfl fun v => state_setDetached.trans state_setWaiter

theorem stateChange_lock {m : M} {r : Option Ret} (he : e ≠ .switch)
    (hr : r = none ↔ (a.lock m).1 = false) :
    a.StateChange e r u ((a.lock m).2.core.state u) := by
  unfold lock at hr ⊢
  split
  · rename_i hfree
    rw [if_pos hfree] at hr
    exact .of_eq (by simp [hr]) rfl
  · rename_i hfree
    rw [if_neg hfree] at hr
    split
    · rename_i hown
      rw [if_pos hown] at hr
      exact .of_block rfl rfl (hr.mpr rfl) he
    · rename_i hown
      rw [if_neg hown] at hr
      exact .of_block rfl rfl (hr.mpr rfl) he

theorem stateChange_condWait (c : C) (m : M) (u : Nat) :
    a.StateChange (.call (.condWait c m)) none u ((a.condWait c m).core.state u) := by
  have hq : (a.push (.cond c)).q (.mtx m) = a.q (.mtx m) := by
    simp [Abs.push, Abs.setQ]
  unfold condWait
  rw [state_block, utCurthr_unlock]
  split
  · rename_i hu
    exact .left hu rfl (by rintro ⟨⟩) (Or.inl rfl)
  · rename_i hu
    rw [state_unlock, hq]
    split
    · rename_i hlast
      exact .woken hlast.2 (.unlock m (Or.inr ⟨c, rfl⟩) hlast.1) rfl
    · exact .same (fun _ _ => hu) rfl

theorem stateChange_call (c : Call M C) (u : Nat) :
    a.StateChange (.call c) (a.call c).1 u ((a.call c).2.core.state u) := by
  cases c with
  | yield =>
      simp only [Abs.call]
      rw [state_yield]
      split
      · rename_i hu
        exact .left hu rfl nofun (Or.inr (Or.inl ⟨rfl, rfl⟩))
      · rename_i hu
        exact .same (fun _ _ => hu) rfl
  | setprio id prio => exact .of_eq nofun state_setprio
  | create prio =>
      simp only [Abs.call, Abs.create]
      split
      · exact .of_eq nofun rfl
      · rename_i t hfound
        obtain ⟨-, hstate⟩ := uthreadAllocFrom_spec rfl hfound
        by_cases hu : u = t
        · subst hu
          refine .created hstate ?_
          exact (congrArg Uthread.utState (Function.update_self _ _ _)).trans rfl
        · exact .of_eq nofun (congrArg Uthread.utState (Function.update_of_ne hu _ _))
  | exit status => exact stateChange_exit status u
  | join uid => exact stateChange_join uid u
  | detach uid =>
      refine .of_eq nofun ?_
      simp only [Abs.call, Abs.detach]
      split
      · exact state_setThread rfl
      split
      · exact state_setThread rfl
      · exact state_setDetached
  | lock m =>
      refine stateChange_lock nofun ?_
      simp only [Abs.call]
      cases (a.lock m).1 <;> simp
  | trylock m =>
      refine .of_eq nofun ?_
      simp only [Abs.call, Abs.trylock]
      split <;> rfl
  | unlock m =>
      simp only [Abs.call]
      rw [state_unlock]
      split
      · rename_i hlast
        exact .woken hlast.2 (.unlock m (Or.inl rfl) hlast.1) rfl
      · exact .of_eq nofun rfl
  | condWait c m => exact stateChange_condWait c m u
  | signal c =>
      simp only [Abs.call]
      rw [state_signal]
      split
      · rename_i hlast
        exact .woken hlast.2 (.signal c rfl hlast.1) rfl
      · exact .of_eq nofun rfl
  | broadcast c =>
      rcases state_broadcast (a := a) c u with hsame | ⟨hmem, hwait, hrun⟩
      · exact .of_eq nofun hsame
      · exact .woken hwait (.broadcast c rfl hmem) hrun

theorem stateChange_resume (hg : a.Good) (he : Event.Enabled a.core .resume) (u : Nat) :
    a.StateChange .resume a.resume.1 u (a.resume.2.core.state u) := by
  obtain ⟨hsw, hctx⟩ := he
  obtain ⟨hlt, hcur⟩ := hg.cur hsw
  have hlegal : (a.core.utCtx a.core.utCurthr).Legal :=
    (hg.inv.own _ hlt).ctx (Inv.alive_of_onCpu hcur)
  unfold Abs.resume
  cases hk : a.core.utCtx a.core.utCurthr with
  | yield => exact .of_eq nofun rfl
  | lock m => exact .of_eq nofun rfl
  | condWait c m =>
      simp only []
      split
      · rename_i hlock
        exact stateChange_lock (m := m) nofun (by simp [hlock])
      · rename_i hlock
        exact stateChange_lock nofun (by simpa using hlock)
  | join uid =>
      obtain ⟨hloop, -⟩ := hg.joins hsw hk
      simp only [hloop]
      exact .of_reapable (b := a.setDetached uid) nofun rfl fun v => state_setDetached
  | reaper =>
      by_cases hu : u ∈ a.q .reap
      · refine .reaped hu ?_
        have hne : u ≠ a.core.utCurthr := by
          rintro rfl
          have hzombie := (Slot.zombie_of_place (hg.inv.mem_place hu)).1
          exact UthreadState.noConfusion (hzombie.symm.trans hcur)
        refine state_block.trans ((if_neg hne).trans ?_)
        exact congrArg Uthread.utState (if_pos hu)
      · exact .of_block (b := a.reapAll) rfl (congrArg Uthread.utState (if_neg hu)) rfl nofun
  | user => exact absurd hk hctx
  | none => rw [hk] at hlegal; exact hlegal.elim
  | reaperStart => rw [hk] at hlegal; exact hlegal.elim
  | exited => rw [hk] at hlegal; exact hlegal.elim
  | firstThr mainThr => rw [hk] at hlegal; exact hlegal.elim
  | block k => rw [hk] at hlegal; exact hlegal.elim

theorem stateChange_switch (hg : a.Good) (u : Nat) :
    a.StateChange .switch none u (a.switch.core.state u) := by
  have hsame : a.StateChange .switch none u (a.core.state u) :=
    .same (fun h => absurd rfl h) rfl
  unfold switch
  generalize [7, 6, 5, 4, 3, 2, 1, 0] = l
  induction l with
  | nil => exact hsame
  | cons i rest ih =>
      unfold switchScan
      split
      · exact ih
      · rename_i t hlast
        have hrun := Slot.runnable_of_place (hg.inv.mem_place (List.mem_of_getLast? hlast))
        by_cases hu : u = t
        · subst hu
          refine .scheduled rfl hrun ?_
          exact (congrArg Uthread.utState (Function.update_self _ _ _)).trans rfl
        · refine .same (fun h => absurd rfl h) ?_
          exact congrArg Uthread.utState (Function.update_of_ne hu _ _)

/-- What an event does to the scheduling state of a thread. -/
theorem stateChange (hg : a.Good) (he : e.Enabled a.core) (u : Nat) :
    a.StateChange e (a.step e).1 u ((a.step e).2.core.state u) := by
  cases e with
  | call c => exact stateChange_call c u
  | resume => exact stateChange_resume hg he u
  | switch => exact stateChange_switch hg u

end Abs

end CodingSample.Uthreads
