import CodingSample.Uthreads.Changes

/-!
# What an event does to the mutexes and the condition variables

Last, the changes of an event as changes of the machine.
-/

namespace CodingSample.Uthreads

variable {M C : Type} [DecidableEq M] [DecidableEq C] {a b : Abs M C} {t u : Nat}
  {h : Head M C} {e : Event M C} {r : Option Ret}

/-- The mutex an event locks: a thread that leaves a condition variable locks its mutex again. -/
def Event.locks (c : Core M C) : Event M C → Option M
  | .call (.lock m) => some m
  | .resume =>
      match c.utCtx c.utCurthr with
      | .condWait _ m => some m
      | _ => none
  | _ => none

/-- The mutex an event unlocks. -/
def Event.unlocks : Event M C → Option M
  | .call (.unlock m) | .call (.condWait _ m) => some m
  | _ => none

/-- The mutex an event takes if it is free. -/
def Event.tries : Event M C → Option M
  | .call (.trylock m) => some m
  | _ => none

/-- What happens to the owner of mutex `m` and to the threads that wait for it. -/
inductive Abs.MtxChange (a : Abs M C) (e : Event M C) (r : Option Ret) (m : M)
    (owner : Option Nat) (l : List Nat) : Prop
  | same (hlocks : e.locks a.core ≠ some m) (hunlocks : e.unlocks ≠ some m)
      (htries : e.tries = some m → r = some (0, 0))
      (howner : owner = a.core.mOwner m) (hlist : l = a.q (.mtx m))
  | taken (he : e.locks a.core = some m ∧ r ≠ none ∨ e.tries = some m ∧ r = some (1, 0))
      (hfree : a.core.mOwner m = none)
      (howner : owner = some a.core.utCurthr) (hlist : l = a.q (.mtx m))
  | blocked (he : e.locks a.core = some m) (hr : r = none) (hused : a.core.mOwner m ≠ none)
      (hother : a.core.mOwner m ≠ some a.core.utCurthr)
      (howner : owner = a.core.mOwner m) (hlist : l = a.core.utCurthr :: a.q (.mtx m))
  | handed (he : e.unlocks = some m) (howner : owner = (a.q (.mtx m)).getLast?)
      (hlist : l = (a.q (.mtx m)).dropLast)

namespace Abs

/-! ### Lists -/

omit [DecidableEq M] [DecidableEq C] in
theorem mtx_ne_runq (m : M) (i : Nat) : (Head.mtx m : Head M C) ≠ .runq i := nofun

omit [DecidableEq M] [DecidableEq C] in
theorem mtx_ne_reap (m : M) : (Head.mtx m : Head M C) ≠ .reap := nofun

omit [DecidableEq M] [DecidableEq C] in
theorem mtx_ne_cond (m : M) (c : C) : (Head.mtx m : Head M C) ≠ .cond c := nofun

theorem q_setQ_of_ne {g : Head M C} {l : List Nat} (hh : h ≠ g) : (a.setQ g l).q h = a.q h :=
  Function.update_of_ne hh _ _

theorem q_reapable (hh : ∀ i, h ≠ .runq i) (hreap : h ≠ .reap) : (a.reapable t).q h = a.q h :=
  (q_wake_of_ne hh).trans (Function.update_of_ne hreap _ _)

theorem q_reapAll (hreap : h ≠ .reap) : a.reapAll.q h = a.q h := Function.update_of_ne hreap _ _

theorem q_setprio {id prio : Int} (hh : ∀ i, h ≠ .runq i) : (a.setprio id prio).2.q h = a.q h := by
  unfold setprio
  split
  · rfl
  split
  · rfl
  split
  · exact (Function.update_of_ne (hh _) _ _).trans (Function.update_of_ne (hh _) _ _)
  · rfl

theorem q_create {prio : Int} (hh : ∀ i, h ≠ .runq i) : (a.create .user prio).2.q h = a.q h := by
  unfold create
  split
  · rfl
  · exact Function.update_of_ne (hh _) _ _

theorem q_exit {status : Int} (hh : ∀ i, h ≠ .runq i) (hreap : h ≠ .reap) :
    (a.exit status).q h = a.q h := by
  change ((a.die status).afterExit _ _).q h = a.q h
  unfold afterExit
  split
  · exact q_reapable hh hreap
  · split
    · exact q_wake_of_ne hh
    · rfl

theorem q_joinLoop (hh : ∀ i, h ≠ .runq i) (hreap : h ≠ .reap) :
    (a.joinLoop t).2.q h = a.q h := by
  unfold joinLoop
  split
  · rfl
  · exact q_reapable hh hreap

theorem q_join {uid : Int} (hh : ∀ i, h ≠ .runq i) (hreap : h ≠ .reap) :
    (a.join uid).2.q h = a.q h := by
  unfold join
  split
  · rfl
  split
  · rfl
  split
  · rfl
  · exact q_joinLoop hh hreap

omit [DecidableEq M] [DecidableEq C] in
theorem q_detach {uid : Int} : (a.detach uid).2.q = a.q := by
  unfold detach
  split
  · rfl
  split <;> rfl

omit [DecidableEq C] in
theorem q_trylock {m : M} : (a.trylock m).2.q = a.q := by
  unfold trylock
  split <;> rfl

theorem q_lock {m : M} : (a.lock m).2.q =
    if a.core.mOwner m = none ∨ a.core.mOwner m = some a.core.utCurthr then a.q
    else Function.update a.q (.mtx m) (a.core.utCurthr :: a.q (.mtx m)) := by
  unfold lock
  split
  · rename_i hfree
    rw [if_pos (Or.inl hfree)]
    rfl
  · rename_i hfree
    split
    · rename_i hown
      rw [if_pos (Or.inr hown)]
      rfl
    · rename_i hown
      rw [if_neg (not_or.mpr ⟨hfree, hown⟩)]
      rfl

theorem q_lock_of_ne {m : M} (hm : h ≠ .mtx m) : (a.lock m).2.q h = a.q h := by
  rw [q_lock]
  split
  · rfl
  · exact Function.update_of_ne hm _ _

theorem q_unlock_of_ne {m : M} (hh : ∀ i, h ≠ .runq i) (hm : h ≠ .mtx m) :
    (a.unlock m).q h = a.q h := by
  unfold unlock
  split
  · rfl
  · exact (q_wake_of_ne hh).trans (Function.update_of_ne hm _ _)

theorem q_unlock_mtx {m : M} : (a.unlock m).q (.mtx m) = (a.q (.mtx m)).dropLast := by
  unfold unlock
  split
  · rename_i hq
    rw [List.getLast?_eq_none_iff.mp hq]
    exact List.getLast?_eq_none_iff.mp hq
  · exact (q_wake_of_ne (h := .mtx m) nofun).trans (Function.update_self _ _ _)

theorem q_signal_of_ne {c : C} (hh : ∀ i, h ≠ .runq i) (hc : h ≠ .cond c) :
    (a.signal c).q h = a.q h := by
  unfold signal
  split
  · rfl
  · exact (q_wake_of_ne hh).trans (Function.update_of_ne hc _ _)

theorem q_broadcast_of_ne {c : C} (hh : ∀ i, h ≠ .runq i) (hc : h ≠ .cond c) :
    (a.broadcast c).q h = a.q h :=
  iterate_signal (fun b => b.q h) (fun _ => q_signal_of_ne hh hc) _

theorem q_broadcast_cond {c : C} : (a.broadcast c).q (.cond c) = [] := by
  unfold broadcast
  generalize hn : (a.q (.cond c)).length = n
  induction n generalizing a with
  | zero => exact List.length_eq_zero_iff.mp hn
  | succ n ih =>
      rw [Function.iterate_succ_apply]
      refine ih ?_
      rw [q_signal_cond, List.length_dropLast, hn]
      rfl

theorem q_condWait_mtx {c : C} {m m' : M} :
    (a.condWait c m).q (.mtx m') = (a.unlock m).q (.mtx m') := by
  change ((a.push (.cond c)).unlock m).q (.mtx m') = _
  rw [Inv.condWait_eq]
  exact q_setQ_of_ne (h := .mtx m') nofun

theorem q_switchScan {l : List Nat} (hh : ∀ i, h ≠ .runq i) : (a.switchScan l).q h = a.q h := by
  induction l with
  | nil => rfl
  | cons i rest ih =>
      unfold switchScan
      split
      · exact ih
      · exact Function.update_of_ne (hh _) _ _

/-! ### Mutexes -/

theorem mOwner_joinLoop : (a.joinLoop t).2.core.mOwner = a.core.mOwner := by
  unfold joinLoop
  split
  · rfl
  · exact mOwner_reapable

theorem mOwner_join {uid : Int} : (a.join uid).2.core.mOwner = a.core.mOwner := by
  unfold join
  split
  · rfl
  split
  · rfl
  split
  · rfl
  · exact mOwner_joinLoop

omit [DecidableEq M] [DecidableEq C] in
theorem mOwner_detach {uid : Int} : (a.detach uid).2.core.mOwner = a.core.mOwner := by
  unfold detach
  split
  · rfl
  split <;> rfl

theorem mOwner_create {prio : Int} : (a.create .user prio).2.core.mOwner = a.core.mOwner := by
  unfold create
  split <;> rfl

theorem mOwner_switchScan {l : List Nat} :
    (a.switchScan l).core.mOwner = a.core.mOwner := by
  induction l with
  | nil => rfl
  | cons i rest ih =>
      unfold switchScan
      split
      · exact ih
      · rfl

theorem mOwner_condWait {c : C} {m : M} :
    (a.condWait c m).core.mOwner = (a.unlock m).core.mOwner := by
  change ((a.push (.cond c)).unlock m).core.mOwner = _
  rw [Inv.condWait_eq]
  rfl

omit [DecidableEq M] [DecidableEq C] in
/-- The events that lock and unlock nothing leave the mutexes alone. -/
theorem MtxChange.of_eq {m : M} (hlocks : e.locks a.core = none) (hunlocks : e.unlocks = none)
    (htries : e.tries = none) (howner : b.core.mOwner = a.core.mOwner)
    (hlist : b.q (.mtx m) = a.q (.mtx m)) :
    a.MtxChange e r m (b.core.mOwner m) (b.q (.mtx m)) :=
  .same (by rw [hlocks]; nofun) (by rw [hunlocks]; nofun) (by rw [htries]; nofun)
    (congrFun howner m) hlist

theorem mtxChange_lock {m₀ : M} (hlocks : e.locks a.core = some m₀) (hunlocks : e.unlocks = none)
    (htries : e.tries = none) (hother : a.core.mOwner m₀ ≠ some a.core.utCurthr)
    (hr : r = none ↔ (a.lock m₀).1 = false) (m : M) :
    a.MtxChange e r m ((a.lock m₀).2.core.mOwner m) ((a.lock m₀).2.q (.mtx m)) := by
  rw [q_lock]
  by_cases hfree : a.core.mOwner m₀ = none
  · have hlock : a.lock m₀ = (true, a.setOwner m₀ (some a.core.utCurthr)) := if_pos hfree
    rw [hlock] at hr ⊢
    rw [if_pos (Or.inl hfree)]
    change a.MtxChange e r m (Function.update a.core.mOwner m₀ _ m) _
    by_cases hm : m = m₀
    · subst hm
      exact .taken (Or.inl ⟨hlocks, by simp [hr]⟩) hfree (Function.update_self _ _ _) rfl
    · refine .same ?_ (by rw [hunlocks]; nofun) (by rw [htries]; nofun)
        (Function.update_of_ne hm _ _) rfl
      rw [hlocks]
      exact fun h => hm (Option.some.inj h).symm
  · have hlock : a.lock m₀ = (false, (a.push (.mtx m₀)).block (.lock m₀)) := by
      rw [Abs.lock, if_neg hfree, if_neg hother]
    rw [hlock] at hr ⊢
    rw [if_neg (not_or.mpr ⟨hfree, hother⟩)]
    by_cases hm : m = m₀
    · subst hm
      exact .blocked hlocks (hr.mpr rfl) hfree hother rfl (Function.update_self _ _ _)
    · refine .same ?_ (by rw [hunlocks]; nofun) (by rw [htries]; nofun) rfl
        (Function.update_of_ne (fun h => hm (Head.mtx.inj h)) _ _)
      rw [hlocks]
      exact fun h => hm (Option.some.inj h).symm

theorem mtxChange_unlock {m₀ : M} (hlocks : e.locks a.core = none) (hunlocks : e.unlocks = some m₀)
    (htries : e.tries = none) (m : M) :
    a.MtxChange e r m ((a.unlock m₀).core.mOwner m) ((a.unlock m₀).q (.mtx m)) := by
  rw [mOwner_unlock]
  by_cases hm : m = m₀
  · subst hm
    exact .handed hunlocks (Function.update_self _ _ _) q_unlock_mtx
  · refine .same (by rw [hlocks]; nofun) ?_ (by rw [htries]; nofun)
      (Function.update_of_ne hm _ _) (q_unlock_of_ne nofun fun h => hm (Head.mtx.inj h))
    rw [hunlocks]
    exact fun h => hm (Option.some.inj h).symm

omit [DecidableEq C] in
theorem mtxChange_trylock (m₀ m : M) :
    a.MtxChange (.call (.trylock m₀)) (some ((a.trylock m₀).1, 0)) m
      ((a.trylock m₀).2.core.mOwner m) ((a.trylock m₀).2.q (.mtx m)) := by
  rw [q_trylock]
  unfold trylock
  by_cases hfree : a.core.mOwner m₀ = none
  · rw [if_pos hfree]
    change a.MtxChange _ _ m (Function.update a.core.mOwner m₀ _ m) _
    by_cases hm : m = m₀
    · subst hm
      exact .taken (Or.inr ⟨rfl, rfl⟩) hfree (Function.update_self _ _ _) rfl
    · refine .same nofun nofun ?_ (Function.update_of_ne hm _ _) rfl
      exact fun h => absurd (Option.some.inj h).symm hm
  · rw [if_neg hfree]
    exact .same nofun nofun (fun _ => rfl) rfl rfl

theorem mtxChange_call {c : Call M C} (hp : Allowed a.core (.call c)) (m : M) :
    a.MtxChange (.call c) (a.call c).1 m ((a.call c).2.core.mOwner m)
      ((a.call c).2.q (.mtx m)) := by
  cases c with
  | yield => exact .of_eq rfl rfl rfl rfl (q_ready_of_ne (t := a.core.utCurthr) (mtx_ne_runq m))
  | setprio id prio => exact .of_eq rfl rfl rfl utCtx_setprio.2 (q_setprio (mtx_ne_runq m))
  | create prio => exact .of_eq rfl rfl rfl mOwner_create (q_create (mtx_ne_runq m))
  | exit status => exact .of_eq rfl rfl rfl mOwner_afterExit (q_exit (mtx_ne_runq m) (mtx_ne_reap m))
  | join uid => exact .of_eq rfl rfl rfl mOwner_join (q_join (mtx_ne_runq m) (mtx_ne_reap m))
  | detach uid => exact .of_eq rfl rfl rfl mOwner_detach (congrFun q_detach _)
  | lock m₀ =>
      refine mtxChange_lock rfl rfl rfl hp ?_ m
      simp only [Abs.call]
      cases (a.lock m₀).1 <;> simp
  | trylock m₀ => exact mtxChange_trylock m₀ m
  | unlock m₀ => exact mtxChange_unlock rfl rfl rfl m
  | condWait c m₀ =>
      simp only [Abs.call]
      rw [mOwner_condWait, q_condWait_mtx]
      exact mtxChange_unlock rfl rfl rfl m
  | signal c => exact .of_eq rfl rfl rfl mOwner_signal (q_signal_of_ne (mtx_ne_runq m) (mtx_ne_cond m c))
  | broadcast c =>
      exact .of_eq rfl rfl rfl mOwner_broadcast (q_broadcast_of_ne (mtx_ne_runq m) (mtx_ne_cond m c))

theorem mtxChange_resume (hg : a.Good) (he : Event.Enabled a.core .resume) (m : M) :
    a.MtxChange .resume a.resume.1 m (a.resume.2.core.mOwner m) (a.resume.2.q (.mtx m)) := by
  obtain ⟨hsw, hctx⟩ := he
  obtain ⟨hlt, hcur⟩ := hg.cur hsw
  have hlegal : (a.core.utCtx a.core.utCurthr).Legal :=
    (hg.inv.own _ hlt).ctx (Inv.alive_of_onCpu hcur)
  have hnone (hk : ∀ c m, a.core.utCtx a.core.utCurthr ≠ .condWait c m) :
      Event.locks a.core .resume = none := by
    simp only [Event.locks]
  unfold Abs.resume
  cases hk : a.core.utCtx a.core.utCurthr with
  | yield => exact .of_eq (hnone (by rw [hk]; nofun)) rfl rfl rfl rfl
  | lock m₀ => exact .of_eq (hnone (by rw [hk]; nofun)) rfl rfl rfl rfl
  | condWait c m₀ =>
      have hlocks : Event.locks a.core .resume = some m₀ := by
        simp only [Event.locks, hk]
      have hother := hg.relock _ c m₀ hk
      simp only []
      split
      · rename_i hlock
        exact mtxChange_lock hlocks rfl rfl hother (by simp [hlock]) m
      · rename_i hlock
        exact mtxChange_lock hlocks rfl rfl hother (by simpa using hlock) m
  | join uid =>
      obtain ⟨hloop, -⟩ := hg.joins hsw hk
      simp only [hloop]
      exact .of_eq (b := ((a.setDetached uid).reapable uid).returns)
        (hnone (by rw [hk]; nofun)) rfl rfl mOwner_reapable (q_reapable nofun nofun)
  | reaper =>
      refine .of_eq (b := a.reapAll.block .reaper) (hnone (by rw [hk]; nofun)) rfl rfl rfl ?_
      exact q_reapAll (h := .mtx m) nofun
  | user => exact absurd hk hctx
  | none => rw [hk] at hlegal; exact hlegal.elim
  | reaperStart => rw [hk] at hlegal; exact hlegal.elim
  | exited => rw [hk] at hlegal; exact hlegal.elim
  | firstThr mainThr => rw [hk] at hlegal; exact hlegal.elim
  | block k => rw [hk] at hlegal; exact hlegal.elim

/-- What an event does to a mutex. -/
theorem mtxChange (hg : a.Good) (he : e.Enabled a.core) (hp : Allowed a.core e) (m : M) :
    a.MtxChange e (a.step e).1 m ((a.step e).2.core.mOwner m) ((a.step e).2.q (.mtx m)) := by
  cases e with
  | call c => exact mtxChange_call hp m
  | resume => exact mtxChange_resume hg he m
  | switch =>
      exact .of_eq rfl rfl rfl mOwner_switchScan (q_switchScan (h := .mtx m) nofun)

/-! ### Condition variables -/

/-- What an event of thread `t` does to the queue `l` of condition variable `c`. -/
def condStep (t : Nat) (e : Event M C) (c : C) (l : List Nat) : List Nat :=
  match e with
  | .call (.condWait c' _) => if c' = c then t :: l else l
  | .call (.signal c') => if c' = c then l.dropLast else l
  | .call (.broadcast c') => if c' = c then [] else l
  | _ => l

theorem q_resume_cond (hg : a.Good) (he : Event.Enabled a.core .resume) (c : C) :
    a.resume.2.q (.cond c) = a.q (.cond c) := by
  obtain ⟨hsw, -⟩ := he
  unfold Abs.resume
  cases hk : a.core.utCtx a.core.utCurthr with
  | condWait c' m =>
      simp only []
      split
      · exact q_lock_of_ne (h := .cond c) nofun
      · exact q_lock_of_ne (h := .cond c) nofun
  | join uid =>
      obtain ⟨hloop, -⟩ := hg.joins hsw hk
      simp only [hloop]
      exact q_reapable (h := .cond c) nofun nofun
  | reaper => exact q_reapAll (h := .cond c) nofun
  | _ => rfl

/-- What an event does to the queue of a condition variable. -/
theorem q_step_cond (hg : a.Good) (he : e.Enabled a.core) (c : C) :
    (a.step e).2.q (.cond c) = condStep a.core.utCurthr e c (a.q (.cond c)) := by
  cases e with
  | call call =>
      cases call with
      | yield => exact q_ready_of_ne (t := a.core.utCurthr) (h := .cond c) nofun
      | setprio id prio => exact q_setprio (h := .cond c) nofun
      | create prio => exact q_create (h := .cond c) nofun
      | exit status => exact q_exit (h := .cond c) nofun nofun
      | join uid => exact q_join (h := .cond c) nofun nofun
      | detach uid => exact congrFun q_detach _
      | lock m => exact q_lock_of_ne (h := .cond c) nofun
      | trylock m => exact congrFun q_trylock _
      | unlock m => exact q_unlock
      | condWait c' m =>
          change ((a.push (.cond c')).unlock m).q (.cond c) = if c' = c then _ else _
          rw [q_unlock]
          split
          · rename_i hc
            subst hc
            exact Function.update_self _ _ _
          · rename_i hc
            exact q_setQ_of_ne fun h => hc (Head.cond.inj h).symm
      | signal c' =>
          change (a.signal c').q (.cond c) = if c' = c then _ else _
          split
          · rename_i hc
            subst hc
            exact q_signal_cond
          · rename_i hc
            exact q_signal_of_ne nofun fun h => hc (Head.cond.inj h).symm
      | broadcast c' =>
          change (a.broadcast c').q (.cond c) = if c' = c then _ else _
          split
          · rename_i hc
            subst hc
            exact q_broadcast_cond
          · rename_i hc
            exact q_broadcast_of_ne nofun fun h => hc (Head.cond.inj h).symm
  | resume => exact q_resume_cond hg he c
  | switch => exact q_switchScan (h := .cond c) nofun

end Abs

/-! ### On the machine -/

namespace Machine.Sound

variable {s s' : Machine M C}

theorem recChange (hs : s.Sound) (he : e.Enabled s.core) (hp : Allowed s.core e)
    (hrun : e.run s = .ok (r, s')) (u : Nat) :
    s.abs.RecChange e r u (s'.core.uthreads u) := by
  obtain ⟨hr, habs, -⟩ := hs.step he hp hrun
  have hcore : s'.core = (s.abs.step e).2.core := congrArg Abs.core habs
  rw [hr, hcore]
  exact Abs.recChange hs.good he u

theorem ctxChange (hs : s.Sound) (he : e.Enabled s.core) (hp : Allowed s.core e)
    (hrun : e.run s = .ok (r, s')) (u : Nat) :
    s.abs.CtxChange e r u (s'.core.utCtx u) := by
  obtain ⟨hr, habs, -⟩ := hs.step he hp hrun
  have hcore : s'.core = (s.abs.step e).2.core := congrArg Abs.core habs
  rw [hr, hcore]
  exact Abs.ctxChange hs.good he u

theorem stateChange (hs : s.Sound) (he : e.Enabled s.core) (hp : Allowed s.core e)
    (hrun : e.run s = .ok (r, s')) (u : Nat) :
    s.abs.StateChange e r u (s'.core.state u) := by
  obtain ⟨hr, habs, -⟩ := hs.step he hp hrun
  have hcore : s'.core = (s.abs.step e).2.core := congrArg Abs.core habs
  rw [hr, hcore]
  exact Abs.stateChange hs.good he u

theorem mtxChange (hs : s.Sound) (he : e.Enabled s.core) (hp : Allowed s.core e)
    (hrun : e.run s = .ok (r, s')) (m : M) :
    s.abs.MtxChange e r m (s'.core.mOwner m) (s'.list (.mtx m)) := by
  obtain ⟨hr, habs, -⟩ := hs.step he hp hrun
  have hcore : s'.core = (s.abs.step e).2.core := congrArg Abs.core habs
  have hq : s'.list = (s.abs.step e).2.q := congrArg Abs.q habs
  rw [hr, hcore, hq]
  exact Abs.mtxChange hs.good he hp m

theorem list_cond (hs : s.Sound) (he : e.Enabled s.core) (hp : Allowed s.core e)
    (hrun : e.run s = .ok (r, s')) (c : C) :
    s'.list (.cond c) = Abs.condStep s.core.utCurthr e c (s.list (.cond c)) := by
  obtain ⟨-, habs, -⟩ := hs.step he hp hrun
  have hq : s'.list = (s.abs.step e).2.q := congrArg Abs.q habs
  rw [hq]
  exact Abs.q_step_cond hs.good he c

end Machine.Sound

end CodingSample.Uthreads
