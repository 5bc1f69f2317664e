import CodingSample.Uthreads.Events

/-!
# Every event keeps the invariant
-/

namespace CodingSample.Uthreads

variable {M C : Type} [DecidableEq M] [DecidableEq C] {a b : Abs M C} {t w : Nat}
  {h : Head M C} {e : Event M C}

namespace Abs

omit [DecidableEq M] [DecidableEq C] in
theorem lt_of_thread {c : Core M C} {uid : Int} (hthread : ¬ NoThread c uid) :
    uid.toNat < uthMaxUthreads ∧ c.state uid.toNat ≠ .noState := by
  unfold NoThread at hthread
  rw [not_or, not_or] at hthread
  obtain ⟨hneg, hmax, hstate⟩ := hthread
  refine ⟨?_, hstate⟩
  simp only [uthMaxUthreads] at hmax ⊢
  omega

theorem returns_reapable :
    ((a.setDetached t).reapable t).returns = (a.returns.setDetached t).reapable t := by
  unfold reapable wake
  by_cases hwait : ((a.setDetached t).setQ .reap ((a.setDetached t).q .reap ++ [t])).core.state
      (a.setDetached t).core.reaperThrId = .wait
  · rw [if_pos hwait]
    exact (if_pos (by exact hwait)).symm
  · rw [if_neg hwait]
    exact (if_neg (by exact hwait)).symm

namespace Inv

/-- The list at the end of a join, before the reaper is woken. -/
theorem finishJoin (hi : a.Inv) (r' : Uthread) (ht : t < uthMaxUthreads)
    (hzombie : a.core.state t = .zombie) (hdet : (a.core.uthreads t).utDetached = false)
    (hr' : r' = { a.core.uthreads t with utDetached := true, utWaiter := r'.utWaiter })
    (hwaiter : ∀ v, r'.utWaiter = some v → v < uthMaxUthreads)
    (hnone : ∀ u, u < uthMaxUthreads → a.core.state u = .runnable ∨ a.core.state u = .onCpu →
      a.core.utCtx u ≠ .join t) :
    ((a.onCore fun c => c.setThread t r').setQ .reap (a.q .reap ++ [t])).Inv := by
  have hown := hi.own t ht
  exact hi.finish ht hzombie hdet (by rw [hr']) (by rw [hr'])
    (by rw [hr']; exact hown.exited.mpr hzombie) (by rw [hr']; exact hown.stack)
    (by rw [hr']; exact hzombie) (by rw [hr']) hwaiter hnone

/-- A join of a thread that has exited. -/
theorem finishJoinList (hi : a.Inv) (hr : a.Running) {uid : Int} (hjoin : Joins a.core uid)
    (hzombie : a.core.state uid.toNat = .zombie)
    (hw : (a.core.uthreads uid.toNat).utWaiter = none) :
    (((a.setWaiter uid.toNat).setDetached uid.toNat).setQ .reap
      (a.q .reap ++ [uid.toNat])).Inv := by
  obtain ⟨ht, -⟩ := lt_of_thread hjoin.1
  have hfin := hi.finishJoin { a.core.uthreads uid.toNat with
    utDetached := true, utWaiter := some a.core.utCurthr } ht hzombie hjoin.2.2 rfl
    (fun v hv => Option.some.inj hv ▸ hr.lt) ?_
  · have heq : (a.setWaiter uid.toNat).setDetached uid.toNat =
        a.onCore fun c => c.setThread uid.toNat { a.core.uthreads uid.toNat with
          utDetached := true, utWaiter := some a.core.utCurthr } := by
      simp [Abs.setWaiter, Abs.setDetached, Abs.onCore, Core.setThread]
    rw [heq]
    exact hfin
  · intro u hu hrun hju
    have hwu := ((hi.pair _ u ht hu).joining hrun hju).2.2
    exact absurd (hw.symm.trans hwu) (by rintro ⟨⟩)

omit [DecidableEq M] [DecidableEq C] in
theorem zombie_of_exited (hi : a.Inv) (ht : t < uthMaxUthreads)
    (hexit : (a.core.uthreads t).utHasExited = true) : a.core.state t = .zombie :=
  (hi.own t ht).exited.mp hexit

omit [DecidableEq M] [DecidableEq C] in
theorem alive_of_running (hi : a.Inv) (ht : t < uthMaxUthreads)
    (hstate : a.core.state t ≠ .noState)
    (hexit : (a.core.uthreads t).utHasExited = false) : (a.core.uthreads t).Alive := by
  refine ⟨hstate, fun hzombie => ?_⟩
  have hexited := (hi.own t ht).exited.mpr hzombie
  exact Bool.noConfusion (hexit.symm.trans hexited)

omit [DecidableEq M] [DecidableEq C] in
theorem joinBlock (hi : a.Inv) (hr : a.Running) (ht : t < uthMaxUthreads)
    (halive : (a.core.uthreads t).Alive) : ((a.setWaiter t).block (.join t)).Inv := by
  have hfree := hi.free_cur hr.cur
  have hi1 : (a.block (.join t)).Inv := hi.block hr.lt hr.cur rfl rfl (fun _ => rfl)
    (fun _ _ _ => Iff.rfl) (fun g => iff_of_false (hfree g) nofun) ht
    (iff_of_false nofun (hi.ne_reaper hr))
  have hrec : (a.block (.join t)).core.uthreads =
      Function.update a.core.uthreads a.core.utCurthr { a.core.cur with utState := .wait } := rfl
  have halive1 : ((a.block (.join t)).core.uthreads t).Alive := by
    rw [hrec, Function.update_apply]
    split
    · exact ⟨nofun, nofun⟩
    · exact halive
  have hwait1 : (a.block (.join t)).core.state a.core.utCurthr = .wait := by
    rw [Core.state, hrec, Function.update_self]
  have hctx1 : (a.block (.join t)).core.utCtx a.core.utCurthr = .join t :=
    Function.update_self _ _ _
  refine (hi1.setWaiter ht hr.lt halive1 hwait1 hctx1).congr rfl ?_ rfl
  intro u
  refine Core.slot_update_of_ne ?_ rfl
  change Function.update (Function.update a.core.uthreads t _) _ _ u =
    Function.update (a.block (.join t)).core.uthreads t _ u
  rw [hrec]
  by_cases htc : a.core.utCurthr = t
  · subst htc
    simp [Abs.setWaiter, Core.setThread, Core.cur]
  · simp [Abs.setWaiter, Core.setThread, Core.cur, Function.update_of_ne htc,
      Function.update_of_ne (Ne.symm htc), Function.update_comm htc]

theorem joinLoop_setWaiter (hi : a.Inv) (hr : a.Running) {uid : Int}
    (hjoin : Joins a.core uid)
    (hok : a.core.state uid.toNat = .zombie → (a.core.uthreads uid.toNat).utWaiter = none) :
    ((a.setWaiter uid.toNat).joinLoop uid.toNat).2.Inv := by
  obtain ⟨ht, hstate⟩ := lt_of_thread hjoin.1
  have hexit : ((a.setWaiter uid.toNat).core.uthreads uid.toNat).utHasExited =
      (a.core.uthreads uid.toNat).utHasExited := by
    simp [Abs.setWaiter, Core.setThread]
  unfold Abs.joinLoop
  rw [hexit]
  split
  · rename_i hrunning
    exact hi.joinBlock hr ht (hi.alive_of_running ht hstate hrunning)
  · rename_i hexited
    have hzombie := hi.zombie_of_exited ht (by simpa using hexited)
    exact (hi.finishJoinList hr hjoin hzombie (hok hzombie)).wake_reaper

theorem join (hi : a.Inv) (hr : a.Running) {uid : Int}
    (hok : Joins a.core uid → a.core.state uid.toNat = .zombie →
      (a.core.uthreads uid.toNat).utWaiter = none) : (a.join uid).2.Inv := by
  unfold Abs.join
  split
  · exact hi.setErrno hr.lt hr.cur _
  rename_i hthread
  split
  · exact hi.setErrno hr.lt hr.cur _
  split
  · exact hi.setErrno hr.lt hr.cur _
  rename_i hguard
  have hjoin : Joins a.core uid := by
    refine ⟨hthread, ?_, ?_⟩
    · exact Classical.not_not.mp (not_or.mp hguard).1
    · simpa using (not_or.mp hguard).2
  exact hi.joinLoop_setWaiter hr hjoin (hok hjoin)

omit [DecidableEq M] [DecidableEq C] in
/-- The thread a running thread has waited for in `uthread_join`. -/
theorem joined (hi : a.Inv) (hlt : a.core.utCurthr < uthMaxUthreads)
    (hcur : a.core.state a.core.utCurthr = .onCpu)
    (hctx : a.core.utCtx a.core.utCurthr = .join t) :
    t < uthMaxUthreads ∧ a.core.state t = .zombie ∧ (a.core.uthreads t).utDetached = false ∧
      (a.core.uthreads t).utWaiter = some a.core.utCurthr := by
  have hlegal := (hi.own _ hlt).ctx (alive_of_onCpu hcur)
  rw [Core.slot, hctx] at hlegal
  exact ⟨hlegal, (hi.pair t _ hlegal hlt).joining (Or.inr hcur) hctx⟩

/-- The list at the end of a join that had to wait. -/
theorem resumeJoinList (hi : a.Inv) (hlt : a.core.utCurthr < uthMaxUthreads)
    (hcur : a.core.state a.core.utCurthr = .onCpu)
    (hne : a.core.utCurthr ≠ a.core.reaperThrId)
    (hctx : a.core.utCtx a.core.utCurthr = .join t) :
    ((a.returns.setDetached t).setQ .reap (a.q .reap ++ [t])).Inv := by
  obtain ⟨ht, hzombie, hdet, hw⟩ := hi.joined hlt hcur hctx
  have hi1 := hi.returns hlt hcur hne
  refine hi1.finishJoin { a.core.uthreads t with utDetached := true } ht hzombie
    hdet rfl (fun v hv => (hi.own t ht).waiter v hv) ?_
  intro u hu hrun hju
  by_cases hucur : u = a.core.utCurthr
  · subst hucur
    have hself : a.returns.core.utCtx a.core.utCurthr = .user := Function.update_self _ _ _
    exact absurd (hself.symm.trans hju) nofun
  · have hju : a.core.utCtx u = .join t := by
      rw [← hju]
      exact (Function.update_of_ne hucur _ _).symm
    have hwu := ((hi.pair t u ht hu).joining hrun hju).2.2
    exact hucur (Option.some.inj (hwu.symm.trans hw))

theorem resumeJoin (hi : a.Inv) (hlt : a.core.utCurthr < uthMaxUthreads)
    (hcur : a.core.state a.core.utCurthr = .onCpu)
    (hne : a.core.utCurthr ≠ a.core.reaperThrId)
    (hctx : a.core.utCtx a.core.utCurthr = .join t) :
    ((a.setDetached t).reapable t).returns.Inv := by
  rw [returns_reapable]
  exact (hi.resumeJoinList hlt hcur hne hctx).wake_reaper

omit [DecidableEq M] [DecidableEq C] in
theorem detach (hi : a.Inv) (hr : a.Running) {uid : Int}
    (hok : (a.detach uid).1 = 0 → a.core.state uid.toNat ≠ .zombie) : (a.detach uid).2.Inv := by
  unfold Abs.detach at hok ⊢
  split
  · exact hi.setErrno hr.lt hr.cur _
  rename_i hthread
  rw [if_neg hthread] at hok
  split
  · exact hi.setErrno hr.lt hr.cur _
  rename_i hguard
  rw [if_neg hguard] at hok
  obtain ⟨ht, hstate⟩ := lt_of_thread hthread
  exact hi.setDetached ht ⟨hstate, hok rfl⟩

theorem create (hi : a.Inv) {prio : Int}
    (hok : (a.create .user prio).1.1 = 0 → 0 ≤ prio ∧ prio ≤ uthMaxprio) :
    (a.create .user prio).2.Inv := by
  unfold Abs.create at hok ⊢
  split
  · exact hi
  · rename_i t hfound
    rw [hfound] at hok
    obtain ⟨ht, hstate⟩ := uthreadAllocFrom_spec rfl hfound
    exact hi.spawn ht hstate (hok rfl)

theorem switchScan (hi : a.Inv) (hnodup : ∀ h, (a.q h).Nodup) (l : List Nat) :
    (a.switchScan l).Inv := by
  induction l with
  | nil => exact hi
  | cons i rest ih =>
      unfold Abs.switchScan
      rcases List.eq_nil_or_concat (a.q (.runq i)) with hq | ⟨xs, t, hq⟩
      · rw [hq]
        exact ih
      · rw [List.concat_eq_append] at hq
        rw [hq, List.getLast?_concat, List.dropLast_concat]
        exact hi.run hnodup hq

end Inv

/-! ### The processor -/

omit [DecidableEq M] [DecidableEq C] in
theorem state_setThread {r' : Uthread} {u : Nat} (hstate : r'.utState = a.core.state t) :
    (a.onCore fun c => c.setThread t r').core.state u = a.core.state u := by
  by_cases hu : u = t
  · simp [hu, Core.state, Core.setThread, hstate]
  · simp [hu, Core.state, Core.setThread]

omit [DecidableEq M] [DecidableEq C] in
@[simp] theorem state_setWaiter {u : Nat} : (a.setWaiter t).core.state u = a.core.state u :=
  state_setThread rfl

omit [DecidableEq M] [DecidableEq C] in
@[simp] theorem state_setDetached {u : Nat} :
    (a.setDetached t).core.state u = a.core.state u :=
  state_setThread rfl

/-- The processor stays where it is. -/
structure SameCpu (a b : Abs M C) : Prop where
  switching : b.core.switching = a.core.switching
  curthr : b.core.utCurthr = a.core.utCurthr
  onCpu : ∀ u, b.core.state u = .onCpu ↔ a.core.state u = .onCpu

namespace SameCpu

omit [DecidableEq M] [DecidableEq C] in
theorem refl : SameCpu a a := ⟨rfl, rfl, fun _ => Iff.rfl⟩

omit [DecidableEq M] [DecidableEq C] in
theorem trans {d : Abs M C} (hab : SameCpu a b) (hbd : SameCpu b d) : SameCpu a d :=
  ⟨hbd.switching.trans hab.switching, hbd.curthr.trans hab.curthr,
    fun u => (hbd.onCpu u).trans (hab.onCpu u)⟩

omit [DecidableEq M] [DecidableEq C] in
theorem setThread {r' : Uthread}
    (hstate : r'.utState = .onCpu ↔ a.core.state t = .onCpu) :
    SameCpu a (a.onCore fun c => c.setThread t r') := by
  refine ⟨rfl, rfl, ?_⟩
  intro u
  by_cases hu : u = t
  · simp [hu, Core.state, Core.setThread, hstate]
  · simp [hu, Core.state, Core.setThread]

omit [DecidableEq M] [DecidableEq C] in
theorem setErrno (errno : Int) : SameCpu a (a.setErrno errno) := setThread Iff.rfl

theorem wake : SameCpu a (a.wake t) :=
  ⟨switching_wake, utCurthr_wake, fun _ => onCpu_wake⟩

theorem setQ (l : List Nat) : SameCpu a (a.setQ h l) := ⟨rfl, rfl, fun _ => Iff.rfl⟩

omit [DecidableEq M] [DecidableEq C] in
theorem setDetached : SameCpu a (a.setDetached t) := setThread Iff.rfl

omit [DecidableEq M] [DecidableEq C] in
theorem setWaiter : SameCpu a (a.setWaiter t) := setThread Iff.rfl

theorem requeue {prio : Int} : SameCpu a (a.requeue t prio) := by
  have hset : SameCpu a (a.onCore fun c => c.setThread t { a.core.uthreads t with
    utPrio := prio }) := setThread Iff.rfl
  exact ⟨rfl, rfl, hset.onCpu⟩

theorem setprio {id prio : Int} : SameCpu a (a.setprio id prio).2 := by
  unfold Abs.setprio
  split
  · exact setErrno _
  split
  · exact setErrno _
  split
  · exact requeue
  · exact setThread Iff.rfl

theorem reapable : SameCpu a (a.reapable t) := (setQ (h := .reap) _).trans wake

theorem unlock {m : M} : SameCpu a (a.unlock m) :=
  ⟨switching_unlock, utCurthr_unlock, fun _ => onCpu_unlock⟩

theorem signal {c : C} : SameCpu a (a.signal c) :=
  ⟨switching_signal, utCurthr_signal, fun _ => onCpu_signal⟩

theorem broadcast {c : C} : SameCpu a (a.broadcast c) :=
  ⟨switching_broadcast, utCurthr_broadcast, fun _ => onCpu_broadcast⟩

omit [DecidableEq C] in
theorem trylock {m : M} : SameCpu a (a.trylock m).2 := by
  unfold Abs.trylock
  split <;> exact ⟨rfl, rfl, fun _ => Iff.rfl⟩

omit [DecidableEq M] [DecidableEq C] in
theorem detach {uid : Int} : SameCpu a (a.detach uid).2 := by
  unfold Abs.detach
  split
  · exact setErrno _
  split
  · exact setErrno _
  · exact setThread Iff.rfl

theorem create {prio : Int} : SameCpu a (a.create .user prio).2 := by
  unfold Abs.create
  split
  · exact refl
  · rename_i t hfound
    obtain ⟨-, hstate⟩ := uthreadAllocFrom_spec rfl hfound
    have hset : SameCpu a (a.onCore fun c => c.setThread t { Uthread.zero with
        utId := t, utState := .runnable, utPrio := prio }) := by
      refine setThread (iff_of_false nofun ?_)
      rw [hstate]
      decide
    exact ⟨rfl, rfl, hset.onCpu⟩

omit [DecidableEq M] [DecidableEq C] in
theorem returns : SameCpu a a.returns := ⟨rfl, rfl, fun _ => Iff.rfl⟩

theorem reapAll (hi : a.Inv) : SameCpu a a.reapAll := by
  refine ⟨rfl, rfl, ?_⟩
  intro u
  by_cases hu : u ∈ a.q .reap
  · have hzombie := (Slot.zombie_of_place (hi.mem_place hu)).1
    refine iff_of_false ?_ fun hon => UthreadState.noConfusion (hon.symm.trans hzombie)
    simp [Abs.reapAll, Core.state, Core.destroy, hu, Uthread.zero]
  · simp [Abs.reapAll, Core.state, Core.destroy, hu]

omit [DecidableEq M] [DecidableEq C] in
theorem oneCpu (hs : SameCpu a b) (ho : a.core.OneCpu) : b.core.OneCpu := by
  unfold Core.OneCpu
  rw [hs.switching, hs.curthr]
  refine ⟨ho.1, ?_⟩
  intro u hu
  rw [hs.onCpu u]
  exact ho.2 u hu

end SameCpu

omit [DecidableEq M] [DecidableEq C] in
theorem oneCpu_idle (hsw : b.core.switching = true)
    (hstate : ∀ u, u < uthMaxUthreads → b.core.state u ≠ .onCpu) : b.core.OneCpu := by
  unfold Core.OneCpu
  rw [hsw]
  exact ⟨nofun, fun u hu => iff_of_false (hstate u hu) fun h => Bool.noConfusion h.1⟩

omit [DecidableEq M] [DecidableEq C] in
theorem state_block {k : Ctx M C} {u : Nat} :
    (a.block k).core.state u = if u = a.core.utCurthr then .wait else a.core.state u := by
  by_cases hu : u = a.core.utCurthr
  · simp [hu, block, switchOut, Core.state, Core.setState, Core.setThread, Core.setCtx]
  · simp [hu, block, switchOut, Core.state, Core.setState, Core.setThread, Core.setCtx]

omit [DecidableEq M] [DecidableEq C] in
/-- The current thread waits and the processor looks for another one. -/
theorem SameCpu.block (hs : SameCpu a b) (ho : a.core.OneCpu) (k : Ctx M C) :
    (b.block k).core.OneCpu := by
  refine oneCpu_idle rfl ?_
  intro u hu
  rw [state_block]
  split
  · nofun
  · rename_i hne
    intro hon
    exact hne (((hs.oneCpu ho).2 u hu).mp hon).2

theorem state_yield {u : Nat} :
    a.yield.core.state u = if u = a.core.utCurthr then .runnable else a.core.state u := by
  by_cases hu : u = a.core.utCurthr
  · simp [hu, yield, switchOut, core_ready, Core.state, Core.setState, Core.setThread, Core.setCtx]
  · simp [hu, yield, switchOut, core_ready, Core.state, Core.setState, Core.setThread, Core.setCtx]

theorem oneCpu_yield (ho : a.core.OneCpu) : a.yield.core.OneCpu := by
  refine oneCpu_idle rfl ?_
  intro u hu
  rw [state_yield]
  split
  · nofun
  · rename_i hne
    exact fun hon => hne ((ho.2 u hu).mp hon).2

omit [DecidableEq M] [DecidableEq C] in
theorem state_die {status : Int} {u : Nat} : (a.die status).core.state u =
    if u = a.core.utCurthr then .zombie else a.core.state u := by
  by_cases hu : u = a.core.utCurthr
  · simp [hu, die, Core.state, Core.setThread]
  · simp [hu, die, Core.state, Core.setThread]

theorem onCpu_exit {status : Int} {u : Nat} : (a.exit status).core.state u = .onCpu ↔
    (a.die status).core.state u = .onCpu :=
  onCpu_afterExit

theorem oneCpu_exit (ho : a.core.OneCpu) (status : Int) : (a.exit status).core.OneCpu := by
  refine oneCpu_idle rfl ?_
  intro u hu
  rw [Ne, onCpu_exit, state_die]
  split
  · nofun
  · rename_i hne
    exact fun hon => hne ((ho.2 u hu).mp hon).2

omit [DecidableEq C] in
theorem SameCpu.setOwner {m : M} {owner : Option Nat} : SameCpu a (a.setOwner m owner) :=
  ⟨rfl, rfl, fun _ => Iff.rfl⟩

theorem oneCpu_lock (ho : a.core.OneCpu) (m : M) : (a.lock m).2.core.OneCpu := by
  unfold lock
  split
  · exact SameCpu.setOwner.oneCpu ho
  split
  · exact SameCpu.refl.block ho _
  · exact (SameCpu.setQ _).block ho _

theorem oneCpu_joinLoop (ho : a.core.OneCpu) : (a.joinLoop t).2.core.OneCpu := by
  unfold joinLoop
  split
  · exact SameCpu.refl.block ho _
  · exact (SameCpu.setDetached.trans SameCpu.reapable).oneCpu ho

theorem oneCpu_join (ho : a.core.OneCpu) (uid : Int) : (a.join uid).2.core.OneCpu := by
  unfold join
  split
  · exact (SameCpu.setErrno _).oneCpu ho
  split
  · exact (SameCpu.setErrno _).oneCpu ho
  split
  · exact (SameCpu.setErrno _).oneCpu ho
  · exact oneCpu_joinLoop (SameCpu.setWaiter.oneCpu ho)

theorem oneCpu_run (hi : a.Inv) (ho : a.core.OneCpu) (hsw : a.core.switching = true) {i : Nat}
    {xs : List Nat} (hq : a.q (.runq i) = xs ++ [t]) :
    ((a.setQ (.runq i) xs).run t).core.OneCpu := by
  have ht := hi.mem_lt (t := t) (h := .runq i) (by simp [hq])
  refine ⟨fun _ => ht, ?_⟩
  intro u hu
  have hidle : a.core.state u ≠ .onCpu := by
    intro hon
    have hfalse := ((ho.2 u hu).mp hon).1
    exact Bool.noConfusion (hfalse.symm.trans hsw)
  by_cases hut : u = t
  · exact iff_of_true (by simp [hut, run, Core.state, Core.setState, Core.setThread])
      ⟨rfl, hut⟩
  · refine iff_of_false ?_ fun h => hut h.2
    have hsame : ((a.setQ (.runq i) xs).run t).core.state u = a.core.state u :=
      congrArg Uthread.utState (Function.update_of_ne hut _ _)
    rw [hsame]
    exact hidle

theorem oneCpu_switchScan (hi : a.Inv) (ho : a.core.OneCpu) (hsw : a.core.switching = true)
    (l : List Nat) : (a.switchScan l).core.OneCpu := by
  induction l with
  | nil => exact ho
  | cons i rest ih =>
      unfold switchScan
      rcases List.eq_nil_or_concat (a.q (.runq i)) with hq | ⟨xs, t, hq⟩
      · rw [hq]
        exact ih
      · rw [List.concat_eq_append] at hq
        rw [hq, List.getLast?_concat, List.dropLast_concat]
        exact oneCpu_run hi ho hsw hq

end Abs

end CodingSample.Uthreads
