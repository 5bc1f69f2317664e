import CodingSample.Uthreads.StepInv

/-!
# The library does what the abstract machine does
-/

namespace CodingSample.Uthreads

open Prog

variable {M C : Type} [DecidableEq M] [DecidableEq C] {s : Machine M C} {a b : Abs M C}
  {t w : Nat} {h : Head M C} {e : Event M C}

/-- A thread in `uthread_cond_wait` does not own the mutex it will lock again. -/
def Core.Relock (c : Core M C) : Prop :=
  ∀ t cond m, c.utCtx t = .condWait cond m → c.mOwner m ≠ some t

namespace Abs

omit [DecidableEq M] [DecidableEq C] in
theorem relock_same (hr : a.core.Relock) (hctx : b.core.utCtx = a.core.utCtx)
    (hown : b.core.mOwner = a.core.mOwner) : b.core.Relock := by
  unfold Core.Relock
  rw [hctx, hown]
  exact hr

omit [DecidableEq M] [DecidableEq C] in
theorem relock_update (hr : a.core.Relock) {k : Ctx M C}
    (hctx : b.core.utCtx = Function.update a.core.utCtx t k) (hk : ∀ c m, k ≠ .condWait c m)
    (hown : b.core.mOwner = a.core.mOwner) : b.core.Relock := by
  unfold Core.Relock
  rw [hctx, hown]
  intro u c m hu
  rw [Function.update_apply] at hu
  split at hu
  · exact absurd hu (hk c m)
  · exact hr u c m hu

omit [DecidableEq C] in
/-- A mutex goes to a thread that is not in `uthread_cond_wait` for it. -/
theorem relock_owner (hr : a.core.Relock) {m : M} (owner : Option Nat)
    (hctx : b.core.utCtx = a.core.utCtx)
    (hown : b.core.mOwner = Function.update a.core.mOwner m owner)
    (hnot : ∀ u, owner = some u → ∀ c, a.core.utCtx u ≠ .condWait c m) : b.core.Relock := by
  unfold Core.Relock
  rw [hctx, hown]
  intro u c m' hu
  rw [Function.update_apply]
  split
  · rename_i hm
    subst hm
    exact fun howner => hnot u howner c hu
  · exact hr u c m' hu

theorem mOwner_unlock {m : M} : (a.unlock m).core.mOwner =
    Function.update a.core.mOwner m (a.q (.mtx m)).getLast? := by
  unfold unlock
  split
  · rename_i hq
    rw [hq]
    rfl
  · rename_i t hq
    rw [hq, mOwner_wake]
    rfl

omit [DecidableEq M] [DecidableEq C] in
theorem Inv.ctx_of_mtx (hi : a.Inv) {m : M} (hmem : t ∈ a.q (.mtx m)) :
    a.core.state t = .wait ∧ a.core.utCtx t = .lock m := by
  obtain ⟨hwait, hctx⟩ := Slot.wait_of_place (hi.mem_place hmem) nofun nofun
  refine ⟨hwait, ?_⟩
  have hctx : (a.core.utCtx t).queue = some (.mtx m) := hctx
  cases hk : a.core.utCtx t <;> rw [hk] at hctx <;> cases hctx
  rfl

omit [DecidableEq M] [DecidableEq C] in
theorem Inv.ctx_of_cond (hi : a.Inv) {c : C} (hmem : t ∈ a.q (.cond c)) :
    a.core.state t = .wait ∧ ∃ m, a.core.utCtx t = .condWait c m := by
  obtain ⟨hwait, hctx⟩ := Slot.wait_of_place (hi.mem_place hmem) nofun nofun
  refine ⟨hwait, ?_⟩
  have hctx : (a.core.utCtx t).queue = some (.cond c) := hctx
  cases hk : a.core.utCtx t <;> rw [hk] at hctx <;> cases hctx
  exact ⟨_, rfl⟩

theorem relock_unlock (hi : a.Inv) (hr : a.core.Relock) (m : M) : (a.unlock m).core.Relock := by
  refine relock_owner hr _ utCtx_unlock mOwner_unlock ?_
  intro u hu c
  rw [(hi.ctx_of_mtx (List.mem_of_getLast? hu)).2]
  nofun

theorem relock_lock (hr : a.core.Relock) {m : M}
    (hctx : ∀ c, a.core.utCtx a.core.utCurthr ≠ .condWait c m) : (a.lock m).2.core.Relock := by
  unfold lock
  split
  · refine relock_owner (m := m) hr (some a.core.utCurthr) rfl rfl ?_
    rintro _ ⟨rfl⟩
    exact hctx
  split
  · exact relock_update hr (t := a.core.utCurthr) rfl nofun rfl
  · exact relock_update hr (t := a.core.utCurthr) rfl nofun rfl

omit [DecidableEq C] in
theorem Inv.trylock (hi : a.Inv) (m : M) : (a.trylock m).2.Inv := by
  unfold Abs.trylock
  split <;> exact hi.congr rfl (fun _ => rfl) rfl

omit [DecidableEq C] in
theorem relock_trylock (hr : a.core.Relock) {m : M}
    (hctx : ∀ c, a.core.utCtx a.core.utCurthr ≠ .condWait c m) :
    (a.trylock m).2.core.Relock := by
  unfold trylock
  split
  · refine relock_owner (m := m) hr (some a.core.utCurthr) rfl rfl ?_
    rintro _ ⟨rfl⟩
    exact hctx
  · exact hr

theorem utCtx_setprio {id prio : Int} : (a.setprio id prio).2.core.utCtx = a.core.utCtx ∧
    (a.setprio id prio).2.core.mOwner = a.core.mOwner := by
  unfold setprio
  split
  · exact ⟨rfl, rfl⟩
  split
  · exact ⟨rfl, rfl⟩
  split <;> exact ⟨rfl, rfl⟩

@[simp] theorem utCtx_reapable : (a.reapable t).core.utCtx = a.core.utCtx := utCtx_wake

@[simp] theorem mOwner_reapable : (a.reapable t).core.mOwner = a.core.mOwner := mOwner_wake

theorem relock_joinLoop (hr : a.core.Relock) : (a.joinLoop t).2.core.Relock := by
  unfold joinLoop
  split
  · exact relock_update hr (t := a.core.utCurthr) rfl nofun rfl
  · exact relock_same hr utCtx_reapable mOwner_reapable

theorem relock_join (hr : a.core.Relock) (uid : Int) : (a.join uid).2.core.Relock := by
  unfold join
  split
  · exact relock_same hr rfl rfl
  split
  · exact relock_same hr rfl rfl
  split
  · exact relock_same hr rfl rfl
  · exact relock_joinLoop (a := a.setWaiter uid.toNat) hr

theorem relock_condWait (hi : a.Inv) (hrl : a.core.Relock) (hr : a.Running) (c : C) (m : M) :
    (a.condWait c m).core.Relock := by
  have heq : (a.push (.cond c)).unlock m = (a.unlock m).setQ (.cond c)
      (a.core.utCurthr :: a.q (.cond c)) := Inv.condWait_eq a c m
  have hctx : (a.condWait c m).core.utCtx =
      Function.update (a.unlock m).core.utCtx a.core.utCurthr (.condWait c m) := by
    unfold condWait
    rw [heq]
    change Function.update (a.unlock m).core.utCtx (a.unlock m).core.utCurthr _ = _
    rw [utCurthr_unlock]
  have hown : (a.condWait c m).core.mOwner = (a.unlock m).core.mOwner := by
    unfold condWait
    rw [heq]
    rfl
  unfold Core.Relock
  rw [hctx, hown]
  intro u c' m' hu
  rw [Function.update_apply] at hu
  split at hu
  · rename_i hucur
    cases hu
    rw [hucur, mOwner_unlock, Function.update_self]
    intro hlast
    have hwait := (hi.ctx_of_mtx (List.mem_of_getLast? hlast)).1
    exact UthreadState.noConfusion (hwait.symm.trans hr.cur)
  · exact relock_unlock hi hrl m u c' m' hu

theorem relock_create (hr : a.core.Relock) (prio : Int) :
    (a.create .user prio).2.core.Relock := by
  unfold create
  split
  · exact hr
  · rename_i t _
    exact relock_update hr (t := t) rfl nofun rfl

omit [DecidableEq M] [DecidableEq C] in
theorem relock_detach (hr : a.core.Relock) (uid : Int) : (a.detach uid).2.core.Relock := by
  unfold detach
  split
  · exact relock_same hr rfl rfl
  split <;> exact relock_same hr rfl rfl

theorem relock_reapAll (hr : a.core.Relock) : a.reapAll.core.Relock := by
  intro u c m hu
  have hu : (if u ∈ a.q .reap then Ctx.none else a.core.utCtx u) = .condWait c m := hu
  split at hu
  · cases hu
  · exact hr u c m hu

theorem relock_switchScan (hr : a.core.Relock) (l : List Nat) :
    (a.switchScan l).core.Relock := by
  induction l with
  | nil => exact hr
  | cons i rest ih =>
      unfold switchScan
      split
      · exact ih
      · exact relock_same hr rfl rfl

end Abs

/-! ### The invariant of a run -/

structure Abs.Good (a : Abs M C) : Prop where
  inv : a.Inv
  cpu : a.core.OneCpu
  relock : a.core.Relock

/-- What the callers of the library keep to: a thread does not lock a mutex it owns, and an exited
thread that another one is about to join is not joined a second time. -/
def Allowed (c : Core M C) : Event M C → Prop
  | .call (.lock m) => c.mOwner m ≠ some c.utCurthr
  | .call (.join uid) => Joins c uid → c.state uid.toNat = .zombie →
      (c.uthreads uid.toNat).utWaiter = none
  | _ => True

/-- The call gets past the tests that can stop it. -/
def Abs.Passes (a : Abs M C) : Event M C → Prop
  | .call (.create prio) => (a.create .user prio).1.1 = 0 → 0 ≤ prio ∧ prio ≤ uthMaxprio
  | .call (.detach uid) => (a.detach uid).1 = 0 → a.core.state uid.toNat ≠ .zombie
  | .call (.unlock m) | .call (.condWait _ m) => a.core.mOwner m = some a.core.utCurthr
  | _ => True

/-- How an event can stop the process. -/
def Abs.Stops (a : Abs M C) (e : Event M C) (f : Fault) : Prop :=
  match e with
  | .call (.create prio) => f = .exitFailure ∧ ¬ (0 ≤ prio ∧ prio ≤ uthMaxprio)
  | .call (.detach uid) => f = .assertion .makeReapable ∧ Detaches a.core uid ∧
      a.core.state uid.toNat = .zombie
  | .call (.unlock m) => f = .assertion .uthreadMtxUnlock ∧
      a.core.mOwner m ≠ some a.core.utCurthr
  | .call (.condWait _ m) => f = .assertion .uthreadCondWait ∧
      a.core.mOwner m ≠ some a.core.utCurthr
  | .resume => f = .exitSuccess ∧ a.core.utCurthr = a.core.reaperThrId ∧
      ∀ t, t < uthMaxUthreads → t ≠ a.core.reaperThrId → a.reapAll.core.state t = .noState
  | _ => False

namespace Abs.Good

omit [DecidableEq M] [DecidableEq C] in
theorem cur (hg : a.Good) (hsw : a.core.switching = false) :
    a.core.utCurthr < uthMaxUthreads ∧ a.core.state a.core.utCurthr = .onCpu := by
  have hlt := hg.cpu.1 hsw
  exact ⟨hlt, (hg.cpu.2 _ hlt).mpr ⟨hsw, rfl⟩⟩

omit [DecidableEq M] [DecidableEq C] in
theorem running (hg : a.Good) {c : Call M C} (he : Event.Enabled a.core (.call c)) :
    a.Running :=
  ⟨(hg.cur he.1).1, (hg.cur he.1).2, he.1, he.2⟩

theorem call (hg : a.Good) (hnodup : ∀ h, (a.q h).Nodup) {c : Call M C}
    (he : Event.Enabled a.core (.call c)) (hp : Allowed a.core (.call c))
    (hpass : a.Passes (.call c)) : (a.call c).2.Good := by
  have hr := hg.running he
  obtain ⟨hi, ho, hrl⟩ := hg
  have hne := hi.ne_reaper hr
  cases c with
  | yield =>
      exact ⟨hi.yield hr.lt hr.cur hne, oneCpu_yield ho,
        relock_update hrl (t := a.core.utCurthr) rfl nofun rfl⟩
  | setprio id prio =>
      exact ⟨hi.setprio hnodup hr.lt hr.cur id prio, SameCpu.setprio.oneCpu ho,
        relock_same hrl utCtx_setprio.1 utCtx_setprio.2⟩
  | create prio => exact ⟨hi.create hpass, SameCpu.create.oneCpu ho, relock_create hrl prio⟩
  | exit status =>
      refine ⟨hi.exit hr status, oneCpu_exit ho status,
        relock_update hrl (t := a.core.utCurthr) (k := .exited) ?_ nofun ?_⟩
      · change Function.update (Core.utCtx _) (Core.utCurthr _) _ = _
        rw [utCtx_afterExit, utCurthr_afterExit]
        rfl
      · exact mOwner_afterExit
  | join uid => exact ⟨hi.join hr hp, oneCpu_join ho uid, relock_join hrl uid⟩
  | detach uid =>
      exact ⟨hi.detach hr hpass, SameCpu.detach.oneCpu ho, relock_detach hrl uid⟩
  | lock m =>
      refine ⟨hi.lock hr.lt hr.cur hne hp, oneCpu_lock ho m, relock_lock hrl ?_⟩
      rw [hr.ctx]
      nofun
  | trylock m =>
      refine ⟨?_, SameCpu.trylock.oneCpu ho, ?_⟩
      · exact hi.trylock m
      · refine relock_trylock hrl ?_
        rw [hr.ctx]
        nofun
  | unlock m => exact ⟨hi.unlock hnodup m, SameCpu.unlock.oneCpu ho, relock_unlock hi hrl m⟩
  | condWait c m =>
      exact ⟨hi.condWait hnodup hr.lt hr.cur hne c m,
        ((SameCpu.setQ _).trans SameCpu.unlock).block ho _, relock_condWait hi hrl hr c m⟩
  | signal c =>
      exact ⟨hi.signal hnodup c, SameCpu.signal.oneCpu ho,
        relock_same hrl utCtx_signal mOwner_signal⟩
  | broadcast c =>
      exact ⟨hi.broadcast hnodup c, SameCpu.broadcast.oneCpu ho,
        relock_same hrl utCtx_broadcast mOwner_broadcast⟩

omit [DecidableEq M] [DecidableEq C] in
/-- The current thread returns to its own code. -/
theorem returns (hg : a.Good) (hsw : a.core.switching = false)
    (hne : a.core.utCurthr ≠ a.core.reaperThrId) : a.returns.Good :=
  ⟨hg.inv.returns (hg.cur hsw).1 (hg.cur hsw).2 hne, SameCpu.returns.oneCpu hg.cpu,
    relock_update hg.relock (t := a.core.utCurthr) rfl nofun rfl⟩

omit [DecidableEq M] [DecidableEq C] in
theorem ne_reaper_of_ctx (hg : a.Good) (hsw : a.core.switching = false)
    (hctx : a.core.utCtx a.core.utCurthr ≠ .reaper) :
    a.core.utCurthr ≠ a.core.reaperThrId := by
  intro heq
  obtain ⟨hlt, hcur⟩ := hg.cur hsw
  exact hctx (((hg.inv.own _ hlt).reaper (Inv.alive_of_onCpu hcur)).mpr heq)

/-- A thread that was woken in `uthread_cond_wait` locks the mutex. -/
theorem relocks (hg : a.Good) (hsw : a.core.switching = false) {c : C} {m : M}
    (hctx : a.core.utCtx a.core.utCurthr = .condWait c m) :
    ((a.lock m).1 = true → (a.lock m).2.returns.Good) ∧
      ((a.lock m).1 = false → (a.lock m).2.Good) := by
  have hne : a.core.utCurthr ≠ a.core.reaperThrId := by
    refine hg.ne_reaper_of_ctx hsw ?_
    rw [hctx]
    nofun
  have hown : a.core.mOwner m ≠ some a.core.utCurthr := hg.relock _ c m hctx
  obtain ⟨hlt, hcur⟩ := hg.cur hsw
  have hi := hg.inv.lock hlt hcur hne hown
  have ho := oneCpu_lock hg.cpu m
  by_cases hfree : a.core.mOwner m = none
  · have hlock : a.lock m = (true, a.setOwner m (some a.core.utCurthr)) := if_pos hfree
    rw [hlock]
    refine ⟨fun _ => ?_, nofun⟩
    have hret := hg.returns hsw hne
    change ((a.returns).setOwner m (some a.core.utCurthr)).Good
    refine ⟨hret.inv.congr rfl (fun _ => rfl) rfl, SameCpu.setOwner.oneCpu hret.cpu,
      relock_owner (m := m) hret.relock (some a.core.utCurthr) rfl rfl ?_⟩
    rintro _ ⟨rfl⟩ c' hc'
    exact absurd ((Function.update_self _ _ _).symm.trans hc') nofun
  · have hlock : a.lock m = (false, (a.push (.mtx m)).block (.lock m)) := by
      rw [Abs.lock, if_neg hfree, if_neg hown]
    rw [hlock] at hi ho ⊢
    exact ⟨nofun, fun _ => ⟨hi, ho, relock_update hg.relock (t := a.core.utCurthr) rfl nofun rfl⟩⟩

theorem reaps (hg : a.Good) (hsw : a.core.switching = false)
    (hctx : a.core.utCtx a.core.utCurthr = .reaper) : (a.reapAll.block .reaper).Good := by
  obtain ⟨hlt, hcur⟩ := hg.cur hsw
  have hi := hg.inv.reapAll
  have hs := SameCpu.reapAll hg.inv
  have hcur' : a.reapAll.core.state a.reapAll.core.utCurthr = .onCpu := (hs.onCpu _).mpr hcur
  have hreaper := ((hg.inv.own _ hlt).reaper (Inv.alive_of_onCpu hcur)).mp hctx
  have hfree := hi.free_cur hcur'
  exact ⟨hi.block hlt hcur' rfl rfl (fun _ => rfl) (fun _ _ _ => Iff.rfl)
    (fun g => iff_of_false (hfree g) nofun) trivial (iff_of_true rfl hreaper),
    hs.block hg.cpu _,
    relock_update (relock_reapAll hg.relock) (t := a.core.utCurthr) rfl nofun rfl⟩

theorem joins (hg : a.Good) (hsw : a.core.switching = false) {uid : Nat}
    (hctx : a.core.utCtx a.core.utCurthr = .join uid) :
    a.joinLoop uid = (some (0, (a.core.uthreads uid).utExit),
      (a.setDetached uid).reapable uid) ∧ ((a.setDetached uid).reapable uid).returns.Good := by
  have hne : a.core.utCurthr ≠ a.core.reaperThrId := by
    refine hg.ne_reaper_of_ctx hsw ?_
    rw [hctx]
    rintro ⟨⟩
  obtain ⟨hlt, hcur⟩ := hg.cur hsw
  obtain ⟨ht, hzombie, -⟩ := hg.inv.joined hlt hcur hctx
  have hexit := (hg.inv.own _ ht).exited.mpr hzombie
  refine ⟨if_neg (by rw [Core.slot] at hexit; simpa using hexit), ?_, ?_, ?_⟩
  · exact hg.inv.resumeJoin hlt hcur hne hctx
  · exact ((SameCpu.setDetached.trans SameCpu.reapable).trans SameCpu.returns).oneCpu hg.cpu
  · refine relock_update (a := (a.setDetached uid).reapable uid) (t := a.core.utCurthr)
      (k := .user) ?_ ?_ (by rintro _ _ ⟨⟩) rfl
    · exact relock_same hg.relock utCtx_reapable mOwner_reapable
    · change Function.update _ (Core.utCurthr _) _ = _
      rw [SameCpu.reapable.curthr]
      rfl

theorem resume (hg : a.Good) (he : Event.Enabled a.core .resume) : a.resume.2.Good := by
  obtain ⟨hsw, hctx⟩ := he
  have hlegal := (hg.inv.own _ (hg.cur hsw).1).ctx (Inv.alive_of_onCpu (hg.cur hsw).2)
  have hlegal : (a.core.utCtx a.core.utCurthr).Legal := hlegal
  have hne := hg.ne_reaper_of_ctx hsw
  unfold Abs.resume
  cases hk : a.core.utCtx a.core.utCurthr with
  | yield => exact hg.returns hsw (hne (by rw [hk]; nofun))
  | lock m => exact hg.returns hsw (hne (by rw [hk]; nofun))
  | condWait c m =>
      obtain ⟨hyes, hno⟩ := hg.relocks hsw hk
      simp only []
      split
      · rename_i hlocked
        exact hyes hlocked
      · rename_i hlocked
        exact hno (by simpa using hlocked)
  | join uid =>
      obtain ⟨hloop, hgood⟩ := hg.joins hsw hk
      simp only [hloop]
      exact hgood
  | reaper => exact hg.reaps hsw hk
  | user => exact absurd hk hctx
  | none => rw [hk] at hlegal; exact hlegal.elim
  | reaperStart => rw [hk] at hlegal; exact hlegal.elim
  | exited => rw [hk] at hlegal; exact hlegal.elim
  | firstThr mainThr => rw [hk] at hlegal; exact hlegal.elim
  | block k => rw [hk] at hlegal; exact hlegal.elim

theorem switch (hg : a.Good) (hnodup : ∀ h, (a.q h).Nodup) (hsw : a.core.switching = true) :
    a.switch.Good :=
  ⟨hg.inv.switchScan hnodup _, oneCpu_switchScan hg.inv hg.cpu hsw _,
    relock_switchScan hg.relock _⟩

theorem step (hg : a.Good) (hnodup : ∀ h, (a.q h).Nodup) (he : e.Enabled a.core)
    (hp : Allowed a.core e) (hpass : a.Passes e) : (a.step e).2.Good := by
  cases e with
  | call c => exact hg.call hnodup he hp hpass
  | resume => exact hg.resume he
  | switch => exact hg.switch hnodup he

end Abs.Good

/-! ### The library -/

omit [DecidableEq M] [DecidableEq C] in
theorem Abs.Inv.queueable (hi : a.Inv) {id : Int} (hlt : id.toNat < uthMaxUthreads)
    (hrun : a.core.state id.toNat = .runnable) : a.Queueable id.toNat :=
  Or.inl ((hi.queued _ _).mpr ⟨hlt, Slot.place_of_runnable hrun⟩)

namespace Abs.Good

variable {c : Call M C}

theorem ewp_exit (hg : a.Good) (hv : View s a) (hr : a.Running) (status : Int)
    {E : Fault → Prop} :
    ewp (uthreadExit status) (fun _ s' => View s' (a.exit status)) E s := by
  refine ewp_uthreadExit hv status hr.cur ?_ ?_
  · intro hdet
    have hi' := hg.inv.die_detached hr status hdet
    have hne := (hg.inv.ne_reaper hr).symm
    refine ⟨hg.inv.free_cur hr.cur, ?_, ?_⟩
    · rw [Core.state, show (a.die status).core.reaperThrId = a.core.reaperThrId from rfl,
        Inv.state_die hne]
      exact hg.inv.reaper_alive.1
    · exact fun hwait =>
        hi'.wakeable hi'.reaper_lt hi'.reaper_alive.1 rfl (hi'.free_reaper hwait)
  · intro w hw
    obtain ⟨hlt, hwait, hjoin⟩ := hg.inv.waiter_cur hr hw
    have hne := Inv.ne_cur_of_wait hr hwait
    have hrec : (a.die status).core.uthreads w = a.core.uthreads w := Inv.state_die hne
    have hstate : (a.die status).core.state w = a.core.state w := congrArg Uthread.utState hrec
    have hfree : a.Free w := by
      refine hg.inv.free_of_place ?_
      rw [Slot.place_of_wait hwait, Core.slot, hjoin]
      rfl
    have halive : a.core.state w ≠ .noState := by
      rw [hwait]
      decide
    rw [hstate]
    exact ⟨halive, fun _ => hg.inv.wakeable hlt halive hrec hfree⟩

theorem ewp_join (hg : a.Good) (hv : View s a) (hr : a.Running) {uid : Int}
    (hp : Joins a.core uid → a.core.state uid.toNat = .zombie →
      (a.core.uthreads uid.toNat).utWaiter = none) {E : Fault → Prop} :
    ewp (uthreadJoin uid) (fun r s' => r = (a.join uid).1 ∧ View s' (a.join uid).2) E s := by
  refine ewp_uthreadJoin hv uid hr.cur ?_
  intro hjoin
  obtain ⟨ht, hstate⟩ := lt_of_thread hjoin.1
  refine ⟨(SameCpu.setWaiter.onCpu a.core.utCurthr).mpr hr.cur, ?_⟩
  intro hexit
  have hzombie := hg.inv.zombie_of_exited ht hexit
  have hplace : (a.core.slot uid.toNat).place = none := by
    rw [Slot.place_of_zombie hzombie]
    exact if_neg (by rw [Core.slot, hjoin.2.2]; decide)
  have hi' := hg.inv.finishJoinList hr hjoin hzombie (hp hjoin hzombie)
  have hne : a.core.reaperThrId ≠ uid.toNat := by
    intro heq
    have halive := hg.inv.reaper_alive.2
    rw [heq] at halive
    exact halive hzombie
  refine ⟨hzombie, hg.inv.free_of_place hplace, ?_, ?_⟩
  · have hrec : ((a.setWaiter uid.toNat).setDetached uid.toNat).core.uthreads
        a.core.reaperThrId = a.core.uthreads a.core.reaperThrId :=
      (Function.update_of_ne hne _ _).trans (Function.update_of_ne hne _ _)
    rw [Core.state]
    exact hrec ▸ hg.inv.reaper_alive.1
  · exact fun hwait =>
      hi'.wakeable hi'.reaper_lt hi'.reaper_alive.1 rfl (hi'.free_reaper hwait)

theorem ewp_call (hg : a.Good) (hv : View s a) (he : Event.Enabled a.core (.call c))
    (hp : Allowed a.core (.call c)) :
    ewp c.run (fun r s' => r = (a.call c).1 ∧ View s' (a.call c).2 ∧ a.Passes (.call c))
      (a.Stops (.call c)) s := by
  have hr := hg.running he
  have hi := hg.inv
  have hfree := hi.free_cur hr.cur
  have hasleep (h : Head M C) (hrunq : ∀ i, h ≠ .runq i) (hreap : h ≠ .reap) :
      ∀ t ∈ a.q h, a.Asleep t := fun t ht => hi.asleep ht hrunq hreap
  cases c with
  | yield =>
      have hw := hi.wakeable hr.lt (by rw [hr.cur]; decide) rfl hfree
      refine ewp_bind_of (ewp_uthreadYield hv hr.cur hw) ?_
      intro _ s1 hv1
      exact ⟨rfl, hv1, trivial⟩
  | setprio id prio =>
      refine ewp_bind_of (ewp_uthreadSetprio hv ?_) ?_
      · exact fun hlt hrun => hi.queueable hlt hrun
      · rintro r s1 ⟨rfl, hv1⟩
        exact ⟨rfl, hv1, trivial⟩
  | create prio =>
      have hunused (t : Nat) (ht : t < uthMaxUthreads) (hst : a.core.state t = .noState) :
          a.Free t := hi.free_of_place (Slot.place_of_noState hst)
      refine ewp_bind_of (ewp_uthreadCreate hv .user prio hunused fun hbad => ⟨rfl, hbad⟩) ?_
      rintro r s1 ⟨rfl, hv1, hok⟩
      exact ⟨rfl, hv1, hok⟩
  | exit status =>
      refine ewp_bind_of (hg.ewp_exit hv hr status) ?_
      intro _ s1 hv1
      exact ⟨rfl, hv1, trivial⟩
  | join uid =>
      refine ewp_mono (hg.ewp_join hv hr hp) ?_ fun _ he => he
      rintro r s1 ⟨rfl, hv1⟩
      exact ⟨rfl, hv1, trivial⟩
  | detach uid =>
      refine ewp_bind_of (ewp_uthreadDetach hv uid fun h1 h2 => ⟨rfl, h1, h2⟩) ?_
      rintro r s1 ⟨rfl, hv1, hok⟩
      exact ⟨rfl, hv1, hok⟩
  | lock m =>
      refine ewp_bind_of (ewp_uthreadMtxLock hv hr.cur hfree m) ?_
      rintro r s1 ⟨rfl, hv1⟩
      exact ⟨rfl, hv1, trivial⟩
  | trylock m =>
      refine ewp_bind_of (ewp_uthreadMtxTrylock hv m) ?_
      rintro r s1 ⟨rfl, hv1⟩
      exact ⟨rfl, hv1, trivial⟩
  | unlock m =>
      refine ewp_bind_of (ewp_uthreadMtxUnlock hv m (hasleep _ nofun nofun) fun h => ⟨rfl, h⟩) ?_
      rintro _ s1 ⟨hown, hv1⟩
      exact ⟨rfl, hv1, hown⟩
  | condWait c m =>
      refine ewp_bind_of (ewp_uthreadCondWait hv hr.cur hfree c m (hasleep _ nofun nofun)
        fun h => ⟨rfl, h⟩) ?_
      rintro _ s1 ⟨hown, hv1⟩
      exact ⟨rfl, hv1, hown⟩
  | signal c =>
      refine ewp_bind_of (ewp_uthreadCondSignal hv c (hasleep _ nofun nofun)) ?_
      intro _ s1 hv1
      exact ⟨rfl, hv1, trivial⟩
  | broadcast c =>
      refine ewp_bind_of (ewp_uthreadCondBroadcast hv c (hasleep _ nofun nofun)) ?_
      intro _ s1 hv1
      exact ⟨rfl, hv1, trivial⟩

omit [DecidableEq M] [DecidableEq C] in
theorem ewp_returnToUser (hv : View s a) (ret : Ret) {E : Fault → Prop} :
    ewp (returnToUser ret) (fun r s' => r = some ret ∧ View s' a.returns) E s :=
  ⟨rfl, hv.onCore fun c => c.setCtx c.utCurthr .user⟩

theorem ewp_relock (hv : View s a) (hcur : a.core.cur.utState = .onCpu)
    (hfree : a.Free a.core.utCurthr) (m : M) {E : Fault → Prop} :
    ewp (do
        let locked ← uthreadMtxLock m
        if locked then returnToUser (0, 0) else pure none)
      (fun r s' => r = (if (a.lock m).1 then (some (0, 0), (a.lock m).2.returns)
          else (none, (a.lock m).2) : Option Ret × Abs M C).1 ∧
        View s' (if (a.lock m).1 then (some (0, 0), (a.lock m).2.returns)
          else (none, (a.lock m).2) : Option Ret × Abs M C).2) E s := by
  refine ewp_bind_of (ewp_uthreadMtxLock hv hcur hfree m) ?_
  rintro r s1 ⟨rfl, hv1⟩
  split
  · exact ewp_returnToUser hv1 (0, 0)
  · exact ⟨rfl, hv1⟩

theorem ewp_reaper (hg : a.Good) (hv : View s a) (hsw : a.core.switching = false)
    {E : Fault → Prop} (hE : (∀ t, t < uthMaxUthreads → t ≠ a.core.reaperThrId →
      a.reapAll.core.state t = .noState) → E .exitSuccess) :
    ewp (do
        reaperRound
        uthreadBlock .reaper
        pure none : U M C (Option Ret))
      (fun r s' => r = none ∧ View s' (a.reapAll.block .reaper)) E s := by
  have hdead : ∀ t ∈ a.q .reap, t < uthMaxUthreads ∧ a.core.state t = .zombie ∧
      (a.core.uthreads t).utStack = none := fun t ht =>
    ⟨hg.inv.mem_lt ht, (Slot.zombie_of_place (hg.inv.mem_place ht)).1,
      (hg.inv.own t (hg.inv.mem_lt ht)).stack⟩
  refine ewp_bind_of (ewp_reaperRound hv hdead hE) ?_
  intro _ s1 hv1
  have hcur : a.reapAll.core.cur.utState = .onCpu :=
    ((SameCpu.reapAll hg.inv).onCpu _).mpr (hg.cur hsw).2
  refine ewp_bind_of (ewp_uthreadBlock hv1 hcur .reaper) ?_
  intro _ s2 hv2
  exact ⟨rfl, hv2⟩

theorem ewp_resume (hg : a.Good) (hv : View s a) (he : Event.Enabled a.core .resume) :
    ewp Uthreads.resume (fun r s' => r = a.resume.1 ∧ View s' a.resume.2) (a.Stops .resume) s := by
  obtain ⟨hsw, hctx⟩ := he
  obtain ⟨hlt, hcur⟩ := hg.cur hsw
  have hlegal : (a.core.utCtx a.core.utCurthr).Legal :=
    (hg.inv.own _ hlt).ctx (Inv.alive_of_onCpu hcur)
  unfold Uthreads.resume Abs.resume
  rw [ewp_bind, ewp_getCore, hv.core]
  cases hk : a.core.utCtx a.core.utCurthr with
  | yield => exact ewp_returnToUser hv (0, 0)
  | lock m => exact ewp_returnToUser hv (0, 0)
  | condWait c m => exact ewp_relock hv hcur (hg.inv.free_cur hcur) m
  | join uid =>
      obtain ⟨ht, hzombie, hdet, -⟩ := hg.inv.joined hlt hcur hk
      have hne := hg.ne_reaper_of_ctx hsw (by rw [hk]; nofun)
      have hi' := hg.inv.resumeJoinList hlt hcur hne hk
      have hplace : (a.core.slot uid).place = none := by
        rw [Slot.place_of_zombie hzombie]
        exact if_neg (by rw [Core.slot, hdet]; decide)
      have hreap : (a.setDetached uid).Reapable uid :=
        ⟨hg.inv.free_of_place hplace, hi'.reaper_alive.1, fun hwait =>
          hi'.wakeable hi'.reaper_lt hi'.reaper_alive.1 rfl (hi'.free_reaper hwait)⟩
      obtain ⟨hloop, -⟩ := hg.joins hsw hk
      refine ewp_bind_of (ewp_joinLoop hv uid hcur fun _ => ⟨hzombie, hreap⟩) ?_
      rintro r s1 ⟨rfl, hv1⟩
      simp only [hloop] at hv1 ⊢
      exact ewp_returnToUser hv1 _
  | reaper =>
      have hreaper := ((hg.inv.own _ hlt).reaper (Inv.alive_of_onCpu hcur)).mp hk
      exact hg.ewp_reaper hv hsw fun halone => ⟨rfl, hreaper, halone⟩
  | user => exact absurd hk hctx
  | none => rw [hk] at hlegal; exact hlegal.elim
  | reaperStart => rw [hk] at hlegal; exact hlegal.elim
  | exited => rw [hk] at hlegal; exact hlegal.elim
  | firstThr mainThr => rw [hk] at hlegal; exact hlegal.elim
  | block k => rw [hk] at hlegal; exact hlegal.elim

/-- The library does to the memory what the abstract machine does to the lists. -/
theorem ewp_step (hg : a.Good) (hv : View s a) (he : e.Enabled a.core) (hp : Allowed a.core e) :
    ewp e.run (fun r s' => r = (a.step e).1 ∧ View s' (a.step e).2 ∧ a.Passes e)
      (a.Stops e) s := by
  cases e with
  | call c => exact hg.ewp_call hv he hp
  | resume =>
      refine ewp_mono (hg.ewp_resume hv he) ?_ fun _ hf => hf
      rintro r s' ⟨hr, hv'⟩
      exact ⟨hr, hv', trivial⟩
  | switch =>
      have hrunq : a.RunqOk := fun i t ht =>
        Slot.runnable_of_place (hg.inv.mem_place ht)
      refine ewp_bind_of (ewp_switchRound hv hrunq) ?_
      intro _ s1 hv1
      exact ⟨rfl, hv1, trivial⟩

end Abs.Good

end CodingSample.Uthreads
