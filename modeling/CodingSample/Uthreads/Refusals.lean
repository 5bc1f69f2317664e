import CodingSample.Uthreads.Joining
import Mathlib.Logic.Relation

/-!
# What a join refuses

The guards of `uthread_join` look at the `ut_waiter` of the caller. Compared with what the function
is meant to answer, they are right as long as the threads keep off each other's targets.
-/

namespace CodingSample.Uthreads

open Prog

variable {M C : Type} [DecidableEq M] [DecidableEq C] {s s' : Machine M C} {a : Abs M C}
  {c : Core M C} {t u w : Nat} {uid : Int} {e : Event M C} {r : Option Ret} {tr : List (Moment M C)}

/-! ### Relations with a source -/

section Source

variable {α : Type} {R R' : α → α → Prop} {x y v : α}

/-- New edges out of a place that no edge leads to make no new path from elsewhere. -/
theorem transGen_of_source (hold : ∀ x y, x ≠ v → R' x y → R x y) (hv : ∀ x, ¬ R' x v)
    (hx : x ≠ v) (h : Relation.TransGen R' x y) : Relation.TransGen R x y := by
  induction h with
  | single hxy => exact .single (hold x _ hx hxy)
  | tail hpath hstep ih =>
      refine .tail ih (hold _ _ ?_ hstep)
      rintro rfl
      obtain ⟨z, -, hz⟩ := Relation.TransGen.tail'_iff.mp hpath
      exact hv z hz

theorem acyclic_of_source (hacyclic : ∀ x, ¬ Relation.TransGen R x x)
    (hold : ∀ x y, x ≠ v → R' x y → R x y) (hv : ∀ x, ¬ R' x v) (x : α) :
    ¬ Relation.TransGen R' x x := by
  intro hcycle
  refine hacyclic x (transGen_of_source hold hv ?_ hcycle)
  rintro rfl
  obtain ⟨z, -, hz⟩ := Relation.TransGen.tail'_iff.mp hcycle
  exact hv z hz

end Source

/-! ### What a join is meant to answer -/

namespace Core

variable (c)

/-- Thread `w` has called `uthread_join` of thread `t` and has not returned. -/
def InJoin (w t : Nat) : Prop :=
  w < uthMaxUthreads ∧ (c.uthreads w).Alive ∧ c.utCtx w = .join t

/-- Thread `w` is blocked joining thread `t`. -/
def Blocked (w t : Nat) : Prop := w < uthMaxUthreads ∧ c.state w = .wait ∧ c.utCtx w = .join t

/-- Thread `t` is detached, or another thread waits to join it. -/
def Taken (t : Nat) : Prop :=
  (c.uthreads t).utDetached = true ∨ ∃ w, w ≠ c.utCurthr ∧ c.InJoin w t

/-- Thread `t` is the current thread or waits for it through a chain of joins. -/
def Closes (t : Nat) : Prop := Relation.ReflTransGen c.Blocked t c.utCurthr

/-- The answer to a join of thread `t`; a join that waits returns at once when `t` has exited. -/
structure Refuses (t : Nat) (r : Option Ret) : Prop where
  einval : r = some (einval, 0) ↔ c.Taken t
  edeadlk : ¬ c.Taken t → (r = some (edeadlk, 0) ↔ c.Closes t)
  waits : ¬ c.Taken t → ¬ c.Closes t →
    r = if (c.uthreads t).utHasExited then some (0, (c.uthreads t).utExit) else none

/-! ### What it answers -/

/-- The answer of `uthread_join` to a join of thread `t`. -/
def joinAnswer (t : Nat) : Option Ret :=
  if c.cur.utWaiter = some t then some (edeadlk, 0)
  else if c.cur.utWaiter ≠ none ∨ (c.uthreads t).utDetached then some (einval, 0)
  else if (c.uthreads t).utHasExited then some (0, (c.uthreads t).utExit)
  else none

/-- Nobody waits for the caller, and the target is detached, or another thread than the caller for
which nobody waits; or the target waits for the caller, is not detached and nobody waits for it; or
another thread waits for the caller, and the target is detached or waited for. -/
def Meets (t : Nat) : Prop :=
  match c.cur.utWaiter with
  | none => (c.uthreads t).utDetached = true ∨ (c.uthreads t).utWaiter = none ∧ t ≠ c.utCurthr
  | some w =>
      if w = t then (c.uthreads t).utDetached = false ∧ (c.uthreads t).utWaiter = none
      else (c.uthreads t).utDetached = true ∨ (c.uthreads t).utWaiter ≠ none

end Core

omit [DecidableEq M] [DecidableEq C] in
theorem Core.Blocked.inJoin (h : c.Blocked w t) : c.InJoin w t := by
  obtain ⟨hw, hstate, hctx⟩ := h
  refine ⟨hw, ?_, hctx⟩
  unfold Uthread.Alive
  rw [show (c.uthreads w).utState = .wait from hstate]
  exact ⟨nofun, nofun⟩

theorem wlp_joinLoop (uid : Nat) :
    wlp (joinLoop uid : U M C (Option Ret))
      (fun r _ => r = if (s.core.uthreads uid).utHasExited then
        some (0, (s.core.uthreads uid).utExit) else none) s := by
  have hany {α : Type} (m : U M C α) (s : Machine M C) : wlp m (fun _ _ => True) s :=
    fun _ _ _ => trivial
  rw [joinLoop, wlp_bind]
  rintro _ _ ⟨⟩
  split
  · rename_i hexit
    refine wlp_bind_of (hany _ _) fun _ _ _ => wlp_pure.mpr ?_
    rw [hexit]
    rfl
  · rename_i hexit
    refine wlp_bind_of (hany _ _) fun _ _ _ => ?_
    refine wlp_bind_of (hany _ _) fun _ _ _ => wlp_pure.mpr ?_
    rw [if_pos (by simpa using hexit)]

omit [DecidableEq M] [DecidableEq C] in
theorem wlp_failWith (errno : Int) :
    wlp (do let errno ← failWith errno; pure (some (errno, 0)) : U M C (Option Ret))
      (fun r _ => r = some (errno, 0)) s := by
  rw [wlp_bind, failWith, wlp_bind]
  intro _ _ _
  exact wlp_pure.mpr (wlp_pure.mpr rfl)

/-- The answer depends on the caller, its waiter and the target only. -/
theorem wlp_uthreadJoin {uid : Int} (hthread : ¬ NoThread s.core uid) :
    wlp (uthreadJoin uid) (fun r _ => r = s.core.joinAnswer uid.toNat) s := by
  rw [uthreadJoin, wlp_bind]
  rintro _ _ ⟨⟩
  rw [wlp_bind, assert, wlp_check]
  intro _
  rw [if_neg hthread]
  unfold Core.joinAnswer
  split
  · exact wlp_failWith edeadlk
  · split
    · exact wlp_failWith einval
    · rw [wlp_bind]
      rintro _ _ ⟨⟩
      refine wlp_mono (wlp_joinLoop uid.toNat) ?_
      rintro _ _ rfl
      simp [Core.setThread]

/-! ### The waiters -/

/-- The `ut_waiter` of a thread that is not detached is in `uthread_join` of it. -/
def WaitersOk (c : Core M C) : Prop :=
  ∀ t w, t < uthMaxUthreads → c.state t ≠ .noState → (c.uthreads t).utDetached = false →
    (c.uthreads t).utWaiter = some w → c.InJoin w t

omit [DecidableEq M] [DecidableEq C] in
/-- A thread in `uthread_join` is the `ut_waiter` of its target. -/
theorem JoinsOk.waiter (hok : JoinsOk tr s) (h : s.core.InJoin w t) :
    (s.core.uthreads t).utWaiter = some w :=
  (hok w t h.1 h.2.1 h.2.2).waiter

omit [DecidableEq M] [DecidableEq C] in
/-- The waiter of the running thread is blocked joining it. -/
theorem Machine.Sound.closes_waiter (hs : s.Sound) (hsw : s.core.switching = false)
    (hw : s.core.cur.utWaiter = some w) : s.core.Closes w := by
  obtain ⟨hlt, hon⟩ := hs.good.cur hsw
  have hwlt : w < uthMaxUthreads := (hs.good.inv.own _ hlt).waiter w hw
  have hwait := (hs.good.inv.pair _ w hlt hwlt).waiting (Abs.Inv.alive_of_onCpu hon) hw
  exact .single ⟨hwlt, hwait⟩

section Answer

variable (hok : JoinsOk tr s) (hwaiters : WaitersOk s.core)

include hok

omit [DecidableEq M] [DecidableEq C] in
/-- No thread waits for a thread without a `ut_waiter`. -/
theorem closes_iff_self (hw : s.core.cur.utWaiter = none) :
    s.core.Closes t ↔ t = s.core.utCurthr := by
  constructor
  · intro hpath
    rcases Relation.ReflTransGen.cases_tail_iff _ _ _ |>.mp hpath with heq | ⟨u, -, hu⟩
    · exact heq.symm
    · have hnone : s.core.cur.utWaiter = some u := hok.waiter hu.inJoin
      cases hw.symm.trans hnone
  · rintro rfl
    exact .refl

include hwaiters

omit [DecidableEq M] [DecidableEq C] in
/-- Where the target is not detached, somebody waits for it exactly if it has a `ut_waiter`. -/
theorem taken_iff (huser : s.core.utCtx s.core.utCurthr = .user) (ht : t < uthMaxUthreads)
    (hstate : s.core.state t ≠ .noState) : s.core.Taken t ↔
      (s.core.uthreads t).utDetached = true ∨ (s.core.uthreads t).utWaiter ≠ none := by
  unfold Core.Taken
  by_cases hdet : (s.core.uthreads t).utDetached = true
  · exact iff_of_true (Or.inl hdet) (Or.inl hdet)
  · rw [or_iff_right hdet, or_iff_right hdet]
    constructor
    · rintro ⟨w, -, hw⟩
      rw [hok.waiter hw]
      nofun
    · intro hne
      obtain ⟨w, hw⟩ := Option.ne_none_iff_exists'.mp hne
      have hin := hwaiters t w ht hstate (Bool.not_eq_true _ ▸ hdet) hw
      refine ⟨w, ?_, hin⟩
      rintro rfl
      rw [hin.2.2] at huser
      cases huser

omit [DecidableEq M] [DecidableEq C] in
/-- The answer is the one that is meant exactly if the threads concerned meet the condition. -/
theorem refuses_iff (hs : s.Sound) (hsw : s.core.switching = false)
    (huser : s.core.utCtx s.core.utCurthr = .user) (ht : t < uthMaxUthreads)
    (hstate : s.core.state t ≠ .noState) :
    s.core.Refuses t (s.core.joinAnswer t) ↔ s.core.Meets t := by
  have htaken := taken_iff hok hwaiters huser ht hstate
  unfold Core.joinAnswer Core.Meets
  cases hw : s.core.cur.utWaiter with
  | some w =>
      by_cases hwt : w = t
      · subst hwt
        have hcloses := hs.closes_waiter hsw hw
        simp only [if_true]
        constructor
        · intro hr
          have hfree : ¬ s.core.Taken w := by
            rw [← hr.einval]
            simp
          rw [htaken] at hfree
          simpa using hfree
        · intro hmeets
          have hfree : ¬ s.core.Taken w := by
            rw [htaken]
            simpa using hmeets
          exact ⟨iff_of_false (by simp) hfree, fun _ => iff_of_true rfl hcloses,
            fun _ hno => absurd hcloses hno⟩
      · have hanswer : (if some w = some t then some (edeadlk, 0)
            else if some w ≠ none ∨ (s.core.uthreads t).utDetached then some (einval, 0)
            else if (s.core.uthreads t).utHasExited then some (0, (s.core.uthreads t).utExit)
            else none : Option Ret) = some (einval, 0) := by
          simp [hwt]
        rw [hanswer]
        simp only [if_neg hwt]
        rw [← htaken]
        constructor
        · intro hr
          exact hr.einval.mp rfl
        · intro hin
          exact ⟨iff_of_true rfl hin, fun hno => absurd hin hno, fun hno => absurd hin hno⟩
  | none =>
      have hcloses : s.core.Closes t ↔ t = s.core.utCurthr := closes_iff_self hok hw
      by_cases hdet : (s.core.uthreads t).utDetached = true
      · have hin : s.core.Taken t := Or.inl hdet
        simp only [hdet, reduceCtorEq, if_false, or_true, if_true, true_or, iff_true]
        exact ⟨iff_of_true rfl hin, fun hno => absurd hin hno, fun hno => absurd hin hno⟩
      · have hanswer : (if none = some t then some (edeadlk, 0)
            else if (none : Option Nat) ≠ none ∨ (s.core.uthreads t).utDetached then
              some (einval, 0)
            else if (s.core.uthreads t).utHasExited then some (0, (s.core.uthreads t).utExit)
            else none : Option Ret) = if (s.core.uthreads t).utHasExited then
              some (0, (s.core.uthreads t).utExit) else none := by
          simp [hdet]
        have hgoes {x : Int} (hx : x ≠ 0) : (if (s.core.uthreads t).utHasExited then
            some (0, (s.core.uthreads t).utExit) else none : Option Ret) ≠ some (x, 0) := by
          split
          · simp [hx.symm]
          · nofun
        rw [hanswer]
        rw [or_iff_right hdet]
        constructor
        · intro hr
          have hfree : ¬ s.core.Taken t := fun hin => hgoes (by decide) (hr.einval.mpr hin)
          have hopen : ¬ s.core.Closes t := fun hin =>
            hgoes (by decide) ((hr.edeadlk hfree).mpr hin)
          rw [htaken, or_iff_right hdet, Classical.not_not] at hfree
          exact ⟨hfree, fun heq => hopen (hcloses.mpr heq)⟩
        · rintro ⟨hnone, hne⟩
          have hfree : ¬ s.core.Taken t := by
            rw [htaken, or_iff_right hdet, Classical.not_not]
            exact hnone
          have hopen : ¬ s.core.Closes t := fun hin => hne (hcloses.mp hin)
          exact ⟨iff_of_false (hgoes (by decide)) hfree,
            fun _ => iff_of_false (hgoes (by decide)) hopen, fun _ _ => rfl⟩

end Answer

/-! ### Runs -/

/-- No thread locks a mutex it owns, every join meets the condition, and no thread that another one
joins is detached. -/
def Fair (c : Core M C) (e : Event M C) : Prop :=
  match e with
  | .call (.lock m) => c.mOwner m ≠ some c.utCurthr
  | .call (.join uid) => ¬ NoThread c uid → c.Meets uid.toNat
  | .call (.detach uid) => Detaches c uid → (c.uthreads uid.toNat).utWaiter = none
  | _ => True

omit [DecidableEq M] [DecidableEq C] in
/-- A join that passes the checks is of another thread, for which nobody waits. -/
theorem Core.Meets.target (hjoin : Joins c uid) (hmeets : c.Meets uid.toNat) :
    (c.uthreads uid.toNat).utWaiter = none ∧ uid.toNat ≠ c.utCurthr := by
  unfold Core.Meets at hmeets
  rw [hjoin.2.1] at hmeets
  exact hmeets.resolve_left (by simp [hjoin.2.2])

omit [DecidableEq M] [DecidableEq C] in
theorem Fair.unshared (h : Fair c e) : Unshared c e := by
  constructor
  · cases e with
    | call call =>
        cases call with
        | lock m => exact h
        | join uid => exact fun hjoin => (Core.Meets.target hjoin (h hjoin.1)).1
        | _ => trivial
    | _ => trivial
  · rintro uid rfl
    exact h

/-- Where a thread starts to wait, it called `uthread_join`. -/
theorem Machine.Sound.joins_of_leaves (hs : s.Sound) (he : e.Enabled s.core)
    (hp : Allowed s.core e) (hrun : e.run s = .ok (none, s')) (hleaves : e.leaves s.core = .join t) :
    ∃ uid : Int, e = .call (.join uid) ∧ uid.toNat = t := by
  cases e with
  | call c =>
      cases c with
      | join uid => exact ⟨uid, rfl, Ctx.join.inj hleaves⟩
      | _ => cases hleaves
  | resume =>
      obtain ⟨hrun', -⟩ := hs.step he hp hrun
      have hctx : s.core.utCtx s.core.utCurthr = .join t := by
        simp only [Event.leaves] at hleaves
        split at hleaves
        · cases hleaves
        · exact hleaves
      have hloop := (hs.good.joins he.1 hctx).1
      have hctx : s.abs.core.utCtx s.abs.core.utCurthr = .join t := hctx
      change none = s.abs.resume.1 at hrun'
      rw [Abs.resume, hctx] at hrun'
      simp only [hloop] at hrun'
      cases hrun'
  | switch => cases hleaves

/-- A thread that is in `uthread_join` after an event was in it before, or calls it. -/
theorem inJoin_back (hs : s.Sound) (he : e.Enabled s.core) (hp : Fair s.core e)
    (hrun : e.run s = .ok (r, s')) (h : s'.core.InJoin w t) :
    s.core.InJoin w t ∨ w = s.core.utCurthr ∧
      ∃ uid : Int, e = .call (.join uid) ∧ uid.toNat = t ∧ r = none := by
  obtain ⟨hw, halive, hctx⟩ := h
  have hallowed := hp.unshared.allowed
  by_cases hc : (Moment.mk s e r s').created = some w
  · have hfresh := (hs.created he hallowed hrun hc).2.2.2.2.2
    rw [hfresh] at hctx
    cases hctx
  have halive' := (hs.recChange he hallowed hrun w).alive halive (Moment.new_of_not_created hc)
  cases hs.ctxChange he hallowed hrun w with
  | same hu hk => exact Or.inl ⟨hw, halive', hk.symm.trans hctx⟩
  | returned hu hr hk => exact Ctx.noConfusion rfl rfl (heq_of_eq (hk.symm.trans hctx))
  | left hu hr hne hk =>
      subst hr
      obtain ⟨uid, he', ht⟩ := hs.joins_of_leaves he hallowed hrun (hk.symm.trans hctx)
      exact Or.inr ⟨hu, uid, he', ht, rfl⟩
  | created hbefore hk => exact absurd hbefore halive'.1
  | reaped hmem hk => exact Ctx.noConfusion rfl rfl (heq_of_eq (hk.symm.trans hctx))

/-- A join that does not return has passed the checks. -/
theorem Machine.Sound.joins_of_waits (hs : s.Sound)
    (he : Event.Enabled s.core (.call (.join uid))) (hp : Allowed s.core (.call (.join uid)))
    (hrun : Event.run (.call (.join uid)) s = .ok (none, s')) : Joins s.core uid := by
  cases hs.recChange he hp hrun uid.toNat with
  | steady hnot h => exact absurd ⟨rfl, nofun⟩ hnot
  | joining uid' he' hr hu hjoin hexit hafter =>
      cases he'
      exact hjoin
  | created prio he' => cases he'
  | exited status he' => cases he'
  | joined uid' he' hr' => cases hr'
  | detached uid' he' => cases he'
  | rejoined he' => cases he'
  | reaped he' => cases he'

theorem acyclic_step (hs : s.Sound) (hok : JoinsOk tr s) (he : e.Enabled s.core)
    (hp : Fair s.core e) (hrun : e.run s = .ok (r, s'))
    (hacyclic : ∀ t, ¬ Relation.TransGen s.core.InJoin t t) (t : Nat) :
    ¬ Relation.TransGen s'.core.InJoin t t := by
  by_cases hwaits : (∃ uid : Int, e = .call (.join uid)) ∧ r = none
  · obtain ⟨⟨uid, rfl⟩, rfl⟩ := hwaits
    have hjoin := hs.joins_of_waits he hp.unshared.allowed hrun
    refine acyclic_of_source (v := s.core.utCurthr) hacyclic ?_ ?_ t
    · intro x y hx hxy
      exact (inJoin_back hs he hp hrun hxy).resolve_right fun h => hx h.1
    · intro x hx
      rcases inJoin_back hs he hp hrun hx with hx | ⟨-, uid', he', heq, -⟩
      · have hwaiter : s.core.cur.utWaiter = some x := hok.waiter hx
        cases hjoin.2.1.symm.trans hwaiter
      · cases he'
        exact (Core.Meets.target hjoin (hp hjoin.1)).2 heq
  · intro hcycle
    refine hacyclic t (Relation.TransGen.mono ?_ _ _ hcycle)
    intro x y hxy
    refine (inJoin_back hs he hp hrun hxy).resolve_right ?_
    rintro ⟨-, uid, he', -, hr⟩
    exact hwaits ⟨⟨uid, he'⟩, hr⟩

/-- A thread in `uthread_join` stays alive. -/
theorem inJoin_alive (hs : s.Sound) (he : e.Enabled s.core) (hp : Allowed s.core e)
    (hrun : e.run s = .ok (r, s')) (halive : (s.core.uthreads w).Alive)
    (hexit : ∀ status, e = .call (.exit status) → w ≠ s.core.utCurthr) :
    (s'.core.uthreads w).Alive := by
  have hforth {r₀ : Uthread} (hsteady : r₀.Steady (s'.core.uthreads w))
      (hstate : r₀.utState = s.core.state w) : (s'.core.uthreads w).Alive := by
    refine ⟨fun hno => halive.1 ?_, fun hz => halive.2 ?_⟩
    · exact hstate.symm.trans (hsteady.noState.mp hno)
    · exact hstate.symm.trans (hsteady.zombie.mp hz)
  cases hs.recChange he hp hrun w with
  | steady _ h => exact hforth h rfl
  | created prio he' hr hlt hbefore => exact absurd hbefore halive.1
  | exited status he' hu => exact absurd hu (hexit status he')
  | joining uid he' hr hu hjoin hex hafter => exact hforth hafter rfl
  | joined uid he' hr hu hjoin hex hafter => exact hforth hafter rfl
  | detached uid he' hr hu hthread hcur hdet hafter => exact hforth hafter rfl
  | rejoined he' hctx hr hafter => exact hforth hafter rfl
  | reaped he' hctx hmem hafter =>
      exact absurd (Slot.zombie_of_place (hs.good.inv.mem_place hmem)).1 halive.2

/-- A waiter stays in `uthread_join` until its target is detached, and a new one goes in. -/
theorem WaitersOk.step (hs : s.Sound) (hwaiters : WaitersOk s.core) (he : e.Enabled s.core)
    (hp : Fair s.core e) (hrun : e.run s = .ok (r, s')) : WaitersOk s'.core := by
  have hallowed := hp.unshared.allowed
  intro t w ht hstate hdet hw
  -- the waiter was in `uthread_join` of `t` before, and `t` is not what the event is about
  have hkeep (hin : s.core.InJoin w t)
      (hresume : e = .resume → s.core.utCtx s.core.utCurthr ≠ .join t) : s'.core.InJoin w t := by
    obtain ⟨hwlt, halive, hctx⟩ := hin
    have hcall : ∀ call, e = .call call → w ≠ s.core.utCurthr := by
      rintro call rfl rfl
      cases he.2.symm.trans hctx
    have hother : e ≠ .switch → w ≠ s.core.utCurthr := by
      intro hne heq
      cases e with
      | call call => exact hcall call rfl heq
      | resume => exact hresume rfl (heq ▸ hctx)
      | switch => exact hne rfl
    refine ⟨hwlt, ?_, ?_⟩
    · exact inJoin_alive hs he hallowed hrun halive fun status h => hcall _ h
    · cases hs.ctxChange he hallowed hrun w with
      | same _ hk => exact hk.trans hctx
      | returned hu hr hk =>
          refine absurd hu (hother ?_)
          rintro rfl
          exact hr (hs.step he hallowed hrun).1
      | left hu hr hne hk => exact absurd hu (hother hne)
      | created hbefore hk => exact absurd hbefore halive.1
      | reaped hmem hk =>
          exact absurd (Slot.zombie_of_place (hs.good.inv.mem_place hmem)).1 halive.2
  cases hs.recChange he hallowed hrun t with
  | steady hnot h =>
      refine hkeep (hwaiters t w ht ?_ (h.detached.symm.trans hdet) (h.waiter.symm.trans hw)) ?_
      · exact fun hno => hstate (h.noState.mpr hno)
      · rintro rfl hctx
        exact hnot (Or.inl hctx)
  | created prio he' hr hlt hbefore hafter =>
      rw [hafter] at hw
      cases hw
  | exited status he' hu hafter =>
      subst he' hu
      obtain ⟨hlt, hon⟩ := hs.good.cur he.1
      refine hkeep (hwaiters _ w ht ?_ (hafter.detached.symm.trans hdet)
        (hafter.waiter.symm.trans hw)) nofun
      intro hno
      cases hon.symm.trans hno
  | joining uid he' hr hu hjoin hexit hafter =>
      subst he' hr hu
      obtain ⟨hlt, hon⟩ := hs.good.cur he.1
      have halive := Abs.Inv.alive_of_onCpu hon
      obtain rfl : s.core.utCurthr = w := Option.some.inj (hafter.waiter.symm.trans hw)
      refine ⟨hlt, inJoin_alive hs he hallowed hrun halive nofun, ?_⟩
      cases hs.ctxChange he hallowed hrun s.core.utCurthr with
      | same hne hk => exact absurd rfl (hne nofun)
      | returned hu hr hk => exact absurd rfl hr
      | left hu hr hne hk => exact hk
      | created hbefore hk => exact absurd hbefore halive.1
      | reaped hmem hk =>
          exact absurd (Slot.zombie_of_place (hs.good.inv.mem_place hmem)).1 halive.2
  | joined uid he' hr hu hjoin hexit hafter => cases hafter.detached.symm.trans hdet
  | detached uid he' hr hu hthread hcur hd hafter => cases hafter.detached.symm.trans hdet
  | rejoined he' hctx hr hafter => cases hafter.detached.symm.trans hdet
  | reaped he' hctx hmem hafter =>
      rw [hafter] at hw
      cases hw

/-- The event leaves the `ut_waiter` of a thread alone, unless the slot is wiped or given to a new
thread. -/
def Moment.KeepsWaiters (m : Moment M C) : Prop :=
  ∀ t w, (m.before.core.uthreads t).utWaiter = some w →
    (m.after.core.uthreads t).utWaiter = some w ∨ m.after.core.state t = .noState ∨
      m.created = some t

theorem keepsWaiters_step (hs : s.Sound) (he : e.Enabled s.core) (hp : Fair s.core e)
    (hrun : e.run s = .ok (r, s')) : (Moment.mk s e r s').KeepsWaiters := by
  intro t w hw
  have hfree {uid : Int} (hjoin : Joins s.core uid) (he' : e = .call (.join uid))
      (ht : t = uid.toNat) : False := by
    subst he' ht
    cases hw.symm.trans (Core.Meets.target hjoin (hp hjoin.1)).1
  cases hs.recChange he hp.unshared.allowed hrun t with
  | steady hnot h => exact Or.inl (h.waiter.trans hw)
  | created prio he' hr hlt hbefore hafter =>
      exact Or.inr (Or.inr (Moment.created_eq_some.mpr ⟨_, _, he', hr, rfl, rfl⟩))
  | exited status he' hu hafter =>
      subst hu
      exact Or.inl (hafter.waiter.trans hw)
  | joining uid he' hr hu hjoin hexit hafter => exact (hfree hjoin he' hu).elim
  | joined uid he' hr hu hjoin hexit hafter => exact (hfree hjoin he' hu).elim
  | detached uid he' hr hu hthread hcur hd hafter => exact Or.inl (hafter.waiter.trans hw)
  | rejoined he' hctx hr hafter => exact Or.inl (hafter.waiter.trans hw)
  | reaped he' hctx hmem hafter =>
      exact Or.inr (Or.inl (congrArg Uthread.utState hafter))

/-- The state of a run of fair events. -/
structure FairRun (tr : List (Moment M C)) (s : Machine M C) : Prop where
  sound : s.Sound
  joins : JoinsOk tr s
  waiters : WaitersOk s.core
  acyclic : ∀ t, ¬ Relation.TransGen s.core.InJoin t t
  kept : ∀ m ∈ tr, m.KeepsWaiters

omit [DecidableEq M] [DecidableEq C] in
theorem Abs.not_inJoin_initial : ¬ (Abs.initial : Abs M C).core.InJoin w t :=
  fun h => (Abs.idle_initial h.1).2.1 t h.2.2

theorem fairRun_started : FairRun [] (started : Machine M C) := by
  have hcore : (started : Machine M C).core = (Abs.initial : Abs M C).core :=
    congrArg Abs.core abs_started
  refine ⟨sound_started, ?_, ?_, ?_, nofun⟩
  · intro w t hw halive hctx
    rw [hcore] at halive hctx
    exact absurd ⟨hw, halive, hctx⟩ Abs.not_inJoin_initial
  · intro t w ht hstate hdet hw
    rw [hcore] at hw
    have hnone : ((Abs.initial : Abs M C).core.uthreads t).utWaiter = none :=
      (Abs.idle_initial (M := M) (C := C) ht).1
    cases hnone.symm.trans hw
  · intro t hcycle
    obtain ⟨u, hu, -⟩ := Relation.TransGen.head'_iff.mp hcycle
    rw [hcore] at hu
    exact Abs.not_inJoin_initial hu

theorem Run.fair (hrun : Run Fair started tr s) : FairRun tr s := by
  induction hrun with
  | start => exact fairRun_started
  | step hrun he hp hok ih =>
      obtain ⟨hs, hjoins, hwaiters, hacyclic, hkept⟩ := ih
      refine ⟨(hs.step he hp.unshared.allowed hok).2.2.2, hjoins.step hs he hp.unshared hok,
        hwaiters.step hs he hp hok, acyclic_step hs hjoins he hp hok hacyclic, ?_⟩
      intro m hm
      rcases List.mem_cons.mp hm with rfl | hm
      · exact keepsWaiters_step hs he hp hok
      · exact hkept m hm

theorem Machine.Sound.wp_join_iff (hs : s.Sound) (hjoins : JoinsOk tr s)
    (hwaiters : WaitersOk s.core) (he : Event.Enabled s.core (.call (.join uid)))
    (hthread : ¬ NoThread s.core uid) :
    wp (uthreadJoin uid) (fun r _ => s.core.Refuses uid.toNat r) s ↔ s.core.Meets uid.toNat := by
  obtain ⟨hlt, hstate⟩ := Abs.lt_of_thread hthread
  have hiff := refuses_iff hjoins hwaiters hs he.1 he.2 hlt hstate
  have hanswer := wlp_uthreadJoin hthread
  constructor
  · rintro ⟨r, s', hrun, hr⟩
    rw [hanswer r s' hrun] at hr
    exact hiff.mp hr
  · intro hmeets
    have hfair : Fair s.core (.call (.join uid)) := fun _ => hmeets
    obtain ⟨s', hrun, -⟩ := hs.extend he hfair.unshared.allowed fun _ h => h
    refine ⟨_, s', hrun, ?_⟩
    rw [hanswer _ s' hrun]
    exact hiff.mpr hmeets

/-- In every run of fair events, a join of an existing thread answers as it is meant to exactly if
it meets the condition, no threads join each other in a circle, and no `ut_waiter` is
overwritten. -/
theorem join_refuses (hrun : Run Fair started tr s) :
    (∀ uid : Int, Event.Enabled s.core (.call (.join uid)) → ¬ NoThread s.core uid →
      (wp (uthreadJoin uid) (fun r _ => s.core.Refuses uid.toNat r) s ↔
        s.core.Meets uid.toNat)) ∧
    (∀ t, ¬ Relation.TransGen s.core.Blocked t t) ∧ ∀ m ∈ tr, m.KeepsWaiters := by
  obtain ⟨hs, hjoins, hwaiters, hacyclic, hkept⟩ := hrun.fair
  refine ⟨fun uid => hs.wp_join_iff hjoins hwaiters, ?_, hkept⟩
  intro t hcycle
  refine hacyclic t (Relation.TransGen.mono ?_ _ _ hcycle)
  exact fun _ _ => Core.Blocked.inJoin

/-- Thread 1 joins thread 2. -/
theorem join_refuses_waits : ∃ (tr : List (Moment Unit Unit)) (s : Machine Unit Unit),
    tr.length = 2 ∧ s.core.Blocked 1 2 ∧ ∀ t, ¬ Relation.TransGen s.core.Blocked t t := by
  have hf : (Abs.initial : Abs Unit Unit).Follows Fair [.call (.create 7), .call (.join 2)] := by
    refine ⟨⟨rfl, rfl⟩, trivial, trivial, fun f h => h.2 (by decide), ?_⟩
    exact ⟨⟨rfl, rfl⟩, fun _ => Or.inr ⟨rfl, by decide⟩, fun _ _ => rfl, fun f h => h, trivial⟩
  obtain ⟨tr, s, hrun, -, habs, hevents⟩ := Run.of_events hf
  refine ⟨tr, s, ?_, ⟨by decide, ?_, ?_⟩, (join_refuses hrun).2.1⟩
  · rw [← List.length_map, hevents]
    rfl
  · exact congrArg (fun a => a.core.state 1) habs
  · exact congrArg (fun a => a.core.utCtx 1) habs

/-- Thread 2 joins itself and waits for itself. -/
theorem join_self : ∃ (tr : List (Moment Unit Unit)) (s : Machine Unit Unit),
    Run (fun _ _ => True) started tr s ∧ s.core.Blocked 2 2 ∧
      ¬ ∀ t, ¬ Relation.TransGen s.core.Blocked t t := by
  have hf : (Abs.initial : Abs Unit Unit).Follows (fun _ _ => True)
      [.call (.create 7), .call .yield, .switch, .call (.join 2)] := by
    refine ⟨⟨rfl, rfl⟩, trivial, trivial, fun f h => h.2 (by decide), ?_⟩
    refine ⟨⟨rfl, rfl⟩, trivial, trivial, fun f h => h, ?_⟩
    refine ⟨rfl, trivial, trivial, fun f h => h, ?_⟩
    exact ⟨⟨rfl, rfl⟩, trivial, fun _ _ => rfl, fun f h => h, trivial⟩
  obtain ⟨tr, s, hrun, -, habs, -⟩ := Run.of_events hf
  have hblocked : s.core.Blocked 2 2 := by
    refine ⟨by decide, ?_, ?_⟩
    · exact congrArg (fun a => a.core.state 2) habs
    · exact congrArg (fun a => a.core.utCtx 2) habs
  exact ⟨tr, s, hrun, hblocked, fun hno => hno 2 (.single hblocked)⟩

end CodingSample.Uthreads
