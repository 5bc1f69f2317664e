import CodingSample.Uthreads.Joining

/-!
# Mutexes

`uthread_mtx_unlock` makes the thread that waited longest the owner before that thread runs again,
and `uthread_mtx_lock` does not look at the owner when it wakes up. So the owner of a mutex either
runs its own code or is on its way out of `uthread_mtx_lock`.
-/

namespace CodingSample.Uthreads

open Prog

variable {M C : Type} [DecidableEq M] [DecidableEq C] {s s' : Machine M C} {a : Abs M C}
  {t u : Nat} {m : M} {e : Event M C} {r : Option Ret} {tr : List (Moment M C)}

/-! ### The history of a run -/

/-- The mutex that the current thread has when the moment returns. -/
def Moment.acquired (x : Moment M C) : Option M :=
  match x.event, x.ret with
  | .call (.lock m), some _ => some m
  | .call (.trylock m), some ret => if ret.1 = 1 then some m else none
  | .resume, some _ =>
      match x.before.core.utCtx x.before.core.utCurthr with
      | .lock m | .condWait _ m => some m
      | _ => none
  | _, _ => none

/-- The mutex that the current thread starts to wait for. -/
def Moment.awaits (x : Moment M C) : Option M :=
  match x.ret with
  | none => x.event.locks x.before.core
  | some _ => none

/-- The mutex that the current thread has waited for when the moment returns. -/
def Moment.obtains (x : Moment M C) : Option M :=
  match x.event, x.ret with
  | .resume, some _ =>
      match x.before.core.utCtx x.before.core.utCurthr with
      | .lock m => some m
      | _ => none
  | _, _ => none

/-- Thread `t` is between a successful `lock`, `trylock` or `cond_wait` of mutex `m` and its next
`unlock` or `cond_wait`. -/
def Holds : List (Moment M C) → M → Nat → Prop
  | [], _, _ => False
  | x :: tr, m, t => x.acquired = some m ∧ x.before.core.utCurthr = t ∨
      Holds tr m t ∧ ¬ (x.event.unlocks = some m ∧ x.before.core.utCurthr = t)

/-- Thread `t` called `lock` of mutex `m` and has not returned. -/
def Locking : List (Moment M C) → M → Nat → Prop
  | [], _, _ => False
  | x :: tr, m, t => x.awaits = some m ∧ x.before.core.utCurthr = t ∨
      Locking tr m t ∧ ¬ (x.obtains = some m ∧ x.before.core.utCurthr = t)

/-- The threads that had to wait for mutex `m`, the last one first. -/
def blocked : List (Moment M C) → M → List Nat
  | [], _ => []
  | x :: tr, m =>
      if x.awaits = some m then x.before.core.utCurthr :: blocked tr m else blocked tr m

/-- The threads that returned from `lock` after they had to wait, the last one first. -/
def obtained : List (Moment M C) → M → List Nat
  | [], _ => []
  | x :: tr, m =>
      if x.obtains = some m then x.before.core.utCurthr :: obtained tr m else obtained tr m

/-- The thread that was made the owner of mutex `m` and has not returned from `lock`. -/
def Machine.handed (s : Machine M C) (m : M) : List Nat :=
  match s.core.mOwner m with
  | some t => if s.core.utCtx t = .lock m then [t] else []
  | none => []

/-! ### What the callers keep to -/

/-- No thread locks a mutex it owns or exits while it owns one, and a zombie that another thread
is about to join is not joined a second time. -/
def Polite (c : Core M C) (e : Event M C) : Prop :=
  Allowed c e ∧ ∀ status, e = .call (.exit status) → ∀ m, c.mOwner m ≠ some c.utCurthr

/-- An event of a run. -/
structure Happens (s : Machine M C) (e : Event M C) (r : Option Ret) (s' : Machine M C) :
    Prop where
  sound : s.Sound
  enabled : e.Enabled s.core
  polite : Polite s.core e
  ok : e.run s = .ok (r, s')

namespace Happens

variable (h : Happens s e r s')

include h

theorem recChange (u : Nat) : s.abs.RecChange e r u (s'.core.uthreads u) :=
  h.sound.recChange h.enabled h.polite.1 h.ok u

theorem ctxChange (u : Nat) : s.abs.CtxChange e r u (s'.core.utCtx u) :=
  h.sound.ctxChange h.enabled h.polite.1 h.ok u

theorem stateChange (u : Nat) : s.abs.StateChange e r u (s'.core.state u) :=
  h.sound.stateChange h.enabled h.polite.1 h.ok u

theorem mtxChange (m : M) : s.abs.MtxChange e r m (s'.core.mOwner m) (s'.list (.mtx m)) :=
  h.sound.mtxChange h.enabled h.polite.1 h.ok m

theorem sound' : s'.Sound := (h.sound.step h.enabled h.polite.1 h.ok).2.2.2

theorem cur (hne : e ≠ .switch) : s.core.utCurthr < uthMaxUthreads ∧
    s.core.state s.core.utCurthr = .onCpu := by
  cases e with
  | call c => exact h.sound.good.cur h.enabled.1
  | resume => exact h.sound.good.cur h.enabled.1
  | switch => exact absurd rfl hne

theorem alive_cur (hne : e ≠ .switch) : (s.core.uthreads s.core.utCurthr).Alive :=
  Abs.Inv.alive_of_onCpu (a := s.abs) (h.cur hne).2

/-- A thread unlocks a mutex it owns. -/
theorem owner_of_unlocks (hm : e.unlocks = some m) :
    s.core.mOwner m = some s.core.utCurthr ∧ s.core.utCtx s.core.utCurthr = .user := by
  have hpass := (h.sound.step h.enabled h.polite.1 h.ok).2.2.1
  cases e with
  | call c =>
      cases c with
      | unlock m' => cases hm; exact ⟨hpass, h.enabled.2⟩
      | condWait c m' => cases hm; exact ⟨hpass, h.enabled.2⟩
      | _ => cases hm
  | resume => cases hm
  | switch => cases hm

/-- The current thread of a call runs its own code. -/
theorem resume_of_ctx (hne : e ≠ .switch) (hctx : s.core.utCtx s.core.utCurthr ≠ .user) :
    e = .resume := by
  cases e with
  | call c => exact absurd h.enabled.2 hctx
  | resume => rfl
  | switch => exact absurd rfl hne

/-- A thread that was made the owner returns from `lock`. -/
theorem ret_of_lock (he : e = .resume) (hctx : s.core.utCtx s.core.utCurthr = .lock m) :
    r ≠ none := by
  subst he
  have hr := (h.sound.step h.enabled h.polite.1 h.ok).1
  have hctx : s.abs.core.utCtx s.abs.core.utCurthr = .lock m := hctx
  change r = s.abs.resume.1 at hr
  rw [Abs.resume, hctx] at hr
  rw [hr]
  rintro ⟨⟩

/-- A thread lives until it exits. -/
theorem alive (halive : (s.core.uthreads t).Alive)
    (hexit : ∀ status, e = .call (.exit status) → t ≠ s.core.utCurthr) :
    (s'.core.uthreads t).Alive := by
  have hstate {x : UthreadState} (hx : s'.core.state t = x) (h1 : x ≠ .noState)
      (h2 : x ≠ .zombie) : (s'.core.uthreads t).Alive :=
    ⟨fun hno => h1 (hx.symm.trans hno), fun hz => h2 (hx.symm.trans hz)⟩
  cases h.stateChange t with
  | same hu hx => exact hstate hx halive.1 halive.2
  | woken hb why hx => exact hstate hx nofun nofun
  | scheduled he hb hx => exact hstate hx nofun nofun
  | left hu hr hne hx =>
      rcases hx with hx | ⟨-, hx⟩ | ⟨⟨status, he⟩, -⟩
      · exact hstate hx nofun nofun
      · exact hstate hx nofun nofun
      · exact absurd hu (hexit status he)
  | created hb hx => exact hstate hx nofun nofun
  | reaped hmem hx =>
      exact absurd (Slot.zombie_of_place (h.sound.good.inv.mem_place hmem)).1 halive.2

theorem ctx_of_created (hc : (Moment.mk s e r s').created = some t) :
    s'.core.utCtx t = .user :=
  (h.sound.created h.enabled h.polite.1 h.ok hc).2.2.2.2.2

theorem alive_before (halive : (s'.core.uthreads t).Alive)
    (hc : (Moment.mk s e r s').created ≠ some t) : (s.core.uthreads t).Alive :=
  (h.recChange t).alive halive (Moment.new_of_not_created hc)

end Happens

/-! ### Owners and waiting threads -/

/-- What holds of the mutexes in every state of a run. -/
structure Machine.LocksOk (s : Machine M C) : Prop where
  alive : ∀ m t, s.core.mOwner m = some t → (s.core.uthreads t).Alive
  free : ∀ m, s.core.mOwner m = none → s.list (.mtx m) = []
  other : ∀ m t, t ∈ s.list (.mtx m) → s.core.mOwner m ≠ some t
  handed : ∀ m t, s.core.state t = .runnable ∨ s.core.state t = .onCpu →
    s.core.utCtx t = .lock m → s.core.mOwner m = some t

namespace Machine.LocksOk

theorem alive_step (hl : s.LocksOk) (h : Happens s e r s') (hown : s'.core.mOwner m = some t) :
    (s'.core.uthreads t).Alive := by
  have hold (hown : s.core.mOwner m = some t) : (s'.core.uthreads t).Alive := by
    refine h.alive (hl.alive m t hown) ?_
    rintro status he rfl
    exact h.polite.2 status he m hown
  cases h.mtxChange m with
  | same hlocks hunlocks htries howner hlist => exact hold (howner.symm.trans hown)
  | blocked he hr hused hother howner hlist => exact hold (howner.symm.trans hown)
  | taken he hfree howner hlist =>
      cases howner.symm.trans hown
      have hne : e ≠ .switch := by
        rintro rfl
        rcases he with ⟨he, -⟩ | ⟨he, -⟩ <;> cases he
      refine h.alive (h.alive_cur hne) ?_
      rintro status rfl
      rcases he with ⟨he, -⟩ | ⟨he, -⟩ <;> cases he
  | handed he howner hlist =>
      have hmem := List.mem_of_getLast? (howner.symm.trans hown)
      have hwait := (h.sound.good.inv.ctx_of_mtx hmem).1
      refine h.alive (Abs.Inv.alive_of_wait (a := s.abs) hwait) ?_
      rintro status rfl
      cases he

theorem free_step (hl : s.LocksOk) (h : Happens s e r s') (hfree : s'.core.mOwner m = none) :
    s'.list (.mtx m) = [] := by
  cases h.mtxChange m with
  | same hlocks hunlocks htries howner hlist =>
      rw [hlist]
      exact hl.free m (howner.symm.trans hfree)
  | blocked he hr hused hother howner hlist => exact absurd (howner.symm.trans hfree) hused
  | taken he hfree' howner hlist => cases howner.symm.trans hfree
  | handed he howner hlist =>
      rw [hlist, List.getLast?_eq_none_iff.mp (howner.symm.trans hfree)]
      rfl

theorem other_step (hl : s.LocksOk) (h : Happens s e r s') (hmem : t ∈ s'.list (.mtx m)) :
    s'.core.mOwner m ≠ some t := by
  cases h.mtxChange m with
  | same hlocks hunlocks htries howner hlist =>
      rw [hlist] at hmem
      rw [howner]
      exact hl.other m t hmem
  | blocked he hr hused hother howner hlist =>
      rw [howner]
      rcases List.mem_cons.mp (hlist ▸ hmem) with rfl | hmem
      · exact hother
      · exact hl.other m t hmem
  | taken he hfree howner hlist =>
      rw [hlist] at hmem
      have hnil := hl.free m hfree
      have hmem : t ∈ s.list (.mtx m) := hmem
      rw [hnil] at hmem
      cases hmem
  | handed he howner hlist =>
      rw [howner]
      intro hlast
      obtain ⟨xs, hxs⟩ := List.getLast?_eq_some_iff.mp hlast
      have hnodup : (s.list (.mtx m)).Nodup := h.sound.view.rings.nodup _
      have hxs : s.list (.mtx m) = xs ++ [t] := hxs
      have hlist : s'.list (.mtx m) = (s.list (.mtx m)).dropLast := hlist
      rw [hlist, hxs, List.dropLast_concat] at hmem
      rw [hxs] at hnodup
      exact (List.nodup_append.mp hnodup).2.2 t hmem t List.mem_cons_self rfl

/-- A thread that waits in `lock` is made the owner when it is woken. -/
theorem woken (h : Happens s e r s') (hctx : s.core.utCtx t = .lock m)
    (hwait : s.core.state t = .wait) (why : s.abs.Wakes e t) : s'.core.mOwner m = some t := by
  have hi := h.sound.good.inv
  cases why with
  | unlock m' he hlast =>
      have hctx' := (hi.ctx_of_mtx (List.mem_of_getLast? hlast)).2
      cases hctx.symm.trans hctx'
      have hunlocks : e.unlocks = some m := by
        rcases he with rfl | ⟨c, rfl⟩ <;> rfl
      cases h.mtxChange m with
      | same hlocks hno htries howner hlist => exact absurd hunlocks hno
      | blocked hl => rcases he with rfl | ⟨c, rfl⟩ <;> cases hl
      | taken hl =>
          rcases he with rfl | ⟨c, rfl⟩ <;> rcases hl with ⟨hl, -⟩ | ⟨hl, -⟩ <;> cases hl
      | handed hu howner hlist => exact howner.trans hlast
  | signal c he hlast =>
      obtain ⟨-, m', hctx'⟩ := hi.ctx_of_cond (List.mem_of_getLast? hlast)
      cases hctx.symm.trans hctx'
  | broadcast c he hmem =>
      obtain ⟨-, m', hctx'⟩ := hi.ctx_of_cond hmem
      cases hctx.symm.trans hctx'
  | exit status he hwaiter =>
      subst he
      have hctx' := (hi.waiter_cur (h.sound.good.running h.enabled) hwaiter).2.2
      cases hctx.symm.trans hctx'
  | reaper hu =>
      subst hu
      have hctx' := ((hi.own _ hi.reaper_lt).reaper (Abs.Inv.alive_of_wait hwait)).mpr rfl
      cases hctx.symm.trans hctx'

theorem handed_same (h : Happens s e r s') (hu : e ≠ .switch → t ≠ s.core.utCurthr)
    (hown : s.core.mOwner m = some t) : s'.core.mOwner m = some t := by
  cases h.mtxChange m with
  | same hlocks hunlocks htries howner hlist => exact howner.trans hown
  | blocked he hr hused hother howner hlist => exact howner.trans hown
  | taken he hfree howner hlist => cases hfree.symm.trans hown
  | handed he howner hlist =>
      have hcur := (h.owner_of_unlocks he).1
      have hne : e ≠ .switch := by
        rintro rfl
        cases he
      exact absurd (Option.some.inj (hown.symm.trans hcur)) (hu hne)

theorem handed_step (hl : s.LocksOk) (h : Happens s e r s')
    (hrun : s'.core.state t = .runnable ∨ s'.core.state t = .onCpu)
    (hctx : s'.core.utCtx t = .lock m) : s'.core.mOwner m = some t := by
  have hc : (Moment.mk s e r s').created ≠ some t := by
    intro hc
    cases hctx.symm.trans (h.ctx_of_created hc)
  have halive' : (s'.core.uthreads t).Alive := by
    rcases hrun with hrun | hrun
    · exact Abs.Inv.alive_of_runnable (a := s'.abs) hrun
    · exact Abs.Inv.alive_of_onCpu (a := s'.abs) hrun
  have halive := h.alive_before halive' hc
  cases h.ctxChange t with
  | same hu hk =>
      have hctx : s.core.utCtx t = .lock m := hk.symm.trans hctx
      cases h.stateChange t with
      | same _ hx =>
          exact handed_same h hu (hl.handed m t (hx ▸ hrun) hctx)
      | woken hb why hx => exact woken h hctx hb why
      | scheduled he hb hx => exact handed_same h hu (hl.handed m t (Or.inl hb) hctx)
      | left hcur hr hne hx => exact absurd hcur (hu hne)
      | created hb hx => exact absurd hb halive.1
      | reaped hmem hx =>
          exact absurd (Slot.zombie_of_place (h.sound.good.inv.mem_place hmem)).1 halive.2
  | returned hu hr hk => cases hk.symm.trans hctx
  | created hb hk => exact absurd hb halive.1
  | reaped hmem hk => cases hk.symm.trans hctx
  | left hu hr hne hk =>
      -- a thread that starts to wait in `lock` is not runnable
      subst hu
      exfalso
      have hon := (h.cur hne).2
      cases h.stateChange s.core.utCurthr with
      | same hno hx => exact hno hne hr rfl
      | woken hb why hx => exact UthreadState.noConfusion (hb.symm.trans hon)
      | scheduled he hb hx => exact hne he
      | created hb hx => exact UthreadState.noConfusion (hb.symm.trans hon)
      | reaped hmem hx =>
          exact absurd (Slot.zombie_of_place (h.sound.good.inv.mem_place hmem)).1 halive.2
      | left _ _ _ hx =>
          rcases hx with hx | ⟨he, -⟩ | ⟨⟨status, he⟩, -⟩
          · rcases hrun with hrun | hrun
            · exact UthreadState.noConfusion (hx.symm.trans hrun)
            · exact UthreadState.noConfusion (hx.symm.trans hrun)
          · subst he
            cases hk.symm.trans hctx
          · subst he
            cases hk.symm.trans hctx

theorem step (hl : s.LocksOk) (h : Happens s e r s') : s'.LocksOk where
  alive _ _ hown := hl.alive_step h hown
  free _ hfree := hl.free_step h hfree
  other _ _ hmem := hl.other_step h hmem
  handed _ _ hrun hctx := hl.handed_step h hrun hctx

end Machine.LocksOk

/-! ### Locks and the history -/

omit [DecidableEq M] [DecidableEq C] in
theorem Moment.acquired_cases (hx : (Moment.mk s e r s').acquired = some m) :
    e.locks s.core = some m ∧ r ≠ none ∨ e.tries = some m ∧ r ≠ some (0, 0) ∨
      e = .resume ∧ s.core.utCtx s.core.utCurthr = .lock m := by
  unfold Moment.acquired at hx
  split at hx
  · rename_i m' ret he hr
    cases he
    cases hr
    cases hx
    exact Or.inl ⟨rfl, nofun⟩
  · rename_i m' ret he hr
    cases he
    cases hr
    rw [Option.ite_none_right_eq_some] at hx
    obtain ⟨hone, ⟨rfl⟩⟩ := hx
    refine Or.inr (Or.inl ⟨rfl, ?_⟩)
    rintro ⟨rfl⟩
    cases hone
  · rename_i ret he hr
    cases he
    cases hr
    split at hx
    · rename_i m' hctx
      cases hx
      exact Or.inr (Or.inr ⟨rfl, hctx⟩)
    · rename_i c m' hctx
      cases hx
      have hctx : s.core.utCtx s.core.utCurthr = .condWait c m := hctx
      refine Or.inl ⟨?_, nofun⟩
      simp only [Event.locks, hctx]
    · cases hx
  · cases hx

omit [DecidableEq M] [DecidableEq C] in
theorem Moment.awaits_iff : (Moment.mk s e r s').awaits = some m ↔
    r = none ∧ e.locks s.core = some m := by
  cases r with
  | none => simp [Moment.awaits]
  | some ret => simp [Moment.awaits]

omit [DecidableEq M] [DecidableEq C] in
theorem Moment.obtains_iff : (Moment.mk s e r s').obtains = some m ↔
    e = .resume ∧ r ≠ none ∧ s.core.utCtx s.core.utCurthr = .lock m := by
  unfold Moment.obtains
  split
  · rename_i ret he hr
    cases he
    cases hr
    split
    · rename_i m' hctx
      have hctx : s.core.utCtx s.core.utCurthr = .lock m' := hctx
      rw [hctx]
      constructor
      · rintro ⟨rfl⟩
        exact ⟨rfl, nofun, rfl⟩
      · rintro ⟨-, -, ⟨rfl⟩⟩
        rfl
    · rename_i hno
      refine iff_of_false nofun ?_
      rintro ⟨-, -, hctx⟩
      exact hno m hctx
  · rename_i hno
    refine iff_of_false nofun ?_
    rintro ⟨he, hr, -⟩
    obtain ⟨ret, hret⟩ := Option.ne_none_iff_exists'.mp hr
    exact hno ret he hret

namespace Happens

/-- The thread that starts to wait goes on in `lock`. -/
theorem leaves_iff (h : Happens s e r s') (hr : r = none) :
    e.leaves s.core = .lock m ↔ e.locks s.core = some m := by
  cases e with
  | call c =>
      cases c with
      | lock m' =>
          change Ctx.lock m' = Ctx.lock m ↔ some m' = some m
          rw [Ctx.lock.injEq, Option.some_inj]
      | _ => exact iff_of_false (by rintro ⟨⟩) (by rintro ⟨⟩)
  | resume =>
      have hno (m' : M) (hctx : s.core.utCtx s.core.utCurthr = .lock m') : False :=
        h.ret_of_lock rfl hctx hr
      simp only [Event.leaves, Event.locks]
      cases hctx : s.core.utCtx s.core.utCurthr with
      | condWait c m' =>
          simp only []
          rw [Ctx.lock.injEq, Option.some_inj]
      | lock m' => exact (hno m' hctx).elim
      | _ => exact iff_of_false (by rintro ⟨⟩) (by rintro ⟨⟩)
  | switch => exact iff_of_false (by rintro ⟨⟩) (by rintro ⟨⟩)

/-- A thread that holds a mutex is its owner. -/
theorem holds (h : Happens s e r s') (hl : s.LocksOk)
    (hold : ∀ m t, Holds tr m t → s.core.mOwner m = some t)
    (hx : Holds (⟨s, e, r, s'⟩ :: tr) m t) : s'.core.mOwner m = some t := by
  rcases hx with ⟨hacq, hcur⟩ | ⟨hbefore, hno⟩
  · have hcur : s.core.utCurthr = t := hcur
    subst hcur
    rcases Moment.acquired_cases hacq with ⟨hlocks, hr⟩ | ⟨htries, hr⟩ | ⟨he, hctx⟩
    · cases h.mtxChange m with
      | same hno _ _ _ _ => exact absurd hlocks hno
      | taken _ _ howner _ => exact howner
      | blocked _ hnone _ _ _ _ => exact absurd hnone hr
      | handed hu _ _ =>
          cases e with
          | call c => cases c <;> cases hu <;> cases hlocks
          | resume => cases hu
          | switch => cases hu
    · cases h.mtxChange m with
      | same _ _ hno _ _ => exact absurd (hno htries) hr
      | taken _ _ howner _ => exact howner
      | blocked hlocks _ _ _ _ _ =>
          cases e with
          | call c =>
              cases c <;> cases htries
              cases hlocks
          | resume => cases htries
          | switch => cases htries
      | handed hu _ _ =>
          cases e with
          | call c => cases c <;> cases hu <;> cases htries
          | resume => cases hu
          | switch => cases hu
    · subst he
      have hon := (h.cur nofun).2
      have hown := hl.handed m _ (Or.inr hon) hctx
      cases h.mtxChange m with
      | same _ _ _ howner _ => exact howner.trans hown
      | taken _ hfree _ _ => cases hfree.symm.trans hown
      | blocked _ _ _ _ howner _ => exact howner.trans hown
      | handed hu _ _ => cases hu
  · have hown := hold m t hbefore
    cases h.mtxChange m with
    | same _ _ _ howner _ => exact howner.trans hown
    | taken _ hfree _ _ => cases hfree.symm.trans hown
    | blocked _ _ _ _ howner _ => exact howner.trans hown
    | handed hu _ _ =>
        have hcur := (h.owner_of_unlocks hu).1
        exact absurd ⟨hu, Option.some.inj (hcur.symm.trans hown)⟩ hno

/-- A thread is in `lock` if its context says so. -/
theorem locking (h : Happens s e r s')
    (hold : ∀ m t, Locking tr m t ↔ (s.core.uthreads t).Alive ∧ s.core.utCtx t = .lock m) :
    Locking (⟨s, e, r, s'⟩ :: tr) m t ↔
      (s'.core.uthreads t).Alive ∧ s'.core.utCtx t = .lock m := by
  constructor
  · rintro (⟨hawaits, hcur⟩ | ⟨hbefore, hno⟩)
    · obtain ⟨hr, hlocks⟩ := Moment.awaits_iff.mp hawaits
      have hcur : s.core.utCurthr = t := hcur
      subst hcur
      have hne : e ≠ .switch := by
        rintro rfl
        cases hlocks
      have halive := h.alive_cur hne
      refine ⟨h.alive halive ?_, ?_⟩
      · rintro status rfl
        cases hlocks
      · cases h.ctxChange s.core.utCurthr with
        | same hu hk => exact absurd rfl (hu hne)
        | returned hu hret hk => exact absurd hr hret
        | left hu _ _ hk => exact hk.trans ((h.leaves_iff hr).mpr hlocks)
        | created hb hk => exact absurd hb halive.1
        | reaped hmem hk =>
            exact absurd (Slot.zombie_of_place (h.sound.good.inv.mem_place hmem)).1 halive.2
    · obtain ⟨halive, hctx⟩ := (hold m t).mp hbefore
      have hresume (hne : e ≠ .switch) (hu : t = s.core.utCurthr) : e = .resume := by
        refine h.resume_of_ctx hne ?_
        rw [← hu, hctx]
        nofun
      refine ⟨h.alive halive ?_, ?_⟩
      · rintro status rfl hu
        cases hresume nofun hu
      · cases h.ctxChange t with
        | same hu hk => exact hk.trans hctx
        | returned hu hret hk =>
            have hne : e ≠ .switch := by
              rintro rfl
              exact hret (h.sound.step h.enabled h.polite.1 h.ok).1
            have he := hresume hne hu
            exact absurd ⟨Moment.obtains_iff.mpr ⟨he, hret, hu ▸ hctx⟩, hu.symm⟩ hno
        | left hu hr hne hk => exact absurd hr (h.ret_of_lock (hresume hne hu) (hu ▸ hctx))
        | created hb hk => exact absurd hb halive.1
        | reaped hmem hk =>
            exact absurd (Slot.zombie_of_place (h.sound.good.inv.mem_place hmem)).1 halive.2
  · rintro ⟨halive', hctx⟩
    have hc : (Moment.mk s e r s').created ≠ some t := by
      intro hc
      cases hctx.symm.trans (h.ctx_of_created hc)
    have halive := h.alive_before halive' hc
    cases h.ctxChange t with
    | same hu hk =>
        refine Or.inr ⟨(hold m t).mpr ⟨halive, hk.symm.trans hctx⟩, ?_⟩
        rintro ⟨hobt, hcur⟩
        obtain ⟨he, -⟩ := Moment.obtains_iff.mp hobt
        exact hu (by rw [he]; nofun) hcur.symm
    | returned hu hret hk => cases hk.symm.trans hctx
    | left hu hr hne hk =>
        exact Or.inl ⟨Moment.awaits_iff.mpr ⟨hr, (h.leaves_iff hr).mp (hk.symm.trans hctx)⟩,
          hu.symm⟩
    | created hb hk => exact absurd hb halive.1
    | reaped hmem hk => cases hk.symm.trans hctx

end Happens

/-! ### First come, first served -/

omit [DecidableEq C] in
theorem blocked_cons (x : Moment M C) : blocked (x :: tr) m =
    if x.awaits = some m then x.before.core.utCurthr :: blocked tr m else blocked tr m := rfl

omit [DecidableEq C] in
theorem obtained_cons (x : Moment M C) : obtained (x :: tr) m =
    if x.obtains = some m then x.before.core.utCurthr :: obtained tr m else obtained tr m := rfl

theorem Machine.handed_of_none (hown : s.core.mOwner m = none) : s.handed m = [] := by
  rw [Machine.handed, hown]

theorem Machine.handed_of_some (hown : s.core.mOwner m = some t) :
    s.handed m = if s.core.utCtx t = .lock m then [t] else [] := by
  rw [Machine.handed, hown]

namespace Happens

/-- The owner of a mutex that the event leaves alone. -/
theorem handed_same (h : Happens s e r s') (hl : s.LocksOk) (hlocks : e.locks s.core ≠ some m)
    (howner : s'.core.mOwner m = s.core.mOwner m) :
    s'.handed m ++ obtained (⟨s, e, r, s'⟩ :: tr) m = s.handed m ++ obtained tr m := by
  have hreturns (hobt : (Moment.mk s e r s').obtains = some m) :
      s.core.mOwner m = some s.core.utCurthr := by
    obtain ⟨rfl, hr, hctx⟩ := Moment.obtains_iff.mp hobt
    exact hl.handed m _ (Or.inr (h.cur nofun).2) hctx
  rw [obtained_cons]
  cases hown : s.core.mOwner m with
  | none =>
      have hno : (Moment.mk s e r s').obtains ≠ some m := by
        intro hobt
        cases hown.symm.trans (hreturns hobt)
      rw [if_neg hno, Machine.handed_of_none hown, Machine.handed_of_none (howner.trans hown)]
  | some t =>
      have halive := hl.alive m t hown
      rw [Machine.handed_of_some hown, Machine.handed_of_some (howner.trans hown)]
      cases h.ctxChange t with
      | same hu hk =>
          have hno : (Moment.mk s e r s').obtains ≠ some m := by
            intro hobt
            have hcur := Option.some.inj (hown.symm.trans (hreturns hobt))
            refine hu ?_ hcur
            rw [(Moment.obtains_iff.mp hobt).1]
            nofun
          have hk : s'.core.utCtx t = s.core.utCtx t := hk
          rw [if_neg hno, hk]
      | returned hu hr hk =>
          rw [hk, if_neg nofun]
          have hne : e ≠ .switch := by
            rintro rfl
            exact hr (h.sound.step h.enabled h.polite.1 h.ok).1
          have hu : t = s.core.utCurthr := hu
          by_cases hctx : s.core.utCtx t = .lock m
          · have hresume : e = .resume := by
              refine h.resume_of_ctx hne ?_
              rw [← hu, hctx]
              nofun
            have hobt : (Moment.mk s e r s').obtains = some m :=
              Moment.obtains_iff.mpr ⟨hresume, hr, hu ▸ hctx⟩
            rw [if_pos hctx, if_pos hobt, hu]
            rfl
          · have hno : (Moment.mk s e r s').obtains ≠ some m := by
              intro hobt
              exact hctx (hu ▸ (Moment.obtains_iff.mp hobt).2.2)
            rw [if_neg hctx, if_neg hno]
      | left hu hr hne hk =>
          have hu : t = s.core.utCurthr := hu
          have hno : (Moment.mk s e r s').obtains ≠ some m := by
            intro hobt
            exact (Moment.obtains_iff.mp hobt).2.1 hr
          have hctx : s.core.utCtx t ≠ .lock m := by
            intro hctx
            have hresume : e = .resume := by
              refine h.resume_of_ctx hne ?_
              rw [← hu, hctx]
              nofun
            exact h.ret_of_lock hresume (hu ▸ hctx) hr
          have hctx' : s'.core.utCtx t ≠ .lock m := by
            rw [hk]
            exact fun hleaves => hlocks ((h.leaves_iff hr).mp hleaves)
          rw [if_neg hno, if_neg hctx, if_neg hctx']
      | created hb hk => exact absurd hb halive.1
      | reaped hmem hk =>
          exact absurd (Slot.zombie_of_place (h.sound.good.inv.mem_place hmem)).1 halive.2

/-- The context of a thread that is not the current one and lives. -/
theorem ctx_of_ne (h : Happens s e r s') (halive : (s.core.uthreads t).Alive)
    (hu : t ≠ s.core.utCurthr) : s'.core.utCtx t = s.core.utCtx t := by
  cases h.ctxChange t with
  | same _ hk => exact hk
  | returned hcur _ _ => exact absurd hcur hu
  | left hcur _ _ _ => exact absurd hcur hu
  | created hb hk => exact absurd hb halive.1
  | reaped hmem hk =>
      exact absurd (Slot.zombie_of_place (h.sound.good.inv.mem_place hmem)).1 halive.2

/-- The threads that had to wait for a mutex get it in the order in which they asked for it. -/
theorem order (h : Happens s e r s') (hl : s.LocksOk)
    (hold : blocked tr m = s.list (.mtx m) ++ s.handed m ++ obtained tr m) :
    blocked (⟨s, e, r, s'⟩ :: tr) m =
      s'.list (.mtx m) ++ s'.handed m ++ obtained (⟨s, e, r, s'⟩ :: tr) m := by
  rw [blocked_cons]
  cases h.mtxChange m with
  | same hlocks hunlocks htries howner hlist =>
      have hno : (Moment.mk s e r s').awaits ≠ some m := fun ha =>
        hlocks (Moment.awaits_iff.mp ha).2
      rw [if_neg hno, hlist, List.append_assoc, h.handed_same hl hlocks howner, hold,
        List.append_assoc]
      rfl
  | taken he hfree howner hlist =>
      have hr : r ≠ none := by
        rcases he with ⟨-, hr⟩ | ⟨-, hr⟩
        · exact hr
        · rw [hr]
          nofun
      have hne : e ≠ .switch := by
        rintro rfl
        exact hr (h.sound.step h.enabled h.polite.1 h.ok).1
      have hno : (Moment.mk s e r s').awaits ≠ some m := fun ha =>
        hr (Moment.awaits_iff.mp ha).1
      have hno' : (Moment.mk s e r s').obtains ≠ some m := by
        intro hobt
        obtain ⟨rfl, -, hctx⟩ := Moment.obtains_iff.mp hobt
        have hown := hl.handed m _ (Or.inr (h.cur nofun).2) hctx
        cases hfree.symm.trans hown
      have hctx : s'.core.utCtx s.core.utCurthr ≠ .lock m := by
        cases h.ctxChange s.core.utCurthr with
        | same hu hk => exact absurd rfl (hu hne)
        | returned _ _ hk => rw [hk]; nofun
        | left _ hnone _ _ => exact absurd hnone hr
        | created hb hk => rw [hk]; nofun
        | reaped hmem hk => rw [hk]; nofun
      have hhanded : s'.handed m = [] :=
        (Machine.handed_of_some howner).trans (if_neg hctx)
      rw [if_neg hno, hlist, hhanded, obtained_cons, if_neg hno', hold,
        Machine.handed_of_none hfree]
      rfl
  | blocked he hr hused hother howner hlist =>
      have hno' : (Moment.mk s e r s').obtains ≠ some m := fun hobt =>
        (Moment.obtains_iff.mp hobt).2.1 hr
      obtain ⟨t, hown⟩ := Option.ne_none_iff_exists'.mp hused
      have hown : s.core.mOwner m = some t := hown
      have hne : t ≠ s.core.utCurthr := by
        rintro rfl
        exact hother hown
      have hctx := h.ctx_of_ne (hl.alive m t hown) hne
      have hhanded : s'.handed m = s.handed m := by
        rw [Machine.handed_of_some hown, Machine.handed_of_some (howner.trans hown), hctx]
      rw [if_pos (Moment.awaits_iff.mpr ⟨hr, he⟩), hlist, hhanded, obtained_cons, if_neg hno', hold]
      rfl
  | handed he howner hlist =>
      obtain ⟨hown, huser⟩ := h.owner_of_unlocks he
      have hlocks : e.locks s.core = none := by
        cases e with
        | call c => cases c <;> cases he <;> rfl
        | resume => cases he
        | switch => cases he
      have hno : (Moment.mk s e r s').awaits ≠ some m := by
        intro ha
        cases hlocks.symm.trans (Moment.awaits_iff.mp ha).2
      have hno' : (Moment.mk s e r s').obtains ≠ some m := by
        intro hobt
        cases huser.symm.trans (Moment.obtains_iff.mp hobt).2.2
      have hnone : s.handed m = [] := by
        rw [Machine.handed_of_some hown, huser, if_neg nofun]
      rw [if_neg hno, hlist, obtained_cons, if_neg hno', hold, hnone, List.append_nil]
      congr 1
      rcases List.eq_nil_or_concat (s.list (.mtx m)) with hq | ⟨xs, t, hq⟩
      · have howner : s'.core.mOwner m = none := by
          rw [howner]
          exact List.getLast?_eq_none_iff.mpr hq
        rw [Machine.handed_of_none howner, List.append_nil]
        change s.list (.mtx m) = (s.list (.mtx m)).dropLast
        rw [hq]
        rfl
      · rw [List.concat_eq_append] at hq
        have howner : s'.core.mOwner m = some t := by
          rw [howner]
          change (s.list (.mtx m)).getLast? = some t
          rw [hq, List.getLast?_concat]
        have hmem : t ∈ s.list (.mtx m) := by
          rw [hq]
          simp
        obtain ⟨hwait, hctx⟩ := h.sound.good.inv.ctx_of_mtx (a := s.abs) hmem
        have hne : t ≠ s.core.utCurthr := by
          rintro rfl
          cases huser.symm.trans hctx
        have hctx' := h.ctx_of_ne (Abs.Inv.alive_of_wait (a := s.abs) hwait) hne
        have hctx : s.core.utCtx t = .lock m := hctx
        rw [Machine.handed_of_some howner, hctx', if_pos hctx]
        change s.list (.mtx m) = (s.list (.mtx m)).dropLast ++ [t]
        rw [hq, List.dropLast_concat]

end Happens

/-! ### Every run -/

/-- A thread that holds a mutex is its owner; the threads in `lock` are the ones in the queue and
at most one other, the owner that the mutex was handed to; a mutex without an owner has no
waiting threads; and the waiting threads get the mutex in the order in which they came. -/
structure MutexOk (tr : List (Moment M C)) (s : Machine M C) : Prop where
  holder : ∀ m t, Holds tr m t → s.core.mOwner m = some t
  locking : ∀ m t, t < uthMaxUthreads → (Locking tr m t ↔ t ∈ s.list (.mtx m) ∨
    s.core.mOwner m = some t ∧ s.core.utCtx t = .lock m ∧
      (s.core.state t = .runnable ∨ s.core.switching = false ∧ t = s.core.utCurthr))
  asleep : ∀ m t, t ∈ s.list (.mtx m) → s.core.state t = .wait ∧ s.core.mOwner m ≠ some t
  free : ∀ m, s.core.mOwner m = none → s.list (.mtx m) = []
  order : ∀ m, blocked tr m = s.list (.mtx m) ++ s.handed m ++ obtained tr m

/-- What a run keeps about the mutexes. -/
structure LockHistory (tr : List (Moment M C)) (s : Machine M C) : Prop where
  locks : s.LocksOk
  holds : ∀ m t, Holds tr m t → s.core.mOwner m = some t
  locking : ∀ m t, Locking tr m t ↔ (s.core.uthreads t).Alive ∧ s.core.utCtx t = .lock m
  order : ∀ m, blocked tr m = s.list (.mtx m) ++ s.handed m ++ obtained tr m

theorem Happens.of_run (hrun : Run Polite started tr s) (he : e.Enabled s.core)
    (hp : Polite s.core e) (hok : e.run s = .ok (r, s')) : Happens s e r s' :=
  ⟨hrun.sound fun _ _ h => h.1, he, hp, hok⟩

theorem Run.lockHistory (hrun : Run Polite started tr s) : LockHistory tr s := by
  induction hrun with
  | start =>
      have hcore : (started : Machine M C).core = (Abs.initial : Abs M C).core :=
        congrArg Abs.core abs_started
      have hlist : (started : Machine M C).list = (Abs.initial : Abs M C).q :=
        congrArg Abs.q abs_started
      have hctx (m : M) (t : Nat) : (started : Machine M C).core.utCtx t ≠ .lock m := by
        rw [hcore]
        change (if t = 0 then Ctx.reaper else if t = 1 then .user else .none) ≠ _
        split
        · nofun
        split <;> nofun
      refine ⟨⟨?_, ?_, ?_, ?_⟩, nofun, ?_, ?_⟩
      · rw [hcore]
        nofun
      · rw [hlist]
        exact fun _ _ => rfl
      · rw [hlist]
        nofun
      · exact fun m t _ h => absurd h (hctx m t)
      · exact fun m t => iff_of_false nofun fun h => hctx m t h.2
      · intro m
        have hown : (started : Machine M C).core.mOwner m = none := by
          rw [hcore]
          rfl
        rw [hlist, Machine.handed_of_none hown]
        rfl
  | step hrun he hp hok ih =>
      have h := Happens.of_run hrun he hp hok
      obtain ⟨hl, hholds, hlocking, horder⟩ := ih
      exact ⟨hl.step h, fun _ _ hx => h.holds hl hholds hx, fun _ _ => h.locking hlocking,
        fun _ => h.order hl (horder _)⟩

theorem LockHistory.locking_iff (hh : LockHistory tr s) (hs : s.Sound) (ht : t < uthMaxUthreads) :
    Locking tr m t ↔ t ∈ s.list (.mtx m) ∨
      s.core.mOwner m = some t ∧ s.core.utCtx t = .lock m ∧
        (s.core.state t = .runnable ∨ s.core.switching = false ∧ t = s.core.utCurthr) := by
  have hon := hs.good.cpu.2 t ht
  have hi := hs.good.inv
  rw [hh.locking]
  constructor
  · rintro ⟨halive, hctx⟩
    cases hstate : s.core.state t with
    | noState => exact absurd hstate halive.1
    | zombie => exact absurd hstate halive.2
    | wait =>
        refine Or.inl ((hi.queued _ t).mpr ⟨ht, ?_⟩)
        rw [Slot.place_of_wait hstate]
        change (s.core.utCtx t).queue = _
        rw [hctx]
        rfl
    | runnable =>
        exact Or.inr ⟨hh.locks.handed m t (Or.inl hstate) hctx, hctx, Or.inl rfl⟩
    | onCpu =>
        exact Or.inr ⟨hh.locks.handed m t (Or.inr hstate) hctx, hctx, Or.inr (hon.mp hstate)⟩
  · rintro (hmem | ⟨-, hctx, hrun⟩)
    · obtain ⟨hwait, hctx⟩ := hi.ctx_of_mtx (a := s.abs) hmem
      exact ⟨Abs.Inv.alive_of_wait (a := s.abs) hwait, hctx⟩
    · refine ⟨?_, hctx⟩
      rcases hrun with hrun | hcur
      · exact Abs.Inv.alive_of_runnable (a := s.abs) hrun
      · exact Abs.Inv.alive_of_onCpu (a := s.abs) (hon.mpr hcur)

/-- In every run in which no thread locks a mutex it owns or exits while it owns one, the mutexes
are handed from one thread to the next. -/
theorem mutex_handoff (hrun : Run Polite started tr s) : MutexOk tr s := by
  have hs := hrun.sound fun _ _ h => h.1
  have hh := hrun.lockHistory
  refine ⟨hh.holds, fun m t ht => hh.locking_iff hs ht, ?_, hh.locks.free, hh.order⟩
  exact fun m t hmem => ⟨(hs.good.inv.ctx_of_mtx (a := s.abs) hmem).1, hh.locks.other m t hmem⟩

/-- Thread 1 locks the mutex, thread 2 waits for it, and thread 1 hands it over. -/
theorem mutex_handoff_two : ∃ (tr : List (Moment Unit Unit)) (s : Machine Unit Unit),
    tr.length = 8 ∧ s.core.mOwner () = some 2 ∧ MutexOk tr s := by
  have hf : (Abs.initial : Abs Unit Unit).Follows Polite
      [.call (.create 7), .call (.lock ()), .call .yield, .switch, .call (.lock ()), .switch,
        .resume, .call (.unlock ())] := by
    refine ⟨⟨rfl, rfl⟩, ⟨trivial, nofun⟩, trivial, fun f h => h.2 (by decide), ?_⟩
    refine ⟨⟨rfl, rfl⟩, ⟨nofun, nofun⟩, nofun, fun f h => h, ?_⟩
    refine ⟨⟨rfl, rfl⟩, ⟨trivial, nofun⟩, trivial, fun f h => h, ?_⟩
    refine ⟨rfl, ⟨trivial, nofun⟩, trivial, fun f h => h, ?_⟩
    refine ⟨⟨rfl, rfl⟩, ⟨fun h => absurd h (by decide), nofun⟩, fun h => absurd h (by decide),
      fun f h => h, ?_⟩
    refine ⟨rfl, ⟨trivial, nofun⟩, trivial, fun f h => h, ?_⟩
    refine ⟨⟨rfl, nofun⟩, ⟨trivial, nofun⟩, trivial, fun f h => absurd h.2.1 (by decide), ?_⟩
    exact ⟨⟨rfl, rfl⟩, ⟨trivial, nofun⟩, trivial, fun f h => h.2 rfl, trivial⟩
  obtain ⟨tr, s, hrun, -, habs, hevents⟩ := Run.of_events hf
  refine ⟨tr, s, ?_, ?_, mutex_handoff hrun⟩
  · rw [← List.length_map, hevents]
    rfl
  · exact congrArg (fun a => a.core.mOwner ()) habs

end CodingSample.Uthreads
