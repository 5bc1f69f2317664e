import CodingSample.Uthreads.Handoff

/-!
# Condition variables

`uthread_cond_wait` enters the queue, unlocks the mutex and blocks without a switch in between, so
the queue of a condition variable holds the threads that wait for it as the calls have it. A
thread that was released locks the mutex again before it returns.
-/

namespace CodingSample.Uthreads

open Prog

variable {M C : Type} [DecidableEq M] [DecidableEq C] {s s' : Machine M C} {a : Abs M C}
  {t u : Nat} {m : M} {c : C} {e : Event M C} {r : Option Ret} {tr : List (Moment M C)}

/-! ### The history of a run -/

/-- The threads that called `uthread_cond_wait` of condition variable `c` and were not released,
the last one first. A signal releases the one that called first and a broadcast all of them. -/
def waiters : List (Moment M C) → C → List Nat
  | [], _ => []
  | x :: tr, c =>
      match x.event with
      | .call (.condWait c' _) =>
          if c' = c then x.before.core.utCurthr :: waiters tr c else waiters tr c
      | .call (.signal c') => if c' = c then (waiters tr c).dropLast else waiters tr c
      | .call (.broadcast c') => if c' = c then [] else waiters tr c
      | _ => waiters tr c

/-- The call of `uthread_cond_wait` that thread `t` has not returned from. -/
def inCondWait : List (Moment M C) → Nat → Option (C × M)
  | [], _ => none
  | x :: tr, t =>
      match x.event, x.ret with
      | .call (.condWait c m), _ =>
          if x.before.core.utCurthr = t then some (c, m) else inCondWait tr t
      | _, some _ => if x.before.core.utCurthr = t then none else inCondWait tr t
      | _, none => inCondWait tr t

omit [DecidableEq M] in
theorem waiters_cons (x : Moment M C) :
    waiters (x :: tr) c = Abs.condStep x.before.core.utCurthr x.event c (waiters tr c) := by
  cases x with
  | mk before e r after =>
      cases e with
      | call call => cases call <;> rfl
      | _ => rfl

/-- The queue of a condition variable holds the threads that wait for it. -/
theorem Happens.waiters (h : Happens s e r s') (hold : s.list (.cond c) = Uthreads.waiters tr c) :
    s'.list (.cond c) = Uthreads.waiters (⟨s, e, r, s'⟩ :: tr) c := by
  rw [waiters_cons, h.sound.list_cond h.enabled h.polite.1 h.ok, hold]

section Calls

omit [DecidableEq M] [DecidableEq C]

theorem inCondWait_of_ne (ht : s.core.utCurthr ≠ t) :
    inCondWait (⟨s, e, r, s'⟩ :: tr) t = inCondWait tr t := by
  unfold inCondWait
  split
  · rw [if_neg ht]
    cases tr <;> rfl
  · rw [if_neg ht]
    cases tr <;> rfl
  · cases tr <;> rfl

theorem inCondWait_of_call (he : e = .call (.condWait c m)) :
    inCondWait (⟨s, e, r, s'⟩ :: tr) s.core.utCurthr = some (c, m) := by
  subst he
  exact if_pos rfl

theorem inCondWait_of_none (he : ∀ c m, e ≠ .call (.condWait c m)) (hr : r = none) :
    inCondWait (⟨s, e, r, s'⟩ :: tr) t = inCondWait tr t := by
  subst hr
  unfold inCondWait
  split
  · rename_i c m heq
    exact absurd heq (he c m)
  · rename_i heq _
    cases heq
  · cases tr <;> rfl

theorem inCondWait_of_some (he : ∀ c m, e ≠ .call (.condWait c m)) (hr : r ≠ none) :
    inCondWait (⟨s, e, r, s'⟩ :: tr) s.core.utCurthr = none := by
  unfold inCondWait
  split
  · rename_i c m heq
    exact absurd heq (he c m)
  · exact if_pos rfl
  · rename_i heq _
    exact absurd heq hr

end Calls

/-! ### Threads in `uthread_cond_wait` -/

/-- The contexts of the threads in `uthread_cond_wait`: they wait for the condition variable, or
they lock the mutex. -/
structure WaitsOk (tr : List (Moment M C)) (s : Machine M C) : Prop where
  inside : ∀ c m t, inCondWait tr t = some (c, m) → t < uthMaxUthreads ∧
    (s.core.uthreads t).Alive ∧ (s.core.utCtx t = .condWait c m ∨ s.core.utCtx t = .lock m)
  waiting : ∀ c m t, (s.core.uthreads t).Alive → s.core.utCtx t = .condWait c m →
    inCondWait tr t = some (c, m)

namespace WaitsOk

/-- A call of `uthread_cond_wait` blocks. -/
theorem call (h : Happens s e r s') (he : e = .call (.condWait c m)) :
    s'.core.utCtx s.core.utCurthr = .condWait c m := by
  subst he
  have hr := (h.sound.step h.enabled h.polite.1 h.ok).1
  have halive := h.alive_cur nofun
  cases h.ctxChange s.core.utCurthr with
  | same hu hk => exact absurd rfl (hu nofun)
  | returned hu hret hk => exact absurd hr hret
  | left hu _ _ hk => exact hk
  | created hb hk => exact absurd hb halive.1
  | reaped hmem hk =>
      exact absurd (Slot.zombie_of_place (h.sound.good.inv.mem_place hmem)).1 halive.2

/-- A thread that was released and finds the mutex locked waits for the mutex. -/
theorem relocks (h : Happens s e r s') (hne : e ≠ .switch) (hr : r = none)
    (hctx : s.core.utCtx s.core.utCurthr = .condWait c m) :
    e = .resume ∧ s'.core.utCtx s.core.utCurthr = .lock m := by
  have he : e = .resume := by
    refine h.resume_of_ctx hne ?_
    rw [hctx]
    nofun
  subst he
  refine ⟨rfl, ?_⟩
  have halive := h.alive_cur nofun
  have hleaves : Event.leaves s.core .resume = .lock m := by
    simp only [Event.leaves, hctx]
  cases h.ctxChange s.core.utCurthr with
  | same hu hk => exact absurd rfl (hu nofun)
  | returned hu hret hk => exact absurd hr hret
  | left hu _ _ hk => exact hk.trans hleaves
  | created hb hk => exact absurd hb halive.1
  | reaped hmem hk =>
      exact absurd (Slot.zombie_of_place (h.sound.good.inv.mem_place hmem)).1 halive.2

theorem inside_step (hw : WaitsOk tr s) (h : Happens s e r s')
    (hin : inCondWait (⟨s, e, r, s'⟩ :: tr) t = some (c, m)) : t < uthMaxUthreads ∧
      (s'.core.uthreads t).Alive ∧
        (s'.core.utCtx t = .condWait c m ∨ s'.core.utCtx t = .lock m) := by
  by_cases hu : s.core.utCurthr = t
  · by_cases hne : e = .switch
    · subst hne
      have hr := (h.sound.step h.enabled h.polite.1 h.ok).1
      rw [inCondWait_of_none nofun hr] at hin
      obtain ⟨hlt, halive, hctx⟩ := hw.inside c m t hin
      refine ⟨hlt, h.alive halive nofun, ?_⟩
      have hsame : s'.core.utCtx t = s.core.utCtx t := by
        have habs := (h.sound.step h.enabled h.polite.1 h.ok).2.1
        have hcore : s'.core = s.abs.switch.core := congrArg Abs.core habs
        rw [hcore]
        exact congrFun (Abs.utCtx_switchScan _) t
      rw [hsame]
      exact hctx
    · obtain ⟨hlt, -⟩ := h.cur hne
      subst hu
      by_cases hcall : ∃ c m, e = .call (.condWait c m)
      · obtain ⟨c', m', he⟩ := hcall
        rw [inCondWait_of_call he] at hin
        cases hin
        refine ⟨hlt, h.alive (h.alive_cur hne) ?_, Or.inl (call h he)⟩
        rintro status rfl
        cases he
      · have hcall : ∀ c m, e ≠ .call (.condWait c m) := fun c m he => hcall ⟨c, m, he⟩
        by_cases hr : r = none
        · rw [inCondWait_of_none hcall hr] at hin
          obtain ⟨-, halive, hctx⟩ := hw.inside c m _ hin
          rcases hctx with hctx | hctx
          · obtain ⟨rfl, hctx'⟩ := relocks h hne hr hctx
            exact ⟨hlt, h.alive halive nofun, Or.inr hctx'⟩
          · have he : e = .resume := by
              refine h.resume_of_ctx hne ?_
              rw [hctx]
              nofun
            exact absurd hr (h.ret_of_lock he hctx)
        · rw [inCondWait_of_some hcall hr] at hin
          cases hin
  · rw [inCondWait_of_ne hu] at hin
    obtain ⟨hlt, halive, hctx⟩ := hw.inside c m t hin
    rw [h.ctx_of_ne halive (Ne.symm hu)]
    exact ⟨hlt, h.alive halive fun _ _ => Ne.symm hu, hctx⟩

theorem waiting_step (hw : WaitsOk tr s) (h : Happens s e r s')
    (halive' : (s'.core.uthreads t).Alive) (hctx : s'.core.utCtx t = .condWait c m) :
    inCondWait (⟨s, e, r, s'⟩ :: tr) t = some (c, m) := by
  have hc : (Moment.mk s e r s').created ≠ some t := by
    intro hc
    cases hctx.symm.trans (h.ctx_of_created hc)
  have halive := h.alive_before halive' hc
  cases h.ctxChange t with
  | same hu hk =>
      have hbefore := hw.waiting c m t halive (hk.symm.trans hctx)
      by_cases hne : e = .switch
      · subst hne
        have hr := (h.sound.step h.enabled h.polite.1 h.ok).1
        rw [inCondWait_of_none nofun hr]
        exact hbefore
      · rw [inCondWait_of_ne (Ne.symm (hu hne))]
        exact hbefore
  | returned hu hret hk => cases hk.symm.trans hctx
  | left hu hr hne hk =>
      have hleaves : e.leaves s.core = .condWait c m := hk.symm.trans hctx
      have hu : t = s.core.utCurthr := hu
      subst hu
      refine inCondWait_of_call ?_
      cases e with
      | call call =>
          cases call <;> cases hleaves
          rfl
      | resume =>
          simp only [Event.leaves] at hleaves
          split at hleaves
          · cases hleaves
          · rename_i hno
            exact absurd hleaves (hno c m)
      | switch => exact absurd rfl hne
  | created hb hk => exact absurd hb halive.1
  | reaped hmem hk => cases hk.symm.trans hctx

theorem step (hw : WaitsOk tr s) (h : Happens s e r s') : WaitsOk (⟨s, e, r, s'⟩ :: tr) s' where
  inside _ _ _ hin := hw.inside_step h hin
  waiting _ _ _ halive hctx := hw.waiting_step h halive hctx

end WaitsOk

/-! ### What an event does to the waiting threads -/

namespace Happens

/-- A thread leaves the queue of a condition variable with a signal or a broadcast only. -/
theorem leaves_cond (h : Happens s e r s') (hmem : t ∈ s.list (.cond c))
    (hout : t ∉ s'.list (.cond c)) : e = .call (.signal c) ∨ e = .call (.broadcast c) := by
  rw [h.sound.list_cond h.enabled h.polite.1 h.ok] at hout
  cases e with
  | call call =>
      cases call with
      | condWait c' m =>
          simp only [Abs.condStep] at hout
          split at hout
          · exact absurd (List.mem_cons_of_mem _ hmem) hout
          · exact absurd hmem hout
      | signal c' =>
          simp only [Abs.condStep] at hout
          split at hout
          · rename_i hc
            exact Or.inl (by rw [hc])
          · exact absurd hmem hout
      | broadcast c' =>
          simp only [Abs.condStep] at hout
          split at hout
          · rename_i hc
            exact Or.inr (by rw [hc])
          · exact absurd hmem hout
      | _ => exact absurd hmem hout
  | resume => exact absurd hmem hout
  | switch => exact absurd hmem hout

/-- The thread is in the queue when it has given up the mutex. -/
theorem enters_cond (h : Happens s e r s') (hl : s.LocksOk) (he : e = .call (.condWait c m)) :
    s'.list (.cond c) = s.core.utCurthr :: s.list (.cond c) ∧
      s'.core.mOwner m ≠ some s.core.utCurthr ∧ s'.core.state s.core.utCurthr = .wait := by
  subst he
  obtain ⟨hown, huser⟩ := h.owner_of_unlocks (m := m) rfl
  have hon := (h.cur nofun).2
  refine ⟨?_, ?_, ?_⟩
  · rw [h.sound.list_cond h.enabled h.polite.1 h.ok]
    exact if_pos rfl
  · cases h.mtxChange m with
    | same _ hno _ _ _ => exact absurd rfl hno
    | taken he _ _ _ => rcases he with ⟨he, -⟩ | ⟨he, -⟩ <;> cases he
    | blocked he _ _ _ _ _ => cases he
    | handed _ howner _ =>
        rw [howner]
        intro hlast
        exact hl.other m _ (List.mem_of_getLast? hlast) hown
  · have habs := (h.sound.step h.enabled h.polite.1 h.ok).2.1
    have hcore : s'.core = (s.abs.condWait c m).core := congrArg Abs.core habs
    rw [hcore]
    refine Abs.state_block.trans (if_pos ?_)
    exact (Abs.utCurthr_unlock (a := s.abs.push (.cond c))).symm

/-- A signal makes the thread that waited longest runnable and no other one. -/
theorem signals (h : Happens s e r s') (he : e = .call (.signal c)) {l : List Nat}
    (hq : s.list (.cond c) = l ++ [t]) : s'.list (.cond c) = l ∧ s'.core.state t = .runnable ∧
      ∀ u, u ≠ t → s'.core.state u = s.core.state u := by
  subst he
  have habs := (h.sound.step h.enabled h.polite.1 h.ok).2.1
  have hcore : s'.core = (s.abs.signal c).core := congrArg Abs.core habs
  have hlast : (s.abs.q (.cond c)).getLast? = some t := by
    change (s.list (.cond c)).getLast? = some t
    rw [hq, List.getLast?_concat]
  have hwait := (h.sound.good.inv.ctx_of_cond (List.mem_of_getLast? hlast)).1
  refine ⟨?_, ?_, ?_⟩
  · rw [h.sound.list_cond h.enabled h.polite.1 h.ok, hq]
    exact (if_pos rfl).trans List.dropLast_concat
  · rw [hcore]
    exact Abs.state_signal.trans (if_pos ⟨hlast, hwait⟩)
  · intro u hu
    rw [hcore]
    refine Abs.state_signal.trans (if_neg ?_)
    rintro ⟨hlast', -⟩
    exact hu (Option.some.inj (hlast'.symm.trans hlast))

/-- A signal is for the thread that waits or for one that waited longer. -/
theorem heard (h : Happens s e r s') (he : e = .call (.signal c)) (hmem : t ∈ s.list (.cond c)) :
    s'.core.state t = .runnable ∨
      ∃ l u, s.list (.cond c) = l ++ [u] ∧ t ∈ l ∧ s'.core.state u = .runnable := by
  rcases List.eq_nil_or_concat (s.list (.cond c)) with hq | ⟨l, u, hq⟩
  · rw [hq] at hmem
    cases hmem
  · rw [List.concat_eq_append] at hq
    have hrun := (h.signals he hq).2.1
    rw [hq, List.mem_append, List.mem_singleton] at hmem
    rcases hmem with hmem | rfl
    · exact Or.inr ⟨l, u, hq, hmem, hrun⟩
    · exact Or.inl hrun

/-- A broadcast makes the threads that wait runnable and no other ones. -/
theorem broadcasts (h : Happens s e r s') (he : e = .call (.broadcast c)) :
    s'.list (.cond c) = [] ∧ (∀ t ∈ s.list (.cond c), s'.core.state t = .runnable) ∧
      ∀ u, u ∉ s.list (.cond c) → s'.core.state u = s.core.state u := by
  subst he
  have habs := (h.sound.step h.enabled h.polite.1 h.ok).2.1
  have hcore : s'.core = (s.abs.broadcast c).core := congrArg Abs.core habs
  have hnil : s'.list (.cond c) = [] := by
    rw [h.sound.list_cond h.enabled h.polite.1 h.ok]
    exact if_pos rfl
  have hstate (u : Nat) := Abs.state_broadcast (a := s.abs) c u
  rw [← hcore] at hstate
  refine ⟨hnil, ?_, ?_⟩
  · intro t hmem
    rcases hstate t with hsame | ⟨-, -, hrun⟩
    · -- a thread that still waited for the condition variable would be in its queue
      have hlt := (h.sound.good.inv.queued (.cond c) t).mp hmem |>.1
      obtain ⟨hwait, m, hctx⟩ := h.sound.good.inv.ctx_of_cond (a := s.abs) hmem
      have huser : s.core.utCtx s.core.utCurthr = .user := h.enabled.2
      have hne : t ≠ s.core.utCurthr := by
        rintro rfl
        cases huser.symm.trans hctx
      have hctx' := (h.ctx_of_ne (Abs.Inv.alive_of_wait (a := s.abs) hwait) hne).trans hctx
      have hmem' : t ∈ s'.list (.cond c) := by
        refine (h.sound'.good.inv.queued (.cond c) t).mpr ⟨hlt, ?_⟩
        rw [Slot.place_of_wait (hsame.trans hwait)]
        change (s'.core.utCtx t).queue = _
        rw [hctx']
        rfl
      rw [hnil] at hmem'
      cases hmem'
    · exact hrun
  · intro u hu
    rcases hstate u with hsame | ⟨hmem, -, -⟩
    · exact hsame
    · exact absurd hmem hu

/-- `uthread_cond_wait` returns to the owner of the mutex. -/
theorem owns (h : Happens s e r s') (hl : s.LocksOk) (hw : WaitsOk tr s) (hr : r ≠ none)
    (hin : inCondWait tr s.core.utCurthr = some (c, m)) :
    s'.core.mOwner m = some s.core.utCurthr := by
  have hne : e ≠ .switch := by
    rintro rfl
    exact hr (h.sound.step h.enabled h.polite.1 h.ok).1
  obtain ⟨-, -, hctx⟩ := hw.inside c m _ hin
  have he : e = .resume := by
    refine h.resume_of_ctx hne ?_
    rcases hctx with hctx | hctx
    · rw [hctx]
      nofun
    · rw [hctx]
      nofun
  subst he
  rcases hctx with hctx | hctx
  · have hlocks : Event.locks s.core .resume = some m := by
      simp only [Event.locks, hctx]
    cases h.mtxChange m with
    | same hno _ _ _ _ => exact absurd hlocks hno
    | taken _ _ howner _ => exact howner
    | blocked _ hnone _ _ _ _ => exact absurd hnone hr
    | handed hu _ _ => cases hu
  · have hown := hl.handed m _ (Or.inr (h.cur hne).2) hctx
    cases h.mtxChange m with
    | same _ _ _ howner _ => exact howner.trans hown
    | taken _ hfree _ _ => cases hfree.symm.trans hown
    | blocked _ _ _ _ howner _ => exact howner.trans hown
    | handed hu _ _ => cases hu

end Happens

/-! ### Every run -/

/-- In every state the queue of a condition variable holds the threads that wait for it, a
waiting thread is in `uthread_cond_wait`, and a thread in there that was released runs, is
runnable or waits for the mutex. -/
structure CondOk (tr : List (Moment M C)) (s : Machine M C) : Prop where
  queue : ∀ c, s.list (.cond c) = waiters tr c
  waiting : ∀ c t, t ∈ waiters tr c →
    s.core.state t = .wait ∧ ∃ m, inCondWait tr t = some (c, m)
  released : ∀ c m t, inCondWait tr t = some (c, m) → t ∉ waiters tr c →
    s.core.state t = .runnable ∨ s.core.switching = false ∧ t = s.core.utCurthr ∨
      t ∈ s.list (.mtx m)

/-- What the next event does. -/
structure CondStep (tr : List (Moment M C)) (s : Machine M C) (e : Event M C) (r : Option Ret)
    (s' : Machine M C) : Prop where
  enters : ∀ c m, e = .call (.condWait c m) →
    s'.list (.cond c) = s.core.utCurthr :: s.list (.cond c) ∧
      s'.core.mOwner m ≠ some s.core.utCurthr ∧ s'.core.state s.core.utCurthr = .wait
  leaves : ∀ c t, t ∈ s.list (.cond c) → t ∉ s'.list (.cond c) →
    e = .call (.signal c) ∨ e = .call (.broadcast c)
  signal : ∀ c l t, e = .call (.signal c) → waiters tr c = l ++ [t] →
    s'.list (.cond c) = l ∧ s'.core.state t = .runnable ∧
      ∀ u, u ≠ t → s'.core.state u = s.core.state u
  heard : ∀ c t, e = .call (.signal c) → t ∈ waiters tr c → s'.core.state t = .runnable ∨
    ∃ l u, waiters tr c = l ++ [u] ∧ t ∈ l ∧ s'.core.state u = .runnable
  broadcast : ∀ c, e = .call (.broadcast c) → s'.list (.cond c) = [] ∧
    (∀ t ∈ waiters tr c, s'.core.state t = .runnable) ∧
      ∀ u, u ∉ waiters tr c → s'.core.state u = s.core.state u
  returns : ∀ c m, inCondWait tr s.core.utCurthr = some (c, m) → r ≠ none →
    s'.core.mOwner m = some s.core.utCurthr

theorem Run.condHistory (hrun : Run Polite started tr s) :
    (∀ c, s.list (.cond c) = waiters tr c) ∧ WaitsOk tr s := by
  induction hrun with
  | start =>
      have hcore : (started : Machine M C).core = (Abs.initial : Abs M C).core :=
        congrArg Abs.core abs_started
      have hlist : (started : Machine M C).list = (Abs.initial : Abs M C).q :=
        congrArg Abs.q abs_started
      refine ⟨?_, nofun, ?_⟩
      · rw [hlist]
        exact fun _ => rfl
      · intro c m t _ hctx
        rw [hcore] at hctx
        change (if t = 0 then Ctx.reaper else if t = 1 then .user else .none) = _ at hctx
        split at hctx
        · cases hctx
        split at hctx <;> cases hctx
  | step hrun he hp hok ih =>
      have h := Happens.of_run hrun he hp hok
      exact ⟨fun c => h.waiters (ih.1 c), ih.2.step h⟩

/-- In every run in which no thread locks a mutex it owns or exits while it owns one, condition
variables lose no wake-up and make up none. -/
theorem condition_variables (hrun : Run Polite started tr s) : CondOk tr s ∧
    ∀ e r s', e.Enabled s.core → Polite s.core e → e.run s = .ok (r, s') →
      CondStep tr s e r s' := by
  have hs := hrun.sound fun _ _ h => h.1
  have hi := hs.good.inv
  have hl := hrun.lockHistory.locks
  obtain ⟨hqueue, hw⟩ := hrun.condHistory
  refine ⟨⟨hqueue, ?_, ?_⟩, ?_⟩
  · intro c t hmem
    rw [← hqueue] at hmem
    obtain ⟨hwait, m, hctx⟩ := hi.ctx_of_cond (a := s.abs) hmem
    exact ⟨hwait, m, hw.waiting c m t (Abs.Inv.alive_of_wait (a := s.abs) hwait) hctx⟩
  · intro c m t hin hout
    obtain ⟨hlt, halive, hctx⟩ := hw.inside c m t hin
    cases hstate : s.core.state t with
    | noState => exact absurd hstate halive.1
    | zombie => exact absurd hstate halive.2
    | runnable => exact Or.inl rfl
    | onCpu => exact Or.inr (Or.inl ((hs.good.cpu.2 t hlt).mp hstate))
    | wait =>
        have hplace : ∀ g, (s.core.utCtx t).queue = some g → t ∈ s.list g := by
          intro g hg
          refine (hi.queued g t).mpr ⟨hlt, ?_⟩
          rw [Slot.place_of_wait hstate]
          exact hg
        rcases hctx with hctx | hctx
        · refine absurd ?_ hout
          rw [← hqueue]
          exact hplace _ (by rw [hctx]; rfl)
        · exact Or.inr (Or.inr (hplace _ (by rw [hctx]; rfl)))
  · intro e r s' he hp hok
    have h := Happens.of_run hrun he hp hok
    exact {
      enters := fun c m he => h.enters_cond hl he
      leaves := fun c t hmem hout => h.leaves_cond hmem hout
      signal := fun c l t he hq => h.signals he ((hqueue c).trans hq)
      heard := fun c t he hmem => by
        rw [← hqueue] at hmem ⊢
        exact h.heard he hmem
      broadcast := fun c he => by
        rw [← hqueue]
        exact h.broadcasts he
      returns := fun c m hin hr => h.owns hl hw hr hin }

/-- Thread 1 waits for the condition variable, thread 2 signals it with the mutex locked, and
thread 1 has the mutex when it returns. -/
theorem condition_variables_signal : ∃ (tr : List (Moment Unit Unit)) (s : Machine Unit Unit),
    tr.length = 10 ∧ s.core.mOwner () = some 1 ∧ CondOk tr s := by
  have hf : (Abs.initial : Abs Unit Unit).Follows Polite
      [.call (.create 7), .call (.lock ()), .call (.condWait () ()), .switch, .call (.lock ()),
        .call (.signal ()), .call (.unlock ()), .call .yield, .switch, .resume] := by
    refine ⟨⟨rfl, rfl⟩, ⟨trivial, nofun⟩, trivial, fun f h => h.2 (by decide), ?_⟩
    refine ⟨⟨rfl, rfl⟩, ⟨nofun, nofun⟩, nofun, fun f h => h, ?_⟩
    refine ⟨⟨rfl, rfl⟩, ⟨trivial, nofun⟩, trivial, fun f h => h.2 rfl, ?_⟩
    refine ⟨rfl, ⟨trivial, nofun⟩, trivial, fun f h => h, ?_⟩
    refine ⟨⟨rfl, rfl⟩, ⟨nofun, nofun⟩, nofun, fun f h => h, ?_⟩
    refine ⟨⟨rfl, rfl⟩, ⟨trivial, nofun⟩, trivial, fun f h => h, ?_⟩
    refine ⟨⟨rfl, rfl⟩, ⟨trivial, nofun⟩, trivial, fun f h => h.2 rfl, ?_⟩
    refine ⟨⟨rfl, rfl⟩, ⟨trivial, nofun⟩, trivial, fun f h => h, ?_⟩
    refine ⟨rfl, ⟨trivial, nofun⟩, trivial, fun f h => h, ?_⟩
    exact ⟨⟨rfl, nofun⟩, ⟨trivial, nofun⟩, trivial, fun f h => absurd h.2.1 (by decide), trivial⟩
  obtain ⟨tr, s, hrun, -, habs, hevents⟩ := Run.of_events hf
  refine ⟨tr, s, ?_, ?_, (condition_variables hrun).1⟩
  · rw [← List.length_map, hevents]
    rfl
  · exact congrArg (fun a => a.core.mOwner ()) habs

end CodingSample.Uthreads
