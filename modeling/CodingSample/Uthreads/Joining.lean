import CodingSample.Uthreads.Queues
import CodingSample.Uthreads.Scheduling

/-!
# Joining

A slot of the table is used by one thread after another, so a thread is a slot and the number of
times it was created before. What a join delivers is compared with the history of the run.
-/

namespace CodingSample.Uthreads

open Prog

variable {M C : Type} [DecidableEq M] [DecidableEq C] {s s' : Machine M C} {a : Abs M C}
  {t u w g : Nat} {e : Event M C} {r : Option Ret} {tr : List (Moment M C)}

/-! ### The history of a run -/

/-- The thread a moment creates. -/
def Moment.created (m : Moment M C) : Option Nat :=
  match m.event, m.ret with
  | .call (.create _), some ret => if ret.1 = 0 then some ret.2.toNat else none
  | _, _ => none

/-- How many times slot `t` was given to a thread. -/
def incarnation (tr : List (Moment M C)) (t : Nat) : Nat := (tr.filterMap Moment.created).count t

/-- The threads that exited, each with its status, the last one first. -/
def exits : List (Moment M C) → List ((Nat × Nat) × Int)
  | [] => []
  | m :: tr =>
      match m.event with
      | .call (.exit status) =>
          ((m.before.core.utCurthr, incarnation tr m.before.core.utCurthr), status) :: exits tr
      | _ => exits tr

/-- The thread that thread `w` called `uthread_join` on last. -/
def joining : List (Moment M C) → Nat → Option (Nat × Nat)
  | [], _ => none
  | m :: tr, w =>
      match m.event with
      | .call (.join uid) =>
          if m.before.core.utCurthr = w then some (uid.toNat, incarnation tr uid.toNat)
          else joining tr w
      | _ => joining tr w

/-- The value that a join stores when it returns 0. -/
def Moment.stores (m : Moment M C) : Option Int :=
  match m.event, m.ret with
  | .call (.join _), some ret => if ret.1 = 0 then some ret.2 else none
  | .resume, some ret =>
      match m.before.core.utCtx m.before.core.utCurthr with
      | .join _ => if ret.1 = 0 then some ret.2 else none
      | _ => none
  | _, _ => none

/-- The joins that returned 0: the thread that was joined and the value that was stored. -/
def joined : List (Moment M C) → List (Option (Nat × Nat) × Int)
  | [] => []
  | m :: tr =>
      match m.stores with
      | some v => (joining (m :: tr) m.before.core.utCurthr, v) :: joined tr
      | none => joined tr

omit [DecidableEq M] [DecidableEq C] in
theorem incarnation_cons (m : Moment M C) :
    incarnation (m :: tr) t = incarnation tr t + if m.created = some t then 1 else 0 := by
  unfold incarnation
  cases hc : m.created with
  | none =>
      rw [List.filterMap_cons_none hc]
      simp
  | some v =>
      rw [List.filterMap_cons_some hc, List.count_cons]
      simp

omit [DecidableEq M] [DecidableEq C] in
theorem incarnation_of_not_created {m : Moment M C} (hc : m.created ≠ some t) :
    incarnation (m :: tr) t = incarnation tr t := by
  rw [incarnation_cons, if_neg hc, Nat.add_zero]

omit [DecidableEq M] [DecidableEq C] in
theorem Moment.created_eq_some {m : Moment M C} : m.created = some t ↔
    ∃ prio ret, m.event = .call (.create prio) ∧ m.ret = some ret ∧ ret.1 = 0 ∧
      ret.2.toNat = t := by
  unfold Moment.created
  split
  · rename_i prio ret he hr
    rw [Option.ite_none_right_eq_some, Option.some_inj]
    constructor
    · intro h
      exact ⟨prio, ret, he, hr, h.1, h.2⟩
    · rintro ⟨prio', ret', -, hr', h⟩
      rw [hr] at hr'
      exact Option.some.inj hr' ▸ h
  · rename_i hno
    refine iff_of_false nofun ?_
    rintro ⟨prio, ret, he, hr, -⟩
    exact hno prio ret he hr

/-- A created thread starts from a slot that was not in use. -/
theorem Machine.Sound.created (hs : s.Sound) (he : e.Enabled s.core) (hp : Allowed s.core e)
    (hrun : e.run s = .ok (r, s')) (hc : (Moment.mk s e r s').created = some t) :
    t < uthMaxUthreads ∧ s.core.state t = .noState ∧ s'.core.state t = .runnable ∧
      (s'.core.uthreads t).utDetached = false ∧ (s'.core.uthreads t).utWaiter = none ∧
      s'.core.utCtx t = .user := by
  obtain ⟨prio, ret, rfl, rfl, hzero, hret⟩ := Moment.created_eq_some.mp hc
  obtain ⟨hr, habs, -⟩ := hs.step he hp hrun
  have hcore : s'.core = (s.abs.create .user prio).2.core := congrArg Abs.core habs
  have hr : ret = (s.abs.create .user prio).1 := Option.some.inj hr
  rw [hr] at hzero hret
  rw [hcore]
  cases hfound : uthreadAllocFrom s.abs.core 0 uthMaxUthreads with
  | none =>
      rw [Abs.create, hfound] at hzero
      cases hzero
  | some u =>
      obtain ⟨hlt, hstate⟩ := uthreadAllocFrom_spec rfl hfound
      have hcreate : s.abs.create .user prio =
          (((0, (u : Int)) : Ret), s.abs.spawn u .user prio) := by
        rw [Abs.create, hfound]
      rw [hcreate] at hret ⊢
      have hu : u = t := hret
      subst hu
      have hrec := Function.update_self u { Uthread.zero with
        utId := u, utState := .runnable, utPrio := prio } s.abs.core.uthreads
      exact ⟨hlt, hstate, congrArg Uthread.utState hrec, congrArg Uthread.utDetached hrec,
        congrArg Uthread.utWaiter hrec, Function.update_self _ _ _⟩

/-! ### What the callers keep to -/

/-- No thread locks a mutex it owns, and a thread that another one joins is not joined or detached
again. The guards of `uthread_join` and `uthread_detach` look at the `ut_waiter` of the caller. -/
def Unshared (c : Core M C) (e : Event M C) : Prop :=
  Careful c e ∧ ∀ uid, e = .call (.detach uid) → Detaches c uid →
    (c.uthreads uid.toNat).utWaiter = none

/-! ### Threads that are not created -/

namespace Abs.RecChange

variable {r' : Uthread}

omit [DecidableEq M] [DecidableEq C] in
/-- A thread that comes alive is created. -/
theorem alive (h : a.RecChange e r u r') (halive : r'.Alive)
    (hnew : ∀ prio, e = .call (.create prio) → r ≠ some (0, (u : Int))) :
    (a.core.uthreads u).Alive := by
  have hback {r₀ : Uthread} (hs : r₀.Steady r') (hstate : r₀.utState = a.core.state u) :
      (a.core.uthreads u).Alive := by
    refine ⟨fun hno => halive.1 (hs.noState.mpr (hstate.trans hno)), ?_⟩
    exact fun hz => halive.2 (hs.zombie.mpr (hstate.trans hz))
  cases h with
  | steady _ h => exact hback h rfl
  | created prio he hr => exact absurd hr (hnew prio he)
  | exited status he hu hafter => exact absurd (hafter.zombie.mpr rfl) halive.2
  | joining uid he hr hu hjoin hexit hafter => exact hback hafter rfl
  | joined uid he hr hu hjoin hexit hafter => exact hback hafter rfl
  | detached uid he hr hu hthread hcur hdet hafter => exact hback hafter rfl
  | rejoined he hctx hr hafter => exact hback hafter rfl
  | reaped he hctx hmem hafter => exact absurd (congrArg Uthread.utState hafter) halive.1

omit [DecidableEq M] [DecidableEq C] in
/-- A thread that ended stays ended until its slot is used again. -/
theorem ended (h : a.RecChange e r u r')
    (hend : a.core.state u = .zombie ∨ a.core.state u = .noState)
    (hnew : ∀ prio, e = .call (.create prio) → r ≠ some (0, (u : Int))) :
    r'.utState = .zombie ∨ r'.utState = .noState := by
  have hkeep {r₀ : Uthread} (hs : r₀.Steady r') (hstate : r₀.utState = a.core.state u) :
      r'.utState = .zombie ∨ r'.utState = .noState :=
    hend.imp (fun hz => hs.zombie.mpr (hstate.trans hz)) fun hno => hs.noState.mpr (hstate.trans hno)
  cases h with
  | steady _ h => exact hkeep h rfl
  | created prio he hr => exact absurd hr (hnew prio he)
  | exited status he hu hafter => exact Or.inl (hafter.zombie.mpr rfl)
  | joining uid he hr hu hjoin hexit hafter => exact hkeep hafter rfl
  | joined uid he hr hu hjoin hexit hafter => exact hkeep hafter rfl
  | detached uid he hr hu hthread hcur hdet hafter => exact hkeep hafter rfl
  | rejoined he hctx hr hafter => exact hkeep hafter rfl
  | reaped he hctx hmem hafter => exact Or.inr (congrArg Uthread.utState hafter)

omit [DecidableEq M] [DecidableEq C] in
/-- A thread that ended and was joined or detached stays so until its slot is used again. -/
theorem spent (h : a.RecChange e r u r')
    (hcur : e ≠ .switch → a.core.state a.core.utCurthr = .onCpu)
    (hover : a.core.state u = .zombie ∧ (a.core.uthreads u).utDetached = true ∨
      a.core.state u = .noState)
    (hnew : ∀ prio, e = .call (.create prio) → r ≠ some (0, (u : Int))) :
    r'.utState = .zombie ∧ r'.utDetached = true ∨ r'.utState = .noState := by
  have hkeep {r₀ : Uthread} (hs : r₀.Steady r') (hstate : r₀.utState = a.core.state u)
      (hdet : (a.core.uthreads u).utDetached = true → r₀.utDetached = true) :
      r'.utState = .zombie ∧ r'.utDetached = true ∨ r'.utState = .noState :=
    hover.imp (fun h => ⟨hs.zombie.mpr (hstate.trans h.1), hs.detached.trans (hdet h.2)⟩)
      fun hno => hs.noState.mpr (hstate.trans hno)
  cases h with
  | steady _ h => exact hkeep h rfl id
  | created prio he hr => exact absurd hr (hnew prio he)
  | exited status he hu hafter =>
      have hcur := hcur (by rw [he]; nofun)
      rw [hu, hcur] at hover
      rcases hover with h | h
      · exact UthreadState.noConfusion h.1
      · exact UthreadState.noConfusion h
  | joining uid he hr hu hjoin hexit hafter => exact hkeep hafter rfl id
  | joined uid he hr hu hjoin hexit hafter => exact hkeep hafter rfl fun _ => rfl
  | detached uid he hr hu hthread hcur hdet hafter => exact hkeep hafter rfl fun _ => rfl
  | rejoined he hctx hr hafter => exact hkeep hafter rfl fun _ => rfl
  | reaped he hctx hmem hafter => exact Or.inr (congrArg Uthread.utState hafter)

omit [DecidableEq M] [DecidableEq C] in
/-- A thread that nobody else joins or detaches keeps its waiter. -/
theorem attached (h : a.RecChange e r t r') (hno : a.core.state t ≠ .noState)
    (hdet : (a.core.uthreads t).utDetached = false)
    (hw : (a.core.uthreads t).utWaiter = some w)
    (hnew : ∀ prio, e = .call (.create prio) → r ≠ some (0, (t : Int)))
    (hjoin : ∀ uid, e = .call (.join uid) → t = uid.toNat → ¬ Joins a.core uid)
    (hdetach : ∀ uid, e = .call (.detach uid) → t = uid.toNat → ¬ Detaches a.core uid)
    (hresume : e = .resume → a.core.utCtx a.core.utCurthr ≠ .join t)
    (hreap : t ∉ a.q .reap) :
    r'.utState ≠ .noState ∧ r'.utDetached = false ∧ r'.utWaiter = some w := by
  cases h with
  | steady _ h =>
      exact ⟨fun h' => hno (h.noState.mp h'), h.detached.trans hdet, h.waiter.trans hw⟩
  | created prio he hr => exact absurd hr (hnew prio he)
  | exited status he hu hafter =>
      subst hu
      refine ⟨fun h' => ?_, hafter.detached.trans hdet, hafter.waiter.trans hw⟩
      exact UthreadState.noConfusion (hafter.noState.mp h')
  | joining uid he hr hu hj hexit hafter => exact absurd hj (hjoin uid he hu)
  | joined uid he hr hu hj hexit hafter => exact absurd hj (hjoin uid he hu)
  | detached uid he hr hu hthread hcur hd hafter =>
      exact absurd ⟨hthread, hu ▸ hd, hcur⟩ (hdetach uid he hu)
  | rejoined he hctx hr hafter => exact absurd hctx (hresume he)
  | reaped he hctx hmem hafter => exact absurd hmem hreap

end Abs.RecChange

/-! ### A thread in `uthread_join` -/

/-- What thread `w` relies on while it is in `uthread_join` of thread `t`: the thread it called
`uthread_join` on is still there, and it is the one that will be woken. -/
structure Awaits (tr : List (Moment M C)) (s : Machine M C) (w t : Nat) : Prop where
  lt : t < uthMaxUthreads
  unreaped : s.core.state t ≠ .noState
  attached : (s.core.uthreads t).utDetached = false
  waiter : (s.core.uthreads t).utWaiter = some w
  target : joining tr w = some (t, incarnation tr t)

/-- Every thread in `uthread_join` relies on the thread it joins. -/
def JoinsOk (tr : List (Moment M C)) (s : Machine M C) : Prop :=
  ∀ w t, w < uthMaxUthreads → (s.core.uthreads w).Alive → s.core.utCtx w = .join t →
    Awaits tr s w t

theorem Machine.Sound.not_created (hs : s.Sound) (he : e.Enabled s.core)
    (hp : Allowed s.core e) (hrun : e.run s = .ok (r, s')) (hno : s.core.state t ≠ .noState) :
    (Moment.mk s e r s').created ≠ some t :=
  fun hc => hno (hs.created he hp hrun hc).2.1

omit [DecidableEq M] [DecidableEq C] in
theorem Moment.new_of_not_created (hc : (Moment.mk s e r s').created ≠ some t) :
    ∀ prio, e = .call (.create prio) → r ≠ some (0, (t : Int)) :=
  fun _ he hr => hc (Moment.created_eq_some.mpr ⟨_, _, he, hr, rfl, rfl⟩)

omit [DecidableEq M] [DecidableEq C] in
theorem joining_cons_of_ne {m : Moment M C} (hw : m.event ≠ .switch → w ≠ m.before.core.utCurthr) :
    joining (m :: tr) w = joining tr w := by
  unfold joining
  split
  · rename_i uid he
    rw [if_neg]
    · cases tr <;> rfl
    · exact fun h => hw (by rw [he]; nofun) h.symm
  · cases tr <;> rfl

theorem JoinsOk.kept (hs : s.Sound) (hok : JoinsOk tr s) (he : e.Enabled s.core)
    (hp : Unshared s.core e) (hrun : e.run s = .ok (r, s')) (hw : w < uthMaxUthreads)
    (halive : (s.core.uthreads w).Alive) (hctx : s.core.utCtx w = .join t)
    (hcur : e ≠ .switch → w ≠ s.core.utCurthr) :
    Awaits (⟨s, e, r, s'⟩ :: tr) s' w t := by
  have hallowed := hp.1.allowed
  obtain ⟨hlt, hno, hdet, hwaiter, htarget⟩ := hok w t hw halive hctx
  have hc := hs.not_created he hallowed hrun hno
  have hreap : t ∉ s.abs.q .reap := by
    intro hmem
    have hdead := (Slot.zombie_of_place (hs.good.inv.mem_place hmem)).2
    exact Bool.noConfusion (hdet.symm.trans hdead)
  have hsome : (s.core.uthreads t).utWaiter ≠ none := by
    rw [hwaiter]
    nofun
  obtain ⟨hno', hdet', hwaiter'⟩ :=
    (hs.recChange he hallowed hrun t).attached hno hdet hwaiter (Moment.new_of_not_created hc)
      (by
        rintro uid rfl rfl hjoin
        exact hsome (hp.1 hjoin))
      (by
        rintro uid rfl rfl hdetach
        exact hsome (hp.2 uid rfl hdetach))
      (by
        rintro rfl hjoin
        obtain ⟨hlt, hon⟩ := hs.good.cur he.1
        have hother := hok _ t hlt (Abs.Inv.alive_of_onCpu hon) hjoin
        exact hcur nofun (Option.some.inj (hwaiter.symm.trans hother.waiter)))
      hreap
  refine ⟨hlt, hno', hdet', hwaiter', ?_⟩
  rw [joining_cons_of_ne hcur, incarnation_of_not_created hc]
  exact htarget

/-- A thread starts to wait in `uthread_join`. -/
theorem Machine.Sound.blocks (hs : s.Sound) (he : e.Enabled s.core) (hp : Allowed s.core e)
    (hrun : e.run s = .ok (r, s')) (hr : r = none) (hleaves : e.leaves s.core = .join t) :
    Awaits (⟨s, e, r, s'⟩ :: tr) s' s.core.utCurthr t := by
  subst hr
  cases e with
  | call c =>
      cases c with
      | join uid =>
          have ht : uid.toNat = t := Ctx.join.inj hleaves
          subst ht
          have hnew : (Moment.mk s (.call (.join uid)) none s').created ≠ some uid.toNat := nofun
          have htarget : joining (⟨s, .call (.join uid), none, s'⟩ :: tr) s.core.utCurthr =
              some (uid.toNat, incarnation (⟨s, .call (.join uid), none, s'⟩ :: tr) uid.toNat) := by
            rw [incarnation_of_not_created hnew]
            exact if_pos rfl
          cases hs.recChange he hp hrun uid.toNat with
          | steady hnot h => exact absurd ⟨rfl, nofun⟩ hnot
          | joining uid' he' hr hu hjoin hexit hafter =>
              cases he'
              obtain ⟨hlt, hstate⟩ := Abs.lt_of_thread hjoin.1
              exact ⟨hlt, fun h => hstate (hafter.noState.mp h),
                hafter.detached.trans hjoin.2.2, hafter.waiter, htarget⟩
          | created prio he' => cases he'
          | exited status he' => cases he'
          | joined uid' he' hr' => cases hr'
          | detached uid' he' => cases he'
          | rejoined he' => cases he'
          | reaped he' => cases he'
      | _ => cases hleaves
  | resume =>
      obtain ⟨hrun', -⟩ := hs.step he hp hrun
      have hctx : s.core.utCtx s.core.utCurthr = .join t := by
        simp only [Event.leaves] at hleaves
        split at hleaves
        · cases hleaves
        · exact hleaves
      have hloop := (hs.good.joins he.1 hctx).1
      have hctx : s.abs.core.utCtx s.abs.core.utCurthr = .join t := hctx
      change none = s.abs.resume.1 at hrun'
      rw [Abs.resume, hctx] at hrun'
      simp only [hloop] at hrun'
      cases hrun'
  | switch => cases hleaves

theorem JoinsOk.step (hs : s.Sound) (hok : JoinsOk tr s) (he : e.Enabled s.core)
    (hp : Unshared s.core e) (hrun : e.run s = .ok (r, s')) :
    JoinsOk (⟨s, e, r, s'⟩ :: tr) s' := by
  have hallowed := hp.1.allowed
  intro w t hw halive hctx
  by_cases hc : (Moment.mk s e r s').created = some w
  · have hfresh := (hs.created he hallowed hrun hc).2.2.2.2.2
    rw [hfresh] at hctx
    cases hctx
  have halive' := (hs.recChange he hallowed hrun w).alive halive (Moment.new_of_not_created hc)
  cases hs.ctxChange he hallowed hrun w with
  | same hu hk => exact hok.kept hs he hp hrun hw halive' (hk.symm.trans hctx) hu
  | returned hu hr hk => exact Ctx.noConfusion rfl rfl (heq_of_eq (hk.symm.trans hctx))
  | left hu hr hne hk =>
      rw [hu]
      exact hs.blocks he hallowed hrun hr (hk.symm.trans hctx)
  | created hbefore hk => exact absurd hbefore halive'.1
  | reaped hmem hk => exact Ctx.noConfusion rfl rfl (heq_of_eq (hk.symm.trans hctx))

/-! ### The exit statuses -/

/-- What the history says about the threads that ended and about the joins that returned. -/
structure Deliveries (tr : List (Moment M C)) (s : Machine M C) : Prop where
  status : ∀ t, s.core.state t = .zombie →
    ((t, incarnation tr t), (s.core.uthreads t).utExit) ∈ exits tr
  ended : ∀ t g v, ((t, g), v) ∈ exits tr → g < incarnation tr t ∨
    g = incarnation tr t ∧ (s.core.state t = .zombie ∨ s.core.state t = .noState)
  exitOnce : ((exits tr).map Prod.fst).Nodup
  delivered : ∀ k v, (k, v) ∈ joined tr → ∃ i, k = some i ∧ (i, v) ∈ exits tr
  past : ∀ t g v, (some (t, g), v) ∈ joined tr → g < incarnation tr t ∨
    g = incarnation tr t ∧ (s.core.state t = .zombie ∧ (s.core.uthreads t).utDetached = true ∨
      s.core.state t = .noState)
  joinOnce : ((joined tr).map Prod.fst).Nodup

/-- What a join that returns 0 found. -/
structure Stores (tr : List (Moment M C)) (m : Moment M C) (v : Int) (t : Nat) : Prop where
  target : joining (m :: tr) m.before.core.utCurthr = some (t, incarnation tr t)
  value : v = (m.before.core.uthreads t).utExit
  zombie : m.before.core.state t = .zombie
  attached : (m.before.core.uthreads t).utDetached = false
  after : m.after.core.state t = .zombie ∧ (m.after.core.uthreads t).utDetached = true

theorem Machine.Sound.stores_call (hs : s.Sound) {uid : Int} {ret : Ret}
    (he : Event.Enabled s.core (.call (.join uid))) (hp : Allowed s.core (.call (.join uid)))
    (hrun : (Event.call (.join uid)).run s = .ok (some ret, s')) (hzero : ret.1 = 0) :
    Stores tr ⟨s, .call (.join uid), some ret, s'⟩ ret.2 uid.toNat := by
  cases hs.recChange he hp hrun uid.toNat with
  | steady hnot h =>
      refine absurd ⟨rfl, ?_⟩ hnot
      rintro _ ⟨rfl⟩
      exact hzero
  | joined uid' he' hr hu hjoin hexit hafter =>
      cases he'
      have hlt := (Abs.lt_of_thread hjoin.1).1
      exact ⟨if_pos rfl, congrArg Prod.snd (Option.some.inj hr),
        hs.good.inv.zombie_of_exited hlt hexit, hjoin.2.2,
        hafter.zombie.mpr (hs.good.inv.zombie_of_exited hlt hexit), hafter.detached⟩
  | joining uid' he' hr => cases hr
  | created prio he' => cases he'
  | exited status he' => cases he'
  | detached uid' he' => cases he'
  | rejoined he' => cases he'
  | reaped he' => cases he'

theorem Machine.Sound.stores_resume (hs : s.Sound) (hok : JoinsOk tr s) {ret : Ret}
    (he : Event.Enabled s.core .resume) (hrun : Event.resume.run s = .ok (some ret, s'))
    (hctx : s.core.utCtx s.core.utCurthr = .join t) :
    Stores tr ⟨s, .resume, some ret, s'⟩ ret.2 t := by
  obtain ⟨hlt, hon⟩ := hs.good.cur he.1
  obtain ⟨-, hzombie, hdet, -⟩ := hs.good.inv.joined hlt hon hctx
  have htarget := (hok _ t hlt (Abs.Inv.alive_of_onCpu hon) hctx).target
  cases hs.recChange he trivial hrun t with
  | steady hnot h => exact absurd (Or.inl hctx) hnot
  | rejoined he' hctx' hr hafter =>
      refine ⟨?_, congrArg Prod.snd (Option.some.inj hr), hzombie, hdet,
        hafter.zombie.mpr hzombie, hafter.detached⟩
      refine Eq.trans ?_ htarget
      cases tr <;> rfl
  | reaped he' hctx' => exact absurd (hctx'.symm.trans hctx) nofun
  | created prio he' => cases he'
  | exited status he' => cases he'
  | joining uid' he' => cases he'
  | joined uid' he' => cases he'
  | detached uid' he' => cases he'

theorem Machine.Sound.stores (hs : s.Sound) (hok : JoinsOk tr s) (he : e.Enabled s.core)
    (hp : Allowed s.core e) (hrun : e.run s = .ok (r, s')) {v : Int}
    (hv : (Moment.mk s e r s').stores = some v) : ∃ t, Stores tr ⟨s, e, r, s'⟩ v t := by
  unfold Moment.stores at hv
  split at hv
  · rename_i uid ret he' hr
    cases he'
    cases hr
    rw [Option.ite_none_right_eq_some] at hv
    obtain ⟨hzero, ⟨rfl⟩⟩ := hv
    exact ⟨_, hs.stores_call he hp hrun hzero⟩
  · rename_i ret he' hr
    cases he'
    cases hr
    split at hv
    · rename_i t hctx
      rw [Option.ite_none_right_eq_some] at hv
      obtain ⟨-, ⟨rfl⟩⟩ := hv
      exact ⟨_, hs.stores_resume hok he hrun hctx⟩
    · cases hv
  · cases hv

omit [DecidableEq M] [DecidableEq C] in
/-- Only `uthread_exit` adds to the exit statuses. -/
theorem exits_cons (tr : List (Moment M C)) (m : Moment M C) : exits (m :: tr) = exits tr ∨
    ∃ status, m.event = .call (.exit status) ∧ exits (m :: tr) =
      ((m.before.core.utCurthr, incarnation tr m.before.core.utCurthr), status) :: exits tr := by
  unfold exits
  split
  · rename_i status he
    refine Or.inr ⟨status, he, ?_⟩
    cases tr <;> rfl
  · refine Or.inl ?_
    cases tr <;> rfl

omit [DecidableEq M] [DecidableEq C] in
theorem exits_mono {m : Moment M C} {x : (Nat × Nat) × Int} (hx : x ∈ exits tr) :
    x ∈ exits (m :: tr) := by
  rcases exits_cons tr m with h | ⟨status, -, h⟩
  · rw [h]
    exact hx
  · rw [h]
    exact List.mem_cons_of_mem _ hx

namespace Deliveries

theorem status_step (hd : Deliveries tr s) (hs : s.Sound) (he : e.Enabled s.core)
    (hp : Allowed s.core e) (hrun : e.run s = .ok (r, s')) (hz : s'.core.state t = .zombie) :
    ((t, incarnation (⟨s, e, r, s'⟩ :: tr) t), (s'.core.uthreads t).utExit) ∈
      exits (⟨s, e, r, s'⟩ :: tr) := by
  have hc : (Moment.mk s e r s').created ≠ some t := by
    intro hc
    have hrun' := (hs.created he hp hrun hc).2.2.1
    exact UthreadState.noConfusion (hrun'.symm.trans hz)
  rw [incarnation_of_not_created hc]
  have hkeep {r₀ : Uthread} (h : r₀.Steady (s'.core.uthreads t))
      (hstate : r₀.utState = s.core.state t) (hexit : r₀.utExit = (s.core.uthreads t).utExit) :
      ((t, incarnation tr t), (s'.core.uthreads t).utExit) ∈ exits (⟨s, e, r, s'⟩ :: tr) := by
    rw [h.exit, hexit]
    exact exits_mono (hd.status t (hstate.symm.trans (h.zombie.mp hz)))
  cases hs.recChange he hp hrun t with
  | steady hnot h => exact hkeep h rfl rfl
  | created prio he' hr => exact absurd hr (Moment.new_of_not_created hc prio he')
  | exited status he' hu hafter =>
      subst he' hu
      rw [hafter.exit]
      exact List.mem_cons_self
  | joining uid he' hr hu hjoin hexit hafter => exact hkeep hafter rfl rfl
  | joined uid he' hr hu hjoin hexit hafter => exact hkeep hafter rfl rfl
  | detached uid he' hr hu hthread hcur hdet hafter => exact hkeep hafter rfl rfl
  | rejoined he' hctx hr hafter => exact hkeep hafter rfl rfl
  | reaped he' hctx hmem hafter =>
      exact UthreadState.noConfusion ((congrArg Uthread.utState hafter).symm.trans hz)

/-- The thread that exits is a zombie. -/
theorem exited (hs : s.Sound) {status : Int} (he : Event.Enabled s.core (.call (.exit status)))
    (hrun : (Event.call (.exit status)).run s = .ok (r, s')) :
    s'.core.state s.core.utCurthr = .zombie := by
  cases hs.recChange he trivial hrun s.core.utCurthr with
  | steady hnot h => exact absurd rfl hnot
  | exited status' he' hu hafter => exact hafter.zombie.mpr rfl
  | created prio he' => cases he'
  | joining uid he' => cases he'
  | joined uid he' => cases he'
  | detached uid he' => cases he'
  | rejoined he' => cases he'
  | reaped he' => cases he'

theorem ended_step (hd : Deliveries tr s) (hs : s.Sound) (he : e.Enabled s.core)
    (hp : Allowed s.core e) (hrun : e.run s = .ok (r, s')) {v : Int}
    (hx : ((t, g), v) ∈ exits (⟨s, e, r, s'⟩ :: tr)) :
    g < incarnation (⟨s, e, r, s'⟩ :: tr) t ∨ g = incarnation (⟨s, e, r, s'⟩ :: tr) t ∧
      (s'.core.state t = .zombie ∨ s'.core.state t = .noState) := by
  have hold (hx : ((t, g), v) ∈ exits tr) :
      g < incarnation (⟨s, e, r, s'⟩ :: tr) t ∨ g = incarnation (⟨s, e, r, s'⟩ :: tr) t ∧
        (s'.core.state t = .zombie ∨ s'.core.state t = .noState) := by
    have hbefore := hd.ended t g v hx
    rw [incarnation_cons]
    split
    · omega
    · rename_i hc
      refine hbefore.imp id fun h => ⟨h.1, ?_⟩
      exact (hs.recChange he hp hrun t).ended h.2 (Moment.new_of_not_created hc)
  rcases exits_cons tr ⟨s, e, r, s'⟩ with h | ⟨code, he', h⟩
  · rw [h] at hx
    exact hold hx
  · rw [h] at hx
    rcases List.mem_cons.mp hx with hnew | hx
    · cases hnew
      have he' : e = .call (.exit v) := he'
      subst he'
      refine Or.inr ⟨?_, Or.inl (exited hs he hrun)⟩
      rw [incarnation_of_not_created (by nofun)]
    · exact hold hx

omit [DecidableEq M] [DecidableEq C] in
/-- The thread that exits did not exit before. -/
theorem exitOnce_step (hd : Deliveries tr s) (hs : s.Sound) (he : e.Enabled s.core) :
    ((exits (⟨s, e, r, s'⟩ :: tr)).map Prod.fst).Nodup := by
  rcases exits_cons tr ⟨s, e, r, s'⟩ with h | ⟨status, he', h⟩
  · rw [h]
    exact hd.exitOnce
  · have he' : e = .call (.exit status) := he'
    subst he'
    rw [h, List.map_cons, List.nodup_cons]
    refine ⟨?_, hd.exitOnce⟩
    intro hmem
    obtain ⟨⟨⟨t, g⟩, v⟩, hx, hkey⟩ := List.mem_map.mp hmem
    cases hkey
    have hon := (hs.good.cur he.1).2
    rcases hd.ended _ _ v hx with hlt | ⟨-, hz | hno⟩
    · exact lt_irrefl _ hlt
    · exact UthreadState.noConfusion (hz.symm.trans hon)
    · exact UthreadState.noConfusion (hno.symm.trans hon)

end Deliveries

omit [DecidableEq M] [DecidableEq C] in
/-- A moment adds to the joins that returned 0 if it stores a value. -/
theorem joined_cons (tr : List (Moment M C)) (m : Moment M C) : joined (m :: tr) = joined tr ∧ m.stores = none ∨
    ∃ v, m.stores = some v ∧
      joined (m :: tr) = (joining (m :: tr) m.before.core.utCurthr, v) :: joined tr := by
  cases hv : m.stores with
  | none =>
      refine Or.inl ⟨?_, rfl⟩
      rw [joined, hv]
  | some v =>
      refine Or.inr ⟨v, rfl, ?_⟩
      rw [joined, hv]

namespace Deliveries

theorem delivered_step (hd : Deliveries tr s) (hs : s.Sound) (hok : JoinsOk tr s)
    (he : e.Enabled s.core) (hp : Allowed s.core e) (hrun : e.run s = .ok (r, s'))
    {k : Option (Nat × Nat)} {v : Int} (hx : (k, v) ∈ joined (⟨s, e, r, s'⟩ :: tr)) :
    ∃ i, k = some i ∧ (i, v) ∈ exits (⟨s, e, r, s'⟩ :: tr) := by
  have hold (hx : (k, v) ∈ joined tr) :
      ∃ i, k = some i ∧ (i, v) ∈ exits (⟨s, e, r, s'⟩ :: tr) := by
    obtain ⟨i, hi, hmem⟩ := hd.delivered k v hx
    exact ⟨i, hi, exits_mono hmem⟩
  rcases joined_cons tr ⟨s, e, r, s'⟩ with ⟨h, -⟩ | ⟨v', hv, h⟩
  · rw [h] at hx
    exact hold hx
  · rw [h] at hx
    rcases List.mem_cons.mp hx with hnew | hx
    · obtain ⟨t, hst⟩ := hs.stores hok he hp hrun hv
      cases hnew
      refine ⟨_, hst.target, ?_⟩
      rw [hst.value]
      exact exits_mono (hd.status t hst.zombie)
    · exact hold hx

theorem past_step (hd : Deliveries tr s) (hs : s.Sound) (hok : JoinsOk tr s)
    (he : e.Enabled s.core) (hp : Allowed s.core e) (hrun : e.run s = .ok (r, s')) {v : Int}
    (hx : (some (t, g), v) ∈ joined (⟨s, e, r, s'⟩ :: tr)) :
    g < incarnation (⟨s, e, r, s'⟩ :: tr) t ∨ g = incarnation (⟨s, e, r, s'⟩ :: tr) t ∧
      (s'.core.state t = .zombie ∧ (s'.core.uthreads t).utDetached = true ∨
        s'.core.state t = .noState) := by
  have hcur : e ≠ .switch → s.core.state s.core.utCurthr = .onCpu := by
    intro hne
    cases e with
    | call c => exact (hs.good.cur he.1).2
    | resume => exact (hs.good.cur he.1).2
    | switch => exact absurd rfl hne
  have hold (hx : (some (t, g), v) ∈ joined tr) :
      g < incarnation (⟨s, e, r, s'⟩ :: tr) t ∨ g = incarnation (⟨s, e, r, s'⟩ :: tr) t ∧
        (s'.core.state t = .zombie ∧ (s'.core.uthreads t).utDetached = true ∨
          s'.core.state t = .noState) := by
    have hbefore := hd.past t g v hx
    rw [incarnation_cons]
    split
    · omega
    · rename_i hc
      refine hbefore.imp id fun h => ⟨h.1, ?_⟩
      exact (hs.recChange he hp hrun t).spent hcur h.2 (Moment.new_of_not_created hc)
  rcases joined_cons tr ⟨s, e, r, s'⟩ with ⟨h, -⟩ | ⟨v', hv, h⟩
  · rw [h] at hx
    exact hold hx
  · rw [h] at hx
    rcases List.mem_cons.mp hx with hnew | hx
    · obtain ⟨t', hst⟩ := hs.stores hok he hp hrun hv
      obtain ⟨hkey, -⟩ := Prod.mk.inj hnew
      cases hkey.trans hst.target
      refine Or.inr ⟨?_, Or.inl hst.after⟩
      rw [incarnation_of_not_created]
      refine hs.not_created he hp hrun ?_
      rw [hst.zombie]
      nofun
    · exact hold hx

/-- The thread that is joined was not joined before. -/
theorem joinOnce_step (hd : Deliveries tr s) (hs : s.Sound) (hok : JoinsOk tr s)
    (he : e.Enabled s.core) (hp : Allowed s.core e) (hrun : e.run s = .ok (r, s')) :
    ((joined (⟨s, e, r, s'⟩ :: tr)).map Prod.fst).Nodup := by
  rcases joined_cons tr ⟨s, e, r, s'⟩ with ⟨h, -⟩ | ⟨v', hv, h⟩
  · rw [h]
    exact hd.joinOnce
  · obtain ⟨t, hst⟩ := hs.stores hok he hp hrun hv
    rw [h, List.map_cons, List.nodup_cons, hst.target]
    refine ⟨?_, hd.joinOnce⟩
    intro hmem
    obtain ⟨⟨k, v⟩, hx, hkey⟩ := List.mem_map.mp hmem
    cases hkey
    rcases hd.past _ _ v hx with hlt | ⟨-, ⟨-, hdet⟩ | hno⟩
    · exact lt_irrefl _ hlt
    · exact Bool.noConfusion (hst.attached.symm.trans hdet)
    · exact UthreadState.noConfusion (hst.zombie.symm.trans hno)

theorem step (hd : Deliveries tr s) (hs : s.Sound) (hok : JoinsOk tr s)
    (he : e.Enabled s.core) (hp : Allowed s.core e) (hrun : e.run s = .ok (r, s')) :
    Deliveries (⟨s, e, r, s'⟩ :: tr) s' where
  status _ hz := hd.status_step hs he hp hrun hz
  ended _ _ _ hx := hd.ended_step hs he hp hrun hx
  exitOnce := hd.exitOnce_step hs he
  delivered _ _ hx := hd.delivered_step hs hok he hp hrun hx
  past _ _ _ hx := hd.past_step hs hok he hp hrun hx
  joinOnce := hd.joinOnce_step hs hok he hp hrun

end Deliveries

/-! ### Every run -/

/-- While thread `w` is blocked in `uthread_join` of `t` it relies on `t`, it is woken when `t`
exits, and each join that returned 0 stored the exit status of the thread it was called for, which
no other join has stored. -/
structure JoinDelivers (tr : List (Moment M C)) (s : Machine M C) : Prop where
  waiting : ∀ w t, w < uthMaxUthreads → s.core.state w = .wait → s.core.utCtx w = .join t →
    Awaits tr s w t
  wakes : ∀ status r s', Event.Enabled s.core (.call (.exit status)) →
    (Event.call (.exit status)).run s = .ok (r, s') → ∀ w, w < uthMaxUthreads →
      s.core.state w = .wait → s.core.utCtx w = .join s.core.utCurthr →
        s'.core.state w = .runnable
  stored : ∀ k v, (k, v) ∈ joined tr → ∃ i, k = some i ∧ (i, v) ∈ exits tr
  exitOnce : ((exits tr).map Prod.fst).Nodup
  joinOnce : ((joined tr).map Prod.fst).Nodup

theorem JoinsOk.exit_wakes (hs : s.Sound) (hok : JoinsOk tr s) {status : Int}
    (he : Event.Enabled s.core (.call (.exit status)))
    (hrun : (Event.call (.exit status)).run s = .ok (r, s')) (hw : w < uthMaxUthreads)
    (hwait : s.core.state w = .wait) (hctx : s.core.utCtx w = .join s.core.utCurthr) :
    s'.core.state w = .runnable := by
  have haw := hok w _ hw (Abs.Inv.alive_of_wait (a := s.abs) hwait) hctx
  have hdet : s.abs.core.cur.utDetached = false := haw.attached
  have hwaiter : s.abs.core.cur.utWaiter = some w := haw.waiter
  have hne := Abs.Inv.ne_cur_of_wait (a := s.abs) (hs.good.running he) hwait
  obtain ⟨-, habs, -⟩ := hs.step he trivial hrun
  have hcore : s'.core = (s.abs.exit status).core := congrArg Abs.core habs
  have hdie : (s.abs.die status).core.state w = .wait := by
    rw [Abs.state_die, if_neg hne]
    exact hwait
  rw [hcore]
  change ((s.abs.die status).afterExit _ _).core.state w = .runnable
  rw [hdet, hwaiter]
  exact Abs.state_wake.trans (if_pos ⟨rfl, hdie⟩)

omit [DecidableEq M] [DecidableEq C] in
theorem Unshared.allowed {c : Core M C} (h : Unshared c e) : Allowed c e := Careful.allowed h.1

omit [DecidableEq M] [DecidableEq C] in
theorem Abs.ne_zombie_initial (t : Nat) : (Abs.initial : Abs M C).core.state t ≠ .zombie := by
  unfold Core.state Abs.initial
  simp only []
  split
  · nofun
  split
  · nofun
  split
  · nofun
  · nofun

theorem Run.deliveries (hrun : Run Unshared started tr s) : JoinsOk tr s ∧ Deliveries tr s := by
  induction hrun with
  | start =>
      have hcore : (started : Machine M C).core = (Abs.initial : Abs M C).core :=
        congrArg Abs.core abs_started
      refine ⟨?_, ?_, nofun, List.nodup_nil, nofun, nofun, List.nodup_nil⟩
      · intro w t hw _ hctx
        rw [hcore] at hctx
        exact absurd hctx ((Abs.idle_initial hw).2.1 t)
      · intro t hz
        rw [hcore] at hz
        exact absurd hz (Abs.ne_zombie_initial t)
  | step hrun he hp hok ih =>
      have hs := hrun.sound fun _ _ h => Unshared.allowed h
      exact ⟨ih.1.step hs he hp hok, ih.2.step hs ih.1 he hp.allowed hok⟩

/-- In every run in which no thread that another one joins is joined or detached again, a join
delivers the exit status of the thread it was called for. -/
theorem join_delivers (hrun : Run Unshared started tr s) : JoinDelivers tr s := by
  have hs := hrun.sound fun _ _ h => Unshared.allowed h
  obtain ⟨hok, hd⟩ := hrun.deliveries
  exact ⟨fun w t hw hwait => hok w t hw (Abs.Inv.alive_of_wait (a := s.abs) hwait),
    fun _ _ _ he hrun _ hw => hok.exit_wakes hs he hrun hw, hd.delivered, hd.exitOnce, hd.joinOnce⟩

/-- Thread 1 joins thread 2, which runs until thread 1 has its exit status. -/
theorem join_delivers_once : ∃ (tr : List (Moment Unit Unit)) (s : Machine Unit Unit),
    tr.length = 6 ∧ s.core.utCurthr = 1 ∧ JoinDelivers tr s := by
  have hf : (Abs.initial : Abs Unit Unit).Follows Unshared
      [.call (.create 7), .call (.join 2), .switch, .call (.exit 5), .switch, .resume] := by
    refine ⟨⟨rfl, rfl⟩, ⟨trivial, nofun⟩, trivial, fun f h => h.2 (by decide), ?_⟩
    refine ⟨⟨rfl, rfl⟩, ⟨fun _ => rfl, nofun⟩, fun _ _ => rfl, fun f h => h, ?_⟩
    refine ⟨rfl, ⟨trivial, nofun⟩, trivial, fun f h => h, ?_⟩
    refine ⟨⟨rfl, rfl⟩, ⟨trivial, nofun⟩, trivial, fun f h => h, ?_⟩
    refine ⟨rfl, ⟨trivial, nofun⟩, trivial, fun f h => h, ?_⟩
    refine ⟨⟨rfl, nofun⟩, ⟨trivial, nofun⟩, trivial, fun f h => absurd h.2.1 (by decide), trivial⟩
  obtain ⟨tr, s, hrun, -, habs, hevents⟩ := Run.of_events hf
  refine ⟨tr, s, ?_, ?_, join_delivers hrun⟩
  · rw [← List.length_map, hevents]
    rfl
  · exact congrArg (fun a => a.core.utCurthr) habs

/-- Thread 3 detaches thread 2 while thread 1 is in `uthread_join` of it. -/
theorem join_detached : ∃ (tr : List (Moment Unit Unit)) (s : Machine Unit Unit),
    Run (fun _ _ => True) started tr s ∧ ¬ JoinDelivers tr s := by
  have hf : (Abs.initial : Abs Unit Unit).Follows (fun _ _ => True)
      [.call (.create 7), .call (.create 7), .call (.join 2), .switch, .call .yield, .switch,
        .call (.detach 2)] := by
    refine ⟨⟨rfl, rfl⟩, trivial, trivial, fun f h => h.2 (by decide), ?_⟩
    refine ⟨⟨rfl, rfl⟩, trivial, trivial, fun f h => h.2 (by decide), ?_⟩
    refine ⟨⟨rfl, rfl⟩, trivial, fun _ _ => rfl, fun f h => h, ?_⟩
    refine ⟨rfl, trivial, trivial, fun f h => h, ?_⟩
    refine ⟨⟨rfl, rfl⟩, trivial, trivial, fun f h => h, ?_⟩
    refine ⟨rfl, trivial, trivial, fun f h => h, ?_⟩
    exact ⟨⟨rfl, rfl⟩, trivial, trivial, fun f h => absurd h.2.2 (by decide), trivial⟩
  obtain ⟨tr, s, hrun, -, habs, -⟩ := Run.of_events hf
  refine ⟨tr, s, hrun, ?_⟩
  intro hok
  have hwait : s.core.state 1 = .wait := congrArg (fun a => a.core.state 1) habs
  have hctx : s.core.utCtx 1 = .join 2 := congrArg (fun a => a.core.utCtx 1) habs
  have hdet : (s.core.uthreads 2).utDetached = true :=
    congrArg (fun a => (a.core.uthreads 2).utDetached) habs
  have hattached := (hok.waiting 1 2 (by decide) hwait hctx).attached
  exact Bool.noConfusion (hattached.symm.trans hdet)

end CodingSample.Uthreads
