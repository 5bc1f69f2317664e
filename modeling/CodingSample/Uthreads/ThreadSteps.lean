import CodingSample.Uthreads.SyncSteps

/-!
# Creating, ending and joining threads on the abstract machine
-/

namespace CodingSample.Uthreads

open Prog

variable {M C : Type} [DecidableEq M] [DecidableEq C] {s : Machine M C} {a : Abs M C}
  {h : Head M C} {t : Nat} {E : Fault → Prop}

/-- The records and contexts of the threads of a list wiped. -/
def Core.destroy (c : Core M C) (l : List Nat) : Core M C :=
  { c with
    uthreads := fun u => if u ∈ l then .zero else c.uthreads u
    utCtx := fun u => if u ∈ l then .none else c.utCtx u
    ctxStack := fun u => if u ∈ l then none else c.ctxStack u }

/-- A call of `uthread_join` that passes the checks. -/
def Joins (c : Core M C) (uid : Int) : Prop :=
  ¬ NoThread c uid ∧ c.cur.utWaiter = none ∧ (c.uthreads uid.toNat).utDetached = false

/-- A call of `uthread_detach` that passes the checks. -/
def Detaches (c : Core M C) (uid : Int) : Prop :=
  ¬ NoThread c uid ∧ (c.uthreads uid.toNat).utDetached = false ∧ c.cur.utWaiter = none

namespace Abs

variable (a)

/-- Thread `t` starts to exist. -/
def spawn (t : Nat) (start : Ctx M C) (prio : Int) : Abs M C :=
  (a.onCore fun c => (((c.setThread t { Uthread.zero with
      utId := t, utState := .runnable, utPrio := prio }).pushStack).makecontext t start
        c.nextStack)).setQ (runqTable prio) (t :: a.q (runqTable prio))

def create (start : Ctx M C) (prio : Int) : Ret × Abs M C :=
  match uthreadAllocFrom a.core 0 uthMaxUthreads with
  | none => ((-1, 0), a)
  | some t => ((0, t), a.spawn t start prio)

def reapable (t : Nat) : Abs M C := (a.setQ .reap (a.q .reap ++ [t])).wake a.core.reaperThrId

/-- The current thread is a zombie. -/
def die (status : Int) : Abs M C :=
  a.onCore fun c => c.setThread c.utCurthr
    { c.cur with utState := .zombie, utExit := status, utHasExited := true }

def afterExit (detached : Bool) (waiter : Option Nat) : Abs M C :=
  if detached then
    a.reapable a.core.utCurthr
  else
    match waiter with
    | some waiter => a.wake waiter
    | none => a

def exit (status : Int) : Abs M C :=
  ((a.die status).afterExit a.core.cur.utDetached a.core.cur.utWaiter).switchOut .exited

def setDetached (t : Nat) : Abs M C :=
  a.onCore fun c => c.setThread t { c.uthreads t with utDetached := true }

def setWaiter (t : Nat) : Abs M C :=
  a.onCore fun c => c.setThread t { c.uthreads t with utWaiter := some c.utCurthr }

def joinLoop (uid : Nat) : Option Ret × Abs M C :=
  if (a.core.uthreads uid).utHasExited = false then
    (none, a.block (.join uid))
  else
    (some (0, (a.core.uthreads uid).utExit), (a.setDetached uid).reapable uid)

def join (uid : Int) : Option Ret × Abs M C :=
  if NoThread a.core uid then
    (some (esrch, 0), a.setErrno esrch)
  else if a.core.cur.utWaiter = some uid.toNat then
    (some (edeadlk, 0), a.setErrno edeadlk)
  else if a.core.cur.utWaiter ≠ none ∨ (a.core.uthreads uid.toNat).utDetached then
    (some (einval, 0), a.setErrno einval)
  else
    (a.setWaiter uid.toNat).joinLoop uid.toNat

def detach (uid : Int) : Int × Abs M C :=
  if NoThread a.core uid then
    (esrch, a.setErrno esrch)
  else if (a.core.uthreads uid.toNat).utDetached ∨ a.core.cur.utWaiter ≠ none then
    (einval, a.setErrno einval)
  else
    (0, a.setDetached uid.toNat)

/-- The reaper wipes the threads on its list. -/
def reapAll : Abs M C := (a.onCore fun c => c.destroy (a.q .reap)).setQ .reap []

end Abs

/-! ### Creating -/

theorem ewp_zeroThread (hv : View s a) (hfree : a.Free t) :
    ewp (zeroThread t) (fun _ s' => View s' (a.onCore fun c => c.wipe t)) E s := by
  obtain ⟨hn, hp⟩ := hv.rings.null_iff.1.mpr hfree
  have hsame : (s.links.setNext (.inr t) none).setPrev (.inr t) none = s.links := by
    unfold Links.setNext Links.setPrev
    rw [← hn, Function.update_eq_self, hn, ← hp, Function.update_eq_self]
  unfold zeroThread
  rw [ewp_bind, ewp_modifyCore]
  refine ewp_editLinks rfl ?_
  change View { s with core := _, links := (s.links.setNext (.inr t) none).setPrev _ none } _
  rw [hsame]
  exact hv.onCore fun c => c.wipe t

omit [DecidableEq M] [DecidableEq C] in
theorem uthreadAllocFrom_spec {c : Core M C} {i n : Nat} (hn : n + i = 64)
    (hfound : uthreadAllocFrom c i n = some t) : t < uthMaxUthreads ∧ c.state t = .noState := by
  induction n generalizing i with
  | zero => cases hfound
  | succ n ih =>
      unfold uthreadAllocFrom at hfound
      split at hfound
      · rename_i hstate
        cases hfound
        refine ⟨?_, hstate⟩
        rw [uthMaxUthreads]
        omega
      · exact ih (by omega) hfound

theorem Abs.setprio_spawn (hlt : t < uthMaxUthreads) (hfree : a.Free t) {prio : Int}
    (hprio : 0 ≤ prio ∧ prio ≤ uthMaxprio) {b : Abs M C}
    (hb : b = (a.onCore fun c => c.wipe t).onCore fun c => c.setThread t
      { c.uthreads t with utId := t, utState := .runnable }) :
    b.setprio t prio = (0, (b.onCore fun c => c.setPrio t prio).setQ (runqTable prio)
      (t :: a.q (runqTable prio))) := by
  have hstate : b.core.state t = .runnable := by
    simp [hb, Abs.onCore, Core.state, Core.setThread]
  have hq : b.q = a.q := by rw [hb]; rfl
  have herase (g : Head M C) : (a.q g).erase t = a.q g := List.erase_of_not_mem (hfree g)
  unfold Abs.setprio
  rw [if_neg (by omega), Int.toNat_natCast, hstate, if_neg (by simp at hlt ⊢; omega), if_pos rfl,
    Abs.requeue, hq, herase]
  have hsame : b.setQ (runqTable (b.core.uthreads t).utPrio)
      (a.q (runqTable (b.core.uthreads t).utPrio)) = b := by
    rw [← hq]
    simp [Abs.setQ]
  rw [hsame, hq]

omit [DecidableEq M] [DecidableEq C] in
theorem Core.makecontext_wipe (c : Core M C) (t : Nat) (start : Ctx M C) (prio : Int) (n : Nat) :
    ((((c.wipe t).setThread t { (c.wipe t).uthreads t with
      utId := t, utState := .runnable }).setPrio t prio).pushStack).makecontext t start n =
    ((c.setThread t { Uthread.zero with
      utId := t, utState := .runnable, utPrio := prio }).pushStack).makecontext t start n := by
  simp [Core.wipe, Core.setThread, Core.setPrio, Core.pushStack, Core.makecontext, Core.setCtx]

theorem ewp_uthreadCreate (hv : View s a) (start : Ctx M C) (prio : Int)
    (hfree : ∀ t, t < uthMaxUthreads → a.core.state t = .noState → a.Free t)
    (hE : ¬ (0 ≤ prio ∧ prio ≤ uthMaxprio) → E .exitFailure) :
    ewp (uthreadCreate start prio) (fun r s' => r = (a.create start prio).1 ∧
      View s' (a.create start prio).2 ∧ (r.1 = 0 → 0 ≤ prio ∧ prio ≤ uthMaxprio)) E s := by
  unfold uthreadCreate uthreadAlloc Abs.create
  rw [ewp_bind, ewp_bind, ewp_getCore, hv.core, ewp_pure]
  cases hfound : uthreadAllocFrom a.core 0 uthMaxUthreads with
  | none => exact ⟨rfl, hv, fun h => absurd h (by decide)⟩
  | some t =>
      obtain ⟨hlt, hstate⟩ := uthreadAllocFrom_spec rfl hfound
      have hfree := hfree t hlt hstate
      refine ewp_bind_of (ewp_zeroThread hv hfree) ?_
      intro _ s1 hv1
      rw [ewp_bind, ewp_modifyCore, ewp_bind]
      have hv2 := hv1.onCore fun c => c.setThread t
        { c.uthreads t with utId := t, utState := .runnable }
      have hset : ewp (uthreadSetprio t prio) _ E _ :=
        ewp_uthreadSetprio hv2 fun _ _ => Or.inr hfree
      refine ewp_mono hset ?_ fun _ he => he
      rintro r s3 ⟨rfl, hv3⟩
      rw [ewp_bind, ewp_check]
      by_cases hprio : 0 ≤ prio ∧ prio ≤ uthMaxprio
      · rw [Abs.setprio_spawn hlt hfree hprio rfl] at hv3 ⊢
        refine ⟨fun _ => ?_, fun h => absurd (of_decide_eq_false h) (not_not_intro rfl)⟩
        refine ⟨rfl, ?_, fun _ => hprio⟩
        have hnext : s3.core.nextStack = a.core.nextStack := by rw [hv3.core]; rfl
        have hv4 := (hv3.onCore fun c => c.pushStack).onCore fun c =>
          c.makecontext t start s3.core.nextStack
        have hcore := Core.makecontext_wipe a.core t start prio a.core.nextStack
        rw [← hnext] at hcore
        refine ⟨hv4.core.trans (hcore.trans ?_), hv4.rings, hv4.size⟩
        rw [hnext]
        rfl
      · refine ⟨fun h => ?_, fun _ => hE hprio⟩
        rw [Abs.setprio, if_pos (by omega)] at h
        exact absurd (of_decide_eq_true h) (by simp)

/-! ### Ending and joining -/

/-- What `make_reapable` relies on beyond its assertions. -/
structure Abs.Reapable (a : Abs M C) (t : Nat) : Prop where
  free : a.Free t
  alive : a.core.state a.core.reaperThrId ≠ .noState
  reaper : a.core.state a.core.reaperThrId = .wait →
    (a.setQ .reap (a.q .reap ++ [t])).Wakeable a.core.reaperThrId

theorem ewp_makeReapable (hv : View s a) (hr : a.Reapable t)
    (hdetached : (a.core.uthreads t).utDetached = true) (hzombie : a.core.state t = .zombie) :
    ewp (makeReapable t) (fun _ s' => View s' (a.reapable t)) E s := by
  unfold makeReapable
  rw [ewp_bind, ewp_getCore, hv.core, ewp_bind]
  refine ewp_assert hdetached ?_
  rw [ewp_bind]
  refine ewp_assert (decide_eq_true hzombie) ?_
  obtain ⟨l, hins, hrings⟩ := hv.rings.insertTail_spec (h := .reap) hr.free
  rw [ewp_bind]
  refine ewp_editLinks hins ?_
  have hv1 : View { s with links := l } (a.setQ .reap (a.q .reap ++ [t])) := by
    refine ⟨hv.core, hrings, ?_⟩
    intro g hg
    change s.tqSize g = (Function.update a.q .reap _ g).length
    rw [Function.update_of_ne hg, hv.size g hg]
  exact ewp_uthreadWake hv1 hr.alive hr.reaper

theorem ewp_uthreadExit (hv : View s a) (status : Int) (hcur : a.core.cur.utState = .onCpu)
    (hreap : a.core.cur.utDetached = true → (a.die status).Reapable a.core.utCurthr)
    (hwaiter : ∀ w, a.core.cur.utWaiter = some w →
      (a.die status).core.state w ≠ .noState ∧
        ((a.die status).core.state w = .wait → (a.die status).Wakeable w)) :
    ewp (uthreadExit status) (fun _ s' => View s' (a.exit status)) E s := by
  unfold uthreadExit Abs.exit
  rw [ewp_bind, ewp_getCore, hv.core, ewp_bind]
  refine ewp_assert (decide_eq_true hcur) ?_
  rw [ewp_bind, ewp_modifyCore]
  have hv1 := hv.onCore fun c => c.setThread c.utCurthr
    { c.cur with utState := .zombie, utExit := status, utHasExited := true }
  refine ewp_bind_of (Q := fun _ s' => View s'
    ((a.die status).afterExit a.core.cur.utDetached a.core.cur.utWaiter)) ?_ ?_
  · unfold afterExit Abs.afterExit
    rw [ewp_bind, ewp_getCore, hv1.core]
    cases hdet : a.core.cur.utDetached with
    | true =>
        rw [if_pos rfl, if_pos rfl]
        refine ewp_makeReapable hv1 (hreap hdet) ?_ ?_
        · simpa [Abs.die, Abs.onCore, Core.setThread] using hdet
        · simp [Abs.die, Abs.onCore, Core.setThread, Core.state]
    | false =>
        rw [if_neg Bool.false_ne_true, if_neg Bool.false_ne_true]
        cases hw : a.core.cur.utWaiter with
        | none => exact hv1
        | some w => exact ewp_uthreadWake hv1 (hwaiter w hw).1 (hwaiter w hw).2
  · intro _ s2 hv2
    exact ewp_uthreadSwitch (E := E) hv2 .exited

theorem ewp_joinLoop (hv : View s a) (uid : Nat) (hcur : a.core.cur.utState = .onCpu)
    (hexit : (a.core.uthreads uid).utHasExited = true →
      a.core.state uid = .zombie ∧ (a.setDetached uid).Reapable uid) :
    ewp (joinLoop uid) (fun r s' => r = (a.joinLoop uid).1 ∧ View s' (a.joinLoop uid).2) E s := by
  unfold joinLoop Abs.joinLoop
  rw [ewp_bind, ewp_getCore, hv.core]
  split
  · rw [ewp_bind]
    refine ewp_mono (ewp_uthreadBlock (E := E) hv hcur (.join uid)) ?_ fun _ he => he
    intro _ s1 hv1
    exact ⟨rfl, hv1⟩
  · rename_i hexited
    obtain ⟨hzombie, hreap⟩ := hexit (by simpa using hexited)
    rw [ewp_bind, ewp_modifyCore]
    have hv1 := hv.onCore fun c =>
      c.setThread uid { c.uthreads uid with utDetached := true }
    rw [ewp_bind]
    refine ewp_mono (ewp_makeReapable (E := E) hv1 hreap ?_ ?_) ?_ fun _ he => he
    · simp [Abs.onCore, Core.setThread]
    · simpa [Abs.onCore, Core.setThread, Core.state] using hzombie
    · intro _ s2 hv2
      exact ⟨rfl, hv2⟩

theorem ewp_uthreadJoin (hv : View s a) (uid : Int) (hcur : a.core.cur.utState = .onCpu)
    (hloop : Joins a.core uid →
      (a.setWaiter uid.toNat).core.cur.utState = .onCpu ∧
        ((a.core.uthreads uid.toNat).utHasExited = true → a.core.state uid.toNat = .zombie ∧
          ((a.setWaiter uid.toNat).setDetached uid.toNat).Reapable uid.toNat)) :
    ewp (uthreadJoin uid) (fun r s' => r = (a.join uid).1 ∧ View s' (a.join uid).2) E s := by
  unfold uthreadJoin Abs.join
  rw [ewp_bind, ewp_getCore, hv.core, ewp_bind]
  refine ewp_assert (decide_eq_true hcur) ?_
  have hfail (errno : Int) : ewp (do
      let errno ← failWith errno
      pure (some (errno, (0 : Int))))
      (fun r s' => r = some (errno, 0) ∧ View s' (a.setErrno errno)) E s := by
    refine ewp_bind_of (ewp_failWith hv errno) ?_
    rintro r s1 ⟨rfl, hv1⟩
    exact ⟨rfl, hv1⟩
  split
  · exact hfail _
  rename_i hthread
  split
  · exact hfail _
  split
  · exact hfail _
  rename_i hguard
  have hjoin : Joins a.core uid := by
    refine ⟨hthread, ?_, ?_⟩
    · exact Classical.not_not.mp (not_or.mp hguard).1
    · simpa using (not_or.mp hguard).2
  obtain ⟨hcur', hexit⟩ := hloop hjoin
  rw [ewp_bind, ewp_modifyCore]
  have hv1 := hv.onCore fun c => c.setThread uid.toNat
    { c.uthreads uid.toNat with utWaiter := some c.utCurthr }
  refine ewp_joinLoop hv1 uid.toNat hcur' ?_
  intro hexited
  have hrec : (a.core.uthreads uid.toNat).utHasExited = true := by
    simpa [Abs.onCore, Core.setThread] using hexited
  refine ⟨?_, (hexit hrec).2⟩
  simpa [Abs.onCore, Core.setThread, Core.state] using (hexit hrec).1

/-- Only `uthread_detach` of an exited thread fails its assertion. -/
theorem ewp_uthreadDetach (hv : View s a) (uid : Int)
    (hE : Detaches a.core uid → a.core.state uid.toNat = .zombie →
      E (.assertion .makeReapable)) :
    ewp (uthreadDetach uid)
      (fun r s' => r = (a.detach uid).1 ∧ View s' (a.detach uid).2 ∧
        (r = 0 → a.core.state uid.toNat ≠ .zombie)) E s := by
  unfold uthreadDetach Abs.detach
  rw [ewp_bind, ewp_getCore, hv.core]
  have hfail (errno : Int) (hne : errno ≠ 0) : ewp (failWith errno)
      (fun r s' => r = errno ∧ View s' (a.setErrno errno) ∧
        (r = 0 → a.core.state uid.toNat ≠ .zombie)) E s :=
    ⟨rfl, hv.onCore fun c => c.setErrno c.utCurthr errno, fun h => absurd h hne⟩
  split
  · exact hfail _ (by decide)
  rename_i hthread
  split
  · exact hfail _ (by decide)
  rename_i hguard
  have hdet : (a.core.uthreads uid.toNat).utDetached = false := by
    simpa using (not_or.mp hguard).1
  split
  · rename_i hzombie
    unfold makeReapable
    rw [ewp_bind, ewp_bind, ewp_getCore, hv.core, ewp_bind, hdet]
    exact hE ⟨hthread, hdet, Classical.not_not.mp (not_or.mp hguard).2⟩ hzombie
  · rename_i halive
    exact ⟨rfl, hv.onCore fun c => c.setThread uid.toNat
      { c.uthreads uid.toNat with utDetached := true }, fun _ => halive⟩

/-! ### The reaper -/

omit [DecidableEq M] [DecidableEq C] in
theorem Core.destroy_wipe (c : Core M C) (t : Nat) (l : List Nat) :
    (c.wipe t).destroy l = c.destroy (t :: l) := by
  simp only [destroy, wipe, setThread, setCtx, List.mem_cons, Core.mk.injEq, and_true]
  refine ⟨?_, ?_, ?_⟩ <;>
  · funext u
    by_cases hu : u = t
    · simp [hu]
    · simp [hu, Function.update_of_ne]

omit [DecidableEq M] [DecidableEq C] in
theorem Core.destroy_nil (c : Core M C) : c.destroy [] = c := by
  simp [destroy]

/-- The induction is on the threads still on the list; the place of the next one is read before
the thread leaves. -/
theorem ewp_reapFrom {l : List Nat} {fuel : Nat} (hv : View s a) (hq : a.q .reap = l)
    (hdead : ∀ t ∈ l, a.core.state t = .zombie ∧ (a.core.uthreads t).utStack = none)
    (hfuel : l.length < fuel) :
    ewp (reapFrom (firstOf .reap l) fuel)
      (fun _ s' => View s' ((a.onCore fun c => c.destroy l).setQ .reap [])) E s := by
  induction l generalizing s a fuel with
  | nil =>
      obtain ⟨fuel, rfl⟩ := Nat.exists_eq_add_one_of_ne_zero (Nat.ne_of_gt hfuel)
      have hsame : (a.onCore fun c => c.destroy []).setQ .reap [] = a := by
        simp only [Abs.onCore, Core.destroy_nil, Abs.setQ]
        rw [← hq, Function.update_eq_self]
      rw [hsame]
      exact hv
  | cons t l ih =>
      obtain ⟨fuel, rfl⟩ := Nat.exists_eq_add_one_of_ne_zero (Nat.ne_of_gt (Nat.zero_lt_of_lt hfuel))
      obtain ⟨hzombie, hstack⟩ := hdead t List.mem_cons_self
      obtain ⟨hnext, -⟩ := hv.rings.adj (show a.q .reap = [t] ++ l from hq)
      have hnext : s.links.next (.inr t) = some (firstOf .reap l) := hnext
      obtain ⟨links, hrem, hrings, -⟩ := hv.rings.remove_spec (show a.q .reap = [] ++ t :: l from hq)
      have hnodup := hv.rings.nodup .reap
      rw [hq, List.nodup_cons] at hnodup
      have hv1 : View { s with links := links } (a.setQ .reap l) := by
        refine ⟨hv.core, hrings, ?_⟩
        intro g hg
        change s.tqSize g = (Function.update a.q .reap _ g).length
        rw [Function.update_of_ne hg, hv.size g hg]
      have hfree : (a.setQ .reap l).Free t := by
        intro g
        change t ∉ Function.update a.q .reap l g
        by_cases hg : g = .reap
        · subst hg
          rw [Function.update_self]
          exact hnodup.1
        · rw [Function.update_of_ne hg]
          exact fun hmem => hg (hv.rings.unique g .reap t hmem (by simp [hq]))
      change ewp (reapFrom (.inr t) (fuel + 1)) _ E s
      unfold reapFrom
      rw [ewp_bind, ewp_get, hnext]
      simp only []
      rw [ewp_bind]
      refine ewp_assert (decide_eq_true (hv.core ▸ hzombie)) ?_
      rw [ewp_bind]
      refine ewp_editLinks hrem ?_
      have hstack : (s.core.uthreads t).utStack = none := hv.core ▸ hstack
      unfold uthreadDestroy
      rw [ewp_bind, ewp_bind, ewp_getCore, ewp_bind, hstack, freeStack, ewp_pure]
      have hzero := ewp_zeroThread (E := E) hv1 hfree
      refine ewp_mono hzero ?_ fun _ he => he
      intro _ s2 hv2
      have hdead' : ∀ u ∈ l, ((a.setQ .reap l).onCore fun c => c.wipe t).core.state u = .zombie ∧
          (((a.setQ .reap l).onCore fun c => c.wipe t).core.uthreads u).utStack = none := by
        intro u hu
        have hne : u ≠ t := by
          rintro rfl
          exact hnodup.1 hu
        have hrec : ((a.setQ .reap l).onCore fun c => c.wipe t).core.uthreads u =
            a.core.uthreads u := Function.update_of_ne hne _ _
        rw [Core.state, hrec]
        exact hdead u (List.mem_cons_of_mem _ hu)
      have hrest := ih hv2 (by simp [Abs.onCore, Abs.setQ]) hdead'
        (Nat.lt_of_succ_lt_succ hfuel)
      have hcore : (((a.setQ .reap l).onCore fun c => c.wipe t).onCore fun c =>
          c.destroy l).setQ .reap [] = (a.onCore fun c => c.destroy (t :: l)).setQ .reap [] := by
        simp [Abs.onCore, Abs.setQ, Core.destroy_wipe]
      rw [← hcore]
      exact hrest

/-- The reaper ends the process once it wiped the last thread. -/
theorem ewp_reaperRound (hv : View s a)
    (hdead : ∀ t ∈ a.q .reap, t < uthMaxUthreads ∧ a.core.state t = .zombie ∧
      (a.core.uthreads t).utStack = none)
    (hE : (∀ t, t < uthMaxUthreads → t ≠ a.core.reaperThrId →
      a.reapAll.core.state t = .noState) → E .exitSuccess) :
    ewp reaperRound (fun _ s' => View s' a.reapAll) E s := by
  obtain ⟨hnext, -⟩ := hv.rings.adj (show a.q .reap = [] ++ a.q .reap from rfl)
  have hnext : s.links.next (.inl .reap) = some (firstOf .reap (a.q .reap)) := hnext
  have hlen : (a.q .reap).length < uthMaxUthreads + 1 := Nat.lt_succ_of_le
    (length_le_of_lt (hv.rings.nodup _) fun t ht => (hdead t ht).1)
  unfold reaperRound
  rw [ewp_bind, ewp_get, hnext]
  simp only []
  refine ewp_bind_of (ewp_reapFrom hv rfl (fun t ht => (hdead t ht).2) hlen) ?_
  intro _ s1 hv1
  rw [ewp_bind, ewp_getCore, ewp_check]
  refine ⟨fun _ => hv1, fun hall => hE ?_⟩
  intro t ht hne
  have hcore : s1.core = a.reapAll.core := hv1.core
  rw [hcore, decide_eq_false_iff_not, Bool.not_eq_true, Bool.not_eq_false,
    List.all_eq_true] at hall
  have hone := hall t (List.mem_range.mpr ht)
  exact (of_decide_eq_true hone).resolve_left hne

end CodingSample.Uthreads
