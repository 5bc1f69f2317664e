import CodingSample.Uthreads.View

/-!
# The functions on the abstract machine

What each function does to the lists, and that the library does it to the memory. The conditions
under which it does are few: the thread that is made runnable is in no list, a runnable thread is
in its run queue.
-/

namespace CodingSample.Uthreads

open Prog

variable {M C : Type} [DecidableEq M] [DecidableEq C] {s : Machine M C} {a : Abs M C}
  {h : Head M C} {t : Nat} {E : Fault → Prop}

namespace Abs

variable (a)

/-- Thread `t` becomes runnable and goes to the front of its run queue. -/
def ready (t : Nat) : Abs M C :=
  (a.onCore fun c => c.setState t .runnable).setQ (runqTable (a.core.uthreads t).utPrio)
    (t :: a.q (runqTable (a.core.uthreads t).utPrio))

/-- A runnable thread moves to the front of the run queue of its new priority. -/
def requeue (t : Nat) (prio : Int) : Abs M C :=
  let b := a.setQ (runqTable (a.core.uthreads t).utPrio)
    ((a.q (runqTable (a.core.uthreads t).utPrio)).erase t)
  (b.onCore fun c => c.setPrio t prio).setQ (runqTable prio) (t :: b.q (runqTable prio))

def setprio (id prio : Int) : Int × Abs M C :=
  if prio < 0 ∨ uthMaxprio < prio then
    (einval, a.setErrno einval)
  else if id < 0 ∨ uthMaxUthreads ≤ id ∨ a.core.state id.toNat = .noState ∨
      a.core.state id.toNat = .zombie then
    (esrch, a.setErrno esrch)
  else if a.core.state id.toNat = .runnable then
    (0, a.requeue id.toNat prio)
  else
    (0, a.onCore fun c => c.setPrio id.toNat prio)

/-- The current thread gives up the processor and goes on at `k` later. -/
def switchOut (k : Ctx M C) : Abs M C :=
  a.onCore fun c => { c.setCtx c.utCurthr k with switching := true }

def yield : Abs M C := (a.ready a.core.utCurthr).switchOut .yield

def block (k : Ctx M C) : Abs M C :=
  (a.onCore fun c => c.setState c.utCurthr .wait).switchOut k

def wake (t : Nat) : Abs M C := if a.core.state t = .wait then a.ready t else a

/-- The processor goes to thread `t`. -/
def run (t : Nat) : Abs M C :=
  a.onCore fun c => { c.setState t .onCpu with utCurthr := t, switching := false }

def switchScan : List Nat → Abs M C
  | [] => a
  | i :: rest =>
      match (a.q (.runq i)).getLast? with
      | none => switchScan rest
      | some t => (a.setQ (.runq i) (a.q (.runq i)).dropLast).run t

def switch : Abs M C := a.switchScan [7, 6, 5, 4, 3, 2, 1, 0]

end Abs

/-! ### The scheduler -/

/-- A runnable thread is in its run queue, or it is on its way into one. -/
def Abs.Queueable (a : Abs M C) (t : Nat) : Prop :=
  t ∈ a.q (runqTable (a.core.uthreads t).utPrio) ∨ a.Free t

theorem ewp_uthreadSetprio (hv : View s a) {id prio : Int}
    (hq : id.toNat < uthMaxUthreads → a.core.state id.toNat = .runnable →
      a.Queueable id.toNat) :
    ewp (uthreadSetprio id prio)
      (fun r s' => r = (a.setprio id prio).1 ∧ View s' (a.setprio id prio).2) E s := by
  unfold uthreadSetprio Abs.setprio
  rw [ewp_bind, ewp_getCore, hv.core]
  split
  · exact ewp_failWith hv _
  split
  · exact ewp_failWith hv _
  rename_i hid
  have hlt : id.toNat < uthMaxUthreads := by
    simp only [uthMaxUthreads] at hid ⊢
    omega
  split
  · rename_i hrun
    have hq := hq hlt hrun
    rw [ewp_bind, ewp_get, ewp_bind]
    set t := id.toNat
    set old : Head M C := runqTable (a.core.uthreads t).utPrio with hold
    have hremove : ewp (doIf (s.links.prev (.inr t) ≠ none ∧ s.links.next (.inr t) ≠ none)
        (utqueueRemove old t)) (fun _ s' => View s' (a.setQ old ((a.q old).erase t))) E s := by
      refine ewp_doIf ?_ ?_
      · intro hlinked
        obtain ⟨g, hg⟩ := hv.rings.null_iff.2.mp hlinked.symm
        exact ewp_utqueueRemove hv (runqTable_ne_reap _) (hq.resolve_right fun h => h g hg)
      · intro hnull
        have hfree : t ∉ a.q old := by
          intro hmem
          exact hnull (hv.rings.null_iff.2.mpr ⟨old, hmem⟩).symm
        have hsame : a.setQ old ((a.q old).erase t) = a := by
          rw [List.erase_of_not_mem hfree]
          simp [Abs.setQ]
        rw [hsame]
        exact hv
    refine ewp_mono hremove ?_ fun _ he => he
    intro _ s1 hv1
    rw [ewp_bind, ewp_modifyCore, ewp_bind]
    have hv2 := hv1.onCore fun c => c.setPrio t prio
    have hfree : (a.setQ old ((a.q old).erase t)).Free t := by
      intro g
      change t ∉ Function.update a.q old _ g
      by_cases hg : g = old
      · subst hg
        rw [Function.update_self]
        exact (hv.rings.nodup old).not_mem_erase
      · rw [Function.update_of_ne hg]
        rcases hq with hmem | hfree
        · exact fun hmem' => hg (hv.rings.unique g old t hmem' hmem)
        · exact hfree g
    refine ewp_mono (ewp_utqueueEnqueue hv2 (runqTable_ne_reap _) hfree) ?_ fun _ he => he
    intro _ s3 hv3
    exact ⟨rfl, hv3⟩
  · exact ⟨rfl, hv.onCore fun c => c.setPrio id.toNat prio⟩

/-- What the scheduler relies on about a thread it makes runnable. -/
structure Abs.Wakeable (a : Abs M C) (t : Nat) : Prop where
  lt : t < uthMaxUthreads
  id : (a.core.uthreads t).utId = t
  prio : 0 ≤ (a.core.uthreads t).utPrio ∧ (a.core.uthreads t).utPrio ≤ uthMaxprio
  free : a.Free t

theorem Abs.Wakeable.setprio (hw : a.Wakeable t) :
    (a.onCore fun c => c.setState t .runnable).setprio (a.core.uthreads t).utId
      (a.core.uthreads t).utPrio = (0, a.ready t) := by
  obtain ⟨hlt, hid, hprio, hfree⟩ := hw
  have hstate : (a.onCore fun c => c.setState t .runnable).core.state t = .runnable := by
    simp [Abs.onCore, Core.state, Core.setState, Core.setThread]
  unfold Abs.setprio
  rw [hid, if_neg (by omega), Int.toNat_natCast, hstate, if_neg (by simp at hlt ⊢; omega),
    if_pos rfl]
  unfold Abs.requeue Abs.ready
  have herase : (a.q (runqTable (a.core.uthreads t).utPrio)).erase t =
      a.q (runqTable (a.core.uthreads t).utPrio) := List.erase_of_not_mem (hfree _)
  simp [Abs.onCore, Abs.setQ, Core.setState, Core.setThread, Core.setPrio, herase]

/-- `uthread_setprio` with the thread's own priority puts it in its run queue. -/
theorem ewp_makeReady (hv : View s a) (hw : a.Wakeable t) : ewp (do
    modifyCore fun c => c.setState t .runnable
    let ret ← uthreadSetprio (a.core.uthreads t).utId (a.core.uthreads t).utPrio
    check .exitFailure (ret = 0)) (fun _ s' => View s' (a.ready t)) E s := by
  have hv1 := hv.onCore fun c => c.setState t .runnable
  have hset := hw.setprio
  rw [ewp_bind, ewp_modifyCore, ewp_bind]
  refine ewp_mono (ewp_uthreadSetprio hv1 fun _ _ => Or.inr ?_) ?_ fun _ he => he
  · rw [hw.id, Int.toNat_natCast]
    exact hw.free
  · rintro r s2 ⟨rfl, hv2⟩
    rw [hset] at hv2 ⊢
    exact hv2

theorem ewp_uthreadWake (hv : View s a) (hstate : a.core.state t ≠ .noState)
    (hw : a.core.state t = .wait → a.Wakeable t) :
    ewp (uthreadWake t) (fun _ s' => View s' (a.wake t)) E s := by
  unfold uthreadWake Abs.wake
  rw [ewp_bind, ewp_getCore, hv.core, ewp_bind]
  refine ewp_assert (decide_eq_true hstate) ?_
  refine ewp_doIf ?_ ?_
  · intro hwait
    rw [if_pos hwait]
    exact ewp_makeReady hv (hw hwait)
  · intro hwait
    rw [if_neg hwait]
    exact hv

omit [DecidableEq M] [DecidableEq C] in
theorem ewp_uthreadSwitch (hv : View s a) (k : Ctx M C) :
    ewp (uthreadSwitch k) (fun _ s' => View s' (a.switchOut k)) E s :=
  hv.onCore fun c => { c.setCtx c.utCurthr k with switching := true }

theorem ewp_uthreadBlock (hv : View s a) (hcur : a.core.cur.utState = .onCpu) (k : Ctx M C) :
    ewp (uthreadBlock k) (fun _ s' => View s' (a.block k)) E s := by
  have hne : a.core.cur.utState ≠ .wait := by
    rw [hcur]
    decide
  unfold uthreadBlock blockRest
  rw [ewp_bind, ewp_getCore, hv.core, if_neg hne, ewp_bind, ewp_getCore, hv.core, if_pos hcur,
    ewp_bind, ewp_modifyCore]
  exact ewp_uthreadSwitch (E := E) (hv.onCore fun c => c.setState c.utCurthr .wait) k

theorem ewp_uthreadYield (hv : View s a) (hcur : a.core.cur.utState = .onCpu)
    (hw : a.Wakeable a.core.utCurthr) :
    ewp uthreadYield (fun _ s' => View s' a.yield) E s := by
  unfold uthreadYield Abs.yield
  rw [ewp_bind, ewp_getCore, hv.core, ewp_bind]
  have hready : ewp (doIf (a.core.utCurthr < uthMaxUthreads ∧ a.core.cur.utState = .onCpu) (do
      modifyCore fun c => c.setState c.utCurthr .runnable
      let ret ← uthreadSetprio a.core.cur.utId a.core.cur.utPrio
      check .exitFailure (ret = 0)))
      (fun _ s' => View s' (a.ready a.core.utCurthr)) E s := by
    refine ewp_doIf ?_ fun hno => absurd ⟨hw.lt, hcur⟩ hno
    intro _
    have hmake := ewp_makeReady (E := E) hv hw
    rw [ewp_bind, ewp_modifyCore] at hmake ⊢
    rw [hv.core] at hmake ⊢
    exact hmake
  refine ewp_mono hready ?_ fun _ he => he
  intro _ s1 hv1
  exact ewp_uthreadSwitch (E := E) hv1 .yield

/-- The run queues hold runnable threads. -/
def Abs.RunqOk (a : Abs M C) : Prop := ∀ i, ∀ t ∈ a.q (.runq i), a.core.state t = .runnable

theorem ewp_switchScan (hv : View s a) (hrunq : a.RunqOk) (l : List Nat) :
    ewp (switchScan l) (fun _ s' => View s' (a.switchScan l)) E s := by
  induction l with
  | nil => exact hv
  | cons i rest ih =>
      unfold switchScan Abs.switchScan
      refine ewp_bind_of (ewp_utqueueEmpty (h := .runq i) hv nofun) ?_
      rintro r s1 ⟨rfl, rfl⟩
      rcases List.eq_nil_or_concat (a.q (.runq i)) with hq | ⟨xs, t, hq⟩
      · rw [hq]
        exact ih
      · rw [List.concat_eq_append] at hq
        have hempty : (a.q (.runq i)).isEmpty = false := by simp [hq]
        rw [hempty, if_neg (by decide)]
        refine ewp_bind_of (ewp_utqueueDequeue (h := .runq i) hv nofun hq) ?_
        rintro r s2 ⟨rfl, hv2, hprev, hnext⟩
        have hrun : a.core.state t = .runnable := hrunq i t (by simp [hq])
        rw [ewp_bind, ewp_get, ewp_bind]
        refine ewp_assert (decide_eq_true ?_) ?_
        · rw [hv2.core]
          exact hrun
        rw [ewp_bind]
        refine ewp_assert (decide_eq_true ⟨hprev, hnext⟩) ?_
        rw [hq, List.getLast?_concat, List.dropLast_concat]
        exact hv2.onCore fun c => { c.setState t .onCpu with utCurthr := t, switching := false }

theorem ewp_switchRound (hv : View s a) (hrunq : a.RunqOk) :
    ewp switchRound (fun _ s' => View s' a.switch) E s :=
  ewp_switchScan hv hrunq _

end CodingSample.Uthreads
