import CodingSample.Uthreads.Runs

/-!
# The scheduler

In every state of a run one thread is on the processor and each runnable thread is in the run
queue of its priority, and `uthread_switch` takes the thread that was queued first.
-/

namespace CodingSample.Uthreads

open Prog

variable {M C : Type} [DecidableEq M] [DecidableEq C] {s s' : Machine M C} {a b : Abs M C}
  {t u : Nat} {h : Head M C} {e : Event M C} {r : Option Ret}

/-! ### Which threads an event queues -/

/-- The run queues get new threads at the front, newest first as `R` has it, and keep some of the
others in their order. -/
def Abs.Grows (R : Nat → Nat → Prop) (a b : Abs M C) : Prop :=
  ∀ i, ∃ new old, b.q (.runq i) = new ++ old ∧ old.Sublist (a.q (.runq i)) ∧
    (∀ u ∈ new, ∀ j, u ∉ a.q (.runq j)) ∧ new.Pairwise R

namespace Abs

variable {R : Nat → Nat → Prop}

omit [DecidableEq M] [DecidableEq C] in
theorem Grows.of_eq (hq : ∀ i, b.q (.runq i) = a.q (.runq i)) : Grows R a b :=
  fun i => ⟨[], a.q (.runq i), hq i, List.Sublist.refl _, nofun, List.Pairwise.nil⟩

omit [DecidableEq M] [DecidableEq C] in
theorem Grows.congr {a' b' : Abs M C} (hg : Grows R a b)
    (ha : ∀ i, a'.q (.runq i) = a.q (.runq i)) (hb : ∀ i, b'.q (.runq i) = b.q (.runq i)) :
    Grows R a' b' := by
  intro i
  obtain ⟨new, old, hq, hsub, hnew, hpair⟩ := hg i
  refine ⟨new, old, (hb i).trans hq, ?_, ?_, hpair⟩
  · rw [ha i]
    exact hsub
  · intro u hu j
    rw [ha j]
    exact hnew u hu j

section Others

variable {l : List Nat} {i : Nat}

theorem runq_setQ_cond (c : C) : (a.setQ (.cond c) l).q (.runq i) = a.q (.runq i) := by
  simp [setQ]

theorem runq_setQ_reap : (a.setQ .reap l).q (.runq i) = a.q (.runq i) := by
  simp [setQ]

end Others

/-- One thread that was in no run queue enters one. -/
theorem Grows.push {prio : Int} (hq : ∀ i, b.q (.runq i) = a.q (.runq i))
    (hnot : ∀ j, t ∉ a.q (.runq j)) :
    Grows R a (b.setQ (runqTable prio) (t :: b.q (runqTable prio))) := by
  intro i
  by_cases hi : Head.runq i = (runqTable prio : Head M C)
  · refine ⟨[t], a.q (.runq i), ?_, List.Sublist.refl _, ?_, List.pairwise_singleton _ _⟩
    · change Function.update b.q _ _ _ = _
      rw [← hi, Function.update_self, hq i]
      rfl
    · intro u hu j
      rw [List.mem_singleton.mp hu]
      exact hnot j
  · refine ⟨[], a.q (.runq i), ?_, List.Sublist.refl _, nofun, List.Pairwise.nil⟩
    change Function.update b.q _ _ _ = _
    rw [Function.update_of_ne hi, hq i]
    rfl

theorem Grows.wake (hq : ∀ i, b.q (.runq i) = a.q (.runq i))
    (hnot : b.core.state t = .wait → ∀ j, t ∉ a.q (.runq j)) : Grows R a (b.wake t) := by
  unfold Abs.wake
  split
  · rename_i hwait
    exact Grows.push (b := b.onCore fun c => c.setState t .runnable) hq (hnot hwait)
  · exact Grows.of_eq hq

omit [DecidableEq M] [DecidableEq C] in
/-- Only runnable threads are in a run queue. -/
theorem Inv.not_runq (hi : a.Inv) (hstate : a.core.state t ≠ .runnable) (j : Nat) :
    t ∉ a.q (.runq j) :=
  fun hmem => hstate (Slot.runnable_of_place (hi.mem_place hmem))

theorem grows_unlock (hi : a.Inv) (m : M) : Grows R a (a.unlock m) := by
  unfold unlock
  rcases List.eq_nil_or_concat (a.q (.mtx m)) with hq | ⟨xs, t, hq⟩
  · rw [hq]
    exact Grows.of_eq fun _ => rfl
  · rw [List.concat_eq_append] at hq
    rw [hq, List.getLast?_concat]
    refine Grows.wake (fun i => by simp [setQ, setOwner]) fun hwait => hi.not_runq ?_
    rw [show a.core.state t = .wait from hwait]
    decide

theorem grows_afterExit (hi : a.Inv) (status : Int) :
    Grows R a ((a.die status).afterExit a.core.cur.utDetached a.core.cur.utWaiter) := by
  have hnot (u : Nat) (hwait : (a.die status).core.state u = .wait) (j : Nat) :
      u ∉ a.q (.runq j) := by
    refine hi.not_runq ?_ j
    rw [state_die] at hwait
    split at hwait
    · cases hwait
    · rw [hwait]
      decide
  unfold afterExit
  split
  · exact Grows.wake (fun _ => runq_setQ_reap) (hnot _)
  · split
    · exact Grows.wake (fun _ => rfl) (hnot _)
    · exact Grows.of_eq fun _ => rfl

theorem grows_reapable (hnot : a.core.state a.core.reaperThrId = .wait →
    ∀ j, a.core.reaperThrId ∉ b.q (.runq j))
    (hq : ∀ i, a.q (.runq i) = b.q (.runq i)) : Grows R b (a.reapable t) :=
  Grows.wake (fun i => runq_setQ_reap.trans (hq i)) hnot

theorem grows_finish (hi : a.Inv) (hstate : ∀ u, b.core.state u = a.core.state u)
    (hq : ∀ i, b.q (.runq i) = a.q (.runq i)) : Grows R a (b.reapable t) := by
  refine grows_reapable (fun hwait => hi.not_runq ?_) hq
  rw [← hstate, hwait]
  decide

theorem grows_join (hi : a.Inv) (uid : Int) : Grows R a (a.join uid).2 := by
  unfold join
  split
  · exact Grows.of_eq fun _ => rfl
  split
  · exact Grows.of_eq fun _ => rfl
  split
  · exact Grows.of_eq fun _ => rfl
  unfold joinLoop
  split
  · exact Grows.of_eq fun _ => rfl
  · exact grows_finish hi (fun u => by rw [state_setDetached, state_setWaiter]) fun _ => rfl

theorem grows_create (hi : a.Inv) (prio : Int) : Grows R a (a.create .user prio).2 := by
  unfold create
  split
  · exact Grows.of_eq fun _ => rfl
  · rename_i t hfound
    obtain ⟨-, hstate⟩ := uthreadAllocFrom_spec rfl hfound
    refine Grows.push (fun _ => rfl) (hi.not_runq ?_)
    rw [hstate]
    decide

theorem grows_lock (m : M) : Grows R a (a.lock m).2 := by
  unfold lock
  split
  · exact Grows.of_eq fun _ => rfl
  split
  · exact Grows.of_eq fun _ => rfl
  · exact Grows.of_eq fun i => by simp [block, switchOut, push, setQ]

theorem grows_signal (hi : a.Inv) (c : C) : Grows R a (a.signal c) := by
  rcases List.eq_nil_or_concat (a.q (.cond c)) with hq | ⟨xs, t, hq⟩
  · rw [signal_of_nil hq]
    exact Grows.of_eq fun _ => rfl
  · rw [List.concat_eq_append] at hq
    rw [signal_of_concat hq]
    refine Grows.wake (fun _ => runq_setQ_cond c) fun hwait => hi.not_runq ?_
    rw [show a.core.state t = .wait from hwait]
    decide

/-- The threads that a broadcast wakes enter the run queues as they stood in the condition's
queue. -/
theorem runq_broadcast (hi : a.Inv) (hnodup : ∀ h, (a.q h).Nodup) (c : C) (i : Nat) :
    (a.broadcast c).q (.runq i) = (a.q (.cond c)).filter
      (fun t => Head.runq i = (runqTable (a.core.uthreads t).utPrio : Head M C)) ++
        a.q (.runq i) := by
  unfold broadcast
  generalize hn : (a.q (.cond c)).length = n
  induction n generalizing a with
  | zero =>
      rw [List.length_eq_zero_iff.mp hn]
      rfl
  | succ n ih =>
      obtain ⟨xs, t, hq⟩ : ∃ xs t, a.q (.cond c) = xs ++ [t] := by
        rcases List.eq_nil_or_concat (a.q (.cond c)) with hq | ⟨xs, t, hq⟩
        · rw [hq] at hn
          cases hn
        · exact ⟨xs, t, by rw [hq, List.concat_eq_append]⟩
      have hnodup' := hnodup (.cond c)
      have hasleep : ∀ u ∈ xs ++ [t], a.Asleep u := by
        rw [← hq]
        exact fun u hu => hi.asleep hu nofun nofun
      rw [hq] at hn hnodup'
      have hwait := (hasleep t (by simp)).state
      obtain ⟨hcond, -⟩ := asleep_signal hq hnodup' hasleep
      have hlen : ((a.signal c).q (.cond c)).length = n := by
        rw [hcond]
        simpa using hn
      have hrunq : (a.signal c).q (.runq i) =
          (if Head.runq i = (runqTable (a.core.uthreads t).utPrio : Head M C) then [t] else []) ++
            a.q (.runq i) := by
        rw [signal_of_concat hq, Abs.wake, if_pos (by exact hwait)]
        change Function.update (a.setQ (.cond c) xs).q (runqTable _)
          (t :: (a.setQ (.cond c) xs).q (runqTable _)) (.runq i) = _
        rw [Function.update_apply]
        split
        · rename_i hi
          have hi : Head.runq i = (runqTable (a.core.uthreads t).utPrio : Head M C) := hi
          rw [if_pos hi, core_setQ, ← hi, runq_setQ_cond]
          rfl
        · rename_i hi
          rw [if_neg (by exact hi)]
          exact runq_setQ_cond c
      have hprio : ∀ u ∈ xs, ((a.signal c).core.uthreads u).utPrio =
          (a.core.uthreads u).utPrio := by
        intro u hu
        have hne : u ≠ t := by
          rintro rfl
          exact (List.nodup_append.mp hnodup').2.2 u hu u List.mem_cons_self rfl
        rw [signal_of_concat hq, uthreads_wake_of_ne hne]
        rfl
      rw [Function.iterate_succ_apply, ih (hi.signal hnodup c) (nodup_signal hi hnodup c) hlen,
        hcond, hq, hrunq, List.filter_append, List.append_assoc]
      refine congrArg₂ _ (List.filter_congr fun u hu => ?_) ?_
      · rw [hprio u hu]
      · by_cases hi : Head.runq i = (runqTable (a.core.uthreads t).utPrio : Head M C)
        · simp [hi]
        · simp [hi]

theorem grows_broadcast (hi : a.Inv) (hnodup : ∀ h, (a.q h).Nodup) (c : C)
    (hR : ∀ u t, [u, t].Sublist (a.q (.cond c)) → R u t) : Grows R a (a.broadcast c) := by
  intro i
  refine ⟨_, _, runq_broadcast hi hnodup c i, List.Sublist.refl _, ?_, ?_⟩
  · intro u hu j
    refine hi.not_runq ?_ j
    rw [(hi.ctx_of_cond (List.mem_of_mem_filter hu)).1]
    decide
  · refine List.Pairwise.sublist List.filter_sublist ?_
    rw [List.pairwise_iff_forall_sublist]
    exact fun {u t} hsub => hR u t hsub

theorem grows_switchScan (l : List Nat) : Grows R a (a.switchScan l) := by
  induction l with
  | nil => exact Grows.of_eq fun _ => rfl
  | cons i rest ih =>
      unfold switchScan
      split
      · exact ih
      · intro j
        by_cases hj : j = i
        · subst hj
          refine ⟨[], _, ?_, List.dropLast_sublist _, nofun, List.Pairwise.nil⟩
          exact Function.update_self _ _ _
        · refine ⟨[], _, ?_, List.Sublist.refl _, nofun, List.Pairwise.nil⟩
          exact Function.update_of_ne (fun heq => hj (Head.runq.inj heq)) _ _

theorem grows_call (hg : a.Good) (hnodup : ∀ h, (a.q h).Nodup) {c : Call M C}
    (he : Event.Enabled a.core (.call c)) (hset : ∀ id prio, c ≠ .setprio id prio)
    (hR : ∀ cond, c = .broadcast cond → ∀ u t, [u, t].Sublist (a.q (.cond cond)) → R u t) :
    Grows R a (a.call c).2 := by
  have hr := hg.running he
  have hi := hg.inv
  cases c with
  | yield =>
      have hnot : ∀ j, a.core.utCurthr ∉ a.q (.runq j) := hi.not_runq (by rw [hr.cur]; decide)
      exact Grows.push (b := a.onCore fun c => c.setState a.core.utCurthr .runnable)
        (fun _ => rfl) hnot
  | setprio id prio => exact absurd rfl (hset id prio)
  | create prio => exact grows_create hi prio
  | exit status => exact grows_afterExit hi status
  | join uid => exact grows_join hi uid
  | detach uid =>
      have hq : (a.detach uid).2.q = a.q := by
        unfold detach
        split
        · rfl
        split <;> rfl
      exact Grows.of_eq fun i => congrFun hq _
  | lock m => exact grows_lock m
  | trylock m =>
      have hq : (a.trylock m).2.q = a.q := by
        unfold trylock
        split <;> rfl
      exact Grows.of_eq fun i => congrFun hq _
  | unlock m => exact grows_unlock hi m
  | condWait c m =>
      refine (grows_unlock hi m).congr (fun _ => rfl) fun i => ?_
      change ((a.push (.cond c)).unlock m).q (.runq i) = _
      rw [Inv.condWait_eq, runq_setQ_cond]
  | signal c => exact grows_signal hi c
  | broadcast c => exact grows_broadcast hi hnodup c (hR c rfl)

theorem grows_resume (hg : a.Good) : Grows R a a.resume.2 := by
  have hi := hg.inv
  unfold Abs.resume
  split
  · exact Grows.of_eq fun _ => rfl
  · exact Grows.of_eq fun _ => rfl
  · split
    · exact (grows_lock _).congr (fun _ => rfl) fun _ => rfl
    · exact grows_lock _
  · rename_i uid _
    have hloop : Grows R a (a.joinLoop uid).2 := by
      unfold joinLoop
      split
      · exact Grows.of_eq fun _ => rfl
      · exact grows_finish hi (fun u => state_setDetached) fun _ => rfl
    split
    · exact hloop.congr (fun _ => rfl) fun _ => rfl
    · exact hloop
  · exact Grows.of_eq fun i => by simp [reapAll, block, switchOut, setQ]
  · exact Grows.of_eq fun _ => rfl

/-- What `uthread_setprio` of thread `id` does to run queue `i`. -/
def Requeues (a : Abs M C) (id : Int) (i : Nat) (p : Int × Abs M C) : Prop :=
  ∃ new old, p.2.q (.runq i) = new ++ old ∧ old.Sublist (a.q (.runq i)) ∧ new.length ≤ 1 ∧
    (∀ u ∈ new, (u : Int) = id ∧ p.1 = 0) ∧ ∀ u ∈ old, ¬ ((u : Int) = id ∧ p.1 = 0)

omit [DecidableEq M] [DecidableEq C] in
theorem Requeues.of_eq {id : Int} {i : Nat} {p : Int × Abs M C}
    (hq : p.2.q (.runq i) = a.q (.runq i))
    (hold : ∀ u ∈ a.q (.runq i), ¬ ((u : Int) = id ∧ p.1 = 0)) : Requeues a id i p :=
  ⟨[], a.q (.runq i), hq, List.Sublist.refl _, Nat.zero_le _, nofun, hold⟩

/-- A runnable thread whose priority is set moves to the front of its new run queue. -/
theorem setprio_runq (hi : a.Inv) (hnodup : ∀ h, (a.q h).Nodup) (id prio : Int) (i : Nat) :
    Requeues a id i (a.setprio id prio) := by
  unfold setprio
  split
  · exact Requeues.of_eq rfl fun u _ h => absurd h.2 (by simp)
  split
  · exact Requeues.of_eq rfl fun u _ h => absurd h.2 (by simp)
  rename_i hid
  have hcast : (id.toNat : Int) = id := Int.toNat_of_nonneg (by omega)
  split
  · rename_i hrun
    have hne (u : Nat) (hu : u ∈ (a.q (.runq i)).erase id.toNat) : u ≠ id.toNat := by
      rintro rfl
      exact (hnodup _).not_mem_erase hu
    have hold : ((a.q (.runq i)).erase id.toNat) =
        (a.setQ (runqTable (a.core.uthreads id.toNat).utPrio)
          ((a.q (runqTable (a.core.uthreads id.toNat).utPrio)).erase id.toNat)).q (.runq i) := by
      change _ = Function.update a.q _ _ _
      rw [Function.update_apply]
      split
      · rename_i hi'
        rw [hi']
      · rename_i hi'
        refine List.erase_of_not_mem fun hmem => hi' ?_
        have hplace := hi.mem_place hmem
        rw [Slot.place_of_runnable hrun] at hplace
        exact (Option.some.inj hplace).symm
    have hnot (u : Nat) (hu : u ∈ (a.q (.runq i)).erase id.toNat) : (u : Int) ≠ id := by
      rw [← hcast]
      exact fun h => hne u hu (Int.ofNat.inj h)
    by_cases hi' : Head.runq i = (runqTable prio : Head M C)
    · refine ⟨[id.toNat], (a.q (.runq i)).erase id.toNat, ?_, List.erase_sublist, le_refl _,
        fun u hu => ⟨by rw [List.mem_singleton.mp hu, hcast], rfl⟩, fun u hu h => hnot u hu h.1⟩
      rw [hold, hi']
      exact Function.update_self _ _ _
    · refine ⟨[], (a.q (.runq i)).erase id.toNat, ?_, List.erase_sublist, Nat.zero_le _, nofun,
        fun u hu h => hnot u hu h.1⟩
      rw [hold]
      exact Function.update_of_ne hi' _ _
  · rename_i hrun
    refine Requeues.of_eq rfl fun u hu h => hrun ?_
    have hu' : u = id.toNat := Int.ofNat.inj (h.1.trans hcast.symm)
    rw [← hu']
    exact Slot.runnable_of_place (hi.mem_place hu)

end Abs

/-! ### The order of the run queues -/

/-- The event puts the thread in a run queue, or puts it there again. -/
def Moment.Queues (m : Moment M C) (t : Nat) : Prop :=
  (∃ i, t ∈ m.after.list (.runq i)) ∧
    ((∀ i, t ∉ m.before.list (.runq i)) ∨
      ∃ prio, m.event = .call (.setprio t prio) ∧ m.ret = some (0, 0))

/-- Thread `t` has been in its run queue for longer than thread `u`. Two threads that one
broadcast woke entered in the order in which they had waited. -/
def QueuedBefore : List (Moment M C) → Nat → Nat → Prop
  | [], _, _ => False
  | m :: tr, t, u =>
      m.Queues u ∧ (¬ m.Queues t ∨ ∃ c, m.event = .call (.broadcast c) ∧
        [u, t].Sublist (m.before.list (.cond c))) ∨
      ¬ m.Queues u ∧ ¬ m.Queues t ∧ QueuedBefore tr t u

/-- The threads an event puts in a run queue stand before the others, which keep their order. -/
theorem Machine.Sound.arrivals (hs : s.Sound) (he : e.Enabled s.core) (hp : Allowed s.core e)
    (hrun : e.run s = .ok (r, s')) (i : Nat) :
    ∃ new old, s'.list (.runq i) = new ++ old ∧ old.Sublist (s.list (.runq i)) ∧
      (∀ u ∈ new, (Moment.mk s e r s').Queues u) ∧
      (∀ u ∈ old, ¬ (Moment.mk s e r s').Queues u) ∧
      new.Pairwise fun u t => ∃ c, e = .call (.broadcast c) ∧
        [u, t].Sublist (s.list (.cond c)) := by
  obtain ⟨hr, habs, hpass, hs'⟩ := hs.step he hp hrun
  have hq (h : Head M C) : s'.list h = (s.abs.step e).2.q h := congrFun (congrArg Abs.q habs) h
  have hnodup := hs.view.rings.nodup
  by_cases hset : ∃ id prio, e = .call (.setprio id prio)
  · obtain ⟨id, prio, rfl⟩ := hset
    obtain ⟨new, old, hnew, hsub, hone, hin, hout⟩ :=
      Abs.setprio_runq hs.good.inv hnodup id prio i
    have hr : r = some ((s.abs.setprio id prio).1, 0) := hr
    refine ⟨new, old, (hq _).trans hnew, hsub, ?_, ?_, ?_⟩
    · intro u hu
      obtain ⟨hid, hzero⟩ := hin u hu
      refine ⟨⟨i, ?_⟩, Or.inr ⟨prio, by rw [hid], by rw [hr, hzero]⟩⟩
      change u ∈ s'.list _
      rw [hq]
      exact hnew ▸ List.mem_append_left _ hu
    · rintro u hu ⟨-, hno | ⟨prio', hev, hret⟩⟩
      · exact hno i (hsub.subset hu)
      · cases hev
        have hret : r = some (0, 0) := hret
        rw [hr] at hret
        exact hout u hu ⟨rfl, (Prod.mk.inj (Option.some.inj hret)).1⟩
    · match new, hone with
      | [], _ => exact List.Pairwise.nil
      | [u], _ => exact List.pairwise_singleton _ _
  · let R : Nat → Nat → Prop := fun u t => ∃ c, e = .call (.broadcast c) ∧
      [u, t].Sublist (s.list (.cond c))
    have hgrows : Abs.Grows R s.abs (s.abs.step e).2 := by
      cases e with
      | call c =>
          refine Abs.grows_call hs.good hnodup he ?_ ?_
          · rintro id prio rfl
            exact hset ⟨id, prio, rfl⟩
          · rintro c rfl u t hsub
            exact ⟨c, rfl, hsub⟩
      | resume => exact Abs.grows_resume hs.good
      | switch => exact Abs.grows_switchScan _
    obtain ⟨new, old, hnew, hsub, hfresh, hpair⟩ := hgrows i
    refine ⟨new, old, (hq _).trans hnew, hsub, ?_, ?_, hpair⟩
    · intro u hu
      refine ⟨⟨i, ?_⟩, Or.inl (hfresh u hu)⟩
      change u ∈ s'.list _
      rw [hq, hnew]
      exact List.mem_append_left _ hu
    · rintro u hu ⟨-, hno | ⟨prio, hev, -⟩⟩
      · exact hno i (hsub.subset hu)
      · exact hset ⟨u, prio, hev⟩

variable {P : Core M C → Event M C → Prop} {tr : List (Moment M C)}

/-- Each run queue holds its threads from the one queued last to the one queued first. -/
theorem Run.ordered (hP : ∀ c e, P c e → Allowed c e) (hrun : Run P started tr s) (i : Nat) :
    (s.list (.runq i)).Pairwise fun u t => QueuedBefore tr t u := by
  induction hrun generalizing i with
  | start =>
      have hq : (started : Machine M C).list = Abs.initial.q := congrArg Abs.q abs_started
      rw [hq]
      exact List.Pairwise.nil
  | step hrun he hp hok ih =>
      have hs := hrun.sound hP
      obtain ⟨new, old, hlist, hsub, hnew, hold, hpair⟩ := hs.arrivals he (hP _ _ hp) hok i
      rw [hlist, List.pairwise_append]
      refine ⟨?_, ?_, ?_⟩
      · refine List.Pairwise.imp_of_mem (fun hu _ hR => ?_) hpair
        exact Or.inl ⟨hnew _ hu, Or.inr hR⟩
      · refine List.Pairwise.imp_of_mem (fun hu ht hbefore => ?_) ((ih i).sublist hsub)
        exact Or.inr ⟨hold _ hu, hold _ ht, hbefore⟩
      · exact fun u hu t ht => Or.inl ⟨hnew u hu, Or.inl (hold t ht)⟩

/-! ### The thread that runs next -/

/-- The scan stops at the first run queue that is not empty. -/
theorem Abs.switchScan_spec (a : Abs M C) (l : List Nat) :
    ((∀ i ∈ l, a.q (.runq i) = []) ∧ a.switchScan l = a) ∨
      ∃ pre i post xs t, l = pre ++ i :: post ∧ (∀ j ∈ pre, a.q (.runq j) = []) ∧
        a.q (.runq i) = xs ++ [t] ∧ a.switchScan l = (a.setQ (.runq i) xs).run t := by
  induction l with
  | nil => exact Or.inl ⟨nofun, rfl⟩
  | cons i rest ih =>
      rcases List.eq_nil_or_concat (a.q (.runq i)) with hq | ⟨xs, t, hq⟩
      · have hscan : a.switchScan (i :: rest) = a.switchScan rest := by
          rw [Abs.switchScan, hq]
          rfl
        rw [hscan]
        rcases ih with ⟨hempty, hsame⟩ | ⟨pre, k, post, xs, t, hl, hpre, hk, hrun⟩
        · exact Or.inl ⟨List.forall_mem_cons.mpr ⟨hq, hempty⟩, hsame⟩
        · exact Or.inr ⟨i :: pre, k, post, xs, t, by rw [hl]; rfl,
            List.forall_mem_cons.mpr ⟨hq, hpre⟩, hk, hrun⟩
      · rw [List.concat_eq_append] at hq
        refine Or.inr ⟨[], i, rest, xs, t, rfl, nofun, hq, ?_⟩
        rw [Abs.switchScan, hq, List.getLast?_concat, List.dropLast_concat]

/-- The threads are where the scheduler expects them. -/
structure SchedulerOk (s : Machine M C) : Prop where
  current : s.core.switching = false → s.core.utCurthr < uthMaxUthreads
  onCpu : ∀ t, t < uthMaxUthreads →
    (s.core.state t = .onCpu ↔ s.core.switching = false ∧ t = s.core.utCurthr)
  runnable : ∀ t, t < uthMaxUthreads → s.core.state t = .runnable →
    (s.list (runqTable (s.core.uthreads t).utPrio)).count t = 1 ∧
      ∀ h, h ≠ runqTable (s.core.uthreads t).utPrio → t ∉ s.list h
  others : ∀ t, s.core.state t ≠ .runnable → ∀ i, t ∉ s.list (.runq i)
  rings : Rings s.links s.list
  null : ∀ t, (s.links.next (.inr t) = none ∧ s.links.prev (.inr t) = none ↔
      ∀ h, t ∉ s.list h) ∧
    (s.links.next (.inr t) ≠ none ∧ s.links.prev (.inr t) ≠ none ↔ ∃ h, t ∈ s.list h)
  size : ∀ h, h ≠ .reap → s.tqSize h = (s.list h).length

omit [DecidableEq M] [DecidableEq C] in
theorem Machine.Sound.scheduler (hs : s.Sound) : SchedulerOk s := by
  have hi := hs.good.inv
  refine ⟨hs.good.cpu.1, hs.good.cpu.2, ?_, fun t hstate => hi.not_runq hstate, hs.view.rings,
    fun t => hs.view.rings.null_iff, hs.view.size⟩
  intro t ht hrun
  have hplace : (s.abs.core.slot t).place = some (runqTable (s.core.uthreads t).utPrio) :=
    Slot.place_of_runnable hrun
  have hmem : t ∈ s.list (runqTable (s.core.uthreads t).utPrio) :=
    (hi.queued _ t).mpr ⟨ht, hplace⟩
  have hnodup : (s.list (runqTable (s.core.uthreads t).utPrio)).Nodup :=
    hs.view.rings.nodup _
  refine ⟨by rw [hnodup.count, if_pos hmem], ?_⟩
  intro h hh hmem'
  exact hh (Option.some.inj ((hi.mem_place hmem').symm.trans hplace))

/-- `uthread_switch` goes to the thread that has been in the highest run queue longest. -/
def Resumes (tr : List (Moment M C)) (s s' : Machine M C) : Prop :=
  s'.core.switching = false ∧ s'.core.state s'.core.utCurthr = .onCpu ∧
    ∃ i, s'.core.utCurthr ∈ s.list (.runq i) ∧ (∀ j, i < j → s.list (.runq j) = []) ∧
      ∀ u ∈ s.list (.runq i), u ≠ s'.core.utCurthr → QueuedBefore tr s'.core.utCurthr u

theorem Run.switches (hP : ∀ c e, P c e → Allowed c e) (hrun : Run P started tr s)
    (hsw : s.core.switching = true) :
    ∃ s', Event.switch.run s = .ok (none, s') ∧
      ((∀ i, s.list (.runq i) = []) ∧ s'.core.switching = true ∨ Resumes tr s s') := by
  have hs := hrun.sound hP
  have hi := hs.good.inv
  obtain ⟨r, s', hok, hr, hv, -⟩ := wp_of_ewp (hs.good.ewp_step hs.view (e := .switch) hsw trivial)
    fun _ => id
  have hcore : s'.core = s.abs.switch.core := hv.core
  have hhigh (j : Nat) (hj : 7 < j) : s.list (.runq j) = [] := by
    refine List.eq_nil_iff_forall_not_mem.mpr fun t ht => ?_
    have hplace := hi.mem_place (a := s.abs) ht
    rw [Slot.place_of_runnable (Slot.runnable_of_place hplace)] at hplace
    have hprio := (hi.own t (hi.mem_lt (a := s.abs) ht)).prio
    have hj' := Head.runq.inj (Option.some.inj hplace)
    simp only [uthMaxprio] at hprio
    omega
  have hlist (j : Nat) (hj : j ≤ 7) : j ∈ [7, 6, 5, 4, 3, 2, 1, 0] := by
    simp only [List.mem_cons, List.not_mem_nil, or_false]
    omega
  refine ⟨s', by rw [hok, hr]; rfl, ?_⟩
  rcases s.abs.switchScan_spec [7, 6, 5, 4, 3, 2, 1, 0] with
    ⟨hempty, hsame⟩ | ⟨pre, i, post, xs, t, hl, hpre, hq, hscan⟩
  · refine Or.inl ⟨fun i => ?_, ?_⟩
    · by_cases hle : i ≤ 7
      · exact hempty i (hlist i hle)
      · exact hhigh i (by omega)
    · rw [hcore, Abs.switch, hsame]
      exact hsw
  · have hcur : s'.core.utCurthr = t := by
      rw [hcore, Abs.switch, hscan]
      rfl
    have hmem : t ∈ s.list (.runq i) := by
      change t ∈ s.abs.q (.runq i)
      rw [hq]
      simp
    refine Or.inr ⟨?_, ?_, i, ?_, ?_, ?_⟩
    · rw [hcore, Abs.switch, hscan]
      rfl
    · rw [hcur, hcore, Abs.switch, hscan]
      simp [Abs.run, Core.state, Core.setState, Core.setThread]
    · rw [hcur]
      exact hmem
    · intro j hj
      by_cases hle : j ≤ 7
      · refine hpre j ?_
        have hdesc : (pre ++ i :: post).Pairwise (· > ·) := by
          rw [← hl]
          decide
        have hmem' : j ∈ pre ++ i :: post := hl ▸ hlist j hle
        rcases List.mem_append.mp hmem' with hpre' | hpost
        · exact hpre'
        · have hbelow := (List.pairwise_cons.mp (List.pairwise_append.mp hdesc).2.1).1
          rcases List.mem_cons.mp hpost with rfl | hpost
          · omega
          · have := hbelow j hpost
            omega
      · exact hhigh j (by omega)
    · rw [hcur]
      intro u hu hne
      have hord := hrun.ordered hP i
      have hu' : u ∈ xs ++ [t] := hq ▸ hu
      have hxs : u ∈ xs := (List.mem_append.mp hu').resolve_right fun h =>
        hne (List.mem_singleton.mp h)
      have hord : (xs ++ [t]).Pairwise fun u t => QueuedBefore tr t u := hq ▸ hord
      exact (List.pairwise_append.mp hord).2.2 u hxs t List.mem_cons_self

/-! ### Every run -/

/-- No thread locks a mutex it owns, and each thread is joined at most once: a join that passes
the checks enters the caller in `ut_waiter`, which only the creation of a new thread clears. -/
def Careful (c : Core M C) : Event M C → Prop
  | .call (.lock m) => c.mOwner m ≠ some c.utCurthr
  | .call (.join uid) => Joins c uid → (c.uthreads uid.toNat).utWaiter = none
  | _ => True

omit [DecidableEq M] [DecidableEq C] in
theorem Careful.allowed {c : Core M C} {e : Event M C} (h : Careful c e) : Allowed c e := by
  cases e with
  | call call =>
      cases call with
      | lock m => exact h
      | join uid => exact fun hjoin _ => h hjoin
      | _ => trivial
  | _ => trivial

/-- The assertions of the scheduler and of the queues. -/
def queueAssertions : List Site := [.uthreadSwitch, .utqueueEnqueue, .utqueueRemove, .utqueueEmpty]

end CodingSample.Uthreads
