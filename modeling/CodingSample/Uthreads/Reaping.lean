import CodingSample.Uthreads.Joining

/-!
# Reaping

The life of a thread is read off its slot: it is created, it exits, and once it is detached or
joined it is on the reaper's list until it is wiped. The moments of a run are counted for each
thread, that is for each slot and number of creations.
-/

namespace CodingSample.Uthreads

open Prog

variable {M C : Type} [DecidableEq M] [DecidableEq C] {s s' : Machine M C} {a : Abs M C}
  {t u w g : Nat} {e : Event M C} {r : Option Ret} {tr : List (Moment M C)}

/-! ### The history of a run -/

/-- How many moments `p` marks for the `g`-th thread in slot `t`. -/
def times (p : Moment M C → Nat → Prop) [∀ m t, Decidable (p m t)] :
    List (Moment M C) → Nat → Nat → Nat
  | [], _, _ => 0
  | m :: tr, t, g => times p tr t g + if p m t ∧ incarnation tr t = g then 1 else 0

namespace Moment

variable (m : Moment M C) (t : Nat)

/-- The thread calls `uthread_exit`. -/
def exited : Prop :=
  match m.event with
  | .call (.exit _) => m.before.core.utCurthr = t
  | _ => False

/-- The thread becomes detached, by `uthread_detach` or at the end of `uthread_join`. -/
def released : Prop :=
  (m.before.core.uthreads t).utDetached = false ∧ (m.after.core.uthreads t).utDetached = true

/-- The thread is put on `reap_queue`. -/
def queued : Prop := t ∉ m.before.list .reap ∧ t ∈ m.after.list .reap

/-- The record of the thread is wiped. -/
def destroyed : Prop := m.before.core.state t ≠ .noState ∧ m.after.core.state t = .noState

instance : Decidable (m.exited t) := by
  unfold exited
  split <;> infer_instance

instance : Decidable (m.released t) := inferInstanceAs (Decidable (_ ∧ _))

instance : Decidable (m.queued t) := inferInstanceAs (Decidable (_ ∧ _))

instance : Decidable (m.destroyed t) := inferInstanceAs (Decidable (_ ∧ _))

end Moment

/-- `uthread_init` creates the first threads of slots 0 and 1. -/
def Started (t g : Nat) : Prop := t < 2 ∨ 1 ≤ g

/-- The thread was detached or joined. `uthread_init` detaches the main thread. -/
def Released (tr : List (Moment M C)) (t g : Nat) : Prop :=
  t = 1 ∧ g = 0 ∨ 0 < times Moment.released tr t g

/-! ### The life of a thread -/

inductive Phase where
  | unused
  | alive (detached : Bool)
  | zombie (detached : Bool)
  deriving DecidableEq

def Uthread.phase (r : Uthread) : Phase :=
  match r.utState with
  | .noState => .unused
  | .zombie => .zombie r.utDetached
  | _ => .alive r.utDetached

theorem Uthread.phase_noState {r : Uthread} : r.phase = .unused ↔ r.utState = .noState := by
  unfold phase
  split <;> simp_all

theorem Uthread.phase_zombie {r : Uthread} {d : Bool} :
    r.phase = .zombie d ↔ r.utState = .zombie ∧ r.utDetached = d := by
  unfold phase
  split <;> simp_all

theorem Uthread.phase_alive {r : Uthread} {d : Bool} :
    r.phase = .alive d ↔ r.Alive ∧ r.utDetached = d := by
  unfold phase Alive
  split <;> simp_all

theorem Uthread.Steady.phase {r r' : Uthread} (h : r.Steady r') : r'.phase = r.phase := by
  cases hp : r.phase with
  | unused =>
      rw [Uthread.phase_noState] at hp ⊢
      exact h.noState.mpr hp
  | alive d =>
      rw [Uthread.phase_alive] at hp ⊢
      exact ⟨⟨fun hno => hp.1.1 (h.noState.mp hno), fun hz => hp.1.2 (h.zombie.mp hz)⟩,
        h.detached.trans hp.2⟩
  | zombie d =>
      rw [Uthread.phase_zombie] at hp ⊢
      exact ⟨h.zombie.mpr hp.1, h.detached.trans hp.2⟩

/-- What a moment does to the life of thread `t`. -/
inductive Lives (m : Moment M C) (t : Nat) (p p' : Phase) : Prop
  | same (h : p' = p) (hc : m.created ≠ some t) (hx : ¬ m.exited t) (hr : ¬ m.released t)
  | created (h : p = .unused) (h' : p' = .alive false) (hc : m.created = some t)
      (hx : ¬ m.exited t) (hr : ¬ m.released t)
  | exited (d : Bool) (h : p = .alive d) (h' : p' = .zombie d) (hc : m.created ≠ some t)
      (hx : m.exited t) (hr : ¬ m.released t)
  | detached (h : p = .alive false) (h' : p' = .alive true) (hc : m.created ≠ some t)
      (hx : ¬ m.exited t) (hr : m.released t)
  | joined (h : p = .zombie false) (h' : p' = .zombie true) (hc : m.created ≠ some t)
      (hx : ¬ m.exited t) (hr : m.released t)
  | destroyed (h : p = .zombie true) (h' : p' = .unused) (hc : m.created ≠ some t)
      (hx : ¬ m.exited t) (hr : ¬ m.released t)

/-- A zombie that another thread is about to join is not joined a second time, a zombie is not
detached, and no thread locks a mutex it owns. -/
def Reapable (c : Core M C) (e : Event M C) : Prop :=
  Allowed c e ∧ ∀ uid, e = .call (.detach uid) → Detaches c uid → c.state uid.toNat ≠ .zombie

omit [DecidableEq M] [DecidableEq C] in
theorem Moment.not_exited {m : Moment M C} (h : ∀ status, m.event ≠ .call (.exit status)) :
    ¬ m.exited t := by
  unfold Moment.exited
  split
  · rename_i status he
    exact absurd he (h status)
  · exact id

omit [DecidableEq M] [DecidableEq C] in
theorem Moment.not_released {m : Moment M C}
    (h : (m.after.core.uthreads t).utDetached = (m.before.core.uthreads t).utDetached) :
    ¬ m.released t := by
  rintro ⟨hbefore, hafter⟩
  exact Bool.noConfusion (hbefore.symm.trans (h.symm.trans hafter))

theorem Machine.Sound.lives (hs : s.Sound) (he : e.Enabled s.core) (hp : Reapable s.core e)
    (hrun : e.run s = .ok (r, s')) (t : Nat) :
    Lives ⟨s, e, r, s'⟩ t (s.core.uthreads t).phase (s'.core.uthreads t).phase := by
  have hc (hno : s.core.state t ≠ .noState) := hs.not_created he hp.1 hrun hno
  cases hs.recChange he hp.1 hrun t with
  | steady hnot h =>
      refine .same h.phase ?_ ?_ (Moment.not_released h.detached)
      · intro hc
        obtain ⟨-, hbefore, hafter, -⟩ := hs.created he hp.1 hrun hc
        exact UthreadState.noConfusion ((h.noState.mpr hbefore).symm.trans hafter)
      · unfold Moment.exited
        split
        · rename_i status he'
          subst he'
          exact fun h => hnot h.symm
        · exact id
  | created prio he' hr hlt hbefore hafter =>
      subst he' hr
      refine .created (Uthread.phase_noState.mpr hbefore) (by rw [hafter]; rfl)
        (Moment.created_eq_some.mpr ⟨_, _, rfl, rfl, rfl, rfl⟩) id ?_
      rintro ⟨-, hdet⟩
      exact Bool.noConfusion ((congrArg Uthread.utDetached hafter).symm.trans hdet)
  | exited status he' hu hafter =>
      subst he' hu
      have hon := (hs.good.cur he.1).2
      have halive : (s.core.uthreads s.core.utCurthr).Alive :=
        Abs.Inv.alive_of_onCpu (a := s.abs) hon
      exact .exited _ (Uthread.phase_alive.mpr ⟨halive, rfl⟩)
        (Uthread.phase_zombie.mpr ⟨hafter.zombie.mpr rfl, hafter.detached⟩) (hc halive.1) rfl
        (Moment.not_released hafter.detached)
  | joining uid he' hr hu hjoin hexit hafter =>
      subst he'
      exact .same (hafter.phase.trans rfl) nofun id (Moment.not_released hafter.detached)
  | joined uid he' hr hu hjoin hexit hafter =>
      subst he' hu
      have hlt := (Abs.lt_of_thread hjoin.1).1
      have hz := hs.good.inv.zombie_of_exited hlt hexit
      exact .joined (Uthread.phase_zombie.mpr ⟨hz, hjoin.2.2⟩)
        (Uthread.phase_zombie.mpr ⟨hafter.zombie.mpr hz, hafter.detached⟩) nofun id
        ⟨hjoin.2.2, hafter.detached⟩
  | detached uid he' hr hu hthread hcur hdet hafter =>
      subst he' hu
      obtain ⟨hlt, hno⟩ := Abs.lt_of_thread hthread
      have hz := hp.2 uid rfl ⟨hthread, hdet, hcur⟩
      refine .detached (Uthread.phase_alive.mpr ⟨⟨hno, hz⟩, hdet⟩)
        (Uthread.phase_alive.mpr ⟨⟨?_, ?_⟩, hafter.detached⟩) nofun id ⟨hdet, hafter.detached⟩
      · exact fun h => hno (hafter.noState.mp h)
      · exact fun h => hz (hafter.zombie.mp h)
  | rejoined he' hctx hr hafter =>
      subst he'
      obtain ⟨hlt, hon⟩ := hs.good.cur he.1
      obtain ⟨-, hz, hdet, -⟩ := hs.good.inv.joined hlt hon hctx
      exact .joined (Uthread.phase_zombie.mpr ⟨hz, hdet⟩)
        (Uthread.phase_zombie.mpr ⟨hafter.zombie.mpr hz, hafter.detached⟩) nofun id
        ⟨hdet, hafter.detached⟩
  | reaped he' hctx hmem hafter =>
      subst he'
      have hdead := Slot.zombie_of_place (hs.good.inv.mem_place hmem)
      refine .destroyed (Uthread.phase_zombie.mpr hdead) (by rw [hafter]; rfl) nofun id ?_
      rintro ⟨hbefore, -⟩
      exact Bool.noConfusion (hbefore.symm.trans hdead.2)

/-! ### What the history says -/

/-- How often a thread exited, was put on `reap_queue` and was wiped, and whether it was released,
as its slot has it. -/
structure Counts (tr : List (Moment M C)) (t g exits queues destroys : Nat) (released : Prop) :
    Prop where
  exited : times Moment.exited tr t g = exits
  queued : times Moment.queued tr t g = queues
  destroyed : times Moment.destroyed tr t g = destroys
  released : Released tr t g ↔ released

/-- The counts of the thread that has the slot now. -/
def Phase.Counts (tr : List (Moment M C)) (t : Nat) : Phase → Prop
  | .unused => Started t (incarnation tr t) →
      Uthreads.Counts tr t (incarnation tr t) 1 1 1 True
  | .alive d => Uthreads.Counts tr t (incarnation tr t) 0 0 0 (d = true)
  | .zombie d =>
      Uthreads.Counts tr t (incarnation tr t) 1 (if d then 1 else 0) 0 (d = true)

/-- The counts of the threads of slot `t`: those that had the slot before are over. -/
structure SlotOk (tr : List (Moment M C)) (t : Nat) (p : Phase) : Prop where
  past : ∀ g, g < incarnation tr t → Started t g → Counts tr t g 1 1 1 True
  now : p.Counts tr t
  started : p ≠ .unused → Started t (incarnation tr t)
  future : ∀ g, incarnation tr t < g ∨ ¬ Started t g → Counts tr t g 0 0 0 False

section Times

variable {p : Moment M C → Nat → Prop} [∀ m t, Decidable (p m t)] {m : Moment M C}

omit [DecidableEq M] [DecidableEq C] in
theorem times_of_not (h : ¬ p m t) : times p (m :: tr) t g = times p tr t g := by
  rw [times, if_neg fun h' => h h'.1, Nat.add_zero]

omit [DecidableEq M] [DecidableEq C] in
theorem times_of_ne (h : g ≠ incarnation tr t) : times p (m :: tr) t g = times p tr t g := by
  rw [times, if_neg fun h' => h h'.2.symm, Nat.add_zero]

omit [DecidableEq M] [DecidableEq C] in
theorem times_of_pos (h : p m t) :
    times p (m :: tr) t (incarnation tr t) = times p tr t (incarnation tr t) + 1 := by
  rw [times, if_pos ⟨h, rfl⟩]

omit [DecidableEq M] [DecidableEq C] in
/-- A moment counts for the thread that has the slot only. -/
theorem Counts.of_ne {x y z : Nat} {q : Prop} (hc : Counts tr t g x y z q)
    (h : g ≠ incarnation tr t) : Counts (m :: tr) t g x y z q := by
  obtain ⟨h1, h2, h3, h4⟩ := hc
  refine ⟨?_, ?_, ?_, ?_⟩
  · rw [times_of_ne h, h1]
  · rw [times_of_ne h, h2]
  · rw [times_of_ne h, h3]
  · rw [← h4, Released, Released, times_of_ne h]

omit [DecidableEq M] [DecidableEq C] in
theorem Counts.of_not {x y z : Nat} {q : Prop} (hc : Counts tr t g x y z q)
    (hx : ¬ m.exited t) (hq : ¬ m.queued t) (hd : ¬ m.destroyed t) (hr : ¬ m.released t) :
    Counts (m :: tr) t g x y z q := by
  obtain ⟨h1, h2, h3, h4⟩ := hc
  refine ⟨?_, ?_, ?_, ?_⟩
  · rw [times_of_not hx, h1]
  · rw [times_of_not hq, h2]
  · rw [times_of_not hd, h3]
  · rw [← h4, Released, Released, times_of_not hr]

omit [DecidableEq M] [DecidableEq C] in
theorem Released.of_released (hr : m.released t) : Released (m :: tr) t (incarnation tr t) := by
  refine Or.inr ?_
  rw [times_of_pos hr]
  exact Nat.succ_pos _

end Times

omit [DecidableEq M] [DecidableEq C] in
/-- The reaper's list holds the zombies that were detached or joined. -/
theorem Machine.Sound.mem_reap (hs : s.Sound) (ht : t < uthMaxUthreads) :
    t ∈ s.list .reap ↔ (s.core.uthreads t).phase = .zombie true := by
  rw [Uthread.phase_zombie]
  constructor
  · exact fun hmem => Slot.zombie_of_place (hs.good.inv.mem_place (a := s.abs) hmem)
  · rintro ⟨hz, hdet⟩
    refine (hs.good.inv.queued _ t).mpr ⟨ht, ?_⟩
    have hdet : (s.abs.core.slot t).1.utDetached = true := hdet
    rw [Slot.place_of_zombie hz, hdet]
    rfl

omit [DecidableEq M] [DecidableEq C] in
/-- When a moment puts a thread on `reap_queue` and when it wipes one. -/
theorem Machine.Sound.queued_iff (hs : s.Sound) (hs' : s'.Sound) (ht : t < uthMaxUthreads) :
    (Moment.mk s e r s').queued t ↔ (s.core.uthreads t).phase ≠ .zombie true ∧
      (s'.core.uthreads t).phase = .zombie true :=
  and_congr (not_congr (hs.mem_reap ht)) (hs'.mem_reap ht)

omit [DecidableEq M] [DecidableEq C] in
theorem Moment.destroyed_iff : (Moment.mk s e r s').destroyed t ↔
    (s.core.uthreads t).phase ≠ .unused ∧ (s'.core.uthreads t).phase = .unused := by
  rw [Ne, Uthread.phase_noState, Uthread.phase_noState]
  exact Iff.rfl

namespace SlotOk

variable {m : Moment M C} {p p' : Phase}

omit [DecidableEq M] [DecidableEq C] in
/-- A moment of a thread that has the slot. -/
theorem advance (hok : SlotOk tr t p) (hc : m.created ≠ some t) (hp : p ≠ .unused)
    (hnow : p'.Counts (m :: tr) t) : SlotOk (m :: tr) t p' := by
  have hstarted := hok.started hp
  have hi : incarnation (m :: tr) t = incarnation tr t := incarnation_of_not_created hc
  refine ⟨?_, hnow, ?_, ?_⟩
  · intro g hg hs
    rw [hi] at hg
    exact (hok.past g hg hs).of_ne (by omega)
  · intro _
    rw [hi]
    exact hstarted
  · intro g hg
    rw [hi] at hg
    refine (hok.future g hg).of_ne ?_
    rintro rfl
    rcases hg with hlt | hno
    · exact lt_irrefl _ hlt
    · exact hno hstarted

omit [DecidableEq M] [DecidableEq C] in
/-- A moment that is not one of the thread. -/
theorem rest (hok : SlotOk tr t p) (hc : m.created ≠ some t) (hx : ¬ m.exited t)
    (hq : ¬ m.queued t) (hd : ¬ m.destroyed t) (hr : ¬ m.released t) : SlotOk (m :: tr) t p := by
  have hi : incarnation (m :: tr) t = incarnation tr t := incarnation_of_not_created hc
  refine ⟨?_, ?_, ?_, ?_⟩
  · intro g hg hs
    rw [hi] at hg
    exact (hok.past g hg hs).of_not hx hq hd hr
  · have hnow := hok.now
    cases p with
    | unused =>
        intro hs
        rw [hi] at hs ⊢
        exact (hnow hs).of_not hx hq hd hr
    | alive d =>
        rw [Phase.Counts, hi]
        exact hnow.of_not hx hq hd hr
    | zombie d =>
        rw [Phase.Counts, hi]
        exact hnow.of_not hx hq hd hr
  · rw [hi]
    exact hok.started
  · intro g hg
    rw [hi] at hg
    exact (hok.future g hg).of_not hx hq hd hr

omit [DecidableEq M] [DecidableEq C] in
/-- The slot goes to a new thread. -/
theorem create (hok : SlotOk tr t .unused) (hc : m.created = some t) (hx : ¬ m.exited t)
    (hq : ¬ m.queued t) (hd : ¬ m.destroyed t) (hr : ¬ m.released t) :
    SlotOk (m :: tr) t (.alive false) := by
  have hi : incarnation (m :: tr) t = incarnation tr t + 1 := by
    rw [incarnation_cons, if_pos hc]
  refine ⟨?_, ?_, ?_, ?_⟩
  · intro g hg hs
    rw [hi] at hg
    rcases Nat.lt_succ_iff_lt_or_eq.mp hg with hlt | rfl
    · exact (hok.past g hlt hs).of_not hx hq hd hr
    · exact (hok.now hs).of_not hx hq hd hr
  · rw [Phase.Counts, hi]
    have hnew := (hok.future _ (Or.inl (Nat.lt_succ_self _))).of_not (m := m) hx hq hd hr
    exact ⟨hnew.exited, hnew.queued, hnew.destroyed, hnew.released.trans (by simp)⟩
  · intro _
    rw [hi]
    exact Or.inr (Nat.succ_pos _)
  · intro g hg
    rw [hi] at hg
    exact (hok.future g (hg.imp_left fun h => by omega)).of_not hx hq hd hr

omit [DecidableEq M] [DecidableEq C] in
theorem step (hok : SlotOk tr t p) (h : Lives m t p p')
    (hq : m.queued t ↔ p ≠ .zombie true ∧ p' = .zombie true)
    (hd : m.destroyed t ↔ p ≠ .unused ∧ p' = .unused) : SlotOk (m :: tr) t p' := by
  cases h with
  | same h hc hx hr =>
      subst h
      exact hok.rest hc hx (fun h => (hq.mp h).1 (hq.mp h).2) (fun h => (hd.mp h).1 (hd.mp h).2) hr
  | created h h' hc hx hr =>
      subst h h'
      exact hok.create hc hx (fun h => nomatch (hq.mp h).2) (fun h => (hd.mp h).1 rfl) hr
  | exited d h h' hc hx hr =>
      subst h h'
      refine hok.advance hc nofun ?_
      obtain ⟨h1, h2, h3, h4⟩ := hok.now
      rw [Phase.Counts, incarnation_of_not_created hc]
      refine ⟨by rw [times_of_pos hx, h1], ?_, ?_, ?_⟩
      · cases d with
        | true =>
            rw [times_of_pos (hq.mpr ⟨nofun, rfl⟩), h2]
            rfl
        | false =>
            have hnq : ¬ m.queued t := fun h => absurd (hq.mp h).2 (by decide)
            rw [times_of_not hnq, h2]
            rfl
      · rw [times_of_not (fun h => nomatch (hd.mp h).2), h3]
      · rw [← h4, Released, Released, times_of_not hr]
  | detached h h' hc hx hr =>
      subst h h'
      refine hok.advance hc nofun ?_
      obtain ⟨h1, h2, h3, h4⟩ := hok.now
      rw [Phase.Counts, incarnation_of_not_created hc]
      refine ⟨by rw [times_of_not hx, h1], ?_, ?_, iff_of_true (.of_released hr) rfl⟩
      · rw [times_of_not (fun h => nomatch (hq.mp h).2), h2]
      · rw [times_of_not (fun h => nomatch (hd.mp h).2), h3]
  | joined h h' hc hx hr =>
      subst h h'
      refine hok.advance hc nofun ?_
      obtain ⟨h1, h2, h3, h4⟩ := hok.now
      rw [Phase.Counts, incarnation_of_not_created hc]
      refine ⟨by rw [times_of_not hx, h1], ?_, ?_, iff_of_true (.of_released hr) rfl⟩
      · rw [times_of_pos (hq.mpr ⟨nofun, rfl⟩), h2]
        rfl
      · rw [times_of_not (fun h => nomatch (hd.mp h).2), h3]
  | destroyed h h' hc hx hr =>
      subst h h'
      refine hok.advance hc nofun ?_
      obtain ⟨h1, h2, h3, h4⟩ := hok.now
      intro _
      rw [incarnation_of_not_created hc]
      refine ⟨by rw [times_of_not hx, h1], ?_, ?_, ?_⟩
      · rw [times_of_not (fun h => nomatch (hq.mp h).2), h2]
        rfl
      · rw [times_of_pos (hd.mpr ⟨nofun, rfl⟩), h3]
      · rw [Released, times_of_not hr]
        exact iff_of_true (h4.mpr rfl) trivial

end SlotOk

/-! ### The reaper and the stacks -/

/-- What only `uthread_create` changes. -/
def Core.fixed (c : Core M C) : Nat × (Nat → Bool) × Nat :=
  (c.reaperThrId, c.liveStacks, c.nextStack)

namespace Abs

@[simp] theorem fixed_wake : (a.wake t).core.fixed = a.core.fixed := by
  rw [core_wake]
  split <;> rfl

theorem fixed_reapable : (a.reapable t).core.fixed = a.core.fixed := fixed_wake

theorem fixed_setprio {id prio : Int} : (a.setprio id prio).2.core.fixed = a.core.fixed := by
  unfold setprio
  split
  · rfl
  split
  · rfl
  split <;> rfl

theorem fixed_exit {status : Int} : (a.exit status).core.fixed = a.core.fixed := by
  change ((a.die status).afterExit _ _).core.fixed = (a.die status).core.fixed
  unfold afterExit
  split
  · exact fixed_reapable
  · split
    · exact fixed_wake
    · rfl

theorem fixed_joinLoop : (a.joinLoop t).2.core.fixed = a.core.fixed := by
  unfold joinLoop
  split
  · rfl
  · exact fixed_reapable

theorem fixed_join {uid : Int} : (a.join uid).2.core.fixed = a.core.fixed := by
  unfold join
  split
  · rfl
  split
  · rfl
  split
  · rfl
  · exact fixed_joinLoop

omit [DecidableEq M] [DecidableEq C] in
theorem fixed_detach {uid : Int} : (a.detach uid).2.core.fixed = a.core.fixed := by
  unfold detach
  split
  · rfl
  split <;> rfl

theorem fixed_lock {m : M} : (a.lock m).2.core.fixed = a.core.fixed := by
  unfold lock
  split
  · rfl
  split <;> rfl

theorem fixed_unlock {m : M} : (a.unlock m).core.fixed = a.core.fixed := by
  unfold unlock
  split
  · rfl
  · exact fixed_wake

theorem fixed_signal {c : C} : (a.signal c).core.fixed = a.core.fixed := by
  unfold signal
  split
  · rfl
  · exact fixed_wake

theorem fixed_resume : a.resume.2.core.fixed = a.core.fixed := by
  unfold Abs.resume
  split
  · rfl
  · rfl
  · split <;> exact fixed_lock
  · split <;> exact fixed_joinLoop
  · rfl
  · rfl

theorem fixed_switchScan (l : List Nat) : (a.switchScan l).core.fixed = a.core.fixed := by
  induction l with
  | nil => rfl
  | cons i rest ih =>
      unfold switchScan
      split
      · exact ih
      · rfl

theorem fixed_step (hno : ∀ prio, e ≠ .call (.create prio)) :
    (a.step e).2.core.fixed = a.core.fixed := by
  cases e with
  | call c =>
      cases c with
      | yield => rfl
      | setprio id prio => exact fixed_setprio
      | create prio => exact absurd rfl (hno prio)
      | exit status => exact fixed_exit
      | join uid => exact fixed_join
      | detach uid => exact fixed_detach
      | lock m => exact fixed_lock
      | trylock m =>
          simp only [Abs.step, Abs.call, Abs.trylock]
          split <;> rfl
      | unlock m => exact fixed_unlock
      | condWait c m => exact fixed_unlock (a := a.push (.cond c))
      | signal c => exact fixed_signal
      | broadcast c => exact iterate_signal (fun b => b.core.fixed) (fun _ => fixed_signal) _
  | resume => exact fixed_resume
  | switch => exact fixed_switchScan _

theorem create_cases (prio : Int) : (a.create .user prio) = ((-1, 0), a) ∨
    ∃ t : Nat, (a.create .user prio) = ((0, (t : Int)), a.spawn t .user prio) := by
  unfold create
  cases uthreadAllocFrom a.core 0 uthMaxUthreads with
  | none => exact Or.inl rfl
  | some t => exact Or.inr ⟨t, rfl⟩

end Abs

/-- A created thread gets a stack of its own, and no stack is freed. -/
theorem Machine.Sound.fixed (hs : s.Sound) (he : e.Enabled s.core) (hp : Allowed s.core e)
    (hrun : e.run s = .ok (r, s')) :
    (Moment.mk s e r s').created = none ∧ s'.core.fixed = s.core.fixed ∨
      (∃ t, (Moment.mk s e r s').created = some t) ∧ s'.core.fixed = (s.core.reaperThrId,
        Function.update s.core.liveStacks s.core.nextStack true, s.core.nextStack + 1) := by
  obtain ⟨hr, habs, -⟩ := hs.step he hp hrun
  have hcore : s'.core = (s.abs.step e).2.core := congrArg Abs.core habs
  by_cases hcreate : ∃ prio, e = .call (.create prio)
  · obtain ⟨prio, rfl⟩ := hcreate
    have hr : r = some (s.abs.create .user prio).1 := hr
    have hcore : s'.core = (s.abs.create .user prio).2.core := hcore
    rw [hr, hcore]
    rcases s.abs.create_cases prio with h | ⟨t, h⟩
    · rw [h]
      exact Or.inl ⟨rfl, rfl⟩
    · rw [h]
      exact Or.inr ⟨⟨t, rfl⟩, rfl⟩
  · refine Or.inl ⟨?_, ?_⟩
    · cases hc : (Moment.mk s e r s').created with
      | none => rfl
      | some t =>
          obtain ⟨prio, -, he', -⟩ := Moment.created_eq_some.mp hc
          exact absurd ⟨prio, he'⟩ hcreate
    · rw [hcore]
      exact Abs.fixed_step fun prio h => hcreate ⟨prio, h⟩

/-- The reaper does not sleep while there is a thread on its list. -/
def Machine.ReaperAwake (s : Machine M C) : Prop :=
  s.list .reap ≠ [] → s.core.state s.core.reaperThrId ≠ .wait

namespace Abs

theorem state_reapable_reaper : (a.reapable t).core.state a.core.reaperThrId ≠ .wait := by
  rw [state_reapable]
  split
  · nofun
  · rename_i h
    exact fun hwait => h ⟨rfl, hwait⟩

theorem join_of_exited {uid : Int} (hjoin : Joins a.core uid)
    (hexit : (a.core.uthreads uid.toNat).utHasExited = true) : (a.join uid).2 =
      ((a.setWaiter uid.toNat).setDetached uid.toNat).reapable uid.toNat := by
  obtain ⟨hthread, hcur, hdet⟩ := hjoin
  have hguard : ¬ (a.core.cur.utWaiter ≠ none ∨
      (a.core.uthreads uid.toNat).utDetached = true) := by
    rw [hcur, hdet]
    simp
  have hself : (a.setWaiter uid.toNat).core.uthreads uid.toNat =
      { a.core.uthreads uid.toNat with utWaiter := some a.core.utCurthr } :=
    Function.update_self _ _ _
  have hexit' : ((a.setWaiter uid.toNat).core.uthreads uid.toNat).utHasExited = true := by
    rw [hself]
    exact hexit
  rw [join, if_neg hthread, if_neg (by rw [hcur]; nofun), if_neg hguard, joinLoop,
    if_neg (by rw [hexit']; nofun)]

end Abs

theorem Machine.Sound.reaper_same (hs : s.Sound) (he : e.Enabled s.core)
    (hp : Allowed s.core e) (hrun : e.run s = .ok (r, s')) :
    s'.core.reaperThrId = s.core.reaperThrId := by
  rcases hs.fixed he hp hrun with ⟨-, h⟩ | ⟨-, h⟩
  · exact congrArg Prod.fst h
  · exact congrArg Prod.fst h

/-- A thread stays on the reaper's list, so the reaper did not run. -/
theorem Machine.ReaperAwake.stays (hawake : s.ReaperAwake) (hs : s.Sound)
    (he : e.Enabled s.core) (hp : Allowed s.core e) (hrun : e.run s = .ok (r, s'))
    (hmem : t ∈ s.list .reap) (hnot : ¬ s.abs.Hits e r t) :
    s'.core.state s.core.reaperThrId ≠ .wait := by
  have hbefore := hawake (List.ne_nil_of_mem hmem)
  intro hwait
  cases hs.stateChange he hp hrun s.core.reaperThrId with
  | same hu h => exact hbefore (h.symm.trans hwait)
  | woken hw why h => exact UthreadState.noConfusion (hwait.symm.trans h)
  | scheduled he' hb h => exact UthreadState.noConfusion (hwait.symm.trans h)
  | created hb h => exact UthreadState.noConfusion (hwait.symm.trans h)
  | reaped hm h => exact UthreadState.noConfusion (hwait.symm.trans h)
  | left hu hr hne h =>
      cases e with
      | call c => exact hs.good.inv.ne_reaper (hs.good.running he) hu.symm
      | switch => exact hne rfl
      | resume =>
          obtain ⟨hlt, hon⟩ := hs.good.cur he.1
          have hctx := ((hs.good.inv.own _ hlt).reaper (Abs.Inv.alive_of_onCpu hon)).mpr hu.symm
          exact hnot (Or.inr ⟨hctx, hmem⟩)

theorem Machine.ReaperAwake.step (hawake : s.ReaperAwake) (hs : s.Sound)
    (he : e.Enabled s.core) (hp : Reapable s.core e) (hrun : e.run s = .ok (r, s')) :
    s'.ReaperAwake := by
  obtain ⟨-, habs, -, hs'⟩ := hs.step he hp.1 hrun
  have hcore : s'.core = (s.abs.step e).2.core := congrArg Abs.core habs
  intro hne
  rw [hs.reaper_same he hp.1 hrun]
  obtain ⟨t, ht⟩ := List.exists_mem_of_ne_nil _ hne
  obtain ⟨hz, hdet⟩ := Slot.zombie_of_place (hs'.good.inv.mem_place (a := s'.abs) ht)
  have hz : s'.core.state t = .zombie := hz
  have hdet : (s'.core.uthreads t).utDetached = true := hdet
  cases hs.recChange he hp.1 hrun t with
  | steady hnot h =>
      refine hawake.stays hs he hp.1 hrun (t := t) ?_ hnot
      refine (hs.mem_reap (hs'.good.inv.mem_lt (a := s'.abs) ht)).mpr ?_
      exact Uthread.phase_zombie.mpr ⟨h.zombie.mp hz, h.detached.symm.trans hdet⟩
  | created prio he' hr hlt hb hafter =>
      exact UthreadState.noConfusion ((congrArg Uthread.utState hafter).symm.trans hz)
  | exited status he' hu hafter =>
      subst he' hu
      have hcur : s.abs.core.cur.utDetached = true := hafter.detached.symm.trans hdet
      rw [hcore]
      change ((s.abs.die status).afterExit _ _).core.state s.abs.core.reaperThrId ≠ .wait
      rw [hcur]
      exact Abs.state_reapable_reaper (a := s.abs.die status)
  | joining uid he' hr hu hjoin hexit hafter =>
      subst hu
      exact absurd (hafter.detached.symm.trans hdet) (by rw [hjoin.2.2]; nofun)
  | joined uid he' hr hu hjoin hexit hafter =>
      subst he' hu
      have hjoin' : s'.core = (((s.abs.setWaiter uid.toNat).setDetached uid.toNat).reapable
          uid.toNat).core := by
        rw [hcore, ← Abs.join_of_exited hjoin hexit]
        rfl
      rw [hjoin']
      exact Abs.state_reapable_reaper
  | detached uid he' hr hu hthread hcur hd hafter =>
      subst hu
      exact absurd (hafter.zombie.mp hz) (hp.2 uid he' ⟨hthread, hd, hcur⟩)
  | rejoined he' hctx hr hafter =>
      subst he'
      have hloop := (hs.good.joins he.1 hctx).1
      have hresume : s.abs.resume.2 = ((s.abs.setDetached t).reapable t).returns := by
        rw [Abs.resume, hctx]
        simp only [hloop]
      have hjoin' : s'.core = (((s.abs.setDetached t).reapable t).returns).core := by
        rw [hcore, ← hresume]
        rfl
      rw [hjoin']
      exact Abs.state_reapable_reaper (a := s.abs.setDetached t)
  | reaped he' hctx hmem hafter =>
      exact UthreadState.noConfusion ((congrArg Uthread.utState hafter).symm.trans hz)

/-! ### Every run -/

/-- The stack that `uthread_create` allocated for a thread. -/
def stackOf : List (Moment M C) → Nat → Nat → Option Nat
  | [], t, g => if t < 2 ∧ g = 0 then some t else none
  | m :: tr, t, g =>
      if m.created = some t ∧ g = incarnation tr t + 1 then some m.before.core.nextStack
      else stackOf tr t g

/-- A stack is freed when its thread is destroyed, and only then. -/
def StacksFreed (tr : List (Moment M C)) (s : Machine M C) : Prop :=
  ∀ t g n, t < uthMaxUthreads → stackOf tr t g = some n →
    (s.core.liveStacks n = false ↔ times Moment.destroyed tr t g = 1)

/-- Each exited thread that was detached or joined is put on `reap_queue` once, and no other one;
it is wiped from there, before its slot is used again; the reaper runs when there is a thread for
it; and no assertion of the reaper fails. -/
structure ReapsOnce (tr : List (Moment M C)) (s : Machine M C) : Prop where
  exitOnce : ∀ t g, t < uthMaxUthreads → times Moment.exited tr t g ≤ 1
  queuedOnce : ∀ t g, t < uthMaxUthreads → times Moment.exited tr t g = 1 → Released tr t g →
    times Moment.queued tr t g = 1
  queuedOnly : ∀ t g, t < uthMaxUthreads → times Moment.queued tr t g ≠ 0 →
    times Moment.exited tr t g = 1 ∧ Released tr t g
  destroyedOnly : ∀ t g, t < uthMaxUthreads →
    times Moment.destroyed tr t g ≤ times Moment.queued tr t g
  reused : ∀ t g, t < uthMaxUthreads → g < incarnation tr t → Started t g →
    times Moment.destroyed tr t g = 1
  reaper : s.list .reap ≠ [] → ¬ (s.core.switching = false ∧
    s.core.utCurthr = s.core.reaperThrId) → s.core.state s.core.reaperThrId = .runnable
  asserts : ∀ e, e.Enabled s.core → Reapable s.core e →
    e.run s ≠ .error (.assertion .makeReapable) ∧ e.run s ≠ .error (.assertion .reaper)

omit [DecidableEq M] [DecidableEq C] in
/-- A thread has not exited, or it waits to be released, or it was put on `reap_queue`. -/
theorem SlotOk.cases {p : Phase} (hok : SlotOk tr t p) (g : Nat) :
    (∃ q, Counts tr t g 0 0 0 q) ∨ Counts tr t g 1 0 0 False ∨
      ∃ n, n ≤ 1 ∧ Counts tr t g 1 1 n True := by
  by_cases hs : Started t g
  · rcases Nat.lt_trichotomy g (incarnation tr t) with hlt | rfl | hgt
    · exact Or.inr (Or.inr ⟨1, le_rfl, hok.past g hlt hs⟩)
    · have hnow := hok.now
      cases p with
      | unused => exact Or.inr (Or.inr ⟨1, le_rfl, hnow hs⟩)
      | alive d => exact Or.inl ⟨_, hnow⟩
      | zombie d =>
          cases d with
          | true =>
              obtain ⟨h1, h2, h3, h4⟩ := hnow
              exact Or.inr (Or.inr ⟨0, Nat.zero_le _, h1, h2, h3, h4.trans (by simp)⟩)
          | false =>
              obtain ⟨h1, h2, h3, h4⟩ := hnow
              exact Or.inr (Or.inl ⟨h1, h2, h3, h4.trans (by simp)⟩)
    · exact Or.inl ⟨_, hok.future g (Or.inl hgt)⟩
  · exact Or.inl ⟨_, hok.future g (Or.inr hs)⟩

/-- The stacks that were handed out are still there. -/
structure StacksLive (tr : List (Moment M C)) (s : Machine M C) : Prop where
  live : ∀ n, n < s.core.nextStack → s.core.liveStacks n = true
  own : ∀ t g n, stackOf tr t g = some n → n < s.core.nextStack

theorem StacksLive.step (hl : StacksLive tr s) (hs : s.Sound) (he : e.Enabled s.core)
    (hp : Allowed s.core e) (hrun : e.run s = .ok (r, s')) :
    StacksLive (⟨s, e, r, s'⟩ :: tr) s' := by
  rcases hs.fixed he hp hrun with ⟨hc, h⟩ | ⟨-, h⟩
  · have hlive : s'.core.liveStacks = s.core.liveStacks := congrArg (fun x => x.2.1) h
    have hnext : s'.core.nextStack = s.core.nextStack := congrArg (fun x => x.2.2) h
    refine ⟨?_, ?_⟩
    · rw [hlive, hnext]
      exact hl.live
    · intro t g n hn
      rw [stackOf, if_neg (by rw [hc]; nofun)] at hn
      rw [hnext]
      exact hl.own t g n hn
  · have hlive : s'.core.liveStacks = Function.update s.core.liveStacks s.core.nextStack true :=
      congrArg (fun x => x.2.1) h
    have hnext : s'.core.nextStack = s.core.nextStack + 1 := congrArg (fun x => x.2.2) h
    refine ⟨?_, ?_⟩
    · intro n hn
      rw [hlive, Function.update_apply]
      split
      · rfl
      · exact hl.live n (by omega)
    · intro t g n hn
      rw [stackOf] at hn
      split at hn
      · cases hn
        exact hnext ▸ Nat.lt_succ_self _
      · have hlt := hl.own t g n hn
        omega

omit [DecidableEq M] [DecidableEq C] in
theorem stackOf_some (hs : Started t g) (hg : g ≤ incarnation tr t) :
    ∃ n, stackOf tr t g = some n := by
  induction tr with
  | nil =>
      have hzero : g = 0 := Nat.le_zero.mp hg
      refine ⟨t, if_pos ⟨hs.resolve_right ?_, hzero⟩⟩
      omega
  | cons m tr ih =>
      rw [stackOf]
      split
      · exact ⟨_, rfl⟩
      · rename_i hno
        refine ih ?_
        rw [incarnation_cons] at hg
        split at hg
        · rename_i hc
          have hne : g ≠ incarnation tr t + 1 := fun h => hno ⟨hc, h⟩
          omega
        · exact hg

omit [DecidableEq M] [DecidableEq C] in
/-- No stack is ever freed. -/
theorem StacksLive.freed_iff (hl : StacksLive tr s)
    (hok : ∀ t, t < uthMaxUthreads → SlotOk tr t (s.core.uthreads t).phase) :
    StacksFreed tr s ↔ ∀ t g, t < uthMaxUthreads → times Moment.destroyed tr t g = 0 := by
  have hlive {t g n : Nat} (hn : stackOf tr t g = some n) : s.core.liveStacks n = true :=
    hl.live n (hl.own t g n hn)
  constructor
  · intro h t g ht
    rcases (hok t ht).cases g with ⟨q, hc⟩ | hc | ⟨n, hn, hc⟩
    · exact hc.destroyed
    · exact hc.destroyed
    · have hstarted : Started t g := by
        by_contra hno
        have hnone := (hok t ht).future g (Or.inr hno)
        exact absurd (hnone.exited.symm.trans hc.exited) (by decide)
      have hle : g ≤ incarnation tr t := by
        by_contra hgt
        have hnone := (hok t ht).future g (Or.inl (by omega))
        exact absurd (hnone.exited.symm.trans hc.exited) (by decide)
      obtain ⟨k, hk⟩ := stackOf_some hstarted hle
      rcases Nat.le_one_iff_eq_zero_or_eq_one.mp hn with rfl | rfl
      · exact hc.destroyed
      · have hfreed := (h t g k ht hk).mpr hc.destroyed
        exact Bool.noConfusion (hfreed.symm.trans (hlive hk))
  · intro h t g n ht hn
    refine iff_of_false ?_ ?_
    · rw [hlive hn]
      nofun
    · rw [h t g ht]
      decide

omit [DecidableEq M] [DecidableEq C] in
theorem counts_nil {q : Prop} (hq : t = 1 ∧ g = 0 ↔ q) :
    Counts ([] : List (Moment M C)) t g 0 0 0 q :=
  ⟨rfl, rfl, rfl, (or_iff_left (Nat.lt_irrefl 0)).trans hq⟩

omit [DecidableEq M] [DecidableEq C] in
theorem slotOk_initial (ht : t < uthMaxUthreads) : SlotOk ([] : List (Moment M C)) t
    ((Abs.initial : Abs M C).core.uthreads t).phase := by
  have hfuture (g : Nat) (hg : incarnation ([] : List (Moment M C)) t < g ∨ ¬ Started t g) :
      Counts ([] : List (Moment M C)) t g 0 0 0 False := by
    refine counts_nil (iff_of_false ?_ id)
    rintro ⟨rfl, rfl⟩
    rcases hg with hg | hg
    · exact Nat.lt_irrefl 0 hg
    · exact hg (Or.inl (by decide))
  by_cases h0 : t = 0
  · subst h0
    exact ⟨nofun, counts_nil (iff_of_false nofun nofun), fun _ => Or.inl (by decide), hfuture⟩
  by_cases h1 : t = 1
  · subst h1
    exact ⟨nofun, counts_nil (iff_of_true ⟨rfl, rfl⟩ rfl), fun _ => Or.inl (by decide), hfuture⟩
  · have hrec : (Abs.initial : Abs M C).core.uthreads t = .zero :=
      congrArg Prod.fst (Abs.slot_initial (M := M) (C := C) ht h0 h1)
    rw [hrec]
    refine ⟨nofun, ?_, fun h => absurd rfl h, hfuture⟩
    rintro (hlt | hpos)
    · omega
    · exact absurd hpos (Nat.not_succ_le_zero 0)

omit [DecidableEq M] [DecidableEq C] in
theorem stacksLive_initial (hcore : s.core = (Abs.initial : Abs M C).core) :
    StacksLive [] s := by
  refine ⟨?_, ?_⟩
  · rw [hcore]
    intro n hn
    have hn : n < 2 := hn
    refine decide_eq_true ?_
    omega
  · intro t g n hn
    rw [stackOf, Option.ite_none_right_eq_some] at hn
    obtain ⟨⟨ht, -⟩, ⟨rfl⟩⟩ := hn
    rw [hcore]
    exact ht

theorem Run.reaping (hrun : Run Reapable started tr s) :
    (∀ t, t < uthMaxUthreads → SlotOk tr t (s.core.uthreads t).phase) ∧ s.ReaperAwake ∧
      StacksLive tr s := by
  induction hrun with
  | start =>
      have hcore : (started : Machine M C).core = (Abs.initial : Abs M C).core :=
        congrArg Abs.core abs_started
      have hlist : (started : Machine M C).list = (Abs.initial : Abs M C).q :=
        congrArg Abs.q abs_started
      refine ⟨?_, ?_, ?_⟩
      · intro t ht
        rw [hcore]
        exact slotOk_initial ht
      · intro hne
        rw [hlist] at hne
        exact absurd rfl hne
      · exact stacksLive_initial hcore
  | step hrun he hp hok ih =>
      have hs := hrun.sound fun _ _ h => h.1
      obtain ⟨hslot, hawake, hlive⟩ := ih
      have hs' := (hs.step he hp.1 hok).2.2.2
      refine ⟨?_, hawake.step hs he hp hok, hlive.step hs he hp.1 hok⟩
      intro t ht
      exact (hslot t ht).step (hs.lives he hp hok t) (hs.queued_iff hs' ht) Moment.destroyed_iff

/-- In every run in which no zombie is detached, each exited thread that was detached or joined is
reaped once, and the stacks are freed with their threads if and only if no thread is destroyed. -/
theorem reaped_once (hrun : Run Reapable started tr s) : ReapsOnce tr s ∧
    (StacksFreed tr s ↔ ∀ t g, t < uthMaxUthreads → times Moment.destroyed tr t g = 0) := by
  have hs := hrun.sound fun _ _ h => h.1
  obtain ⟨hslot, hawake, hlive⟩ := hrun.reaping
  refine ⟨⟨?_, ?_, ?_, ?_, ?_, ?_, ?_⟩, hlive.freed_iff hslot⟩
  · intro t g ht
    rcases (hslot t ht).cases g with ⟨q, hc⟩ | hc | ⟨n, hn, hc⟩
    · exact hc.exited.trans_le (Nat.zero_le _)
    · exact hc.exited.le
    · exact hc.exited.le
  · intro t g ht hx hr
    rcases (hslot t ht).cases g with ⟨q, hc⟩ | hc | ⟨n, hn, hc⟩
    · exact absurd (hc.exited.symm.trans hx) (by decide)
    · exact (hc.released.mp hr).elim
    · exact hc.queued
  · intro t g ht hq
    rcases (hslot t ht).cases g with ⟨q, hc⟩ | hc | ⟨n, hn, hc⟩
    · exact absurd hc.queued hq
    · exact absurd hc.queued hq
    · exact ⟨hc.exited, hc.released.mpr trivial⟩
  · intro t g ht
    rcases (hslot t ht).cases g with ⟨q, hc⟩ | hc | ⟨n, hn, hc⟩
    · rw [hc.destroyed, hc.queued]
    · rw [hc.destroyed, hc.queued]
    · rw [hc.destroyed, hc.queued]
      exact hn
  · exact fun t g ht hg hstarted => ((hslot t ht).past g hg hstarted).destroyed
  · intro hne hout
    have halive := hs.good.inv.reaper_alive
    have hawake := hawake hne
    cases hstate : s.core.state s.core.reaperThrId with
    | runnable => rfl
    | wait => exact absurd hstate hawake
    | noState => exact absurd hstate halive.1
    | zombie => exact absurd hstate halive.2
    | onCpu =>
        obtain ⟨hsw, hcur⟩ := (hs.good.cpu.2 _ hs.good.inv.reaper_lt).mp hstate
        exact absurd ⟨hsw, hcur.symm⟩ hout
  · intro e he hp
    refine ⟨fun hstop => ?_, fun hstop => ?_⟩
    · have hstops := hs.stops he hp.1 hstop
      cases e with
      | call c =>
          cases c with
          | create prio => cases hstops.1
          | detach uid => exact hp.2 uid rfl hstops.2.1 hstops.2.2
          | unlock m => cases hstops.1
          | condWait c m => cases hstops.1
          | _ => exact hstops
      | resume => cases hstops.1
      | switch => exact hstops
    · have hstops := hs.stops he hp.1 hstop
      cases e with
      | call c =>
          cases c with
          | create prio => cases hstops.1
          | detach uid => cases hstops.1
          | unlock m => cases hstops.1
          | condWait c m => cases hstops.1
          | _ => exact hstops
      | resume => cases hstops.1
      | switch => exact hstops

/-- `uthread_detach` leaves `ut_detached` alone before it calls `make_reapable`. -/
theorem detach_fails {uid : Int} (hd : Detaches s.core uid)
    (hz : s.core.state uid.toNat = .zombie) :
    (Event.call (.detach uid)).run s = .error (.assertion .makeReapable) := by
  have hfails : ewp (uthreadDetach uid) (fun _ _ => False)
      (fun f => f = .assertion .makeReapable) s := by
    obtain ⟨hthread, hdet, hcur⟩ := hd
    unfold uthreadDetach makeReapable
    rw [ewp_bind, ewp_getCore, if_neg hthread, if_neg (by rw [hdet, hcur]; simp), if_pos hz,
      ewp_bind, ewp_bind, ewp_getCore, ewp_bind, hdet]
    rfl
  refine bind_eq_of_error ?_
  unfold ewp at hfails
  split at hfails
  · rename_i heq
    rw [heq, hfails]
  · exact hfails.elim

/-- Thread 2 exits, is joined by thread 1 and wiped by the reaper, and its slot is used again. -/
theorem reaped_once_joined : ∃ (tr : List (Moment Unit Unit)) (s : Machine Unit Unit),
    tr.length = 12 ∧ s.core.state 2 = .runnable ∧ ReapsOnce tr s := by
  have hf : (Abs.initial : Abs Unit Unit).Follows Reapable
      [.call (.create 7), .call (.join 2), .switch, .call (.exit 5), .switch, .resume,
        .call .yield, .switch, .resume, .switch, .resume, .call (.create 7)] := by
    refine ⟨⟨rfl, rfl⟩, ⟨trivial, nofun⟩, trivial, fun f h => h.2 (by decide), ?_⟩
    refine ⟨⟨rfl, rfl⟩, ⟨fun _ _ => rfl, nofun⟩, fun _ _ => rfl, fun f h => h, ?_⟩
    refine ⟨rfl, ⟨trivial, nofun⟩, trivial, fun f h => h, ?_⟩
    refine ⟨⟨rfl, rfl⟩, ⟨trivial, nofun⟩, trivial, fun f h => h, ?_⟩
    refine ⟨rfl, ⟨trivial, nofun⟩, trivial, fun f h => h, ?_⟩
    refine ⟨⟨rfl, nofun⟩, ⟨trivial, nofun⟩, trivial, fun f h => absurd h.2.1 (by decide), ?_⟩
    refine ⟨⟨rfl, rfl⟩, ⟨trivial, nofun⟩, trivial, fun f h => h, ?_⟩
    refine ⟨rfl, ⟨trivial, nofun⟩, trivial, fun f h => h, ?_⟩
    refine ⟨⟨rfl, nofun⟩, ⟨trivial, nofun⟩, trivial,
      fun f h => absurd (h.2.2 1 (by decide) (by decide)) (by decide), ?_⟩
    refine ⟨rfl, ⟨trivial, nofun⟩, trivial, fun f h => h, ?_⟩
    refine ⟨⟨rfl, nofun⟩, ⟨trivial, nofun⟩, trivial, fun f h => absurd h.2.1 (by decide), ?_⟩
    exact ⟨⟨rfl, rfl⟩, ⟨trivial, nofun⟩, trivial, fun f h => h.2 (by decide), trivial⟩
  obtain ⟨tr, s, hrun, -, habs, hevents⟩ := Run.of_events hf
  refine ⟨tr, s, ?_, ?_, (reaped_once hrun).1⟩
  · rw [← List.length_map, hevents]
    rfl
  · exact congrArg (fun a => a.core.state 2) habs

/-- Thread 1 detaches thread 2 after it exited. -/
theorem detach_zombie : ∃ (tr : List (Moment Unit Unit)) (s : Machine Unit Unit),
    Run (fun _ _ => True) started tr s ∧
      ∃ e : Event Unit Unit, e.Enabled s.core ∧ e.run s = .error (.assertion .makeReapable) := by
  have hf : (Abs.initial : Abs Unit Unit).Follows (fun _ _ => True)
      [.call (.create 7), .call .yield, .switch, .call (.exit 5), .switch, .resume] := by
    refine ⟨⟨rfl, rfl⟩, trivial, trivial, fun f h => h.2 (by decide), ?_⟩
    refine ⟨⟨rfl, rfl⟩, trivial, trivial, fun f h => h, ?_⟩
    refine ⟨rfl, trivial, trivial, fun f h => h, ?_⟩
    refine ⟨⟨rfl, rfl⟩, trivial, trivial, fun f h => h, ?_⟩
    refine ⟨rfl, trivial, trivial, fun f h => h, ?_⟩
    exact ⟨⟨rfl, nofun⟩, trivial, trivial, fun f h => absurd h.2.1 (by decide), trivial⟩
  obtain ⟨tr, s, hrun, hs, habs, -⟩ := Run.of_events hf
  have hcore : s.core = _ := congrArg Abs.core habs
  refine ⟨tr, s, hrun, .call (.detach 2), ?_, detach_fails ?_ ?_⟩
  · rw [hcore]
    exact ⟨rfl, rfl⟩
  · rw [hcore]
    exact ⟨by decide, rfl, rfl⟩
  · rw [hcore]
    rfl

end CodingSample.Uthreads
