import CodingSample.Uthreads.Refine

/-!
# Runs

The state after `uthread_init` meets the invariant and every event keeps it, so it holds in every
state of a run. The lists are read off the links of the memory.
-/

namespace CodingSample.Uthreads

open Prog

variable {M C : Type} [DecidableEq M] [DecidableEq C] {s s' : Machine M C} {a b : Abs M C}
  {t w : Nat} {h : Head M C} {e : Event M C}

/-- The threads on a list, in the order of the next pointers. -/
def Machine.list (s : Machine M C) (h : Head M C) : List Nat :=
  s.links.walk (.inl h) uthMaxUthreads

/-- The abstract machine in the memory of the process. -/
def Machine.abs (s : Machine M C) : Abs M C := ⟨s.core, s.list⟩

omit [DecidableEq M] [DecidableEq C] in
theorem View.abs_eq (hv : View s a) (hi : a.Inv) : s.abs = a := by
  have hlist : s.list = a.q := by
    funext h
    refine hv.rings.walk_eq ?_
    exact length_le_of_lt (hv.rings.nodup h) fun t ht => hi.mem_lt ht
  rw [Machine.abs, hlist, hv.core]

/-! ### The start -/

/-- The abstract machine before `uthread_init`. -/
def Abs.blank : Abs M C := ⟨Uthreads.blank.core, fun _ => []⟩

omit [DecidableEq M] [DecidableEq C] in
theorem view_blank : View (blank : Machine M C) Abs.blank := by
  refine ⟨rfl, ⟨?_, fun _ => List.nodup_nil, nofun, fun _ _ => ⟨rfl, rfl⟩⟩, fun _ _ => rfl⟩
  intro h
  exact List.isChain_cons_cons.mpr ⟨⟨rfl, rfl⟩, List.isChain_singleton _⟩

/-- The reaper waits in thread 0, and the program runs in thread 1, which is detached. -/
def Abs.initial : Abs M C where
  core := {
    uthreads := fun t =>
      if t = 0 then { Uthread.zero with utId := 0, utState := .wait, utPrio := uthMaxprio }
      else if t = 1 then
        { Uthread.zero with
          utId := 1, utState := .onCpu, utPrio := uthMaxprio, utDetached := true }
      else if t = hack then { Uthread.zero with utState := .onCpu }
      else .zero
    utCtx := fun t => if t = 0 then .reaper else if t = 1 then .user else .none
    ctxStack := fun t => if t = 0 then some 0 else if t = 1 then some 1 else none
    utCurthr := 1
    switching := false
    mOwner := fun _ => none
    reaperThrId := 0
    liveStacks := fun n => n = 0 ∨ n = 1
    nextStack := 2 }
  q := fun _ => []

theorem init_blank (q : Head M C) :
    (blank : Machine M C).links.init (.inl q) = (blank : Machine M C).links := by
  have hnext : Function.update (blank : Machine M C).links.next (.inl q) (some (.inl q)) =
      (blank : Machine M C).links.next := Function.update_eq_self (Sum.inl q) _
  have hprev : Function.update (blank : Machine M C).links.prev (.inl q) (some (.inl q)) =
      (blank : Machine M C).links.prev := Function.update_eq_self (Sum.inl q) _
  unfold Links.init Links.setPrev Links.setNext
  rw [hnext, hprev]

theorem utqueueInit_blank (q : Head M C) : utqueueInit q blank = .ok ((), blank) := by
  have hsize : Function.update (blank : Machine M C).tqSize q 0 = (blank : Machine M C).tqSize :=
    Function.update_eq_self q _
  unfold utqueueInit
  rw [bind_eq_of_ok (modify_apply _ _), hsize]
  unfold editLinks
  simp only [init_blank]

/-- The abstract machine after `reaper_init`. -/
def Abs.reaperMade : Abs M C :=
  (Abs.blank.spawn 0 .reaperStart uthMaxprio).onCore fun c => { c with reaperThrId := 0 }

theorem ewp_reaperInit {E : Fault → Prop} :
    ewp reaperInit (fun _ s' => View s' (Abs.reaperMade : Abs M C)) E blank := by
  unfold reaperInit
  rw [ewp_bind]
  refine ewp_editLinks rfl ?_
  rw [init_blank]
  refine ewp_bind_of (ewp_uthreadCreate view_blank .reaperStart uthMaxprio ?_ ?_) ?_
  · exact fun _ _ _ => nofun
  · exact fun hbad => absurd (by decide) hbad
  · rintro r s1 ⟨rfl, hv1, -⟩
    exact hv1.onCore fun c => { c with reaperThrId := 0 }

theorem Abs.q_reaperMade (h : Head M C) :
    (Abs.reaperMade : Abs M C).q h = if h = .runq 7 then [0] else [] :=
  Function.update_apply _ _ _ _

/-- The abstract machine when `create_first_thr` creates the first thread. -/
def Abs.onHack : Abs M C := Abs.reaperMade.onCore fun c =>
  { c.setThread hack { Uthread.zero with utState := .onCpu } with utCurthr := hack }

/-- The abstract machine at the first switch. -/
def Abs.firstMade : Abs M C :=
  (((Abs.onHack.spawn 1 .none uthMaxprio).setDetached 1).onCore fun c =>
    c.setCtx 1 (.firstThr 1)).switchOut .none

theorem Abs.free_onHack (hstate : (Abs.onHack : Abs M C).core.state t = .noState) :
    (Abs.onHack : Abs M C).Free t := by
  intro g hmem
  have hmem : t ∈ (if g = Head.runq 7 then [0] else []) := Abs.q_reaperMade g ▸ hmem
  split at hmem
  · rw [List.mem_singleton.mp hmem] at hstate
    exact UthreadState.noConfusion hstate
  · cases hmem

theorem Abs.create_onHack :
    (Abs.onHack : Abs M C).create .none uthMaxprio = ((0, 1), Abs.onHack.spawn 1 .none 7) := rfl

theorem Abs.detach_onHack : ((Abs.onHack : Abs M C).spawn 1 .none 7).detach 1 =
    (0, (Abs.onHack.spawn 1 .none 7).setDetached 1) := rfl

theorem ewp_createFirstThr (hv : View s (Abs.reaperMade : Abs M C)) {E : Fault → Prop} :
    ewp createFirstThr (fun _ s' => View s' (Abs.firstMade : Abs M C)) E s := by
  unfold createFirstThr
  rw [ewp_bind, ewp_modifyCore]
  have hv1 : View _ (Abs.onHack : Abs M C) := hv.onCore fun c =>
    { c.setThread hack { Uthread.zero with utState := .onCpu } with utCurthr := hack }
  refine ewp_bind_of (ewp_uthreadCreate hv1 .none uthMaxprio (fun _ _ => Abs.free_onHack)
    fun hbad => absurd (by decide) hbad) ?_
  rintro r s2 ⟨rfl, hv2, -⟩
  rw [Abs.create_onHack] at hv2 ⊢
  rw [ewp_bind]
  refine ewp_assert rfl ?_
  refine ewp_bind_of (ewp_uthreadDetach hv2 1 fun _ hzombie => ?_) ?_
  · exact UthreadState.noConfusion hzombie
  · rintro r s3 ⟨-, hv3, -⟩
    rw [Abs.detach_onHack] at hv3
    exact ewp_uthreadSwitch (E := E) (hv3.onCore fun c => c.setCtx 1 (.firstThr 1)) .none

theorem Abs.q_firstMade (h : Head M C) :
    (Abs.firstMade : Abs M C).q h = if h = .runq 7 then [1, 0] else [] := by
  change Function.update (Function.update (fun _ => []) (.runq 7) [0]) (.runq 7) [1, 0] h = _
  rw [Function.update_idem, Function.update_apply]

/-- The reaper runs up to its `uthread_block`. -/
def Abs.reaperWaits : Abs M C := ((Abs.firstMade.setQ (.runq 7) [1]).run 0).block .reaper

theorem Abs.switch_firstMade :
    (Abs.firstMade : Abs M C).switch = (Abs.firstMade.setQ (.runq 7) [1]).run 0 := rfl

theorem Abs.switch_reaperWaits :
    (Abs.reaperWaits : Abs M C).switch = (Abs.reaperWaits.setQ (.runq 7) []).run 1 := rfl

theorem Abs.q_reaperWaits (h : Head M C) :
    (Abs.reaperWaits : Abs M C).q h = if h = .runq 7 then [1] else [] := by
  change Function.update (Abs.firstMade : Abs M C).q (.runq 7) [1] h = _
  rw [Function.update_apply, Abs.q_firstMade]
  split <;> rfl

/-- Only the reaper and the first thread were made. -/
theorem Abs.core_reaperWaits (h0 : t ≠ 0) (h1 : t ≠ 1) :
    (Abs.reaperWaits : Abs M C).core.uthreads t =
        (if t = hack then { Uthread.zero with utState := .onCpu } else .zero) ∧
      (Abs.reaperWaits : Abs M C).core.utCtx t = .none ∧
      (Abs.reaperWaits : Abs M C).core.ctxStack t = none ∧
      (Abs.reaperWaits : Abs M C).core.liveStacks t = false := by
  by_cases h2 : t = hack
  · rw [h2]
    exact ⟨rfl, rfl, rfl, rfl⟩
  · rw [if_neg h2]
    simp only [hack, uthMaxUthreads] at h2
    simp [reaperWaits, firstMade, onHack, reaperMade, Abs.blank, Uthreads.blank, Abs.spawn,
      Abs.setDetached, Abs.switchOut, Abs.run, Abs.block, Core.setThread, Core.setState,
      Core.setCtx, Core.pushStack, Core.makecontext, h0, h1, h2]

theorem Abs.returns_reaperWaits :
    (((Abs.reaperWaits : Abs M C).setQ (.runq 7) []).run 1).returns = Abs.initial := by
  have hq : (((Abs.reaperWaits : Abs M C).setQ (.runq 7) []).run 1).returns.q = fun _ => [] := by
    funext h
    change Function.update (Abs.reaperWaits : Abs M C).q (.runq 7) [] h = _
    rw [Function.update_apply, Abs.q_reaperWaits]
    split <;> rfl
  have hcore : (((Abs.reaperWaits : Abs M C).setQ (.runq 7) []).run 1).returns.core =
      Abs.initial.core := by
    refine (Core.mk.injEq ..).mpr ⟨?_, ?_, ?_, rfl, rfl, rfl, rfl, ?_, rfl⟩
    · funext t
      by_cases h0 : t = 0
      · rw [h0]
        rfl
      by_cases h1 : t = 1
      · rw [h1]
        rfl
      · change Function.update (Abs.reaperWaits : Abs M C).core.uthreads 1 _ t = _
        rw [Function.update_of_ne h1, (Abs.core_reaperWaits h0 h1).1]
        simp only [if_neg h0, if_neg h1]
    · funext t
      by_cases h0 : t = 0
      · rw [h0]
        rfl
      by_cases h1 : t = 1
      · rw [h1]
        rfl
      · change Function.update (Abs.reaperWaits : Abs M C).core.utCtx 1 _ t = _
        rw [Function.update_of_ne h1, (Abs.core_reaperWaits h0 h1).2.1]
        simp only [if_neg h0, if_neg h1]
    · funext t
      by_cases h0 : t = 0
      · rw [h0]
        rfl
      by_cases h1 : t = 1
      · rw [h1]
        rfl
      · change (Abs.reaperWaits : Abs M C).core.ctxStack t = _
        rw [(Abs.core_reaperWaits h0 h1).2.2.1]
        simp only [if_neg h0, if_neg h1]
    · funext n
      by_cases h0 : n = 0
      · rw [h0]
        rfl
      by_cases h1 : n = 1
      · rw [h1]
        rfl
      · change (Abs.reaperWaits : Abs M C).core.liveStacks n = _
        rw [(Abs.core_reaperWaits h0 h1).2.2.2]
        simp [h0, h1]
  exact congrArg₂ Abs.mk hcore hq

/-- The state after `uthread_init`. -/
theorem ewp_uthreadInit {E : Fault → Prop} :
    ewp uthreadInit (fun _ s' => View s' (Abs.initial : Abs M C)) E blank := by
  have hsched : uthreadSchedInit (blank : Machine M C) = .ok ((), blank) :=
    each_of_noop fun i _ => utqueueInit_blank (.runq i)
  unfold uthreadInit
  rw [ewp_bind, ewp_of_ok hsched]
  refine ewp_bind_of ewp_reaperInit ?_
  intro _ s1 hv1
  refine ewp_bind_of (ewp_createFirstThr hv1) ?_
  intro _ s2 hv2
  have hrunq : (Abs.firstMade : Abs M C).RunqOk := by
    intro i t ht
    rw [Abs.q_firstMade] at ht
    split at ht
    · rcases List.mem_pair.mp ht with rfl | rfl <;> rfl
    · cases ht
  refine ewp_bind_of (ewp_switchRound hv2 hrunq) ?_
  intro _ s3 hv3
  rw [Abs.switch_firstMade] at hv3
  have hrest : ewp resume (fun _ s' => View s' (Abs.reaperWaits : Abs M C)) E s3 := by
    unfold resume
    rw [ewp_bind, ewp_getCore, hv3.core]
    change ewp (uthreadBlock .reaper >>= fun _ => pure none) _ E s3
    refine ewp_bind_of (ewp_uthreadBlock hv3 rfl .reaper) ?_
    intro _ s4 hv4
    exact hv4
  refine ewp_bind_of hrest ?_
  intro _ s4 hv4
  have hrunq' : (Abs.reaperWaits : Abs M C).RunqOk := by
    intro i t ht
    rw [Abs.q_reaperWaits] at ht
    split at ht
    · rw [List.mem_singleton.mp ht]
      rfl
    · cases ht
  refine ewp_bind_of (ewp_switchRound hv4 hrunq') ?_
  intro _ s5 hv5
  rw [Abs.switch_reaperWaits] at hv5
  have hlast : ewp resume (fun _ s' => View s' (Abs.initial : Abs M C)) E s5 := by
    unfold resume
    rw [ewp_bind, ewp_getCore, hv5.core]
    change ewp (assert .createFirstThr true >>= fun _ => returnToUser (0, 0)) _ E s5
    rw [ewp_bind]
    refine ewp_assert rfl ?_
    refine ewp_mono (Abs.Good.ewp_returnToUser hv5 (0, 0)) ?_ fun _ he => he
    rintro r s6 ⟨-, hv6⟩
    rw [Abs.returns_reaperWaits] at hv6
    exact hv6
  refine ewp_bind_of hlast ?_
  intro _ s6 hv6
  exact hv6

/-- The process after `uthread_init`. -/
def started : Machine M C :=
  match uthreadInit blank with
  | .ok (_, s) => s
  | .error _ => blank

theorem uthreadInit_blank : uthreadInit (blank : Machine M C) = .ok ((), started) ∧
    View (started : Machine M C) Abs.initial := by
  obtain ⟨_, s₀, heq, hv⟩ := wp_of_ewp (ewp_uthreadInit (M := M) (C := C) (E := Never))
    fun _ => id
  have hs : started = s₀ := by
    unfold started
    rw [heq]
  rw [hs]
  exact ⟨heq, hv⟩

-- the state is used through its view only
attribute [irreducible] started

section Initial

omit [DecidableEq M] [DecidableEq C]

theorem Abs.slot_initial (ht : t < uthMaxUthreads) (h0 : t ≠ 0) (h1 : t ≠ 1) :
    (Abs.initial : Abs M C).core.slot t = (.zero, .none) := by
  have h2 : t ≠ hack := Nat.ne_of_lt ht
  simp only [hack, uthMaxUthreads] at h2
  simp [Core.slot, Abs.initial, h0, h1, h2]

theorem Abs.slot_initial_zero : (Abs.initial : Abs M C).core.slot 0 =
    ({ Uthread.zero with utId := 0, utState := .wait, utPrio := 7 }, .reaper) := rfl

theorem Abs.slot_initial_one : (Abs.initial : Abs M C).core.slot 1 =
    ({ Uthread.zero with utId := 1, utState := .onCpu, utPrio := 7, utDetached := true },
      .user) := rfl

theorem Abs.own_initial (ht : t < uthMaxUthreads) :
    ((Abs.initial : Abs M C).core.slot t).Own 0 t := by
  by_cases h0 : t = 0
  · rw [h0, slot_initial_zero]
    exact ⟨fun _ => rfl, by simp, iff_of_false nofun nofun, rfl, fun _ => trivial,
      fun _ => iff_of_true rfl rfl, nofun⟩
  by_cases h1 : t = 1
  · rw [h1, slot_initial_one]
    exact ⟨fun _ => rfl, by simp, iff_of_false nofun nofun, rfl, fun _ => trivial,
      fun _ => iff_of_false nofun nofun, nofun⟩
  · rw [slot_initial ht h0 h1]
    exact ⟨fun h => absurd rfl h, by simp [Uthread.zero], iff_of_false nofun nofun, rfl,
      fun h => absurd rfl h.1, fun h => absurd rfl h.1, nofun⟩

theorem Abs.idle_initial (ht : t < uthMaxUthreads) :
    ((Abs.initial : Abs M C).core.slot t).1.utWaiter = none ∧
      (∀ u, ((Abs.initial : Abs M C).core.slot t).2 ≠ .join u) ∧
      ((Abs.initial : Abs M C).core.slot t).place = none ∧
      (((Abs.initial : Abs M C).core.slot t).1.utState = .onCpu ↔ t = 1) := by
  by_cases h0 : t = 0
  · rw [h0, slot_initial_zero]
    exact ⟨rfl, nofun, rfl, iff_of_false nofun nofun⟩
  by_cases h1 : t = 1
  · rw [h1, slot_initial_one]
    exact ⟨rfl, nofun, rfl, iff_of_true rfl rfl⟩
  · rw [slot_initial ht h0 h1]
    exact ⟨rfl, nofun, rfl, iff_of_false nofun h1⟩

theorem Abs.good_initial : (Abs.initial : Abs M C).Good := by
  have hlt : 0 < uthMaxUthreads ∧ 1 < uthMaxUthreads := by decide
  refine ⟨⟨hlt.1, ⟨nofun, nofun⟩, fun t => own_initial, ?_, ?_⟩, ⟨fun _ => hlt.2, ?_⟩, ?_⟩
  · intro t w ht hw
    refine ⟨fun _ hwaiter => ?_, fun _ hjoin => absurd hjoin ((idle_initial hw).2.1 t)⟩
    rw [(idle_initial ht).1] at hwaiter
    cases hwaiter
  · intro h t
    refine iff_of_false nofun ?_
    rintro ⟨ht, hplace⟩
    rw [(idle_initial ht).2.2.1] at hplace
    cases hplace
  · intro t ht
    have hone : (Abs.initial : Abs M C).core.state t = .onCpu ↔ t = 1 :=
      (idle_initial (M := M) (C := C) ht).2.2.2
    exact ⟨fun h => ⟨rfl, hone.mp h⟩, fun h => hone.mpr h.2⟩
  · exact fun _ _ _ _ => nofun

end Initial

/-! ### Every state of a run -/

/-- The links of the memory hold the lists, and the lists meet the invariant. -/
structure Machine.Sound (s : Machine M C) : Prop where
  view : View s s.abs
  good : s.abs.Good

theorem abs_started : (started : Machine M C).abs = Abs.initial :=
  (uthreadInit_blank (M := M) (C := C)).2.abs_eq Abs.good_initial.inv

theorem sound_started : (started : Machine M C).Sound := by
  refine ⟨?_, ?_⟩
  · rw [abs_started]
    exact (uthreadInit_blank (M := M) (C := C)).2
  · rw [abs_started]
    exact Abs.good_initial

/-- What an event does in a sound state. -/
theorem Machine.Sound.step (hs : s.Sound) (he : e.Enabled s.core) (hp : Allowed s.core e)
    {r : Option Ret} (hrun : e.run s = .ok (r, s')) :
    r = (s.abs.step e).1 ∧ s'.abs = (s.abs.step e).2 ∧ s.abs.Passes e ∧ s'.Sound := by
  have hstep := hs.good.ewp_step hs.view he hp
  unfold ewp at hstep
  rw [hrun] at hstep
  obtain ⟨hr, hv, hpass⟩ := hstep
  have hg := hs.good.step hs.view.rings.nodup he hp hpass
  have habs := hv.abs_eq hg.inv
  refine ⟨hr, habs, hpass, ?_, ?_⟩
  · rw [habs]
    exact hv
  · rw [habs]
    exact hg

/-- An event that nothing stops happens. -/
theorem Machine.Sound.extend (hs : s.Sound) (he : e.Enabled s.core) (hp : Allowed s.core e)
    (hno : ∀ f, ¬ s.abs.Stops e f) : ∃ s', e.run s = .ok ((s.abs.step e).1, s') ∧
      s'.abs = (s.abs.step e).2 ∧ s'.Sound := by
  obtain ⟨r, s', hok, -⟩ := wp_of_ewp (hs.good.ewp_step hs.view he hp) hno
  obtain ⟨hr, habs, -, hs'⟩ := hs.step he hp hok
  exact ⟨s', by rw [hok, hr], habs, hs'⟩

/-- An event stops the process in the ways listed only. -/
theorem Machine.Sound.stops (hs : s.Sound) (he : e.Enabled s.core) (hp : Allowed s.core e)
    {f : Fault} (hrun : e.run s = .error f) : s.abs.Stops e f := by
  have hstep := hs.good.ewp_step hs.view he hp
  unfold ewp at hstep
  rw [hrun] at hstep
  exact hstep

variable {P : Core M C → Event M C → Prop} {tr : List (Moment M C)}

theorem Run.sound (hP : ∀ c e, P c e → Allowed c e) (hrun : Run P started tr s) : s.Sound := by
  induction hrun with
  | start => exact sound_started
  | step hrun he hp hok ih => exact (ih.step he (hP _ _ hp) hok).2.2.2

/-! ### Runs given by their events -/

/-- Each of the events happens in turn. -/
def Abs.Follows (P : Core M C → Event M C → Prop) : Abs M C → List (Event M C) → Prop
  | _, [] => True
  | a, e :: es => e.Enabled a.core ∧ P a.core e ∧ Allowed a.core e ∧ (∀ f, ¬ a.Stops e f) ∧
      Follows P (a.step e).2 es

/-- The state after the events. -/
def Abs.follow (a : Abs M C) (es : List (Event M C)) : Abs M C :=
  es.foldl (fun a e => (a.step e).2) a

theorem Run.follow {es : List (Event M C)} (hrun : Run P started tr s) (hs : s.Sound)
    (hf : s.abs.Follows P es) : ∃ tr' s', Run P started (tr' ++ tr) s' ∧ s'.Sound ∧
      s'.abs = s.abs.follow es ∧ tr'.map Moment.event = es.reverse := by
  induction es generalizing tr s with
  | nil => exact ⟨[], s, hrun, hs, rfl, rfl⟩
  | cons e es ih =>
      obtain ⟨he, hp, hallowed, hno, hrest⟩ := hf
      obtain ⟨s₁, hok, habs, hs₁⟩ := hs.extend he hallowed hno
      rw [← habs] at hrest
      obtain ⟨tr', s', hrun', hs', habs', hevents⟩ := ih (.step hrun he hp hok) hs₁ hrest
      refine ⟨tr' ++ [⟨s, e, (s.abs.step e).1, s₁⟩], s', ?_, hs', ?_, ?_⟩
      · rw [List.append_assoc]
        exact hrun'
      · rw [habs', habs]
        rfl
      · rw [List.map_append, hevents, List.reverse_cons]
        rfl

/-- The events happen in turn after `uthread_init`. -/
theorem Run.of_events {es : List (Event M C)} (hf : (Abs.initial : Abs M C).Follows P es) :
    ∃ tr s, Run P (started : Machine M C) tr s ∧ s.Sound ∧ s.abs = Abs.initial.follow es ∧
      tr.map Moment.event = es.reverse := by
  rw [← abs_started] at hf
  obtain ⟨tr, s, hrun, hs, habs, hevents⟩ := Run.follow .start sound_started hf
  rw [List.append_nil] at hrun
  rw [abs_started] at habs
  exact ⟨tr, s, hrun, hs, habs, hevents⟩

end CodingSample.Uthreads
