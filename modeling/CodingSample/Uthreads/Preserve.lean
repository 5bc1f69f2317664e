import CodingSample.Uthreads.Invariant

/-!
# What keeps the invariant

Every function of the library changes one thread at a time, together with the list that thread is
in.
-/

namespace CodingSample.Uthreads

variable {M C : Type} [DecidableEq M] [DecidableEq C] {a b : Abs M C} {t w : Nat} {h : Head M C}

omit [DecidableEq M] [DecidableEq C] in
theorem Core.slot_update_of_ne {c d : Core M C} {u : Nat}
    (hrec : d.uthreads u = c.uthreads u) (hctx : d.utCtx u = c.utCtx u) : d.slot u = c.slot u := by
  rw [slot, slot, hrec, hctx]

/-- The fields of the record of a living thread that only other calls change. -/
structure Uthread.Like (r r' : Uthread) : Prop where
  id : r'.utId = r.utId
  exited : r'.utHasExited = r.utHasExited
  stack : r'.utStack = r.utStack
  waiter : r'.utWaiter = r.utWaiter

namespace Abs.Inv

omit [DecidableEq M] [DecidableEq C]

/-- A living thread changes and stays alive. -/
theorem change_live (hi : a.Inv) (r' : Uthread) (k' : Ctx M C) (ht : t < uthMaxUthreads)
    (hst : b.core.slot t = (r', k'))
    (hreaper : b.core.reaperThrId = a.core.reaperThrId)
    (hslot : ∀ u, u ≠ t → b.core.slot u = a.core.slot u)
    (hqueue : ∀ u g, u ≠ t → (u ∈ b.q g ↔ u ∈ a.q g))
    (halive : (a.core.uthreads t).Alive) (halive' : r'.Alive)
    (hlike : (a.core.uthreads t).Like r')
    (hprio : 0 ≤ r'.utPrio ∧ r'.utPrio ≤ uthMaxprio)
    (hlegal : k'.Legal) (hctx : k' = .reaper ↔ t = a.core.reaperThrId)
    (hwait : ∀ u, a.core.state t = .wait → a.core.utCtx t = .join u →
      (a.core.uthreads u).Alive → r'.utState = .wait ∧ k' = .join u)
    (hrun : ∀ u, u < uthMaxUthreads → r'.utState = .runnable ∨ r'.utState = .onCpu →
      k' = .join u → a.core.state u = .zombie ∧ (a.core.uthreads u).utDetached = false ∧
        (a.core.uthreads u).utWaiter = some t)
    (hplace : ∀ g, t ∈ b.q g ↔ Slot.place (r', k') = some g) : b.Inv := by
  have hown := hi.own t ht
  have hexit : r'.utHasExited = true ↔ r'.utState = .zombie := by
    rw [hlike.exited]
    exact iff_of_false (fun hx => halive.2 (hown.exited.mp hx)) halive'.2
  -- no thread that runs or is runnable waits for a living one
  have hpairl : ∀ u, u < uthMaxUthreads → u ≠ t → Slot.Pair t (r', k') u (a.core.slot u) := by
    intro u hu _
    have hp := hi.pair t u ht hu
    refine ⟨?_, ?_⟩
    · intro _ hw
      exact hp.waiting halive (hlike.waiter.symm.trans hw)
    · intro hstate hjoin
      exact absurd (hp.joining hstate hjoin).1 halive.2
  have hpairr : ∀ u, u < uthMaxUthreads → u ≠ t → Slot.Pair u (a.core.slot u) t (r', k') := by
    intro u hu _
    have hp := hi.pair u t hu ht
    refine ⟨?_, ?_⟩
    · intro hau hw
      obtain ⟨hstate, hjoin⟩ := hp.waiting hau hw
      exact hwait u hstate hjoin hau
    · intro hstate hjoin
      exact hrun u hu hstate hjoin
  have hself : Slot.Pair t (r', k') t (r', k') := by
    refine ⟨?_, ?_⟩
    · intro _ hw
      obtain ⟨hstate, hjoin⟩ :=
        (hi.pair t t ht ht).waiting halive (hlike.waiter.symm.trans hw)
      exact hwait t hstate hjoin halive
    · intro hstate hjoin
      exact absurd (hrun t ht hstate hjoin).1 halive.2
  refine hi.change_one ht hreaper hslot hqueue ?_ ?_ ?_ ?_ ?_
  · intro _
    have hrec : b.core.uthreads t = r' := congrArg Prod.fst hst
    rw [hrec]
    exact halive'
  · rw [hst]
    exact ⟨fun _ => hlike.id.trans (hown.id halive.1), hprio, hexit,
      hlike.stack.trans hown.stack, fun _ => hlegal, fun _ => hctx,
      fun v hv => hown.waiter v (hlike.waiter.symm.trans hv)⟩
  · intro u hu hne
    rw [hst]
    exact ⟨hpairl u hu hne, hpairr u hu hne⟩
  · rw [hst]
    exact hself
  · rw [hst]
    exact hplace

/-- Nothing the invariant reads changes. -/
theorem congr (hi : a.Inv) (hreaper : b.core.reaperThrId = a.core.reaperThrId)
    (hslot : ∀ u, b.core.slot u = a.core.slot u) (hq : b.q = a.q) : b.Inv := by
  refine hi.change (fun _ => False) hreaper (fun u _ => hslot u) ?_ ?_ ?_ ?_ ?_
  · intro u g _
    rw [hq]
  · exact False.elim
  · exact fun _ _ hx => hx.elim
  · exact fun _ _ _ _ hx => (hx.elim id id).elim
  · exact fun _ _ hx => hx.elim

theorem alive_of_onCpu (hstate : a.core.state t = .onCpu) : (a.core.uthreads t).Alive := by
  have hstate : (a.core.uthreads t).utState = .onCpu := hstate
  rw [Uthread.Alive, hstate]
  decide

theorem alive_of_wait (hstate : a.core.state t = .wait) : (a.core.uthreads t).Alive := by
  have hstate : (a.core.uthreads t).utState = .wait := hstate
  rw [Uthread.Alive, hstate]
  decide

theorem alive_of_runnable (hstate : a.core.state t = .runnable) :
    (a.core.uthreads t).Alive := by
  have hstate : (a.core.uthreads t).utState = .runnable := hstate
  rw [Uthread.Alive, hstate]
  decide

/-- The scheduler can queue a thread that is in no list. -/
theorem wakeable (hi : a.Inv) (ht : t < uthMaxUthreads) (hstate : a.core.state t ≠ .noState)
    (hcore : b.core.uthreads t = a.core.uthreads t) (hfree : b.Free t) : b.Wakeable t := by
  have hown := hi.own t ht
  refine ⟨ht, ?_, ?_, hfree⟩
  · rw [hcore]
    exact hown.id hstate
  · rw [hcore]
    exact hown.prio

theorem asleep (hi : a.Inv) (hmem : t ∈ a.q h) (hrunq : ∀ i, h ≠ .runq i) (hreap : h ≠ .reap) :
    a.Asleep t := by
  have hstate := (Slot.wait_of_place (hi.mem_place hmem) hrunq hreap).1
  have hown := hi.own t (hi.mem_lt hmem)
  refine ⟨hi.mem_lt hmem, hown.id ?_, hown.prio, hstate⟩
  rw [hstate]
  decide

end Abs.Inv

theorem Abs.mem_setQ {l : List Nat} {u : Nat} {g : Head M C} :
    u ∈ (a.setQ h l).q g ↔ if g = h then u ∈ l else u ∈ a.q g := by
  change u ∈ Function.update a.q h l g ↔ _
  by_cases hg : g = h
  · subst hg
    rw [Function.update_self, if_pos rfl]
  · rw [Function.update_of_ne hg, if_neg hg]

/-- A thread that is in no list goes to the front of one. -/
theorem Abs.mem_push (hfree : a.Free t) {u : Nat} {g : Head M C} :
    u ∈ (a.setQ h (t :: a.q h)).q g ↔ if u = t then g = h else u ∈ a.q g := by
  rw [mem_setQ]
  by_cases hg : g = h
  · subst hg
    by_cases hu : u = t
    · simp [hu]
    · simp [hu]
  · by_cases hu : u = t
    · subst hu
      simp [hg, hfree g]
    · simp [hg, hu]

/-- The thread at the back leaves its list. -/
theorem Abs.mem_drop {xs : List Nat} (hq : a.q h = xs ++ [t]) {u : Nat} {g : Head M C}
    (hu : u ≠ t) : u ∈ (a.setQ h xs).q g ↔ u ∈ a.q g := by
  rw [mem_setQ]
  split
  · rename_i hg
    rw [hg, hq]
    simp [hu]
  · rfl

theorem Abs.free_drop {xs : List Nat} (hi : a.Inv) (hnodup : (a.q h).Nodup)
    (hq : a.q h = xs ++ [t]) : (a.setQ h xs).Free t := by
  intro g
  rw [mem_setQ]
  have hmem : t ∈ a.q h := by simp [hq]
  split
  · rw [hq] at hnodup
    intro hx
    exact (List.nodup_append.mp hnodup).2.2 t hx t List.mem_cons_self rfl
  · rename_i hg
    intro hmem'
    exact hg (Option.some.inj ((hi.mem_place hmem').symm.trans (hi.mem_place hmem)))

namespace Abs.Inv

/-- A waiting thread becomes runnable, after it left the list it was in. -/
theorem ready (hi : a.Inv) (ht : t < uthMaxUthreads) (hwait : a.core.state t = .wait)
    (hreaper : b.core.reaperThrId = a.core.reaperThrId)
    (hslot : ∀ u, b.core.slot u = a.core.slot u)
    (hqueue : ∀ u g, u ≠ t → (u ∈ b.q g ↔ u ∈ a.q g)) (hfree : b.Free t)
    (hjoin : ∀ u, u < uthMaxUthreads → a.core.utCtx t = .join u → a.core.state u = .zombie ∧
      (a.core.uthreads u).utDetached = false ∧ (a.core.uthreads u).utWaiter = some t) :
    (b.ready t).Inv := by
  have hown := hi.own t ht
  have halive := alive_of_wait hwait
  have hrec (u : Nat) : b.core.uthreads u = a.core.uthreads u := congrArg Prod.fst (hslot u)
  have hctx (u : Nat) : b.core.utCtx u = a.core.utCtx u := congrArg Prod.snd (hslot u)
  refine hi.change_live { a.core.uthreads t with utState := .runnable }
    (a.core.utCtx t) ht ?_ hreaper ?_ ?_ halive ?_ ⟨rfl, rfl, rfl, rfl⟩ hown.prio
    (hown.ctx halive) (hown.reaper halive) ?_ ?_ ?_
  · simp [Core.slot, Abs.ready, Abs.onCore, Abs.setQ, Core.setState, Core.setThread, hrec, hctx]
  · intro u hu
    rw [← hslot u]
    exact Core.slot_update_of_ne (Function.update_of_ne hu _ _) rfl
  · intro u g hu
    rw [← hqueue u g hu]
    exact (mem_push (a := b.onCore fun c => c.setState t .runnable) hfree).trans
      (by rw [if_neg hu]; rfl)
  · exact ⟨(by rintro ⟨⟩), (by rintro ⟨⟩)⟩
  · intro u _ hju hau
    have hlt : u < uthMaxUthreads := by
      have hlegal := hown.ctx halive
      rw [Core.slot, hju] at hlegal
      exact hlegal
    exact absurd (hjoin u hlt hju).1 hau.2
  · exact fun u hu _ hju => hjoin u hu hju
  · intro g
    rw [Slot.place_of_runnable rfl]
    have hmem := mem_push (a := b.onCore fun c => c.setState t .runnable)
      (h := runqTable (b.core.uthreads t).utPrio) hfree (u := t) (g := g)
    rw [if_pos rfl, hrec] at hmem
    rw [Option.some_inj, eq_comm (b := g)]
    unfold Abs.ready
    rw [hrec]
    exact hmem

theorem wake (hi : a.Inv) (ht : t < uthMaxUthreads) (hfree : a.Free t)
    (hjoin : ∀ u, u < uthMaxUthreads → a.core.utCtx t = .join u → a.core.state u = .zombie ∧
      (a.core.uthreads u).utDetached = false ∧ (a.core.uthreads u).utWaiter = some t) :
    (a.wake t).Inv := by
  unfold Abs.wake
  split
  · rename_i hwait
    exact hi.ready ht hwait rfl (fun _ => rfl) (fun _ _ _ => Iff.rfl) hfree hjoin
  · exact hi

omit [DecidableEq M] [DecidableEq C] in
/-- The current thread waits at `k`, after it entered the queue that belongs to `k`. -/
theorem block (hi : a.Inv) {k : Ctx M C} (hlt : a.core.utCurthr < uthMaxUthreads)
    (hcur : a.core.state a.core.utCurthr = .onCpu) (hcurthr : b.core.utCurthr = a.core.utCurthr)
    (hreaper : b.core.reaperThrId = a.core.reaperThrId)
    (hslot : ∀ u, b.core.slot u = a.core.slot u)
    (hqueue : ∀ u g, u ≠ a.core.utCurthr → (u ∈ b.q g ↔ u ∈ a.q g))
    (hmem : ∀ g, a.core.utCurthr ∈ b.q g ↔ k.queue = some g)
    (hlegal : k.Legal) (hctx : k = .reaper ↔ a.core.utCurthr = a.core.reaperThrId) :
    (b.block k).Inv := by
  have hrec (u : Nat) : b.core.uthreads u = a.core.uthreads u := congrArg Prod.fst (hslot u)
  refine hi.change_live { a.core.cur with utState := .wait } k hlt ?_ hreaper ?_
    hqueue (alive_of_onCpu hcur) ⟨nofun, nofun⟩ ⟨rfl, rfl, rfl, rfl⟩ (hi.own _ hlt).prio hlegal
    hctx ?_ ?_ hmem
  · simp [Core.slot, Abs.block, Abs.switchOut, Abs.onCore, Core.setCtx, Core.setState,
      Core.setThread, hrec, hcurthr, Core.cur]
  · intro u hu
    rw [← hslot u]
    rw [← hcurthr] at hu
    exact Core.slot_update_of_ne (Function.update_of_ne hu _ _) (Function.update_of_ne hu _ _)
  · intro _ hwait _ _
    exact UthreadState.noConfusion (hwait.symm.trans hcur)
  · intro _ _ hrun
    rcases hrun with hrun | hrun <;> cases hrun

/-- The current thread goes back to its run queue. -/
theorem yield (hi : a.Inv) (hlt : a.core.utCurthr < uthMaxUthreads)
    (hcur : a.core.state a.core.utCurthr = .onCpu)
    (hne : a.core.utCurthr ≠ a.core.reaperThrId) : a.yield.Inv := by
  have hfree := hi.free_of_place (Slot.place_of_onCpu hcur)
  refine hi.change_live { a.core.cur with utState := .runnable } .yield hlt ?_
    rfl ?_ ?_ (alive_of_onCpu hcur) ⟨nofun, nofun⟩ ⟨rfl, rfl, rfl, rfl⟩ (hi.own _ hlt).prio
    trivial (iff_of_false nofun hne) ?_ ?_ ?_
  · simp [Core.slot, Abs.yield, Abs.ready, Abs.switchOut, Abs.onCore, Abs.setQ, Core.setCtx,
      Core.setState, Core.setThread, Core.cur]
  · intro u hu
    exact Core.slot_update_of_ne (Function.update_of_ne hu _ _) (Function.update_of_ne hu _ _)
  · intro u g hu
    exact (mem_push (a := a.onCore fun c => c.setState a.core.utCurthr .runnable) hfree).trans
      (by rw [if_neg hu]; rfl)
  · intro _ hwait _ _
    exact UthreadState.noConfusion (hwait.symm.trans hcur)
  · intro _ _ _ hjoin
    cases hjoin
  · intro g
    rw [Slot.place_of_runnable rfl]
    have hmem := mem_push (a := a.onCore fun c => c.setState a.core.utCurthr .runnable)
      (h := runqTable a.core.cur.utPrio) hfree (u := a.core.utCurthr) (g := g)
    rw [if_pos rfl] at hmem
    rw [Option.some_inj, eq_comm (b := g)]
    exact hmem

/-- The thread at the back of a run queue gets the processor. -/
theorem run (hi : a.Inv) (hnodup : ∀ h, (a.q h).Nodup) {i : Nat} {xs : List Nat}
    (hq : a.q (.runq i) = xs ++ [t]) : ((a.setQ (.runq i) xs).run t).Inv := by
  have hmem : t ∈ a.q (.runq i) := by simp [hq]
  have ht := hi.mem_lt hmem
  have hrun : a.core.state t = .runnable := Slot.runnable_of_place (hi.mem_place hmem)
  have hown := hi.own t ht
  have halive := alive_of_runnable hrun
  refine hi.change_live { a.core.uthreads t with utState := .onCpu }
    (a.core.utCtx t) ht ?_ rfl ?_ (fun u g hu => mem_drop hq hu) halive ⟨(by rintro ⟨⟩), (by rintro ⟨⟩)⟩
    ⟨rfl, rfl, rfl, rfl⟩ hown.prio (hown.ctx halive) (hown.reaper halive) ?_ ?_ ?_
  · simp [Core.slot, Abs.run, Abs.onCore, Abs.setQ, Core.setState, Core.setThread]
  · intro u hu
    exact Core.slot_update_of_ne (Function.update_of_ne hu _ _) rfl
  · intro _ hwait _ _
    exact UthreadState.noConfusion (hwait.symm.trans hrun)
  · exact fun u hu _ hjoin => (hi.pair u t hu ht).joining (Or.inl hrun) hjoin
  · intro g
    rw [Slot.place_of_onCpu rfl]
    exact iff_of_false (free_drop hi (hnodup _) hq g) (by rintro ⟨⟩)

omit [DecidableEq M] [DecidableEq C] in
/-- The current thread returns to its own code. -/
theorem returns (hi : a.Inv) (hlt : a.core.utCurthr < uthMaxUthreads)
    (hcur : a.core.state a.core.utCurthr = .onCpu)
    (hne : a.core.utCurthr ≠ a.core.reaperThrId) :
    (a.onCore fun c => c.setCtx c.utCurthr .user).Inv := by
  have hfree := hi.free_of_place (Slot.place_of_onCpu hcur)
  refine hi.change_live a.core.cur .user hlt ?_ rfl ?_
    (fun _ _ _ => Iff.rfl) (alive_of_onCpu hcur) (alive_of_onCpu hcur) ⟨rfl, rfl, rfl, rfl⟩
    (hi.own _ hlt).prio trivial (iff_of_false (by rintro ⟨⟩) hne) ?_ ?_ ?_
  · simp [Core.slot, Abs.onCore, Core.setCtx, Core.cur]
  · intro u hu
    exact Core.slot_update_of_ne rfl (Function.update_of_ne hu _ _)
  · intro _ hwait _ _
    exact UthreadState.noConfusion (hwait.symm.trans hcur)
  · intro _ _ _ hjoin
    cases hjoin
  · intro g
    rw [Slot.place_of_onCpu hcur]
    exact iff_of_false (hfree g) (by rintro ⟨⟩)

omit [DecidableEq M] [DecidableEq C] in
/-- A living thread gets another record that has its state and its priority. -/
theorem setThread (hi : a.Inv) {r' : Uthread} (ht : t < uthMaxUthreads)
    (halive : (a.core.uthreads t).Alive) (hlike : (a.core.uthreads t).Like r')
    (hstate : r'.utState = a.core.state t) (hprio : 0 ≤ r'.utPrio ∧ r'.utPrio ≤ uthMaxprio)
    (hsame : a.core.state t = .runnable → r'.utPrio = (a.core.uthreads t).utPrio) :
    (a.onCore fun c => c.setThread t r').Inv := by
  have hown := hi.own t ht
  have hplace : Slot.place (r', a.core.utCtx t) = (a.core.slot t).place := by
    cases hst : a.core.state t with
    | runnable =>
        rw [Slot.place_of_runnable (hstate.trans hst), Slot.place_of_runnable hst, hsame hst]
        rfl
    | wait => rw [Slot.place_of_wait (hstate.trans hst), Slot.place_of_wait hst]; rfl
    | onCpu => rw [Slot.place_of_onCpu (hstate.trans hst), Slot.place_of_onCpu hst]
    | noState => exact absurd hst halive.1
    | zombie => exact absurd hst halive.2
  refine hi.change_live r' (a.core.utCtx t) ht ?_ rfl ?_
    (fun _ _ _ => Iff.rfl) halive ?_ hlike hprio (hown.ctx halive) (hown.reaper halive) ?_ ?_ ?_
  · simp [Core.slot, Abs.onCore, Core.setThread]
  · intro u hu
    exact Core.slot_update_of_ne (Function.update_of_ne hu _ _) rfl
  · rw [Uthread.Alive, hstate]
    exact halive
  · exact fun _ hwait hjoin _ => ⟨hstate.trans hwait, hjoin⟩
  · intro u hu hrun hjoin
    rw [hstate] at hrun
    exact (hi.pair u t hu ht).joining hrun hjoin
  · intro g
    rw [hplace]
    exact (hi.queued g t).trans (and_iff_right ht)

omit [DecidableEq M] [DecidableEq C] in
theorem setErrno (hi : a.Inv) (hlt : a.core.utCurthr < uthMaxUthreads)
    (hcur : a.core.state a.core.utCurthr = .onCpu) (errno : Int) : (a.setErrno errno).Inv :=
  hi.setThread (t := a.core.utCurthr) hlt (alive_of_onCpu hcur) ⟨rfl, rfl, rfl, rfl⟩ rfl
    (hi.own _ hlt).prio fun _ => rfl

omit [DecidableEq M] [DecidableEq C] in
theorem setDetached (hi : a.Inv) (ht : t < uthMaxUthreads)
    (halive : (a.core.uthreads t).Alive) : (a.setDetached t).Inv :=
  hi.setThread ht halive ⟨rfl, rfl, rfl, rfl⟩ rfl (hi.own _ ht).prio fun _ => rfl

theorem requeue (hi : a.Inv) (hnodup : ∀ h, (a.q h).Nodup) (ht : t < uthMaxUthreads)
    (hrun : a.core.state t = .runnable) {prio : Int} (hprio : 0 ≤ prio ∧ prio ≤ uthMaxprio) :
    (a.requeue t prio).Inv := by
  have hown := hi.own t ht
  have halive := alive_of_runnable hrun
  let old : Head M C := runqTable (a.core.uthreads t).utPrio
  let b := (a.setQ old ((a.q old).erase t)).onCore fun c => c.setPrio t prio
  have hother {u : Nat} {g : Head M C} (hu : u ≠ t) : u ∈ b.q g ↔ u ∈ a.q g := by
    refine mem_setQ.trans ?_
    split
    · rename_i hg
      rw [hg, List.mem_erase_of_ne hu]
    · rfl
  have hfree : b.Free t := by
    intro g
    refine fun hmem => ?_
    have hmem := mem_setQ.mp hmem
    split at hmem
    · exact (hnodup old).not_mem_erase hmem
    · rename_i hg
      have hplace := hi.mem_place hmem
      rw [Slot.place_of_runnable hrun] at hplace
      exact hg (Option.some.inj hplace).symm
  refine hi.change_live { a.core.uthreads t with utPrio := prio }
    (a.core.utCtx t) ht ?_ rfl ?_ ?_ halive halive ⟨rfl, rfl, rfl, rfl⟩ hprio
    (hown.ctx halive) (hown.reaper halive) ?_ ?_ ?_
  · simp [Core.slot, Abs.requeue, Abs.onCore, Abs.setQ, Core.setPrio, Core.setThread]
  · intro u hu
    exact Core.slot_update_of_ne (Function.update_of_ne hu _ _) rfl
  · intro u g hu
    exact (mem_push hfree).trans (by rw [if_neg hu]; exact hother hu)
  · intro _ hwait _ _
    exact UthreadState.noConfusion (hwait.symm.trans hrun)
  · exact fun u hu _ hjoin => (hi.pair u t hu ht).joining (Or.inl hrun) hjoin
  · intro g
    rw [Slot.place_of_runnable hrun]
    have hmem := mem_push (h := runqTable prio) hfree (u := t) (g := g)
    rw [if_pos rfl] at hmem
    rw [Option.some_inj, eq_comm (b := g)]
    exact hmem

theorem setprio (hi : a.Inv) (hnodup : ∀ h, (a.q h).Nodup)
    (hlt : a.core.utCurthr < uthMaxUthreads) (hcur : a.core.state a.core.utCurthr = .onCpu)
    (id prio : Int) : (a.setprio id prio).2.Inv := by
  unfold Abs.setprio
  split
  · exact hi.setErrno hlt hcur _
  rename_i hprio
  split
  · exact hi.setErrno hlt hcur _
  rename_i hid
  have hid : ¬ id < 0 ∧ ¬ uthMaxUthreads ≤ id ∧ (a.core.uthreads id.toNat).Alive := by
    rw [not_or, not_or, not_or] at hid
    exact hid
  have ht : id.toNat < uthMaxUthreads := by
    simp only [uthMaxUthreads] at hid ⊢
    omega
  split
  · rename_i hrun
    exact hi.requeue hnodup ht hrun (by omega)
  · rename_i hrun
    have hprio : 0 ≤ prio ∧ prio ≤ uthMaxprio := by omega
    exact hi.setThread ht hid.2.2 ⟨rfl, rfl, rfl, rfl⟩ rfl hprio fun h => absurd h hrun

/-! ### Threads that come and go -/

omit [DecidableEq M] [DecidableEq C] in
/-- The running thread exits. -/
theorem die (hi : a.Inv) (hlt : a.core.utCurthr < uthMaxUthreads)
    (hcur : a.core.state a.core.utCurthr = .onCpu)
    (hne : a.core.utCurthr ≠ a.core.reaperThrId) {status : Int} (q' : Head M C → List Nat)
    (hqueue : ∀ u g, u ≠ a.core.utCurthr → (u ∈ q' g ↔ u ∈ a.q g))
    (hmem : ∀ g, a.core.utCurthr ∈ q' g ↔
      (if a.core.cur.utDetached then some .reap else none) = some g) :
    Abs.Inv { a.die status with q := q' } := by
  have hown := hi.own _ hlt
  have halive := alive_of_onCpu hcur
  have hst : (a.die status).core.slot a.core.utCurthr = ({ a.core.cur with
      utState := .zombie, utExit := status, utHasExited := true },
      a.core.utCtx a.core.utCurthr) := by
    simp [Core.slot, Abs.die, Abs.onCore, Core.setThread]
  refine hi.change_one (t := a.core.utCurthr) hlt rfl ?_ hqueue ?_ ?_ ?_ ?_ ?_
  · intro u hu
    exact Core.slot_update_of_ne (Function.update_of_ne hu _ _) rfl
  · exact fun heq => absurd heq hne
  · refine hst ▸ ⟨fun _ => hown.id halive.1, hown.prio, iff_of_true rfl rfl, hown.stack, ?_, ?_,
      hown.waiter⟩
    · exact fun h => absurd rfl h.2
    · exact fun h => absurd rfl h.2
  · intro u hu hu'
    refine ⟨hst ▸ ⟨fun h => absurd rfl h.2, ?_⟩, hst ▸ ⟨?_, ?_⟩⟩
    · intro hrun hjoin
      exact absurd ((hi.pair _ u hlt hu).joining hrun hjoin).1 halive.2
    · intro hau hw
      have hwait := ((hi.pair u _ hu hlt).waiting hau hw).1
      exact UthreadState.noConfusion (hwait.symm.trans hcur)
    · exact fun hrun _ => by rcases hrun with hrun | hrun <;> cases hrun
  · refine hst ▸ ⟨fun h => absurd rfl h.2, ?_⟩
    exact fun hrun _ => by rcases hrun with hrun | hrun <;> cases hrun
  · intro g
    exact (hmem g).trans (by rw [hst, Slot.place_of_zombie rfl])

omit [DecidableEq M] [DecidableEq C] in
/-- A dead thread's context is never used. -/
theorem deadCtx (hi : a.Inv) (ht : t < uthMaxUthreads) (hzombie : a.core.state t = .zombie)
    {k : Ctx M C} (hreaper : b.core.reaperThrId = a.core.reaperThrId)
    (hslot : ∀ u, u ≠ t → b.core.slot u = a.core.slot u)
    (hst : b.core.slot t = (a.core.uthreads t, k)) (hq : b.q = a.q) : b.Inv := by
  have hown := hi.own t ht
  have hdead : ¬ (a.core.uthreads t).Alive := fun h => h.2 hzombie
  refine hi.change_one ht hreaper hslot (fun u g _ => by rw [hq]) ?_ ?_ ?_ ?_ ?_
  · rintro rfl
    exact absurd hi.reaper_alive hdead
  · exact hst ▸ ⟨hown.id, hown.prio, hown.exited, hown.stack, fun h => absurd h hdead,
      fun h => absurd h hdead, hown.waiter⟩
  · intro u hu _
    refine ⟨hst ▸ ⟨fun h => absurd h hdead, (hi.pair t u ht hu).joining⟩, hst ▸ ⟨?_, ?_⟩⟩
    · intro hau hw
      have hwait := ((hi.pair u t hu ht).waiting hau hw).1
      exact UthreadState.noConfusion (hwait.symm.trans hzombie)
    · intro hrun _
      have hz : (a.core.uthreads t).utState = .zombie := hzombie
      rcases hrun with hrun | hrun <;> exact UthreadState.noConfusion (hrun.symm.trans hz)
  · refine hst ▸ ⟨fun h => absurd h hdead, ?_⟩
    intro hrun _
    have hz : (a.core.uthreads t).utState = .zombie := hzombie
    rcases hrun with hrun | hrun <;> exact UthreadState.noConfusion (hrun.symm.trans hz)
  · intro g
    rw [hst, hq, Slot.place_of_zombie hzombie]
    refine (hi.queued g t).trans ?_
    rw [and_iff_right ht, Slot.place_of_zombie hzombie]
    rfl

omit [DecidableEq M] [DecidableEq C] in
/-- A thread that waits in `uthread_join` is entered as the one that waits. -/
theorem setWaiter (hi : a.Inv) (ht : t < uthMaxUthreads) (hw : w < uthMaxUthreads)
    (halive : (a.core.uthreads t).Alive) (hwait : a.core.state w = .wait)
    (hjoin : a.core.utCtx w = .join t) :
    (a.onCore fun c => c.setThread t { c.uthreads t with utWaiter := some w }).Inv := by
  have hown := hi.own t ht
  let b := a.onCore fun c => c.setThread t { c.uthreads t with utWaiter := some w }
  have hst : b.core.slot t = ({ a.core.uthreads t with utWaiter := some w }, a.core.utCtx t) := by
    simp [b, Core.slot, Abs.onCore, Core.setThread]
  have hrest (u : Nat) (hu : u ≠ t) : b.core.slot u = a.core.slot u :=
    Core.slot_update_of_ne (Function.update_of_ne hu _ _) rfl
  have hblocked : (b.core.slot w).1.utState = .wait ∧ (b.core.slot w).2 = .join t := by
    by_cases hwt : w = t
    · rw [hwt] at hwait hjoin ⊢
      rw [hst]
      exact ⟨hwait, hjoin⟩
    · rw [hrest w hwt]
      exact ⟨hwait, hjoin⟩
  refine hi.change_one (b := b) ht rfl hrest (fun _ _ _ => Iff.rfl) ?_ ?_ ?_ ?_ ?_
  · intro _
    have hrec : b.core.uthreads t = { a.core.uthreads t with utWaiter := some w } :=
      congrArg Prod.fst hst
    rw [hrec]
    exact halive
  · rw [hst]
    exact ⟨hown.id, hown.prio, hown.exited, hown.stack, hown.ctx, hown.reaper,
      fun v hv => Option.some.inj hv ▸ hw⟩
  · intro u hu hut
    refine ⟨⟨?_, ?_⟩, ⟨?_, ?_⟩⟩
    · intro _ hwu
      rw [hst] at hwu
      rw [← hrest u hut, ← Option.some.inj hwu]
      exact hblocked
    · intro hrun hju
      exact absurd ((hi.pair t u ht hu).joining hrun hju).1 halive.2
    · intro hau hwu
      rw [hst]
      exact (hi.pair u t hu ht).waiting hau hwu
    · intro hrun hju
      rw [hst] at hrun hju
      exact (hi.pair u t hu ht).joining hrun hju
  · refine ⟨?_, ?_⟩
    · intro _ hwt
      rw [hst] at hwt
      have heq : w = t := Option.some.inj hwt
      rw [heq] at hblocked
      exact hblocked
    · intro hrun hju
      rw [hst] at hrun hju
      exact absurd ((hi.pair t t ht ht).joining hrun hju).1 halive.2
  · intro g
    refine (hi.queued g t).trans ?_
    rw [and_iff_right ht, hst]
    exact Iff.rfl

/-- An exited thread that nobody is about to join becomes detached and goes on the reaper's
list. -/
theorem finish (hi : a.Inv) (ht : t < uthMaxUthreads) {r' : Uthread}
    (hzombie : a.core.state t = .zombie) (hdet : (a.core.uthreads t).utDetached = false)
    (hid : r'.utId = (a.core.uthreads t).utId) (hprio : r'.utPrio = (a.core.uthreads t).utPrio)
    (hexit : r'.utHasExited = true) (hstack : r'.utStack = none) (hstate : r'.utState = .zombie)
    (hdet' : r'.utDetached = true) (hwaiter : ∀ v, r'.utWaiter = some v → v < uthMaxUthreads)
    (hnone : ∀ u, u < uthMaxUthreads → a.core.state u = .runnable ∨ a.core.state u = .onCpu →
      a.core.utCtx u ≠ .join t) :
    ((a.onCore fun c => c.setThread t r').setQ .reap (a.q .reap ++ [t])).Inv := by
  have hown := hi.own t ht
  let b := (a.onCore fun c => c.setThread t r').setQ .reap (a.q .reap ++ [t])
  have hst : b.core.slot t = (r', a.core.utCtx t) := by
    simp [b, Core.slot, Abs.onCore, Abs.setQ, Core.setThread]
  have hdead : ¬ r'.Alive := fun h => h.2 hstate
  have hidle : ¬ (r'.utState = .runnable ∨ r'.utState = .onCpu) := by
    rw [hstate]
    decide
  have hfree : a.Free t := hi.free_of_place (by
    rw [Slot.place_of_zombie hzombie]
    exact if_neg (by rw [Core.slot, hdet]; decide))
  refine hi.change_one (b := b) ht rfl ?_ ?_ ?_ ?_ ?_ ?_ ?_
  · intro u hu
    exact Core.slot_update_of_ne (Function.update_of_ne hu _ _) rfl
  · intro u g hu
    refine mem_setQ.trans ?_
    split
    · rename_i hg
      rw [hg]
      simp [hu]
    · rfl
  · rintro rfl
    exact absurd hzombie hi.reaper_alive.2
  · rw [hst]
    refine ⟨fun _ => ?_, ?_, iff_of_true hexit hstate, hstack, fun h => absurd h hdead,
      fun h => absurd h hdead, hwaiter⟩
    · refine hid.trans (hown.id ?_)
      change a.core.state t ≠ .noState
      rw [hzombie]
      decide
    · rw [hprio]
      exact hown.prio
  · intro u hu _
    rw [hst]
    refine ⟨⟨fun h => absurd h hdead, fun hrun hju => absurd hju (hnone u hu hrun)⟩, ⟨?_, ?_⟩⟩
    · intro hau hw
      have hwait := ((hi.pair u t hu ht).waiting hau hw).1
      exact UthreadState.noConfusion (hwait.symm.trans hzombie)
    · exact fun hrun _ => absurd hrun hidle
  · rw [hst]
    exact ⟨fun h => absurd h hdead, fun hrun _ => absurd hrun hidle⟩
  · intro g
    rw [hst, Slot.place_of_zombie hstate, hdet', if_pos rfl, Option.some_inj, eq_comm (b := g)]
    refine mem_setQ.trans ?_
    split
    · rename_i hg
      exact iff_of_true (by simp) hg
    · rename_i hg
      exact iff_of_false (hfree g) hg

/-- The reaper's list is emptied. -/
theorem reapAll (hi : a.Inv) : a.reapAll.Inv := by
  have hdead : ∀ u ∈ a.q .reap, u < uthMaxUthreads ∧ a.core.state u = .zombie ∧
      (a.core.uthreads u).utDetached = true := fun u hu =>
    ⟨hi.mem_lt hu, Slot.zombie_of_place (hi.mem_place hu)⟩
  have hst {u : Nat} (hu : u ∈ a.q .reap) :
      a.reapAll.core.slot u = (Uthread.zero, Ctx.none) := by
    simp [Core.slot, Abs.reapAll, Abs.onCore, Abs.setQ, Core.destroy, hu]
  have hrest {u : Nat} (hu : u ∉ a.q .reap) : a.reapAll.core.slot u = a.core.slot u := by
    simp [Core.slot, Abs.reapAll, Abs.onCore, Abs.setQ, Core.destroy, hu]
  refine hi.change (fun u => u ∈ a.q .reap) rfl (fun u => hrest) ?_ ?_ ?_ ?_ ?_
  · intro u g hu
    refine mem_setQ.trans ?_
    split
    · rename_i hg
      rw [hg]
      exact iff_of_false (by rintro ⟨⟩) hu
    · rfl
  · intro hmem
    exact absurd (hdead _ hmem).2.1 hi.reaper_alive.2
  · intro u _ hmem
    rw [hst hmem]
    exact ⟨fun h => absurd rfl h, by simp [Uthread.zero], iff_of_false (by rintro ⟨⟩) (by rintro ⟨⟩), rfl,
      fun h => absurd rfl h.1,
      fun h => absurd rfl h.1, (by rintro _ ⟨⟩)⟩
  · intro u v hu hv hx
    by_cases hmem : u ∈ a.q .reap
    · rw [hst hmem]
      refine ⟨fun h => absurd rfl h.1, ?_⟩
      intro hrun hjoin
      by_cases hmem' : v ∈ a.q .reap
      · rw [hst hmem'] at hrun
        rcases hrun with hrun | hrun <;> cases hrun
      · rw [hrest hmem'] at hrun hjoin
        have hdet := ((hi.pair u v hu hv).joining hrun hjoin).2.1
        exact Bool.noConfusion (hdet.symm.trans (hdead u hmem).2.2)
    · have hmem' := hx.resolve_left hmem
      rw [hrest hmem, hst hmem']
      refine ⟨?_, ?_⟩
      · intro hau hw
        have hwait := ((hi.pair u v hu hv).waiting hau hw).1
        exact UthreadState.noConfusion (hwait.symm.trans (hdead v hmem').2.1)
      · intro hrun _
        rcases hrun with hrun | hrun <;> cases hrun
  · intro u g hmem
    rw [hst hmem]
    refine iff_of_false ?_ (fun h => by cases h.2)
    intro hug
    have hug := mem_setQ.mp hug
    split at hug
    · cases hug
    · rename_i hg
      have hplace := (hi.mem_place hug).symm.trans (hi.mem_place hmem)
      exact hg (Option.some.inj hplace)

/-- An unused place becomes a runnable thread. -/
theorem spawn (hi : a.Inv) (ht : t < uthMaxUthreads) (hstate : a.core.state t = .noState)
    {prio : Int} (hprio : 0 ≤ prio ∧ prio ≤ uthMaxprio) : (a.spawn t .user prio).Inv := by
  have hfree := hi.free_of_place (Slot.place_of_noState hstate)
  have hst : (a.spawn t .user prio).core.slot t = ({ Uthread.zero with
      utId := t, utState := .runnable, utPrio := prio }, Ctx.user) := by
    simp [Core.slot, Abs.spawn, Abs.onCore, Abs.setQ, Core.setThread, Core.pushStack,
      Core.makecontext, Core.setCtx]
  refine hi.change_one ht rfl ?_ ?_ ?_ ?_ ?_ ?_ ?_
  · intro u hu
    exact Core.slot_update_of_ne (Function.update_of_ne hu _ _) (Function.update_of_ne hu _ _)
  · intro u g hu
    refine (mem_push (h := runqTable prio) hfree (u := u) (g := g)).trans ?_
    rw [if_neg hu]
  · rintro rfl
    exact absurd hstate hi.reaper_alive.1
  · rw [hst]
    refine ⟨fun _ => rfl, hprio, iff_of_false (by rintro ⟨⟩) (by rintro ⟨⟩), rfl, fun _ => trivial, fun _ => ?_,
      (by rintro _ ⟨⟩)⟩
    refine iff_of_false (by rintro ⟨⟩) ?_
    rintro rfl
    exact absurd hstate hi.reaper_alive.1
  · intro u hu _
    rw [hst]
    refine ⟨⟨?_, ?_⟩, ⟨?_, ?_⟩⟩
    · rintro _ ⟨⟩
    · intro hrun hjoin
      have hzombie := ((hi.pair t u ht hu).joining hrun hjoin).1
      exact UthreadState.noConfusion (hzombie.symm.trans hstate)
    · intro hau hw
      have hwait := ((hi.pair u t hu ht).waiting hau hw).1
      exact UthreadState.noConfusion (hwait.symm.trans hstate)
    · rintro _ ⟨⟩
  · rw [hst]
    refine ⟨?_, ?_⟩
    · rintro _ ⟨⟩
    · rintro (hrun | hrun) hjoin <;> cases hjoin
  · intro g
    rw [hst, Slot.place_of_runnable rfl, Option.some_inj, eq_comm (b := g)]
    refine (mem_push (h := runqTable prio) hfree (u := t) (g := g)).trans ?_
    rw [if_pos rfl]

end Abs.Inv

end CodingSample.Uthreads
