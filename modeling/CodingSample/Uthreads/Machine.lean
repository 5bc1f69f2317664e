import CodingSample.Uthreads.Sync
import CodingSample.Uthreads.Threads

/-!
# The machine

The running thread makes a call, or goes on inside one it made before, or the processor looks for
another thread in `uthread_switch`. Nothing else changes the state, so a run is a list of such
moments.
-/

namespace CodingSample.Uthreads

open Prog

variable {M C : Type} [DecidableEq M] [DecidableEq C]

inductive Call (M C : Type) where
  | yield
  | setprio (id prio : Int)
  | create (prio : Int)
  | exit (status : Int)
  | join (uid : Int)
  | detach (uid : Int)
  | lock (mtx : M)
  | trylock (mtx : M)
  | unlock (mtx : M)
  | condWait (cond : C) (mtx : M)
  | signal (cond : C)
  | broadcast (cond : C)

/-- The call up to its return or the first switch to another thread. -/
def Call.run : Call M C → U M C (Option Ret)
  | .yield => uthreadYield >>= fun _ => pure none
  | .setprio id prio => uthreadSetprio id prio >>= fun r => pure (some (r, 0))
  | .create prio => uthreadCreate .user prio >>= fun r => pure (some r)
  | .exit status => uthreadExit status >>= fun _ => pure none
  | .join uid => uthreadJoin uid
  | .detach uid => uthreadDetach uid >>= fun r => pure (some (r, 0))
  | .lock mtx => uthreadMtxLock mtx >>= fun r => pure (if r then some (0, 0) else none)
  | .trylock mtx => uthreadMtxTrylock mtx >>= fun r => pure (some (r, 0))
  | .unlock mtx => uthreadMtxUnlock mtx >>= fun _ => pure (some (0, 0))
  | .condWait cond mtx => uthreadCondWait cond mtx >>= fun _ => pure none
  | .signal cond => uthreadCondSignal cond >>= fun _ => pure (some (0, 0))
  | .broadcast cond => uthreadCondBroadcast cond >>= fun _ => pure (some (0, 0))

/-- The current thread returns to its own code. -/
def returnToUser (ret : Ret) : U M C (Option Ret) := do
  modifyCore fun c => c.setCtx c.utCurthr .user
  pure (some ret)

/-- The current thread goes on from its context up to its return or the next switch. -/
def resume : U M C (Option Ret) := do
  let c ← getCore
  match c.utCtx c.utCurthr with
  | .none => fail .nullPointer
  | .user => pure none
  | .yield | .lock _ => returnToUser (0, 0)
  | .condWait _ mtx => do
      let locked ← uthreadMtxLock mtx
      if locked then returnToUser (0, 0) else pure none
  | .join uid => do
      let ret ← joinLoop uid
      match ret with
      | some r => returnToUser r
      | none => pure none
  | .reaperStart => do
      uthreadBlock .reaper
      pure none
  | .reaper => do
      reaperRound
      uthreadBlock .reaper
      pure none
  | .exited => fail .panic
  | .firstThr mainThr => do
      assert .createFirstThr (c.cur.utId = mainThr)
      returnToUser (0, 0)
  | .block k => do
      blockRest k
      pure none

inductive Event (M C : Type) where
  | call (c : Call M C)
  | resume
  | switch

def Event.run : Event M C → U M C (Option Ret)
  | .call c => c.run
  | .resume => Uthreads.resume
  | .switch => switchRound >>= fun _ => pure none

/-- What the processor does next. -/
def Event.Enabled (c : Core M C) : Event M C → Prop
  | .call _ => c.switching = false ∧ c.utCtx c.utCurthr = .user
  | .resume => c.switching = false ∧ c.utCtx c.utCurthr ≠ .user
  | .switch => c.switching = true

/-! ### The start -/

def uthreadSchedInit : U M C Unit := each (fun i => utqueueInit (.runq i)) (List.range 8)

def reaperInit : U M C Unit := do
  editLinks fun l => some (l.init (.inl .reap))
  let ret ← uthreadCreate .reaperStart uthMaxprio
  check .nullPointer (ret.1 = 0)
  modifyCore fun c => { c with reaperThrId := ret.2.toNat }

def createFirstThr : U M C Unit := do
  modifyCore fun c => { c.setThread hack { Uthread.zero with utState := .onCpu } with
    utCurthr := hack }
  let ret ← uthreadCreate .none uthMaxprio
  assert .createFirstThr (ret.1 ≠ -1)
  let _ ← uthreadDetach ret.2
  modifyCore fun c => c.setCtx ret.2.toNat (.firstThr ret.2.toNat)
  uthreadSwitch .none

/-- `uthread_init` up to its return in the first thread. The reaper runs in between, to the first
`uthread_block` of its loop. -/
def uthreadInit : U M C Unit := do
  uthreadSchedInit
  reaperInit
  createFirstThr
  switchRound
  let _ ← resume
  switchRound
  let _ ← resume

/-- Memory before `uthread_init`, with the mutexes and condition variables initialised. -/
def blank : Machine M C where
  core := {
    uthreads := fun _ => .zero
    utCtx := fun _ => .none
    ctxStack := fun _ => none
    utCurthr := hack
    switching := false
    mOwner := fun _ => none
    reaperThrId := 0
    liveStacks := fun _ => false
    nextStack := 0 }
  links := {
    next := fun a => match a with
      | .inl h => some (.inl h)
      | .inr _ => none
    prev := fun a => match a with
      | .inl h => some (.inl h)
      | .inr _ => none }
  tqSize := fun _ => 0

/-! ### Runs -/

/-- One event of a run, with the states around it. -/
structure Moment (M C : Type) where
  before : Machine M C
  event : Event M C
  ret : Option Ret
  after : Machine M C

/-- `Run P s₀ tr s`: events that meet `P` in the state they happen in lead from `s₀` to `s`, by the
moments of `tr`, the last one first. -/
inductive Run (P : Core M C → Event M C → Prop) (s₀ : Machine M C) :
    List (Moment M C) → Machine M C → Prop
  | start : Run P s₀ [] s₀
  | step {tr : List (Moment M C)} {s s' : Machine M C} {e : Event M C} {r : Option Ret} :
      Run P s₀ tr s → e.Enabled s.core → P s.core e → e.run s = .ok (r, s') →
        Run P s₀ (⟨s, e, r, s'⟩ :: tr) s'

end CodingSample.Uthreads
