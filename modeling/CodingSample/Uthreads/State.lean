import CodingSample.Prog.Basic
import CodingSample.Data.Ring

/-!
# The state of the user-level threads

All threads run on one processor and give it up only inside `uthread_switch`. Where a thread goes
on once it is switched to is its context, and the machine either runs the current thread from its
context or is inside the loop of `uthread_switch`.
-/

namespace CodingSample.Uthreads

@[simp] def uthMaxprio : Int := 7
@[simp] def uthMaxUthreads : Nat := 64

@[simp] def einval : Int := 22
@[simp] def esrch : Int := 3
@[simp] def edeadlk : Int := 35

/-- The place of the variable `hack` of `create_first_thr`, which is outside the array. -/
@[simp] def hack : Nat := uthMaxUthreads

inductive UthreadState where
  | noState | onCpu | runnable | wait | zombie
  deriving DecidableEq, Repr

/-- `uthread_t`, without its link, its context and its stack pointer's target. A pointer to a
thread is its index in `uthreads`. -/
structure Uthread where
  utStack : Option Nat
  utId : Nat
  utState : UthreadState
  utPrio : Int
  utErrno : Int
  utHasExited : Bool
  utExit : Int
  utDetached : Bool
  utWaiter : Option Nat

/-- What `memset` leaves. -/
def Uthread.zero : Uthread := ⟨none, 0, .noState, 0, 0, false, 0, false, none⟩

/-- Where a thread goes on. `M` names the mutexes and `C` the condition variables. -/
inductive Ctx (M C : Type) where
  /-- A context wiped by `memset`. -/
  | none
  /-- The code of the thread itself. -/
  | user
  | yield
  /-- After `uthread_block` in `uthread_mtx_lock`. -/
  | lock (mtx : M)
  /-- After `uthread_block` in `uthread_cond_wait`. -/
  | condWait (cond : C) (mtx : M)
  /-- In the loop of `uthread_join`. -/
  | join (uid : Nat)
  /-- At the start of the loop of `reaper`. -/
  | reaperStart
  /-- After `uthread_block` in `reaper`. -/
  | reaper
  /-- After `uthread_switch` in `uthread_exit`. -/
  | exited
  /-- After `uthread_getcontext` in `create_first_thr`. -/
  | firstThr (mainThr : Nat)
  /-- After the first `uthread_switch` in a call of `uthread_block` that returns to `k`. -/
  | block (k : Ctx M C)
  deriving DecidableEq

/-- The heads of the lists a thread can be linked on. -/
inductive Head (M C : Type) where
  | runq (prio : Nat)
  | mtx (m : M)
  | cond (c : C)
  | reap
  deriving DecidableEq

/-- Everything but the lists. -/
structure Core (M C : Type) where
  uthreads : Nat → Uthread
  utCtx : Nat → Ctx M C
  /-- The stack each context was made with. -/
  ctxStack : Nat → Option Nat
  utCurthr : Nat
  /-- The processor is in the loop of `uthread_switch`. -/
  switching : Bool
  mOwner : M → Option Nat
  reaperThrId : Nat
  /-- The memory blocks `malloc` has handed out that were not freed, and the next one. -/
  liveStacks : Nat → Bool
  nextStack : Nat

/-- The memory of the process. -/
structure Machine (M C : Type) where
  core : Core M C
  links : Links (Head M C ⊕ Nat)
  tqSize : Head M C → Int

/-- The functions that contain an assertion. -/
inductive Site where
  | utqueueEmpty | utqueueEnqueue | utqueueRemove | uthreadSwitch | uthreadWake | uthreadExit
  | uthreadJoin | uthreadMtxUnlock | uthreadCondWait | makeReapable | reaper | createFirstThr
  deriving DecidableEq, Repr

/-- How the process stops. -/
inductive Fault where
  | assertion (site : Site)
  | panic
  /-- `exit(EXIT_FAILURE)` -/
  | exitFailure
  /-- `exit(0)`, once the reaper finds no thread left. -/
  | exitSuccess
  | nullPointer
  | badFree
  deriving DecidableEq, Repr

/-- Code of the thread library. -/
abbrev U (M C : Type) : Type → Type := Prog Fault (Machine M C)

/-- The value a call returns and the value it stores through its pointer argument. -/
abbrev Ret : Type := Int × Int

namespace Core

variable {M C : Type} (c : Core M C)

def setThread (t : Nat) (u : Uthread) : Core M C :=
  { c with uthreads := Function.update c.uthreads t u }

def setState (t : Nat) (st : UthreadState) : Core M C :=
  c.setThread t { c.uthreads t with utState := st }

def setPrio (t : Nat) (prio : Int) : Core M C :=
  c.setThread t { c.uthreads t with utPrio := prio }

def setErrno (t : Nat) (errno : Int) : Core M C :=
  c.setThread t { c.uthreads t with utErrno := errno }

def setCtx (t : Nat) (k : Ctx M C) : Core M C := { c with utCtx := Function.update c.utCtx t k }

/-- The thread `ut_curthr` points to. -/
def cur : Uthread := c.uthreads c.utCurthr

def state (t : Nat) : UthreadState := (c.uthreads t).utState

end Core

variable {M C : Type}

def getCore : U M C (Core M C) := fun s => .ok (s.core, s)

def modifyCore (f : Core M C → Core M C) : U M C Unit :=
  Prog.modify fun s => { s with core := f s.core }

/-- `assert` -/
def assert (site : Site) (test : Bool) : U M C Unit := Prog.check (.assertion site) test

/-- An edit of the links, which may follow a null pointer. -/
def editLinks (f : Links (Head M C ⊕ Nat) → Option (Links (Head M C ⊕ Nat))) : U M C Unit :=
  fun s => match f s.links with
    | some l => .ok ((), { s with links := l })
    | none => .error .nullPointer

/-- An `if` without `else`. -/
def doIf (p : Prop) [Decidable p] (m : U M C Unit) : U M C Unit := if p then m else pure ()

/-- Set `ut_errno` and return it. -/
def failWith (errno : Int) : U M C Int := do
  modifyCore fun c => c.setErrno c.utCurthr errno
  pure errno

end CodingSample.Uthreads
