import CodingSample.Uthreads.Sched

/-!
# Creating, ending and joining threads
-/

namespace CodingSample.Uthreads

open Prog

variable {M C : Type} [DecidableEq M] [DecidableEq C]

/-! ### The memory of a thread -/

def Core.pushStack (c : Core M C) : Core M C :=
  { c with
    liveStacks := Function.update c.liveStacks c.nextStack true
    nextStack := c.nextStack + 1 }

/-- `malloc` of a stack, which is taken to succeed. -/
def allocStack : U M C Nat := do
  let c ← getCore
  modifyCore fun c => c.pushStack
  pure c.nextStack

def freeStack : Option Nat → U M C Unit
  | none => pure ()
  | some stack => do
      let c ← getCore
      check .badFree (c.liveStacks stack)
      modifyCore fun c => { c with liveStacks := Function.update c.liveStacks stack false }

/-- The record and the context of a thread set to zero. -/
def Core.wipe (c : Core M C) (id : Nat) : Core M C :=
  { (c.setThread id .zero).setCtx id .none with
    ctxStack := Function.update c.ctxStack id none }

/-- `uthread_makecontext` -/
def Core.makecontext (c : Core M C) (id : Nat) (start : Ctx M C) (stack : Nat) : Core M C :=
  { c.setCtx id start with ctxStack := Function.update c.ctxStack id (some stack) }

/-- `memset(&uthreads[id], 0, sizeof(uthread_t))` -/
def zeroThread (id : Nat) : U M C Unit := do
  modifyCore fun c => c.wipe id
  editLinks fun l => some ((l.setNext (.inr id) none).setPrev (.inr id) none)

/-- The first unused place at or after `i`, of `n` places. -/
def uthreadAllocFrom (c : Core M C) : Nat → Nat → Option Nat
  | _, 0 => none
  | i, n + 1 => if c.state i = .noState then some i else uthreadAllocFrom c (i + 1) n

def uthreadAlloc : U M C (Option Nat) := do
  let c ← getCore
  pure (uthreadAllocFrom c 0 uthMaxUthreads)

def uthreadDestroy (uth : Nat) : U M C Unit := do
  let c ← getCore
  freeStack (c.uthreads uth).utStack
  zeroThread uth

/-- A thread that will start at `start`. The second component is stored through `uidp`. -/
def uthreadCreate (start : Ctx M C) (prio : Int) : U M C Ret := do
  let uid ← uthreadAlloc
  match uid with
  | none => pure (-1, 0)
  | some uid => do
      zeroThread uid
      modifyCore fun c => c.setThread uid
        { c.uthreads uid with utId := uid, utState := .runnable }
      let ret ← uthreadSetprio uid prio
      check .exitFailure (ret = 0)
      let stack ← allocStack
      modifyCore fun c => c.makecontext uid start stack
      pure (0, uid)

/-! ### The reaper -/

def makeReapable (uth : Nat) : U M C Unit := do
  let c ← getCore
  assert .makeReapable (c.uthreads uth).utDetached
  assert .makeReapable (c.state uth = .zombie)
  editLinks fun l => l.insertTail (.inl .reap) (.inr uth)
  uthreadWake c.reaperThrId

/-- The iteration of `reaper` over `reap_queue`, at `link`. -/
def reapFrom (link : Head M C ⊕ Nat) : Nat → U M C Unit
  | 0 => fail .panic
  | fuel + 1 =>
      match link with
      | .inl .reap => pure ()
      -- the head of another list is not in a thread
      | .inl _ => fail .nullPointer
      | .inr thread => do
          let s ← get
          match s.links.next link with
          | none => fail .nullPointer
          | some next => do
              assert .reaper (s.core.state thread = .zombie)
              editLinks fun l => l.remove (.inr thread)
              uthreadDestroy thread
              reapFrom next fuel

/-- One round of the loop of `reaper`, after `uthread_block`. -/
def reaperRound : U M C Unit := do
  let s ← get
  match s.links.next (.inl .reap) with
  | none => fail .nullPointer
  | some first => do
      reapFrom first (uthMaxUthreads + 1)
      let c ← getCore
      check .exitSuccess (¬ (List.range uthMaxUthreads).all fun th =>
        th = c.reaperThrId ∨ c.state th = .noState)

/-! ### Ending and joining -/

/-- The branches of `uthread_exit`. -/
def afterExit (detached : Bool) (waiter : Option Nat) : U M C Unit := do
  let c ← getCore
  if detached then
    makeReapable c.utCurthr
  else
    match waiter with
    | some waiter => uthreadWake waiter
    | none => pure ()

def uthreadExit (status : Int) : U M C Unit := do
  let c ← getCore
  assert .uthreadExit (c.cur.utState = .onCpu)
  modifyCore fun c => c.setThread c.utCurthr
    { c.cur with utState := .zombie, utExit := status, utHasExited := true }
  afterExit c.cur.utDetached c.cur.utWaiter
  uthreadSwitch .exited

/-- `uthread_join` from its loop on. -/
def joinLoop (uid : Nat) : U M C (Option Ret) := do
  let c ← getCore
  if (c.uthreads uid).utHasExited = false then do
    uthreadBlock (.join uid)
    pure none
  else do
    modifyCore fun c => c.setThread uid { c.uthreads uid with utDetached := true }
    makeReapable uid
    pure (some (0, (c.uthreads uid).utExit))

/-- There is no thread with this id. -/
def NoThread (c : Core M C) (uid : Int) : Prop :=
  uid < 0 ∨ uthMaxUthreads ≤ uid ∨ c.state uid.toNat = .noState

instance (c : Core M C) (uid : Int) : Decidable (NoThread c uid) :=
  inferInstanceAs (Decidable (_ ∨ _))

def uthreadJoin (uid : Int) : U M C (Option Ret) := do
  let c ← getCore
  assert .uthreadJoin (c.cur.utState = .onCpu)
  if NoThread c uid then do
    let errno ← failWith esrch
    pure (some (errno, 0))
  else if c.cur.utWaiter = some uid.toNat then do
    let errno ← failWith edeadlk
    pure (some (errno, 0))
  else if c.cur.utWaiter ≠ none ∨ (c.uthreads uid.toNat).utDetached then do
    let errno ← failWith einval
    pure (some (errno, 0))
  else do
    modifyCore fun c => c.setThread uid.toNat
      { c.uthreads uid.toNat with utWaiter := some c.utCurthr }
    joinLoop uid.toNat

def uthreadDetach (uid : Int) : U M C Int := do
  let c ← getCore
  if NoThread c uid then
    failWith esrch
  else if (c.uthreads uid.toNat).utDetached ∨ c.cur.utWaiter ≠ none then
    failWith einval
  else if c.state uid.toNat = .zombie then do
    makeReapable uid.toNat
    pure 0
  else do
    modifyCore fun c => c.setThread uid.toNat { c.uthreads uid.toNat with utDetached := true }
    pure 0

end CodingSample.Uthreads
