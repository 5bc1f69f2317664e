import CodingSample.Uthreads.State

/-!
# Queues and the scheduler
-/

namespace CodingSample.Uthreads

open Prog

variable {M C : Type} [DecidableEq M] [DecidableEq C]

/-! ### Queues of threads -/

def addSize (q : Head M C) (n : Int) : U M C Unit :=
  modify fun s => { s with tqSize := Function.update s.tqSize q (s.tqSize q + n) }

def utqueueInit (q : Head M C) : U M C Unit := do
  modify fun s => { s with tqSize := Function.update s.tqSize q 0 }
  editLinks fun l => some (l.init (.inl q))

def utqueueEmpty (q : Head M C) : U M C Bool := do
  let s ← get
  assert .utqueueEmpty (s.links.isEmpty (.inl q) == (s.tqSize q == 0))
  pure (s.tqSize q == 0)

/-- A new thread goes to the front. -/
def utqueueEnqueue (q : Head M C) (thr : Nat) : U M C Unit := do
  let s ← get
  assert .utqueueEnqueue (s.links.next (.inr thr) = none ∧ s.links.prev (.inr thr) = none)
  editLinks fun l => l.insertHead (.inl q) (.inr thr)
  addSize q 1

/-- The thread at the back leaves. -/
def utqueueDequeue (q : Head M C) : U M C (Option Nat) := do
  let empty ← utqueueEmpty q
  if empty then
    pure none
  else do
    let s ← get
    match s.links.prev (.inl q) with
    | some (.inr thr) => do
        editLinks fun l => l.remove (.inr thr)
        addSize q (-1)
        pure (some thr)
    -- a link that is not in a thread
    | _ => fail .nullPointer

def utqueueRemove (q : Head M C) (thr : Nat) : U M C Unit := do
  let s ← get
  assert .utqueueRemove (s.links.next (.inr thr) ≠ none ∧ s.links.prev (.inr thr) ≠ none)
  editLinks fun l => l.remove (.inr thr)
  addSize q (-1)

/-! ### The scheduler -/

/-- `runq_table[prio]` -/
def runqTable (prio : Int) : Head M C := .runq prio.toNat

def uthreadSetprio (id prio : Int) : U M C Int := do
  let c ← getCore
  if prio < 0 ∨ uthMaxprio < prio then
    failWith einval
  else if id < 0 ∨ uthMaxUthreads ≤ id ∨ c.state id.toNat = .noState ∨
      c.state id.toNat = .zombie then
    failWith esrch
  else if c.state id.toNat = .runnable then do
    let s ← get
    doIf (s.links.prev (.inr id.toNat) ≠ none ∧ s.links.next (.inr id.toNat) ≠ none)
      (utqueueRemove (runqTable (c.uthreads id.toNat).utPrio) id.toNat)
    modifyCore fun c => c.setPrio id.toNat prio
    utqueueEnqueue (runqTable prio) id.toNat
    pure 0
  else do
    modifyCore fun c => c.setPrio id.toNat prio
    pure 0

/-- `uthread_switch` up to its loop; the thread goes on at `k` when it is switched to again. -/
def uthreadSwitch (k : Ctx M C) : U M C Unit :=
  modifyCore fun c => { c.setCtx c.utCurthr k with switching := true }

/-- The scan of the run queues in `uthread_switch`. -/
def switchScan : List Nat → U M C Unit
  | [] => pure ()
  | i :: rest => do
      let empty ← utqueueEmpty (.runq i)
      if empty then
        switchScan rest
      else do
        let newThread ← utqueueDequeue (.runq i)
        match newThread with
        | none => fail .nullPointer
        | some thr => do
            let s ← get
            assert .uthreadSwitch (s.core.state thr = .runnable)
            assert .uthreadSwitch
              (s.links.prev (.inr thr) = none ∧ s.links.next (.inr thr) = none)
            modifyCore fun c => { c.setState thr .onCpu with utCurthr := thr, switching := false }

/-- One round of the loop of `uthread_switch`. -/
def switchRound : U M C Unit := switchScan [7, 6, 5, 4, 3, 2, 1, 0]

def uthreadYield : U M C Unit := do
  let c ← getCore
  doIf (c.utCurthr < uthMaxUthreads ∧ c.cur.utState = .onCpu) (do
    modifyCore fun c => c.setState c.utCurthr .runnable
    let ret ← uthreadSetprio c.cur.utId c.cur.utPrio
    check .exitFailure (ret = 0))
  uthreadSwitch .yield

/-- `uthread_block` after its first `if`. -/
def blockRest (k : Ctx M C) : U M C Unit := do
  let c ← getCore
  if c.cur.utState = .onCpu then do
    modifyCore fun c => c.setState c.utCurthr .wait
    uthreadSwitch k
  else if c.cur.utState = .runnable then do
    modifyCore fun c => c.setState c.utCurthr .wait
    utqueueRemove (runqTable c.cur.utPrio) c.utCurthr
    modifyCore fun c => c.setCtx c.utCurthr k
  else
    modifyCore fun c => c.setCtx c.utCurthr k

/-- `uthread_block`, called where the caller goes on at `k`. -/
def uthreadBlock (k : Ctx M C) : U M C Unit := do
  let c ← getCore
  if c.cur.utState = .wait then uthreadSwitch (.block k) else blockRest k

def uthreadWake (uthr : Nat) : U M C Unit := do
  let c ← getCore
  assert .uthreadWake (c.state uthr ≠ .noState)
  doIf (c.state uthr = .wait) (do
    modifyCore fun c => c.setState uthr .runnable
    let ret ← uthreadSetprio (c.uthreads uthr).utId (c.uthreads uthr).utPrio
    check .exitFailure (ret = 0))

end CodingSample.Uthreads
