import CodingSample.Uthreads.Sched

/-!
# Mutexes and condition variables
-/

namespace CodingSample.Uthreads

open Prog

variable {M C : Type} [DecidableEq M] [DecidableEq C]

def setOwner (mtx : M) (owner : Option Nat) : U M C Unit :=
  modifyCore fun c => { c with mOwner := Function.update c.mOwner mtx owner }

/-- Whether the call has returned; it has not when the thread blocks. -/
def uthreadMtxLock (mtx : M) : U M C Bool := do
  let c ← getCore
  if c.mOwner mtx = none then do
    setOwner mtx (some c.utCurthr)
    pure true
  else do
    doIf (c.mOwner mtx ≠ some c.utCurthr) (utqueueEnqueue (.mtx mtx) c.utCurthr)
    uthreadBlock (.lock mtx)
    pure false

def uthreadMtxTrylock (mtx : M) : U M C Int := do
  let c ← getCore
  if c.mOwner mtx = none then do
    setOwner mtx (some c.utCurthr)
    pure 1
  else
    pure 0

def uthreadMtxUnlock (mtx : M) : U M C Unit := do
  let c ← getCore
  assert .uthreadMtxUnlock (c.mOwner mtx = some c.utCurthr)
  let empty ← utqueueEmpty (.mtx mtx)
  if empty then
    setOwner mtx none
  else do
    let next ← utqueueDequeue (.mtx mtx)
    match next with
    | none => fail .nullPointer
    | some thr => do
        setOwner mtx (some thr)
        uthreadWake thr

/-- `uthread_cond_wait` up to `uthread_block`. -/
def uthreadCondWait (cond : C) (mtx : M) : U M C Unit := do
  let c ← getCore
  assert .uthreadCondWait (c.mOwner mtx = some c.utCurthr)
  utqueueEnqueue (.cond cond) c.utCurthr
  uthreadMtxUnlock mtx
  uthreadBlock (.condWait cond mtx)

def uthreadCondSignal (cond : C) : U M C Unit := do
  let empty ← utqueueEmpty (.cond cond)
  if empty then
    pure ()
  else do
    let thr ← utqueueDequeue (.cond cond)
    match thr with
    | none => fail .nullPointer
    | some thr => uthreadWake thr

/-- The loop of `uthread_cond_broadcast`. A round takes one of the at most `uthMaxUthreads`
threads out of the queue. -/
def broadcastLoop (cond : C) : Nat → U M C Unit
  | 0 => fail .panic
  | fuel + 1 => do
      let empty ← utqueueEmpty (.cond cond)
      if empty then
        pure ()
      else do
        let thr ← utqueueDequeue (.cond cond)
        match thr with
        | none => fail .nullPointer
        | some thr => do
            uthreadWake thr
            broadcastLoop cond fuel

def uthreadCondBroadcast (cond : C) : U M C Unit := broadcastLoop cond (uthMaxUthreads + 1)

end CodingSample.Uthreads
