import CodingSample.Data.Ring
import CodingSample.Prog.Basic

/-!
# The page cache

The functions of `pframe.c`, cut where an operation of a memory object may block. The contents of
the pages, the page tables and the page-out daemon's queue are left out; the daemon itself calls
`pframe_clean` and `pframe_free` as any other thread does. What an operation of an object does to
the cache counts as the calls of another thread.
-/

namespace CodingSample.Mm

open Prog

/-- The address of a memory object. -/
abbrev Mmobj := UInt32

def pfHashSize : UInt32 := 17

/-- `hash_page` -/
def hashPage (obj : Mmobj) (pagenum : UInt32) : UInt32 := (obj + pagenum) % pfHashSize

structure Pframe where
  pfObj : Option Mmobj
  pfPagenum : UInt32
  busy : Bool
  dirty : Bool
  pfPincount : Int

inductive Paging where
  | allocList
  | pinnedList
  deriving DecidableEq

/-- The page frames, at addresses below `frames`, and the lists through their three links. -/
structure Cache where
  frames : Nat
  pframes : Nat → Pframe
  link : Links (Paging ⊕ Nat)
  hlink : Links (UInt32 ⊕ Nat)
  olink : Links (Mmobj ⊕ Nat)
  npinned : Int
  nallocated : Int
  mmoNrespages : Mmobj → Int
  mmoRefcount : Mmobj → Int

inductive Fault where
  | assertion
  /-- A link that leads nowhere. -/
  | badLink
  /-- The object of a free page. -/
  | noObject
  /-- `pframe_get` without memory, which tries again for ever. -/
  | spins
  deriving DecidableEq

abbrev PageM := Prog Fault Cache

def kassert (test : Bool) : PageM Unit := check .assertion test

def setPframe (p : Nat) (f : Pframe → Pframe) : PageM Unit :=
  modify fun s => { s with pframes := Function.update s.pframes p (f (s.pframes p)) }

def getPframe (p : Nat) : PageM Pframe := do
  let s ← get
  pure (s.pframes p)

/-- The object of a page frame. -/
def pfObj (p : Nat) : PageM Mmobj := do
  let pf ← getPframe p
  match pf.pfObj with
  | none => fail .noObject
  | some o => pure o

/-! ### Lists -/

def editLink (f : Links (Paging ⊕ Nat) → Option (Links (Paging ⊕ Nat))) : PageM Unit := fun s =>
  match f s.link with
  | none => .error .badLink
  | some l => .ok ((), { s with link := l })

def editHlink (f : Links (UInt32 ⊕ Nat) → Option (Links (UInt32 ⊕ Nat))) : PageM Unit := fun s =>
  match f s.hlink with
  | none => .error .badLink
  | some l => .ok ((), { s with hlink := l })

def editOlink (f : Links (Mmobj ⊕ Nat) → Option (Links (Mmobj ⊕ Nat))) : PageM Unit := fun s =>
  match f s.olink with
  | none => .error .badLink
  | some l => .ok ((), { s with olink := l })

def addNpinned (n : Int) : PageM Unit := modify fun s => { s with npinned := s.npinned + n }

def addNallocated (n : Int) : PageM Unit := modify fun s => { s with nallocated := s.nallocated + n }

def addNrespages (o : Mmobj) (n : Int) : PageM Unit := modify fun s =>
  { s with mmoNrespages := Function.update s.mmoNrespages o (s.mmoNrespages o + n) }

/-- `mmo_ops->ref`, which does not block. -/
def ref (o : Mmobj) : PageM Unit := modify fun s =>
  { s with mmoRefcount := Function.update s.mmoRefcount o (s.mmoRefcount o + 1) }

/-- `mmo_ops->put` up to where it may block. -/
def put (o : Mmobj) : PageM Unit := modify fun s =>
  { s with mmoRefcount := Function.update s.mmoRefcount o (s.mmoRefcount o - 1) }

/-! ### Pages -/

/-- The iteration of `pframe_get_resident` over a hash chain, at `a`. -/
def findPage (o : Mmobj) (pagenum : UInt32) : Nat → UInt32 ⊕ Nat → PageM (Option Nat)
  | 0, _ => fail .badLink
  | fuel + 1, a => do
      let s ← get
      match s.hlink.next a with
      | none => fail .badLink
      | some (.inl _) => pure none
      | some (.inr pf) =>
          if (s.pframes pf).pfObj = some o ∧ (s.pframes pf).pfPagenum = pagenum then do
            if (s.pframes pf).pfPincount = 0 then do
              editLink fun l => l.remove (.inr pf)
              editLink fun l => l.insertTail (.inl .allocList) (.inr pf)
              pure (some pf)
            else pure (some pf)
          else findPage o pagenum fuel (.inr pf)

def pframeGetResident (o : Mmobj) (pagenum : UInt32) : PageM (Option Nat) := do
  let s ← get
  findPage o pagenum (s.frames + 1) (.inl (hashPage o pagenum))

/-- `fresh` is the page frame that the slab allocator returns, with its memory. -/
def pframeAlloc (o : Mmobj) (pagenum : UInt32) (fresh : Option Nat) : PageM (Option Nat) :=
  match fresh with
  | none => pure none
  | some pf => do
      addNallocated 1
      editLink fun l => l.insertTail (.inl .allocList) (.inr pf)
      setPframe pf fun _ => ⟨some o, pagenum, false, false, 0⟩
      editHlink fun l => l.insertHead (.inl (hashPage o pagenum)) (.inr pf)
      ref o
      addNrespages o 1
      editOlink fun l => l.insertHead (.inl o) (.inr pf)
      pure (some pf)

/-- `pframe_free` up to the end of its `put`. -/
def pframeFree (pf : Nat) : PageM Unit := do
  let page ← getPframe pf
  kassert (page.pfPincount = 0)
  kassert (page.pfObj ≠ none)
  kassert (!page.busy)
  let o ← pfObj pf
  editHlink fun l => l.remove (.inr pf)
  setPframe pf fun page => { page with pfObj := none }
  addNallocated (-1)
  editLink fun l => l.remove (.inr pf)
  addNrespages o (-1)
  editOlink fun l => l.remove (.inr pf)
  put o

def setBusy (pf : Nat) (busy : Bool) : PageM Unit := setPframe pf fun page => { page with busy := busy }

def setDirty (pf : Nat) (dirty : Bool) : PageM Unit :=
  setPframe pf fun page => { page with dirty := dirty }

def setPincount (pf : Nat) (n : Int) : PageM Unit :=
  setPframe pf fun page => { page with pfPincount := n }

def pframePin (pf : Nat) : PageM Unit := do
  let page ← getPframe pf
  kassert (page.pfObj ≠ none)
  setBusy pf true
  if page.pfPincount = 0 then do
    editLink fun l => l.remove (.inr pf)
    addNallocated (-1)
    addNpinned 1
    editLink fun l => l.insertTail (.inl .pinnedList) (.inr pf)
    setPincount pf (page.pfPincount + 1)
    setBusy pf false
  else do
    setPincount pf (page.pfPincount + 1)
    setBusy pf false

def pframeUnpin (pf : Nat) : PageM Unit := do
  let page ← getPframe pf
  kassert (page.pfObj ≠ none)
  kassert (page.pfPincount ≠ 0)
  setBusy pf true
  setPincount pf (page.pfPincount - 1)
  if page.pfPincount - 1 = 0 then do
    editLink fun l => l.remove (.inr pf)
    addNpinned (-1)
    addNallocated 1
    editLink fun l => l.insertTail (.inl .allocList) (.inr pf)
    setBusy pf false
  else setBusy pf false

/-- `pframe_dirty` up to `dirtypage`. -/
def pframeDirtyStart (pf : Nat) : PageM Unit := do
  let page ← getPframe pf
  kassert (!page.busy)
  setBusy pf true
  let _ ← pfObj pf
  pure ()

/-- `pframe_dirty` after `dirtypage` returned `ret`. -/
def pframeDirtyEnd (pf : Nat) (ret : Int) : PageM Unit :=
  if ret = 0 then do
    setDirty pf true
    setBusy pf false
  else setBusy pf false

/-- `pframe_clean` up to `cleanpage`. -/
def pframeCleanStart (pf : Nat) : PageM Unit := do
  let page ← getPframe pf
  kassert page.dirty
  kassert (page.pfPincount = 0)
  setDirty pf false
  let _ ← pfObj pf
  setBusy pf true

/-- `pframe_clean` after `cleanpage` returned `ret`. -/
def pframeCleanEnd (pf : Nat) (ret : Int) : PageM Unit :=
  if ret < 0 then do
    setDirty pf true
    setBusy pf false
  else setBusy pf false

/-- `pframe_migrate` from its `else` up to the end of the `put` of the source. -/
def migrateOut (pf : Nat) (dest : Mmobj) : PageM Unit := do
  let src ← pfObj pf
  setPframe pf fun page => { page with pfObj := some dest }
  editHlink fun l => l.remove (.inr pf)
  editOlink fun l => l.remove (.inr pf)
  addNrespages src (-1)
  put src

/-- The rest of `pframe_migrate`. -/
def migrateIn (pf : Nat) (dest : Mmobj) : PageM Unit := do
  let page ← getPframe pf
  editHlink fun l => l.insertHead (.inl (hashPage dest page.pfPagenum)) (.inr pf)
  editOlink fun l => l.insertHead (.inl dest) (.inr pf)
  addNrespages dest 1
  ref dest

/-! ### Threads -/

inductive Call where
  | get (o : Mmobj) (pagenum : UInt32)
  | pin (pf : Nat)
  | unpin (pf : Nat)
  | dirty (pf : Nat)
  | clean (pf : Nat)
  | free (pf : Nat)
  | migrate (pf : Nat) (dest : Mmobj)

/-- Where a thread is: out of the cache, with the results of its last call, or at a blocking
point. A thread that sleeps in `pframe_get` looks for its page again when it wakes up. -/
inductive Frame where
  | returned (ret : Int) (result : Option Nat)
  | asleep (o : Mmobj) (pagenum : UInt32)
  | filling (pf : Nat)
  | dirtying (pf : Nat)
  | cleaning (pf : Nat)
  | migrateCleaning (pf : Nat)
  | migrating (pf : Nat) (dest : Mmobj)
  | putting (ret : Int) (result : Option Nat)

/-- What the rest of the kernel decides: the result of the operation of the object, the page
frame that the slab allocator has, and whether the `put` of the source in `pframe_migrate`
blocks. -/
structure Env where
  ret : Int
  fresh : Option Nat
  blocks : Bool

/-- `pframe_get` up to where it blocks. -/
def pframeGet (o : Mmobj) (pagenum : UInt32) (env : Env) : PageM Frame := do
  let page ← pframeGetResident o pagenum
  match page with
  | some pf => do
      let p ← getPframe pf
      if p.busy then pure (.asleep o pagenum) else pure (.returned 0 (some pf))
  | none => do
      let page ← pframeAlloc o pagenum env.fresh
      match page with
      | none => fail .spins
      | some pf => do
          setBusy pf true
          pure (.filling pf)

/-- `pframe_get` after `fillpage`. -/
def fillEnd (pf : Nat) (env : Env) : PageM Frame := do
  setBusy pf false
  if env.ret < 0 then do
    pframeFree pf
    pure (.putting env.ret (some pf))
  else do
    let p ← getPframe pf
    kassert (!p.busy)
    pure (.returned 0 (some pf))

/-- `pframe_migrate` up to where it blocks. -/
def pframeMigrate (pf : Nat) (dest : Mmobj) (env : Env) : PageM Frame := do
  let page ← getPframe pf
  kassert (!page.busy)
  let newer ← pframeGetResident dest page.pfPagenum
  match newer with
  | some _ => do
      pframeUnpin pf
      pframeCleanStart pf
      pure (.migrateCleaning pf)
  | none => do
      migrateOut pf dest
      if env.blocks then
        pure (.migrating pf dest)
      else do
        migrateIn pf dest
        pure (.returned 0 none)

def Call.start (env : Env) : Call → PageM Frame
  | .get o pagenum => pframeGet o pagenum env
  | .pin pf => do
      pframePin pf
      pure (.returned 0 none)
  | .unpin pf => do
      pframeUnpin pf
      pure (.returned 0 none)
  | .dirty pf => do
      pframeDirtyStart pf
      pure (.dirtying pf)
  | .clean pf => do
      pframeCleanStart pf
      pure (.cleaning pf)
  | .free pf => do
      pframeFree pf
      pure (.putting 0 none)
  | .migrate pf dest => pframeMigrate pf dest env

/-- The thread goes on from its blocking point. -/
def Frame.resume (env : Env) : Frame → PageM Frame
  | .returned ret result => pure (.returned ret result)
  | .asleep o pagenum => pframeGet o pagenum env
  | .filling pf => fillEnd pf env
  | .dirtying pf => do
      pframeDirtyEnd pf env.ret
      pure (.returned env.ret none)
  | .cleaning pf => do
      pframeCleanEnd pf env.ret
      pure (.returned env.ret none)
  | .migrateCleaning pf => do
      pframeCleanEnd pf env.ret
      pframeFree pf
      pure (.putting 0 none)
  | .migrating pf dest => do
      migrateIn pf dest
      pure (.returned 0 none)
  | .putting ret result => pure (.returned ret result)

/-- The cache and the threads that use it. -/
structure Kernel where
  cache : Cache
  threads : Nat → Frame

inductive Event where
  | call (t : Nat) (c : Call) (env : Env)
  | resume (t : Nat) (env : Env)

def Event.thread : Event → Nat
  | call t _ _ => t
  | resume t _ => t

def Event.env : Event → Env
  | call _ _ env => env
  | resume _ env => env

/-- A thread calls a function when it is out of the cache, and goes on when it is not. The slab
allocator returns a page frame that is not in use. -/
def Event.Enabled (k : Kernel) (e : Event) : Prop :=
  (∀ pf, e.env.fresh = some pf → pf < k.cache.frames ∧ (k.cache.pframes pf).pfObj = none) ∧
    match e with
    | call t _ _ => ∃ ret result, k.threads t = .returned ret result
    | resume t _ => ∀ ret result, k.threads t ≠ .returned ret result

def Event.prog (k : Kernel) : Event → PageM Frame
  | call _ c env => c.start env
  | resume t env => (k.threads t).resume env

def Event.run (k : Kernel) (e : Event) : Except Fault Kernel :=
  match e.prog k k.cache with
  | .error f => .error f
  | .ok (frame, cache) => .ok ⟨cache, Function.update k.threads e.thread frame⟩

end CodingSample.Mm
