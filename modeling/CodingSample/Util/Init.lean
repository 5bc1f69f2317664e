import CodingSample.Prog.Basic
import Mathlib.Logic.Function.Basic

/-!
# Initialization functions

The macros `init_func` and `init_depends` leave records in a section of the kernel's image, and
`init_call_all` reads them and calls every function after the ones it depends on. The structures on
the list of functions are named by their places in it. A dependency is searched for on the list by
its name, and recursion is bounded by `fuel`.
-/

namespace CodingSample.Util

open Prog

/-- `struct init_function` without the marks of the search. -/
structure InitFunction where
  ifFunc : Nat
  ifName : List UInt8
  /-- The names in the structures `init_depends`. -/
  ifDeps : List (List UInt8)
  deriving DecidableEq

inductive InitFault where
  /-- A read where there is no memory. -/
  | pageFault
  /-- A failed `KASSERT`. -/
  | kassert
  /-- `panic`, as a dependency does not exist. -/
  | noDependency
  /-- `panic` about a circular dependency. -/
  | circular
  /-- The bound of the recursion is reached. -/
  | fuel
  deriving DecidableEq

/-! ### Reading the section -/

/-- `*(uintptr_t *)buf`, with the memory given from `buf` on. -/
def word : List UInt8 → Except InitFault Nat
  | b₀ :: b₁ :: b₂ :: b₃ :: _ =>
      .ok (b₀.toNat + 256 * b₁.toNat + 65536 * b₂.toNat + 16777216 * b₃.toNat)
  | _ => .error .pageFault

/-- The string at the head of the memory. -/
def cString : List UInt8 → Except InitFault (List UInt8)
  | [] => .error .pageFault
  | b :: memory => if b = 0 then .ok [] else (cString memory).map (b :: ·)

/-- The dependencies at `buf`, and where they end. -/
def readDepends (memory : List UInt8) (stop : Nat) :
    Nat → Nat → Except InitFault (List (List UInt8) × Nat)
  | 0, _ => .error .fuel
  | fuel + 1, buf => do
      let pointer ← word (memory.drop buf)
      if pointer = 0 ∧ buf < stop then
        let name ← cString (memory.drop (buf + 4))
        let (names, buf') ← readDepends memory stop fuel (buf + 4 + name.length + 1)
        pure (name :: names, buf')
      else pure ([], buf)

/-- The list of functions. -/
def readFunctions (memory : List UInt8) (stop : Nat) :
    Nat → Nat → Except InitFault (List InitFunction)
  | 0, _ => .error .fuel
  | fuel + 1, buf =>
      if buf < stop then do
        let pointer ← word (memory.drop buf)
        if pointer = 0 then .error .kassert else
          let name ← cString (memory.drop (buf + 4))
          let (names, buf') ← readDepends memory stop memory.length (buf + 4 + name.length + 1)
          let funcs ← readFunctions memory stop fuel buf'
          pure ({ ifFunc := pointer, ifName := name, ifDeps := names } :: funcs)
      else if buf = stop then pure [] else .error .kassert

/-! ### Calling the functions -/

structure InitState where
  initSearchCount : Nat := 0
  ifSearch : Nat → Nat := fun _ => 0
  ifCalled : Nat → Bool := fun _ => false
  /-- The functions called so far. -/
  calls : List Nat := []

abbrev InitProg := Prog InitFault InitState

def InitState.setSearch (f search : Nat) (s : InitState) : InitState :=
  { s with ifSearch := Function.update s.ifSearch f search }

/-- `func->if_search = ++_init_search_count`. -/
def InitState.newSearch (func : Nat) (s : InitState) : InitState :=
  { s with initSearchCount := s.initSearchCount + 1 }.setSearch func (s.initSearchCount + 1)

/-- `func->if_func(); func->if_called = 1`. -/
def InitState.call (func : Nat) (s : InitState) : InitState :=
  { s with ifCalled := Function.update s.ifCalled func true, calls := s.calls ++ [func] }

def findFunction (funcs : List InitFunction) (name : List UInt8) : Option Nat :=
  funcs.findIdx? fun f => f.ifName = name

def depends (funcs : List InitFunction) (func : Nat) : List (List UInt8) :=
  match funcs[func]? with
  | none => []
  | some f => f.ifDeps

/-- One round of the loop over the dependencies of `func`, with `call` for the recursive call. -/
def initDepend (funcs : List InitFunction) (call : Nat → InitProg Unit) (func : Nat)
    (dep : List UInt8) : InitProg Unit :=
  match findFunction funcs dep with
  | none => fail .noDependency
  | some f => do
      let s ← get
      check .circular (s.ifSearch func ≠ s.ifSearch f)
      if s.ifCalled f then pure () else do
        modify (InitState.setSearch f (s.ifSearch func))
        call f

def initCall (funcs : List InitFunction) : Nat → Nat → InitProg Unit
  | 0, _ => fail .fuel
  | fuel + 1, func => do
      each (initDepend funcs (initCall funcs fuel) func) (depends funcs func)
      let s ← get
      check .kassert (!s.ifCalled func)
      modify (InitState.call func)

def initCallOne (funcs : List InitFunction) (func : Nat) : InitProg Unit := do
  let s ← get
  if s.ifCalled func then pure () else do
    modify (InitState.newSearch func)
    initCall funcs funcs.length func

/-- `init_call_all` on a section of `size` bytes at the head of the memory: the list of functions,
and what is left when they have been called. -/
def initCallAll (memory : List UInt8) (size : Nat) :
    Except InitFault (List InitFunction × InitState) := do
  let funcs ← readFunctions memory size (memory.length + 1) 0
  let (_, s) ← each (initCallOne funcs) (List.range funcs.length) {}
  pure (funcs, s)

end CodingSample.Util
