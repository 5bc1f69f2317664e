import CodingSample.Vfs.Files
import Mathlib.Data.List.TakeWhile
import Mathlib.Algebra.Order.Group.Multiset

/-!
# Path names

`lookup`, `dir_namev` and `open_namev` over the operations of a file system, and the walk through
a tree of directories that a path stands for.
-/

namespace CodingSample.Vfs

open Prog

@[simp] def enoent : Int := 2
@[simp] def enametoolong : Int := 36
@[simp] def nameLen : Nat := 28
@[simp] def maxpathlen : Nat := 1024
@[simp] def oCreat : Nat := 0x100

def slash : UInt8 := 47

/-- What names need of a file system. `lookup` and `create` return a vnode with a reference, or an
error. -/
structure VnodeOps (ε σ : Type) where
  vref : Nat → Prog ε σ Unit
  vput : Nat → Prog ε σ Unit
  /-- `S_ISDIR(vn_mode)`. No other vnode has the operations `lookup` and `create`. -/
  isDir : Nat → σ → Bool
  lookup : Nat → List UInt8 → Prog ε σ (Except Int Nat)
  create : Nat → List UInt8 → Prog ε σ (Except Int Nat)

section Calls

variable {ε σ : Type} (ops : VnodeOps ε σ)

def lookup (dir : Nat) (name : List UInt8) : Prog ε σ (Except Int Nat) := do
  let s ← get
  if ops.isDir dir s = false then pure (.error (-enotdir)) else ops.lookup dir name

/-- The loop of `dir_namev` over the rest of the path, a round for each slash or component. -/
def dirNamevFrom : Nat → List UInt8 → Nat → Prog ε σ (Except Int (List UInt8 × Nat))
  | 0, _, parent => pure (.ok ([], parent))
  | _ + 1, [], parent => pure (.ok ([], parent))
  | fuel + 1, c :: path, parent =>
      if c = slash then
        dirNamevFrom fuel path parent
      else do
        let name := (c :: path).takeWhile (· ≠ slash)
        let rest := (c :: path).dropWhile (· ≠ slash)
        if nameLen < name.length then do
          ops.vput parent
          pure (.error (-enametoolong))
        else if rest.all (· = slash) then do
          -- the last component
          let s ← get
          if ops.isDir parent s = false then do
            ops.vput parent
            pure (.error (-enotdir))
          else
            pure (.ok (name, parent))
        else do
          let r ← lookup ops parent name
          ops.vput parent
          match r with
          | .error ret => pure (.error ret)
          | .ok next => dirNamevFrom fuel rest next

/-- Where `dir_namev` starts. -/
def startOf (root cwd : Nat) (pathname : List UInt8) (base : Option Nat) : Nat :=
  if pathname.head? = some slash then root else base.getD cwd

/-- `dir_namev`: the base name and `*res_vnode`. -/
def dirNamev (root cwd : Nat) (pathname : List UInt8) (base : Option Nat) :
    Prog ε σ (Except Int (List UInt8 × Nat)) :=
  if maxpathlen ≤ pathname.length then
    pure (.error (-enametoolong))
  else do
    ops.vref (startOf root cwd pathname base)
    dirNamevFrom ops pathname.length pathname (startOf root cwd pathname base)

/-- `open_namev`: `*res_vnode`. -/
def openNamev (root cwd : Nat) (pathname : List UInt8) (flag : Nat) (base : Option Nat) :
    Prog ε σ (Except Int Nat) := do
  match ← dirNamev ops root cwd pathname base with
  | .error ret => pure (.error ret)
  | .ok (name, dir) => do
      match ← lookup ops dir name with
      | .ok target => do
          ops.vput dir
          pure (.ok target)
      | .error ret2 =>
          if ret2 = -enoent ∧ flag &&& oCreat ≠ 0 then do
            let target ← ops.create dir name
            ops.vput dir
            pure target
          else do
            ops.vput dir
            pure (.error ret2)

end Calls

/-! ### What a path stands for -/

/-- The names between the slashes of a path. -/
def components (path : List UInt8) : List (List UInt8) :=
  (path.splitOnP (· = slash)).filter (· ≠ [])

/-- Directories and the vnodes under their names. -/
structure Tree where
  isDir : Nat → Bool
  child : Nat → List UInt8 → Option Nat

namespace Tree

/-- From a vnode to the one under a name. -/
def step (t : Tree) (dir : Nat) (name : List UInt8) : Except Int Nat :=
  if nameLen < name.length then .error (-enametoolong)
  else if t.isDir dir = false then .error (-enotdir)
  else match t.child dir name with
    | some n => .ok n
    | none => .error (-enoent)

def walk (t : Tree) (start : Nat) (names : List (List UInt8)) : Except Int Nat :=
  names.foldlM t.step start

/-- The directory that has the last of the names, and this name. -/
def place (t : Tree) (start : Nat) : List (List UInt8) → Except Int (List UInt8 × Nat)
  | [] => .ok ([], start)
  | [name] =>
      if nameLen < name.length then .error (-enametoolong)
      else if t.isDir start = false then .error (-enotdir)
      else .ok (name, start)
  | name :: names => (t.step start name).bind fun next => t.place next names

end Tree

variable {path : List UInt8} {names : List (List UInt8)} {name : List UInt8} {start : Nat}
  {t : Tree}

theorem components_append (path path' : List UInt8) :
    components (path ++ slash :: path') = components path ++ components path' := by
  rw [components, List.splitOnP_append_cons _ _ (by simp), List.filter_append]
  rfl

theorem components_nil : components [] = [] := rfl

theorem components_slash (path : List UInt8) : components (slash :: path) = components path :=
  components_append [] path

theorem components_word (hne : path ≠ []) (h : ∀ c ∈ path, c ≠ slash) :
    components path = [path] := by
  have hnone : ∀ c ∈ path, decide (c = slash) = false := fun c hc => decide_eq_false (h c hc)
  rw [components, List.splitOnP_eq_singleton hnone]
  exact List.filter_cons_of_pos (decide_eq_true hne)

/-- The first component, and the rest of the path after it. -/
theorem components_cons {c : UInt8} (hc : c ≠ slash) :
    components (c :: path) = (c :: path).takeWhile (· ≠ slash) ::
      components ((c :: path).dropWhile (· ≠ slash)) := by
  have hsplit := List.takeWhile_append_dropWhile (p := fun x => decide (x ≠ slash)) (l := c :: path)
  set word := (c :: path).takeWhile (· ≠ slash) with hword
  have hclean : ∀ x ∈ word, x ≠ slash := by
    intro x hx
    exact of_decide_eq_true (List.mem_takeWhile_imp (p := fun x => decide (x ≠ slash)) hx)
  have hne : word ≠ [] := by
    intro hnil
    rw [hword, List.takeWhile_cons, if_pos (decide_eq_true hc)] at hnil
    cases hnil
  have hhead := List.head?_dropWhile_not (fun x => decide (x ≠ slash)) (c :: path)
  cases hrest : (c :: path).dropWhile (· ≠ slash) with
  | nil =>
      rw [hrest, List.append_nil] at hsplit
      rw [components_nil, ← hsplit]
      exact components_word hne hclean
  | cons d rest =>
      rw [hrest, List.head?_cons] at hhead
      have hd : d = slash := by simpa using hhead
      rw [hrest, hd] at hsplit
      rw [hd, components_slash, ← hsplit, components_append, components_word hne hclean]
      rfl

theorem components_eq_nil_iff : components path = [] ↔ path.all (· = slash) = true := by
  induction path with
  | nil => exact iff_of_true rfl rfl
  | cons c path ih =>
      rw [List.all_cons, Bool.and_eq_true, decide_eq_true_iff]
      by_cases hc : c = slash
      · rw [hc, components_slash, ih]
        exact (and_iff_right rfl).symm
      · rw [components_cons hc]
        exact iff_of_false (List.cons_ne_nil _ _) fun h => hc h.1

namespace Tree

theorem place_cons (hnames : names ≠ []) :
    t.place start (name :: names) = (t.step start name).bind fun next => t.place next names := by
  cases names with
  | nil => exact absurd rfl hnames
  | cons name' names => rfl

theorem place_of_long (hlong : nameLen < name.length) :
    t.place start (name :: names) = .error (-enametoolong) := by
  cases names with
  | nil => rw [place, if_pos hlong]
  | cons name' names =>
      rw [place_cons (List.cons_ne_nil _ _), step, if_pos hlong]
      rfl

/-- The last step of a walk starts in the place. -/
theorem walk_eq_place (hnames : names ≠ []) :
    t.walk start names = (t.place start names).bind fun r => t.step r.2 r.1 := by
  induction names generalizing start with
  | nil => exact absurd rfl hnames
  | cons name names ih =>
      have hwalk : t.walk start (name :: names) =
          (t.step start name).bind fun next => t.walk next names := List.foldlM_cons
      rw [hwalk]
      cases names with
      | nil =>
          rw [place]
          by_cases hlong : nameLen < name.length
          · rw [step, if_pos hlong, if_pos hlong]
            rfl
          rw [step, if_neg hlong, if_neg hlong]
          by_cases hd : t.isDir start = false
          · rw [if_pos hd, if_pos hd]
            rfl
          rw [if_neg hd, if_neg hd]
          have hself : t.step start name =
              match t.child start name with
              | some n => .ok n
              | none => .error (-enoent) := by
            rw [step, if_neg hlong, if_neg hd]
          simp only [Except.bind, hself]
          cases t.child start name with
          | none => rfl
          | some n => rfl
      | cons name' names =>
          rw [place_cons (List.cons_ne_nil _ _)]
          cases t.step start name with
          | error e => rfl
          | ok next => exact ih (List.cons_ne_nil _ _)

theorem last_of_place {dir : Nat} (h : t.place start names = .ok (name, dir)) :
    name.length ≤ nameLen ∧ name ∈ (if names = [] then [[]] else names) := by
  induction names generalizing start with
  | nil =>
      obtain ⟨rfl, rfl⟩ := Prod.mk.inj (Except.ok.inj h)
      exact ⟨Nat.zero_le _, List.mem_cons_self⟩
  | cons first names ih =>
      rw [if_neg (List.cons_ne_nil _ _)]
      by_cases hnil : names = []
      · subst hnil
        rw [place] at h
        by_cases hlong : nameLen < first.length
        · rw [if_pos hlong] at h
          cases h
        rw [if_neg hlong] at h
        split at h
        · cases h
        · obtain ⟨rfl, -⟩ := Prod.mk.inj (Except.ok.inj h)
          exact ⟨not_lt.mp hlong, List.mem_cons_self⟩
      · rw [place_cons hnil] at h
        cases hstep : t.step start first with
        | error e =>
            rw [hstep] at h
            cases h
        | ok next =>
            rw [hstep] at h
            obtain ⟨hlen, hmem⟩ := ih h
            rw [if_neg hnil] at hmem
            exact ⟨hlen, List.mem_cons_of_mem _ hmem⟩

end Tree

/-- The names that `open_namev` looks up: a path without components stands for the empty name. -/
def openNames (path : List UInt8) : List (List UInt8) :=
  if components path = [] then [[]] else components path

theorem walk_openNames (t : Tree) (start : Nat) (path : List UInt8) :
    t.walk start (openNames path) =
      (t.place start (components path)).bind fun r => t.step r.2 r.1 := by
  rw [openNames]
  by_cases hnil : components path = []
  · rw [if_pos hnil, hnil]
    cases hstep : t.step start [] with
    | error e => simp [Tree.walk, Tree.place, hstep, Except.bind, bind]
    | ok n => simp [Tree.walk, Tree.place, hstep, Except.bind, bind, pure, Except.pure]
  · rw [if_neg hnil, Tree.walk_eq_place hnil]

/-! ### References along a walk -/

/-- The reference that a vnode comes with. -/
def heldBy : Except Int Nat → Multiset Nat
  | .ok n => {n}
  | .error _ => 0

/-- The operations work on the tree `t`, for names that are `fit` and walks that start from a
`base`. `I refs s` says of a state that someone has the references `refs` there, with whatever
others there are. -/
structure Walks {ε σ : Type} (ops : VnodeOps ε σ) (t : Tree) (fit : List UInt8 → Prop)
    (base : Nat → Prop) (I : Multiset Nat → σ → Prop) : Prop where
  isDir : ∀ {refs s d}, I refs s → d ∈ refs → ops.isDir d s = t.isDir d
  vref : ∀ {refs s v}, I refs s → base v → wp (ops.vref v) (fun _ s' => I (v ::ₘ refs) s') s
  vput : ∀ {refs s v}, I (v ::ₘ refs) s → wp (ops.vput v) (fun _ s' => I refs s') s
  lookup : ∀ {refs s d name}, I refs s → d ∈ refs → t.isDir d = true → fit name →
    wp (ops.lookup d name) (fun r s' => (r = match t.child d name with
      | some n => .ok n
      | none => .error (-enoent)) ∧ I (heldBy r + refs) s') s

namespace Walks

variable {ε σ : Type} {ops : VnodeOps ε σ} {fit : List UInt8 → Prop} {base : Nat → Prop}
  {I : Multiset Nat → σ → Prop} {refs : Multiset Nat} {s : σ} {dir root cwd : Nat}

/-- One look-up takes one step. -/
theorem wp_lookup (h : Walks ops t fit base I) (hI : I refs s) (hdir : dir ∈ refs)
    (hlen : name.length ≤ nameLen) (hfit : fit name) :
    wp (Vfs.lookup ops dir name) (fun r s' => r = t.step dir name ∧ I (heldBy r + refs) s') s := by
  rw [Vfs.lookup, wp_bind, wp_get, h.isDir hI hdir, Tree.step, if_neg (not_lt.mpr hlen)]
  by_cases hd : t.isDir dir = false
  · rw [if_pos hd, if_pos hd]
    refine wp_pure.mpr ⟨rfl, ?_⟩
    rw [heldBy, zero_add]
    exact hI
  · rw [if_neg hd, if_neg hd]
    exact h.lookup hI hdir ((Bool.not_eq_false _).mp hd) hfit

/-- The loop of `dir_namev` finds the place of the components that are left. -/
theorem wp_dirNamevFrom (h : Walks ops t fit base I) {fuel : Nat} (hI : I (dir ::ₘ refs) s)
    (hfuel : path.length ≤ fuel)
    (hfit : ∀ name ∈ components path, name.length ≤ nameLen → fit name) :
    wp (dirNamevFrom ops fuel path dir) (fun r s' => r = t.place dir (components path) ∧
      I (heldBy (r.map Prod.snd) + refs) s') s := by
  induction fuel generalizing path dir s with
  | zero =>
      have hnil : path = [] := List.length_eq_zero_iff.mp (Nat.le_zero.mp hfuel)
      subst hnil
      exact wp_pure.mpr ⟨rfl, hI⟩
  | succ fuel ih =>
      cases path with
      | nil => exact wp_pure.mpr ⟨rfl, hI⟩
      | cons c path =>
          rw [dirNamevFrom]
          by_cases hc : c = slash
          · subst hc
            rw [if_pos rfl, components_slash]
            rw [components_slash] at hfit
            exact ih hI (Nat.le_of_succ_le_succ hfuel) hfit
          rw [if_neg hc, components_cons hc]
          rw [components_cons hc] at hfit
          set name := (c :: path).takeWhile (· ≠ slash)
          set rest := (c :: path).dropWhile (· ≠ slash)
          have hrest : rest.length ≤ fuel := by
            have hlen := List.length_dropWhile_le (fun x => decide (x ≠ slash)) path
            have hdrop : rest = path.dropWhile (· ≠ slash) :=
              List.dropWhile_cons_of_pos (decide_eq_true hc)
            rw [List.length_cons] at hfuel
            rw [hdrop]
            omega
          simp only []
          by_cases hlong : nameLen < name.length
          · rw [if_pos hlong, wp_bind, Tree.place_of_long hlong]
            exact wp_mono (h.vput hI) fun _ s1 h1 => wp_pure.mpr ⟨rfl, (zero_add refs).symm ▸ h1⟩
          rw [if_neg hlong]
          have hname : fit name := hfit name List.mem_cons_self (not_lt.mp hlong)
          by_cases hlast : rest.all (· = slash) = true
          · rw [if_pos hlast, components_eq_nil_iff.mpr hlast, Tree.place, if_neg hlong, wp_bind,
              wp_get, h.isDir hI (Multiset.mem_cons_self dir refs)]
            by_cases hd : t.isDir dir = false
            · rw [if_pos hd, if_pos hd, wp_bind]
              exact wp_mono (h.vput hI) fun _ s1 h1 => wp_pure.mpr ⟨rfl, (zero_add refs).symm ▸ h1⟩
            · rw [if_neg hd, if_neg hd]
              exact wp_pure.mpr ⟨rfl, hI⟩
          · have hmore : components rest ≠ [] := mt components_eq_nil_iff.mp hlast
            rw [if_neg hlast, Tree.place_cons hmore]
            refine wp_bind_of (h.wp_lookup hI (Multiset.mem_cons_self dir refs) (not_lt.mp hlong)
              hname) ?_
            rintro r s1 ⟨rfl, h1⟩
            have hswap : heldBy (t.step dir name) + dir ::ₘ refs =
                dir ::ₘ (heldBy (t.step dir name) + refs) := Multiset.add_cons dir _ refs
            rw [hswap] at h1
            refine wp_bind_of (h.vput h1) ?_
            rintro _ s2 h2
            cases hstep : t.step dir name with
            | error e =>
                rw [hstep] at h2
                exact wp_pure.mpr ⟨rfl, h2⟩
            | ok next =>
                rw [hstep] at h2
                exact ih h2 hrest fun name' hname' => hfit name' (List.mem_cons_of_mem _ hname')

/-- **`dir_namev`** finds the place of the components of the path, and holds it. -/
theorem wp_dirNamev (h : Walks ops t fit base I) {rel : Option Nat} (hI : I refs s)
    (hpath : path.length < maxpathlen) (hstart : base (startOf root cwd path rel))
    (hfit : ∀ name ∈ components path, name.length ≤ nameLen → fit name) :
    wp (dirNamev ops root cwd path rel) (fun r s' =>
      r = t.place (startOf root cwd path rel) (components path) ∧
        I (heldBy (r.map Prod.snd) + refs) s') s := by
  rw [dirNamev, if_neg (not_le.mpr hpath), wp_bind]
  exact wp_mono (h.vref hI hstart) fun _ _ h1 => h.wp_dirNamevFrom h1 (le_refl _) hfit

/-- **`open_namev`** without `O_CREAT` looks the components of the path up one after another, and
holds what it finds. -/
theorem wp_openNamev (h : Walks ops t fit base I) {rel : Option Nat} {flag : Nat} (hI : I refs s)
    (hflag : flag &&& oCreat = 0) (hpath : path.length < maxpathlen)
    (hstart : base (startOf root cwd path rel))
    (hfit : ∀ name ∈ openNames path, name.length ≤ nameLen → fit name) :
    wp (openNamev ops root cwd path flag rel) (fun r s' =>
      r = t.walk (startOf root cwd path rel) (openNames path) ∧ I (heldBy r + refs) s') s := by
  have hfit' : ∀ name ∈ components path, name.length ≤ nameLen → fit name := by
    intro name hname
    refine hfit name ?_
    rw [openNames, if_neg (List.ne_nil_of_mem hname)]
    exact hname
  rw [openNamev, walk_openNames]
  refine wp_bind_of (h.wp_dirNamev hI hpath hstart hfit') ?_
  rintro r s1 ⟨rfl, h1⟩
  cases hplace : t.place (startOf root cwd path rel) (components path) with
  | error e =>
      rw [hplace] at h1
      exact wp_pure.mpr ⟨rfl, h1⟩
  | ok r =>
      obtain ⟨name, dir⟩ := r
      obtain ⟨hlen, hmem⟩ := Tree.last_of_place hplace
      rw [hplace] at h1
      have hdir : dir ∈ heldBy (.ok dir) + refs := Multiset.mem_add.mpr (Or.inl List.mem_cons_self)
      refine wp_bind_of (h.wp_lookup h1 hdir hlen (hfit name hmem hlen)) ?_
      rintro r s2 ⟨rfl, h2⟩
      have hswap : heldBy (t.step dir name) +
          (heldBy ((Except.ok (name, dir)).map Prod.snd) + refs) =
          dir ::ₘ (heldBy (t.step dir name) + refs) := Multiset.add_cons dir _ refs
      have hgoal : (Except.ok (name, dir)).bind (fun r => t.step r.2 r.1) = t.step dir name := rfl
      rw [hgoal]
      rw [hswap] at h2
      cases hstep : t.step dir name with
      | error e =>
          rw [hstep] at h2
          simp only []
          rw [if_neg (fun hcreate => hcreate.2 hflag), wp_bind]
          exact wp_mono (h.vput h2) fun _ _ h3 => wp_pure.mpr ⟨rfl, h3⟩
      | ok n =>
          rw [hstep] at h2
          refine wp_bind_of (h.vput h2) fun _ _ h3 => wp_pure.mpr ⟨rfl, h3⟩

end Walks

end CodingSample.Vfs
