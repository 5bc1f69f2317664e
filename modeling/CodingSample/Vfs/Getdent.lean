import CodingSample.Vfs.Positions

/-!
# Reading a directory

`do_getdent` over the `readdir` of a file system, and what makes repeated calls of it enumerate a
directory: the position stands for the entries that are still to come.
-/

namespace CodingSample.Vfs

open Prog

/-- `dirent_t` -/
structure Dirent where
  dIno : Nat
  dOff : Int
  dName : List UInt8
  deriving DecidableEq

variable {ε σ α : Type}

/-- The `readdir` operation of a file system: what it returns for a vnode and an offset, and the
entry if it fills one in. -/
abbrev Readdir (ε σ : Type) : Type := Nat → Int → Prog ε σ (Int × Option Dirent)

/-- Programs over the open files and a file system. -/
abbrev VfsProg (ε σ : Type) : Type → Type := Prog (FileFault ⊕ ε) (FileState × σ)

def onFiles (m : FileProg α) : VfsProg ε σ α := fun s =>
  match m s.1 with
  | .error e => .error (.inl e)
  | .ok (a, files) => .ok (a, (files, s.2))

def onFs (m : Prog ε σ α) : VfsProg ε σ α := fun s =>
  match m s.2 with
  | .error e => .error (.inr e)
  | .ok (a, fs) => .ok (a, (s.1, fs))

theorem wp_onFiles {m : FileProg α} {Q : α → FileState × σ → Prop} {files : FileState} {fs : σ} :
    wp (onFiles m : VfsProg ε σ α) Q (files, fs) ↔
      wp m (fun a files' => Q a (files', fs)) files := by
  unfold wp onFiles
  cases h : m files with
  | error e => simp
  | ok r =>
      obtain ⟨a, t⟩ := r
      simp

theorem wp_onFs {m : Prog ε σ α} {Q : α → FileState × σ → Prop} {files : FileState} {fs : σ} :
    wp (onFs m : VfsProg ε σ α) Q (files, fs) ↔ wp m (fun a fs' => Q a (files, fs')) fs := by
  unfold wp onFs
  cases h : m fs with
  | error e => simp
  | ok r =>
      obtain ⟨a, t⟩ := r
      simp

/-- `do_getdent`: its value, and the entry in `*dirp` if one was filled in. -/
def doGetdentOn (readdir : Readdir ε σ) (fd : Int) : VfsProg ε σ (Int × Option Dirent) :=
  if ¬ (0 ≤ fd ∧ fd < nfiles) then pure (-ebadf, none)
  else do
    match ← onFiles (fget fd) with
    | none => pure (-ebadf, none)
    | some file => do
        let node ← onFiles (fVnode file)
        let s ← get
        if s.1.isDir node = false then do
          let ret ← onFiles (putReturn file (-enotdir))
          pure (ret, none)
        else do
          let r ← onFs (readdir node (s.1.files file).fPos)
          onFiles (setPos file (int32 ((s.1.files file).fPos + r.1)))
          let ret ← onFiles (putReturn file (if r.1 = 0 then r.1 else sizeofDirent))
          pure (ret, r.2)

/-- The results of the next `n` calls of `do_getdent`. -/
def getdents (readdir : Readdir ε σ) (fd : Int) : Nat → VfsProg ε σ (List (Int × Option Dirent))
  | 0 => pure []
  | n + 1 => do
      let r ← doGetdentOn readdir fd
      let rest ← getdents readdir fd n
      pure (r :: rest)

/-- What the calls return for a list of entries: each of them, and then 0 for ever. -/
def reported (entries : List Dirent) (i : Nat) : Int × Option Dirent :=
  match entries[i]? with
  | some d => (sizeofDirent, some d)
  | none => (0, none)

/-- `I pos entries` says of a file system that the entries of the directory `v` from the position
on are these; `readdir` gives them one at a time. -/
structure Enumerates (readdir : Readdir ε σ) (v : Nat) (I : Int → List Dirent → σ → Prop) :
    Prop where
  next : ∀ pos d rest fs, I pos (d :: rest) fs → wp (readdir v pos)
    (fun r fs' => 0 < r.1 ∧ pos + r.1 ≤ intMax ∧ r.2 = some d ∧ I (pos + r.1) rest fs') fs
  last : ∀ pos fs, I pos [] fs → wp (readdir v pos) (fun r fs' => r = (0, none) ∧ I pos [] fs') fs

variable {readdir : Readdir ε σ} {files : FileState} {fs : σ} {fd : Int} {p v : Nat}
  {I : Int → List Dirent → σ → Prop} {entries : List Dirent}

/-- The state after a call that moved the position. -/
def FileState.setPos (s : FileState) (p : Nat) (pos : Int) : FileState :=
  s.setFile p { s.files p with fPos := pos }

theorem opened_setPos {pos : Int} (h : Opened files fd p v) (hpos : 0 ≤ pos ∧ pos ≤ intMax) :
    Opened (files.setPos p pos) fd p v := by
  have hself : (files.setPos p pos).files p = { files.files p with fPos := pos } :=
    FileState.files_setFile_self _
  refine ⟨h.lt, h.entry, ?_, ?_, ?_, ?_, h.len, ?_⟩
  · rw [hself]
    exact h.mode
  · rw [hself]
    exact hpos
  · rw [hself]
    exact h.refcount
  · rw [hself]
    exact h.vnode
  · rw [hself]
    exact h.dir

/-- A call on an open directory, for a `readdir` that moves the position in range. -/
theorem wp_doGetdentOn {Q : Int × Option Dirent → FileState × σ → Prop} (h : Opened files fd p v)
    (hdir : files.isDir v = true)
    (hread : wp (readdir v (files.files p).fPos) (fun r fs' =>
      0 ≤ (files.files p).fPos + r.1 ∧ (files.files p).fPos + r.1 ≤ intMax ∧
        Q (if r.1 = 0 then r.1 else sizeofDirent, r.2)
          (files.setPos p ((files.files p).fPos + r.1), fs')) fs) :
    wp (doGetdentOn readdir fd) Q (files, fs) := by
  rw [doGetdentOn, if_neg (not_not.mpr h.lt), wp_bind, wp_onFiles, wp_fget h]
  simp only []
  rw [wp_bind, wp_onFiles, wp_fVnode h, wp_bind, wp_get, if_neg (by simp [isDir_holding, hdir])]
  have hself : ((files.holding p (files.files p).fPos).files p).fPos = (files.files p).fPos := by
    simp [FileState.holding]
  simp only [hself]
  rw [wp_bind, wp_onFs]
  refine wp_mono hread ?_
  rintro r fs' ⟨hlow, hhigh, hq⟩
  have hint : int32 ((files.files p).fPos + r.1) = (files.files p).fPos + r.1 :=
    int32_of_range (by omega) hhigh
  rw [hint, wp_bind, wp_onFiles, Vfs.setPos, wp_modify]
  have hstate : (files.holding p (files.files p).fPos).setFile p
      { (files.holding p (files.files p).fPos).files p with
        fPos := (files.files p).fPos + r.1 } = files.holding p ((files.files p).fPos + r.1) := by
    simp [FileState.holding]
  rw [hstate, wp_bind, wp_onFiles, wp_putReturn h, wp_pure]
  exact ⟨by omega, hq⟩

namespace Enumerates

/-- One call reports the first of the entries to come, or that there are none. -/
theorem wp_call (he : Enumerates readdir v I) (h : Opened files fd p v)
    (hdir : files.isDir v = true) (hI : I (files.files p).fPos entries fs) :
    wp (doGetdentOn readdir fd) (fun r s' => r = reported entries 0 ∧ Opened s'.1 fd p v ∧
      s'.1.isDir v = true ∧ I (s'.1.files p).fPos entries.tail s'.2) (files, fs) := by
  have hpos := h.pos
  have hself : ∀ pos, ((files.setPos p pos).files p).fPos = pos := by
    intro pos
    rw [FileState.setPos, FileState.files_setFile_self]
  refine wp_doGetdentOn h hdir ?_
  cases entries with
  | nil =>
      refine wp_mono (he.last _ fs hI) ?_
      rintro r fs' ⟨rfl, hnext⟩
      have hadd : (files.files p).fPos + 0 = (files.files p).fPos := Int.add_zero _
      refine ⟨by omega, by omega, rfl, opened_setPos h (by omega), hdir, ?_⟩
      rw [hself, hadd]
      exact hnext
  | cons d rest =>
      refine wp_mono (he.next _ d rest fs hI) ?_
      rintro ⟨ret, filled⟩ fs' ⟨hret, hmax, rfl, hnext⟩
      refine ⟨by omega, hmax, ?_, opened_setPos h (by omega), hdir, ?_⟩
      · rw [if_neg (Int.ne_of_gt hret)]
        rfl
      · rw [hself]
        exact hnext

/-- Repeated calls report each entry once, in order, and then 0 for ever. -/
theorem wp_getdents (he : Enumerates readdir v I) (h : Opened files fd p v)
    (hdir : files.isDir v = true) (hI : I (files.files p).fPos entries fs) (n : Nat) :
    wp (getdents readdir fd n)
      (fun results _ => results = (List.range n).map (reported entries)) (files, fs) := by
  induction n generalizing files fs entries with
  | zero => exact wp_pure.mpr rfl
  | succ n ih =>
      rw [getdents]
      refine wp_bind_of (he.wp_call h hdir hI) ?_
      rintro r ⟨files', fs'⟩ ⟨rfl, h', hdir', hI'⟩
      refine wp_bind_of (ih h' hdir' hI') ?_
      rintro rest s rfl
      refine wp_pure.mpr ?_
      rw [List.range_succ_eq_map, List.map_cons, List.map_map]
      congr 1
      apply List.map_congr_left
      intro i _
      cases entries <;> simp [reported]

end Enumerates

end CodingSample.Vfs
