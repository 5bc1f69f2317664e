import CodingSample.Vfs.Files
import Mathlib.Tactic.Common

/-!
# The position of a file

A call whose vnode operation fails still adds what the operation returned to `f_pos`, and nothing
checks that a sum is less than `2 ^ 31`. Apart from these the positions are what they should be.
-/

namespace CodingSample.Vfs

open Prog

def intMax : Int := 2147483647

theorem int32_of_range {n : Int} (h : -2147483648 ≤ n) (h' : n ≤ intMax) : int32 n = n := by
  unfold int32
  unfold intMax at h'
  omega

theorem int32_le (n : Int) : int32 n ≤ intMax := by
  unfold int32 intMax
  omega

inductive FileCall where
  | read (fd : Int) (op : Outcome)
  | write (fd : Int) (op : Outcome)
  | getdent (fd : Int) (op : Outcome)
  | lseek (fd offset whence : Int)

namespace FileCall

def run : FileCall → FileProg Int
  | read fd op => doRead fd op
  | write fd op => doWrite fd op
  | getdent fd op => doGetdent fd op
  | lseek fd offset whence => doLseek fd offset whence

def fd : FileCall → Int
  | read fd _ | write fd _ | getdent fd _ | lseek fd _ _ => fd

end FileCall

/-- What an operation may return: an `int`, and a length that is one too. -/
structure Outcome.Legal (o : Outcome) : Prop where
  ret : -2147483648 ≤ o.ret ∧ o.ret ≤ intMax
  len : 0 ≤ o.len ∧ o.len ≤ intMax

def FileCall.Legal : FileCall → Prop
  | read _ op | write _ op | getdent _ op => op.Legal
  | lseek _ offset _ => -2147483648 ≤ offset ∧ offset ≤ intMax

/-- An open file. `do_open` opens a directory for reading only. -/
structure Opened (s : FileState) (fd : Int) (p v : Nat) : Prop where
  lt : 0 ≤ fd ∧ fd < nfiles
  entry : s.pFiles fd = some p
  mode : (s.files p).fMode < 8
  pos : 0 ≤ (s.files p).fPos ∧ (s.files p).fPos ≤ intMax
  refcount : 0 < (s.files p).fRefcount
  vnode : (s.files p).fVnode = some v
  len : 0 ≤ s.vnLen v ∧ s.vnLen v ≤ intMax
  dir : s.isDir v = true →
    fmodeIsread (s.files p).fMode = true ∧ fmodeIswrite (s.files p).fMode = false

/-- Every descriptor that is in use leads to an open file. -/
def Valid (s : FileState) : Prop :=
  ∀ fd p, 0 ≤ fd ∧ fd < nfiles → s.pFiles fd = some p → ∃ v, Opened s fd p v

/-- The state after a call has moved the position of one file. -/
def FileState.moved (s : FileState) (p : Nat) (pos : Int) (v : Nat) (len : Int) : FileState :=
  { s with
    files := Function.update s.files p ({ s.files p with fPos := pos })
    vnLen := Function.update s.vnLen v len }

section Steps

variable {s : FileState} {fd : Int} {p v : Nat} {pos : Int}

/-- The state with one more reference to a file, whose position may have moved. -/
def FileState.holding (s : FileState) (p : Nat) (pos : Int) : FileState :=
  s.setFile p { s.files p with fPos := pos, fRefcount := (s.files p).fRefcount + 1 }

@[simp] theorem FileState.files_setFile_self (f : File) : (s.setFile p f).files p = f :=
  Function.update_self ..

@[simp] theorem FileState.setFile_setFile (f f' : File) :
    (s.setFile p f).setFile p f' = s.setFile p f' := by
  simp [setFile]

theorem wp_fget {Q : Option Nat → FileState → Prop} (h : Opened s fd p v) :
    wp (fget fd) Q s ↔ Q (some p) (s.holding p (s.files p).fPos) := by
  have hlt : ¬ (fd < 0 ∨ nfiles ≤ fd) := by
    have hlt := h.lt
    omega
  have hpos : -1 ≤ (s.files p).fPos := by
    have hpos := h.pos
    omega
  unfold fget fref kassert
  rw [wp_bind, wp_get, if_neg hlt, h.entry]
  simp only [wp_bind, wp_get, wp_check, wp_modify, wp_pure, decide_eq_true_iff]
  have hvnode : (s.files p).fVnode ≠ none := by
    rw [h.vnode]
    exact Option.some_ne_none v
  constructor
  · exact fun hq => hq.2.2.2.2
  · exact fun hq => ⟨h.mode, hpos, Int.le_of_lt h.refcount, .inr hvnode, hq⟩

theorem wp_fget_closed {Q : Option Nat → FileState → Prop}
    (h : ¬ (0 ≤ fd ∧ fd < nfiles) ∨ s.pFiles fd = none) : wp (fget fd) Q s ↔ Q none s := by
  unfold fget
  rw [wp_bind, wp_get]
  by_cases hlt : fd < 0 ∨ nfiles ≤ fd
  · rw [if_pos hlt, wp_pure]
  · rw [if_neg hlt, h.resolve_left (by simp only [nfiles] at *; omega)]
    exact wp_pure

/-- The reference is given back, if the position is one that `fput` takes. -/
theorem wp_putReturn {Q : Int → FileState → Prop} {ret : Int} (h : Opened s fd p v) :
    wp (putReturn p ret) Q (s.holding p pos) ↔
      -1 ≤ pos ∧ Q ret (s.setFile p { s.files p with fPos := pos }) := by
  have hne : ¬ (s.files p).fRefcount + 1 = 1 := by
    have hpos := h.refcount
    omega
  have hlt : 0 < (s.files p).fRefcount + 1 := by
    have hpos := h.refcount
    omega
  have hvnode : (s.files p).fVnode ≠ none := by
    rw [h.vnode]
    exact Option.some_ne_none v
  unfold putReturn fput kassert FileState.holding
  simp only [wp_bind, wp_get, wp_check, decide_eq_true_iff, FileState.files_setFile_self,
    if_neg hne, wp_modify, wp_pure, FileState.setFile_setFile, Int.add_sub_cancel]
  constructor
  · exact fun hq => ⟨hq.2.1, hq.2.2.2.2⟩
  · exact fun hq => ⟨h.mode, hq.1, hlt, .inr hvnode, hq.2⟩

theorem FileState.setFile_self : s.setFile p (s.files p) = s := by
  simp [setFile]

/-- A call that cannot be made gives the reference back. -/
theorem wp_putReturn_same {Q : Int → FileState → Prop} {ret : Int} (h : Opened s fd p v) :
    wp (putReturn p ret) Q (s.holding p (s.files p).fPos) ↔ Q ret s := by
  have hpos := h.pos
  rw [wp_putReturn h, FileState.setFile_self]
  constructor
  · exact fun hq => hq.2
  · exact fun hq => ⟨by omega, hq⟩

/-- The operation of the vnode moves the position. -/
theorem wp_advance {Q : Int → FileState → Prop} {ret : Int} {o : Outcome} (h : Opened s fd p v)
    (ho : o.Legal) :
    wp (advance p v o >>= fun _ => putReturn p ret) Q (s.holding p pos) ↔
      -1 ≤ int32 (pos + o.ret) ∧ Q ret (s.moved p (int32 (pos + o.ret)) v o.len) := by
  let t : FileState := { s with vnLen := Function.update s.vnLen v o.len }
  have ht : Opened t fd p v := by
    refine ⟨h.lt, h.entry, h.mode, h.pos, h.refcount, h.vnode, ?_, h.dir⟩
    change 0 ≤ Function.update s.vnLen v o.len v ∧ Function.update s.vnLen v o.len v ≤ intMax
    rw [Function.update_self]
    exact ho.len
  unfold advance setPos
  simp only [wp_bind, wp_modify, wp_get]
  have hput : wp (putReturn p ret) Q (t.holding p (int32 (pos + o.ret))) ↔ _ := wp_putReturn ht
  have hstate : t.holding p (int32 (pos + o.ret)) = FileState.setFile
      { s.holding p pos with vnLen := Function.update (s.holding p pos).vnLen v o.len } p
      { (s.holding p pos).files p with
        fPos := int32 (((s.holding p pos).files p).fPos + o.ret) } := by
    simp [FileState.holding, FileState.setFile, t]
  rw [hstate] at hput
  exact hput

end Steps

/-! ### What the calls do -/

/-- The call returns an error and nothing has happened. -/
def Refuses (s : FileState) (c : FileCall) (e : Int) : Prop :=
  ∀ Q : Int → FileState → Prop, wp c.run Q s ↔ Q e s

/-- The call sets a position, and returns if `fput` takes it. -/
def Moves (s : FileState) (c : FileCall) (p v : Nat) (pos len ret : Int) : Prop :=
  ∀ Q : Int → FileState → Prop, wp c.run Q s ↔ -1 ≤ pos ∧ Q ret (s.moved p pos v len)

section Calls

variable {s : FileState} {fd : Int} {p v : Nat} {pos : Int} {o : Outcome}

/-- A descriptor that is not open. -/
def Closed (s : FileState) (fd : Int) : Prop := ¬ (0 ≤ fd ∧ fd < nfiles) ∨ s.pFiles fd = none

theorem closed_or_opened (h : Valid s) (fd : Int) : Closed s fd ∨ ∃ p v, Opened s fd p v := by
  by_cases hlt : 0 ≤ fd ∧ fd < nfiles
  · cases hentry : s.pFiles fd with
    | none => exact .inl (.inr hentry)
    | some p =>
        obtain ⟨v, hv⟩ := h fd p hlt hentry
        exact .inr ⟨p, v, hv⟩
  · exact .inl (.inl hlt)

theorem wp_withFile_closed {Q : Int → FileState → Prop} {body : Nat → FileProg Int}
    (h : Closed s fd) : wp (withFile fd body) Q s ↔ Q (-9) s := by
  unfold withFile
  by_cases hlt : ¬ (0 ≤ fd ∧ fd < nfiles)
  · rw [if_pos hlt]
    exact wp_pure
  · rw [if_neg hlt, wp_bind, wp_fget_closed h]
    exact wp_pure

theorem wp_withFile {Q : Int → FileState → Prop} {body : Nat → FileProg Int}
    (h : Opened s fd p v) :
    wp (withFile fd body) Q s ↔ wp (body p) Q (s.holding p (s.files p).fPos) := by
  unfold withFile
  rw [if_neg (not_not.mpr h.lt), wp_bind, wp_fget h]

theorem refuses_closed {c : FileCall} (h : Closed s c.fd) : Refuses s c (-9) := by
  intro Q
  cases c with
  | read fd op => exact wp_withFile_closed h
  | write fd op => exact wp_withFile_closed h
  | getdent fd op => exact wp_withFile_closed h
  | lseek fd offset whence => exact wp_withFile_closed h

theorem wp_fVnode {Q : Nat → FileState → Prop} (h : Opened s fd p v) :
    wp (fVnode p) Q (s.holding p pos) ↔ Q v (s.holding p pos) := by
  unfold fVnode
  have hv : ((s.holding p pos).files p).fVnode = some v := by
    simp [FileState.holding, h.vnode]
  rw [wp_bind, wp_get, hv]
  exact wp_pure

theorem isDir_holding : (s.holding p pos).isDir v = s.isDir v := rfl

@[simp] theorem fMode_holding : ((s.holding p pos).files p).fMode = (s.files p).fMode := by
  simp [FileState.holding]

theorem read_cases (h : Opened s fd p v) (ho : o.Legal) :
    (∃ e, e < 0 ∧ Refuses s (.read fd o) e ∧
      (s.isDir v = false → fmodeIsread (s.files p).fMode = false)) ∨
      s.isDir v = false ∧ fmodeIsread (s.files p).fMode = true ∧
        Moves s (.read fd o) p v (int32 ((s.files p).fPos + o.ret)) o.len o.ret := by
  have hrun : ∀ Q, wp (FileCall.read fd o).run Q s ↔ _ := fun Q => wp_withFile h
  simp only [wp_bind, wp_get, fMode_holding] at hrun
  by_cases hmode : fmodeIsread (s.files p).fMode = false
  · refine .inl ⟨-9, by decide, fun Q => ?_, fun _ => hmode⟩
    rw [hrun, if_pos hmode]
    exact wp_putReturn_same h
  · simp only [if_neg hmode, wp_bind, wp_fVnode h] at hrun
    cases hdir : s.isDir v with
    | true =>
        refine .inl ⟨-21, by decide, fun Q => ?_, fun hfalse => absurd hfalse (by decide)⟩
        rw [hrun, if_pos (isDir_holding.trans hdir)]
        exact wp_putReturn_same h
    | false =>
        refine .inr ⟨rfl, by simpa using hmode, fun Q => ?_⟩
        rw [hrun, if_neg (by simp [isDir_holding, hdir])]
        exact wp_advance h ho

theorem getdent_cases (h : Opened s fd p v) (ho : o.Legal) :
    (∃ e, e < 0 ∧ Refuses s (.getdent fd o) e ∧ s.isDir v = false) ∨
      s.isDir v = true ∧ Moves s (.getdent fd o) p v (int32 ((s.files p).fPos + o.ret)) o.len
        (if o.ret = 0 then o.ret else sizeofDirent) := by
  have hrun : ∀ Q, wp (FileCall.getdent fd o).run Q s ↔ _ := fun Q => wp_withFile h
  simp only [wp_bind, wp_get, wp_fVnode h] at hrun
  cases hdir : s.isDir v with
  | false =>
      refine .inl ⟨-20, by decide, fun Q => ?_, rfl⟩
      rw [hrun, if_pos (isDir_holding.trans hdir)]
      exact wp_putReturn_same h
  | true =>
      refine .inr ⟨rfl, fun Q => ?_⟩
      rw [hrun, if_neg (by simp [isDir_holding, hdir])]
      exact wp_advance h ho

/-- What a seek makes of a position: nothing, or the new position. -/
def seekResult (pos len offset whence : Int) : Option Int :=
  if whence = seekSet then if offset < 0 then none else some offset
  else if whence = seekCur then
    if pos < int32 (-offset) then none else some (int32 (pos + offset))
  else if whence = seekEnd then
    if int32 (offset + len) < 0 then none else some (int32 (len + offset))
  else none

theorem seekResult_le {pos len offset whence target : Int} (hoffset : offset ≤ intMax)
    (h : seekResult pos len offset whence = some target) : target ≤ intMax := by
  unfold seekResult at h
  split_ifs at h
  · rw [← Option.some.inj h]
    exact hoffset
  · rw [← Option.some.inj h]
    exact int32_le _
  · rw [← Option.some.inj h]
    exact int32_le _

/-- A seek leaves its target, unless it is one from the current position that overflows. -/
theorem seekResult_exact_iff {pos len offset whence target : Int} (hpos : 0 ≤ pos ∧ pos ≤ intMax)
    (hlen : 0 ≤ len ∧ len ≤ intMax) (hoffset : -2147483648 ≤ offset ∧ offset ≤ intMax)
    (h : seekResult pos len offset whence = some target) :
    (0 ≤ target ∧ (target < 0 → target = pos) ∧ (0 ≤ target → target =
      if whence = seekSet then offset else if whence = seekCur then pos + offset
      else if whence = seekEnd then len + offset else pos)) ↔
        (whence = seekCur → offset ≠ -2147483648 ∧ pos + offset ≤ intMax) := by
  unfold seekResult at h
  by_cases hset : whence = seekSet
  · have hcur : ¬ whence = seekCur := by rw [hset]; decide
    rw [if_pos hset] at h ⊢
    split at h
    · cases h
    · rename_i hneg
      have htarget := Option.some.inj h
      refine iff_of_true ?_ fun heq => absurd heq hcur
      omega
  · rw [if_neg hset] at h ⊢
    by_cases hcur : whence = seekCur
    · rw [if_pos hcur] at h ⊢
      split at h
      · cases h
      · rename_i hlow
        have htarget := Option.some.inj h
        unfold int32 at hlow htarget
        unfold intMax at *
        omega
    · rw [if_neg hcur] at h ⊢
      by_cases hend : whence = seekEnd
      · rw [if_pos hend] at h ⊢
        split at h
        · cases h
        · rename_i hlow
          have htarget := Option.some.inj h
          refine iff_of_true ?_ fun heq => absurd heq hcur
          unfold int32 at hlow htarget
          unfold intMax at *
          omega
      · rw [if_neg hend] at h
        cases h

theorem wp_seekDone {Q : Int → FileState → Prop} {target : Int} (h : Opened s fd p v) :
    wp (seekDone p target) Q (s.holding p pos) ↔
      -1 ≤ target ∧ Q target (s.setFile p { s.files p with fPos := target }) := by
  have hput : wp (putReturn p target) Q (s.holding p target) ↔ _ := wp_putReturn h
  unfold seekDone setPos
  rw [wp_bind, wp_modify]
  have hstate : (s.holding p pos).setFile p { (s.holding p pos).files p with fPos := target } =
      s.holding p target := by
    simp [FileState.holding]
  rw [hstate]
  exact hput

theorem wp_doLseek {Q : Int → FileState → Prop} {offset whence : Int} (h : Opened s fd p v) :
    wp (doLseek fd offset whence) Q s ↔
      match seekResult (s.files p).fPos (s.vnLen v) offset whence with
      | none => Q (-22) s
      | some target =>
          -1 ≤ target ∧ Q target (s.setFile p { s.files p with fPos := target }) := by
  have hrefuse : wp (putReturn p (-einval)) Q (s.holding p (s.files p).fPos) ↔ Q (-22) s :=
    wp_putReturn_same h
  have hlen : (s.holding p (s.files p).fPos).vnLen = s.vnLen := rfl
  have hpos : ((s.holding p (s.files p).fPos).files p).fPos = (s.files p).fPos := by
    simp [FileState.holding]
  unfold doLseek
  rw [wp_withFile h, wp_bind, wp_fVnode h, wp_bind, wp_get]
  simp only [hlen, hpos]
  unfold seekResult
  split_ifs
  · exact hrefuse
  · exact wp_seekDone h
  · exact hrefuse
  · exact wp_seekDone h
  · exact hrefuse
  · exact wp_seekDone h
  · exact hrefuse

theorem wp_writeAt {Q : Int → FileState → Prop} (h : Opened s fd p v) (ho : o.Legal)
    (hdir : s.isDir v = false) :
    wp (writeAt p o) Q (s.holding p pos) ↔
      -1 ≤ int32 (pos + o.ret) ∧ Q o.ret (s.moved p (int32 (pos + o.ret)) v o.len) := by
  have hkassert : (!(s.holding p pos).isDir v) = true := by
    rw [isDir_holding, hdir]
    rfl
  unfold writeAt kassert
  rw [wp_bind, wp_fVnode h, wp_bind, wp_get, wp_bind, wp_check, wp_advance h ho]
  exact and_iff_right hkassert

/-- Where a write begins. -/
def writeBase (s : FileState) (p v : Nat) : Int :=
  if fmodeIsappend (s.files p).fMode = true then s.vnLen v else (s.files p).fPos

theorem opened_holding (h : Opened s fd p v) :
    Opened (s.holding p (s.files p).fPos) fd p v := by
  have hfile : (s.holding p (s.files p).fPos).files p =
      { s.files p with fRefcount := (s.files p).fRefcount + 1 } := by
    simp [FileState.holding]
  have hrefcount := h.refcount
  refine ⟨h.lt, h.entry, ?_, ?_, ?_, ?_, h.len, ?_⟩
  · rw [hfile]
    exact h.mode
  · rw [hfile]
    exact h.pos
  · rw [hfile]
    change 0 < (s.files p).fRefcount + 1
    omega
  · rw [hfile]
    exact h.vnode
  · rw [hfile]
    exact h.dir

/-- In append mode the position is first set to the end. -/
theorem wp_append {Q : Int → FileState → Prop} (h : Opened s fd p v) :
    wp (doLseek fd 0 seekEnd) Q (s.holding p (s.files p).fPos) ↔
      Q (s.vnLen v) (s.holding p (s.vnLen v)) := by
  have hlen := h.len
  have hint : int32 (s.vnLen v) = s.vnLen v := int32_of_range (by omega) hlen.2
  have hresult : seekResult ((s.holding p (s.files p).fPos).files p).fPos
      ((s.holding p (s.files p).fPos).vnLen v) 0 seekEnd = some (s.vnLen v) := by
    have hpos : ¬ int32 (s.vnLen v) < 0 := by
      rw [hint]
      exact Int.not_lt.mpr hlen.1
    change seekResult _ (s.vnLen v) 0 seekEnd = _
    unfold seekResult
    rw [if_neg (by decide), if_neg (by decide), if_pos rfl, Int.zero_add, Int.add_zero,
      if_neg hpos, hint]
  rw [wp_doLseek (opened_holding h), hresult]
  have hstate : (s.holding p (s.files p).fPos).setFile p
      { (s.holding p (s.files p).fPos).files p with fPos := s.vnLen v } =
        s.holding p (s.vnLen v) := by
    simp [FileState.holding]
  simp only [hstate]
  constructor
  · exact fun hq => hq.2
  · exact fun hq => ⟨by omega, hq⟩

theorem write_cases (h : Opened s fd p v) (ho : o.Legal) :
    (∃ e, e < 0 ∧ Refuses s (.write fd o) e ∧ fmodeIsread (s.files p).fMode = true ∧
      fmodeIswrite (s.files p).fMode = false) ∨
      ¬ (fmodeIsread (s.files p).fMode = true ∧ fmodeIswrite (s.files p).fMode = false) ∧
        Moves s (.write fd o) p v (int32 (writeBase s p v + o.ret)) o.len o.ret := by
  have hrun : ∀ Q, wp (FileCall.write fd o).run Q s ↔ _ := fun Q => wp_withFile h
  simp only [wp_bind, wp_get, fMode_holding] at hrun
  by_cases hmode : fmodeIsread (s.files p).fMode = true ∧ fmodeIswrite (s.files p).fMode = false
  · refine .inl ⟨-9, by decide, fun Q => ?_, hmode⟩
    rw [hrun, if_pos hmode]
    exact wp_putReturn_same h
  · have hdir : s.isDir v = false := by
      rw [← Bool.not_eq_true]
      exact fun hdir => hmode (h.dir hdir)
    refine .inr ⟨hmode, fun Q => ?_⟩
    rw [hrun, if_neg hmode]
    unfold writeBase
    by_cases happend : fmodeIsappend (s.files p).fMode = true
    · rw [if_pos happend, if_pos happend, wp_bind, wp_append h, if_neg (Int.not_lt.mpr h.len.1)]
      exact wp_writeAt h ho hdir
    · rw [if_neg happend, if_neg happend]
      exact wp_writeAt h ho hdir

end Calls

/-! ### When the position is kept -/

/-- The position a call should leave: as far on as there are bytes transferred, or the target of
the seek. An operation that fails transfers none. -/
def FileCall.target (s : FileState) (p v : Nat) (ret : Int) : FileCall → Int
  | read _ _ => (s.files p).fPos + ret
  | write _ _ => writeBase s p v + ret
  | getdent _ op => (s.files p).fPos + max op.ret 0
  | lseek _ offset whence =>
      if whence = seekSet then offset
      else if whence = seekCur then (s.files p).fPos + offset
      else if whence = seekEnd then s.vnLen v + offset
      else (s.files p).fPos

/-- No position is damaged: every open file has one that is not negative, an error leaves them all
as they were, and success moves the one of the file to where it should be. -/
structure Kept (s : FileState) (c : FileCall) (ret : Int) (s' : FileState) : Prop where
  valid : Valid s'
  error : ret < 0 → ∀ p, (s'.files p).fPos = (s.files p).fPos
  moved : 0 ≤ ret → ∃ p v, Opened s c.fd p v ∧ (s'.files p).fPos = c.target s p v ret ∧
    ∀ q, q ≠ p → (s'.files q).fPos = (s.files q).fPos

/-- The operation that the call comes to succeeds and does not take the position past the largest
`int`, and a seek from the current position neither overflows nor has the smallest `int` for its
offset. An append that fails is harmless if it fails with the way back from the end. -/
def FileCall.Safe (s : FileState) : FileCall → Prop
  | read fd op => ∀ p v, Opened s fd p v → s.isDir v = false →
      fmodeIsread (s.files p).fMode = true →
        0 ≤ op.ret ∧ (s.files p).fPos + op.ret ≤ intMax
  | write fd op => ∀ p v, Opened s fd p v →
      ¬ (fmodeIsread (s.files p).fMode = true ∧ fmodeIswrite (s.files p).fMode = false) →
        0 ≤ op.ret ∧ writeBase s p v + op.ret ≤ intMax ∨
          op.ret < 0 ∧ writeBase s p v + op.ret = (s.files p).fPos
  | getdent fd op => ∀ p v, Opened s fd p v → s.isDir v = true →
      0 ≤ op.ret ∧ (s.files p).fPos + op.ret ≤ intMax
  | lseek fd offset whence => ∀ p v, Opened s fd p v → whence = seekCur →
      offset ≠ -2147483648 ∧ (s.files p).fPos + offset ≤ intMax

section Kept

variable {s : FileState} {c : FileCall} {p v : Nat} {pos len ret e : Int}

theorem Opened.unique {fd : Int} {p' v' : Nat} (h : Opened s fd p v) (h' : Opened s fd p' v') :
    p' = p ∧ v' = v := by
  have hp : p' = p := Option.some.inj (h'.entry.symm.trans h.entry)
  subst hp
  exact ⟨rfl, Option.some.inj (h'.vnode.symm.trans h.vnode)⟩

theorem wp_of_refuses (h : Valid s) (he : e < 0) (hrefuses : Refuses s c e) :
    wp c.run (Kept s c) s := by
  rw [hrefuses]
  exact ⟨h, fun _ _ => rfl, fun hret => absurd he (Int.not_lt.mpr hret)⟩

theorem files_moved_self : (s.moved p pos v len).files p = { s.files p with fPos := pos } :=
  Function.update_self ..

theorem files_moved_of_ne {q : Nat} (h : q ≠ p) : (s.moved p pos v len).files q = s.files q :=
  Function.update_of_ne h ..

theorem valid_moved (h : Valid s) (hpos : 0 ≤ pos ∧ pos ≤ intMax)
    (hlen : 0 ≤ len ∧ len ≤ intMax) : Valid (s.moved p pos v len) := by
  intro fd q hlt hentry
  obtain ⟨w, hw⟩ := h fd q hlt hentry
  have hwlen : 0 ≤ (s.moved p pos v len).vnLen w ∧ (s.moved p pos v len).vnLen w ≤ intMax := by
    change 0 ≤ Function.update s.vnLen v len w ∧ Function.update s.vnLen v len w ≤ intMax
    by_cases hwv : w = v
    · rw [hwv, Function.update_self]
      exact hlen
    · rw [Function.update_of_ne hwv]
      exact hw.len
  by_cases hq : q = p
  · subst hq
    refine ⟨w, hlt, hentry, ?_, ?_, ?_, ?_, hwlen, ?_⟩
    · rw [files_moved_self]
      exact hw.mode
    · rw [files_moved_self]
      exact hpos
    · rw [files_moved_self]
      exact hw.refcount
    · rw [files_moved_self]
      exact hw.vnode
    · rw [files_moved_self]
      exact hw.dir
  · refine ⟨w, hlt, hentry, ?_, ?_, ?_, ?_, hwlen, ?_⟩
    all_goals rw [files_moved_of_ne hq]
    · exact hw.mode
    · exact hw.pos
    · exact hw.refcount
    · exact hw.vnode
    · exact hw.dir

/-- When a call that sets a position keeps it. -/
theorem wp_of_moves (h : Valid s) (hopen : Opened s c.fd p v) (hmoves : Moves s c p v pos len ret)
    (hpos : pos ≤ intMax) (hlen : 0 ≤ len ∧ len ≤ intMax) :
    wp c.run (Kept s c) s ↔ 0 ≤ pos ∧ (ret < 0 → pos = (s.files p).fPos) ∧
      (0 ≤ ret → pos = c.target s p v ret) := by
  have hself : ((s.moved p pos v len).files p).fPos = pos := by rw [files_moved_self]
  rw [hmoves]
  constructor
  · rintro ⟨-, hkept⟩
    obtain ⟨w, hw⟩ := hkept.valid c.fd p hopen.lt hopen.entry
    refine ⟨?_, fun hret => ?_, fun hret => ?_⟩
    · rw [← hself]
      exact hw.pos.1
    · rw [← hself]
      exact hkept.error hret p
    · obtain ⟨p', v', hopen', htarget, -⟩ := hkept.moved hret
      obtain ⟨rfl, rfl⟩ := hopen.unique hopen'
      rw [← hself]
      exact htarget
  · rintro ⟨hle, herror, htarget⟩
    refine ⟨by omega, valid_moved h ⟨hle, hpos⟩ hlen, fun hret q => ?_, fun hret => ?_⟩
    · by_cases hq : q = p
      · rw [hq, hself]
        exact herror hret
      · rw [files_moved_of_ne hq]
    · refine ⟨p, v, hopen, ?_, fun q hq => ?_⟩
      · rw [hself]
        exact htarget hret
      · rw [files_moved_of_ne hq]

end Kept

theorem Opened.not_closed {s : FileState} {fd : Int} {p v : Nat} (h : Opened s fd p v) :
    ¬ Closed s fd := by
  rintro (hlt | hnone)
  · exact hlt h.lt
  · rw [h.entry] at hnone
    cases hnone

theorem safe_of_closed {s : FileState} {c : FileCall} (h : Closed s c.fd) : c.Safe s := by
  cases c with
  | read fd op => exact fun p v hopen => absurd h hopen.not_closed
  | write fd op => exact fun p v hopen => absurd h hopen.not_closed
  | getdent fd op => exact fun p v hopen => absurd h hopen.not_closed
  | lseek fd offset whence => exact fun p v hopen => absurd h hopen.not_closed

section Iff

variable {s : FileState} {fd : Int} {p v : Nat} {o : Outcome}

theorem read_kept_iff (h : Valid s) (hopen : Opened s fd p v) (ho : o.Legal) :
    wp (FileCall.read fd o).run (Kept s (.read fd o)) s ↔ (FileCall.read fd o).Safe s := by
  have hpos := hopen.pos
  have hret := ho.ret
  rcases read_cases hopen ho with ⟨e, he, hrefuses, hnot⟩ | ⟨hdir, hmode, hmoves⟩
  · refine iff_of_true (wp_of_refuses h he hrefuses) ?_
    intro p' v' hopen' hdir hmode
    obtain ⟨rfl, rfl⟩ := hopen.unique hopen'
    rw [hnot hdir] at hmode
    cases hmode
  · have hsafe : (FileCall.read fd o).Safe s ↔ 0 ≤ o.ret ∧ (s.files p).fPos + o.ret ≤ intMax := by
      constructor
      · exact fun hs => hs p v hopen hdir hmode
      · intro hs p' v' hopen' _ _
        obtain ⟨rfl, rfl⟩ := hopen.unique hopen'
        exact hs
    rw [hsafe, wp_of_moves (c := .read fd o) h hopen hmoves (int32_le _) ho.len]
    change _ ∧ _ ∧ (_ → _ = (s.files p).fPos + o.ret) ↔ _
    unfold int32
    unfold intMax at *
    omega

theorem write_kept_iff (h : Valid s) (hopen : Opened s fd p v) (ho : o.Legal) :
    wp (FileCall.write fd o).run (Kept s (.write fd o)) s ↔ (FileCall.write fd o).Safe s := by
  have hpos := hopen.pos
  have hlen := hopen.len
  have hret := ho.ret
  have hbase : 0 ≤ writeBase s p v ∧ writeBase s p v ≤ intMax := by
    unfold writeBase
    split
    · exact hlen
    · exact hpos
  rcases write_cases hopen ho with ⟨e, he, hrefuses, hread, hwrite⟩ | ⟨hmode, hmoves⟩
  · refine iff_of_true (wp_of_refuses h he hrefuses) ?_
    intro p' v' hopen' hmode
    obtain ⟨rfl, rfl⟩ := hopen.unique hopen'
    exact absurd ⟨hread, hwrite⟩ hmode
  · have hsafe : (FileCall.write fd o).Safe s ↔
        0 ≤ o.ret ∧ writeBase s p v + o.ret ≤ intMax ∨
          o.ret < 0 ∧ writeBase s p v + o.ret = (s.files p).fPos := by
      constructor
      · exact fun hs => hs p v hopen hmode
      · intro hs p' v' hopen' _
        obtain ⟨rfl, rfl⟩ := hopen.unique hopen'
        exact hs
    rw [hsafe, wp_of_moves (c := .write fd o) h hopen hmoves (int32_le _) ho.len]
    change _ ∧ _ ∧ (_ → _ = writeBase s p v + o.ret) ↔ _
    generalize writeBase s p v = base at *
    unfold int32
    unfold intMax at *
    omega

theorem getdent_kept_iff (h : Valid s) (hopen : Opened s fd p v) (ho : o.Legal) :
    wp (FileCall.getdent fd o).run (Kept s (.getdent fd o)) s ↔
      (FileCall.getdent fd o).Safe s := by
  have hpos := hopen.pos
  have hret := ho.ret
  rcases getdent_cases hopen ho with ⟨e, he, hrefuses, hdir⟩ | ⟨hdir, hmoves⟩
  · refine iff_of_true (wp_of_refuses h he hrefuses) ?_
    intro p' v' hopen' hdir'
    obtain ⟨rfl, rfl⟩ := hopen.unique hopen'
    rw [hdir] at hdir'
    cases hdir'
  · have hsafe : (FileCall.getdent fd o).Safe s ↔
        0 ≤ o.ret ∧ (s.files p).fPos + o.ret ≤ intMax := by
      constructor
      · exact fun hs => hs p v hopen hdir
      · intro hs p' v' hopen' _
        obtain ⟨rfl, rfl⟩ := hopen.unique hopen'
        exact hs
    have hok : 0 ≤ if o.ret = 0 then o.ret else sizeofDirent := by
      split
      · omega
      · decide
    rw [hsafe, wp_of_moves (c := .getdent fd o) h hopen hmoves (int32_le _) ho.len]
    change _ ∧ _ ∧ (_ → _ = (s.files p).fPos + max o.ret 0) ↔ _
    generalize (if o.ret = 0 then o.ret else sizeofDirent) = ret at *
    unfold int32
    unfold intMax at *
    omega

theorem lseek_kept_iff {offset whence : Int} (h : Valid s) (hopen : Opened s fd p v)
    (hoffset : -2147483648 ≤ offset ∧ offset ≤ intMax) :
    wp (FileCall.lseek fd offset whence).run (Kept s (.lseek fd offset whence)) s ↔
      (FileCall.lseek fd offset whence).Safe s := by
  have hpos := hopen.pos
  have hlen := hopen.len
  have hsafe : (FileCall.lseek fd offset whence).Safe s ↔
      (whence = seekCur → offset ≠ -2147483648 ∧ (s.files p).fPos + offset ≤ intMax) := by
    constructor
    · exact fun hs => hs p v hopen
    · intro hs p' v' hopen'
      obtain ⟨rfl, rfl⟩ := hopen.unique hopen'
      exact hs
  have hrun : ∀ Q, wp (FileCall.lseek fd offset whence).run Q s ↔ _ := fun Q => wp_doLseek hopen
  cases hresult : seekResult (s.files p).fPos (s.vnLen v) offset whence with
  | none =>
      simp only [hresult] at hrun
      rw [hsafe]
      refine iff_of_true (wp_of_refuses h (by decide) hrun) ?_
      rintro rfl
      unfold seekResult at hresult
      rw [if_neg (by decide), if_pos rfl] at hresult
      split at hresult
      · rename_i hlt
        unfold int32 at hlt
        unfold intMax at *
        omega
      · cases hresult
  | some target =>
      have hmoves : Moves s (.lseek fd offset whence) p v target (s.vnLen v) target := by
        intro Q
        simp only [hresult] at hrun
        rw [hrun]
        have hstate : s.moved p target v (s.vnLen v) =
            s.setFile p { s.files p with fPos := target } := by
          simp [FileState.moved, FileState.setFile]
        rw [hstate]
      have hle : target ≤ intMax := seekResult_le hoffset.2 hresult
      rw [hsafe, wp_of_moves (c := .lseek fd offset whence) h hopen hmoves hle hlen]
      exact seekResult_exact_iff hpos hlen hoffset hresult

end Iff

/-- **A call keeps the positions exactly if it is safe.** -/
theorem wp_kept_iff {s : FileState} {c : FileCall} (h : Valid s) (hlegal : c.Legal) :
    wp c.run (Kept s c) s ↔ c.Safe s := by
  rcases closed_or_opened h c.fd with hclosed | ⟨p, v, hopen⟩
  · have hrefuses := refuses_closed hclosed
    exact iff_of_true (wp_of_refuses h (by decide) hrefuses) (safe_of_closed hclosed)
  · cases c with
    | read fd op => exact read_kept_iff h hopen hlegal
    | write fd op => exact write_kept_iff h hopen hlegal
    | getdent fd op => exact getdent_kept_iff h hopen hlegal
    | lseek fd offset whence => exact lseek_kept_iff h hopen hlegal

/-- `FileRun P s₀ s`: calls that satisfy `P` lead from `s₀` to `s`. -/
inductive FileRun (P : FileState → FileCall → Prop) (s₀ : FileState) : FileState → Prop
  | start : FileRun P s₀ s₀
  | call {s s' : FileState} {c : FileCall} {r : Int} : FileRun P s₀ s → P s c →
      c.run s = .ok (r, s') → FileRun P s₀ s'

theorem FileRun.valid {s₀ s : FileState} {P : FileState → FileCall → Prop} (hrun : FileRun P s₀ s)
    (hP : ∀ s c, P s c → c.Legal ∧ c.Safe s) (h : Valid s₀) : Valid s := by
  induction hrun with
  | start => exact h
  | call _ hc hcall ih =>
      obtain ⟨hlegal, hsafe⟩ := hP _ _ hc
      have hkept := (wp_kept_iff ih hlegal).mpr hsafe
      exact ((wp_of_eq hcall).mp hkept).valid

/-- **The positions are not damaged** in a run whose calls are safe: none is negative, and the next
call of any kind passes its assertions and keeps the positions if and only if it is safe. -/
theorem positions_kept {s₀ s : FileState} (hstart : Valid s₀)
    (hrun : FileRun (fun s c => c.Legal ∧ c.Safe s) s₀ s) :
    (∀ fd p, 0 ≤ fd ∧ fd < nfiles → s.pFiles fd = some p → 0 ≤ (s.files p).fPos) ∧
      ∀ c : FileCall, c.Legal → (wp c.run (Kept s c) s ↔ c.Safe s) := by
  have h := hrun.valid (fun _ _ hc => hc) hstart
  refine ⟨fun fd p hlt hentry => ?_, fun c hlegal => wp_kept_iff h hlegal⟩
  obtain ⟨v, hv⟩ := h fd p hlt hentry
  exact hv.pos.1

/-- Descriptor `0` is open for reading at the start of a file. -/
def oneFile : FileState where
  pFiles fd := if fd = 0 then some 0 else none
  files _ := ⟨fmodeRead, 0, 1, some 0⟩
  isDir _ := false
  vnLen _ := 0

theorem oneFile_valid : Valid oneFile := by
  intro fd p hlt hentry
  have hp : fd = 0 ∧ p = 0 := by
    have hfd : (if fd = 0 then some 0 else none) = some p := hentry
    split at hfd
    · rename_i hzero
      exact ⟨hzero, (Option.some.inj hfd).symm⟩
    · cases hfd
  obtain ⟨rfl, rfl⟩ := hp
  exact ⟨0, hlt, hentry, by decide, by decide, by decide, rfl, by decide, by decide⟩

/-- A read that fails leaves a position that `fput` does not take. -/
theorem failed_read_asserts : Valid oneFile ∧ (FileCall.read 0 ⟨-5, 0⟩).Legal ∧
    (FileCall.read 0 ⟨-5, 0⟩).run oneFile = .error .kassert :=
  ⟨oneFile_valid, ⟨by decide, by decide⟩, rfl⟩

theorem positions_kept_oneFile : ∃ s, FileRun (fun s c => c.Legal ∧ c.Safe s) oneFile s ∧
    (s.files 0).fPos = 100 ∧ wp (FileCall.lseek 0 (-40) 1).run (Kept s (.lseek 0 (-40) 1)) s := by
  have hrun : FileRun (fun s c => c.Legal ∧ c.Safe s) oneFile _ :=
    FileRun.call (c := .lseek 0 100 0) .start ⟨⟨by decide, by decide⟩, by
      rintro p v - hcur
      exact absurd hcur (by decide)⟩ rfl
  refine ⟨_, hrun, rfl, ((positions_kept oneFile_valid hrun).2 (.lseek 0 (-40) 1)
    ⟨by decide, by decide⟩).mpr ?_⟩
  intro p v hopen _
  have hp : 0 = p := Option.some.inj hopen.entry
  subst hp
  exact ⟨by decide, by decide⟩

end CodingSample.Vfs
