import CodingSample.S5fs.Spare

/-!
# Files as arrays of bytes

What a file is for: an array of bytes that can be read and written anywhere. Runs of
`s5_read_file` and `s5_write_file` are compared with it.
-/

namespace CodingSample.S5fs

open Prog

/-- The bytes of a file, with zeros past the end. -/
structure Contents where
  size : Nat
  byte : Nat → UInt8
  past : ∀ pos, size ≤ pos → byte pos = 0

theorem Contents.past_copyIn (f : Contents) (seek n : Nat) (bytes : Nat → UInt8) (pos : Nat)
    (hpos : max f.size (seek + n) ≤ pos) : Block.copyIn f.byte seek n bytes pos = 0 := by
  rw [Block.copyIn, if_neg (by omega)]
  exact f.past pos (by omega)

/-- The array after `n` bytes were written at a position. -/
def Contents.write (f : Contents) (seek n : Nat) (bytes : Nat → UInt8) : Contents where
  size := max f.size (seek + n)
  byte := Block.copyIn f.byte seek n bytes
  past := f.past_copyIn seek n bytes

/-- The file system has these contents for the file. -/
structure Represents (f : Contents) (ino : Nat) (s : S5) : Prop where
  size : (s.inodes ino).s5Size = f.size
  byte : ∀ pos < s5MaxFileSize, s.byteAt ino pos = f.byte pos

/-- A call on a file, with its buffer. -/
inductive FileCall where
  | write (seek : Nat) (bytes : Block) (len : Nat)
  | read (seek : Nat) (dest : Block) (len : Nat)

namespace FileCall

/-- The arguments are those of an `off_t` and a `size_t`. -/
def Typed : FileCall → Prop
  | .write seek _ len | .read seek _ len => seek < 2147483648 ∧ len < 4294967296

/-- Where the position after a read that stops at the end of the file is. -/
def endPos (size seek len : Nat) : Nat := min (seek + len) size

/-- The arguments the two functions handle, for a file of the given size. A write must not wrap
around the range of `uint32_t`. A read must not wrap around that of `off_t`, and must end in the
page it starts in or, without reaching past the end of the file, in the next one. -/
def Sound (size : Nat) : FileCall → Prop
  | .write seek _ len => s5MaxFileSize ≤ seek ∨ seek + len < 4294967296
  | .read seek _ len => size ≤ seek ∨ seek + len < 2147483648 ∧
      (endPos size seek len / 4096 = seek / 4096 ∨
        endPos size seek len / 4096 = seek / 4096 + 1 ∧ seek + len ≤ size ∧
          seek + len < s5MaxFileSize)

/-- The page a read ends in can be brought in. -/
def Filled (s : S5) (ino : Nat) : FileCall → Prop
  | .write .. => True
  | .read seek _ len => (s.inodes ino).s5Size ≤ seek ∨
      ¬ s.Lacks ino (endPos (s.inodes ino).s5Size seek len / 4096) false

structure Made (ino : Nat) (s : S5) (c : FileCall) : Prop where
  typed : c.Typed
  sound : c.Sound (s.inodes ino).s5Size
  filled : c.Filled s ino

/-- What the array of bytes says the call returns: its value and the buffer. -/
def Right (f : Contents) : FileCall → Int × Block → Prop
  | .write seek bytes len, r => r.2 = bytes ∧
      (0 ≤ r.1 → r.1 = (min len (s5MaxFileSize - seek) : Nat))
  | .read seek dest len, r => r.1 = (min len (f.size - seek) : Nat) ∧
      (∀ j < min len (f.size - seek), r.2 j = f.byte (seek + j)) ∧
      ∀ j, min len (f.size - seek) ≤ j → r.2 j = dest j

/-- The array of bytes after a call that returned `n`. -/
def after (f : Contents) (n : Int) : FileCall → Contents
  | write seek bytes _ => if n < 0 then f else f.write seek n.toNat bytes
  | read .. => f

variable [BlockDev]

def run (ino : Nat) : FileCall → K (Int × Block)
  | .write seek bytes len => s5WriteFile ino seek bytes len >>= fun n => pure (n, bytes)
  | .read seek dest len => s5ReadFile ino seek dest len

end FileCall

variable [BlockDev]

/-- `FileRun ino P s₀ f₀ s f`: calls on the file that meet `P` lead from `s₀` to `s`, and the
array of bytes from `f₀` to `f`. -/
inductive FileRun (ino : Nat) (P : S5 → FileCall → Prop) (s₀ : S5) (f₀ : Contents) :
    S5 → Contents → Prop
  | start : FileRun ino P s₀ f₀ s₀ f₀
  | call {s s' : S5} {f : Contents} {c : FileCall} {r : Int × Block} :
      FileRun ino P s₀ f₀ s f → P s c → c.run ino s = .ok (r, s') →
        FileRun ino P s₀ f₀ s' (c.after f r.1)

variable {D : Multiset UInt32} {s s' m s₀ : S5} {ino n : Nat} {v v' : Vnode} {f f₀ : Contents}

omit [BlockDev] in
theorem Represents.edited (h : Represents f ino s)
    (hedit : Edited ino (s.inodes ino).s5Size (s.byteAt ino) s s') : Represents f ino s' :=
  ⟨hedit.size.trans h.size, fun pos hpos => (hedit.byteAt pos hpos).trans (h.byte pos hpos)⟩

/-- At the end of the file there is nothing to read. -/
theorem wp_readPast {seek len : Nat} {dest : Block} (h : FileHeld D ino v s)
    (hpast : (s.inodes ino).s5Size ≤ seek) :
    wp (s5ReadFile ino seek dest len) (fun r s' => r = (0, dest) ∧ s' = s) s := by
  have hlen := h.len
  rw [s5ReadFile, wp_bind, wp_of_eq (getVnode_apply h.held.vnode), wp_bind, wp_get, wp_bind,
    kassert, wp_check]
  refine ⟨decide_eq_true h.assert_len, ?_⟩
  rw [if_pos (by omega)]
  exact wp_pure.mpr ⟨rfl, rfl⟩

omit [BlockDev] in
theorem not_lacks_of_le {last : Nat} (h : ¬ s.Lacks ino last false) (hle : n ≤ last) :
    ¬ s.Lacks ino n false := by
  rintro (⟨hn, hind, hfree⟩ | ⟨hfalse, -⟩)
  · exact h (Or.inl ⟨le_trans hn hle, hind, hfree⟩)
  · cases hfalse

/-- A page that can be reached is brought in. -/
theorem wp_getFilled (h : FileHeld D ino v s) (hmax : n < s5MaxFileBlocks)
    (hfill : ¬ s.Lacks ino n false) :
    wp (pframeGet ino n) (fun r s' => r = 0 ∧ ∃ v', n ∈ v'.vnRespages ∧
      Worked D ino n (fun _ => False) (s.inodes ino).s5Size (s.byteAt ino) v s v' s') s := by
  refine wp_mono (wp_getPage h (lt_trans hmax (by decide))) ?_
  rintro r s' ⟨v', hw, ⟨-, -, hfails⟩ | ⟨rfl, -, hpage⟩⟩
  · rcases hfails with ⟨hpast, -⟩ | ⟨-, hlacks, -⟩
    · exact absurd hmax (not_lt.mpr hpast)
    · exact absurd hlacks hfill
  · exact ⟨rfl, v', hpage, hw⟩

/-- **A read the function handles returns the bytes of the file.** -/
theorem wp_readFile {seek len : Nat} {dest : Block} (h : FileHeld D ino v s)
    (hmade : FileCall.Made ino s (.read seek dest len)) :
    wp (s5ReadFile ino seek dest len) (fun r s' =>
      r.1 = (min len ((s.inodes ino).s5Size - seek) : Nat) ∧
      (∀ j < min len ((s.inodes ino).s5Size - seek), r.2 j = s.byteAt ino (seek + j)) ∧
      (∀ j, min len ((s.inodes ino).s5Size - seek) ≤ j → r.2 j = dest j) ∧
      ∃ v' top, Worked D ino top (fun _ => False) (s.inodes ino).s5Size (s.byteAt ino) v s v' s' ∧
        (seek < (s.inodes ino).s5Size →
          Reaches s' ino (min (seek + len) (s.inodes ino).s5Size / 4096))) s := by
  obtain ⟨⟨hseek, -⟩, hsound, hfilled⟩ := hmade
  have hsmall := h.small
  have hlen := h.len
  simp only [FileCall.Sound, FileCall.Filled, FileCall.endPos] at hsound hfilled
  generalize hsize : (s.inodes ino).s5Size = size at *
  simp only [s5MaxFileSize] at hsound hsmall
  by_cases hpast : size ≤ seek
  · refine wp_mono (wp_readPast h (by rwa [hsize])) ?_
    rintro _ _ ⟨rfl, rfl⟩
    refine ⟨?_, ?_, fun _ _ => rfl, v, 0, hsize ▸ .refl h 0, fun hlt => ?_⟩
    · change (0 : Int) = _
      omega
    · intro j hj
      omega
    · omega
  obtain ⟨hend, hspan⟩ := hsound.resolve_left hpast
  have hfill := hfilled.resolve_left hpast
  have hmax : min (seek + len) size / 4096 < s5MaxFileBlocks := by
    simp only [s5MaxFileBlocks]
    omega
  have hle : seek / 4096 ≤ min (seek + len) size / 4096 := Nat.div_le_div_right (by omega)
  obtain ⟨r1, s1, hrun1, rfl, v1, hpage1, hw1⟩ :=
    wp_getFilled h (lt_of_le_of_lt hle hmax) (not_lacks_of_le hfill hle)
  obtain ⟨r2, s2, hrun2, rfl, v2, hpage2, hw2⟩ :=
    wp_getFilled hw1.file hmax fun hlacks => hfill (hw1.lacks h hlacks)
  have hw := hw1.trans hw2
  have hcount : min (seek + len) size - seek = min len (size - seek) := by omega
  refine wp_mono (wp_s5ReadFile_of_pages h.held.vnode (hsize ▸ hlen) hsize (not_le.mp hpast)
    (by omega) hend hrun1 hrun2 hw2.file.held.vnode (hw2.grows.pages _ hpage1) hpage2
    (hspan.imp_right fun hnext => ⟨hnext.1, hnext.2.1⟩)) ?_
  rintro r t ⟨hr, hbytes, hrest, rfl⟩
  rw [hcount] at hr hbytes hrest
  refine ⟨hr, ?_, hrest, v2, max (seek / 4096) (min (seek + len) size / 4096), ?_,
    fun _ => hw2.file.reached _ hpage2⟩
  · intro j hj
    rw [hbytes j hj, hw2.edited.byteAt _ (by simp only [s5MaxFileSize]; omega),
      hw1.edited.byteAt _ (by simp only [s5MaxFileSize]; omega)]
  · rw [hw1.edited.size, hsize] at hw
    refine hw.weaken le_rfl (fun m _ => by rw [or_self]) ?_
    exact fun pos hpos => (hw1.edited.byteAt pos hpos).symm

/-- One call. -/
theorem wp_fileCall (h : FileHeld D ino v s) (hrep : Represents f ino s) {c : FileCall}
    (hmade : c.Made ino s) :
    wp (c.run ino) (fun r s' => c.Right f r ∧ Represents (c.after f r.1) ino s' ∧
      ∃ v', FileHeld D ino v' s') s := by
  have hsize := hrep.size
  cases c with
  | write seek bytes len =>
      refine wp_bind_of (wp_s5WriteFile h hmade.typed.1 hmade.sound.symm) ?_
      rintro r s' ⟨v', ⟨hneg, -, top, hw⟩ | ⟨rfl, hend, hwrote⟩⟩
      · refine wp_pure.mpr ⟨⟨rfl, fun hpos => absurd hneg (not_lt.mpr hpos)⟩, ?_, v', hw.file⟩
        simp only [FileCall.after, if_pos hneg]
        exact hrep.edited hw.edited
      · have hw := hwrote.worked
        simp only [s5MaxFileSize] at hend
        refine wp_pure.mpr ⟨⟨rfl, fun _ => ?_⟩, ?_, v', hw.file⟩
        · simp only [s5MaxFileSize]
          omega
        · simp only [FileCall.after, if_neg (not_lt.mpr (Int.natCast_nonneg len)),
            Int.toNat_natCast]
          refine ⟨hw.edited.size.trans ?_, ?_⟩
          · rw [hsize]
            rfl
          · intro pos hpos
            rw [hw.edited.byteAt pos hpos]
            exact Block.copyIn_congr (hrep.byte pos hpos) _ _ _
  | read seek dest len =>
      have hsmall := h.small
      simp only [s5MaxFileSize] at hsmall
      refine wp_mono (wp_readFile h hmade) ?_
      rintro r s' ⟨hr, hbytes, hrest, v', top, hw, -⟩
      rw [hsize] at hr hbytes hrest
      refine ⟨⟨hr, ?_, hrest⟩, hrep.edited hw.edited, v', hw.file⟩
      intro j hj
      rw [hbytes j hj]
      exact hrep.byte _ (by simp only [s5MaxFileSize]; omega)

/-- One call, whatever the file holds. -/
theorem wp_fileCall_held (h : FileHeld D ino v s) {c : FileCall} (hmade : c.Made ino s) :
    wp (c.run ino) (fun _ s' => ∃ v', FileHeld D ino v' s') s := by
  cases c with
  | write seek bytes len =>
      refine wp_bind_of (wp_s5WriteFile h hmade.typed.1 hmade.sound.symm) ?_
      rintro r s' ⟨v', ⟨-, -, top, hw⟩ | ⟨-, -, hwrote⟩⟩
      · exact wp_pure.mpr ⟨v', hw.file⟩
      · exact wp_pure.mpr ⟨v', hwrote.worked.file⟩
  | read seek dest len =>
      refine wp_mono (wp_readFile h hmade) ?_
      rintro r s' ⟨-, -, -, v', top, hw, -⟩
      exact ⟨v', hw.file⟩

/-- Calls on a file keep it held. -/
theorem FileRun.fileHeld {f f₀ : Contents} {s₀ : S5} (h : FileHeld D ino v s₀)
    (hrun : FileRun ino (fun s c => c.Made ino s) s₀ f₀ s f) : ∃ v', FileHeld D ino v' s := by
  induction hrun with
  | start => exact ⟨v, h⟩
  | call _ hmade hcall ih =>
      obtain ⟨v1, h1⟩ := ih
      obtain ⟨r', s'', hres, v', hheld'⟩ := wp_fileCall_held h1 hmade
      rw [hcall] at hres
      cases hres
      exact ⟨v', hheld'⟩

theorem FileRun.represents (hrun : FileRun ino (fun s c => c.Made ino s) s₀ f₀ s f)
    (h : FileHeld D ino v s₀) (hrep : Represents f₀ ino s₀) :
    Represents f ino s ∧ ∃ v', FileHeld D ino v' s := by
  induction hrun with
  | start => exact ⟨hrep, v, h⟩
  | call _ hmade hcall ih =>
      obtain ⟨hrep1, v1, h1⟩ := ih
      obtain ⟨r, s', hrun, -, hrep', hheld'⟩ := wp_fileCall h1 hrep1 hmade
      rw [hcall] at hrun
      cases hrun
      exact ⟨hrep', hheld'⟩

/-- **A file is an array of bytes** to calls whose arguments the two functions handle: in every
state of every run such a call returns what the array says, and the file follows the array. -/
theorem file_contents (hstart : Mounted D m) (hcalls : PageRun (fun s c => c.Made s) m s₀)
    (hv : s₀.vnodes ino = some v) (hmode : v.vnMode = .reg ∨ v.vnMode = .dir)
    (hheld : v.vnNrespages < v.vnRefcount) (hlen : v.vnLen = (s₀.inodes ino).s5Size)
    (hsmall : (s₀.inodes ino).s5Size ≤ s5MaxFileSize) (hrep : Represents f₀ ino s₀)
    (hrun : FileRun ino (fun s c => c.Made ino s) s₀ f₀ s f) :
    Represents f ino s ∧ ∀ c : FileCall, c.Made ino s →
      wp (c.run ino) (fun r s' => c.Right f r ∧ Represents (c.after f r.1) ino s') s := by
  have h := hcalls.fileHeld hstart hv hmode hheld hlen hsmall
  obtain ⟨hrep', v', h'⟩ := hrun.represents h hrep
  refine ⟨hrep', fun c hmade => wp_mono (wp_fileCall h' hrep' hmade) ?_⟩
  rintro r s' ⟨hright, hafter, -⟩
  exact ⟨hright, hafter⟩

/-- A disk with a file of three blocks, none of them allocated. -/
def threeBlocks : S5 := { oneFree with inodes := fun i => ⟨12288, i, .data, 1, fun _ => 0, 0⟩ }

/-- The same disk with the file in core. -/
def threeHeld : S5 :=
  (threeBlocks.setInode 0 { threeBlocks.inodes 0 with s5Linkcount := 2 }).setVnode 0
    (some ⟨.reg, 12288, 0, 1, [], fun _ => ⟨Block.zero, false⟩⟩)

def zeros (size : Nat) : Contents := ⟨size, fun _ => 0, fun _ _ => rfl⟩

omit [BlockDev] in
theorem threeBlocks_mounted : @Mounted plainDev {7} threeBlocks := by
  refine @Mounted.mk plainDev _ _ ⟨[], ?_⟩ ⟨[], ?_⟩ (fun _ => rfl) fun _ => rfl
  · have hregion := @Ledger.region plainDev _ _ _ _ oneFree_ledger
    refine @Ledger.mk plainDev _ _ _ _ hregion ⟨by decide, .nil⟩ ?_ rfl
    simp [FreeList.listed, S5.freeList, threeBlocks, oneFree, allMapped, mapped, indirectFamily]
  · refine ⟨fun i _ => rfl, by decide, .nil, List.nodup_nil, by simp, ?_⟩
    simp [threeBlocks]

omit [BlockDev] in
theorem threeHeld_calls : @PageRun plainDev (fun s c => c.Made s) threeBlocks threeHeld :=
  @PageRun.call plainDev _ _ _ _ (.vget 0) 0 (@PageRun.start plainDev _ _) trivial rfl

omit [BlockDev] in
theorem threeHeld_represents : Represents (zeros 12288) 0 threeHeld := by
  refine ⟨rfl, ?_⟩
  intro pos _
  have hblock : threeHeld.fileBlock 0 (pos / 4096) = 0 := by
    unfold S5.fileBlock
    split
    · rfl
    · rfl
  have hcontent : threeHeld.content 0 (pos / 4096) = threeHeld.fileView 0 (pos / 4096) := rfl
  rw [S5.byteAt, hcontent, S5.fileView, if_pos hblock]
  rfl

omit [BlockDev] in
/-- A write into the second block. -/
theorem file_contents_threeBlocks :
    wp (@FileCall.run plainDev 0 (.write 5000 (fun _ => 1) 3000)) (fun r s' =>
      (FileCall.write 5000 (fun _ => 1) 3000).Right (zeros 12288) r ∧
        Represents ((FileCall.write 5000 (fun _ => 1) 3000).after (zeros 12288) r.1) 0 s')
      threeHeld := by
  refine (@file_contents plainDev _ _ _ _ _ _ _ _ threeBlocks_mounted threeHeld_calls rfl
    (Or.inl rfl) (by decide) rfl (by decide) threeHeld_represents
    (@FileRun.start plainDev _ _ _ _)).2 _ ⟨⟨by decide, by decide⟩, Or.inr (by decide), trivial⟩

omit [BlockDev] in
/-- A read of all three blocks copies the second one until the buffer is full and on past it. -/
theorem threeBlocks_overrun : @Mounted plainDev {7} threeBlocks ∧
    @PageRun plainDev (fun s c => c.Made s) threeBlocks threeHeld ∧
    Represents (zeros 12288) 0 threeHeld ∧
    (FileCall.read 0 Block.zero 12288).Filled threeHeld 0 ∧
    @FileCall.run plainDev 0 (.read 0 Block.zero 12288) threeHeld = .error .badAccess ∧
    ¬ wp (@FileCall.run plainDev 0 (.read 0 Block.zero 12288)) (fun r _ =>
      (FileCall.read 0 Block.zero 12288).Right (zeros 12288) r) threeHeld := by
  have hrun : @FileCall.run plainDev 0 (.read 0 Block.zero 12288) threeHeld =
      .error .badAccess := rfl
  refine ⟨threeBlocks_mounted, threeHeld_calls, threeHeld_represents, Or.inr (by decide), hrun, ?_⟩
  rintro ⟨r, s', hok, -⟩
  rw [hrun] at hok
  cases hok

end CodingSample.S5fs
