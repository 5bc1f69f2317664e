import CodingSample.S5fs.Editing

/-!
# Writing a file

`s5_write_file`. What it writes to memory is right whatever becomes of the pages: it does not look
at what `pframe_dirty` returns.
-/

namespace CodingSample.S5fs

open Prog

/-- The value of a `uint32_t` after arithmetic that wraps around. -/
def uwrap32 (n : Int) : Nat := (ofInt32 n).toNat

/-- `memcpy` of `k` bytes from offset `pos` of a buffer of `len` bytes to offset `off` of a
page. -/
def copyToPage (ino n : Nat) (off k : Int) (bytes : Block) (pos len : Nat) : K Unit := do
  check .badAccess (0 ≤ off ∧ 0 ≤ k ∧ off + k ≤ 4096 ∧ pos + k ≤ len)
  pokePage ino n fun d => d.copyIn off.toNat k.toNat fun j => bytes (pos + j)

variable [BlockDev]

/-- The loop of `s5_write_file` over the pages between the first and the last. `pframe_get` sets
the pointer before it fills the page, so one that could not be filled is used all the same. -/
def s5WriteMiddle (ino endBlock : Nat) (seek : Int) (bytes : Block) (len : Nat) :
    Nat → Nat → K Nat
  | 0, _ => fail .badAccess
  | fuel + 1, numBytes => do
      let block := uwrap32 (seek + numBytes) / 4096
      let ret ← pframeGet ino block
      check .badAccess (0 ≤ ret)
      if block = endBlock then
        pure numBytes
      else do
        copyToPage ino block 0 4096 bytes numBytes len
        let _ ← pframeDirty ino block
        s5WriteMiddle ino endBlock seek bytes len fuel (numBytes + 4096)

/-- The part of `s5_write_file` for a write that ends in the page it starts in. -/
def s5WriteWithin (ino : Nat) (seek endPos : Int) (bytes : Block) (len : Nat) : K Unit := do
  copyToPage ino (s5DataBlock seek) (s5DataOffset seek) len bytes 0 len
  kassert (s5DataOffset seek + len = s5DataOffset endPos)
  let _ ← pframeDirty ino (s5DataBlock seek)
  let v ← getVnode ino
  setSize ino (uwrap32 (max endPos v.vnLen))

/-- The part of `s5_write_file` for a write that goes through several pages. -/
def s5WriteAcross (ino : Nat) (seek endPos : Int) (bytes : Block) (len : Nat) : K Unit := do
  let first := 4096 - s5DataOffset seek
  copyToPage ino (s5DataBlock seek) (s5DataOffset seek) first bytes 0 len
  let _ ← pframeDirty ino (s5DataBlock seek)
  let v ← getVnode ino
  setSize ino (max (uwrap32 (seek + first)) (uwrap32 v.vnLen))
  let numBytes ← s5WriteMiddle ino (s5DataBlock endPos) seek bytes len (s5MaxFileBlocks + 1)
    first.toNat
  copyToPage ino (s5DataBlock endPos) 0 (len - numBytes) bytes numBytes len
  let _ ← pframeDirty ino (s5DataBlock endPos)
  let v ← getVnode ino
  setSize ino (uwrap32 (max endPos v.vnLen))

def s5WritePages (ino : Nat) (seek endPos : Int) (bytes : Block) (len : Nat) : K Unit :=
  if s5DataBlock seek = s5DataBlock endPos then s5WriteWithin ino seek endPos bytes len
  else s5WriteAcross ino seek endPos bytes len

/-- `end_pos` -/
def s5WriteEnd (seek : Int) (len : Nat) : Int := min (uwrap32 (seek + len)) s5MaxFileSize

/-- `s5_write_file` from a buffer of `len` bytes. -/
def s5WriteFile (ino : Nat) (seek : Int) (bytes : Block) (len : Nat) : K Int := do
  let v ← getVnode ino
  let s ← get
  kassert (ofInt32 v.vnLen = UInt32.ofNat (s.inodes ino).s5Size)
  let ret ← pframeGet ino (s5DataBlock seek)
  if ret < 0 then
    pure ret
  else do
    let ret ← pframeGet ino (s5DataBlock (s5WriteEnd seek len))
    if ret < 0 then
      pure ret
    else do
      s5WritePages ino seek (s5WriteEnd seek len) bytes len
      let v ← getVnode ino
      let s ← get
      kassert (ofInt32 v.vnLen = UInt32.ofNat (s.inodes ino).s5Size)
      pure (wrap32 len)

variable {D : Multiset UInt32} {s : S5} {ino n : Nat} {v : Vnode} {bytes : Block}

omit [BlockDev] in
theorem uwrap32_of_lt {n : Nat} (hn : n < 4294967296) : uwrap32 n = n := by
  rw [uwrap32, ofInt32, UInt32.toNat_ofNat']
  omega

theorem FileHeld.assert_len (h : FileHeld D ino v s) :
    ofInt32 v.vnLen = UInt32.ofNat (s.inodes ino).s5Size := by
  have hsmall := h.small
  simp only [s5MaxFileSize] at hsmall
  rw [h.len, ofInt32]
  congr 1
  omega

omit [BlockDev] in
theorem Edited.size {size : Nat} {b : Nat → UInt8} {s' : S5} (h : Edited ino size b s s') :
    (s'.inodes ino).s5Size = size := by
  rw [h.inode]
  rfl

omit [BlockDev] in
theorem S5.FillFails.missing {r : Int} (h : s.FillFails ino n r) :
    s5MaxFileBlocks ≤ n ∨ s5NdirectBlocks ≤ n ∧ (s.inodes ino).s5IndirectBlock = 0 := by
  rcases h with ⟨hpast, -⟩ | ⟨-, ⟨hdirect, hind, -⟩ | ⟨halloc, -⟩, -⟩
  · exact Or.inl hpast
  · exact Or.inr ⟨hdirect, hind⟩
  · cases halloc

/-- A page before one that was brought in can be brought in too. -/
theorem FileHeld.not_fillFails (h : FileHeld D ino v s) {last : Nat} (hlast : last ∈ v.vnRespages)
    (hle : n ≤ last) {r : Int} : ¬ s.FillFails ino n r := by
  have hmax := ((h.inv.vnode ino v h.held.vnode).page last hlast).2.1
  intro hfails
  rcases hfails.missing with hpast | ⟨hdirect, hind⟩
  · omega
  · exact (h.reached last hlast).elim (by omega) (not_not.mpr hind)

theorem wp_copyToPage {off k pos len : Nat} (h : FileHeld D ino v s) (hpage : n ∈ v.vnRespages)
    (hoff : off + k ≤ 4096) (hlen : pos + k ≤ len) :
    wp (copyToPage ino n off k bytes pos len) (fun _ s' => ∃ v',
      Worked D ino n (fun _ => False) (s.inodes ino).s5Size
        (Block.copyIn (s.byteAt ino) (4096 * n + off) k fun j => bytes (pos + j)) v s v' s') s := by
  rw [copyToPage, wp_bind, wp_check]
  refine ⟨decide_eq_true (by omega), ?_⟩
  simp only [Int.toNat_natCast]
  exact wp_pokeFile h hpage hoff

/-- A page is written to and marked dirty. -/
theorem wp_writePage {pos len : Nat} {β : Type} {f : K β} {R : β → S5 → Prop}
    (off k : Nat) (h : FileHeld D ino v s) (hpage : n ∈ v.vnRespages) (hoff : off + k ≤ 4096)
    (hlen : pos + k ≤ len) (hf : ∀ v' s', Worked D ino n (· = n) (s.inodes ino).s5Size
      (Block.copyIn (s.byteAt ino) (4096 * n + off) k fun j => bytes (pos + j)) v s v' s' →
        wp f R s') :
    wp (copyToPage ino n off k bytes pos len >>= fun _ => pframeDirty ino n >>= fun _ => f)
      R s := by
  refine wp_bind_of (wp_copyToPage h hpage hoff hlen) ?_
  rintro _ s1 ⟨v1, hw1⟩
  refine wp_bind_of (wp_dirtyFile hw1.file (hw1.grows.pages n hpage)) ?_
  rintro _ s2 ⟨v2, hw2⟩
  have hsize : (s1.inodes ino).s5Size = (s.inodes ino).s5Size := by
    rw [hw1.edited.inode]
    rfl
  apply hf v2 s2
  rw [hsize] at hw2
  refine (hw1.trans hw2).weaken (le_of_eq (max_self n)) (fun m _ => by rw [false_or]) ?_
  intro pos hpos
  exact (hw1.edited.byteAt pos hpos).symm

theorem wp_s5WriteMiddle {endBlock seek len fuel numBytes block : Nat} (h : FileHeld D ino v s)
    (hend : endBlock ∈ v.vnRespages) (hblock : seek + numBytes = 4096 * block)
    (hle : block ≤ endBlock) (hlen : 4096 * endBlock ≤ seek + len)
    (hfuel : endBlock - block < fuel) :
    wp (s5WriteMiddle ino endBlock seek bytes len fuel numBytes) (fun r s' =>
      seek + r = 4096 * endBlock ∧ numBytes ≤ r ∧ ∃ v', Worked D ino endBlock
        (fun m => block ≤ m ∧ m < endBlock) (s.inodes ino).s5Size
        (Block.copyIn (s.byteAt ino) (seek + numBytes) (r - numBytes)
          fun j => bytes (numBytes + j)) v s v' s') s := by
  induction fuel generalizing s v numBytes block with
  | zero => exact absurd hfuel (Nat.not_lt_zero _)
  | succ fuel ih =>
      have hmax := ((h.inv.vnode ino v h.held.vnode).page endBlock hend).2.1
      simp only [s5MaxFileBlocks] at hmax
      have hpos : uwrap32 ((seek : Int) + numBytes) / 4096 = block := by
        have hcast : (seek : Int) + numBytes = ((seek + numBytes : Nat) : Int) := rfl
        rw [hcast, uwrap32_of_lt (by omega)]
        omega
      rw [s5WriteMiddle, hpos]
      refine wp_bind_of (wp_getPage h (by omega)) ?_
      rintro r s1 ⟨v1, hw1, ⟨-, -, hfails⟩ | ⟨rfl, -, hpage⟩⟩
      · exact absurd hfails (h.not_fillFails hend hle)
      rw [wp_bind, wp_check]
      refine ⟨rfl, ?_⟩
      have hsize1 : (s1.inodes ino).s5Size = (s.inodes ino).s5Size := by
        rw [hw1.edited.inode]
        rfl
      by_cases hlast : block = endBlock
      · subst hlast
        rw [if_pos rfl]
        refine wp_pure.mpr ⟨hblock, le_refl _, v1, hw1.weaken le_rfl (fun m _ => ?_) ?_⟩
        · exact iff_of_false id fun hm => absurd hm.2 (not_lt.mpr hm.1)
        · intro pos _
          rw [Nat.sub_self, Block.copyIn_zero]
      · rw [if_neg hlast]
        refine wp_writePage 0 4096 hw1.file hpage (le_refl _) (by omega) ?_
        intro v2 s2 hw2
        rw [hsize1] at hw2
        have hw := hw1.trans hw2
        have hsize2 : (s2.inodes ino).s5Size = (s.inodes ino).s5Size := by
          rw [hw.edited.inode]
          rfl
        have hnext : seek + (numBytes + 4096) = 4096 * (block + 1) := by omega
        refine wp_mono (ih hw2.file (hw.grows.pages _ hend) hnext (by omega) (by omega)) ?_
        rintro r s3 ⟨hr, hnum, v3, hw3⟩
        rw [hsize2] at hw3
        refine ⟨hr, by omega, v3, (hw.trans hw3).weaken (by omega) (fun m _ => ?_) ?_⟩
        · simp only [false_or]
          omega
        intro pos hpos
        have hsame : s2.byteAt ino pos =
            Block.copyIn (s.byteAt ino) (seek + numBytes) 4096 (fun j => bytes (numBytes + j))
              pos := by
          rw [hw.edited.byteAt pos hpos, hblock, Nat.add_zero]
          exact Block.copyIn_congr (hw1.edited.byteAt pos hpos) _ _ _
        have hsplit : r - numBytes = 4096 + (r - (numBytes + 4096)) := by omega
        rw [Block.copyIn_congr hsame, hsplit, ← Block.copyIn_copyIn]
        simp only [Nat.add_assoc]

/-- Setting the size at the end of a write. -/
theorem wp_growFile {endPos : Nat} (h : FileHeld D ino v s) (hend : endPos ≤ s5MaxFileSize)
    (top : Nat) :
    wp (getVnode ino >>= fun v => setSize ino (uwrap32 (max (endPos : Int) v.vnLen)))
      (fun _ s' => ∃ v', Worked D ino top (fun _ => False) (max (s.inodes ino).s5Size endPos)
        (s.byteAt ino) v s v' s') s := by
  have hsmall := h.small
  simp only [s5MaxFileSize] at hsmall hend
  have hsize : uwrap32 (max (endPos : Int) v.vnLen) = max (s.inodes ino).s5Size endPos := by
    rw [h.len]
    have hcast : max (endPos : Int) (s.inodes ino).s5Size =
        ((max (s.inodes ino).s5Size endPos : Nat) : Int) := by omega
    rw [hcast, uwrap32_of_lt (by omega)]
  rw [wp_bind, wp_of_eq (getVnode_apply h.held.vnode), hsize]
  exact wp_setSize h (by simp only [s5MaxFileSize]; omega) top

/-- A write of `len` bytes at position `seek`: the pages before the last one, then the last. -/
def Wrote (D : Multiset UInt32) (ino seek len : Nat) (bytes : Block) (v : Vnode) (s : S5)
    (v' : Vnode) (s' : S5) : Prop :=
  ∃ size1 bytes1 v1 s1, (seek + len) / 4096 ∈ v1.vnRespages ∧
    Worked D ino ((seek + len) / 4096) (fun n => seek / 4096 ≤ n ∧ n < (seek + len) / 4096)
      size1 bytes1 v s v1 s1 ∧
    Worked D ino ((seek + len) / 4096) (· = (seek + len) / 4096)
      (max (s.inodes ino).s5Size (seek + len)) (Block.copyIn (s.byteAt ino) seek len bytes)
      v1 s1 v' s'

theorem Wrote.worked {seek len : Nat} {v' : Vnode} {s' : S5}
    (h : Wrote D ino seek len bytes v s v' s') :
    Worked D ino ((seek + len) / 4096) (fun n => seek / 4096 ≤ n ∧ n ≤ (seek + len) / 4096)
      (max (s.inodes ino).s5Size (seek + len)) (Block.copyIn (s.byteAt ino) seek len bytes)
      v s v' s' := by
  obtain ⟨size1, bytes1, v1, s1, -, hfirst, hlast⟩ := h
  refine (hfirst.trans hlast).weaken (le_of_eq (max_self _)) (fun m _ => ?_) fun _ _ => rfl
  have hle : seek / 4096 ≤ (seek + len) / 4096 := Nat.div_le_div_right (Nat.le_add_right _ _)
  omega

/-- A write inside one page. -/
theorem wp_s5WriteWithin {seek len : Nat} (h : FileHeld D ino v s)
    (hpage : seek / 4096 ∈ v.vnRespages) (hsame : seek / 4096 = (seek + len) / 4096)
    (hend : seek + len < s5MaxFileSize) :
    wp (s5WriteWithin ino seek ((seek + len : Nat) : Int) bytes len) (fun _ s' => ∃ v',
      Wrote D ino seek len bytes v s v' s') s := by
  have hsmall := h.small
  simp only [s5MaxFileSize] at hend hsmall
  have hfits : seek % 4096 + len < 4096 := by omega
  rw [s5WriteWithin, s5DataBlock_natCast (by omega), s5DataOffset_natCast, s5DataOffset_natCast]
  refine wp_bind_of (wp_copyToPage h hpage (le_of_lt hfits) (by omega)) ?_
  rintro _ s1 ⟨v1, hw1⟩
  rw [wp_bind, kassert, wp_check]
  refine ⟨decide_eq_true (by omega), ?_⟩
  refine wp_bind_of (wp_dirtyFile hw1.file (hw1.grows.pages _ hpage)) ?_
  rintro _ s2 ⟨v2, hw2⟩
  have hw := hw1.trans hw2
  have hsize := hw.edited.size.trans hw1.edited.size
  refine wp_mono (wp_growFile hw2.file (by simp only [s5MaxFileSize]; omega)
    ((seek + len) / 4096)) ?_
  rintro _ s3 ⟨v3, hw3⟩
  rw [hsize] at hw3
  refine ⟨v3, _, _, v, s, hsame ▸ hpage, (Worked.refl h 0).weaken ?_ (fun m _ => ?_)
    fun _ _ => rfl, (hw.trans hw3).weaken ?_ (fun m _ => ?_) ?_⟩
  · omega
  · exact iff_of_false id fun hm => by omega
  · omega
  · simp only [false_or, or_false]
    omega
  · intro pos hpos
    rw [hw.edited.byteAt pos hpos, hw1.edited.byteAt pos hpos, Nat.div_add_mod]
    simp only [Nat.zero_add]

/-- A write that goes on into later pages. -/
theorem wp_s5WriteAcross {seek len : Nat} (h : FileHeld D ino v s)
    (hpage : seek / 4096 ∈ v.vnRespages) (hlast : (seek + len) / 4096 ∈ v.vnRespages)
    (hlt : seek / 4096 < (seek + len) / 4096) (hend : seek + len < s5MaxFileSize) :
    wp (s5WriteAcross ino seek ((seek + len : Nat) : Int) bytes len) (fun _ s' => ∃ v',
      Wrote D ino seek len bytes v s v' s') s := by
  have hsmall := h.small
  simp only [s5MaxFileSize] at hend hsmall
  set first := 4096 - seek % 4096 with hfirst
  have hk : (4096 : Int) - (seek % 4096 : Nat) = (first : Nat) := by omega
  rw [s5WriteAcross, s5DataBlock_natCast (by omega), s5DataBlock_natCast (by omega),
    s5DataOffset_natCast]
  simp only [hk, Int.toNat_natCast]
  -- the first page
  refine wp_writePage (seek % 4096) first h hpage (by omega) (by omega) ?_
  intro v1 s1 hw1
  have hgrown : max (uwrap32 ((seek : Int) + first)) (uwrap32 v1.vnLen) =
      max (seek + first) (s.inodes ino).s5Size := by
    have hcast : (seek : Int) + first = ((seek + first : Nat) : Int) := rfl
    rw [hw1.file.len, hw1.edited.size, hcast, uwrap32_of_lt (by omega), uwrap32_of_lt (by omega)]
  rw [wp_bind, wp_of_eq (getVnode_apply hw1.file.held.vnode), hgrown]
  refine wp_bind_of (wp_setSize hw1.file (by simp only [s5MaxFileSize]; omega)
    (seek / 4096)) ?_
  rintro _ s2 ⟨v2, hw2⟩
  -- the pages between
  have hlast2 : (seek + len) / 4096 ∈ v2.vnRespages :=
    hw2.grows.pages _ (hw1.grows.pages _ hlast)
  have hsecond : seek + first = 4096 * (seek / 4096 + 1) := by omega
  have hlength : 4096 * ((seek + len) / 4096) ≤ seek + len := by omega
  refine wp_bind_of (wp_s5WriteMiddle hw2.file hlast2 hsecond (by omega) hlength
    (by simp only [s5MaxFileBlocks]; omega)) ?_
  rintro numBytes s3 ⟨hnum, hle, v3, hw3⟩
  -- the last page
  have hrest : (len : Int) - numBytes = ((len - numBytes : Nat) : Int) := by omega
  have hzero : (0 : Int) = ((0 : Nat) : Int) := rfl
  rw [hrest, hzero]
  refine wp_writePage 0 (len - numBytes) hw3.file (hw3.grows.pages _ hlast2) (by omega)
    (by omega) ?_
  intro v4 s4 hw4
  have hsize4 : (s4.inodes ino).s5Size = max (seek + first) (s.inodes ino).s5Size := by
    rw [hw4.edited.size, hw3.edited.size, hw2.edited.size]
  refine wp_mono (wp_growFile hw4.file (by simp only [s5MaxFileSize]; omega)
    ((seek + len) / 4096)) ?_
  rintro _ s5 ⟨v5, hw5⟩
  have hsize : max (s4.inodes ino).s5Size (seek + len) =
      max (s.inodes ino).s5Size (seek + len) := by omega
  rw [hsize] at hw5
  refine ⟨v5, _, _, v3, s3, hw3.grows.pages _ hlast2,
    ((hw1.trans hw2).trans hw3).weaken ?_ (fun m _ => ?_) fun _ _ => rfl,
    (hw4.trans hw5).weaken ?_ (fun m _ => ?_) ?_⟩
  · omega
  · simp only [or_false]
    omega
  · omega
  · simp only [or_false]
  · intro pos hpos
    have h2 : s2.byteAt ino pos = Block.copyIn (s.byteAt ino) seek first bytes pos := by
      rw [hw2.edited.byteAt pos hpos, hw1.edited.byteAt pos hpos, Nat.div_add_mod]
      simp only [Nat.zero_add]
    have h3 : s3.byteAt ino pos = Block.copyIn (s.byteAt ino) seek numBytes bytes pos := by
      have hsplit : numBytes = first + (numBytes - first) := by omega
      rw [hw3.edited.byteAt pos hpos, Block.copyIn_congr h2, Block.copyIn_copyIn, ← hsplit]
    have hplace : 4096 * ((seek + len) / 4096) + 0 = seek + numBytes := by omega
    have hsplit : len = numBytes + (len - numBytes) := by omega
    rw [hw4.edited.byteAt pos hpos, hplace, Block.copyIn_congr h3, Block.copyIn_copyIn, ← hsplit]

theorem wp_s5WritePages {seek len : Nat} (h : FileHeld D ino v s)
    (hpage : seek / 4096 ∈ v.vnRespages) (hlast : (seek + len) / 4096 ∈ v.vnRespages)
    (hend : seek + len < s5MaxFileSize) :
    wp (s5WritePages ino seek ((seek + len : Nat) : Int) bytes len) (fun _ s' => ∃ v',
      Wrote D ino seek len bytes v s v' s') s := by
  have hbound := hend
  simp only [s5MaxFileSize] at hbound
  rw [s5WritePages, s5DataBlock_natCast (by omega), s5DataBlock_natCast (by omega)]
  by_cases hsame : seek / 4096 = (seek + len) / 4096
  · rw [if_pos hsame]
    exact wp_s5WriteWithin h hpage hsame hend
  · rw [if_neg hsame]
    have hle : seek / 4096 ≤ (seek + len) / 4096 := Nat.div_le_div_right (Nat.le_add_right _ _)
    exact wp_s5WriteAcross h hpage hlast (lt_of_le_of_ne hle hsame) hend

/-- **`s5_write_file` either fails without an effect or writes all of the buffer.** -/
theorem wp_s5WriteFile {seek len : Nat} (h : FileHeld D ino v s) (hseek : seek < 2147483648)
    (hfit : seek + len < 4294967296 ∨ s5MaxFileSize ≤ seek) :
    wp (s5WriteFile ino seek bytes len) (fun r s' => ∃ v',
      r < 0 ∧ (s5MaxFileSize ≤ seek + len ∨ ¬ Reaches s ino ((seek + len) / 4096)) ∧
        (∃ top, Worked D ino top (fun _ => False) (s.inodes ino).s5Size (s.byteAt ino) v s v' s') ∨
      r = len ∧ seek + len < s5MaxFileSize ∧ Wrote D ino seek len bytes v s v' s') s := by
  rw [s5WriteFile, wp_bind, wp_of_eq (getVnode_apply h.held.vnode), wp_bind, wp_get, wp_bind,
    kassert, wp_check]
  refine ⟨decide_eq_true h.assert_len, ?_⟩
  rw [s5DataBlock_natCast hseek]
  refine wp_bind_of (wp_getPage h (by omega)) ?_
  rintro r s1 ⟨v1, hw1, ⟨hneg, -, hfails⟩ | ⟨rfl, hmax, hpage⟩⟩
  · rw [if_pos hneg]
    refine wp_pure.mpr ⟨v1, Or.inl ⟨hneg, ?_, _, hw1⟩⟩
    rcases hfails.missing with hpast | ⟨hdirect, hind⟩
    · simp only [s5MaxFileBlocks] at hpast
      exact Or.inl (by simp only [s5MaxFileSize]; omega)
    · exact Or.inr fun hreach => hreach.elim (by omega) (not_not.mpr hind)
  rw [if_neg (lt_irrefl 0)]
  simp only [s5MaxFileBlocks] at hmax
  simp only [s5MaxFileSize] at hfit
  have hsum : s5WriteEnd seek len = ((min (seek + len) 4308992 : Nat) : Int) := by
    have hcast : (seek : Int) + len = ((seek + len : Nat) : Int) := rfl
    rw [s5WriteEnd, hcast, uwrap32_of_lt (by omega)]
    simp only [s5MaxFileSize]
    omega
  rw [hsum, s5DataBlock_natCast (by omega)]
  refine wp_bind_of (wp_getPage hw1.file (by omega)) ?_
  rintro r s2 ⟨v2, hw2, hout⟩
  have hsize := hw2.edited.size.trans hw1.edited.size
  have hlook := (hw1.trans hw2).weaken (le_refl _) (fun _ _ => by rw [or_self])
    fun pos hpos => (hw1.edited.byteAt pos hpos).symm
  rw [hw1.edited.size] at hlook
  rcases hout with ⟨hneg, -, hfails⟩ | ⟨rfl, hmax2, hlast⟩
  · rw [if_pos hneg]
    refine wp_pure.mpr ⟨v2, Or.inl ⟨hneg, ?_, _, hlook⟩⟩
    by_cases hover : 4308992 ≤ seek + len
    · exact Or.inl hover
    rw [min_eq_left (by omega)] at hfails
    rcases hfails.missing with hpast | ⟨hdirect, hind⟩
    · simp only [s5MaxFileBlocks] at hpast
      omega
    · refine Or.inr fun hreach => ?_
      exact (hw1.extended.reaches hreach).elim (by omega) (not_not.mpr hind)
  rw [if_neg (lt_irrefl 0)]
  simp only [s5MaxFileBlocks] at hmax2
  have hend : min (seek + len) 4308992 = seek + len := by omega
  rw [hend] at hlast hlook ⊢
  refine wp_bind_of (wp_s5WritePages hw2.file (hw2.grows.pages _ hpage) hlast
    (by simp only [s5MaxFileSize]; omega)) ?_
  rintro _ s3 ⟨v3, size1, bytes1, v4, s4, hlast4, hfirst, hrest⟩
  rw [wp_bind, wp_of_eq (getVnode_apply hrest.file.held.vnode), wp_bind, wp_get, wp_bind, kassert,
    wp_check]
  refine ⟨decide_eq_true hrest.file.assert_len, wp_pure.mpr ⟨v3, Or.inr ⟨?_, ?_, ?_⟩⟩⟩
  · exact wrap32_of_range (by omega) (by omega)
  · simp only [s5MaxFileSize]
    omega
  · rw [hsize] at hrest
    refine ⟨size1, bytes1, v4, s4, hlast4, (hlook.trans hfirst).weaken ?_ (fun m _ => ?_)
      fun _ _ => rfl, hrest.weaken le_rfl (fun _ _ => Iff.rfl) ?_⟩
    · omega
    · simp only [false_or]
    · intro pos hpos
      exact (Block.copyIn_congr (hlook.edited.byteAt pos hpos) _ _ _).symm

/-! ### Lengths that wrap around -/

/-- A page is written to, if the buffer is long enough, and marked dirty. -/
theorem wlp_writePage {pos len : Nat} {β : Type} {f : K β} {R : β → S5 → Prop} (off k : Nat)
    (h : FileHeld D ino v s) (hpage : n ∈ v.vnRespages) (hoff : off + k ≤ 4096)
    (hf : ∀ v' s', FileHeld D ino v' s' → wlp f R s') :
    wlp (copyToPage ino n off k bytes pos len >>= fun _ => pframeDirty ino n >>= fun _ => f)
      R s := by
  rw [copyToPage, wlp_bind, wlp_bind, wlp_check]
  intro _
  refine wlp_mono (wlp_of_wp (wp_pokeFile h hpage hoff)) ?_
  rintro _ s1 ⟨v1, hw1⟩
  refine wlp_bind_of (wlp_of_wp (wp_dirtyFile hw1.file (hw1.grows.pages n hpage))) ?_
  rintro _ s2 ⟨v2, hw2⟩
  exact hf v2 s2 hw2.file

/-- The loop is past the last page and goes on until there is no page to bring in. -/
theorem wlp_s5WriteMiddle_past {endBlock seek len fuel numBytes block : Nat}
    (h : FileHeld D ino v s) (hblock : seek + numBytes = 4096 * block) (hpast : endBlock < block)
    (hmax : block ≤ s5MaxFileBlocks) :
    wlp (s5WriteMiddle ino endBlock seek bytes len fuel numBytes) (fun _ _ => False) s := by
  induction fuel generalizing s v numBytes block with
  | zero => exact wlp_fail.mpr trivial
  | succ fuel ih =>
      simp only [s5MaxFileBlocks] at hmax
      have hpos : uwrap32 ((seek : Int) + numBytes) / 4096 = block := by
        have hcast : (seek : Int) + numBytes = ((seek + numBytes : Nat) : Int) := rfl
        rw [hcast, uwrap32_of_lt (by omega)]
        omega
      rw [s5WriteMiddle, hpos]
      refine wlp_bind_of (wlp_of_wp (wp_getPage h (by omega))) ?_
      rintro r s1 ⟨v1, hw1, hout⟩
      rw [wlp_bind, wlp_check]
      intro hret
      obtain ⟨-, hlt, hpage⟩ := hout.resolve_left fun hneg =>
        absurd (of_decide_eq_true hret) (not_le.mpr hneg.1)
      rw [if_neg (Nat.ne_of_gt hpast)]
      refine wlp_writePage 0 4096 hw1.file hpage (le_refl _) ?_
      intro v2 s2 h2
      have hnext : seek + (numBytes + 4096) = 4096 * (block + 1) := by omega
      exact ih h2 hnext (by omega) hlt

/-- A write whose end position wraps around does not return, or fails at the first page. -/
theorem wlp_s5WriteFile_wraps {seek len : Nat} (h : FileHeld D ino v s)
    (hseek : seek < s5MaxFileSize) (hlen : len < 4294967296) (hwrap : 4294967296 ≤ seek + len) :
    wlp (s5WriteFile ino seek bytes len) (fun r _ => r < 0) s := by
  simp only [s5MaxFileSize] at hseek
  have hend : s5WriteEnd seek len = ((seek + len - 4294967296 : Nat) : Int) := by
    have hwrapped : uwrap32 ((seek : Int) + len) = seek + len - 4294967296 := by
      rw [uwrap32, ofInt32, UInt32.toNat_ofNat']
      omega
    rw [s5WriteEnd, hwrapped]
    simp only [s5MaxFileSize]
    omega
  set endPos := seek + len - 4294967296 with hendPos
  have hlt : endPos < seek := by omega
  rw [s5WriteFile, wlp_bind]
  apply wlp_getVnode
  intro w hw
  rw [wlp_bind, wlp_get, wlp_bind, kassert, wlp_check]
  intro _
  rw [s5DataBlock_natCast (by omega), hend, s5DataBlock_natCast (by omega)]
  refine wlp_bind_of (wlp_of_wp (wp_getPage h (by omega))) ?_
  rintro r s1 ⟨v1, hw1, hout1⟩
  split
  · exact wlp_pure.mpr ‹_›
  rename_i hneg1
  obtain ⟨-, hmax, hpage⟩ := hout1.resolve_left fun hfails => hneg1 hfails.1
  refine wlp_bind_of (wlp_of_wp (wp_getPage hw1.file (by omega))) ?_
  rintro r s2 ⟨v2, hw2, -⟩
  split
  · exact wlp_pure.mpr ‹_›
  have hpage2 := hw2.grows.pages _ hpage
  refine wlp_bind_of (?_ : wlp _ (fun _ _ => False) s2) fun _ _ hfalse => hfalse.elim
  rw [s5WritePages, s5DataBlock_natCast (by omega), s5DataBlock_natCast (by omega)]
  split
  · -- the whole buffer does not fit in the page
    rw [s5WriteWithin, s5DataOffset_natCast, copyToPage, wlp_bind, wlp_bind, wlp_check]
    intro hfits
    have hbounds := of_decide_eq_true hfits
    omega
  · set first := 4096 - seek % 4096 with hfirst
    have hk : (4096 : Int) - (seek % 4096 : Nat) = (first : Nat) := by omega
    rw [s5WriteAcross, s5DataBlock_natCast (by omega), s5DataBlock_natCast (by omega),
      s5DataOffset_natCast]
    simp only [hk, Int.toNat_natCast]
    refine wlp_writePage (seek % 4096) first hw2.file hpage2 (by omega) ?_
    intro v3 s3 h3
    have hsmall := h3.small
    rw [wlp_bind]
    apply wlp_getVnode
    intro w hw
    obtain rfl : v3 = w := Option.some.inj (h3.held.vnode.symm.trans hw)
    have hgrown : max (uwrap32 ((seek : Int) + first)) (uwrap32 v3.vnLen) ≤ s5MaxFileSize := by
      have hcast : (seek : Int) + first = ((seek + first : Nat) : Int) := rfl
      simp only [s5MaxFileSize, s5MaxFileBlocks] at hsmall hmax ⊢
      rw [h3.len, hcast, uwrap32_of_lt (by omega), uwrap32_of_lt (by omega)]
      omega
    refine wlp_bind_of (wlp_of_wp (wp_setSize h3 hgrown 0)) ?_
    rintro _ s4 ⟨v4, hw4⟩
    have hsecond : seek + first = 4096 * (seek / 4096 + 1) := by omega
    have hpast : endPos / 4096 ≤ seek / 4096 := Nat.div_le_div_right (le_of_lt hlt)
    exact wlp_bind_of (wlp_s5WriteMiddle_past hw4.file hsecond (Nat.lt_succ_of_le hpast) hmax)
      fun _ _ hfalse => hfalse.elim

end CodingSample.S5fs
