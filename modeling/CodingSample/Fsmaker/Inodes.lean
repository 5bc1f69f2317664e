import CodingSample.Fsmaker.FreeList

/-!
# Inodes of an image

Every field of an inode is one of the 32 words of its slot in the table, or half of one. The
getters and setters are described in terms of these words.
-/

namespace CodingSample.Fsmaker

open Raise Simdisk

namespace Simfile

/-- Word `k` of inode `n`. -/
def iword (f : Simfile) (n k : Nat) : UInt32 := (f (Inode.block n)).word (Inode.base n + k)

def setIword (f : Simfile) (n k : Nat) (w : UInt32) : Simfile :=
  f.setWord (Inode.block n) (Inode.base n + k) w

def isize (f : Simfile) (n : Nat) : Nat := (f.iword n 0).toNat

def itype (f : Simfile) (n : Nat) : Nat := (f.iword n 2).toNat % 65536

def ilinks (f : Simfile) (n : Nat) : Int := Block.signed ((f.iword n 2).toNat / 65536)

/-- The type is the low half of a word and the link count the high half. -/
def setItype (f : Simfile) (n v : Nat) : Simfile := f.setIword n 2
  (UInt32.ofNat (v % 65536 + 65536 * ((f.iword n 2).toNat / 65536)))

def setIlinks (f : Simfile) (n : Nat) (v : Int) : Simfile := f.setIword n 2
  (UInt32.ofNat ((f.iword n 2).toNat % 65536 + 65536 * ((v % 65536).toNat % 65536)))

/-- The block that holds block `loc` of the file, `0` for a sparse one. -/
def blockno (f : Simfile) (n loc : Nat) : UInt32 :=
  if loc < s5NdirectBlocks then
    f.iword n (3 + loc)
  else if f.iword n 31 = 0 then
    0
  else
    (f (f.iword n 31).toNat).word (loc - s5NdirectBlocks)

/-- The byte at an offset of the file. -/
def byte (f : Simfile) (n off : Nat) : UInt8 :=
  if f.blockno n (off / 4096) = 0 then 0 else f (f.blockno n (off / 4096)).toNat (off % 4096)

variable {f : Simfile} {n m c k j : Nat} {w : UInt32}

theorem setIword_of_ne (hc : c ≠ Inode.block n) : f.setIword n k w c = f c := setWord_of_ne hc

theorem block_ne_zero (n : Nat) : Inode.block n ≠ 0 := by
  rw [Inode.block, Nat.add_comm]
  exact Nat.succ_ne_zero _

theorem setIword_zero : f.setIword n k w 0 = f 0 := setIword_of_ne (block_ne_zero n).symm

theorem iword_setIword (hk : k < 32) (hj : j < 32) :
    (f.setIword n k w).iword m j = if m = n ∧ j = k then w else f.iword m j := by
  unfold iword setIword
  rw [word_setWord]
  refine if_congr ?_ rfl rfl
  simp only [Inode.block, Inode.base, s5InodesPerBlock, s5InodeSize, s5BlockSize, s5NdirectBlocks]
  omega

theorem iword_setIword_of_ne (hk : k < 32) (hj : j < 32) (h : m ≠ n ∨ j ≠ k) :
    (f.setIword n k w).iword m j = f.iword m j := by
  rw [iword_setIword hk hj, if_neg]
  rintro ⟨rfl, rfl⟩
  simp at h

theorem itype_setItype {v : Nat} (hv : v < 65536) : (f.setItype n v).itype n = v := by
  have hw := (f.iword n 2).toNat_lt
  rw [itype, setItype, iword_setIword (by omega) (by omega), if_pos ⟨rfl, rfl⟩,
    UInt32.toNat_ofNat']
  omega

theorem itype_setIlinks {v : Int} : (f.setIlinks n v).itype n = f.itype n := by
  have hw := (f.iword n 2).toNat_lt
  rw [itype, setIlinks, iword_setIword (by omega) (by omega), if_pos ⟨rfl, rfl⟩,
    UInt32.toNat_ofNat', itype]
  omega

theorem ilinks_setIlinks {v : Int} (hv : -32768 ≤ v ∧ v < 32768) :
    (f.setIlinks n v).ilinks n = v := by
  have hw := (f.iword n 2).toNat_lt
  rw [ilinks, setIlinks, iword_setIword (by omega) (by omega), if_pos ⟨rfl, rfl⟩,
    UInt32.toNat_ofNat', Block.signed]
  split <;> omega

theorem itype_setIword_of_ne (hk : k < 32) (h : m ≠ n ∨ k ≠ 2) :
    (f.setIword n k w).itype m = f.itype m := by
  rw [itype, iword_setIword_of_ne hk (by omega) (h.imp_right Ne.symm), itype]

theorem iword_congr {f' : Simfile} (h : f' (Inode.block n) = f (Inode.block n)) :
    f'.iword n k = f.iword n k := by
  rw [iword, iword, h]

end Simfile

namespace Inode

variable {f : Simfile} {n i : Nat}

theorem getSize_apply : getSize n f = (.ok (f.isize n), f) := rfl

theorem getNextFree_apply : getNextFree n f = (.ok (f.iword n 0), f) := rfl

theorem setNextFree_apply (w : UInt32) : setNextFree n w f = (.ok (), f.setIword n 0 w) := rfl

theorem getNumber_apply : getNumber n f = (.ok (f.iword n 1), f) := rfl

theorem setNumber_apply (w : UInt32) : setNumber n w f = (.ok (), f.setIword n 1 w) := rfl

theorem setSize_apply {v : Nat} (hv : v < 4294967296) :
    setSize n v f = (.ok (), f.setIword n 0 (UInt32.ofNat v)) :=
  bind_of_ok (pack_apply hv f)

theorem getType_apply : getType n f = (.ok (f.itype n), f) := by
  rw [getType, gets_apply, Block.half_even]
  rfl

theorem setType_apply (v : Nat) : setType n v f = (.ok (), f.setItype n v) := by
  rw [setType, modify_apply, Block.setHalf_even]
  rfl

theorem getLinkCount_apply : getLinkCount n f = (.ok (f.ilinks n), f) := by
  rw [getLinkCount, gets_apply, Block.half_odd]
  rfl

theorem setLinkCount_apply {v : Int} (hv : -32768 ≤ v ∧ v < 32768) :
    setLinkCount n v f = (.ok (), f.setIlinks n v) := by
  rw [setLinkCount, if_pos hv, modify_apply, Block.setHalf_odd]
  rfl

theorem getDirectBlockno_apply (hi : i < 28) :
    getDirectBlockno n i f = (.ok (f.iword n (3 + i)), f) := by
  rw [getDirectBlockno, decide_eq_false (by simpa using hi), raiseIf_false, pure_bind_apply,
    word_apply, Simfile.iword, Nat.add_assoc]

theorem setDirectBlockno_apply (hi : i < 28) (w : UInt32) :
    setDirectBlockno n i w f = (.ok (), f.setIword n (3 + i) w) := by
  rw [setDirectBlockno, decide_eq_false (by simpa using hi), raiseIf_false, pure_bind_apply,
    setWord_apply, Simfile.setIword, Nat.add_assoc]

theorem getIndirectBlockno_apply : getIndirectBlockno n f = (.ok (f.iword n 31), f) := rfl

theorem setIndirectBlockno_apply (w : UInt32) :
    setIndirectBlockno n w f = (.ok (), f.setIword n 31 w) := rfl

theorem get_apply (hn : n < ((f 0).word 34).toNat) : Inode.get n f = (.ok n, f) := by
  rw [Inode.get, getNumInodes, bind_of_ok (word_apply _ _ f), decide_eq_false (by simpa using hn)]
  rfl

/-! ### Reading inside one block -/

theorem readBlockno_apply {loc : Nat} (hloc : loc < 1052) :
    readBlockno n loc f = (.ok (f.blockno n loc), f) := by
  unfold readBlockno Simfile.blockno
  by_cases hdirect : loc < s5NdirectBlocks
  · rw [if_pos hdirect, if_pos hdirect, getDirectBlockno_apply hdirect]
  · rw [if_neg hdirect, if_neg hdirect, bind_of_ok getIndirectBlockno_apply]
    by_cases hind : f.iword n 31 = 0
    · rw [if_pos hind, if_pos hind]
      rfl
    · rw [if_neg hind, if_neg hind, indirectRead, decide_eq_false (by simp; omega)]
      rfl

theorem readLoop_one {off len : Nat} (hlen : 0 < len) (hfit : off % 4096 + len ≤ 4096)
    (hloc : off / 4096 < 1052) : readLoop n len off len [] f =
      (.ok ((List.range len).map fun j => f.byte n (off + j)), f) := by
  have hmin : min (s5BlockSize - off % s5BlockSize) len = len := by
    rw [min_eq_right]
    simp only [s5BlockSize]
    omega
  have hdone (fuel offset : Nat) (res : List UInt8) :
      readLoop n fuel offset 0 res = pure res := by
    cases fuel <;> rfl
  have hbyte (j : Nat) (hj : j < len) : f.byte n (off + j) =
      if f.blockno n (off / 4096) = 0 then 0
      else f (f.blockno n (off / 4096)).toNat (off % 4096 + j) := by
    have hdiv : (off + j) / 4096 = off / 4096 := by omega
    have hmod : (off + j) % 4096 = off % 4096 + j := by omega
    rw [Simfile.byte, hdiv, hmod]
  obtain ⟨k, rfl⟩ := Nat.exists_eq_succ_of_ne_zero hlen.ne'
  rw [readLoop, if_pos hlen]
  simp only [hmin]
  simp only [s5BlockSize]
  rw [bind_of_ok (readBlockno_apply hloc)]
  by_cases hb : f.blockno n (off / 4096) = 0
  · have hpart : List.replicate (k + 1) (0 : UInt8) =
        (List.range (k + 1)).map fun j => f.byte n (off + j) := by
      have hconst : (List.range (k + 1)).map (fun _ => (0 : UInt8)) =
          List.replicate (k + 1) 0 := by
        rw [List.map_const', List.length_range]
      rw [← hconst]
      refine List.map_congr_left fun j hj => ?_
      rw [hbyte j (List.mem_range.mp hj), if_pos hb]
    rw [if_pos hb]
    simp only [Nat.sub_self, hdone, List.nil_append]
    rw [pure_bind_apply, pure_apply]
    exact congrArg (fun l => (Except.ok l, f)) hpart
  · have hpart : (List.range (k + 1)).map (fun j =>
        f (f.blockno n (off / 4096)).toNat (off % 4096 + j)) =
          (List.range (k + 1)).map fun j => f.byte n (off + j) := by
      refine List.map_congr_left fun j hj => ?_
      rw [hbyte j (List.mem_range.mp hj), if_neg hb]
    have hread : blockRead (f.blockno n (off / 4096)) (off % 4096) (k + 1) f =
        (.ok ((List.range (k + 1)).map fun j => f.byte n (off + j)), f) := by
      have hok : ¬ s5BlockSize < off % 4096 + (k + 1) := not_lt.mpr hfit
      rw [blockRead, decide_eq_false hok, raiseIf_false, pure_bind_apply, gets_apply, ← hpart]
    rw [if_neg hb]
    simp only [Nat.sub_self, hdone, List.nil_append]
    rw [bind_of_ok hread]
    rfl

/-- `read` of some bytes that lie in one block, before the end of the file. -/
theorem read_one {off len : Nat} (htype : IsFileType (f.itype n) = true) (hlen : 0 < len)
    (hsize : off + len ≤ f.isize n) (hmax : off + len ≤ s5MaxFileSize)
    (hfit : off % 4096 + len ≤ 4096) :
    read n off len f = (.ok ((List.range len).map fun j => f.byte n (off + j)), f) := by
  have hsizeEq : min len (min s5MaxFileSize (f.isize n) - off) = len := by omega
  have hloc : off / 4096 < 1052 := by
    simp at hmax
    omega
  rw [read, bind_of_ok getType_apply, htype]
  simp only [decide_not]
  rw [raiseIf, if_neg (by simp), pure_bind_apply, bind_of_ok getSize_apply, hsizeEq,
    readLoop_one hlen hfit hloc]

/-! ### Writing inside one block -/

/-- The file with `data` written at `off` of the block, where it fits. -/
theorem blockWrite_apply {b : UInt32} {off : Nat} {data : List UInt8}
    (h : off + data.length ≤ 4096) :
    blockWrite b off data f = (.ok (), f.write b.toNat off data) := by
  rw [blockWrite, decide_eq_false (by simpa using h)]
  rfl

theorem writeLoop_one {off : Nat} {data : List UInt8} (hdata : data ≠ [])
    (hfit : off % 4096 + data.length ≤ 4096) :
    writeLoop n data.length off data = (do
      let b ← writeBlockno n (off / 4096)
      blockWrite b (off % 4096) data
      pure (off + data.length)) := by
  obtain ⟨x, xs, rfl⟩ := List.exists_cons_of_ne_nil hdata
  have hmin : min (s5BlockSize - off % s5BlockSize) (x :: xs).length = (x :: xs).length := by
    rw [min_eq_right]
    simp only [s5BlockSize]
    omega
  have hdone (fuel offset : Nat) : writeLoop n fuel offset [] = pure offset := by
    cases fuel <;> rfl
  rw [List.length_cons, writeLoop, if_pos (by simp)]
  simp only [hmin, List.take_length, List.drop_length, hdone]
  rfl

/-- `write` of some bytes that lie in one block. -/
theorem write_one {off : Nat} {data : List UInt8} (htype : IsFileType (f.itype n) = true)
    (hmax : off + data.length ≤ s5MaxFileSize) (hdata : data ≠ [])
    (hfit : off % 4096 + data.length ≤ 4096) {b : UInt32} {f' : Simfile}
    (hblock : writeBlockno n (off / 4096) f = (.ok b, f')) :
    write n off data f = (do
      let size ← getSize n
      if size < off + data.length then setSize n (off + data.length) else pure ())
        (f'.write b.toNat (off % 4096) data) := by
  rw [write, bind_of_ok getType_apply, htype]
  simp only [decide_not]
  rw [decide_eq_false (not_lt.mpr hmax), writeLoop_one hdata hfit]
  have hloop : (do
      let b ← writeBlockno n (off / 4096)
      blockWrite b (off % 4096) data
      pure (off + data.length) : Py Nat) f =
        (.ok (off + data.length), f'.write b.toNat (off % 4096) data) := by
    rw [bind_of_ok hblock, bind_of_ok (blockWrite_apply hfit)]
    rfl
  exact bind_of_ok hloop

theorem writeBlockno_mapped {loc : Nat} (hloc : loc < 1052) (h : f.blockno n loc ≠ 0) :
    writeBlockno n loc f = (.ok (f.blockno n loc), f) := by
  unfold writeBlockno
  unfold Simfile.blockno at h ⊢
  by_cases hdirect : loc < s5NdirectBlocks
  · simp only [if_pos hdirect] at h ⊢
    rw [bind_of_ok (getDirectBlockno_apply hdirect), if_neg h]
    rfl
  · simp only [if_neg hdirect] at h ⊢
    by_cases hind : f.iword n 31 = 0
    · rw [if_pos hind] at h
      exact absurd rfl h
    · rw [if_neg hind] at h ⊢
      have hread : indirectRead (f.iword n 31) (loc - s5NdirectBlocks) f =
          (.ok ((f (f.iword n 31).toNat).word (loc - s5NdirectBlocks)), f) := by
        rw [indirectRead, decide_eq_false (by simp; omega)]
        rfl
      rw [bind_of_ok getIndirectBlockno_apply, if_neg hind, bind_of_ok hread, if_neg h]
      rfl

theorem writeBlockno_direct_new {loc : Nat} (hloc : loc < 28) (h : f.iword n (3 + loc) = 0)
    {b : UInt32} {f' : Simfile} (halloc : allocBlock f = (.ok b, f')) :
    writeBlockno n loc f = (.ok b,
      Simfile.setIword (Function.update f' b.toNat CodingSample.Block.zero) n (3 + loc) b) := by
  have hloc' : loc < s5NdirectBlocks := hloc
  rw [writeBlockno]
  simp only [if_pos hloc']
  rw [bind_of_ok (getDirectBlockno_apply hloc), if_pos h, bind_of_ok halloc, Block.zero,
    modify_bind_apply, bind_of_ok (setDirectBlockno_apply hloc b)]
  rfl

/-! ### Adding an entry to a directory -/

/-- The file with an entry appended to directory `n`, in its block `b`. -/
def withDirent (f : Simfile) (n : Nat) (b : UInt32) (size : Nat) (inode : UInt32)
    (name : List UInt8) : Simfile :=
  (((f.write b.toNat (size % 4096) (wordBytes inode)).setIword n 0 (UInt32.ofNat (size + 4))).write
    b.toNat ((size + 4) % 4096) (ljust name)).setIword n 0 (UInt32.ofNat (size + 32))

theorem checkDir_apply (htype : f.itype n = s5TypeDir) (hsize : f.isize n % 32 = 0) :
    checkDir n f = (.ok (), f) := by
  rw [checkDir, bind_of_ok getType_apply, htype, decide_eq_false (by simp), raiseIf_false,
    pure_bind_apply, bind_of_ok getSize_apply, decide_eq_false (by simpa using hsize)]
  rfl

theorem checkName_apply {name : List UInt8} (h : name.length < 28) :
    checkName name f = (.ok (), f) := by
  rw [checkName, decide_eq_false (by simpa using h)]
  rfl

/-- The name field of the entry at offset `i`. -/
def nameAt (f : Simfile) (n i : Nat) : List UInt8 :=
  (List.range 28).map fun j => f.byte n (i + 4 + j)

theorem mem_direntOffsets {size i : Nat} (hsize : size % 32 = 0) :
    i ∈ direntOffsets size ↔ i % 32 = 0 ∧ i < size := by
  unfold direntOffsets
  simp only [s5DirentSize, s5NameLen, List.mem_map, List.mem_range]
  constructor
  · rintro ⟨k, hk, rfl⟩
    omega
  · rintro ⟨h32, hlt⟩
    exact ⟨i / 32, by omega, by omega⟩

theorem read_name {size i : Nat} (htype : f.itype n = s5TypeDir) (hsize : f.isize n = size)
    (hmax : size ≤ s5MaxFileSize) (h32 : size % 32 = 0) (hi : i ∈ direntOffsets size) :
    read n (i + 4) s5NameLen f = (.ok (nameAt f n i), f) := by
  obtain ⟨hi32, hlt⟩ := (mem_direntOffsets h32).mp hi
  have hfile : IsFileType (f.itype n) = true := by
    rw [htype]
    rfl
  exact read_one hfile (by simp) (by simp; omega) (by simp at hmax ⊢; omega) (by simp; omega)

theorem makeDirentLoop_fresh {size : Nat} {name : List UInt8} (htype : f.itype n = s5TypeDir)
    (hsize : f.isize n = size) (hmax : size ≤ s5MaxFileSize) (h32 : size % 32 = 0)
    (hname : name ≠ []) {offsets : List Nat} (hsub : ∀ i ∈ offsets, i ∈ direntOffsets size)
    (hfresh : ∀ i ∈ offsets, cstr (nameAt f n i) ≠ name) :
    makeDirentLoop n name offsets none f = (.ok none, f) := by
  induction offsets with
  | nil => rfl
  | cons i rest ih =>
      have hlen : name.length ≠ 0 := fun h => hname (List.eq_nil_of_length_eq_zero h)
      rw [makeDirentLoop,
        bind_of_ok (read_name htype hsize hmax h32 (hsub i List.mem_cons_self)),
        decide_eq_false (hfresh i List.mem_cons_self), raiseIf_false, pure_bind_apply,
        if_neg hlen]
      exact ih (fun k hk => hsub k (List.mem_cons_of_mem _ hk))
        fun k hk => hfresh k (List.mem_cons_of_mem _ hk)

end Inode

namespace Simfile

variable {f : Simfile} {n m c b off k : Nat} {data : List UInt8} {w : UInt32}

theorem write_of_ne (hc : c ≠ b) : f.write b off data c = f c := Function.update_of_ne hc _ _

theorem iword_write (h : b ≠ Inode.block n) : (f.write b off data).iword n k = f.iword n k :=
  iword_congr (write_of_ne h.symm)

theorem blockno_congr {f' : Simfile} {loc : Nat} (hdirect : f'.iword n (3 + loc) = f.iword n (3 + loc))
    (hind : f'.iword n 31 = f.iword n 31)
    (hblock : f.iword n 31 ≠ 0 → f' (f.iword n 31).toNat = f (f.iword n 31).toNat) :
    f'.blockno n loc = f.blockno n loc := by
  unfold blockno
  rw [hdirect, hind]
  split
  · rfl
  split
  · rfl
  · rename_i h
    rw [hblock h]

end Simfile

namespace Inode

variable {f f' : Simfile} {n : Nat} {b : UInt32}

/-- Directory `n` keeps its entry at `size` in block `b`, which it uses for nothing else. -/
structure Holds (f : Simfile) (n size : Nat) (b : UInt32) : Prop where
  map : f.blockno n (size / 4096) = b
  ne_zero : b ≠ 0
  ne_table : b.toNat ≠ Inode.block n
  ne_indirect : f.iword n 31 ≠ 0 → b ≠ f.iword n 31
  indirect_ne : f.iword n 31 ≠ 0 → (f.iword n 31).toNat ≠ Inode.block n
  only : ∀ loc < 1052, loc ≠ size / 4096 → f.blockno n loc ≠ b
  data_ne : ∀ loc < 1052, f.blockno n loc ≠ 0 → (f.blockno n loc).toNat ≠ Inode.block n

/-- **Adding an entry.** Where the name is new and there is a block for it, `_make_dirent` writes
the entry behind the last one. -/
theorem makeDirent_append {size : Nat} {inode : UInt32} {name : List UInt8}
    (htype : f.itype n = s5TypeDir) (hsize : f.isize n = size) (hmax : size + 32 ≤ s5MaxFileSize)
    (h32 : size % 32 = 0) (hlen : name.length < 28) (hname : name ≠ [])
    (hfresh : ∀ i ∈ direntOffsets size, cstr (nameAt f n i) ≠ name)
    (hblock : writeBlockno n (size / 4096) f = (.ok b, f')) (hholds : Holds f' n size b)
    (htype' : f'.itype n = s5TypeDir) (hsize' : f'.isize n = size) :
    makeDirent n inode name f = (.ok (), withDirent f' n b size inode name) := by
  have hloc : size / 4096 < 1052 := by
    simp at hmax
    omega
  have hlit : s5MaxFileSize = 4308992 := by simp
  have hfile {t : Nat} (h : t = s5TypeDir) : IsFileType t = true := by
    rw [h]
    rfl
  have hljust : (ljust name).length = 28 := by
    simp [ljust]
    omega
  -- the inode number
  set g1 := f'.write b.toNat (size % 4096) (wordBytes inode) with hg1
  have hword1 (k : Nat) : g1.iword n k = f'.iword n k := Simfile.iword_write hholds.ne_table
  set g2 := g1.setIword n 0 (UInt32.ofNat (size + 4)) with hg2
  have hnum : write n size (wordBytes inode) f = (.ok (), g2) := by
    have hsize1 : g1.isize n = size := by rw [Simfile.isize, hword1]; exact hsize'
    rw [write_one (hfile htype) (by simp [wordBytes]; omega) (by simp [wordBytes])
      (by simp [wordBytes]; omega) hblock]
    rw [bind_of_ok getSize_apply, ← hg1, hsize1, if_pos (by simp [wordBytes])]
    exact setSize_apply (by simp [wordBytes]; omega)
  -- the name
  have htype2 : g2.itype n = s5TypeDir := by
    rw [Simfile.itype_setIword_of_ne (by omega) (Or.inr (by omega)), Simfile.itype, hword1]
    exact htype'
  have hsize2 : g2.isize n = size + 4 := by
    rw [Simfile.isize, Simfile.iword_setIword (by omega) (by omega), if_pos ⟨rfl, rfl⟩,
      UInt32.toNat_ofNat']
    omega
  have hind2 : g2.iword n 31 = f'.iword n 31 := by
    rw [Simfile.iword_setIword_of_ne (by omega) (by omega) (Or.inr (by omega)), hword1]
  have hmap2 : g2.blockno n (size / 4096) = b := by
    rw [← hholds.map]
    by_cases hdirect : size / 4096 < s5NdirectBlocks
    · rw [Simfile.blockno, Simfile.blockno, if_pos hdirect, if_pos hdirect,
        Simfile.iword_setIword_of_ne (by omega) (by simp at hdirect; omega) (Or.inr (by omega)),
        hword1]
    · rw [Simfile.blockno, Simfile.blockno, if_neg hdirect, if_neg hdirect, hind2]
      by_cases hz : f'.iword n 31 = 0
      · rw [if_pos hz, if_pos hz]
      · have hne : (f'.iword n 31).toNat ≠ b.toNat := fun h =>
          hholds.ne_indirect hz (UInt32.toNat_inj.mp h).symm
        rw [if_neg hz, if_neg hz, hg2, Simfile.setIword_of_ne (hholds.indirect_ne hz), hg1,
          Simfile.write_of_ne hne]
  have hdiv : (size + 4) / 4096 = size / 4096 := by omega
  have hblock2 : writeBlockno n ((size + 4) / 4096) g2 = (.ok b, g2) := by
    rw [hdiv, writeBlockno_mapped hloc (hmap2.symm ▸ hholds.ne_zero), hmap2]
  have hfinal : write n (size + 4) (ljust name) g2 =
      (.ok (), withDirent f' n b size inode name) := by
    have hsize3 : (g2.write b.toNat ((size + 4) % 4096) (ljust name)).isize n = size + 4 := by
      rw [Simfile.isize, Simfile.iword_write hholds.ne_table]
      exact hsize2
    have hend : size + 4 + (ljust name).length = size + 32 := by omega
    rw [write_one (hfile htype2) (by omega) (by rw [← List.length_pos_iff_ne_nil]; omega)
      (by omega) hblock2]
    rw [bind_of_ok getSize_apply, hsize3, hend, if_pos (by omega)]
    exact setSize_apply (by omega)
  rw [makeDirent, bind_of_ok (checkDir_apply htype (hsize.symm ▸ h32)),
    bind_of_ok (checkName_apply hlen), bind_of_ok getSize_apply, hsize,
    bind_of_ok (makeDirentLoop_fresh htype hsize (by omega) h32 hname (fun _ h => h) hfresh)]
  simp only []
  rw [bind_of_ok getSize_apply, hsize, bind_of_ok hnum, bind_of_ok getSize_apply, hsize2, hfinal]

theorem cstr_ljust {name : List UInt8} (h0 : 0 ∉ name) (hlen : name.length < 28) :
    cstr (ljust name) = name := by
  obtain ⟨k, hk⟩ : ∃ k, 28 - name.length = k + 1 := ⟨27 - name.length, by omega⟩
  rw [cstr, ljust, s5NameLen, hk, List.replicate_succ, List.takeWhile_append_of_pos]
  · simp
  · intro x hx
    exact decide_eq_true fun heq => h0 (heq ▸ hx)

section

variable {size : Nat} {inode : UInt32} {name : List UInt8}

theorem withDirent_of_ne {c : Nat} (hc : c ≠ Inode.block n) (hb : c ≠ b.toNat) :
    withDirent f n b size inode name c = f c := by
  rw [withDirent, Simfile.setIword_of_ne hc, Simfile.write_of_ne hb, Simfile.setIword_of_ne hc,
    Simfile.write_of_ne hb]

theorem iword_withDirent {m k : Nat} (hk : k < 32) (hb : b.toNat ≠ Inode.block m)
    (h : m ≠ n ∨ k ≠ 0) : (withDirent f n b size inode name).iword m k = f.iword m k := by
  rw [withDirent, Simfile.iword_setIword_of_ne (by omega) hk h, Simfile.iword_write hb,
    Simfile.iword_setIword_of_ne (by omega) hk h, Simfile.iword_write hb]

theorem isize_withDirent (hsize : size + 32 < 4294967296) :
    (withDirent f n b size inode name).isize n = size + 32 := by
  rw [Simfile.isize, withDirent, Simfile.iword_setIword (by omega) (by omega), if_pos ⟨rfl, rfl⟩,
    UInt32.toNat_ofNat']
  omega

theorem blockno_withDirent (h : Holds f n size b) (loc : Nat) (hloc : loc < 1052) :
    (withDirent f n b size inode name).blockno n loc = f.blockno n loc := by
  have hword {k : Nat} (hk : k < 32) (hk0 : k ≠ 0) :
      (withDirent f n b size inode name).iword n k = f.iword n k :=
    iword_withDirent hk h.ne_table (Or.inr hk0)
  unfold Simfile.blockno
  by_cases hdirect : loc < s5NdirectBlocks
  · rw [if_pos hdirect, if_pos hdirect, hword (by simp at hdirect; omega) (by omega)]
  · rw [if_neg hdirect, if_neg hdirect, hword (by omega) (by omega)]
    by_cases hz : f.iword n 31 = 0
    · rw [if_pos hz, if_pos hz]
    · rw [if_neg hz, if_neg hz, withDirent_of_ne (h.indirect_ne hz) fun heq =>
        h.ne_indirect hz (UInt32.toNat_inj.mp heq).symm]

theorem block_withDirent (h : b.toNat ≠ Inode.block n) :
    withDirent f n b size inode name b.toNat =
      (((f b.toNat).copyIn (size % 4096) (wordBytes inode).length fun j =>
        (wordBytes inode).getD j 0).copyIn ((size + 4) % 4096) (ljust name).length fun j =>
          (ljust name).getD j 0) := by
  rw [withDirent, Simfile.setIword_of_ne h, Simfile.write, Function.update_self,
    Simfile.setIword_of_ne h, Simfile.write, Function.update_self]

/-- What a directory holds after an entry was added. -/
theorem byte_withDirent (h : Holds f n size b) (h32 : size % 32 = 0) (hlen : name.length < 28)
    {o : Nat} (ho : o / 4096 < 1052) :
    (withDirent f n b size inode name).byte n o =
      if size ≤ o ∧ o < size + 4 then (wordBytes inode).getD (o - size) 0
      else if size + 4 ≤ o ∧ o < size + 32 then (ljust name).getD (o - (size + 4)) 0
      else f.byte n o := by
  have hljust : (ljust name).length = 28 := by
    simp [ljust]
    omega
  have hword : (wordBytes inode).length = 4 := by simp [wordBytes]
  unfold Simfile.byte
  rw [blockno_withDirent h _ ho]
  by_cases hloc : o / 4096 = size / 4096
  · rw [hloc, h.map, if_neg h.ne_zero, if_neg h.ne_zero, block_withDirent h.ne_table, hljust, hword]
    unfold Block.copyIn
    by_cases hname : size + 4 ≤ o ∧ o < size + 32
    · rw [if_pos (by omega), if_neg (by omega), if_pos hname]
      congr 1
      omega
    · rw [if_neg (by omega), if_neg hname]
      by_cases hnum : size ≤ o ∧ o < size + 4
      · rw [if_pos (by omega), if_pos hnum]
        congr 1
        omega
      · rw [if_neg (by omega), if_neg hnum]
  · have hnum : ¬ (size ≤ o ∧ o < size + 4) := by omega
    have hname : ¬ (size + 4 ≤ o ∧ o < size + 32) := by omega
    rw [if_neg hnum, if_neg hname]
    by_cases hz : f.blockno n (o / 4096) = 0
    · rw [if_pos hz, if_pos hz]
    · rw [if_neg hz, if_neg hz, withDirent_of_ne (h.data_ne _ ho hz) fun heq =>
        h.only _ ho hloc (UInt32.toNat_inj.mp heq)]

theorem Holds.withDirent (h : Holds f n size b) (hloc : size / 4096 < 1052) {size' : Nat}
    (hsame : size' / 4096 = size / 4096) :
    Holds (withDirent f n b size inode name) n size' b := by
  have hind : (Inode.withDirent f n b size inode name).iword n 31 = f.iword n 31 :=
    iword_withDirent (by omega) h.ne_table (Or.inr (by omega))
  refine ⟨?_, h.ne_zero, h.ne_table, ?_, ?_, fun loc hlt hne => ?_, fun loc hlt => ?_⟩
  · rw [hsame, blockno_withDirent h _ hloc, h.map]
  · rw [hind]
    exact h.ne_indirect
  · rw [hind]
    exact h.indirect_ne
  · rw [blockno_withDirent h _ hlt]
    exact h.only loc hlt (hsame ▸ hne)
  · rw [blockno_withDirent h _ hlt]
    exact h.data_ne loc hlt

/-- The name of the entry just added. -/
theorem nameAt_withDirent_self (h : Holds f n size b) (h32 : size % 32 = 0)
    (hlen : name.length < 28) (hmax : size + 32 ≤ s5MaxFileSize) :
    nameAt (withDirent f n b size inode name) n size = ljust name := by
  have hljust : (ljust name).length = 28 := by
    simp [ljust]
    omega
  refine List.ext_getElem (by simp [nameAt, hljust]) fun j hj _ => ?_
  have hj28 : j < 28 := by simpa [nameAt] using hj
  simp only [nameAt, List.getElem_map, List.getElem_range]
  rw [byte_withDirent h h32 hlen (by simp at hmax; omega), if_neg (by omega), if_pos (by omega)]
  have hsub : size + 4 + j - (size + 4) = j := by omega
  rw [hsub, List.getD_eq_getElem?_getD, List.getElem?_eq_getElem (hljust.symm ▸ hj28),
    Option.getD_some]

end

end Inode

end CodingSample.Fsmaker
