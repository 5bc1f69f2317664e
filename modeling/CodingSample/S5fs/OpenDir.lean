import CodingSample.S5fs.FileRun
import CodingSample.S5fs.Readdir

/-!
# Directories as files

What `s5_read_file` does with the entries of a directory that is held like any other file.
-/

namespace CodingSample.S5fs

open Prog

/-- A directory in core that someone holds. A read of the last entry brings in the page the
directory ends in, so it must be possible to bring that page in. -/
structure OpenDir [BlockDev] (D : Multiset UInt32) (ino : Nat) (v : Vnode) (s : S5) : Prop where
  file : FileHeld D ino v s
  type : (s.inodes ino).s5Type = .dir
  whole : (s.inodes ino).s5Size % sizeofS5Dirent = 0
  room : (s.inodes ino).s5Size < s5MaxFileSize
  filled : ¬ s.Lacks ino ((s.inodes ino).s5Size / 4096) false

variable {D : Multiset UInt32} {s s' s'' : S5} {ino k : Nat} {v v' v'' : Vnode}
  {name : List UInt8}

theorem S5.direntAt_eq {m : Nat} (hbytes : ∀ j < sizeofS5Dirent,
    s'.byteAt ino (sizeofS5Dirent * k + j) = s.byteAt ino (sizeofS5Dirent * m + j)) :
    s'.direntAt ino k = s.direntAt ino m := decodeDirent_congr hbytes

theorem S5.direntAt_congr (hbytes : ∀ j < sizeofS5Dirent,
    s'.byteAt ino (sizeofS5Dirent * k + j) = s.byteAt ino (sizeofS5Dirent * k + j)) :
    s'.direntAt ino k = s.direntAt ino k := S5.direntAt_eq hbytes

/-- A step that keeps the size and the bytes of a directory keeps its entries. -/
theorem Edited.dirents {bytes : Nat → UInt8} (hmax : (s.inodes ino).s5Size ≤ s5MaxFileSize)
    (h : Edited ino (s.inodes ino).s5Size bytes s s')
    (hbytes : ∀ pos < (s.inodes ino).s5Size, bytes pos = s.byteAt ino pos) :
    s'.dirents ino = s.dirents ino := by
  have hcount : s'.direntCount ino = s.direntCount ino := by
    rw [S5.direntCount, S5.direntCount, h.size]
  rw [S5.dirents, S5.dirents, hcount]
  apply List.map_congr_left
  intro k hk
  have hlt := List.mem_range.mp hk
  apply S5.direntAt_congr
  intro j hj
  simp only [S5.direntCount, sizeofS5Dirent, s5MaxFileSize] at hlt hj hmax
  have hpos : 32 * k + j < (s.inodes ino).s5Size := by omega
  exact (h.byteAt _ (by simp only [sizeofS5Dirent, s5MaxFileSize]; omega)).trans (hbytes _ hpos)

variable [BlockDev]

/-- What reading entries leaves: the directory is held as before, and no file has changed. -/
def Browsed (D : Multiset UInt32) (ino : Nat) (v : Vnode) (s : S5) (v' : Vnode) (s' : S5) : Prop :=
  OpenDir D ino v' s' ∧ ∃ top, Worked D ino top (fun _ => False) (s.inodes ino).s5Size
    (s.byteAt ino) v s v' s'

namespace OpenDir

theorem worked (h : OpenDir D ino v s) {top : Nat}
    (hw : Worked D ino top (fun _ => False) (s.inodes ino).s5Size (s.byteAt ino) v s v' s') :
    Browsed D ino v s v' s' := by
  refine ⟨⟨hw.file, ?_, ?_, ?_, ?_⟩, top, hw⟩
  · rw [hw.edited.inode]
    exact h.type
  · rw [hw.edited.size]
    exact h.whole
  · rw [hw.edited.size]
    exact h.room
  · rw [hw.edited.size]
    exact fun hlacks => h.filled (hw.lacks h.file hlacks)

theorem refl (h : OpenDir D ino v s) : Browsed D ino v s v s := h.worked (.refl h.file 0)

theorem size_eq (h : OpenDir D ino v s) :
    (s.inodes ino).s5Size = sizeofS5Dirent * s.direntCount ino := by
  have hwhole := h.whole
  simp only [S5.direntCount, sizeofS5Dirent] at hwhole ⊢
  omega

theorem vnMode (h : OpenDir D ino v s) : v.vnMode = .dir := by
  have htype := (h.file.inv.vnode ino v h.file.held.vnode).type
  rw [h.type] at htype
  exact (Option.some.inj htype).symm

end OpenDir

namespace Browsed

theorem dirents (hb : Browsed D ino v s v' s') : s'.dirents ino = s.dirents ino := by
  obtain ⟨hdir, top, hw⟩ := hb
  have hsmall := hdir.file.small
  rw [hw.edited.size] at hsmall
  exact hw.edited.dirents hsmall fun _ _ => rfl

theorem size (hb : Browsed D ino v s v' s') :
    (s'.inodes ino).s5Size = (s.inodes ino).s5Size := by
  obtain ⟨-, top, hw⟩ := hb
  exact hw.edited.size

theorem trans (hb : Browsed D ino v s v' s') (hb' : Browsed D ino v' s' v'' s'') :
    Browsed D ino v s v'' s'' := by
  obtain ⟨-, top, hw⟩ := hb
  obtain ⟨hdir, top', hw'⟩ := hb'
  refine ⟨hdir, max top top', ?_⟩
  rw [hw.edited.size] at hw'
  refine (hw.trans hw').weaken le_rfl (fun m _ => by rw [or_self]) ?_
  exact fun pos hpos => (hw.edited.byteAt pos hpos).symm

end Browsed

namespace OpenDir

theorem fillable (h : OpenDir D ino v s) {n : Nat}
    (hn : n ≤ (s.inodes ino).s5Size / 4096) : ¬ s.Lacks ino n false := not_lacks_of_le h.filled hn

/-- Reading entry `k`. -/
theorem wp_readEntry (h : OpenDir D ino v s) (hk : k < s.direntCount ino) (dest : Block) :
    wp (s5ReadFile ino ((sizeofS5Dirent * k : Nat) : Int) dest sizeofS5Dirent) (fun r s' =>
      r.1 = sizeofS5Dirent ∧ decodeDirent r.2 = s.direntAt ino k ∧
        (∀ j < sizeofS5Dirent, r.2 j = s.byteAt ino (sizeofS5Dirent * k + j)) ∧
        Reaches s' ino ((sizeofS5Dirent * k + sizeofS5Dirent) / 4096) ∧
        ∃ v', Browsed D ino v s v' s') s := by
  have hroom := h.room
  have hsize := h.size_eq
  simp only [sizeofS5Dirent, s5MaxFileSize] at hsize hroom ⊢
  have hmin : min (32 * k + 32) (s.inodes ino).s5Size = 32 * k + 32 := by omega
  have hlen : min 32 ((s.inodes ino).s5Size - 32 * k) = 32 := by omega
  have hmade : FileCall.Made ino s (.read (32 * k) dest 32) := by
    refine ⟨⟨by omega, by decide⟩, Or.inr ?_, Or.inr ?_⟩
    · simp only [FileCall.endPos, hmin, s5MaxFileSize]
      omega
    · simp only [FileCall.endPos, hmin]
      exact h.fillable (Nat.div_le_div_right (by omega))
  refine wp_mono (wp_readFile h.file hmade) ?_
  rintro r s' ⟨hr, hbytes, -, v', top, hw, hreach⟩
  rw [hlen] at hr hbytes
  have hreached := hreach (by omega)
  rw [hmin] at hreached
  refine ⟨hr, ?_, hbytes, hreached, v', h.worked hw⟩
  apply decodeDirent_congr
  intro j hj
  exact hbytes j hj

/-- Reading past the last entry. -/
theorem wp_readEnd (h : OpenDir D ino v s) (dest : Block) (len : Nat) :
    wp (s5ReadFile ino (s.inodes ino).s5Size dest len) (fun r s' => r = (0, dest) ∧ s' = s) s :=
  wp_readPast h.file (le_refl _)

/-- **`s5_find_dirent` returns the inode of the first entry with the name.** -/
theorem wp_s5FindDirent (h : OpenDir D ino v s) (hname : name.length < s5NameLen)
    (hne : name ≠ []) :
    wp (s5FindDirent ino name) (fun r s' => r = found (s.dirents ino) name ∧
      ∃ v', Browsed D ino v s v' s') s := by
  rw [s5FindDirent, wp_bind, kassert, wp_check]
  refine ⟨decide_eq_true (by simp only [s5NameLen] at hname ⊢; omega), ?_⟩
  rw [wp_bind, wp_of_eq (getVnode_apply h.file.held.vnode), wp_bind, wp_get, wp_bind, kassert,
    wp_check]
  refine ⟨decide_eq_true h.file.assert_len, ?_⟩
  rw [if_neg (mt List.length_eq_zero_iff.mp hne)]
  have hfuel : (v.vnLen / (sizeofS5Dirent : Nat)).toNat = s.direntCount ino := by
    rw [h.file.len, S5.direntCount]
    simp only [sizeofS5Dirent]
    omega
  rw [hfuel]
  have hread : wp (s5FindFrom ino name (s.direntCount ino + 1) ((sizeofS5Dirent * 0 : Nat) : Int))
      (fun r s' => r = found ((s.dirents ino).drop 0) name ∧ ∃ v', Browsed D ino v s v' s') s := by
    apply wp_s5FindFrom_of (I := fun s' => ∃ v', Browsed D ino v s v' s')
    · rintro t k e ⟨v1, hb⟩ hk
      rw [← hb.dirents] at hk
      obtain ⟨hlt, -⟩ := List.getElem?_eq_some_iff.mp hk
      rw [S5.length_dirents] at hlt
      rw [S5.getElem?_dirents hlt] at hk
      refine wp_mono (hb.1.wp_readEntry hlt Block.zero) ?_
      rintro r s' ⟨hr, hbuf, -, -, v2, hb2⟩
      exact ⟨hr, hbuf.trans (Option.some.inj hk), v2, hb.trans hb2⟩
    · rintro t ⟨v1, hb⟩
      have hend := hb.1.wp_readEnd Block.zero sizeofS5Dirent
      rw [hb.1.size_eq, ← S5.length_dirents, hb.dirents] at hend
      refine wp_mono hend ?_
      rintro _ _ ⟨rfl, rfl⟩
      exact ⟨rfl, v1, hb⟩
    · exact ⟨v, h.refl⟩
    · exact Nat.zero_le _
    · rw [S5.length_dirents]
      omega
  exact hread

end OpenDir

end CodingSample.S5fs
