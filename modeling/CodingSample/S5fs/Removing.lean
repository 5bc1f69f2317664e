import CodingSample.S5fs.Linking

/-!
# Removing an entry

What `s5_remove_dirent` leaves: the entry is gone and all others are there, the last one in its
place.
-/

namespace CodingSample.S5fs

open Prog

variable {D : Multiset UInt32} {s s' : S5} {ino k i : Nat} {v v' : Vnode} {name : List UInt8}
  {e : S5Dirent}

variable [BlockDev]

/-- Steps on a file do not take references or links away. -/
theorem Droppable.edited {bytes : Nat → UInt8} {size : Nat} (h : Droppable i s)
    (hinv : PageInv D s) (hedit : Edited ino size bytes s s') : Droppable i s' := by
  have hinode : (s'.inodes i).s5Type = (s.inodes i).s5Type ∧
      (s'.inodes i).s5Linkcount = (s.inodes i).s5Linkcount := by
    by_cases hi : i = ino
    · subst hi
      rw [hedit.inode]
      exact ⟨rfl, rfl⟩
    · rw [hedit.others i hi]
      exact ⟨rfl, rfl⟩
  have hcore : (s'.vnodes i).isSome = (s.vnodes i).isSome := by
    cases hv : s.vnodes i with
    | none => rw [hedit.absent i hv]
    | some w =>
        obtain ⟨w', hw', -⟩ := hedit.present i w hv
        rw [hw']
        rfl
  refine ⟨hedit.numInodes ▸ h.lt, hinode.1 ▸ h.type, ?_, hinode.2 ▸ h.bound, ?_⟩
  · rw [hcore, hinode.2]
    exact h.links
  · intro w' hw'
    cases hv : s.vnodes i with
    | none =>
        rw [hedit.absent i hv] at hw'
        cases hw'
    | some w =>
        obtain ⟨w1, hw1, hgrows, -⟩ := hedit.present i w hv
        obtain rfl : w1 = w' := Option.some.inj (hw1.symm.trans hw')
        obtain ⟨hpos, hrefs⟩ := h.refs w hv
        have hheld := hgrows.held
        have hlen : w.vnRespages.length ≤ w1.vnRespages.length :=
          (List.subperm_of_subset (hinv.vnode i w hv).nodup hgrows.pages).length_le
        simp only [Vnode.vnNrespages] at hheld hrefs ⊢
        omega

/-- The hole is filled with the last entry. -/
theorem OpenDir.wp_s5FillHole (h : OpenDir D ino v s) (hk : k < s.direntCount ino)
    (hreach : Reaches s ino ((sizeofS5Dirent * k + sizeofS5Dirent) / 4096)) :
    wp (s5FillHole ino ((sizeofS5Dirent * k : Nat) : Int) v.vnLen) (fun r s' => 0 ≤ r ∧
      ∃ v' top written bytes, Worked D ino top written (s.inodes ino).s5Size bytes v s v' s' ∧
        Reaches s' ino ((s.inodes ino).s5Size / 4096) ∧ ∀ j < s.direntCount ino,
          s'.direntAt ino j = if j = k then s.direntAt ino (s.direntCount ino - 1)
            else s.direntAt ino j) s := by
  have hsize := h.size_eq
  have hroom := h.room
  set n := s.direntCount ino with hn
  simp only [sizeofS5Dirent, s5MaxFileSize] at hsize hroom hreach
  rw [s5FillHole, h.file.len]
  by_cases hlast : k + 1 = n
  · rw [if_neg (by simp only [sizeofS5Dirent]; omega)]
    refine wp_pure.mpr ⟨le_refl _, v, 0, _, _, .refl h.file 0, ?_, ?_⟩
    · have heq : (s.inodes ino).s5Size = 32 * k + 32 := by omega
      rw [heq]
      exact hreach
    · intro j _
      by_cases hj : j = k
      · rw [if_pos hj, hj, ← hlast, Nat.add_sub_cancel]
      · rw [if_neg hj]
  rw [if_pos (by simp only [sizeofS5Dirent]; omega)]
  have hseek : ((s.inodes ino).s5Size : Int) - (sizeofS5Dirent : Nat) =
      ((sizeofS5Dirent * (n - 1) : Nat) : Int) := by
    simp only [sizeofS5Dirent]
    omega
  rw [hseek]
  refine wp_bind_of (h.wp_readEntry (by omega) Block.zero) ?_
  rintro ⟨ret, buf⟩ s1 ⟨rfl, -, hbuf, hreach1, v1, hb⟩
  simp only [] at hbuf ⊢
  rw [if_neg (by decide), if_neg (by simp)]
  obtain ⟨h1, top1, hw1⟩ := hb
  have hend : (sizeofS5Dirent * (n - 1) + sizeofS5Dirent) / 4096 =
      (s.inodes ino).s5Size / 4096 := by
    simp only [sizeofS5Dirent]
    rw [hsize]
    congr 1
    omega
  rw [hend] at hreach1
  refine wp_mono (wp_s5WriteFile h1.file (by simp only [sizeofS5Dirent]; omega)
    (Or.inl (by simp only [sizeofS5Dirent]; omega))) ?_
  rintro r s2 ⟨v2, ⟨-, hmissing, -⟩ | ⟨rfl, hmax, hwrote⟩⟩
  · exfalso
    simp only [sizeofS5Dirent, s5MaxFileSize] at hmissing
    rcases hmissing with hover | hno
    · omega
    · exact hno (reaches_of_le hreach1 (Nat.div_le_div_right (by omega)))
  · have hw2 := hwrote.worked
    have hsize2 : max (s1.inodes ino).s5Size (sizeofS5Dirent * k + sizeofS5Dirent) =
        (s.inodes ino).s5Size := by
      rw [hw1.edited.size]
      simp only [sizeofS5Dirent]
      omega
    rw [hsize2] at hw2
    refine ⟨Int.natCast_nonneg _, v2, _, _, _, hw1.trans hw2, hw2.extended.reaches hreach1, ?_⟩
    intro j hj
    have hbyte (i : Nat) (hi : i < 32) : s2.byteAt ino (32 * j + i) =
        if j = k then s.byteAt ino (32 * (n - 1) + i) else s.byteAt ino (32 * j + i) := by
      rw [hw2.edited.byteAt _ (by simp only [s5MaxFileSize]; omega), Block.copyIn]
      by_cases hjk : j = k
      · have hoff : 32 * j + i - sizeofS5Dirent * k = i := by
          simp only [sizeofS5Dirent]
          omega
        rw [if_pos (by simp only [sizeofS5Dirent]; omega), if_pos hjk, hoff]
        exact hbuf i hi
      · rw [if_neg (by simp only [sizeofS5Dirent]; omega), if_neg hjk]
        exact hw1.edited.byteAt _ (by simp only [s5MaxFileSize]; omega)
    split
    · rename_i hjk
      exact S5.direntAt_eq fun i hi => (hbyte i hi).trans (if_pos hjk)
    · rename_i hjk
      exact S5.direntAt_eq fun i hi => (hbyte i hi).trans (if_neg hjk)

omit [BlockDev] in
/-- The list of entries after the directory got shorter. -/
theorem S5.dirents_takeOut {last : S5Dirent}
    (hcount : s'.direntCount ino = s.direntCount ino - 1)
    (hentry : ∀ j < s'.direntCount ino, s'.direntAt ino j =
      if j = k then last else s.direntAt ino j) :
    s'.dirents ino = KeyedList.takeOut (s.dirents ino) k last := by
  apply List.ext_getElem
  · rw [S5.length_dirents, hcount, KeyedList.takeOut, List.length_dropLast, List.length_set,
      S5.length_dirents]
  · intro j hj hj'
    rw [S5.length_dirents] at hj
    simp only [KeyedList.takeOut, List.getElem_dropLast, List.getElem_set, S5.dirents,
      List.getElem_map, List.getElem_range]
    rw [hentry j hj]
    by_cases hjk : j = k
    · rw [if_pos hjk, if_pos hjk.symm]
    · rw [if_neg hjk, if_neg (Ne.symm hjk)]

/-- Taking entry `k` out. -/
theorem OpenDir.wp_s5TakeOut {inode : UInt32} (h : OpenDir D ino v s) (hk : k < s.direntCount ino)
    (hreach : Reaches s ino ((sizeofS5Dirent * k + sizeofS5Dirent) / 4096))
    (hdrop : Droppable inode.toNat s) :
    wp (s5TakeOut ino ((sizeofS5Dirent * k : Nat) : Int) inode) (fun r s' => r = 0 ∧ ∃ v',
      SettledDir D ino v' s' ∧ s'.dirents ino = KeyedList.takeOut (s.dirents ino) k
        (s.direntAt ino (s.direntCount ino - 1))) s := by
  have hsize := h.size_eq
  have hroom := h.room
  simp only [sizeofS5Dirent, s5MaxFileSize] at hsize hroom
  rw [s5TakeOut, wp_bind, wp_of_eq (getVnode_apply h.file.held.vnode)]
  refine wp_bind_of (h.wp_s5FillHole hk hreach) ?_
  rintro ret s1 ⟨hret, v1, top, written, bytes, hw1, hreach1, hentry⟩
  rw [if_neg (not_lt.mpr hret), wp_bind, wp_of_eq (getVnode_apply hw1.file.held.vnode)]
  -- the new size
  have hshort : uwrap32 (v1.vnLen - (sizeofS5Dirent : Nat)) = (s.inodes ino).s5Size - 32 := by
    have hcast : ((s.inodes ino).s5Size : Int) - (sizeofS5Dirent : Nat) =
        (((s.inodes ino).s5Size - 32 : Nat) : Int) := by
      simp only [sizeofS5Dirent]
      omega
    rw [hw1.file.len, hw1.edited.size, hcast, uwrap32_of_lt (by omega)]
  rw [hshort]
  refine wp_bind_of (wp_setSize hw1.file (by simp only [s5MaxFileSize]; omega) 0) ?_
  rintro _ s2 ⟨v2, hw2⟩
  have hsize2 : (s2.inodes ino).s5Size = (s.inodes ino).s5Size - 32 := hw2.edited.size
  have hcount : s2.direntCount ino = s.direntCount ino - 1 := by
    rw [S5.direntCount, hsize2]
    simp only [sizeofS5Dirent]
    omega
  have hsettled : SettledDir D ino v2 s2 := by
    refine ⟨hw2.file, ?_, ?_, ?_, ?_⟩
    · rw [hw2.edited.inode, hw1.edited.inode]
      exact h.type
    · rw [hsize2]
      simp only [sizeofS5Dirent]
      omega
    · rw [hsize2]
      simp only [s5MaxFileSize]
      omega
    · rw [hsize2]
      exact reaches_of_le (hw2.extended.reaches hreach1) (Nat.div_le_div_right (by omega))
  have hdirents : s2.dirents ino = KeyedList.takeOut (s.dirents ino) k
      (s.direntAt ino (s.direntCount ino - 1)) := by
    refine S5.dirents_takeOut hcount fun j hj => ?_
    rw [hcount] at hj
    rw [← hentry j (by omega)]
    apply S5.direntAt_congr
    intro i hi
    simp only [sizeofS5Dirent] at hi
    exact hw2.edited.byteAt _ (by simp only [sizeofS5Dirent, s5MaxFileSize]; omega)
  have hdrop2 := (hdrop.edited h.file.inv hw1.edited).edited hw1.file.inv hw2.edited
  -- the link that goes
  refine wp_bind_of (wp_s5DropLink hw2.file hdrop2) ?_
  rintro _ s3 ⟨hinv, hkeep⟩
  exact wp_pure.mpr ⟨rfl, v2, hsettled.undisturbed hinv hkeep, hkeep.dirents.trans hdirents⟩

/-! ### Looking for the entry -/

/-- The loop of `s5_remove_dirent`: no entry from the `k`th on has the name, or the first that has
it is taken out. -/
theorem OpenDir.wp_s5RemoveFrom {fuel : Nat} {Q : Int → S5 → Prop} (h : OpenDir D ino v s)
    (hk : k ≤ s.direntCount ino) (hfuel : s.direntCount ino - k < fuel)
    (hmiss : (∀ e ∈ (s.dirents ino).drop k, e.s5dName ≠ name) → ∀ v' s',
      Browsed D ino v s v' s' → Q (-enoent) s')
    (hhit : ∀ i e v' s', (s.dirents ino)[i]? = some e → e.s5dName = name →
      Browsed D ino v s v' s' →
        Reaches s' ino ((sizeofS5Dirent * i + sizeofS5Dirent) / 4096) →
          wp (s5TakeOut ino ((sizeofS5Dirent * i : Nat) : Int) e.s5dInode) Q s') :
    wp (s5RemoveFrom ino name fuel ((sizeofS5Dirent * k : Nat) : Int)) Q s := by
  induction fuel generalizing s v k with
  | zero => exact absurd hfuel (Nat.not_lt_zero _)
  | succ fuel ih =>
      rw [s5RemoveFrom]
      rcases Nat.lt_or_eq_of_le hk with hlt | rfl
      · refine wp_bind_of (h.wp_readEntry hlt Block.zero) ?_
        rintro ⟨ret, buf⟩ s1 ⟨rfl, hentry, -, hreach, v1, hb⟩
        simp only [] at hentry ⊢
        rw [if_neg (by decide), if_neg (by decide), if_neg (by simp), hentry]
        by_cases hmatch : nameMatch (s.direntAt ino k).s5dName name = true
        · rw [if_pos hmatch]
          exact hhit k _ v1 s1 (S5.getElem?_dirents hlt) (nameMatch_iff.mp hmatch) hb hreach
        · have hnext : ((sizeofS5Dirent * k : Nat) : Int) + (sizeofS5Dirent : Nat) =
              ((sizeofS5Dirent * (k + 1) : Nat) : Int) := by
            simp only [sizeofS5Dirent]
            omega
          have hsame := hb.dirents
          have hcount : s1.direntCount ino = s.direntCount ino := by
            rw [← S5.length_dirents, ← S5.length_dirents, hsame]
          rw [if_neg hmatch, hnext]
          refine ih hb.1 (by omega) (by omega) ?_ ?_
          · intro hrest v' s' hb'
            refine hmiss ?_ v' s' (hb.trans hb')
            intro e he
            rw [S5.drop_dirents hlt] at he
            rcases List.mem_cons.mp he with rfl | he
            · exact fun heq => hmatch (nameMatch_iff.mpr heq)
            · rw [hsame] at hrest
              exact hrest e he
          · intro i e v' s' hi hname hb' hreach'
            rw [hsame] at hi
            exact hhit i e v' s' hi hname (hb.trans hb') hreach'
      · have hend := h.wp_readEnd Block.zero sizeofS5Dirent
        rw [h.size_eq] at hend
        refine wp_bind_of hend ?_
        rintro _ _ ⟨rfl, rfl⟩
        rw [if_neg (by decide), if_pos rfl]
        refine wp_pure.mpr (hmiss ?_ v _ h.refl)
        rw [List.drop_of_length_le (le_of_eq S5.length_dirents)]
        exact fun e he => absurd he List.not_mem_nil

/-- **`s5_remove_dirent`** takes out an entry with the name, or there is none. -/
theorem OpenDir.wp_s5RemoveDirent (h : OpenDir D ino v s) (hname : name.length < s5NameLen)
    (hdrop : ∀ e ∈ s.dirents ino, e.s5dName = name → Droppable e.s5dInode.toNat s) :
    wp (s5RemoveDirent ino name) (fun r s' =>
      (∀ e ∈ s.dirents ino, e.s5dName ≠ name) ∧ r = -enoent ∧ (∃ v', Browsed D ino v s v' s') ∨
      r = 0 ∧ ∃ i e last v', (s.dirents ino)[i]? = some e ∧ e.s5dName = name ∧
        (s.dirents ino)[(s.dirents ino).length - 1]? = some last ∧ SettledDir D ino v' s' ∧
          s'.dirents ino = KeyedList.takeOut (s.dirents ino) i last) s := by
  have hsize := h.size_eq
  rw [s5RemoveDirent, wp_bind, kassert, wp_check]
  refine ⟨decide_eq_true (by simp only [s5NameLen] at hname ⊢; omega), ?_⟩
  rw [wp_bind, wp_of_eq (getVnode_apply h.file.held.vnode), wp_bind, wp_get, wp_bind, kassert,
    wp_check]
  refine ⟨decide_eq_true h.file.assert_len, ?_⟩
  rw [wp_bind, kassert, wp_check]
  refine ⟨decide_eq_true ?_, ?_⟩
  · rw [h.file.len, hsize]
    simp only [sizeofS5Dirent]
    omega
  have hfuel : (v.vnLen / (sizeofS5Dirent : Nat)).toNat = s.direntCount ino := by
    rw [h.file.len, S5.direntCount]
    simp only [sizeofS5Dirent]
    omega
  rw [hfuel]
  have hzero : (0 : Int) = ((sizeofS5Dirent * 0 : Nat) : Int) := rfl
  rw [hzero]
  refine h.wp_s5RemoveFrom (Nat.zero_le _) (Nat.lt_succ_of_le (Nat.sub_le _ _)) ?_ ?_
  · intro hnone v' s' hb
    exact Or.inl ⟨hnone, rfl, v', hb⟩
  · intro i e v1 s1 hi hmatch hb hreach
    obtain ⟨hlt, -⟩ := List.getElem?_eq_some_iff.mp hi
    have hmem : e ∈ s.dirents ino := List.mem_of_getElem? hi
    obtain ⟨hdir1, top, hw1⟩ := hb
    have hsame := (h.worked hw1).dirents
    have hcount : s1.direntCount ino = s.direntCount ino := by
      rw [← S5.length_dirents, ← S5.length_dirents, hsame]
    rw [S5.length_dirents] at hlt
    refine wp_mono (hdir1.wp_s5TakeOut (by omega) hreach
      ((hdrop e hmem hmatch).edited h.file.inv hw1.edited)) ?_
    rintro r s2 ⟨rfl, v2, hsettled, hdirents⟩
    refine Or.inr ⟨rfl, i, e, s1.direntAt ino (s1.direntCount ino - 1), v2, hi, hmatch, ?_,
      hsettled, ?_⟩
    · rw [← hsame, S5.length_dirents]
      exact S5.getElem?_dirents (by omega)
    · rw [hdirents, hsame]

end CodingSample.S5fs
