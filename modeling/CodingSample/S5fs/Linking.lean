import CodingSample.S5fs.Dropping
import CodingSample.Data.KeyedList

/-!
# Adding and removing entries

`s5_link` writes an entry past the end of the directory; `s5_remove_dirent` writes the last entry
over the one to be removed and makes the directory shorter.
-/

namespace CodingSample.S5fs

open Prog

/-- The entry in memory: the number of the inode, then the `S5_NAME_LEN` bytes at `name`. -/
def encodeDirent (inode : UInt32) (name : Block) : Block := fun j =>
  if j < 4 then Block.byteOf inode j else name (j - 4)

/-- The `namelen` bytes at `name`. -/
def nameOf (name : Block) (namelen : Nat) : List UInt8 := (List.range namelen).map name

/-- The memory at `name` holds a string of `namelen` bytes that fits in an entry. -/
structure IsName (name : Block) (namelen : Nat) : Prop where
  pos : 0 < namelen
  fits : namelen < s5NameLen
  nonzero : ∀ j < namelen, name j ≠ 0
  ends : name namelen = 0

variable {D : Multiset UInt32} {s s' : S5} {ino k child namelen : Nat} {v v' w : Vnode}
  {name : Block} {e : S5Dirent}

theorem cString_of_isName (h : IsName name namelen) :
    cString name s5NameLen = nameOf name namelen := by
  obtain ⟨m, hm⟩ : ∃ m, s5NameLen = namelen + (m + 1) :=
    ⟨s5NameLen - namelen - 1, by have := h.fits; omega⟩
  rw [cString, hm, List.range_add, List.map_append, List.takeWhile_append_of_pos]
  · rw [List.range_succ_eq_map]
    simp [h.ends, nameOf]
  · intro b hb
    obtain ⟨j, hj, rfl⟩ := List.mem_map.mp hb
    exact decide_eq_true (h.nonzero j (List.mem_range.mp hj))

theorem decode_encodeDirent (h : IsName name namelen) (inode : UInt32) :
    decodeDirent (encodeDirent inode name) = ⟨inode, nameOf name namelen⟩ := by
  have hword : (encodeDirent inode name).word 0 = inode := Block.ofBytes_byteOf inode
  have hname : (fun j => encodeDirent inode name (4 + j)) = name := by
    funext j
    rw [encodeDirent, if_neg (by omega), Nat.add_sub_cancel_left]
  rw [decodeDirent, hword, hname, cString_of_isName h]

theorem IsName.ne_nil (h : IsName name namelen) : nameOf name namelen ≠ [] := by
  have hpos := h.pos
  intro hnil
  rw [nameOf, List.map_eq_nil_iff, List.range_eq_nil] at hnil
  omega

theorem length_nameOf : (nameOf name namelen).length = namelen := by
  rw [nameOf, List.length_map, List.length_range]

variable [BlockDev]

/-! ### The two functions -/

/-- `s5_link` -/
def s5Link (parent child : Nat) (name : Block) (namelen : Nat) : K Int := do
  let p ← getVnode parent
  kassert (p.vnMode = .dir)
  let s ← get
  kassert (ofInt32 p.vnLen = UInt32.ofNat (s.inodes parent).s5Size)
  let c ← getVnode child
  kassert (ofInt32 c.vnLen = UInt32.ofNat (s.inodes child).s5Size)
  let exist ← s5FindDirent parent (nameOf name namelen)
  if 0 ≤ exist then
    pure (-1)
  else do
    let s ← get
    kassert ((s.inodes child).s5Number = child)
    kassert (name namelen = 0)
    let p ← getVnode parent
    kassert (ofInt32 p.vnLen = UInt32.ofNat (s.inodes parent).s5Size)
    let bytes ← s5WriteFile parent (s.inodes parent).s5Size
      (encodeDirent (UInt32.ofNat child) name) sizeofS5Dirent
    if bytes = sizeofS5Dirent then do
      -- '.' is not counted
      if nameMatch (cString name s5NameLen) [46] then
        pure ()
      else do
        let s ← get
        setLinkcount child ((s.inodes child).s5Linkcount + 1)
      pure 0
    else
      pure bytes

/-- The part of `s5_remove_dirent` that copies the last entry into the hole. -/
def s5FillHole (ino : Nat) (offset vnLen : Int) : K Int :=
  if offset + sizeofS5Dirent < vnLen then do
    let r ← s5ReadFile ino (vnLen - sizeofS5Dirent) Block.zero sizeofS5Dirent
    if r.1 < 0 then
      pure r.1
    else if r.1 ≠ sizeofS5Dirent then
      pure (-1)
    else
      s5WriteFile ino offset r.2 sizeofS5Dirent
  else
    pure 0

/-- The part of `s5_remove_dirent` after the entry was found. -/
def s5TakeOut (ino : Nat) (offset : Int) (inode : UInt32) : K Int := do
  let v ← getVnode ino
  let ret ← s5FillHole ino offset v.vnLen
  if ret < 0 then
    pure ret
  else do
    let v ← getVnode ino
    setSize ino (uwrap32 (v.vnLen - sizeofS5Dirent))
    s5DropLink inode.toNat
    pure 0

/-- The loop of `s5_remove_dirent`, a round for each entry. -/
def s5RemoveFrom (ino : Nat) (name : List UInt8) : Nat → Int → K Int
  | 0, _ => fail .panic
  | fuel + 1, offset => do
      let r ← s5ReadFile ino offset Block.zero sizeofS5Dirent
      if r.1 < 0 then
        pure r.1
      else if r.1 = 0 then
        pure (-enoent)
      else if r.1 ≠ sizeofS5Dirent then
        pure (-1)
      else if nameMatch (decodeDirent r.2).s5dName name then
        s5TakeOut ino offset (decodeDirent r.2).s5dInode
      else
        s5RemoveFrom ino name fuel (offset + sizeofS5Dirent)

/-- `s5_remove_dirent` -/
def s5RemoveDirent (ino : Nat) (name : List UInt8) : K Int := do
  kassert (name.length ≤ s5NameLen - 1)
  let v ← getVnode ino
  let s ← get
  kassert (ofInt32 v.vnLen = UInt32.ofNat (s.inodes ino).s5Size)
  kassert (v.vnLen % sizeofS5Dirent = 0)
  s5RemoveFrom ino name ((v.vnLen / sizeofS5Dirent).toNat + 1) 0

/-! ### Directories after a change -/

omit [BlockDev] in
theorem not_lacks_of_reaches {n : Nat} (h : Reaches s ino n) : ¬ s.Lacks ino n false := by
  rintro (⟨hn, hind, -⟩ | ⟨hfalse, -⟩)
  · exact h.elim (not_lt.mpr hn) (not_not.mpr hind)
  · cases hfalse

omit [BlockDev] in
theorem reaches_of_le {n m : Nat} (h : Reaches s ino m) (hle : n ≤ m) : Reaches s ino n :=
  h.imp_left (lt_of_le_of_lt hle)

/-- A directory in core whose end has been looked for. -/
structure SettledDir (D : Multiset UInt32) (ino : Nat) (v : Vnode) (s : S5) : Prop where
  file : FileHeld D ino v s
  type : (s.inodes ino).s5Type = .dir
  whole : (s.inodes ino).s5Size % sizeofS5Dirent = 0
  room : (s.inodes ino).s5Size < s5MaxFileSize
  reach : Reaches s ino ((s.inodes ino).s5Size / 4096)

namespace SettledDir

theorem openDir (h : SettledDir D ino v s) : OpenDir D ino v s :=
  ⟨h.file, h.type, h.whole, h.room, not_lacks_of_reaches h.reach⟩

theorem undisturbed (h : SettledDir D ino v s) (hinv : PageInv D s')
    (hkeep : Undisturbed ino s s') : SettledDir D ino v s' := by
  refine ⟨h.file.undisturbed hinv hkeep, ?_, ?_, ?_, ?_⟩
  · rw [hkeep.inode]
    exact h.type
  · rw [hkeep.size]
    exact h.whole
  · rw [hkeep.size]
    exact h.room
  · rw [hkeep.size]
    exact hkeep.reaches h.reach

/-- It is a directory as the scans of its entries need it. -/
theorem dirHeld (h : SettledDir D ino v s) : DirHeld D ino v s :=
  ⟨h.file.inv, h.file.held, ⟨h.type, h.whole, h.room, h.reach⟩, h.file.len⟩

end SettledDir

/-! ### Adding an entry -/

omit [BlockDev] in
theorem direntAt_eq_of_bytes {b : Block} (h : ∀ j < sizeofS5Dirent,
    s.byteAt ino (sizeofS5Dirent * k + j) = b j) : s.direntAt ino k = decodeDirent b :=
  decodeDirent_congr h

/-- The entry is written past the end. -/
theorem OpenDir.appended (h : OpenDir D ino v s) {b : Block} (hmax : (s.inodes ino).s5Size + 32 <
    s5MaxFileSize) (hw : Wrote D ino (s.inodes ino).s5Size 32 b v s v' s') :
    SettledDir D ino v' s' ∧ s'.dirents ino = s.dirents ino ++ [decodeDirent b] := by
  have hworked := hw.worked
  have hsize : (s'.inodes ino).s5Size = (s.inodes ino).s5Size + 32 := by
    rw [hworked.edited.size]
    omega
  have hwhole := h.whole
  have hold := h.size_eq
  have hcount : s'.direntCount ino = s.direntCount ino + 1 := by
    rw [S5.direntCount, S5.direntCount, hsize]
    simp only [sizeofS5Dirent]
    omega
  simp only [sizeofS5Dirent, s5MaxFileSize] at hwhole hold hmax
  have hbyte (k j : Nat) (hk : k ≤ s.direntCount ino) (hj : j < 32) :
      s'.byteAt ino (32 * k + j) = if k = s.direntCount ino then b j
        else s.byteAt ino (32 * k + j) := by
    rw [hworked.edited.byteAt _ (by simp only [s5MaxFileSize]; omega), Block.copyIn]
    by_cases hlast : k = s.direntCount ino
    · rw [if_pos hlast, if_pos (by omega)]
      congr 1
      omega
    · rw [if_neg hlast, if_neg (by omega)]
  constructor
  · refine ⟨hworked.file, ?_, ?_, ?_, ?_⟩
    · rw [hworked.edited.inode]
      exact h.type
    · rw [hsize]
      simp only [sizeofS5Dirent]
      omega
    · rw [hsize]
      exact hmax
    · rw [hsize]
      obtain ⟨_, _, v1, s1, hlast, hfirst, hrest⟩ := hw
      exact hrest.extended.reaches (hfirst.file.reached _ hlast)
  · rw [S5.dirents, S5.dirents, hcount, List.range_succ, List.map_append, List.map_singleton]
    congr 1
    · apply List.map_congr_left
      intro k hk
      have hlt := List.mem_range.mp hk
      apply S5.direntAt_congr
      intro j hj
      rw [sizeofS5Dirent, hbyte k j (le_of_lt hlt) hj, if_neg (ne_of_lt hlt)]
    · congr 1
      apply direntAt_eq_of_bytes
      intro j hj
      rw [sizeofS5Dirent, hbyte _ j (le_refl _) hj, if_pos rfl]

omit [BlockDev] in
theorem Edited.vnode {size : Nat} {bytes : Nat → UInt8} (h : Edited ino size bytes s s') {i : Nat}
    (hw : s.vnodes i = some w) : ∃ w', s'.vnodes i = some w' := by
  obtain ⟨w', hw', -⟩ := h.present i w hw
  exact ⟨w', hw'⟩

/-- There is no place for another entry, or its page is past the direct blocks and the indirect
block is not there. -/
def S5.Full (s : S5) (ino : Nat) : Prop :=
  s5MaxFileSize ≤ (s.inodes ino).s5Size + sizeofS5Dirent ∨
    ¬ Reaches s ino (((s.inodes ino).s5Size + sizeofS5Dirent) / 4096)

omit [BlockDev] in
theorem Edited.full {bytes : Nat → UInt8} (hext : ∀ n, Reaches s ino n → Reaches s' ino n)
    (h : Edited ino (s.inodes ino).s5Size bytes s s') (hfull : s'.Full ino) : s.Full ino := by
  rw [S5.Full, h.size] at hfull
  exact hfull.imp_right fun hno hreach => hno (hext _ hreach)

/-- **`s5_link`** refuses a name that is there; else it adds an entry at the end, or has no place
for one and no effect. -/
theorem OpenDir.wp_s5Link (h : OpenDir D ino v s) (hchild : s.vnodes child = some w)
    (hlen : ofInt32 w.vnLen = UInt32.ofNat (s.inodes child).s5Size) (hname : IsName name namelen) :
    wp (s5Link ino child name namelen) (fun r s' =>
      0 ≤ found (s.dirents ino) (nameOf name namelen) ∧ r < 0 ∧ (∃ v', Browsed D ino v s v' s') ∨
      found (s.dirents ino) (nameOf name namelen) < 0 ∧
        (r < 0 ∧ s.Full ino ∧ (∃ v', Browsed D ino v s v' s') ∨
        r = 0 ∧ ∃ v', SettledDir D ino v' s' ∧ s'.dirents ino =
          s.dirents ino ++ [⟨UInt32.ofNat child, nameOf name namelen⟩])) s := by
  rw [s5Link, wp_bind, wp_of_eq (getVnode_apply h.file.held.vnode), wp_bind, kassert, wp_check]
  refine ⟨decide_eq_true h.vnMode, ?_⟩
  rw [wp_bind, wp_get, wp_bind, kassert, wp_check]
  refine ⟨decide_eq_true h.file.assert_len, ?_⟩
  rw [wp_bind, wp_of_eq (getVnode_apply hchild), wp_bind, kassert, wp_check]
  refine ⟨decide_eq_true hlen, ?_⟩
  refine wp_bind_of (h.wp_s5FindDirent (by rw [length_nameOf]; exact hname.fits) hname.ne_nil) ?_
  rintro r s1 ⟨rfl, v1, hb⟩
  by_cases hfound : 0 ≤ found (s.dirents ino) (nameOf name namelen)
  · rw [if_pos hfound]
    exact wp_pure.mpr (Or.inl ⟨hfound, by decide, v1, hb⟩)
  rw [if_neg hfound]
  have hnone := not_le.mp hfound
  obtain ⟨h1, top, hw1⟩ := hb
  obtain ⟨w1, hchild1⟩ := hw1.edited.vnode hchild
  have hok1 := h1.file.inv.vnode child w1 hchild1
  obtain ⟨free, htable⟩ := h1.file.inv.books.table
  rw [wp_bind, wp_get, wp_bind, kassert, wp_check]
  refine ⟨decide_eq_true (htable.number child hok1.lt), ?_⟩
  rw [wp_bind, kassert, wp_check]
  refine ⟨decide_eq_true hname.ends, ?_⟩
  rw [wp_bind, wp_of_eq (getVnode_apply h1.file.held.vnode), wp_bind, kassert, wp_check]
  refine ⟨decide_eq_true h1.file.assert_len, ?_⟩
  have hroom := h1.room
  simp only [s5MaxFileSize] at hroom
  refine wp_bind_of (wp_s5WriteFile h1.file (by omega)
    (Or.inl (by simp only [sizeofS5Dirent]; omega))) ?_
  rintro r s2 ⟨v2, ⟨hneg, hfull, top', hw2⟩ | ⟨rfl, hmax, hwrote⟩⟩
  · have hbrowsed := (h.worked hw1).trans (h1.worked hw2)
    have hplace : s.Full ino := hw1.edited.full (fun _ => hw1.extended.reaches) hfull
    rw [if_neg (by simp only [sizeofS5Dirent]; omega)]
    exact wp_pure.mpr (Or.inr ⟨hnone, Or.inl ⟨hneg, hplace, v2, hbrowsed⟩⟩)
  · obtain ⟨hsettled, hdirents⟩ := h1.appended hmax hwrote
    rw [decode_encodeDirent hname, (h.worked hw1).dirents] at hdirents
    rw [if_pos rfl]
    obtain ⟨w2, hchild2⟩ := hwrote.worked.edited.vnode hchild1
    have hok2 := hsettled.file.inv.vnode child w2 hchild2
    split
    · exact wp_pure.mpr (Or.inr ⟨hnone, Or.inr ⟨rfl, v2, hsettled, hdirents⟩⟩)
    · rw [wp_bind, wp_get, wp_bind, setLinkcount, wp_modify]
      have hkeep := Undisturbed.setLinks ino child s2
        (toInt16 ((s2.inodes child).s5Linkcount + 1))
      have hinv := hsettled.file.inv.setInode hok2 (s2.inodes child).s5Un
        (toInt16 ((s2.inodes child).s5Linkcount + 1))
      refine wp_pure.mpr (Or.inr ⟨hnone, Or.inr ⟨rfl, v2, hsettled.undisturbed hinv hkeep, ?_⟩⟩)
      exact hkeep.dirents.trans hdirents

end CodingSample.S5fs
