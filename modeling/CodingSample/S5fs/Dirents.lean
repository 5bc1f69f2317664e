import CodingSample.S5fs.Reading

/-!
# Directory entries

A directory is a file of entries of 32 bytes. `s5_find_dirent` reads them one after another.
-/

namespace CodingSample.S5fs

open Prog

/-- `sizeof(s5_dirent_t)` -/
@[simp] def sizeofS5Dirent : Nat := 32

@[simp] def s5NameLen : Nat := 28

/-- `s5_dirent_t`, with the name up to its terminator. -/
structure S5Dirent where
  s5dInode : UInt32
  s5dName : List UInt8
  deriving DecidableEq

/-- The string in a field of `n` bytes. -/
def cString (b : Nat → UInt8) (n : Nat) : List UInt8 :=
  ((List.range n).map b).takeWhile (· ≠ 0)

/-- The entry in a buffer. -/
def decodeDirent (b : Block) : S5Dirent :=
  ⟨b.word 0, cString (fun j => b (4 + j)) s5NameLen⟩

/-- `name_match`, for a name of the length given with it. -/
def nameMatch (fname name : List UInt8) : Bool :=
  fname.length == name.length && fname.take name.length == name

theorem nameMatch_iff {fname name : List UInt8} : nameMatch fname name = true ↔ fname = name := by
  rw [nameMatch, Bool.and_eq_true, beq_iff_eq, beq_iff_eq]
  constructor
  · rintro ⟨hlen, htake⟩
    rwa [List.take_of_length_le (le_of_eq hlen)] at htake
  · rintro rfl
    exact ⟨rfl, List.take_length⟩

theorem decodeDirent_congr {b b' : Block} (h : ∀ j < sizeofS5Dirent, b j = b' j) :
    decodeDirent b = decodeDirent b' := by
  have hword : b.word 0 = b'.word 0 := by
    rw [Block.word, Block.word, h _ (by decide), h _ (by decide), h _ (by decide),
      h _ (by decide)]
  have hname : (List.range s5NameLen).map (fun j => b (4 + j)) =
      (List.range s5NameLen).map fun j => b' (4 + j) := by
    apply List.map_congr_left
    intro j hj
    have hlt := List.mem_range.mp hj
    apply h
    simp only [s5NameLen, sizeofS5Dirent] at hlt ⊢
    omega
  rw [decodeDirent, decodeDirent, hword, cString, cString, hname]

/-! ### Directories -/

namespace S5

/-- Entry `k` of a directory. -/
def direntAt (s : S5) (ino k : Nat) : S5Dirent :=
  decodeDirent fun j => s.byteAt ino (sizeofS5Dirent * k + j)

def direntCount (s : S5) (ino : Nat) : Nat := (s.inodes ino).s5Size / sizeofS5Dirent

/-- The entries of a directory. -/
def dirents (s : S5) (ino : Nat) : List S5Dirent :=
  (List.range (s.direntCount ino)).map (s.direntAt ino)

end S5

/-- A directory of whole entries. The page a next entry would end in can be reached: the write of
the last entry looked for it. -/
structure IsDirectory (s : S5) (ino : Nat) : Prop where
  type : (s.inodes ino).s5Type = .dir
  whole : (s.inodes ino).s5Size % sizeofS5Dirent = 0
  room : (s.inodes ino).s5Size < s5MaxFileBlocks * s5BlockSize
  reach : Reaches s ino ((s.inodes ino).s5Size / s5BlockSize)

/-- A directory in core that someone holds. -/
structure DirHeld [BlockDev] (D : Multiset UInt32) (ino : Nat) (v : Vnode) (s : S5) : Prop where
  inv : PageInv D s
  held : HeldFile D ino v s
  shape : IsDirectory s ino
  len : v.vnLen = (s.inodes ino).s5Size

variable {D : Multiset UInt32} {s s' : S5} {ino n k : Nat} {v : Vnode} {name : List UInt8}

theorem S5.length_dirents : (s.dirents ino).length = s.direntCount ino := by
  simp [S5.dirents]

theorem S5.getElem?_dirents (hk : k < s.direntCount ino) :
    (s.dirents ino)[k]? = some (s.direntAt ino k) := by
  simp [S5.dirents, hk]

theorem S5.drop_dirents (hk : k < s.direntCount ino) :
    (s.dirents ino).drop k = s.direntAt ino k :: (s.dirents ino).drop (k + 1) := by
  have hlt : k < (s.dirents ino).length := by rwa [S5.length_dirents]
  rw [List.drop_eq_getElem_cons hlt]
  congr 1
  exact Option.some.inj ((List.getElem?_eq_getElem hlt).symm.trans (S5.getElem?_dirents hk))

namespace Looked

theorem direntAt (h : Looked s s') (ino k : Nat) : s'.direntAt ino k = s.direntAt ino k := by
  simp only [S5.direntAt, h.byteAt]

theorem dirents (h : Looked s s') (ino : Nat) : s'.dirents ino = s.dirents ino := by
  have hcount : s'.direntCount ino = s.direntCount ino := by
    rw [S5.direntCount, S5.direntCount, h.untouched.inodes]
  rw [S5.dirents, S5.dirents, hcount]
  exact List.map_congr_left fun k _ => h.direntAt ino k

theorem isDirectory (h : Looked s s') (hdir : IsDirectory s ino) : IsDirectory s' ino := by
  have hinodes := h.untouched.inodes
  refine ⟨?_, ?_, ?_, ?_⟩
  · rw [hinodes]
    exact hdir.type
  · rw [hinodes]
    exact hdir.whole
  · rw [hinodes]
    exact hdir.room
  · rw [Reaches, hinodes]
    exact hdir.reach

end Looked

/-- The pages up to the end of a directory can be reached. -/
theorem IsDirectory.atHand (h : IsDirectory s ino) (v : Vnode)
    (hn : n ≤ (s.inodes ino).s5Size / s5BlockSize) : s.AtHand ino n v := by
  have hroom := h.room
  simp only [s5MaxFileBlocks, s5BlockSize] at hroom hn
  refine ⟨?_, Or.inr ?_⟩
  · simp only [s5MaxFileBlocks]
    omega
  · rcases h.reach with hlt | hne
    · refine Or.inl (lt_of_le_of_lt hn ?_)
      simpa using hlt
    · exact Or.inr hne

variable [BlockDev]

/-! ### Looking for an entry -/

/-- The loop of `s5_find_dirent`, a round for each entry. -/
def s5FindFrom (ino : Nat) (name : List UInt8) : Nat → Int → K Int
  | 0, _ => fail .panic
  | fuel + 1, offset => do
      let r ← s5ReadFile ino offset Block.zero sizeofS5Dirent
      if r.1 < 0 then
        pure r.1
      else if r.1 = 0 then
        pure (-enoent)
      else if r.1 ≠ sizeofS5Dirent then
        pure (-1)
      else if nameMatch (decodeDirent r.2).s5dName name then
        pure (toInt32 (decodeDirent r.2).s5dInode)
      else
        s5FindFrom ino name fuel (offset + sizeofS5Dirent)

/-- `s5_find_dirent` -/
def s5FindDirent (ino : Nat) (name : List UInt8) : K Int := do
  kassert (name.length ≤ s5NameLen - 1)
  let v ← getVnode ino
  let s ← get
  kassert (ofInt32 v.vnLen = UInt32.ofNat (s.inodes ino).s5Size)
  if name.length = 0 then
    pure 0
  else
    s5FindFrom ino name ((v.vnLen / sizeofS5Dirent).toNat + 1) 0

/-- What `s5_find_dirent` returns for the entries from some point on. -/
def found (entries : List S5Dirent) (name : List UInt8) : Int :=
  match entries.find? fun e => nameMatch e.s5dName name with
  | some e => toInt32 e.s5dInode
  | none => -enoent

/-- The loop over a list of entries, when each read finds its entry and keeps what is known. -/
theorem wp_s5FindFrom_of {I : S5 → Prop} {entries : List S5Dirent} {fuel : Nat}
    (hentry : ∀ s k e, I s → entries[k]? = some e →
      wp (s5ReadFile ino ((sizeofS5Dirent * k : Nat) : Int) Block.zero sizeofS5Dirent)
        (fun r s' => r.1 = sizeofS5Dirent ∧ decodeDirent r.2 = e ∧ I s') s)
    (hend : ∀ s, I s →
      wp (s5ReadFile ino ((sizeofS5Dirent * entries.length : Nat) : Int) Block.zero sizeofS5Dirent)
        (fun r s' => r.1 = 0 ∧ I s') s)
    (h : I s) (hk : k ≤ entries.length) (hfuel : entries.length - k < fuel) :
    wp (s5FindFrom ino name fuel ((sizeofS5Dirent * k : Nat) : Int)) (fun r s' =>
      r = found (entries.drop k) name ∧ I s') s := by
  induction fuel generalizing s k with
  | zero => exact absurd hfuel (Nat.not_lt_zero _)
  | succ fuel ih =>
      rw [s5FindFrom]
      rcases Nat.lt_or_eq_of_le hk with hlt | rfl
      · refine wp_bind_of (hentry s k _ h (List.getElem?_eq_getElem hlt)) ?_
        rintro ⟨ret, buf⟩ s1 ⟨rfl, hbuf, h1⟩
        simp only [] at hbuf ⊢
        rw [if_neg (by decide), if_neg (by decide), if_neg (by simp), hbuf,
          List.drop_eq_getElem_cons hlt, found, List.find?_cons]
        cases hmatch : nameMatch entries[k].s5dName name with
        | true => exact wp_pure.mpr ⟨rfl, h1⟩
        | false =>
            have hnext : ((sizeofS5Dirent * k : Nat) : Int) + (sizeofS5Dirent : Nat) =
                ((sizeofS5Dirent * (k + 1) : Nat) : Int) := by
              simp only [sizeofS5Dirent]
              omega
            rw [if_neg Bool.false_ne_true, hnext]
            exact ih h1 hlt (by omega)
      · refine wp_bind_of (hend s h) ?_
        rintro ⟨ret, buf⟩ s1 ⟨rfl, h1⟩
        rw [if_neg (lt_irrefl 0), if_pos rfl, List.drop_length]
        exact wp_pure.mpr ⟨rfl, h1⟩

namespace DirHeld

theorem looked (h : DirHeld D ino v s) (h' : PageInv D s') (hlook : Looked s s') :
    ∃ v', DirHeld D ino v' s' ∧ v.Grows v' := by
  obtain ⟨v', hheld, hgrows⟩ := h.held.looked h' hlook
  refine ⟨v', ⟨h', hheld, hlook.isDirectory h.shape, ?_⟩, hgrows⟩
  rw [hgrows.len, h.len, hlook.untouched.inodes]

/-- Reading entry `k`. -/
theorem wp_readEntry (h : DirHeld D ino v s) (hk : k < s.direntCount ino) (dest : Block) :
    wp (s5ReadFile ino ((sizeofS5Dirent * k : Nat) : Int) dest sizeofS5Dirent) (fun r s' =>
      r.1 = sizeofS5Dirent ∧ decodeDirent r.2 = s.direntAt ino k ∧ PageInv D s' ∧
        Looked s s') s := by
  have hroom := h.shape.room
  have hwhole := h.shape.whole
  have hblock (n : Nat) (hn : n ≤ (s.inodes ino).s5Size) : s.AtHand ino (n / 4096) v :=
    h.shape.atHand v (Nat.div_le_div_right hn)
  simp only [S5.direntCount, sizeofS5Dirent, s5MaxFileBlocks, s5BlockSize] at hk hroom hwhole ⊢
  have hmin : min (32 * k + 32) (s.inodes ino).s5Size = 32 * k + 32 := by omega
  refine wp_mono (wp_s5ReadFile h.inv h.held h.len rfl (by omega) (by omega) (by omega)
    (hblock _ (by omega)) (hblock _ (by omega)) (by omega)) ?_
  rintro r s' ⟨hr, hbytes, h', hlook⟩
  rw [hmin] at hr hbytes
  refine ⟨by omega, ?_, h', hlook⟩
  apply decodeDirent_congr
  intro j hj
  simp only [sizeofS5Dirent] at hj
  exact hbytes j (by omega)

/-- Reading past the last entry. -/
theorem wp_readEnd (h : DirHeld D ino v s) (dest : Block) (len : Nat) :
    wp (s5ReadFile ino (s.inodes ino).s5Size dest len) (fun r s' => r = (0, dest) ∧ s' = s) s := by
  have hroom := h.shape.room
  simp only [s5MaxFileBlocks, s5BlockSize] at hroom
  have hassert : ofInt32 v.vnLen = UInt32.ofNat (s.inodes ino).s5Size := by
    rw [h.len, ofInt32]
    congr 1
    omega
  rw [s5ReadFile, wp_bind, wp_of_eq (getVnode_apply h.held.vnode), wp_bind, wp_get, wp_bind,
    kassert, wp_check]
  refine ⟨decide_eq_true hassert, ?_⟩
  rw [if_pos (le_of_eq h.len)]
  exact wp_pure.mpr ⟨rfl, rfl⟩

theorem size_eq (h : DirHeld D ino v s) :
    (s.inodes ino).s5Size = sizeofS5Dirent * s.direntCount ino := by
  have hwhole := h.shape.whole
  simp only [S5.direntCount, sizeofS5Dirent] at hwhole ⊢
  omega

theorem wp_s5FindFrom {fuel : Nat} (h : DirHeld D ino v s) (hfuel : s.direntCount ino < fuel) :
    wp (s5FindFrom ino name fuel 0) (fun r s' =>
      r = found (s.dirents ino) name ∧ PageInv D s' ∧ Looked s s') s := by
  have hread : wp (s5FindFrom ino name fuel ((sizeofS5Dirent * 0 : Nat) : Int)) (fun r s' =>
      r = found ((s.dirents ino).drop 0) name ∧ PageInv D s' ∧ Looked s s') s := by
    apply wp_s5FindFrom_of (I := fun s' => PageInv D s' ∧ Looked s s')
    · rintro t k e ⟨ht, hlook⟩ hk
      obtain ⟨v1, hdir, -⟩ := h.looked ht hlook
      rw [← hlook.dirents ino] at hk
      obtain ⟨hlt, hget⟩ := List.getElem?_eq_some_iff.mp hk
      rw [S5.length_dirents] at hlt
      rw [S5.getElem?_dirents hlt] at hk
      refine wp_mono (hdir.wp_readEntry hlt Block.zero) ?_
      rintro r s' ⟨hr, hbuf, h', hlook'⟩
      exact ⟨hr, hbuf.trans (Option.some.inj hk), h', hlook.trans hlook'⟩
    · rintro t ⟨ht, hlook⟩
      obtain ⟨v1, hdir, -⟩ := h.looked ht hlook
      have hend := hdir.wp_readEnd Block.zero sizeofS5Dirent
      rw [hdir.size_eq, ← S5.length_dirents, hlook.dirents] at hend
      refine wp_mono hend ?_
      rintro _ _ ⟨rfl, rfl⟩
      exact ⟨rfl, ht, hlook⟩
    · exact ⟨h.inv, .refl s⟩
    · exact Nat.zero_le _
    · rw [S5.length_dirents]
      omega
  exact hread

/-- **`s5_find_dirent` returns the inode of the first entry with the name.** For the empty name
it returns inode `0` without looking. -/
theorem wp_s5FindDirent (h : DirHeld D ino v s) (hname : name.length < s5NameLen) :
    wp (s5FindDirent ino name) (fun r s' =>
      r = (if name = [] then 0 else found (s.dirents ino) name) ∧ PageInv D s' ∧
        Looked s s') s := by
  have hroom := h.shape.room
  simp only [s5MaxFileBlocks, s5BlockSize] at hroom
  have hassert : ofInt32 v.vnLen = UInt32.ofNat (s.inodes ino).s5Size := by
    rw [h.len, ofInt32]
    congr 1
    omega
  rw [s5FindDirent, wp_bind, kassert, wp_check]
  refine ⟨decide_eq_true (by simp only [s5NameLen] at hname ⊢; omega), ?_⟩
  rw [wp_bind, wp_of_eq (getVnode_apply h.held.vnode), wp_bind, wp_get, wp_bind, kassert, wp_check]
  refine ⟨decide_eq_true hassert, ?_⟩
  by_cases hnil : name = []
  · rw [if_pos (by rw [hnil]; rfl), if_pos hnil]
    exact wp_pure.mpr ⟨rfl, h.inv, .refl _⟩
  · rw [if_neg (mt List.length_eq_zero_iff.mp hnil), if_neg hnil]
    have hfuel : (v.vnLen / (sizeofS5Dirent : Nat)).toNat = s.direntCount ino := by
      rw [h.len, S5.direntCount]
      simp only [sizeofS5Dirent]
      omega
    rw [hfuel]
    exact h.wp_s5FindFrom (Nat.lt_succ_self _)

end DirHeld

end CodingSample.S5fs
