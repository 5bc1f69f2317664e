import CodingSample.S5fs.Dirents
import CodingSample.Vfs.Getdent

/-!
# Reading an S5 directory

`s5fs_readdir` reads the entry at the position; the position moves on by the size of an entry.
-/

namespace CodingSample.S5fs

open Prog Vfs

/-- The `dirent_t` that stands for an entry. -/
def S5Dirent.dirent (e : S5Dirent) : Dirent := ⟨e.s5dInode.toNat, 0, e.s5dName⟩

variable [BlockDev]

/-- `s5fs_readdir` -/
def s5fsReaddir : Readdir Fault S5 := fun ino offset => do
  let v ← getVnode ino
  kassert (v.vnMode = .dir)
  let r ← s5ReadFile ino offset Block.zero sizeofS5Dirent
  if r.1 < 0 then
    pure (r.1, none)
  else if r.1 = 0 then
    pure (r.1, none)
  else
    pure (r.1, some (decodeDirent r.2).dirent)

variable {D : Multiset UInt32} {s : S5} {ino : Nat} {v : Vnode}

/-- The entries from the position on are these. -/
def Remaining (D : Multiset UInt32) (ino : Nat) (pos : Int) (rest : List Dirent) (s : S5) :
    Prop :=
  ∃ v k, DirHeld D ino v s ∧ k ≤ s.direntCount ino ∧ pos = ((sizeofS5Dirent * k : Nat) : Int) ∧
    rest = ((s.dirents ino).drop k).map S5Dirent.dirent

theorem DirHeld.vnMode (h : DirHeld D ino v s) : v.vnMode = .dir := by
  have htype := (h.inv.vnode ino v h.held.vnode).type
  rw [h.shape.type] at htype
  exact (Option.some.inj htype).symm

theorem DirHeld.remaining (h : DirHeld D ino v s) :
    Remaining D ino 0 ((s.dirents ino).map S5Dirent.dirent) s :=
  ⟨v, 0, h, Nat.zero_le _, rfl, rfl⟩

/-- A call returns the entry at the position, and at the end of the directory nothing. -/
theorem enumerates (D : Multiset UInt32) (ino : Nat) :
    Enumerates s5fsReaddir ino (Remaining D ino) := by
  have hmode {s : S5} {v : Vnode} (h : DirHeld D ino v s) : decide (v.vnMode = .dir) = true :=
    decide_eq_true h.vnMode
  constructor
  · rintro pos d rest s ⟨v, k, h, hk, rfl, hrest⟩
    rcases Nat.lt_or_eq_of_le hk with hlt | rfl
    · rw [S5.drop_dirents hlt, List.map_cons, List.cons_eq_cons] at hrest
      obtain ⟨rfl, rfl⟩ := hrest
      rw [s5fsReaddir, wp_bind, wp_of_eq (getVnode_apply h.held.vnode), wp_bind, kassert, wp_check]
      refine ⟨hmode h, wp_bind_of (h.wp_readEntry hlt Block.zero) ?_⟩
      rintro ⟨ret, buf⟩ s1 ⟨rfl, hentry, h1, hlook⟩
      simp only [] at hentry ⊢
      rw [if_neg (by decide), if_neg (by decide), hentry]
      obtain ⟨v1, hdir1, -⟩ := h.looked h1 hlook
      have hsame := hlook.dirents ino
      have hcount : s1.direntCount ino = s.direntCount ino := by
        rw [← S5.length_dirents, ← S5.length_dirents, hsame]
      have hroom := h.shape.room
      have hsize := h.size_eq
      simp only [sizeofS5Dirent, s5MaxFileBlocks, s5BlockSize] at hsize hroom
      refine wp_pure.mpr ⟨Int.natCast_pos.mpr (by decide), ?_, rfl, v1, k + 1, hdir1, by omega, ?_,
        by rw [hsame]⟩
      · simp only [sizeofS5Dirent, intMax]
        omega
      · simp only [sizeofS5Dirent]
        omega
    · rw [List.drop_of_length_le (le_of_eq S5.length_dirents)] at hrest
      cases hrest
  · rintro pos s ⟨v, k, h, hk, rfl, hrest⟩
    have hlast : k = s.direntCount ino := by
      have hnil := List.map_eq_nil_iff.mp hrest.symm
      rw [List.drop_eq_nil_iff, S5.length_dirents] at hnil
      omega
    subst hlast
    have hend := h.wp_readEnd Block.zero sizeofS5Dirent
    rw [h.size_eq] at hend
    rw [s5fsReaddir, wp_bind, wp_of_eq (getVnode_apply h.held.vnode), wp_bind, kassert, wp_check]
    refine ⟨hmode h, wp_bind_of hend ?_⟩
    rintro _ _ ⟨rfl, rfl⟩
    rw [if_neg (by decide), if_pos rfl]
    exact wp_pure.mpr ⟨rfl, v, _, h, le_refl _, rfl, hrest⟩

end CodingSample.S5fs
