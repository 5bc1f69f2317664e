import CodingSample.Ramfs.Agreement
import CodingSample.Vfs.Getdent

/-!
# Reading a directory of the ramfs

`ramfs_readdir` skips the entries without a name, and returns how far it got.
-/

namespace CodingSample.Ramfs

open Prog Vfs

/-- The loop of `ramfs_readdir`, from entry `i`; it takes at most `fuel` steps. -/
def skipHoles (entries : Nat → Dirent) : Nat → Nat → Nat
  | 0, i => i
  | fuel + 1, i =>
      if i < ramfsMaxDirent ∧ (entries i).rdName.isEmpty then skipHoles entries fuel (i + 1) else i

/-- The `dirent_t` that is filled in for an entry. -/
def Dirent.filled (e : Dirent) : Vfs.Dirent := ⟨e.rdIno, 0, e.rdName.take (nameLen - 1)⟩

/-- What is returned from entry `dirEntry` on. -/
def readFrom (entries : Nat → Dirent) (dirEntry : Nat) : Int × Option Vfs.Dirent :=
  let targEntry := skipHoles entries (ramfsMaxDirent - dirEntry) dirEntry
  if ramfsMaxDirent ≤ targEntry then (0, none)
  else (sizeofDirent + (targEntry - dirEntry) * sizeofDirent, some (entries targEntry).filled)

def ramfsReaddir (dir : Nat) (offset : Int) : R (Int × Option Vfs.Dirent) := do
  let v ← getVnode dir
  kassert (v.vnMode = .dir)
  kassert (offset % sizeofDirent = 0)
  let entries ← getEntries dir
  check .badAccess (0 ≤ offset)
  pure (readFrom entries (offset / sizeofDirent).toNat)

/-- The entries that are in use, in table order, from entry `i` of `k`. -/
def liveFrom (entries : Nat → Dirent) (i k : Nat) : List Vfs.Dirent :=
  ((List.range' i k).filter fun j => !(entries j).rdName.isEmpty).map fun j =>
    ⟨(entries j).rdIno, 0, (entries j).rdName⟩

/-- A directory in core whose names end inside `rd_name`. -/
structure DirAt (s : Fs) (dir : Nat) (entries : Nat → Dirent) : Prop where
  vnode : ∃ v, s.vnodes dir = some v ∧ v.vnMode = .dir
  held : s.contents dir = some (.dir entries)
  fits : ∀ i, (entries i).rdName.length ≤ nameLen - 1

variable {entries : Nat → Dirent} {s : Fs} {dir i k : Nat} {offset : Int}

theorem skipHoles_cases (entries : Nat → Dirent) (h : i + k = ramfsMaxDirent) :
    liveFrom entries i k = [] ∧ skipHoles entries k i = ramfsMaxDirent ∨
      ∃ t, skipHoles entries k i = t ∧ i ≤ t ∧ t < ramfsMaxDirent ∧
        liveFrom entries i k = ⟨(entries t).rdIno, 0, (entries t).rdName⟩ ::
          liveFrom entries (t + 1) (ramfsMaxDirent - (t + 1)) := by
  induction k generalizing i with
  | zero => exact Or.inl ⟨rfl, h⟩
  | succ k ih =>
      have hlt : i < ramfsMaxDirent := by omega
      rw [skipHoles, liveFrom, List.range'_succ]
      by_cases hempty : (entries i).rdName.isEmpty = true
      · rw [if_pos ⟨hlt, hempty⟩, List.filter_cons_of_neg (by simp [hempty])]
        rcases ih (show i + 1 + k = ramfsMaxDirent by omega) with ⟨hlive, hskip⟩ | ⟨t, hskip, hle, hmax, hlive⟩
        · exact Or.inl ⟨hlive, hskip⟩
        · exact Or.inr ⟨t, hskip, by omega, hmax, hlive⟩
      · rw [if_neg (fun hboth => hempty hboth.2), List.filter_cons_of_pos (by simp [hempty])]
        refine Or.inr ⟨i, rfl, le_refl i, hlt, ?_⟩
        have hk : ramfsMaxDirent - (i + 1) = k := by omega
        rw [hk]
        rfl

theorem getEntries_apply (h : s.contents dir = some (.dir entries)) :
    getEntries dir s = .ok (entries, s) := by
  obtain ⟨inode, hi, he⟩ := inode_of_contents h
  rw [getEntries, bind_eq_of_ok (getInode_apply hi), he]
  rfl

/-- The position of a directory stands for the entries from there on. -/
def Remaining (fs : Fs) (entries : Nat → Dirent) (pos : Int) (rest : List Vfs.Dirent) (s : Fs) :
    Prop :=
  s = fs ∧ ∃ i, i ≤ ramfsMaxDirent ∧ pos = sizeofDirent * i ∧
    rest = liveFrom entries i (ramfsMaxDirent - i)

theorem DirAt.filled (h : DirAt s dir entries) (i : Nat) :
    (entries i).filled = ⟨(entries i).rdIno, 0, (entries i).rdName⟩ := by
  rw [Dirent.filled, List.take_of_length_le (h.fits i)]

theorem DirAt.wp_readdir (h : DirAt s dir entries)
    {Q : Int × Option Vfs.Dirent → Fs → Prop} (i : Nat) :
    wp (ramfsReaddir dir (sizeofDirent * i)) Q s ↔ Q (readFrom entries i) s := by
  obtain ⟨v, hv, hmode⟩ := h.vnode
  have hmod : ((sizeofDirent : Nat) : Int) * i % sizeofDirent = 0 := by simp
  have hdiv : (((sizeofDirent : Nat) : Int) * i / sizeofDirent).toNat = i := by simp
  have hpos : 0 ≤ ((sizeofDirent : Nat) : Int) * i := by
    simp only [sizeofDirent]
    omega
  rw [ramfsReaddir, wp_bind, wp_of_eq (getVnode_apply hv)]
  simp only [wp_bind, kassert, wp_check, hmode, hmod, decide_true, true_and,
    wp_of_eq (getEntries_apply h.held), decide_eq_true hpos, hdiv, wp_pure]

theorem DirAt.enumerates (h : DirAt s dir entries) :
    Enumerates ramfsReaddir dir (Remaining s entries) := by
  refine ⟨?_, ?_⟩
  · rintro pos d rest fs ⟨rfl, i, hi, rfl, hrest⟩
    rw [h.wp_readdir i]
    rcases skipHoles_cases entries (Nat.add_sub_of_le hi) with ⟨hlive, -⟩ | ⟨t, hskip, hle, hmax, hlive⟩
    · rw [hlive] at hrest
      cases hrest
    · rw [hlive] at hrest
      cases hrest
      rw [readFrom, hskip, if_neg (not_le.mpr hmax), h.filled]
      simp only [ramfsMaxDirent] at hmax
      have hnext : ((sizeofDirent : Nat) : Int) * i + (sizeofDirent + (t - i) * sizeofDirent) =
          sizeofDirent * ((t + 1 : Nat) : Int) := by
        simp only [sizeofDirent]
        push_cast
        omega
      refine ⟨?_, ?_, rfl, rfl, t + 1, hmax, hnext, rfl⟩
      · simp only [sizeofDirent]
        omega
      · rw [hnext, intMax]
        simp only [sizeofDirent]
        omega
  · rintro pos fs ⟨rfl, i, hi, rfl, hrest⟩
    rw [h.wp_readdir i]
    rcases skipHoles_cases entries (Nat.add_sub_of_le hi) with ⟨-, hskip⟩ | ⟨t, -, -, -, hlive⟩
    · rw [readFrom, hskip, if_pos (le_refl _)]
      exact ⟨rfl, rfl, i, hi, rfl, hrest⟩
    · rw [hlive] at hrest
      cases hrest

end CodingSample.Ramfs
