import CodingSample.S5fs.Removing

/-!
# Directories as finite maps

A run of calls of `s5_link`, `s5_remove_dirent` and `s5_find_dirent` on one directory, and the map
from names to inodes that it stands for.
-/

namespace CodingSample.S5fs

open Prog

/-- What a directory stands for: the inode under each name. -/
abbrev Names : Type := List UInt8 → Option UInt32

/-- What looking a name up returns. -/
def Names.lookup (f : Names) (name : List UInt8) : Int :=
  match f name with
  | some i => i.toNat
  | none => -enoent

/-- The entries of a directory are the names of `f`, each once. -/
structure HoldsNames (f : Names) (ino : Nat) (s : S5) : Prop where
  entries : KeyedList.Holds S5Dirent.s5dName S5Dirent.s5dInode (s.dirents ino) f
  small : ∀ name i, f name = some i → i.toNat < 2147483648

variable {D : Multiset UInt32} {m s s' s₀ : S5} {ino : Nat} {v v' : Vnode} {f f₀ : Names}
  {name : List UInt8} {r : Int}

theorem HoldsNames.congr (h : HoldsNames f ino s) (hsame : s'.dirents ino = s.dirents ino) :
    HoldsNames f ino s' := ⟨hsame ▸ h.entries, h.small⟩

/-- `s5_find_dirent` computes the map. -/
theorem HoldsNames.found (h : HoldsNames f ino s) (name : List UInt8) :
    found (s.dirents ino) name = f.lookup name := by
  have hmatch : (fun e : S5Dirent => nameMatch e.s5dName name) =
      fun e => decide (e.s5dName = name) := by
    funext e
    rw [Bool.eq_iff_iff, nameMatch_iff, decide_eq_true_iff]
  have hfind := h.entries.find (k := name)
  rw [S5fs.found, hmatch, Names.lookup, ← hfind]
  cases hfirst : (s.dirents ino).find? fun e => decide (e.s5dName = name) with
  | none => rfl
  | some e =>
      rw [hfirst] at hfind
      have hsmall := h.small name e.s5dInode hfind.symm
      simp only [Option.map_some]
      rw [toInt32, if_pos hsmall]

theorem Names.lookup_neg_iff : f.lookup name < 0 ↔ f name = none := by
  rw [lookup]
  cases f name with
  | none => simp [enoent]
  | some i => simp

inductive DirCall where
  | link (child : Nat) (name : Block) (namelen : Nat)
  | remove (name : List UInt8)
  | find (name : List UInt8)

namespace DirCall

/-- What the assertions ask of a call: a name that fits in an entry, a child in core whose size is
that of its inode, and for the inode that loses a name a link count that has counted it. -/
def Made (f : Names) (s : S5) : DirCall → Prop
  | .link child name namelen => IsName name namelen ∧ child < 2147483648 ∧
      ∃ w, s.vnodes child = some w ∧ ofInt32 w.vnLen = UInt32.ofNat (s.inodes child).s5Size
  | .remove name => name.length < s5NameLen ∧ ∀ i, f name = some i → Droppable i.toNat s
  | .find name => name.length < s5NameLen ∧ name ≠ []

/-- What a call returns for the map. A name that is not there is added, but when there is no place
for it. -/
def Right (f : Names) (ino : Nat) (s : S5) : DirCall → Int → Prop
  | .link _ name namelen, r => if (f (nameOf name namelen)).isSome then r < 0 else
      r = 0 ∨ r < 0 ∧ s.Full ino
  | .remove name, r => r = if (f name).isSome then 0 else -enoent
  | .find name, r => r = f.lookup name

/-- What a call that returned `r` leaves of the map. -/
def after (f : Names) (r : Int) : DirCall → Names
  | .link child name namelen =>
      if r < 0 then f else Function.update f (nameOf name namelen) (some (UInt32.ofNat child))
  | .remove name => Function.update f name none
  | .find _ => f

variable [BlockDev]

def run (ino : Nat) : DirCall → K Int
  | .link child name namelen => s5Link ino child name namelen
  | .remove name => s5RemoveDirent ino name
  | .find name => s5FindDirent ino name

end DirCall

variable [BlockDev]

/-- A run of calls on a directory; `P` says which calls are made, and the map follows what they
return. -/
inductive DirRun (ino : Nat) (P : Names → S5 → DirCall → Prop) (s₀ : S5) (f₀ : Names) :
    S5 → Names → Prop
  | start : DirRun ino P s₀ f₀ s₀ f₀
  | call {s s' : S5} {f : Names} {c : DirCall} {r : Int} : DirRun ino P s₀ f₀ s f → P f s c →
      c.run ino s = .ok (r, s') → DirRun ino P s₀ f₀ s' (c.after f r)

theorem SettledDir.browsed (h : SettledDir D ino v s) (hb : Browsed D ino v s v' s') :
    SettledDir D ino v' s' := by
  obtain ⟨hdir, top, hw⟩ := hb
  refine ⟨hdir.file, hdir.type, hdir.whole, hdir.room, ?_⟩
  rw [hw.edited.size]
  exact hw.extended.reaches h.reach

/-- One call does to the map what it says, and keeps the directory held. -/
theorem wp_dirCall (h : SettledDir D ino v s) (hnames : HoldsNames f ino s) {c : DirCall}
    (hmade : c.Made f s) :
    wp (c.run ino) (fun r s' => c.Right f ino s r ∧ HoldsNames (c.after f r) ino s' ∧
      ∃ v', SettledDir D ino v' s') s := by
  have hopen := h.openDir
  cases c with
  | link child name namelen =>
      obtain ⟨hname, hsmall, w, hw, hlen⟩ := hmade
      refine wp_mono (hopen.wp_s5Link hw hlen hname) ?_
      have hfail : ∀ (r : Int) s', r < 0 → (∃ v', Browsed D ino v s v' s') →
          HoldsNames ((DirCall.link child name namelen).after f r) ino s' ∧
            ∃ v', SettledDir D ino v' s' := by
        rintro r s' hneg ⟨v', hb⟩
        rw [DirCall.after, if_pos hneg]
        exact ⟨hnames.congr hb.dirents, v', h.browsed hb⟩
      rintro r s' (⟨hfound, hneg, hb⟩ | ⟨hnone, hrest⟩)
      · rw [hnames.found, ← not_lt, Names.lookup_neg_iff, ← ne_eq,
          ← Option.isSome_iff_ne_none] at hfound
        refine ⟨?_, hfail r s' hneg hb⟩
        rw [DirCall.Right, if_pos hfound]
        exact hneg
      rw [hnames.found, Names.lookup_neg_iff] at hnone
      have hright : (DirCall.link child name namelen).Right f ino s r ↔
          r = 0 ∨ r < 0 ∧ s.Full ino := by
        rw [DirCall.Right, hnone]
        rfl
      rcases hrest with ⟨hneg, hfull, hb⟩ | ⟨rfl, v', hsettled, hdirents⟩
      · exact ⟨hright.mpr (Or.inr ⟨hneg, hfull⟩), hfail r s' hneg hb⟩
      · refine ⟨hright.mpr (Or.inl rfl), ?_, v', hsettled⟩
        rw [DirCall.after, if_neg (lt_irrefl 0)]
        constructor
        · rw [hdirents]
          exact hnames.entries.append (x := ⟨UInt32.ofNat child, nameOf name namelen⟩) hnone
        · intro name' i hi
          by_cases hsame : name' = nameOf name namelen
          · subst hsame
            rw [Function.update_self] at hi
            rw [← Option.some.inj hi, UInt32.toNat_ofNat']
            omega
          · rw [Function.update_of_ne hsame] at hi
            exact hnames.small name' i hi
  | remove name =>
      obtain ⟨hlen, hdrop⟩ := hmade
      have hentry : ∀ e ∈ s.dirents ino, e.s5dName = name → f name = some e.s5dInode :=
        fun e he hname => (hnames.entries.entry name _).mpr ⟨e, he, hname, rfl⟩
      have hdropped : ∀ e ∈ s.dirents ino, e.s5dName = name → Droppable e.s5dInode.toNat s :=
        fun e he hname => hdrop _ (hentry e he hname)
      refine wp_mono (hopen.wp_s5RemoveDirent hlen hdropped) ?_
      have hless : ∀ name' i, Function.update f name none name' = some i →
          i.toNat < 2147483648 := by
        intro name' i hi
        by_cases hsame : name' = name
        · subst hsame
          rw [Function.update_self] at hi
          cases hi
        · rw [Function.update_of_ne hsame] at hi
          exact hnames.small name' i hi
      rintro r s' (⟨hnone, rfl, v', hb⟩ |
        ⟨rfl, i, e, last, v', hi, hname, hlast, hsettled, hdirents⟩)
      · have habsent := hnames.entries.eq_none_iff.mpr hnone
        refine ⟨?_, ?_, v', h.browsed hb⟩
        · rw [DirCall.Right, habsent]
          rfl
        · have hsame : Function.update f name none = f := by
            rw [← habsent]
            exact Function.update_eq_self name f
          rw [DirCall.after, hsame]
          exact hnames.congr hb.dirents
      · have hthere := hentry e (List.mem_of_getElem? hi) hname
        refine ⟨?_, ⟨?_, hless⟩, v', hsettled⟩
        · rw [DirCall.Right, hthere]
          rfl
        · obtain ⟨hlt, -⟩ := List.getElem?_eq_some_iff.mp hi
          have hperm := KeyedList.takeOut_perm hlt hlast
          have herased := hnames.entries.eraseIdx hi
          rw [hdirents, DirCall.after, ← hname]
          exact herased.perm hperm.symm
  | find name =>
      obtain ⟨hlen, hne⟩ := hmade
      refine wp_mono (hopen.wp_s5FindDirent hlen hne) ?_
      rintro r s' ⟨rfl, v', hb⟩
      exact ⟨hnames.found name, hnames.congr hb.dirents, v', h.browsed hb⟩

/-- Every run keeps the directory and its map together. -/
theorem DirRun.holdsNames (hrun : DirRun ino (fun f s c => c.Made f s) s₀ f₀ s f)
    (h : SettledDir D ino v s₀) (hnames : HoldsNames f₀ ino s₀) :
    HoldsNames f ino s ∧ ∃ v', SettledDir D ino v' s := by
  induction hrun with
  | start => exact ⟨hnames, v, h⟩
  | call _ hmade hcall ih =>
      obtain ⟨hnames1, v1, h1⟩ := ih
      obtain ⟨r, s', hres, -, hnames', hsettled⟩ := wp_dirCall h1 hnames1 hmade
      rw [hcall] at hres
      cases hres
      exact ⟨hnames', hsettled⟩

/-- A directory in core that someone holds, with whole entries and its last page in reach. -/
structure HeldDir (ino : Nat) (v : Vnode) (s : S5) : Prop where
  vnode : s.vnodes ino = some v
  mode : v.vnMode = .dir
  held : v.vnNrespages < v.vnRefcount
  len : v.vnLen = (s.inodes ino).s5Size
  whole : (s.inodes ino).s5Size % sizeofS5Dirent = 0
  room : (s.inodes ino).s5Size < s5MaxFileSize
  reach : Reaches s ino ((s.inodes ino).s5Size / 4096)

theorem HeldDir.settled (h : HeldDir ino v s₀) (hstart : Mounted D m)
    (hcalls : PageRun (fun s c => c.Made s) m s₀) : SettledDir D ino v s₀ := by
  have hfile := hcalls.fileHeld hstart h.vnode (Or.inr h.mode) h.held h.len (le_of_lt h.room)
  refine ⟨hfile, ?_, h.whole, h.room, h.reach⟩
  have htype := (hfile.inv.vnode ino v h.vnode).type
  rw [h.mode] at htype
  cases hkind : (s₀.inodes ino).s5Type with
  | dir => rfl
  | free | data | chr | blk =>
      rw [hkind] at htype
      cases htype

/-- **A directory is a finite map.** In every state of every run of calls on it, its entries are
the map that the calls made, and the next call returns what the map says. -/
theorem directory_names (hstart : Mounted D m) (hcalls : PageRun (fun s c => c.Made s) m s₀)
    (hheld : HeldDir ino v s₀) (hnames : HoldsNames f₀ ino s₀)
    (hrun : DirRun ino (fun f s c => c.Made f s) s₀ f₀ s f) :
    HoldsNames f ino s ∧ ∀ c : DirCall, c.Made f s →
      wp (c.run ino) (fun r s' => c.Right f ino s r ∧ HoldsNames (c.after f r) ino s') s := by
  obtain ⟨hnames', v', h'⟩ := hrun.holdsNames (hheld.settled hstart hcalls) hnames
  refine ⟨hnames', fun c hmade => wp_mono (wp_dirCall h' hnames' hmade) ?_⟩
  rintro r s' ⟨hright, hafter, -⟩
  exact ⟨hright, hafter⟩

/-- A disk with an empty directory. -/
def emptyDir : S5 := { oneFree with inodes := fun i => ⟨0, i, .dir, 1, fun _ => 0, 0⟩ }

/-- The same disk with the directory in core. -/
def emptyDirHeld : S5 :=
  (emptyDir.setInode 0 { emptyDir.inodes 0 with s5Linkcount := 2 }).setVnode 0
    (some ⟨.dir, 0, 0, 1, [], fun _ => ⟨Block.zero, false⟩⟩)

/-- The string `a` in memory. -/
def letterName : Block := fun j => if j = 0 then 97 else 0

omit [BlockDev] in
theorem emptyDir_mounted : @Mounted plainDev {7} emptyDir := by
  refine @Mounted.mk plainDev _ _ ⟨[], ?_⟩ ⟨[], ?_⟩ (fun _ => rfl) fun _ => rfl
  · have hregion := @Ledger.region plainDev _ _ _ _ oneFree_ledger
    refine @Ledger.mk plainDev _ _ _ _ hregion ⟨by decide, .nil⟩ ?_ rfl
    simp [FreeList.listed, S5.freeList, emptyDir, oneFree, allMapped, mapped, indirectFamily]
  · refine ⟨fun i _ => rfl, by decide, .nil, List.nodup_nil, by simp, ?_⟩
    simp [emptyDir]

omit [BlockDev] in
theorem emptyDirHeld_calls : @PageRun plainDev (fun s c => c.Made s) emptyDir emptyDirHeld :=
  @PageRun.call plainDev _ _ _ _ (.vget 0) 0 (@PageRun.start plainDev _ _) trivial rfl

omit [BlockDev] in
theorem emptyDirHeld_held :
    HeldDir 0 ⟨.dir, 0, 0, 1, [], fun _ => ⟨Block.zero, false⟩⟩ emptyDirHeld :=
  ⟨rfl, rfl, by decide, rfl, rfl, by decide, Or.inl (by decide)⟩

omit [BlockDev] in
theorem emptyDirHeld_names : HoldsNames (fun _ => none) 0 emptyDirHeld := by
  refine ⟨?_, fun name i hi => by cases hi⟩
  have hnil : emptyDirHeld.dirents 0 = [] := rfl
  rw [hnil]
  exact .empty

omit [BlockDev] in
theorem letterName_isName : IsName letterName 1 := by
  refine ⟨by decide, by decide, ?_, rfl⟩
  intro j hj
  have hzero : j = 0 := by omega
  rw [letterName, if_pos hzero]
  decide

omit [BlockDev] in
/-- The directory gets a name for itself. -/
theorem directory_names_emptyDir :
    wp (@DirCall.run plainDev 0 (.link 0 letterName 1)) (fun r s' =>
      (DirCall.link 0 letterName 1).Right (fun _ => none) 0 emptyDirHeld r ∧
        HoldsNames ((DirCall.link 0 letterName 1).after (fun _ => none) r) 0 s') emptyDirHeld := by
  refine (@directory_names _ _ _ _ _ _ _ _ plainDev emptyDir_mounted emptyDirHeld_calls
    emptyDirHeld_held emptyDirHeld_names (@DirRun.start plainDev _ _ _ _)).2 _ ?_
  exact ⟨letterName_isName, by decide, _, rfl, rfl⟩

/-! ### Reading the directory -/

omit [BlockDev] in
/-- The entries that `getdent` fills in are the names of the map. -/
theorem HoldsNames.filled (h : HoldsNames f ino s) :
    (((s.dirents ino).map S5Dirent.dirent).map Vfs.Dirent.dName).Nodup ∧
      ∀ name i, f name = some i ↔
        (⟨i.toNat, 0, name⟩ : Vfs.Dirent) ∈ (s.dirents ino).map S5Dirent.dirent := by
  constructor
  · rw [List.map_map]
    exact h.entries.nodup
  · intro name i
    rw [h.entries.entry, List.mem_map]
    apply exists_congr
    intro e
    apply and_congr_right
    intro _
    rw [S5Dirent.dirent, Vfs.Dirent.mk.injEq]
    constructor
    · rintro ⟨rfl, rfl⟩
      exact ⟨rfl, rfl, rfl⟩
    · rintro ⟨hi, -, hname⟩
      exact ⟨hname, UInt32.toNat_inj.mp hi⟩

variable {files : Vfs.FileState} {fd : Int} {p : Nat}

/-- The directory is open for reading. -/
def openedDir : Vfs.FileState where
  pFiles := fun _ => some 0
  files := fun _ => ⟨1, 0, 1, some 0⟩
  vnLen := fun _ => 0
  isDir := fun _ => true

omit [BlockDev] in
theorem openedDir_opened : Vfs.Opened openedDir 0 0 0 :=
  ⟨by decide, rfl, by decide, by decide, by decide, rfl, by decide, fun _ => ⟨rfl, rfl⟩⟩

end CodingSample.S5fs
