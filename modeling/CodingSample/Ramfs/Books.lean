import CodingSample.Ramfs.Tree
import Mathlib.Tactic.Common

/-!
# The books of the ramfs

The sizes and link counts that the calls keep by hand, against what the directories hold. Within a
call they are behind or ahead of each other, and `Owed` says by how much.
-/

namespace CodingSample.Ramfs

open Prog

/-- By how much the link counts and the sizes of directories are ahead of the entries. -/
@[ext] structure Owed where
  links : Nat → Int
  sizes : Nat → Int
  /-- The directory that has no `.` and `..` yet. -/
  raw : Option Nat

namespace Owed

def nothing : Owed := ⟨fun _ => 0, fun _ => 0, none⟩

def addLinks (o : Owed) (ino : Nat) (n : Int) : Owed :=
  { o with links := fun j => o.links j + if j = ino then n else 0 }

def addSize (o : Owed) (dir : Nat) (n : Int) : Owed :=
  { o with sizes := fun j => o.sizes j + if j = dir then n else 0 }

end Owed

def Fs.contents (s : Fs) : Held := fun i => (s.rfsInodes i).map (·.contents)

def Fs.inCore (s : Fs) (ino : Nat) : Int := if (s.vnodes ino).isSome then 1 else 0

/-- The link of the root that no entry has. -/
def rootLink (ino : Nat) : Int := if ino = 0 then 1 else 0

/-- A vnode in core shows its inode. -/
structure Shows (inode : Inode) (v : Vnode) : Prop where
  mode : v.vnMode = inode.contents.vnMode
  refcount : 0 < v.vnRefcount
  len : v.vnMode = .reg → v.vnLen = inode.rfSize

structure Books (o : Owed) (s : Fs) : Prop where
  tree : Tree o.raw s.contents
  ino : ∀ i inode, s.rfsInodes i = some inode → inode.rfIno = i
  count : ∀ i inode, s.rfsInodes i = some inode →
    inode.rfLinkcount = links s.contents i + s.inCore i + rootLink i + o.links i
  vnode : ∀ i v, s.vnodes i = some v → ∃ inode, s.rfsInodes i = some inode ∧ Shows inode v
  data : ∀ i inode page, s.rfsInodes i = some inode → inode.contents = .data page →
    0 ≤ inode.rfSize ∧ inode.rfSize ≤ 4096
  size : ∀ i inode e, s.rfsInodes i = some inode → inode.contents = .dir e →
    inode.rfSize = 32 * entryCount e + o.sizes i

variable {o o' : Owed} {s t : Fs} {i j ino dir : Nat} {n : Int} {inode inode' : Inode}
  {v : Vnode} {e : Nat → Dirent} {new : Dirent} {name : Name} {mem : Supply}

theorem contents_eq (h : s.rfsInodes i = some inode) : s.contents i = some inode.contents := by
  simp [Fs.contents, h]

theorem inode_of_contents {x : Contents} (h : s.contents i = some x) :
    ∃ inode, s.rfsInodes i = some inode ∧ inode.contents = x := by
  simpa [Fs.contents] using h

theorem contents_setInode {x : Option Inode} :
    (s.setInode i x).contents = Function.update s.contents i (x.map (·.contents)) := by
  funext j
  by_cases hj : j = i
  · simp [Fs.contents, Fs.setInode, hj]
  · simp [Fs.contents, Fs.setInode, hj]

theorem contents_setInode_same (h : s.rfsInodes i = some inode)
    (hsame : inode'.contents = inode.contents) :
    (s.setInode i (some inode')).contents = s.contents := by
  rw [contents_setInode, Option.map_some, hsame, ← contents_eq h, Function.update_eq_self]

@[simp] theorem contents_setVnode {x : Option Vnode} : (s.setVnode i x).contents = s.contents := rfl

@[simp] theorem inCore_setInode {x : Option Inode} : (s.setInode i x).inCore j = s.inCore j := rfl

theorem inCore_of_some (h : s.vnodes i = some v) : s.inCore i = 1 := by
  simp [Fs.inCore, h]

theorem inCore_of_none (h : s.vnodes i = none) : s.inCore i = 0 := by
  simp [Fs.inCore, h]

namespace Books

/-- Nothing is owed any more. -/
theorem settle (h : Books o s) (hlinks : ∀ j, o.links j = 0) (hsizes : ∀ j, o.sizes j = 0)
    (htree : Tree none s.contents) : Books .nothing s := by
  refine ⟨htree, h.ino, ?_, h.vnode, h.data, ?_⟩
  · intro i inode hi
    rw [h.count i inode hi, hlinks]
    rfl
  · intro i inode e hi he
    rw [h.size i inode e hi he, hsizes]
    rfl

/-- One inode changes, and keeps its kind. -/
theorem replace (h : Books o s) (hi : s.rfsInodes i = some inode)
    (htree : Tree o'.raw (s.setInode i (some inode')).contents)
    (hino : inode'.rfIno = inode.rfIno)
    (hmode : inode'.contents.vnMode = inode.contents.vnMode)
    (hlen : inode'.contents.vnMode = .reg → inode'.rfSize = inode.rfSize)
    (hcount : ∀ j, o'.links j + links (s.setInode i (some inode')).contents j =
      o.links j + links s.contents j +
        if j = i then inode'.rfLinkcount - inode.rfLinkcount else 0)
    (hsizes : ∀ j, j ≠ i → o'.sizes j = o.sizes j)
    (hsize : ∀ e, inode'.contents = .dir e →
      inode'.rfSize = 32 * entryCount e + o'.sizes i) :
    Books o' (s.setInode i (some inode')) := by
  have hself : (s.setInode i (some inode')).rfsInodes i = some inode' :=
    Fs.rfsInodes_setInode_self
  refine ⟨htree, ?_, ?_, ?_, ?_, ?_⟩
  · intro j x hj
    by_cases hji : j = i
    · subst hji
      rw [hself] at hj
      cases hj
      exact hino.trans (h.ino j inode hi)
    · rw [Fs.rfsInodes_setInode_of_ne hji] at hj
      exact h.ino j x hj
  · intro j x hj
    have hcountj := hcount j
    by_cases hji : j = i
    · subst hji
      rw [hself] at hj
      cases hj
      have hold := h.count j inode hi
      rw [if_pos rfl] at hcountj
      rw [inCore_setInode]
      omega
    · rw [Fs.rfsInodes_setInode_of_ne hji] at hj
      have hold := h.count j x hj
      rw [if_neg hji] at hcountj
      rw [inCore_setInode]
      omega
  · intro j w hj
    obtain ⟨x, hx, hshows⟩ := h.vnode j w hj
    by_cases hji : j = i
    · subst hji
      rw [hi] at hx
      cases hx
      refine ⟨inode', hself, hshows.mode.trans hmode.symm, hshows.refcount, ?_⟩
      intro hreg
      rw [hshows.len hreg, hlen (hmode.trans (hshows.mode.symm.trans hreg))]
    · exact ⟨x, (Fs.rfsInodes_setInode_of_ne hji).trans hx, hshows⟩
  · intro j x page hj hx
    by_cases hji : j = i
    · subst hji
      rw [hself] at hj
      cases hj
      have hreg : inode'.contents.vnMode = .reg := by
        rw [hx]
        rfl
      rw [hlen hreg]
      cases hold : inode.contents with
      | data page' => exact h.data j inode page' hi hold
      | dir _ =>
          rw [hmode, hold] at hreg
          cases hreg
      | chr _ =>
          rw [hmode, hold] at hreg
          cases hreg
      | blk _ =>
          rw [hmode, hold] at hreg
          cases hreg
    · rw [Fs.rfsInodes_setInode_of_ne hji] at hj
      exact h.data j x page hj hx
  · intro j x e hj hx
    by_cases hji : j = i
    · subst hji
      rw [hself] at hj
      cases hj
      exact hsize e hx
    · rw [Fs.rfsInodes_setInode_of_ne hji] at hj
      rw [hsizes j hji]
      exact h.size j x e hj hx

theorem addLinks (h : Books o s) (hi : s.rfsInodes i = some inode) :
    Books (o.addLinks i n)
      (s.setInode i (some { inode with rfLinkcount := inode.rfLinkcount + n })) := by
  have hsame : (s.setInode i (some { inode with rfLinkcount := inode.rfLinkcount + n })).contents =
      s.contents := contents_setInode_same hi rfl
  refine h.replace hi ?_ rfl rfl (fun _ => rfl) ?_ (fun _ _ => rfl) ?_
  · rw [hsame]
    exact h.tree
  · intro j
    rw [hsame]
    simp only [Owed.addLinks]
    split <;> omega
  · exact fun e he => h.size i inode e hi he

theorem addSize (h : Books o s) (hi : s.rfsInodes i = some inode)
    (hdir : inode.contents = .dir e) :
    Books (o.addSize i n) (s.setInode i (some { inode with rfSize := inode.rfSize + n })) := by
  have hsame : (s.setInode i (some { inode with rfSize := inode.rfSize + n })).contents =
      s.contents := contents_setInode_same hi rfl
  refine h.replace hi ?_ rfl rfl ?_ ?_ ?_ ?_
  · rw [hsame]
    exact h.tree
  · intro hreg
    rw [hdir] at hreg
    cases hreg
  · intro j
    rw [hsame]
    simp [Owed.addSize]
  · intro j hj
    simp [Owed.addSize, hj]
  · intro e' he'
    have hold := h.size i inode e' hi he'
    simp only [Owed.addSize, if_pos]
    omega

/-- An entry is set to a name for an inode that is there. -/
theorem fill (h : Books o s) (hd : s.rfsInodes dir = some inode) (hdir : inode.contents = .dir e)
    (hraw : o.raw ≠ some dir) (hi : i < 128) (hempty : (e i).rdName = []) (hlive : new.live = true)
    (htarget : s.contents new.rdIno ≠ none) (hlinked : dir = 0 ∨ links s.contents dir ≠ 0) :
    Books ((o.addLinks new.rdIno (-1)).addSize dir (-32))
      (s.setInode dir (some { inode with contents := .dir (Function.update e i new) })) := by
  have hc : s.contents dir = some (.dir e) := by rw [contents_eq hd, hdir]
  have hlt := h.tree.lt_of_dir hc
  refine h.replace hd ?_ rfl (by rw [hdir]; rfl) (fun _ => rfl) ?_ ?_ ?_
  · rw [contents_setInode]
    exact h.tree.fill hc hraw hi hempty hlive htarget hlinked
  · intro j
    rw [contents_setInode, Option.map_some, links_fill hc hlt hi hempty hlive]
    simp only [Owed.addLinks, Owed.addSize, sub_self, ite_self]
    split <;> push_cast <;> omega
  · intro j hj
    simp [Owed.addLinks, Owed.addSize, hj]
  · rintro _ ⟨rfl⟩
    have hold := h.size dir inode e hd hdir
    have hcount := entryCount_fill hi hempty (Dirent.live_iff.mp hlive).1
    simp only [Owed.addLinks, Owed.addSize, if_pos]
    rw [hcount]
    push_cast
    omega

/-- An entry is cleared. -/
theorem clear (h : Books o s) (hd : s.rfsInodes dir = some inode) (hdir : inode.contents = .dir e)
    (hi : i < 128) (hlive : (e i).live = true) (hempty : new.rdName = [])
    (htarget : ∀ e' j, s.contents (e i).rdIno = some (.dir e') → j < 128 → (e' j).live = false) :
    Books ((o.addLinks (e i).rdIno 1).addSize dir 32)
      (s.setInode dir (some { inode with contents := .dir (Function.update e i new) })) := by
  have hc : s.contents dir = some (.dir e) := by rw [contents_eq hd, hdir]
  have hlt := h.tree.lt_of_dir hc
  refine h.replace hd ?_ rfl (by rw [hdir]; rfl) (fun _ => rfl) ?_ ?_ ?_
  · rw [contents_setInode]
    exact h.tree.clear hc hi hlive hempty htarget
  · intro j
    have hcount := links_clear j hc hlt hi hlive hempty
    rw [contents_setInode, Option.map_some]
    simp only [Owed.addLinks, Owed.addSize, sub_self, ite_self]
    split at hcount
    · rename_i heq
      rw [if_pos heq]
      omega
    · rename_i hne
      rw [if_neg hne]
      omega
  · intro j hj
    simp [Owed.addLinks, Owed.addSize, hj]
  · rintro _ ⟨rfl⟩
    have hold := h.size dir inode e hd hdir
    have hcount := entryCount_clear hi (Dirent.live_iff.mp hlive).1 hempty
    simp only [Owed.addLinks, Owed.addSize, if_pos]
    omega

/-- An entry that names nothing is set in a directory that is still being made. -/
theorem setDot (h : Books o s) (hd : s.rfsInodes dir = some inode)
    (hdir : inode.contents = .dir e) (hraw : o.raw = some dir)
    (hdead : ∀ j, j < 128 → (e j).live = false) (hi : i < 128) (hempty : (e i).rdName = [])
    (hname : new.rdName ≠ []) (hnew : new.live = false) :
    Books (o.addSize dir (-32))
      (s.setInode dir (some { inode with contents := .dir (Function.update e i new) })) := by
  have hc : s.contents dir = some (.dir e) := by rw [contents_eq hd, hdir]
  have htree : Tree (some dir) s.contents := hraw ▸ h.tree
  refine h.replace hd ?_ rfl (by rw [hdir]; rfl) (fun _ => rfl) ?_ ?_ ?_
  · rw [contents_setInode, Owed.addSize, hraw]
    exact htree.setDot hc hdead hnew
  · intro j
    rw [contents_setInode, Option.map_some, links_setDot hc hdead hnew]
    simp [Owed.addSize]
  · intro j hj
    simp [Owed.addSize, hj]
  · rintro _ ⟨rfl⟩
    have hold := h.size dir inode e hd hdir
    have hcount := entryCount_fill hi hempty hname
    simp only [Owed.addSize, if_pos]
    rw [hcount]
    push_cast
    omega

/-- A new inode is put into the table. -/
theorem alloc {x : Contents} (h : Books .nothing s) (hnone : s.rfsInodes ino = none)
    (hlt : ino < 64) (hempty : ∀ j, j < 128 → (x.entry j).any Dirent.live = false)
    (hcount : ∀ e, x = .dir e → entryCount e = 0) :
    Books { Owed.nothing.addLinks ino 1 with raw := some ino }
      (s.setInode ino (some ⟨0, ino, 1, x⟩)) := by
  have hc : s.contents ino = none := by
    rw [Fs.contents, hnone]
    rfl
  have hlinks : ∀ j, links (s.setInode ino (some ⟨0, ino, 1, x⟩)).contents j =
      links s.contents j := by
    intro j
    rw [contents_setInode]
    refine links_update ?_ ?_
    · intro y _ hy
      rw [hc] at hy
      cases hy
    · rintro y k ⟨rfl⟩ hk
      exact hempty k hk
  have hvnode : s.vnodes ino = none := by
    cases hv : s.vnodes ino with
    | none => rfl
    | some v =>
        obtain ⟨inode, hi, -⟩ := h.vnode ino v hv
        rw [hnone] at hi
        cases hi
  -- nothing names the inode: an entry names only what is there
  have hzero : links s.contents ino = 0 := by
    rw [links, tally_eq_zero_iff]
    rintro ⟨d, k⟩ hp
    have hk := (mem_places.mp hp).2
    cases hslot : slot s.contents (d, k) with
    | none => rfl
    | some y =>
        rw [Option.any_some]
        apply Bool.eq_false_iff.mpr
        intro hnames
        rw [Dirent.names, Bool.and_eq_true, beq_iff_eq] at hnames
        cases hd : s.contents d with
        | none =>
            rw [slot, hd] at hslot
            cases hslot
        | some z =>
            cases z with
            | dir e =>
                rw [slot_of_dir hd] at hslot
                cases hslot
                exact h.tree.named d e k hd hk hnames.1 (hnames.2 ▸ hc)
            | data _ | chr _ | blk _ =>
                rw [slot, hd] at hslot
                cases hslot
  have hroot : rootLink ino = 0 := by
    apply if_neg
    rintro rfl
    exact h.tree.root hc
  refine ⟨?_, ?_, ?_, ?_, ?_, ?_⟩
  · rw [contents_setInode]
    exact h.tree.alloc hc hlt hempty
  · intro j y hj
    by_cases hji : j = ino
    · subst hji
      rw [Fs.rfsInodes_setInode_self] at hj
      cases hj
      rfl
    · rw [Fs.rfsInodes_setInode_of_ne hji] at hj
      exact h.ino j y hj
  · intro j y hj
    rw [hlinks, inCore_setInode]
    by_cases hji : j = ino
    · subst hji
      rw [Fs.rfsInodes_setInode_self] at hj
      cases hj
      simp [hzero, inCore_of_none hvnode, hroot, Owed.addLinks, Owed.nothing]
    · rw [Fs.rfsInodes_setInode_of_ne hji] at hj
      rw [h.count j y hj]
      simp [Owed.addLinks, hji]
  · intro j v hv
    obtain ⟨y, hy, hshows⟩ := h.vnode j v hv
    by_cases hji : j = ino
    · subst hji
      rw [hnone] at hy
      cases hy
    · exact ⟨y, (Fs.rfsInodes_setInode_of_ne hji).trans hy, hshows⟩
  · intro j y page hj hy
    by_cases hji : j = ino
    · subst hji
      rw [Fs.rfsInodes_setInode_self] at hj
      cases hj
      exact ⟨le_refl 0, Int.natCast_nonneg 4096⟩
    · rw [Fs.rfsInodes_setInode_of_ne hji] at hj
      exact h.data j y page hj hy
  · intro j y e hj hy
    by_cases hji : j = ino
    · subst hji
      rw [Fs.rfsInodes_setInode_self] at hj
      cases hj
      rw [hcount e hy]
      rfl
    · rw [Fs.rfsInodes_setInode_of_ne hji] at hj
      exact h.size j y e hj hy

/-- A vnode is brought into core, changed or taken out. -/
theorem setVnode {w : Option Vnode} (h : Books o s) (hi : s.rfsInodes i = some inode)
    (hshows : ∀ v, w = some v → Shows inode v) :
    Books (o.addLinks i (s.inCore i - if w.isSome then 1 else 0)) (s.setVnode i w) := by
  refine ⟨h.tree, h.ino, ?_, ?_, h.data, h.size⟩
  · intro j x hj
    have hold := h.count j x hj
    rw [contents_setVnode]
    by_cases hji : j = i
    · subst hji
      have hnew : (s.setVnode j w).inCore j = if w.isSome then 1 else 0 := by
        rw [Fs.inCore, Fs.vnodes_setVnode_self]
      simp only [Owed.addLinks, if_pos]
      omega
    · have hsame : (s.setVnode i w).inCore j = s.inCore j := by
        rw [Fs.inCore, Fs.inCore, Fs.vnodes_setVnode_of_ne hji]
      simp only [Owed.addLinks, if_neg hji]
      omega
  · intro j v hv
    by_cases hji : j = i
    · subst hji
      rw [Fs.vnodes_setVnode_self] at hv
      exact ⟨inode, hi, hshows v hv⟩
    · rw [Fs.vnodes_setVnode_of_ne hji] at hv
      exact h.vnode j v hv

/-- An inode whose count has come down to zero goes with its vnode. -/
theorem free (h : Books (o.addLinks i (-1)) s) (hi : s.rfsInodes i = some inode)
    (hv : s.vnodes i = some v) (hzero : inode.rfLinkcount = 0) (hl : o.links i = 0)
    (hraw : o.raw = none) : Books o ((s.setInode i none).setVnode i none) := by
  have hcount := h.count i inode hi
  rw [hzero, inCore_of_some hv] at hcount
  simp only [Owed.addLinks, if_pos, hl] at hcount
  have hroot : i ≠ 0 := by
    rintro rfl
    rw [rootLink, if_pos rfl] at hcount
    omega
  rw [rootLink, if_neg hroot] at hcount
  have hlinks : links s.contents i = 0 := by omega
  have htree : Tree none s.contents := hraw ▸ h.tree
  have hsame : ∀ {j}, j ≠ i →
      ((s.setInode i none).setVnode i none).rfsInodes j = s.rfsInodes j :=
    fun hj => Fs.rfsInodes_setInode_of_ne hj
  have hself : ((s.setInode i none).setVnode i none).rfsInodes i = none :=
    Fs.rfsInodes_setInode_self
  have hne : ∀ {j x}, ((s.setInode i none).setVnode i none).rfsInodes j = some x → j ≠ i := by
    rintro j x hj rfl
    rw [hself] at hj
    cases hj
  have hlinks' : ∀ j, links ((s.setInode i none).setVnode i none).contents j =
      links s.contents j := by
    intro j
    rw [contents_setVnode, contents_setInode]
    refine links_update ?_ ?_
    · intro y k hy hk
      cases y with
      | dir e => exact htree.orphan i e k hy hroot hlinks hk
      | data _ | chr _ | blk _ => rfl
    · intro y _ hy
      cases hy
  refine ⟨?_, ?_, ?_, ?_, ?_, ?_⟩
  · rw [contents_setVnode, contents_setInode, hraw]
    exact htree.free hroot hlinks
  · intro j x hj
    rw [hsame (hne hj)] at hj
    exact h.ino j x hj
  · intro j x hj
    have hji := hne hj
    have hcore : ((s.setInode i none).setVnode i none).inCore j = s.inCore j := by
      rw [Fs.inCore, Fs.vnodes_setVnode_of_ne hji]
      rfl
    rw [hsame hji] at hj
    rw [hlinks', hcore, h.count j x hj]
    simp [Owed.addLinks, hji]
  · intro j w hw
    by_cases hji : j = i
    · subst hji
      rw [Fs.vnodes_setVnode_self] at hw
      cases hw
    · rw [Fs.vnodes_setVnode_of_ne hji] at hw
      obtain ⟨x, hx, hshows⟩ := h.vnode j w hw
      exact ⟨x, (hsame hji).trans hx, hshows⟩
  · intro j x page hj
    rw [hsame (hne hj)] at hj
    exact h.data j x page hj
  · intro j x e hj
    rw [hsame (hne hj)] at hj
    exact h.size j x e hj

end Books

/-! ### The functions of the vnode layer -/

theorem wlp_getInode {Q : Inode → Fs → Prop}
    (hq : ∀ inode, s.rfsInodes i = some inode → Q inode s) : wlp (getInode i) Q s := by
  rw [getInode, wlp_bind, wlp_get]
  split
  · rename_i inode hi
    exact wlp_pure.mpr (hq inode hi)
  · exact wlp_fail.mpr trivial

theorem wlp_modifyInode {f : Inode → Inode} {Q : Unit → Fs → Prop}
    (hq : ∀ inode, s.rfsInodes i = some inode → Q () (s.setInode i (some (f inode)))) :
    wlp (modifyInode i f) Q s := by
  rw [modifyInode, wlp_bind]
  exact wlp_getInode fun inode hi => wlp_modify.mpr (hq inode hi)

theorem wlp_getVnode {Q : Vnode → Fs → Prop} (hq : ∀ v, s.vnodes i = some v → Q v s) :
    wlp (getVnode i) Q s := by
  rw [getVnode, wlp_bind, wlp_get]
  split
  · rename_i v hv
    exact wlp_pure.mpr (hq v hv)
  · exact wlp_fail.mpr trivial

theorem wlp_getEntries {Q : (Nat → Dirent) → Fs → Prop}
    (hq : ∀ inode e, s.rfsInodes dir = some inode → inode.contents = .dir e → Q e s) :
    wlp (getEntries dir) Q s := by
  rw [getEntries, wlp_bind]
  refine wlp_getInode ?_
  intro inode hi
  split
  · rename_i e he
    exact wlp_pure.mpr (hq inode e hi he)
  all_goals exact wlp_fail.mpr trivial

theorem Books.wlp_vget (h : Books o s) :
    wlp (vget i) (fun _ t => Books o t ∧ t.contents = s.contents) s := by
  rw [vget, wlp_bind, wlp_get]
  split
  · rename_i v hv
    rw [wlp_bind, kassert, wlp_check]
    intro _
    obtain ⟨inode, hi, hshows⟩ := h.vnode i v hv
    have hbooks := h.setVnode (w := some { v with vnRefcount := v.vnRefcount + 1 }) hi (by
      rintro _ ⟨rfl⟩
      exact ⟨hshows.mode, Int.lt_add_one_of_le (le_of_lt hshows.refcount), hshows.len⟩)
    rw [inCore_of_some hv] at hbooks
    refine wlp_modify.mpr ⟨?_, rfl⟩
    convert hbooks using 1
    ext <;> simp [Owed.addLinks]
  · rename_i hnone
    rw [wlp_bind, ramfsReadVnode, wlp_bind, wlp_get]
    split
    · exact wlp_fail.mpr trivial
    · rename_i inode hi
      rw [wlp_bind, kassert, wlp_check]
      intro _
      rw [wlp_bind, Ramfs.addLinks]
      refine wlp_modifyInode ?_
      intro inode' hi'
      rw [hi] at hi'
      cases hi'
      rw [wlp_pure, wlp_modify]
      have hbooks := (h.addLinks (n := 1) hi).setVnode
        (w := some ⟨inode.contents.vnMode, inode.rfSize, 1⟩) Fs.rfsInodes_setInode_self (by
          rintro _ ⟨rfl⟩
          exact ⟨rfl, Int.one_pos, fun _ => rfl⟩)
      rw [inCore_setInode, inCore_of_none hnone] at hbooks
      refine ⟨?_, contents_setInode_same hi rfl⟩
      convert hbooks using 1
      ext j
      · simp only [Owed.addLinks]
        split <;> simp
      · rfl
      · rfl

/-- Every inode that is there was there, with what it holds now. -/
def Within (t s : Fs) : Prop := ∀ j x, t.contents j = some x → s.contents j = some x

theorem Books.wlp_vput (h : Books o s) (hl : o.links i = 0) (hraw : o.raw = none) :
    wlp (vput i) (fun _ t => Books o t ∧ Within t s) s := by
  rw [vput, wlp_bind]
  refine wlp_getVnode ?_
  intro v hv
  obtain ⟨inode, hi, hshows⟩ := h.vnode i v hv
  rw [wlp_bind, kassert, wlp_check]
  intro _
  split
  · rename_i hpos
    have hbooks := h.setVnode (w := some { v with vnRefcount := v.vnRefcount - 1 }) hi (by
      rintro _ ⟨rfl⟩
      exact ⟨hshows.mode, hpos, hshows.len⟩)
    rw [inCore_of_some hv] at hbooks
    refine wlp_modify.mpr ⟨?_, fun _ _ hx => hx⟩
    convert hbooks using 1
    ext <;> simp [Owed.addLinks]
  · rw [wlp_bind, ramfsDeleteVnode, wlp_bind, Ramfs.addLinks]
    refine wlp_modifyInode ?_
    intro inode' hi'
    rw [hi] at hi'
    cases hi'
    set s1 := s.setInode i (some { inode with rfLinkcount := inode.rfLinkcount + -1 }) with hs1
    have hsame : s1.contents = s.contents := contents_setInode_same hi rfl
    have hi1 : s1.rfsInodes i = some { inode with rfLinkcount := inode.rfLinkcount + -1 } :=
      Fs.rfsInodes_setInode_self
    have hv1 : s1.vnodes i = some v := hv
    have hbooks : Books (o.addLinks i (-1)) s1 := h.addLinks hi
    rw [wlp_bind]
    refine wlp_getInode ?_
    intro inode' hi'
    rw [hi1] at hi'
    cases hi'
    split
    · rename_i hzero
      rw [wlp_modify, wlp_modify]
      refine ⟨hbooks.free hi1 hv1 hzero hl hraw, ?_⟩
      intro j x hj
      rw [contents_setVnode, contents_setInode] at hj
      by_cases hji : j = i
      · rw [hji, Function.update_self] at hj
        cases hj
      · rwa [Function.update_of_ne hji, hsame] at hj
    · rw [wlp_pure, wlp_modify]
      have hout := hbooks.setVnode (w := none) hi1 (by
        intro v hv
        cases hv)
      rw [inCore_of_some hv1] at hout
      refine ⟨?_, ?_⟩
      · convert hout using 1
        ext j
        · simp only [Owed.addLinks]
          split <;> simp
        · rfl
        · rfl
      · intro j x hj
        rwa [contents_setVnode, hsame] at hj

end CodingSample.Ramfs
