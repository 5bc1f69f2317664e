import CodingSample.Ramfs.Readdir
import CodingSample.Vfs.Paths

/-!
# Paths in the ramfs

The operations of the ramfs as path names use them: what a walk leaves of the state is the
references it still holds.
-/

namespace CodingSample.Ramfs

open Prog Vfs

/-- `vref` -/
def vref (ino : Nat) : R Unit := do
  let v ← getVnode ino
  kassert (0 < v.vnRefcount)
  modify fun s => s.setVnode ino (some { v with vnRefcount := v.vnRefcount + 1 })

/-- The vnode operations of the ramfs, where the kernel has the memory `mem`. -/
def vnodeOps (mem : Supply) : VnodeOps Fault Fs where
  vref := vref
  vput := vput
  isDir := fun ino s => (s.vnodes ino).any fun v => v.vnMode = .dir
  lookup := fun dir name => do
    match ← ramfsLookup dir name with
    | some n => pure (.ok n)
    | none => pure (.error (-enoent))
  create := fun dir name => do
    let (ret, result) ← ramfsCreate dir name mem
    match result with
    | some n => pure (.ok n)
    | none => pure (.error ret)

/-- The state with the references `b` more. -/
def Fs.holding (s : Fs) (b : Multiset Nat) : Fs where
  rfsInodes := fun i =>
    if s.vnodes i = none ∧ i ∈ b then
      (s.rfsInodes i).map fun inode => { inode with rfLinkcount := inode.rfLinkcount + 1 }
    else s.rfsInodes i
  vnodes := fun i =>
    match s.vnodes i with
    | some v => some { v with vnRefcount := v.vnRefcount + b.count i }
    | none =>
        if i ∈ b then
          (s.rfsInodes i).map fun inode => ⟨inode.contents.vnMode, inode.rfSize, b.count i⟩
        else none

/-- An inode that is in core or has a link, so that a reference that comes and goes leaves it. -/
structure Anchored (s : Fs) (i : Nat) (inode : Inode) : Prop where
  there : s.rfsInodes i = some inode
  links : s.vnodes i = none → inode.rfLinkcount ≠ 0

variable {s : Fs} {b : Multiset Nat} {i dir : Nat} {inode : Inode} {v : Vnode} {name : Name}
  {e : Nat → Dirent}

theorem holding_zero (s : Fs) : s.holding 0 = s := by
  have hinodes : (s.holding 0).rfsInodes = s.rfsInodes := by
    funext i
    exact if_neg fun h => absurd h.2 (Multiset.notMem_zero i)
  have hvnodes : (s.holding 0).vnodes = s.vnodes := by
    funext i
    rw [Fs.holding]
    cases hv : s.vnodes i with
    | none => simp [hv]
    | some v => simp [hv]
  calc
    s.holding 0 = ⟨(s.holding 0).rfsInodes, (s.holding 0).vnodes⟩ := rfl
    _ = s := by rw [hinodes, hvnodes]

theorem vnodes_holding_of_some (hv : s.vnodes i = some v) : (s.holding b).vnodes i =
    some { v with vnRefcount := v.vnRefcount + b.count i } := by
  simp only [Fs.holding, hv]

theorem vnodes_holding_of_mem (hv : s.vnodes i = none) (hi : s.rfsInodes i = some inode)
    (hmem : i ∈ b) : (s.holding b).vnodes i =
      some ⟨inode.contents.vnMode, inode.rfSize, b.count i⟩ := by
  simp only [Fs.holding, hv, if_pos hmem, hi, Option.map_some]

theorem vnodes_holding_of_notMem (hv : s.vnodes i = none) (hmem : i ∉ b) :
    (s.holding b).vnodes i = none := by
  simp only [Fs.holding, hv, if_neg hmem]

/-- Two states that agree away from one inode and on it. -/
theorem Fs.ext_at {s t : Fs} (i : Nat) (hinode : s.rfsInodes i = t.rfsInodes i)
    (hvnode : s.vnodes i = t.vnodes i)
    (hother : ∀ j, j ≠ i → s.rfsInodes j = t.rfsInodes j ∧ s.vnodes j = t.vnodes j) : s = t := by
  have hinodes : s.rfsInodes = t.rfsInodes := by
    funext j
    by_cases hj : j = i
    · rw [hj, hinode]
    · exact (hother j hj).1
  have hvnodes : s.vnodes = t.vnodes := by
    funext j
    by_cases hj : j = i
    · rw [hj, hvnode]
    · exact (hother j hj).2
  cases s
  cases t
  simp_all

/-- A reference to one inode changes nothing of another. -/
theorem holding_cons_of_ne {j : Nat} (hj : j ≠ i) :
    (s.holding (i ::ₘ b)).rfsInodes j = (s.holding b).rfsInodes j ∧
      (s.holding (i ::ₘ b)).vnodes j = (s.holding b).vnodes j := by
  have hmem : j ∈ i ::ₘ b ↔ j ∈ b := by
    rw [Multiset.mem_cons]
    exact or_iff_right hj
  constructor
  · simp only [Fs.holding, hmem]
  · simp only [Fs.holding, hmem, Multiset.count_cons_of_ne hj]

/-- A vnode that is in core with some references gets one more. -/
theorem setVnode_holding_of_some (hv : s.vnodes i = some v) :
    (s.holding b).setVnode i
        (some { v with vnRefcount := v.vnRefcount + b.count i + 1 }) =
      s.holding (i ::ₘ b) := by
  have hcount : (((i ::ₘ b).count i : Nat) : Int) = b.count i + 1 := by
    rw [Multiset.count_cons_self]
    rfl
  apply Fs.ext_at i
  · simp [Fs.holding, Fs.setVnode, hv]
  · rw [Fs.vnodes_setVnode_self, vnodes_holding_of_some hv, hcount, add_assoc]
  · intro j hj
    obtain ⟨hinodes, hvnodes⟩ := holding_cons_of_ne (s := s) (b := b) hj
    rw [hinodes, hvnodes]
    exact ⟨rfl, Fs.vnodes_setVnode_of_ne hj⟩

theorem setVnode_holding_of_mem (hv : s.vnodes i = none) (hi : s.rfsInodes i = some inode)
    (hmem : i ∈ b) :
    (s.holding b).setVnode i
        (some ⟨inode.contents.vnMode, inode.rfSize, b.count i + 1⟩) =
      s.holding (i ::ₘ b) := by
  have hcount : (((i ::ₘ b).count i : Nat) : Int) = b.count i + 1 := by
    rw [Multiset.count_cons_self]
    rfl
  apply Fs.ext_at i
  · simp [Fs.holding, Fs.setVnode, hv, hmem]
  · rw [Fs.vnodes_setVnode_self, vnodes_holding_of_mem hv hi (Multiset.mem_cons_self i b),
      hcount]
  · intro j hj
    obtain ⟨hinodes, hvnodes⟩ := holding_cons_of_ne (s := s) (b := b) hj
    rw [hinodes, hvnodes]
    exact ⟨rfl, Fs.vnodes_setVnode_of_ne hj⟩

/-- The first reference brings the vnode into core, which counts as a link. -/
theorem setVnode_holding_of_notMem (hv : s.vnodes i = none) (hi : s.rfsInodes i = some inode)
    (hmem : i ∉ b) :
    ((s.holding b).setInode i (some { inode with rfLinkcount := inode.rfLinkcount + 1 })).setVnode
        i (some ⟨inode.contents.vnMode, inode.rfSize, 1⟩) = s.holding (i ::ₘ b) := by
  have hcount : (((i ::ₘ b).count i : Nat) : Int) = 1 := by
    rw [Multiset.count_cons_self, Multiset.count_eq_zero_of_notMem hmem]
    rfl
  apply Fs.ext_at i
  · simp [Fs.holding, Fs.setVnode, hv, hi]
  · rw [Fs.vnodes_setVnode_self, vnodes_holding_of_mem hv hi (Multiset.mem_cons_self i b),
      hcount]
  · intro j hj
    obtain ⟨hinodes, hvnodes⟩ := holding_cons_of_ne (s := s) (b := b) hj
    rw [hinodes, hvnodes]
    exact ⟨Fs.rfsInodes_setInode_of_ne hj, Fs.vnodes_setVnode_of_ne hj⟩

theorem rfsInodes_holding_of_notMem (hmem : i ∉ b) :
    (s.holding b).rfsInodes i = s.rfsInodes i := if_neg fun h => hmem h.2

theorem rfsInodes_holding_of_some (hv : s.vnodes i = some v) :
    (s.holding b).rfsInodes i = s.rfsInodes i := by
  refine if_neg fun h => ?_
  rw [hv] at h
  cases h.1

/-- `vget` takes a reference. -/
theorem vget_holding (h : Books .nothing s) (hi : s.rfsInodes i = some inode) :
    vget i (s.holding b) = .ok ((), s.holding (i ::ₘ b)) := by
  rw [vget, bind_eq_of_ok (get_apply _)]
  cases hv : s.vnodes i with
  | some v =>
      obtain ⟨_, _, hshows⟩ := h.vnode i v hv
      have hpos : 0 < v.vnRefcount + b.count i := by
        have hcount := hshows.refcount
        omega
      rw [vnodes_holding_of_some hv]
      simp only []
      rw [kassert, decide_eq_true hpos, check_true, bind_eq_of_ok (pure_apply () _), modify_apply,
        setVnode_holding_of_some hv]
  | none =>
      by_cases hmem : i ∈ b
      · have hpos : (0 : Int) < b.count i := by
          exact_mod_cast Multiset.count_pos.mpr hmem
        rw [vnodes_holding_of_mem hv hi hmem]
        simp only []
        rw [kassert, decide_eq_true hpos, check_true, bind_eq_of_ok (pure_apply () _), modify_apply,
          setVnode_holding_of_mem hv hi hmem]
      · have hinode : (s.holding b).rfsInodes i = some inode :=
          (rfsInodes_holding_of_notMem hmem).trans hi
        have hread : ramfsReadVnode i (s.holding b) =
            .ok (⟨inode.contents.vnMode, inode.rfSize, 0⟩, (s.holding b).setInode i
              (some { inode with rfLinkcount := inode.rfLinkcount + 1 })) := by
          rw [ramfsReadVnode, bind_eq_of_ok (get_apply _), hinode]
          simp only []
          rw [kassert, decide_eq_true (h.ino i inode hi), check_true,
            bind_eq_of_ok (pure_apply () _), addLinks, bind_eq_of_ok (modifyInode_apply hinode)]
          rfl
        rw [vnodes_holding_of_notMem hv hmem]
        simp only []
        rw [bind_eq_of_ok hread, modify_apply, setVnode_holding_of_notMem hv hi hmem]

/-- Without the new reference the vnode is as it was. -/
theorem setVnode_holding_cons {t : Fs} (hother : ∀ j, j ≠ i →
      t.rfsInodes j = (s.holding (i ::ₘ b)).rfsInodes j ∧
        t.vnodes j = (s.holding (i ::ₘ b)).vnodes j)
    (hinode : t.rfsInodes i = (s.holding b).rfsInodes i) :
    t.setVnode i ((s.holding b).vnodes i) = s.holding b := by
  apply Fs.ext_at i
  · exact hinode
  · exact Fs.vnodes_setVnode_self
  · intro j hj
    obtain ⟨hinodes, hvnodes⟩ := holding_cons_of_ne (s := s) (b := b) hj
    rw [Fs.vnodes_setVnode_of_ne hj]
    exact ⟨(hother j hj).1.trans hinodes, (hother j hj).2.trans hvnodes⟩

/-- `vput` gives a reference back. -/
theorem vput_holding (h : Books .nothing s) (ha : Anchored s i inode) :
    vput i (s.holding (i ::ₘ b)) = .ok ((), s.holding b) := by
  have hcount : (((i ::ₘ b).count i : Nat) : Int) = b.count i + 1 := by
    rw [Multiset.count_cons_self]
    rfl
  have hmem := Multiset.mem_cons_self i b
  cases hv : s.vnodes i with
  | some v =>
      obtain ⟨_, _, hshows⟩ := h.vnode i v hv
      have hpos := hshows.refcount
      have hself := vnodes_holding_of_some (b := i ::ₘ b) hv
      have hback := setVnode_holding_cons (s := s) (b := b) (i := i)
        (fun j _ => ⟨rfl, rfl⟩)
        ((rfsInodes_holding_of_some hv).trans (rfsInodes_holding_of_some hv).symm)
      rw [vnodes_holding_of_some hv] at hback
      rw [hcount] at hself
      rw [vput, bind_eq_of_ok (getVnode_apply hself), kassert,
        decide_eq_true (by simp only []; omega), check_true, bind_eq_of_ok (pure_apply () _),
        if_pos (by simp only []; omega), modify_apply]
      have hless : v.vnRefcount + (b.count i + 1) - 1 = v.vnRefcount + b.count i := by omega
      simp only [hless]
      rw [hback]
  | none =>
      have hself := vnodes_holding_of_mem hv ha.there hmem
      rw [hcount] at hself
      rw [vput, bind_eq_of_ok (getVnode_apply hself), kassert,
        decide_eq_true (by simp only []; omega), check_true, bind_eq_of_ok (pure_apply () _)]
      by_cases hin : i ∈ b
      · have hpos := Multiset.count_pos.mpr hin
        have hinodes : (s.holding (i ::ₘ b)).rfsInodes i = (s.holding b).rfsInodes i := by
          simp only [Fs.holding, hv, hin, hmem]
        have hback := setVnode_holding_cons (s := s) (b := b) (i := i)
          (fun j _ => ⟨rfl, rfl⟩) hinodes
        rw [vnodes_holding_of_mem hv ha.there hin] at hback
        rw [if_pos (by simp only []; omega), modify_apply]
        have hless : ((b.count i : Nat) : Int) + 1 - 1 = b.count i := by omega
        simp only [hless]
        rw [hback]
      · have hzero := Multiset.count_eq_zero_of_notMem hin
        have hinode : (s.holding (i ::ₘ b)).rfsInodes i =
            some { inode with rfLinkcount := inode.rfLinkcount + 1 } := by
          simp only [Fs.holding, hv, hmem, and_self, if_true, ha.there, Option.map_some]
        have hlinks : inode.rfLinkcount + 1 + -1 = inode.rfLinkcount := by omega
        have hdelete : ramfsDeleteVnode i (s.holding (i ::ₘ b)) =
            .ok ((), (s.holding (i ::ₘ b)).setInode i (some inode)) := by
          rw [ramfsDeleteVnode, addLinks, bind_eq_of_ok (modifyInode_apply hinode),
            bind_eq_of_ok (getInode_apply Fs.rfsInodes_setInode_self)]
          simp only [hlinks]
          rw [if_neg (ha.links hv)]
          rfl
        have hback := setVnode_holding_cons (s := s) (b := b) (i := i)
          (t := (s.holding (i ::ₘ b)).setInode i (some inode))
          (fun j hj => ⟨Fs.rfsInodes_setInode_of_ne hj, rfl⟩)
          (by rw [Fs.rfsInodes_setInode_self, rfsInodes_holding_of_notMem hin, ha.there])
        rw [vnodes_holding_of_notMem hv hin] at hback
        rw [if_neg (by simp only [hzero]; omega), bind_eq_of_ok hdelete, modify_apply, hback]

/-- `vref` takes a reference to a vnode in core. -/
theorem vref_holding (h : Books .nothing s) (hv : s.vnodes i = some v) :
    vref i (s.holding b) = .ok ((), s.holding (i ::ₘ b)) := by
  obtain ⟨_, _, hshows⟩ := h.vnode i v hv
  have hpos := hshows.refcount
  have hself := vnodes_holding_of_some (b := b) hv
  rw [vref, bind_eq_of_ok (getVnode_apply hself), kassert, decide_eq_true (by simp only []; omega),
    check_true, bind_eq_of_ok (pure_apply () _), modify_apply, setVnode_holding_of_some hv]

/-! ### Walks -/

/-- The tree that the directories of a state make. -/
def Fs.tree (s : Fs) : Vfs.Tree where
  isDir := fun i => match s.contents i with
    | some (.dir _) => true
    | _ => false
  child := s.found

/-- Where a directory has the name, it leads to an inode that a reference leaves alone. -/
def Fs.Leads (s : Fs) (name : Name) : Prop :=
  ∀ dir inode n, Anchored s dir inode → s.found dir name = some n → ∃ inode', Anchored s n inode'

/-- The state is `s` with the references `b`, which can come and go. -/
def Fs.Holds (s : Fs) (b : Multiset Nat) (t : Fs) : Prop :=
  t = s.holding b ∧ ∀ i ∈ b, ∃ inode, Anchored s i inode

theorem contents_holding (s : Fs) (b : Multiset Nat) : (s.holding b).contents = s.contents := by
  funext i
  simp only [Fs.contents, Fs.holding]
  split
  · rw [Option.map_map]
    rfl
  · rfl

theorem vnMode_holding (h : Books .nothing s) (ha : Anchored s i inode) (hmem : i ∈ b) :
    ∃ w, (s.holding b).vnodes i = some w ∧ w.vnMode = inode.contents.vnMode := by
  cases hv : s.vnodes i with
  | some v =>
      obtain ⟨inode', hi', hshows⟩ := h.vnode i v hv
      obtain rfl : inode = inode' := Option.some.inj (ha.there.symm.trans hi')
      exact ⟨_, vnodes_holding_of_some hv, hshows.mode⟩
  | none => exact ⟨_, vnodes_holding_of_mem hv ha.there hmem, rfl⟩

theorem isDir_tree (ha : Anchored s i inode) :
    s.tree.isDir i = decide (inode.contents.vnMode = .dir) := by
  simp only [Fs.tree, contents_eq ha.there]
  cases inode.contents with
  | dir e => rfl
  | data page => rfl
  | chr devid => rfl
  | blk devid => rfl

theorem walks (h : Books .nothing s) (mem : Supply) :
    Walks (vnodeOps mem) s.tree s.Leads (fun i => s.vnodes i ≠ none) s.Holds := by
  constructor
  · rintro b _ d ⟨rfl, hanchored⟩ hmem
    obtain ⟨inode, ha⟩ := hanchored d hmem
    obtain ⟨w, hw, hmode⟩ := vnMode_holding h ha hmem
    rw [isDir_tree ha, ← hmode]
    simp only [vnodeOps, hw, Option.any_some]
  · rintro b _ i ⟨rfl, hanchored⟩ hcore
    obtain ⟨v, hv⟩ := Option.ne_none_iff_exists'.mp hcore
    obtain ⟨inode, hi, -⟩ := h.vnode i v hv
    refine (wp_of_eq (vref_holding h hv)).mpr ⟨rfl, fun j hj => ?_⟩
    rcases Multiset.mem_cons.mp hj with rfl | hj
    · exact ⟨inode, hi, fun hnone => absurd hnone hcore⟩
    · exact hanchored j hj
  · rintro b _ i ⟨rfl, hanchored⟩
    obtain ⟨inode, ha⟩ := hanchored i (Multiset.mem_cons_self i b)
    exact (wp_of_eq (vput_holding h ha)).mpr
      ⟨rfl, fun j hj => hanchored j (Multiset.mem_cons_of_mem hj)⟩
  · rintro b _ d name ⟨rfl, hanchored⟩ hmem hdir hleads
    obtain ⟨e, hc⟩ : ∃ e, s.contents d = some (.dir e) := by
      simp only [Fs.tree] at hdir
      split at hdir
      · rename_i e hc
        exact ⟨e, hc⟩
      · cases hdir
    have hentries := getEntries_apply (s := s.holding b)
      ((congrFun (contents_holding s b) d).trans hc)
    change wp (ramfsLookup d name >>= _) _ _
    rw [wp_bind, ramfsLookup, wp_bind, wp_of_eq hentries]
    cases hfind : findEntry e fun x => nameMatch x.rdName name with
    | none =>
        have hchild : s.tree.child d name = none := by
          simp [Fs.tree, Fs.found, hc, hfind]
        rw [hchild]
        refine wp_pure.mpr (wp_pure.mpr ⟨rfl, ?_, ?_⟩)
        · rw [heldBy, zero_add]
        · rw [heldBy, zero_add]
          exact hanchored
    | some i =>
        have hchild : s.tree.child d name = some (e i).rdIno := found_of_match hc hfind
        obtain ⟨inode', ha'⟩ := hanchored d hmem
        obtain ⟨inode, ha⟩ := hleads d inode' _ ha' hchild
        rw [hchild]
        simp only []
        rw [wp_bind, wp_of_eq (vget_holding h ha.there)]
        refine wp_pure.mpr (wp_pure.mpr ⟨rfl, ?_, ?_⟩)
        · rw [heldBy, Multiset.singleton_add]
        · intro j hj
          rw [heldBy, Multiset.singleton_add] at hj
          rcases Multiset.mem_cons.mp hj with rfl | hj
          · exact ⟨inode, ha⟩
          · exact hanchored j hj

/-- In a state of the file system every name but the empty one and `..` leads somewhere. -/
theorem leads_of_books (h : Books .nothing s) (hne : name ≠ []) (hup : name ≠ dotdot) :
    s.Leads name := by
  intro dir inode n ha hfound
  rw [Fs.found] at hfound
  split at hfound
  · rename_i e hc
    obtain ⟨i, hfind, rfl⟩ := Option.map_eq_some_iff.mp hfound
    obtain ⟨hlt, hmatch⟩ := findEntry_some hfind
    have hname := nameMatch_iff.mp hmatch
    by_cases hdot : name = dot
    · have hdots := (h.tree.dots dir e hc (by simp [Owed.nothing])).1
      have hzero : findEntry e (fun x => nameMatch x.rdName name) = some 0 :=
        findEntry_zero (nameMatch_iff.mpr (by rw [hdots, hdot]))
      have hi : i = 0 := Option.some.inj (hfind.symm.trans hzero)
      rw [hi, hdots]
      exact ⟨inode, ha⟩
    · have hlive : (e i).live = true := Dirent.live_iff.mpr (by rw [hname]; exact ⟨hne, hdot, hup⟩)
      obtain ⟨x, hx⟩ := Option.ne_none_iff_exists'.mp (h.tree.named dir e i hc hlt hlive)
      obtain ⟨inode', hi', -⟩ := inode_of_contents hx
      refine ⟨inode', hi', fun hnone hzero => ?_⟩
      have hcount := h.count _ inode' hi'
      have hlinks : links s.contents (e i).rdIno ≠ 0 := fun hlinks =>
        not_names_of_links hlinks (h.tree.lt_of_dir hc) hlt hc hlive rfl
      have hroot : 0 ≤ rootLink (e i).rdIno := by
        rw [rootLink]
        split <;> decide
      rw [hzero, inCore_of_none hnone] at hcount
      simp only [Owed.nothing] at hcount
      omega
  · cases hfound

variable {history : List Event} {path : List UInt8} {flag cwd : Nat}

end CodingSample.Ramfs
