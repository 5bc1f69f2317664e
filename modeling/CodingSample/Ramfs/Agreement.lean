import CodingSample.Ramfs.Preserve

/-!
# The ramfs agrees with its own sizes

Over any sequence of calls the sizes and link counts are those of the entries, and a file holds
what was last written to it, unless a call meets one of four defects: a write that begins past the
page or has more bytes than an `int` counts, an entry made in a directory that is removed, and the
two that the empty name and a stale `..` lead to.
-/

namespace CodingSample.Ramfs

open Prog Vfs

variable {s s₀ t : Fs} {o : Owed} {c : Held} {i ino file dir : Nat} {inode : Inode} {v : Vnode}
  {page page' : Nat → UInt8} {offset : Int} {buf : List UInt8} {count : Nat}

/-! ### Reading and writing -/

theorem getInode_apply (h : s.rfsInodes i = some inode) : getInode i s = .ok (inode, s) := by
  rw [getInode, bind_eq_of_ok (get_apply s), h]
  rfl

theorem getVnode_apply (h : s.vnodes i = some v) : getVnode i s = .ok (v, s) := by
  rw [getVnode, bind_eq_of_ok (get_apply s), h]
  rfl

theorem modifyInode_apply {f : Inode → Inode} (h : s.rfsInodes i = some inode) :
    modifyInode i f s = .ok ((), s.setInode i (some (f inode))) := by
  rw [modifyInode, bind_eq_of_ok (getInode_apply h)]
  rfl

theorem getPage_apply (h : s.rfsInodes i = some inode) (hpage : inode.contents = .data page) :
    getPage i s = .ok (page, s) := by
  rw [getPage, bind_eq_of_ok (getInode_apply h), hpage]
  rfl

theorem Tree.setData {raw : Option Nat} (h : Tree raw c) (hc : c i = some (.data page)) :
    Tree raw (Function.update c i (some (.data page'))) := by
  have hlinks : ∀ j, links (Function.update c i (some (.data page'))) j = links c j := by
    intro j
    refine links_update ?_ ?_
    · intro y _ hy _
      rw [hc] at hy
      cases hy
      rfl
    · rintro y _ ⟨rfl⟩ _
      rfl
  have hmono : ∀ j, c j ≠ none → Function.update c i (some (.data page')) j ≠ none := by
    intro j hj
    by_cases hji : j = i
    · rw [hji, Function.update_self]
      exact Option.some_ne_none _
    · rwa [Function.update_of_ne hji]
  have hdir : ∀ {d e}, Function.update c i (some (.data page')) d = some (.dir e) →
      c d = some (.dir e) := by
    intro d e hd
    by_cases hdi : d = i
    · rw [hdi, Function.update_self] at hd
      cases hd
    · rwa [Function.update_of_ne hdi] at hd
  refine ⟨hmono 0 h.root, ?_, fun d e hd => h.dots d e (hdir hd),
    fun d e k hd hk hl => hmono _ (h.named d e k (hdir hd) hk hl), ?_⟩
  · intro d hd
    by_cases hdi : d = i
    · apply h.lt
      rw [hdi, hc]
      exact Option.some_ne_none _
    · rw [Function.update_of_ne hdi] at hd
      exact h.lt d hd
  · intro d e k hd hzero hl hk
    rw [hlinks] at hl
    exact h.orphan d e k (hdir hd) hzero hl hk

/-- A page and the length of its file change. -/
theorem Books.write {n : Int} (h : Books .nothing s) (hi : s.rfsInodes file = some inode)
    (hv : s.vnodes file = some v) (hpage : inode.contents = .data page) (hn : 0 ≤ n ∧ n ≤ 4096) :
    Books .nothing ((s.setInode file
      (some { inode with rfSize := n, contents := .data page' })).setVnode file
        (some { v with vnLen := n })) := by
  have hc : s.contents file = some (.data page) := by rw [contents_eq hi, hpage]
  have hself : (s.setInode file
      (some { inode with rfSize := n, contents := .data page' })).rfsInodes file =
      some { inode with rfSize := n, contents := .data page' } := Fs.rfsInodes_setInode_self
  obtain ⟨x, hx, hshows⟩ := h.vnode file v hv
  rw [hi] at hx
  cases hx
  have hcore : ∀ j, ((s.setInode file
      (some { inode with rfSize := n, contents := .data page' })).setVnode file
        (some { v with vnLen := n })).inCore j = s.inCore j := by
    intro j
    by_cases hj : j = file
    · rw [hj, inCore_of_some hv, inCore_of_some Fs.vnodes_setVnode_self]
    · rw [Fs.inCore, Fs.vnodes_setVnode_of_ne hj]
      rfl
  have hlinks : ∀ j, links (Function.update s.contents file (some (.data page'))) j =
      links s.contents j := by
    intro j
    refine links_update ?_ ?_
    · intro y _ hy _
      rw [hc] at hy
      cases hy
      rfl
    · rintro y _ ⟨rfl⟩ _
      rfl
  refine ⟨?_, ?_, ?_, ?_, ?_, ?_⟩
  · rw [contents_setVnode, contents_setInode]
    exact h.tree.setData hc
  · intro j y hj
    by_cases hji : j = file
    · subst hji
      cases hself.symm.trans hj
      exact h.ino j inode hi
    · exact h.ino j y ((Fs.rfsInodes_setInode_of_ne hji).symm.trans hj)
  · intro j y hj
    rw [hcore, contents_setVnode, contents_setInode, Option.map_some, hlinks]
    by_cases hji : j = file
    · subst hji
      cases hself.symm.trans hj
      exact h.count j inode hi
    · exact h.count j y ((Fs.rfsInodes_setInode_of_ne hji).symm.trans hj)
  · intro j w hw
    by_cases hji : j = file
    · subst hji
      rw [Fs.vnodes_setVnode_self] at hw
      cases hw
      refine ⟨_, hself, ?_, hshows.refcount, fun _ => rfl⟩
      exact hshows.mode.trans (by rw [hpage]; rfl)
    · rw [Fs.vnodes_setVnode_of_ne hji] at hw
      obtain ⟨y, hy, hok⟩ := h.vnode j w hw
      exact ⟨y, (Fs.rfsInodes_setInode_of_ne hji).trans hy, hok⟩
  · intro j y p hj hy
    by_cases hji : j = file
    · subst hji
      cases hself.symm.trans hj
      exact hn
    · exact h.data j y p ((Fs.rfsInodes_setInode_of_ne hji).symm.trans hj) hy
  · intro j y e hj hy
    by_cases hji : j = file
    · subst hji
      cases hself.symm.trans hj
      cases hy
    · exact h.size j y e ((Fs.rfsInodes_setInode_of_ne hji).symm.trans hj) hy

/-- A regular file that is in core. -/
structure OpenFile (s : Fs) (file : Nat) (inode : Inode) (v : Vnode) (page : Nat → UInt8) :
    Prop where
  there : s.rfsInodes file = some inode
  inCore : s.vnodes file = some v
  data : inode.contents = .data page
  mode : v.vnMode = .reg
  len : v.vnLen = inode.rfSize
  range : 0 ≤ inode.rfSize ∧ inode.rfSize ≤ 4096

theorem Books.openFile (h : Books .nothing s) (hv : s.vnodes file = some v)
    (hmode : v.vnMode = .reg) : ∃ inode page, OpenFile s file inode v page := by
  obtain ⟨inode, hi, hshows⟩ := h.vnode file v hv
  cases hpage : inode.contents with
  | data page =>
      exact ⟨inode, page, hi, hv, hpage, hmode, hshows.len hmode, h.data file inode page hi hpage⟩
  | dir _ | chr _ | blk _ =>
      have hother := hshows.mode.symm.trans hmode
      rw [hpage] at hother
      cases hother

theorem OpenFile.wp_read (h : OpenFile s file inode v page) (hoffset : 0 ≤ offset) :
    wp (ramfsRead file offset count) (fun r t => t = s ∧
      r.1 = max 0 (min (int32 count) (inode.rfSize - offset)) ∧
      r.2 = (List.range r.1.toNat).map fun k => page (offset.toNat + k)) s := by
  have hrange := h.range
  set ret := max 0 (min (int32 count) (inode.rfSize - offset)) with hret
  have hcheck : ret = 0 ∨ 0 ≤ offset ∧ 0 ≤ ret ∧ offset + ret ≤ pageSize := by
    have hpage : ((pageSize : Nat) : Int) = 4096 := rfl
    rw [hpage]
    omega
  rw [ramfsRead, wp_bind, wp_of_eq (getInode_apply h.there), wp_bind,
    wp_of_eq (getVnode_apply h.inCore), wp_bind, kassert, wp_check]
  refine ⟨by rw [h.mode]; rfl, ?_⟩
  rw [wp_bind, copyOut, wp_bind, wp_of_eq (getPage_apply h.there h.data), wp_bind, wp_check]
  refine ⟨decide_eq_true hcheck, ?_⟩
  rw [wp_pure, wp_pure]
  exact ⟨rfl, rfl, rfl⟩

/-- The state after a write. -/
def Fs.written (s : Fs) (file : Nat) (inode : Inode) (v : Vnode) (page : Nat → UInt8) (n : Int) :
    Fs :=
  (s.setInode file (some { inode with rfSize := n, contents := .data page })).setVnode file
    (some { v with vnLen := n })

theorem int32_of_lt {n : Nat} (h : n < 2147483648) : int32 n = n := by
  unfold int32
  omega

theorem OpenFile.wp_write (h : OpenFile s file inode v page)
    (hoffset : 0 ≤ offset ∧ offset ≤ 4096) (hlen : buf.length < 2147483648) :
    wp (ramfsWrite file offset buf) (fun ret t => ret = min (buf.length : Int) (4096 - offset) ∧
      t = s.written file inode v (patch page offset.toNat (buf.take ret.toNat))
        (max inode.rfSize (offset + ret))) s := by
  have hpage : ((pageSize : Nat) : Int) = 4096 := rfl
  set ret := min (buf.length : Int) (4096 - offset) with hret
  have hcheck : 0 ≤ offset ∧ 0 ≤ ret ∧ offset + ret ≤ pageSize := by
    rw [hpage]
    omega
  rw [ramfsWrite, wp_bind, wp_of_eq (getVnode_apply h.inCore), wp_bind, kassert, wp_check]
  refine ⟨by rw [h.mode]; rfl, ?_⟩
  rw [int32_of_lt hlen, hpage, ← hret]
  set patched : Inode :=
    { inode with contents := .data (patch page offset.toNat (buf.take ret.toNat)) } with hpatched
  have hcopy : copyIn file offset ret buf s = .ok ((), s.setInode file (some patched)) := by
    rw [copyIn, bind_eq_of_ok (getPage_apply h.there h.data), decide_eq_true hcheck, check_true,
      bind_eq_of_ok (pure_apply () s), modifyInode_apply h.there]
  have hself : ((s.setInode file (some patched)).setVnode file
      (some { v with vnLen := max v.vnLen (offset + ret) })).rfsInodes file = some patched :=
    Fs.rfsInodes_setInode_self
  rw [wp_bind, wp_of_eq hcopy, wp_bind, wp_of_eq (getInode_apply Fs.rfsInodes_setInode_self),
    wp_bind, kassert, wp_check]
  refine ⟨decide_eq_true h.len, ?_⟩
  rw [wp_bind, wp_modify, wp_bind, wp_of_eq (modifyInode_apply hself), wp_pure]
  refine ⟨rfl, ?_⟩
  rw [h.len]
  simp only [Fs.written, Fs.setInode, Fs.setVnode, Function.update_idem, hpatched]

/-! ### Runs of the calls -/

/-- A call that was made, with the state before it and what it returned. -/
structure Event where
  before : Fs
  call : Call
  ret : Int

/-- The byte that a call wrote at a position of a file. -/
def Event.byteAt (event : Event) (ino pos : Nat) : Option UInt8 :=
  match event.call with
  | .write file offset buf =>
      if file = ino ∧ offset ≤ pos ∧ pos < offset + event.ret then buf[pos - offset.toNat]?
      else none
  | _ => none

/-- The last byte written at a position since the file was made, in a history that begins with the
last call. -/
def lastWritten : List Event → Nat → Nat → UInt8
  | [], _, _ => 0
  | event :: rest, ino, pos => (event.byteAt ino pos).getD
      (if (event.before.rfsInodes ino).isNone then 0 else lastWritten rest ino pos)

/-- Someone holds the vnode of a directory. -/
def Fs.HeldDir (s : Fs) (dir : Nat) : Prop := ∃ v, s.vnodes dir = some v ∧ v.vnMode = .dir

/-- Someone holds the vnode of a regular file. -/
def Fs.HeldFile (s : Fs) (file : Nat) : Prop := ∃ v, s.vnodes file = some v ∧ v.vnMode = .reg

/-- When the VFS makes the call. -/
def Call.Made (s : Fs) : Call → Prop
  | create dir name _ | mknod dir name _ _ _ | mkdir dir name _ | unlink dir name |
    rmdir dir name | lookup dir name => s.HeldDir dir ∧ name.length ≤ nameLen - 1
  | link fromNode dir name =>
      s.HeldDir dir ∧ name.length ≤ nameLen - 1 ∧ s.vnodes fromNode ≠ none
  | vput vn => s.vnodes vn ≠ none
  | read file offset count => s.HeldFile file ∧ 0 ≤ offset ∧ count < 4294967296
  | write file offset buf => s.HeldFile file ∧ 0 ≤ offset ∧ buf.length < 4294967296

/-- `ramfs_query_vnode`: the inode is still in the file system. -/
def Fs.Queried (s : Fs) (ino : Nat) : Prop :=
  ∃ inode, s.rfsInodes ino = some inode ∧ 1 < inode.rfLinkcount

/-- The call does not meet one of the defects. -/
def Call.Sound (s : Fs) : Call → Prop
  | create dir _ _ | mknod dir _ _ _ _ | mkdir dir _ _ | link _ dir _ => s.Queried dir
  | unlink dir name =>
      name = [] ∨ name = dotdot → ∀ ino, s.found dir name = some ino → s.isDir ino
  | rmdir dir name => name = [] → ∀ ino, s.found dir name = some ino → ¬ s.isEmptyDir ino
  | write _ offset buf => offset ≤ pageSize ∧ buf.length < 2147483648
  | lookup .. | vput _ | read .. => True

/-- `CallRun P s₀ s history`: calls of the VFS that meet `P` lead from `s₀` to `s`. -/
inductive CallRun (P : Fs → Call → Prop) (s₀ : Fs) : Fs → List Event → Prop
  | start : CallRun P s₀ s₀ []
  | call {s s' : Fs} {history : List Event} {c : Call} {out : Outcome} :
      CallRun P s₀ s history → c.Made s → P s c → c.run s = .ok (out, s') →
      CallRun P s₀ s' (⟨s, c, out.ret⟩ :: history)

/-- The entries of the root directory after `ramfs_mount`. -/
def rootEntries : Nat → Dirent :=
  Function.update (Function.update (fun _ => ⟨0, []⟩) 0 ⟨0, dot⟩) 1 ⟨0, dotdot⟩

/-- What `ramfs_mount` leaves: the root directory, with its vnode in core. -/
def mounted : Fs where
  rfsInodes := Function.update (fun _ => none) 0 (some ⟨64, 0, 2, .dir rootEntries⟩)
  vnodes := Function.update (fun _ => none) 0 (some ⟨.dir, 64, 1⟩)

theorem ramfsMount_apply :
    ramfsMount ⟨true, true⟩ ⟨fun _ => none, fun _ => none⟩ = .ok (0, mounted) := by
  have halloc : ramfsAllocInode .zeroDir ⟨true, true⟩ ⟨fun _ => none, fun _ => none⟩ =
      .ok (0, (⟨fun _ => none, fun _ => none⟩ : Fs).setInode 0 (some ⟨0, 0, 1, .zeroDir⟩)) := rfl
  rw [ramfsMount, if_neg (by decide)]
  rw [bind_eq_of_ok (modify_apply _ _), bind_eq_of_ok halloc]
  simp [bind_apply, kassert, setEntry, getEntries, getInode, modifyInode, addSize, vget,
    ramfsReadVnode, addLinks, Contents.zeroDir, Fs.setInode, Fs.setVnode, mounted, rootEntries,
    Contents.vnMode]

theorem mounted_of_ne (h : i ≠ 0) : mounted.rfsInodes i = none ∧ mounted.vnodes i = none := by
  simp [mounted, h]

theorem mounted_contents : mounted.contents = Function.update (fun _ => none) 0
    (some (.dir rootEntries)) := by
  funext j
  by_cases hj : j = 0
  · rw [hj]
    rfl
  · rw [Fs.contents, (mounted_of_ne hj).1, Function.update_of_ne hj]
    rfl

theorem not_live_rootEntries (i : Nat) : (rootEntries i).live = false := by
  rw [rootEntries]
  by_cases h1 : i = 1
  · rw [h1]
    rfl
  rw [Function.update_of_ne h1]
  by_cases h0 : i = 0
  · rw [h0]
    rfl
  · rw [Function.update_of_ne h0]
    rfl

theorem links_mounted (ino : Nat) : links mounted.contents ino = 0 := by
  rw [links, tally_eq_zero_iff]
  rintro ⟨d, i⟩ -
  rw [slot, mounted_contents]
  by_cases hd : d = 0
  · rw [hd]
    exact Dirent.names_of_not_live (not_live_rootEntries i)
  · rw [Function.update_of_ne hd]
    rfl

theorem entryCount_rootEntries : entryCount rootEntries = 2 := by
  have hzero : entryCount (fun _ => (⟨0, []⟩ : Dirent)) = 0 :=
    tally_eq_zero_iff.mpr fun _ _ => rfl
  rw [rootEntries, entryCount_fill (by decide) rfl (List.cons_ne_nil _ _),
    entryCount_fill (by decide) rfl (List.cons_ne_nil _ _), hzero]

theorem mounted_books : Books .nothing mounted := by
  have hinode : ∀ {i inode}, mounted.rfsInodes i = some inode →
      i = 0 ∧ inode = ⟨64, 0, 2, .dir rootEntries⟩ := by
    intro i inode hi
    by_cases h0 : i = 0
    · subst h0
      cases hi
      exact ⟨rfl, rfl⟩
    · rw [(mounted_of_ne h0).1] at hi
      cases hi
  have hdir : ∀ {d e}, mounted.contents d = some (.dir e) → d = 0 ∧ e = rootEntries := by
    intro d e hd
    obtain ⟨inode, hi, he⟩ := inode_of_contents hd
    obtain ⟨rfl, rfl⟩ := hinode hi
    cases he
    exact ⟨rfl, rfl⟩
  refine ⟨⟨?_, ?_, ?_, ?_, ?_⟩, ?_, ?_, ?_, ?_, ?_⟩
  · exact Option.some_ne_none _
  · intro d hd
    obtain ⟨x, hx⟩ := Option.ne_none_iff_exists'.mp hd
    obtain ⟨inode, hi, -⟩ := inode_of_contents hx
    rw [(hinode hi).1]
    decide
  · intro d e hd _
    obtain ⟨rfl, rfl⟩ := hdir hd
    exact ⟨rfl, rfl⟩
  · intro d e i hd _ hlive
    obtain ⟨rfl, rfl⟩ := hdir hd
    rw [not_live_rootEntries] at hlive
    cases hlive
  · intro d e i hd hzero
    exact absurd (hdir hd).1 hzero
  · intro i inode hi
    obtain ⟨rfl, rfl⟩ := hinode hi
    rfl
  · intro i inode hi
    obtain ⟨rfl, rfl⟩ := hinode hi
    rw [links_mounted]
    rfl
  · intro i v hv
    by_cases h0 : i = 0
    · subst h0
      cases hv
      exact ⟨_, rfl, rfl, Int.one_pos, fun hreg => by cases hreg⟩
    · rw [(mounted_of_ne h0).2] at hv
      cases hv
  · intro i inode page hi hpage
    obtain ⟨rfl, rfl⟩ := hinode hi
    cases hpage
  · intro i inode e hi he
    obtain ⟨rfl, rfl⟩ := hinode hi
    cases he
    rw [entryCount_rootEntries]
    rfl

/-- Every file holds what was last written to it. -/
def Remembers (s : Fs) (history : List Event) : Prop :=
  ∀ ino page, s.contents ino = some (.data page) → ∀ pos, page pos = lastWritten history ino pos

variable {history : List Event} {call : Call}

theorem linked_of_queried (h : Books .nothing s) (hheld : s.HeldDir dir) (hq : s.Queried dir) :
    Linked s dir := by
  obtain ⟨v, hv, -⟩ := hheld
  obtain ⟨inode, hi, hlt⟩ := hq
  have hcount := h.count dir inode hi
  rw [inCore_of_some hv] at hcount
  by_cases hroot : dir = 0
  · exact Or.inl hroot
  · refine Or.inr ?_
    intro hzero
    rw [hzero, rootLink, if_neg hroot] at hcount
    simp [Owed.nothing] at hcount
    omega

theorem remembers_of_aged (h : Remembers s history) {ret : Int} (haged : Aged s.contents t.contents)
    (hcall : ∀ file offset buf, call ≠ .write file offset buf) :
    Remembers t (⟨s, call, ret⟩ :: history) := by
  intro ino page hpage pos
  have hbyte : Event.byteAt ⟨s, call, ret⟩ ino pos = none := by
    cases call with
    | write file offset buf => exact absurd rfl (hcall file offset buf)
    | _ => rfl
  rw [lastWritten, hbyte]
  rcases haged ino page hpage with hold | ⟨hnone, rfl⟩
  · obtain ⟨inode, hi, -⟩ := inode_of_contents hold
    rw [hi]
    exact h ino page hold pos
  · have hmissing : s.rfsInodes ino = none := by simpa [Fs.contents] using hnone
    rw [hmissing]
    rfl

/-- A call other than a write keeps the books, and the files. -/
theorem wlp_call (h : Books .nothing s) (hmade : call.Made s) (hsound : call.Sound s)
    (hcall : ∀ file offset buf, call ≠ .write file offset buf) :
    wlp call.run (fun _ t => Kept s t) s := by
  cases call with
  | create dir name mem => exact h.wlp_openCreate (linked_of_queried h hmade.1 hsound)
  | mknod dir name mode devid mem =>
      rw [Call.run, doMknod]
      split
      · exact wlp_pure.mpr (h.kept rfl)
      · exact h.wlp_unlessFound (h.wlp_mknod (linked_of_queried h hmade.1 hsound))
  | link fromNode dir name =>
      refine h.wlp_unlessFound (h.wlp_link (linked_of_queried h hmade.1 hsound) ?_)
      obtain ⟨v, hv⟩ := Option.ne_none_iff_exists'.mp hmade.2.2
      obtain ⟨inode, hi, -⟩ := h.vnode fromNode v hv
      rw [contents_eq hi]
      exact Option.some_ne_none _
  | unlink dir name => exact h.wlp_unlink hsound
  | mkdir dir name mem =>
      exact h.wlp_unlessFound (h.wlp_mkdir (linked_of_queried h hmade.1 hsound))
  | rmdir dir name => exact h.wlp_rmdir hsound
  | lookup dir name => exact h.wlp_doLookup
  | vput vn =>
      refine wlp_bind_of (h.kept rfl).wlp_vput ?_
      exact fun _ t ht => wlp_pure.mpr ht
  | read file offset count =>
      obtain ⟨⟨v, hv, hmode⟩, hoffset, -⟩ := hmade
      obtain ⟨inode, page, hopen⟩ := h.openFile hv hmode
      refine wlp_bind_of (wlp_of_wp (hopen.wp_read hoffset)) ?_
      rintro r t ⟨rfl, -⟩
      exact wlp_pure.mpr (h.kept rfl)
  | write file offset buf => exact absurd rfl (hcall file offset buf)

theorem patch_take {n : Nat} (hn : n ≤ buf.length) (off pos : Nat) :
    patch page off (buf.take n) pos =
      (if off ≤ pos ∧ pos < off + n then buf[pos - off]? else none).getD (page pos) := by
  rw [patch]
  by_cases hoff : off ≤ pos
  · by_cases hlt : pos < off + n
    · rw [if_pos hoff, if_pos ⟨hoff, hlt⟩, List.getD_eq_getElem?_getD,
        List.getElem?_take_of_lt (by omega)]
    · rw [if_pos hoff, if_neg (fun h => hlt h.2), List.getD_eq_getElem?_getD,
        List.getElem?_eq_none (by rw [List.length_take]; omega)]
  · rw [if_neg hoff, if_neg (fun h => hoff h.1), Option.getD_none]

/-- A write keeps the books, and the history has its bytes. -/
theorem write_step (h : Books .nothing s) (hold : Remembers s history)
    (hopen : OpenFile s file inode v page) (hoffset : 0 ≤ offset ∧ offset ≤ 4096)
    (hlen : buf.length < 2147483648) : wp (Call.write file offset buf).run (fun out t =>
      Books .nothing t ∧ Remembers t (⟨s, .write file offset buf, out.ret⟩ :: history)) s := by
  refine wp_bind_of (hopen.wp_write hoffset hlen) ?_
  rintro ret t ⟨hret, rfl⟩
  have hrange := hopen.range
  refine wp_pure.mpr ⟨h.write hopen.there hopen.inCore hopen.data (by omega), ?_⟩
  intro ino page' hpage' pos
  rw [Fs.written, contents_setVnode, contents_setInode] at hpage'
  rw [lastWritten]
  by_cases hino : ino = file
  · subst hino
    rw [Function.update_self] at hpage'
    cases hpage'
    have hc : s.contents ino = some (.data page) := by rw [contents_eq hopen.there, hopen.data]
    rw [hopen.there, patch_take (by omega), hold ino page hc pos, Event.byteAt]
    simp only [true_and]
    have hiff : offset.toNat ≤ pos ∧ pos < offset.toNat + ret.toNat ↔
        offset ≤ pos ∧ (pos : Int) < offset + ret := by
      omega
    rw [if_congr hiff rfl rfl]
    rfl
  · rw [Function.update_of_ne hino] at hpage'
    have hbyte : Event.byteAt ⟨s, .write file offset buf, (returns ret).ret⟩ ino pos = none :=
      if_neg fun heq => hino heq.1.symm
    obtain ⟨inode', hi, -⟩ := inode_of_contents hpage'
    rw [hbyte, hi]
    exact hold ino page' hpage' pos

/-- Over a run of sound calls the books are kept, and every file holds what was last written. -/
theorem CallRun.books (hrun : CallRun Call.Sound mounted s history) :
    Books .nothing s ∧ Remembers s history := by
  induction hrun with
  | start =>
      refine ⟨mounted_books, ?_⟩
      intro ino page hpage
      rw [mounted_contents] at hpage
      by_cases h0 : ino = 0
      · rw [h0, Function.update_self] at hpage
        cases hpage
      · rw [Function.update_of_ne h0] at hpage
        cases hpage
  | @call s t history c out hrun hmade hsound hcall ih =>
      obtain ⟨hbooks, hold⟩ := ih
      by_cases hwrite : ∃ file offset buf, c = .write file offset buf
      · obtain ⟨file, offset, buf, rfl⟩ := hwrite
        obtain ⟨⟨v, hv, hmode⟩, hpos, -⟩ := hmade
        obtain ⟨inode, page, hopen⟩ := hbooks.openFile hv hmode
        exact wlp_of_wp (write_step hbooks hold hopen ⟨hpos, hsound.1⟩ hsound.2) out t hcall
      · have hnot : ∀ file offset buf, c ≠ .write file offset buf :=
          fun file offset buf heq => hwrite ⟨file, offset, buf, heq⟩
        obtain ⟨hbookst, haged⟩ := wlp_call hbooks hmade hsound hnot out t hcall
        exact ⟨hbookst, remembers_of_aged hold haged hnot⟩

/-! ### The file system agrees with its own sizes -/

/-- The sizes and link counts are those of the entries. -/
structure Agrees (s : Fs) : Prop where
  dirSize : ∀ dir inode e, s.rfsInodes dir = some inode → inode.contents = .dir e →
    inode.rfSize = sizeofDirent * entryCount e
  fileSize : ∀ file inode page, s.rfsInodes file = some inode → inode.contents = .data page →
    0 ≤ inode.rfSize ∧ inode.rfSize ≤ pageSize ∧
      ∀ v, s.vnodes file = some v → v.vnLen = inode.rfSize
  linkcount : ∀ ino inode, s.rfsInodes ino = some inode →
    inode.rfLinkcount = links s.contents ino + s.inCore ino + rootLink ino

/-- A write returns a count between 0 and its argument, and changes bytes of the page there. -/
def Wrote (s : Fs) (file : Nat) (offset : Int) (buf : List UInt8) (out : Outcome) (t : Fs) : Prop :=
  0 ≤ out.ret ∧ out.ret ≤ buf.length ∧ offset + out.ret ≤ pageSize ∧
    (∀ ino, ino ≠ file → t.rfsInodes ino = s.rfsInodes ino) ∧
    ∃ page page', s.contents file = some (.data page) ∧ t.contents file = some (.data page') ∧
      ∀ pos : Nat, (pos : Int) < offset ∨ offset + out.ret ≤ pos → page' pos = page pos

/-- A read returns the last bytes written at each position. -/
def ReadBack (history : List Event) (s : Fs) (file : Nat) (offset : Int) (count : Nat)
    (out : Outcome) (t : Fs) : Prop :=
  t = s ∧ (∃ inode, s.rfsInodes file = some inode ∧
      out.ret = max 0 (min (int32 count) (inode.rfSize - offset))) ∧
    out.data = (List.range out.ret.toNat).map fun k => lastWritten history file (offset.toNat + k)

theorem Books.agrees (h : Books .nothing s) : Agrees s := by
  refine ⟨?_, ?_, ?_⟩
  · intro dir inode e hi he
    rw [h.size dir inode e hi he]
    exact Int.add_zero _
  · intro file inode page hi hpage
    obtain ⟨hlow, hhigh⟩ := h.data file inode page hi hpage
    refine ⟨hlow, hhigh, ?_⟩
    intro v hv
    obtain ⟨x, hx, hshows⟩ := h.vnode file v hv
    rw [hi] at hx
    cases hx
    exact hshows.len (hshows.mode.trans (by rw [hpage]; rfl))
  · intro ino inode hi
    rw [h.count ino inode hi]
    exact Int.add_zero _

theorem wp_wrote (h : Books .nothing s) (hmade : (Call.write file offset buf).Made s)
    (hsound : (Call.write file offset buf).Sound s) :
    wp (Call.write file offset buf).run (Wrote s file offset buf) s := by
  obtain ⟨⟨v, hv, hmode⟩, hpos, -⟩ := hmade
  obtain ⟨hmax, hlen⟩ := hsound
  have hpage : ((pageSize : Nat) : Int) = 4096 := rfl
  rw [hpage] at hmax
  obtain ⟨inode, page, hopen⟩ := h.openFile hv hmode
  refine wp_bind_of (hopen.wp_write ⟨hpos, hmax⟩ hlen) ?_
  rintro ret t ⟨hret, rfl⟩
  have hc : s.contents file = some (.data page) := by rw [contents_eq hopen.there, hopen.data]
  refine wp_pure.mpr ⟨?_, ?_, ?_, ?_, page, patch page offset.toNat (buf.take ret.toNat), hc,
    ?_, ?_⟩
  · change 0 ≤ ret
    omega
  · change ret ≤ buf.length
    omega
  · change offset + ret ≤ pageSize
    rw [hpage]
    omega
  · intro ino hino
    exact Fs.rfsInodes_setInode_of_ne hino
  · rw [Fs.written, contents_setVnode, contents_setInode, Function.update_self]
    rfl
  · intro pos hout
    change (pos : Int) < offset ∨ offset + ret ≤ pos at hout
    rw [patch_take (by omega), if_neg (by omega), Option.getD_none]

theorem wp_readBack (h : Books .nothing s) (hold : Remembers s history)
    (hmade : (Call.read file offset count).Made s) :
    wp (Call.read file offset count).run (ReadBack history s file offset count) s := by
  obtain ⟨⟨v, hv, hmode⟩, hpos, -⟩ := hmade
  obtain ⟨inode, page, hopen⟩ := h.openFile hv hmode
  refine wp_bind_of (hopen.wp_read hpos) ?_
  have hc : s.contents file = some (.data page) := by rw [contents_eq hopen.there, hopen.data]
  rintro ⟨ret, data⟩ t ⟨rfl, hret, hdata⟩
  refine wp_pure.mpr ⟨rfl, ⟨inode, hopen.there, hret⟩, ?_⟩
  rw [hdata]
  apply List.map_congr_left
  intro k _
  exact hold file page hc (offset.toNat + k)

/-- In every state that sound calls lead to the sizes agree, a write stays inside its page, and a
read returns what was last written. -/
theorem sizes_agree (hrun : CallRun Call.Sound mounted s history) : Agrees s ∧
    (∀ file offset buf, (Call.write file offset buf).Made s →
      (Call.write file offset buf).Sound s →
      wp (Call.write file offset buf).run (Wrote s file offset buf) s) ∧
    ∀ file offset count, (Call.read file offset count).Made s →
      wp (Call.read file offset count).run (ReadBack history s file offset count) s := by
  obtain ⟨hbooks, hold⟩ := hrun.books
  exact ⟨hbooks.agrees, fun _ _ _ hmade hsound => wp_wrote hbooks hmade hsound,
    fun _ _ _ hmade => wp_readBack hbooks hold hmade⟩

/-- A file `a` is made in the root directory. -/
def createFile : Call := .create 0 [97] ⟨true, true⟩

def oneFile : Fs :=
  match createFile.run mounted with
  | .ok (_, s) => s
  | .error _ => mounted

theorem createFile_run : createFile.run mounted = .ok (returns 0, oneFile) := rfl

theorem createFile_made : createFile.Made mounted := ⟨⟨_, rfl, rfl⟩, by decide⟩

theorem sizes_agree_oneFile :
    Agrees oneFile ∧ wp (Call.write 1 0 [1, 2, 3]).run (Wrote oneFile 1 0 [1, 2, 3]) oneFile := by
  have hrun : CallRun Call.Sound mounted oneFile [⟨mounted, createFile, 0⟩] :=
    .call .start createFile_made ⟨_, rfl, by decide⟩ createFile_run
  obtain ⟨hagrees, hwrite, -⟩ := sizes_agree hrun
  exact ⟨hagrees, hwrite 1 0 [1, 2, 3] ⟨⟨_, rfl, rfl⟩, by decide, by decide⟩
    ⟨by decide, by decide⟩⟩

/-- A write that begins past the page overruns it. -/
theorem write_overruns : CallRun (fun _ _ => True) mounted oneFile [⟨mounted, createFile, 0⟩] ∧
    (Call.write 1 4097 [0]).Made oneFile ∧
    ¬ wp (Call.write 1 4097 [0]).run (Wrote oneFile 1 4097 [0]) oneFile := by
  refine ⟨.call .start createFile_made trivial createFile_run,
    ⟨⟨_, rfl, rfl⟩, by decide, by decide⟩, ?_⟩
  have hfault : (Call.write 1 4097 [0]).run oneFile = .error .badAccess := rfl
  rintro ⟨out, t, hrun, -⟩
  rw [hfault] at hrun
  cases hrun

end CodingSample.Ramfs
