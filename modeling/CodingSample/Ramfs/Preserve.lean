import CodingSample.Ramfs.Books

/-!
# The calls keep the books

Each call on a directory leaves the sizes and link counts as the entries have them, and no file
changes but by a write.
-/

namespace CodingSample.Ramfs

open Prog Vfs

variable {o : Owed} {s t : Fs} {c c' c'' : Held} {i j ino dir vn : Nat} {inode : Inode}
  {e : Nat → Dirent} {name : Name} {mem : Supply} {test : Dirent → Bool} {x : Contents}

/-! ### Searches in a directory -/

theorem findEntry_some (h : findEntry e test = some i) : i < 128 ∧ test (e i) = true :=
  ⟨List.mem_range.mp (List.mem_of_find?_eq_some h),
    List.find?_some (p := fun i => test (e i)) h⟩

theorem findEntry_none (h : findEntry e test = none) (hi : i < 128) : test (e i) = false := by
  have hnone := List.find?_eq_none.mp h i (List.mem_range.mpr hi)
  exact Bool.eq_false_iff.mpr hnone

theorem findEntry_zero (h : test (e 0) = true) : findEntry e test = some 0 := by
  unfold findEntry
  have hrange : List.range ramfsMaxDirent = 0 :: (List.range 127).map Nat.succ :=
    List.range_succ_eq_map
  rw [hrange]
  exact List.find?_cons_of_pos h

/-- The inode of the first entry that matches a name. -/
def Fs.found (s : Fs) (dir : Nat) (name : Name) : Option Nat :=
  match s.contents dir with
  | some (.dir e) => (findEntry e fun x => nameMatch x.rdName name).map fun i => (e i).rdIno
  | _ => none

theorem found_of_match (hc : s.contents dir = some (.dir e))
    (hfind : findEntry e (fun x => nameMatch x.rdName name) = some i) :
    s.found dir name = some (e i).rdIno := by
  rw [Fs.found, hc]
  simp [hfind]

theorem nameMatch_iff {fname : Name} : nameMatch fname name = true ↔ fname = name := by
  simp [nameMatch]

/-- What `ramfs_lookup` leaves. -/
inductive Looked (o : Owed) (dir : Nat) (name : Name) (s : Fs) : Option Nat → Fs → Prop
  | missing (e : Nat → Dirent) (hc : s.contents dir = some (.dir e))
      (hno : ∀ i, i < 128 → (e i).rdName ≠ name) : Looked o dir name s none s
  | there (e : Nat → Dirent) (i : Nat) (t : Fs) (hc : s.contents dir = some (.dir e))
      (hfind : findEntry e (fun x => nameMatch x.rdName name) = some i)
      (hbooks : Books o t) (hsame : t.contents = s.contents) :
      Looked o dir name s (some (e i).rdIno) t

theorem Books.wlp_lookup (h : Books o s) :
    wlp (ramfsLookup dir name) (Looked o dir name s) s := by
  rw [ramfsLookup, wlp_bind]
  refine wlp_getEntries ?_
  intro inode e hi he
  have hc : s.contents dir = some (.dir e) := by rw [contents_eq hi, he]
  split
  · rename_i i hfind
    refine wlp_bind_of h.wlp_vget ?_
    rintro _ t ⟨hbooks, hsame⟩
    exact wlp_pure.mpr (.there e i t hc hfind hbooks hsame)
  · rename_i hnone
    refine wlp_pure.mpr (.missing e hc ?_)
    intro i hi heq
    have hfalse := findEntry_none hnone hi
    rw [nameMatch_iff.mpr heq] at hfalse
    cases hfalse

/-! ### The pages of the files -/

/-- The regular files have the pages they had, or are new and zero. -/
def Aged (c c' : Held) : Prop := ∀ j page, c' j = some (.data page) →
  c j = some (.data page) ∨ c j = none ∧ page = fun _ => 0

namespace Aged

theorem refl (c : Held) : Aged c c := fun _ _ h => Or.inl h

theorem setDir (h : Aged c c') : Aged c (Function.update c' dir (some (.dir e))) := by
  intro j page hj
  by_cases hjd : j = dir
  · rw [hjd, Function.update_self] at hj
    cases hj
  · rw [Function.update_of_ne hjd] at hj
    exact h j page hj

theorem alloc (hnone : c ino = none) (hzero : ∀ page, x = .data page → page = fun _ => 0) :
    Aged c (Function.update c ino (some x)) := by
  intro j page hj
  by_cases hji : j = ino
  · subst hji
    rw [Function.update_self] at hj
    exact Or.inr ⟨hnone, hzero page (Option.some.inj hj)⟩
  · rw [Function.update_of_ne hji] at hj
    exact Or.inl hj

theorem within (h : Aged c c') (hin : ∀ j x, c'' j = some x → c' j = some x) : Aged c c'' :=
  fun j page hj => h j page (hin j _ hj)

end Aged

/-- What a call keeps. -/
def Kept (s t : Fs) : Prop := Books .nothing t ∧ Aged s.contents t.contents

theorem Books.kept (h : Books .nothing t) (hsame : t.contents = s.contents) : Kept s t := by
  refine ⟨h, ?_⟩
  rw [hsame]
  exact Aged.refl _

theorem Kept.wlp_vput (h : Kept s t) : wlp (vput vn) (fun _ u => Kept s u) t := by
  refine wlp_mono (h.1.wlp_vput rfl rfl) ?_
  rintro _ u ⟨hbooks, hin⟩
  exact ⟨hbooks, h.2.within hin⟩

/-! ### New entries -/

theorem Books.wlp_addLinks {n : Int} (h : Books o s) : wlp (Ramfs.addLinks i n)
    (fun _ t => Books (o.addLinks i n) t ∧ t.contents = s.contents) s := by
  rw [Ramfs.addLinks]
  refine wlp_modifyInode ?_
  intro inode hi
  exact ⟨h.addLinks hi, contents_setInode_same hi rfl⟩

theorem Books.wlp_addSize {n : Int} (h : Books o s) (hc : s.contents dir = some (.dir e)) :
    wlp (Ramfs.addSize dir n)
      (fun _ t => Books (o.addSize dir n) t ∧ t.contents = s.contents) s := by
  rw [Ramfs.addSize]
  refine wlp_modifyInode ?_
  intro inode hi
  rw [contents_eq hi] at hc
  exact ⟨h.addSize hi (Option.some.inj hc), contents_setInode_same hi rfl⟩

theorem Books.wlp_alloc (h : Books .nothing s)
    (hempty : ∀ j, j < 128 → (x.entry j).any Dirent.live = false)
    (hcount : ∀ e, x = .dir e → entryCount e = 0) :
    wlp (ramfsAllocInode x mem) (fun r t => r < 0 ∧ t = s ∨ ∃ ino : Nat, r = ino ∧
      s.contents ino = none ∧ t.contents = Function.update s.contents ino (some x) ∧
      (∀ j, links t.contents j = links s.contents j) ∧
      Books { Owed.nothing.addLinks ino 1 with raw := some ino } t) s := by
  rw [ramfsAllocInode, wlp_bind, wlp_get]
  split
  · exact wlp_pure.mpr (Or.inl ⟨by decide, rfl⟩)
  · rename_i ino hfind
    have hlt : ino < 64 := List.mem_range.mp (List.mem_of_find?_eq_some hfind)
    have hnone : s.rfsInodes ino = none :=
      Option.isNone_iff_eq_none.mp (List.find?_some (p := fun i => (s.rfsInodes i).isNone) hfind)
    have hc : s.contents ino = none := by
      rw [Fs.contents, hnone]
      rfl
    split
    · exact wlp_pure.mpr (Or.inl ⟨by decide, rfl⟩)
    split
    · exact wlp_pure.mpr (Or.inl ⟨by decide, rfl⟩)
    rw [wlp_bind, wlp_modify, wlp_pure]
    refine Or.inr ⟨ino, rfl, hc, contents_setInode, ?_, h.alloc hnone hlt hempty hcount⟩
    intro j
    rw [contents_setInode]
    refine links_update ?_ ?_
    · intro y _ hy
      rw [hc] at hy
      cases hy
    · rintro y k ⟨rfl⟩ hk
      exact hempty k hk

theorem Books.wlp_setEntry {f : Dirent} {Q : Unit → Fs → Prop}
    (hc : s.contents dir = some (.dir e))
    (hq : ∀ inode, s.rfsInodes dir = some inode → inode.contents = .dir e →
      Q () (s.setInode dir (some { inode with contents := .dir (Function.update e i f) }))) :
    wlp (setEntry dir i f) Q s := by
  rw [setEntry, wlp_bind]
  refine wlp_getEntries ?_
  intro inode e' hi he
  have heq : e' = e := by
    rw [contents_eq hi, he] at hc
    cases hc
    rfl
  subst heq
  refine wlp_modifyInode ?_
  intro inode' hi'
  rw [hi] at hi'
  cases hi'
  exact hq inode hi he

theorem Books.wlp_enter (h : Books o s) (hc : s.contents dir = some (.dir e))
    (hraw : o.raw ≠ some dir) (hi : i < 128) (hempty : (e i).rdName = [])
    (hlive : (Dirent.mk ino (name.take (nameLen - 1))).live = true)
    (htarget : s.contents ino ≠ none) (hlinked : dir = 0 ∨ links s.contents dir ≠ 0) :
    wlp (enter dir i ino name) (fun _ t => Books (o.addLinks ino (-1)) t ∧
      t.contents = Function.update s.contents dir
        (some (.dir (Function.update e i ⟨ino, name.take (nameLen - 1)⟩)))) s := by
  rw [enter, wlp_bind]
  refine wlp_setEntry hc ?_
  intro inode hd hdir
  have hbooks := h.fill hd hdir hraw hi hempty hlive htarget hlinked
  have hcontents : (s.setInode dir (some { inode with
      contents := .dir (Function.update e i ⟨ino, name.take (nameLen - 1)⟩) })).contents =
      Function.update s.contents dir
        (some (.dir (Function.update e i ⟨ino, name.take (nameLen - 1)⟩))) := contents_setInode
  refine wlp_mono (hbooks.wlp_addSize (by rw [hcontents, Function.update_self])) ?_
  rintro _ t ⟨hout, hsame⟩
  refine ⟨?_, hsame.trans hcontents⟩
  convert hout using 1
  ext j
  · rfl
  · simp only [Owed.addSize]
    split <;> simp
  · rfl

/-- A name that is not in a directory is that of a live entry. -/
theorem live_of_new (h : Tree none c) (hc : c dir = some (.dir e))
    (hno : ∀ i, i < 128 → (e i).rdName ≠ name) (hi : i < 128) (hempty : (e i).rdName = []) :
    (Dirent.mk ino (name.take (nameLen - 1))).live = true := by
  obtain ⟨hdot, hdotdot⟩ := h.dots dir e hc (Option.some_ne_none _).symm
  have hne : name ≠ [] := fun heq => hno i hi (hempty.trans heq.symm)
  have hnd : name ≠ dot := by
    intro heq
    apply hno 0 (by decide)
    rw [hdot, heq]
  have hndd : name ≠ dotdot := fun heq => hno 1 (by decide) (hdotdot.trans heq.symm)
  rw [Dirent.live_iff]
  match name with
  | [] => exact absurd rfl hne
  | [a] => simpa using hnd
  | [a, b] => simpa using hndd
  | a :: b :: d :: rest => simp

theorem Books.wlp_withSlot {α : Type} {full : α} {body : Nat → R α} {Q : α → Fs → Prop}
    (h : Books .nothing s) (hfull : Q full s)
    (hbody : ∀ i e, s.contents dir = some (.dir e) → i < 128 → (e i).rdName = [] →
      (∀ ino, (Dirent.mk ino (name.take (nameLen - 1))).live = true) → wlp (body i) Q s) :
    wlp (withSlot dir name full body) Q s := by
  rw [withSlot]
  refine wlp_bind_of h.wlp_lookup ?_
  intro found t hlook
  rw [wlp_bind, kassert, wlp_check]
  intro hnone
  cases hlook with
  | there => cases hnone
  | missing e hc hno =>
      rw [wlp_bind]
      refine wlp_getEntries ?_
      intro inode e' hi he
      have heq : e' = e := by
        rw [contents_eq hi, he] at hc
        cases hc
        rfl
      subst heq
      split
      · exact wlp_pure.mpr hfull
      · rename_i i hfind
        obtain ⟨hlt, hempty⟩ := findEntry_some hfind
        have hname : (e' i).rdName = [] := by simpa using hempty
        exact hbody i e' hc hlt hname fun ino => live_of_new h.tree hc hno hlt hname

/-- The directory is the root, or an entry names it. -/
def Linked (s : Fs) (dir : Nat) : Prop := dir = 0 ∨ links s.contents dir ≠ 0

theorem Books.wlp_create (h : Books .nothing s) (hlinked : Linked s dir) :
    wlp (ramfsCreate dir name mem) (fun _ t => Kept s t) s := by
  rw [ramfsCreate]
  refine h.wlp_withSlot ⟨h, Aged.refl _⟩ ?_
  intro i e hc hi hempty hlive
  refine wlp_bind_of (h.wlp_alloc (x := .zeroData) (fun _ _ => rfl) (by
    intro e he
    cases he)) ?_
  rintro r t (⟨hr, rfl⟩ | ⟨ino, rfl, hnone, hcontents, hlinks, hbooks⟩)
  · rw [if_pos hr]
    exact wlp_pure.mpr ⟨h, Aged.refl _⟩
  rw [if_neg (not_lt.mpr (Int.natCast_nonneg ino)), Int.toNat_natCast]
  have hself : t.contents ino = some .zeroData := by rw [hcontents, Function.update_self]
  have hne : dir ≠ ino := by
    rintro rfl
    rw [hnone] at hc
    cases hc
  have hready : Books (Owed.nothing.addLinks ino 1) t := by
    refine ⟨hbooks.tree.settle ?_, hbooks.ino, hbooks.count, hbooks.vnode, hbooks.data,
      hbooks.size⟩
    intro e he
    rw [hself] at he
    cases he
  refine wlp_bind_of hready.wlp_vget ?_
  rintro _ u ⟨hbooksu, hsame⟩
  have hcu : u.contents dir = some (.dir e) := by
    rw [hsame, hcontents, Function.update_of_ne hne, hc]
  have hlinkedu : dir = 0 ∨ links u.contents dir ≠ 0 := by
    rw [hsame, hlinks]
    exact hlinked
  refine wlp_bind_of (hbooksu.wlp_enter hcu (Option.some_ne_none _).symm hi hempty (hlive ino) ?_
    hlinkedu) ?_
  · rw [hsame, hself]
    exact Option.some_ne_none _
  · rintro _ w ⟨hbooksw, hw⟩
    refine wlp_pure.mpr ⟨?_, ?_⟩
    · convert hbooksw using 1
      ext j
      · simp only [Owed.addLinks, Owed.nothing]
        split <;> simp
      · rfl
      · rfl
    · rw [hw, hsame, hcontents]
      refine (Aged.alloc hnone ?_).setDir
      rintro page ⟨rfl⟩
      rfl

theorem Books.wlp_mknod {mode : VnMode} {devid : UInt32} (h : Books .nothing s)
    (hlinked : Linked s dir) :
    wlp (ramfsMknod dir name mode devid mem) (fun _ t => Kept s t) s := by
  rw [ramfsMknod]
  refine h.wlp_withSlot ⟨h, Aged.refl _⟩ ?_
  intro i e hc hi hempty hlive
  split
  · exact wlp_fail.mpr trivial
  rename_i fresh hfresh
  have hentry : ∀ j, fresh.entry j = none := by
    intro j
    cases mode with
    | reg | dir => cases hfresh
    | chr | blk =>
        cases hfresh
        rfl
  have hnotdir : ∀ e, fresh ≠ .dir e := by
    rintro e rfl
    cases hentry 0
  have hnotdata : ∀ page, fresh ≠ .data page := by
    rintro page rfl
    cases mode <;> cases hfresh
  refine wlp_bind_of (h.wlp_alloc (x := fresh) (fun j _ => by rw [hentry]; rfl)
    fun e he => absurd he (hnotdir e)) ?_
  rintro r t (⟨hr, rfl⟩ | ⟨ino, rfl, hnone, hcontents, hlinks, hbooks⟩)
  · rw [if_pos hr]
    exact wlp_pure.mpr ⟨h, Aged.refl _⟩
  rw [if_neg (not_lt.mpr (Int.natCast_nonneg ino)), Int.toNat_natCast]
  have hself : t.contents ino = some fresh := by rw [hcontents, Function.update_self]
  have hready : Books (Owed.nothing.addLinks ino 1) t := by
    refine ⟨hbooks.tree.settle ?_, hbooks.ino, hbooks.count, hbooks.vnode, hbooks.data,
      hbooks.size⟩
    intro e he
    rw [hself] at he
    exact absurd (Option.some.inj he) (hnotdir e)
  have hne : dir ≠ ino := by
    rintro rfl
    rw [hnone] at hc
    cases hc
  have hct : t.contents dir = some (.dir e) := by
    rw [hcontents, Function.update_of_ne hne, hc]
  have hlinkedt : dir = 0 ∨ links t.contents dir ≠ 0 := by
    rw [hlinks]
    exact hlinked
  refine wlp_bind_of (hready.wlp_enter hct (Option.some_ne_none _).symm hi hempty (hlive ino) ?_
    hlinkedt) ?_
  · rw [hself]
    exact Option.some_ne_none _
  · rintro _ w ⟨hbooksw, hw⟩
    refine wlp_pure.mpr ⟨?_, ?_⟩
    · convert hbooksw using 1
      ext j
      · simp only [Owed.addLinks, Owed.nothing]
        split <;> simp
      · rfl
      · rfl
    · rw [hw, hcontents]
      exact (Aged.alloc hnone fun page hp => absurd hp (hnotdata page)).setDir

theorem Books.wlp_link {fromNode : Nat} (h : Books .nothing s) (hlinked : Linked s dir)
    (hfrom : s.contents fromNode ≠ none) :
    wlp (ramfsLink fromNode dir name) (fun _ t => Kept s t) s := by
  rw [ramfsLink]
  refine h.wlp_withSlot ⟨h, Aged.refl _⟩ ?_
  intro i e hc hi hempty hlive
  refine wlp_bind_of (h.wlp_enter hc (Option.some_ne_none _).symm hi hempty (hlive fromNode) hfrom
    hlinked) ?_
  rintro _ t ⟨hbooks, hcontents⟩
  refine wlp_bind_of hbooks.wlp_addLinks ?_
  rintro _ u ⟨hbooksu, hsame⟩
  refine wlp_pure.mpr ⟨?_, ?_⟩
  · convert hbooksu using 1
    ext j
    · simp only [Owed.addLinks, Owed.nothing]
      split <;> simp
    · rfl
    · rfl
  · rw [hsame, hcontents]
    exact (Aged.refl _).setDir

/-- `.` and `..` are set in a directory that is being made. -/
theorem Books.wlp_setDot {f : Dirent} (h : Books o s) (hc : s.contents dir = some (.dir e))
    (hraw : o.raw = some dir) (hdead : ∀ j, j < 128 → (e j).live = false) (hi : i < 128)
    (hempty : (e i).rdName = []) (hname : f.rdName ≠ []) (hnew : f.live = false) :
    wlp (setEntry dir i f) (fun _ t => Books (o.addSize dir (-32)) t ∧
      t.contents = Function.update s.contents dir (some (.dir (Function.update e i f)))) s := by
  refine wlp_setEntry hc ?_
  intro inode hd hdir
  exact ⟨h.setDot hd hdir hraw hdead hi hempty hname hnew, contents_setInode⟩

theorem Books.wlp_mkdir (h : Books .nothing s) (hlinked : Linked s dir) :
    wlp (ramfsMkdir dir name mem) (fun _ t => Kept s t) s := by
  rw [ramfsMkdir]
  refine h.wlp_withSlot ⟨h, Aged.refl _⟩ ?_
  intro i e hc hi hempty hlive
  have hzero : entryCount (fun _ => (⟨0, []⟩ : Dirent)) = 0 :=
    tally_eq_zero_iff.mpr fun _ _ => rfl
  refine wlp_bind_of (h.wlp_alloc (x := .zeroDir) (fun _ _ => rfl) (by
    rintro e ⟨rfl⟩
    exact hzero)) ?_
  rintro r t (⟨hr, rfl⟩ | ⟨ino, rfl, hnone, hcontents, hlinks, hbooks⟩)
  · rw [if_pos hr]
    exact wlp_pure.mpr ⟨h, Aged.refl _⟩
  rw [if_neg (not_lt.mpr (Int.natCast_nonneg ino)), Int.toNat_natCast]
  have hself : t.contents ino = some .zeroDir := by rw [hcontents, Function.update_self]
  have hne : dir ≠ ino := by
    rintro rfl
    rw [hnone] at hc
    cases hc
  have hct : t.contents dir = some (.dir e) := by
    rw [hcontents, Function.update_of_ne hne, hc]
  have hlinkedt : dir = 0 ∨ links t.contents dir ≠ 0 := by
    rw [hlinks]
    exact hlinked
  have hraw : some ino ≠ some dir := fun heq => hne (Option.some.inj heq).symm
  refine wlp_bind_of (hbooks.wlp_enter hct hraw hi hempty (hlive ino) ?_ hlinkedt) ?_
  · rw [hself]
    exact Option.some_ne_none _
  rintro _ u ⟨hbooksu, hu⟩
  have hcu : u.contents ino = some .zeroDir := by
    rw [hu, Function.update_of_ne hne.symm, hself]
  refine wlp_bind_of (hbooksu.wlp_setDot hcu rfl (fun _ _ => rfl) (by decide) rfl
    (List.cons_ne_nil _ _) rfl) ?_
  rintro _ w ⟨hbooksw, hw⟩
  have hcw : w.contents ino =
      some (.dir (Function.update (fun _ => ⟨0, []⟩) 0 ⟨ino, dot⟩)) := by
    rw [hw, Function.update_self]
  refine wlp_bind_of (hbooksw.wlp_setDot hcw rfl ?_ (i := 1) (by decide) rfl
    (List.cons_ne_nil _ _) rfl) ?_
  · intro j _
    by_cases hj : j = 0
    · rw [hj, Function.update_self]
      rfl
    · rw [Function.update_of_ne hj]
      rfl
  rintro _ y ⟨hbooksy, hy⟩
  have hcy : y.contents ino = some (.dir (Function.update (Function.update (fun _ => ⟨0, []⟩) 0
      ⟨ino, dot⟩) 1 ⟨dir, dotdot⟩)) := by
    rw [hy, Function.update_self]
  have htwo : entryCount (Function.update (Function.update (fun _ => (⟨0, []⟩ : Dirent)) 0
      ⟨ino, dot⟩) 1 ⟨dir, dotdot⟩) = 2 := by
    rw [entryCount_fill (by decide) rfl (List.cons_ne_nil _ _),
      entryCount_fill (by decide) rfl (List.cons_ne_nil _ _), hzero]
  rw [wlp_bind]
  refine wlp_modifyInode ?_
  intro inode hinode
  have hdir : inode.contents = .dir (Function.update (Function.update (fun _ => ⟨0, []⟩) 0
      ⟨ino, dot⟩) 1 ⟨dir, dotdot⟩) := by
    rw [contents_eq hinode] at hcy
    exact Option.some.inj hcy
  -- the size was zero so far
  have hsize : inode.rfSize = 0 := by
    rw [hbooksy.size ino inode _ hinode hdir, htwo]
    simp [Owed.addSize, Owed.nothing, Owed.addLinks]
  have hout := hbooksy.addSize (n := 64) hinode hdir
  have hsame : (y.setInode ino (some { inode with rfSize := 2 * sizeofDirent })).contents =
      y.contents := contents_setInode_same hinode rfl
  rw [hsize] at hout
  refine wlp_pure.mpr ⟨hout.settle ?_ ?_ ?_, ?_⟩
  · intro j
    simp only [Owed.addLinks, Owed.addSize, Owed.nothing]
    split <;> simp
  · intro j
    simp only [Owed.addLinks, Owed.addSize, Owed.nothing]
    split <;> simp
  · refine hout.tree.settle ?_
    intro e he
    rw [contents_setInode, Function.update_self, Option.map_some, hdir] at he
    cases he
    exact ⟨rfl, rfl⟩
  · rw [hsame, hy, hw, hu, hcontents]
    exact (((Aged.alloc hnone fun page hp => by cases hp).setDir).setDir).setDir

/-! ### Removed entries -/

theorem Books.wlp_removeEntry (h : Books .nothing s) (hc : s.contents dir = some (.dir e))
    (hfind : findEntry e (fun x => nameMatch x.rdName name) = some i) (hlive : (e i).live = true)
    (htarget : ∀ e' j, s.contents (e i).rdIno = some (.dir e') → j < 128 → (e' j).live = false) :
    wlp (removeEntry dir (e i).rdIno name) (fun _ t => Kept s t) s := by
  have hi := (findEntry_some hfind).1
  rw [removeEntry, wlp_bind]
  refine wlp_getEntries ?_
  intro inode e' hinode he
  have heq : e' = e := by
    rw [contents_eq hinode, he] at hc
    cases hc
    rfl
  subst heq
  simp only [hfind]
  rw [wlp_bind]
  refine wlp_setEntry hc ?_
  intro inode hd hdir
  have hbooks : Books ((Owed.nothing.addLinks (e' i).rdIno 1).addSize dir 32)
      (s.setInode dir (some { inode with
        contents := .dir (Function.update e' i { e' i with rdName := [] }) })) :=
    h.clear hd hdir hi hlive rfl htarget
  have hcontents : (s.setInode dir (some { inode with
      contents := .dir (Function.update e' i { e' i with rdName := [] }) })).contents =
      Function.update s.contents dir
        (some (.dir (Function.update e' i { e' i with rdName := [] }))) := contents_setInode
  refine wlp_bind_of (hbooks.wlp_addSize (by rw [hcontents, Function.update_self])) ?_
  rintro _ t ⟨hbookst, ht⟩
  refine wlp_bind_of hbookst.wlp_addLinks ?_
  rintro _ u ⟨hbooksu, hu⟩
  have hsettled : Books .nothing u := by
    convert hbooksu using 1
    ext j
    · simp only [Owed.addLinks, Owed.addSize, Owed.nothing]
      split <;> simp
    · simp only [Owed.addLinks, Owed.addSize, Owed.nothing]
      split <;> simp
    · rfl
  have hkept : Kept s u := by
    refine ⟨hsettled, ?_⟩
    rw [hu, ht, hcontents]
    exact (Aged.refl _).setDir
  refine wlp_bind_of hkept.wlp_vput ?_
  exact fun _ w hw => wlp_pure.mpr hw

/-- A search for `.` finds the directory itself. -/
theorem found_dot (h : Tree none c) (hc : c dir = some (.dir e))
    (hfind : findEntry e (fun x => nameMatch x.rdName dot) = some i) : (e i).rdIno = dir := by
  obtain ⟨hdot, -⟩ := h.dots dir e hc (Option.some_ne_none _).symm
  have hzero : findEntry e (fun x => nameMatch x.rdName dot) = some 0 :=
    findEntry_zero (nameMatch_iff.mpr (by rw [hdot]))
  rw [hzero] at hfind
  cases hfind
  rw [hdot]

/-- The inode is a directory. -/
def Fs.isDir (s : Fs) (ino : Nat) : Prop := ∃ e, s.contents ino = some (.dir e)

theorem Books.isDir_iff {v : Vnode} (h : Books o s) (hv : s.vnodes vn = some v) :
    v.vnMode = .dir ↔ s.isDir vn := by
  obtain ⟨inode, hi, hshows⟩ := h.vnode vn v hv
  rw [hshows.mode, Fs.isDir, contents_eq hi]
  cases inode.contents <;> simp [Contents.vnMode]

theorem Kept.trans_same (h : Kept t s) (hsame : t.contents = c) : Aged c s.contents := by
  rw [← hsame]
  exact h.2

theorem Books.wlp_unlink (h : Books .nothing s)
    (hsafe : name = [] ∨ name = dotdot → ∀ ino, s.found dir name = some ino → s.isDir ino) :
    wlp (doUnlink dir name) (fun _ t => Kept s t) s := by
  rw [doUnlink]
  refine wlp_bind_of h.wlp_lookup ?_
  intro target t hlook
  cases hlook with
  | missing => exact wlp_pure.mpr (h.kept rfl)
  | there e i t hc hfind hbooks hsame =>
      have hct : t.contents dir = some (.dir e) := by rw [hsame, hc]
      simp only []
      rw [wlp_bind]
      refine wlp_getVnode ?_
      intro v hv
      split
      · refine wlp_bind_of (hbooks.kept hsame).wlp_vput ?_
        exact fun _ u hu => wlp_pure.mpr hu
      rename_i hmode
      have hnotdir : ¬ t.isDir (e i).rdIno := fun hdir => hmode ((hbooks.isDir_iff hv).mpr hdir)
      have hname := nameMatch_iff.mp (findEntry_some hfind).2
      have hfound := found_of_match hc hfind
      have hsafe' : ¬ (name = [] ∨ name = dotdot) := by
        intro hcase
        apply hnotdir
        rw [Fs.isDir, hsame]
        exact hsafe hcase _ hfound
      have hlive : (e i).live = true := by
        rw [Dirent.live_iff, hname]
        refine ⟨fun heq => hsafe' (Or.inl heq), ?_, fun heq => hsafe' (Or.inr heq)⟩
        rintro rfl
        apply hnotdir
        rw [found_dot hbooks.tree hct hfind]
        exact ⟨e, hct⟩
      -- `ramfs_unlink` looks the name up again, in the directory as it was
      have hrest : wlp (ramfsUnlink dir name) (fun _ u => Kept s u) t := by
        rw [ramfsUnlink]
        refine wlp_bind_of hbooks.wlp_lookup ?_
        intro vn u hlook
        cases hlook with
        | missing => exact wlp_fail.mpr trivial
        | there e' i' u hc' hfind' hbooks' hsame' =>
            rw [hct] at hc'
            cases hc'
            rw [hfind] at hfind'
            cases hfind'
            simp only []
            rw [wlp_bind]
            refine wlp_getVnode ?_
            intro v' _
            rw [wlp_bind, kassert, wlp_check]
            intro _
            refine wlp_mono (hbooks'.wlp_removeEntry (by rw [hsame', hct]) hfind hlive ?_) ?_
            · intro e' j hdir _
              rw [hsame'] at hdir
              exact absurd ⟨e', hdir⟩ hnotdir
            · intro _ w hw
              exact ⟨hw.1, hw.trans_same (hsame'.trans hsame)⟩
      refine wlp_bind_of hrest ?_
      intro ret u hu
      refine wlp_bind_of hu.wlp_vput ?_
      exact fun _ w hw => wlp_pure.mpr hw

/-- The inode is a directory without entries. -/
def Fs.isEmptyDir (s : Fs) (ino : Nat) : Prop :=
  ∃ e, s.contents ino = some (.dir e) ∧ ∀ i, i < 128 → (e i).live = false

theorem Books.wlp_rmdir (h : Books .nothing s)
    (hsafe : name = [] → ∀ ino, s.found dir name = some ino → ¬ s.isEmptyDir ino) :
    wlp (doRmdir dir name) (fun _ t => Kept s t) s := by
  rw [doRmdir]
  split
  · exact wlp_pure.mpr (h.kept rfl)
  rename_i hnd
  split
  · exact wlp_pure.mpr (h.kept rfl)
  rename_i hndd
  have hrest : wlp (ramfsRmdir dir name) (fun _ t => Kept s t) s := by
    rw [ramfsRmdir, wlp_bind, kassert, wlp_check]
    intro _
    refine wlp_bind_of h.wlp_lookup ?_
    intro target t hlook
    cases hlook with
    | missing => exact wlp_pure.mpr (h.kept rfl)
    | there e i t hc hfind hbooks hsame =>
        have hct : t.contents dir = some (.dir e) := by rw [hsame, hc]
        simp only []
        rw [wlp_bind]
        refine wlp_getVnode ?_
        intro v hv
        split
        · refine wlp_bind_of (hbooks.kept hsame).wlp_vput ?_
          exact fun _ u hu => wlp_pure.mpr hu
        rw [wlp_bind]
        refine wlp_getEntries ?_
        intro inode e' hinode he'
        have hvn : t.contents (e i).rdIno = some (.dir e') := by rw [contents_eq hinode, he']
        split
        · refine wlp_bind_of (hbooks.kept hsame).wlp_vput ?_
          exact fun _ u hu => wlp_pure.mpr hu
        rename_i hnone
        have hdead : ∀ j, j < 128 → (e' j).live = false := fun j hj => findEntry_none hnone hj
        have hname := nameMatch_iff.mp (findEntry_some hfind).2
        have hlive : (e i).live = true := by
          rw [Dirent.live_iff, hname]
          refine ⟨?_, hnd, hndd⟩
          intro heq
          refine hsafe heq _ (found_of_match hc hfind) ⟨e', ?_, hdead⟩
          rw [← hsame, hvn]
        refine wlp_mono (hbooks.wlp_removeEntry hct hfind hlive ?_) ?_
        · intro e'' j hdir hj
          rw [hvn] at hdir
          cases hdir
          exact hdead j hj
        · intro _ w hw
          exact ⟨hw.1, hw.trans_same hsame⟩
  refine wlp_bind_of hrest ?_
  exact fun _ t ht => wlp_pure.mpr ht

/-! ### The checks of the VFS -/

theorem Books.wlp_unlessFound {body : R Int} (h : Books .nothing s)
    (hbody : wlp body (fun _ t => Kept s t) s) :
    wlp (unlessFound dir name body) (fun _ t => Kept s t) s := by
  rw [unlessFound]
  refine wlp_bind_of h.wlp_lookup ?_
  intro target t hlook
  cases hlook with
  | missing =>
      simp only []
      refine wlp_bind_of hbody ?_
      exact fun _ t ht => wlp_pure.mpr ht
  | there e i t hc hfind hbooks hsame =>
      simp only []
      refine wlp_bind_of (hbooks.kept hsame).wlp_vput ?_
      exact fun _ u hu => wlp_pure.mpr hu

theorem Books.wlp_openCreate (h : Books .nothing s) (hlinked : Linked s dir) :
    wlp (openCreate dir name mem) (fun _ t => Kept s t) s := by
  rw [openCreate]
  refine wlp_bind_of h.wlp_lookup ?_
  intro target t hlook
  cases hlook with
  | missing =>
      simp only []
      refine wlp_bind_of (h.wlp_create hlinked) ?_
      exact fun _ t ht => wlp_pure.mpr ht
  | there e i t hc hfind hbooks hsame => exact wlp_pure.mpr (hbooks.kept hsame)

theorem Books.wlp_doLookup (h : Books .nothing s) :
    wlp (doLookup dir name) (fun _ t => Kept s t) s := by
  rw [doLookup]
  refine wlp_bind_of h.wlp_lookup ?_
  intro target t hlook
  cases hlook with
  | missing => exact wlp_pure.mpr (h.kept rfl)
  | there e i t hc hfind hbooks hsame => exact wlp_pure.mpr (hbooks.kept hsame)

end CodingSample.Ramfs
