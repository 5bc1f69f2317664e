import CodingSample.Fsmaker.SameList
import CodingSample.S5fs.BlockCount
import CodingSample.S5fs.DirRun

/-!
# A new image under the kernel

An image that `format` made is mounted. What `s5fs_mount` finds on it is what the results about the
mounted file system start from.
-/

namespace CodingSample.Fsmaker

open Raise Simdisk S5fs

@[simp] def einval : Int := 22

/-- `s5_check_super`, of the block that holds the superblock. -/
def s5CheckSuper (super : Block) : Int :=
  if ¬ (super.word 0 = s5Magic ∧
      ((super.word 1).toNat < (super.word 34).toNat ∨ super.word 1 = noBlock) ∧
      (super.word 33).toNat < (super.word 34).toNat) then
    -1
  else if super.word 35 ≠ s5CurrentVersion then
    -1
  else
    0

/-- `s5fs_mount`, of a disk that is there. -/
def s5fsMount (f : Simfile) : Except Fault (Int × S5) :=
  if s5CheckSuper (f 0) ≠ 0 then
    .ok (-einval, mount f)
  else
    (vget (mount f).super.s5sRootInode >>= fun _ => pure 0 : K Int) (mount f)

variable {f f₀ : Simfile} {inodes size : Nat}

theorem s5CheckSuper_formatted (h : Formatted inodes f) (hpos : 0 < inodes)
    (hinodes : inodes < 4294967296) : s5CheckSuper (f 0) = 0 := by
  have hfree : ((f 0).word 1).toNat < ((f 0).word 34).toNat ∨ (f 0).word 1 = noBlock := by
    rw [h.freeInode, h.numInodes, nextFree]
    by_cases hone : 0 = inodes - 1
    · rw [if_pos hone]
      exact Or.inr rfl
    · rw [if_neg hone, UInt32.toNat_ofNat']
      exact Or.inl (by omega)
  have hroot : ((f 0).word 33).toNat < ((f 0).word 34).toNat := by
    rw [h.root, h.numInodes]
    exact hpos
  rw [s5CheckSuper, if_neg (not_not.mpr ⟨h.magic, hfree, hroot⟩)]
  exact if_neg (not_not.mpr h.version)

/-! ### The inode table -/

theorem mount_number (h : Formatted inodes f) (hinodes : inodes < 4294967296) {i : Nat}
    (hi : i < inodes) : ((mount f).inodes i).s5Number = i := by
  change (f.iword i 1).toNat = i
  rw [h.number i hi, UInt32.toNat_ofNat', Nat.mod_eq_of_lt (by omega)]

theorem mount_type_root (h : Formatted inodes f) : ((mount f).inodes 0).s5Type = .dir := by
  change typeOfCode (f.itype 0) = .dir
  rw [h.type]
  rfl

theorem mount_type_free (h : Formatted inodes f) {i : Nat} (hi : i < inodes) (hne : i ≠ 0) :
    ((mount f).inodes i).s5Type = .free := by
  change typeOfCode (f.itype i) = .free
  rw [(h.inode i hi hne).type]
  rfl

theorem mount_next (h : Formatted inodes f) {i : Nat} (hi : i < inodes) (hne : i ≠ 0) :
    ((mount f).inodes i).s5NextFree = (nextFree inodes i).toNat :=
  congrArg UInt32.toNat (h.inode i hi hne).next

/-- The last `k` inodes are linked in increasing order. -/
theorem chain_mount (h : Formatted inodes f) (hinodes : inodes < 4294967296) {k : Nat}
    (hk : k < inodes) :
    FreeList.Chain 0 noBlock.toNat (fun i _ => ((mount f).inodes i).s5NextFree)
      (nextFree inodes (inodes - 1 - k)).toNat (List.range' (inodes - k) k) := by
  induction k with
  | zero =>
      rw [nextFree, if_pos (Nat.sub_zero _), List.range'_zero]
      exact .nil
  | succ k ih =>
      have hstart : inodes - (k + 1) + 1 = inodes - k := by omega
      have hnext : (nextFree inodes (inodes - 1 - (k + 1))).toNat = inodes - (k + 1) := by
        rw [nextFree, if_neg (by omega), UInt32.toNat_ofNat', Nat.mod_eq_of_lt (by omega)]
        omega
      have hstop : inodes - (k + 1) ≠ noBlock.toNat := by
        change inodes - (k + 1) ≠ 4294967295
        omega
      rw [hnext, List.range'_succ, hstart]
      apply FreeList.Chain.cons hstop
      have hrest := ih (by omega)
      have hsame : inodes - 1 - k = inodes - (k + 1) := by omega
      rw [hsame] at hrest
      rw [mount_next h (by omega) (by omega)]
      exact hrest

/-- All inodes but the one of the root directory are free, and handed out in increasing order. -/
theorem inodeTable_mount (h : Formatted inodes f) (hpos : 0 < inodes)
    (hinodes : inodes < 4294967296) : InodeTable (List.range' 1 (inodes - 1)) (mount f) := by
  have hnum : (mount f).super.s5sNumInodes = inodes := h.numInodes
  have hhead : (mount f).super.s5sFreeInode = (nextFree inodes 0).toNat :=
    congrArg UInt32.toNat h.freeInode
  constructor
  · intro i hi
    exact mount_number h hinodes (hnum ▸ hi)
  · rw [hnum]
    exact Nat.le_of_lt_succ hinodes
  · have hchain := chain_mount h hinodes (k := inodes - 1) (by omega)
    rw [Nat.sub_self, Nat.sub_sub_self hpos] at hchain
    rw [hhead]
    exact hchain
  · exact List.nodup_range'
  · intro i hi
    rw [List.mem_range'_1] at hi
    omega
  · intro i hi
    rw [hnum] at hi
    rw [List.mem_range'_1]
    by_cases hzero : i = 0
    · subst hzero
      rw [mount_type_root h]
      simp
    · rw [mount_type_free h hi hzero]
      simp only [iff_true]
      omega

/-! ### The blocks -/

theorem mapped_root (h : Formatted inodes f) (hb : f.iword 0 3 ≠ 0) :
    mapped (mount f).bview ((mount f).inodes 0) = {f.iword 0 3} := by
  have hdirect : held S5fs.s5NdirectBlocks ((mount f).inodes 0).s5DirectBlocks =
      held S5fs.s5NdirectBlocks (Function.update (fun _ => 0) 0 (f.iword 0 3)) := by
    apply held_congr
    intro k hk
    by_cases hzero : k = 0
    · subst hzero
      rw [Function.update_self]
      rfl
    · rw [Function.update_of_ne hzero]
      exact h.direct k hk hzero
  have hindirect : ((mount f).inodes 0).s5IndirectBlock = 0 := h.indirect
  rw [mapped_of_isFile (Or.inr (mount_type_root h)), hindirect, hdirect,
    held_update_of_empty (by decide) rfl hb, held_zero, indirectFamily, if_pos rfl, add_zero]
  rfl

theorem allMapped_mount (h : Formatted inodes f) (hpos : 0 < inodes) (hb : f.iword 0 3 ≠ 0) :
    allMapped (mount f) = {f.iword 0 3} := by
  have hnum : (mount f).super.s5sNumInodes = inodes := h.numInodes
  rw [allMapped, hnum, Finset.sum_eq_single 0, mapped_root h hb]
  · intro i hi hne
    rw [mapped, mount_type_free h (Finset.mem_range.mp hi) hne]
  · intro hmem
    exact absurd (Finset.mem_range.mpr hpos) hmem

variable [BlockDev]

theorem region_mount (h : Formatted inodes f) (hsmall : size / 4096 ≤ 2147483648)
    (hserves : ∀ b : UInt32, b.toNat < size / 4096 → BlockDev.serves b = true) :
    Region (mount f).super.s5sNumInodes (dataSet inodes size) := by
  have hnum : (mount f).super.s5sNumInodes = inodes := h.numInodes
  have hplace : ∀ b ∈ dataSet inodes size, iblocks inodes < b.toNat ∧ b.toNat < size / 4096 :=
    fun b hb => mem_dataBlocks.mp (toNat_mem_dataSet (by omega) hb)
  constructor
  · exact nodup_dataSet (by omega)
  · intro b hb
    exact hserves b (hplace b hb).2
  · intro b hb
    have hlt := (hplace b hb).2
    omega
  · intro b hb
    rw [hnum]
    exact (hplace b hb).1

/-- The state `s5fs_mount` finds on an image just made. -/
theorem mounted_of_format (hformat : format inodes size f₀ = (.ok (), f))
    (hsmall : size / 4096 ≤ 2147483648)
    (hserves : ∀ b : UInt32, b.toNat < size / 4096 → BlockDev.serves b = true) :
    Formatted inodes f ∧ f.iword 0 3 ∈ dataSet inodes size ∧
      Mounted (dataSet inodes size) (mount f) := by
  obtain ⟨hpos, hinodes, hmod, hroom⟩ := of_format_ok hformat
  obtain ⟨f', nodes, L, hformat', hlists, hL, -, h⟩ :=
    format_image hpos hinodes hmod hroom (by omega) f₀
  cases hformat.symm.trans hformat'
  have hmem : f.iword 0 3 ∈ dataSet inodes size := hL ▸ Multiset.mem_cons_self _ _
  have hregion := region_mount h hsmall hserves
  have hb : f.iword 0 3 ≠ 0 := by
    intro heq
    have hlt := hregion.above _ hmem
    rw [heq] at hlt
    exact absurd hlt (Nat.not_lt_zero _)
  refine ⟨h, hmem, ⟨nodes, hregion, hlists.wf, ?_, rfl⟩, ⟨_, inodeTable_mount h hpos hinodes⟩,
    fun _ => rfl, fun _ => rfl⟩
  have hlisted : (mount f).freeList.listed 29 nodes = L := hlists.listed
  rw [hlisted, allMapped_mount h hpos hb, add_zero, ← hL, ← Multiset.singleton_add]
  exact add_comm _ _

/-! ### The root directory -/

omit [BlockDev] in
theorem decodeDirent_direntByte {block : Block} {inode : UInt32} {name : List UInt8}
    (h0 : 0 ∉ name) (hlen : name.length < 28)
    (hbytes : ∀ j < 32, block j = direntByte inode name j) :
    decodeDirent block = ⟨inode, name⟩ := by
  have hbyte : ∀ j < 4, block j = Block.byteOf inode j := by
    intro j hj
    rw [hbytes j (by omega), direntByte, if_pos hj, Inode.wordBytes]
    simp [hj]
  have hword : block.word 0 = inode := by
    rw [Block.word, hbyte _ (by omega), hbyte _ (by omega), hbyte _ (by omega), hbyte _ (by omega)]
    exact Block.ofBytes_byteOf inode
  have hljust : (Inode.ljust name).length = 28 := by
    simp [Inode.ljust]
    omega
  have hname : (List.range 28).map (fun j => block (4 + j)) = Inode.ljust name := by
    apply List.ext_getElem
    · rw [List.length_map, List.length_range, hljust]
    · intro j hj _
      have hj28 : j < 28 := by simpa using hj
      have hsub : 4 + j - 4 = j := by omega
      rw [List.getElem_map, List.getElem_range, hbytes _ (by omega), direntByte,
        if_neg (by omega), hsub, List.getD_eq_getElem?_getD,
        List.getElem?_eq_getElem (hljust.symm ▸ hj28), Option.getD_some]
  rw [decodeDirent, hword, cString]
  have hcstr := Inode.cstr_ljust h0 hlen
  rw [← hname] at hcstr
  exact congrArg (S5Dirent.mk inode) hcstr

/-- The vnode of a new root directory. -/
def rootVnode : Vnode := ⟨.dir, 64, 0, 1, [], fun _ => ⟨CodingSample.Block.zero, false⟩⟩

/-- The file system with its root directory in core. -/
def inCore (f : Simfile) : S5 :=
  ((mount f).setInode 0 { (mount f).inodes 0 with s5Linkcount := 2 }).setVnode 0 (some rootVnode)

/-- The names in a new root directory. -/
def rootNames : Names := fun name =>
  if name = Inode.dot ∨ name = Inode.dotdot then some 0 else none

omit [BlockDev] in
theorem vget_root (h : Formatted inodes f) (hpos : 0 < inodes) :
    vget 0 (mount f) = .ok ((), inCore f) := by
  have hlt : 0 < (mount f).super.s5sNumInodes := by
    change 0 < ((f 0).word 34).toNat
    rw [h.numInodes]
    exact hpos
  have hlinks : ((mount f).inodes 0).s5Linkcount = 1 := h.links
  have hsize : ((mount f).inodes 0).s5Size = 64 := h.size
  have hmode : ((mount f).inodes 0).s5Type.vnMode = some .dir := by
    rw [mount_type_root h]
    rfl
  have hread : s5fsReadVnode 0 (mount f) = .ok ({ rootVnode with vnRefcount := 0 },
      (mount f).setInode 0 { (mount f).inodes 0 with s5Linkcount := 2 }) := by
    rw [s5fsReadVnode, Prog.bind_eq_of_ok (Prog.get_apply _), decide_eq_true hlt, Prog.check_true,
      Prog.bind_eq_of_ok (Prog.pure_apply _ _), hlinks, setLinkcount,
      Prog.bind_eq_of_ok (Prog.modify_apply _ _)]
    simp only [hmode, hsize]
    rfl
  have hnone : (mount f).vnodes 0 = none := rfl
  rw [vget, Prog.bind_eq_of_ok (Prog.get_apply _)]
  simp only [hnone]
  rw [Prog.bind_eq_of_ok hread]
  rfl

omit [BlockDev] in
theorem dirents_inCore (h : Formatted inodes f) (hb : f.iword 0 3 ≠ 0) :
    (inCore f).dirents 0 = [⟨0, Inode.dot⟩, ⟨0, Inode.dotdot⟩] := by
  have hsize : ((inCore f).inodes 0).s5Size = 64 := by
    rw [inCore]
    exact h.size
  have hbyte : ∀ o < 4096, (inCore f).byteAt 0 o = f (f.iword 0 3).toNat o := by
    intro o ho
    have hdiv : o / 4096 = 0 := by omega
    have hmod : o % 4096 = o := by omega
    have hblock : (inCore f).fileBlock 0 0 = f.iword 0 3 := rfl
    have hcontent : (inCore f).content 0 0 = (inCore f).fileView 0 0 :=
      S5.content_of_absent (v := rootVnode) rfl List.not_mem_nil
    rw [S5.byteAt, hdiv, hmod, hcontent, S5.fileView, hblock, if_neg hb]
    rfl
  have hfirst : (inCore f).direntAt 0 0 = ⟨0, Inode.dot⟩ := by
    apply decodeDirent_direntByte (by decide) (by decide)
    intro j hj
    rw [hbyte _ (by simp; omega), ← h.dot j hj]
    simp
  have hsecond : (inCore f).direntAt 0 1 = ⟨0, Inode.dotdot⟩ := by
    apply decodeDirent_direntByte (by decide) (by decide)
    intro j hj
    rw [hbyte _ (by simp; omega), ← h.dotdot j hj]
    simp
  have hcount : (inCore f).direntCount 0 = 2 := by
    rw [S5.direntCount, hsize]
    rfl
  have hrange : List.range 2 = [0, 1] := rfl
  rw [S5.dirents, hcount, hrange, List.map_cons, List.map_cons, List.map_nil, hfirst, hsecond]

omit [BlockDev] in
theorem holdsNames_inCore (h : Formatted inodes f) (hb : f.iword 0 3 ≠ 0) :
    HoldsNames rootNames 0 (inCore f) := by
  have hentries := dirents_inCore h hb
  constructor
  · rw [hentries]
    constructor
    · decide
    · intro name i
      rw [rootNames]
      by_cases hname : name = Inode.dot ∨ name = Inode.dotdot
      · rw [if_pos hname]
        constructor
        · intro hi
          cases hi
          rcases hname with rfl | rfl
          · exact ⟨⟨0, Inode.dot⟩, by simp, rfl, rfl⟩
          · exact ⟨⟨0, Inode.dotdot⟩, by simp, rfl, rfl⟩
        · rintro ⟨x, hx, -, rfl⟩
          simp only [List.mem_cons, List.not_mem_nil, or_false] at hx
          rcases hx with rfl | rfl <;> rfl
      · rw [if_neg hname]
        constructor
        · intro hi
          cases hi
        · rintro ⟨x, hx, rfl, -⟩
          simp only [List.mem_cons, List.not_mem_nil, or_false] at hx
          refine absurd ?_ hname
          rcases hx with rfl | rfl
          · exact Or.inl rfl
          · exact Or.inr rfl
  · intro name i hi
    rw [rootNames] at hi
    split at hi
    · cases hi
      decide
    · cases hi

omit [BlockDev] in
theorem heldDir_inCore (h : Formatted inodes f) : HeldDir 0 rootVnode (inCore f) := by
  have hsize : ((inCore f).inodes 0).s5Size = 64 := by
    rw [inCore]
    exact h.size
  refine ⟨rfl, rfl, by decide, ?_, ?_, ?_, ?_⟩
  · rw [hsize]
    rfl
  · rw [hsize]
    rfl
  · rw [hsize]
    decide
  · rw [hsize]
    exact Or.inl (by decide)

/-- **A new image is a file system for the kernel.** `s5fs_mount` accepts what `format` made. All
data blocks but the one of the root directory are free, all inodes but the first one are free and
handed out in increasing order, and the root directory is the map with the names `.` and `..`. From
there on, each block is in one place in every state of every run of calls on pages, and in every
state of every run of calls on the root directory it is the map that the calls made. -/
theorem formatted_image_mounts (hformat : format inodes size f₀ = (.ok (), f))
    (hsmall : size / 4096 ≤ 2147483648)
    (hserves : ∀ b : UInt32, b.toNat < size / 4096 → BlockDev.serves b = true) :
    s5fsMount f = .ok (0, inCore f) ∧ Mounted (dataSet inodes size) (mount f) ∧
    (∃ nodes, (mount f).freeList.Wf 29 noBlock nodes ∧
      f.iword 0 3 ::ₘ (mount f).freeList.listed 29 nodes = dataSet inodes size) ∧
    InodeTable (List.range' 1 (inodes - 1)) (mount f) ∧
    HeldDir 0 rootVnode (inCore f) ∧ HoldsNames rootNames 0 (inCore f) ∧
    (∀ s, PageRun (fun s c => c.Made s) (mount f) s → PageInv (dataSet inodes size) s) ∧
    ∀ s names, DirRun 0 (fun names s c => c.Made names s) (inCore f) rootNames s names →
      HoldsNames names 0 s ∧ PageInv (dataSet inodes size) s := by
  obtain ⟨hpos, hinodes, -, -⟩ := of_format_ok hformat
  obtain ⟨h, hmem, hmounted⟩ := mounted_of_format hformat hsmall hserves
  obtain ⟨nodes, hledger⟩ := hmounted.ledger
  have hb : f.iword 0 3 ≠ 0 := hledger.pos hmem
  have hroot : (mount f).super.s5sRootInode = 0 := congrArg UInt32.toNat h.root
  have hget := vget_root h hpos
  have hmount : s5fsMount f = .ok (0, inCore f) := by
    rw [s5fsMount, if_neg (not_not.mpr (s5CheckSuper_formatted h hpos hinodes)), hroot,
      Prog.bind_eq_of_ok hget]
    rfl
  have hcall : (PageCall.vget 0).run (mount f) = .ok (0, inCore f) := by
    rw [PageCall.run, Prog.bind_eq_of_ok hget]
    rfl
  have hcalls : PageRun (fun s c => c.Made s) (mount f) (inCore f) :=
    PageRun.call (c := .vget 0) .start trivial hcall
  have hheld := heldDir_inCore h
  have hnames := holdsNames_inCore h hb
  refine ⟨hmount, hmounted, ⟨nodes, hledger.wf, ?_⟩, inodeTable_mount h hpos hinodes, hheld, hnames,
    fun s hrun => hrun.pageInv (fun _ _ hc => hc) hmounted.pageInv, fun s names hrun => ?_⟩
  · have htotal := hledger.total
    rw [allMapped_mount h hpos hb, add_zero, add_comm, Multiset.singleton_add] at htotal
    exact htotal
  · obtain ⟨hnames', v', hsettled⟩ := hrun.holdsNames (hheld.settled hmounted hcalls) hnames
    exact ⟨hnames', hsettled.file.inv⟩

omit [BlockDev] in
/-- An image of one inode and three blocks. -/
theorem formatted_image_mounts_small : ∃ f, format 1 12288 Simfile.empty = (.ok (), f) ∧
    s5fsMount f = .ok (0, inCore f) ∧ HoldsNames rootNames 0 (inCore f) := by
  obtain ⟨f, nodes, L, hformat, -, -, -⟩ := @format_apply 1 12288 (by omega)
    (by omega) (by omega) (by decide) (by omega) Simfile.empty
  have hserves : ∀ b : UInt32, b.toNat < 12288 / 4096 → plainDev.serves b = true := by
    intro b hb
    apply decide_eq_true
    intro heq
    rw [heq] at hb
    exact absurd hb (by decide)
  obtain ⟨hmount, -, -, -, -, hnames, -⟩ :=
    @formatted_image_mounts _ _ _ _ plainDev hformat (by omega) hserves
  exact ⟨f, hformat, hmount, hnames⟩

end CodingSample.Fsmaker
