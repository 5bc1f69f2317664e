import CodingSample.Fsmaker.Format
import CodingSample.S5fs.Ownership

/-!
# The kernel and the image editor use one free-block list

An image is edited by the tool and mounted by the kernel. Their two implementations of the
free-block list are run side by side from the same image.
-/

namespace CodingSample.Fsmaker

open Raise Simdisk S5fs

/-! ### Formatting as a whole -/

variable {f f₀ : Simfile} {inodes size : Nat}

/-- The numbers of the data blocks. -/
def dataSet (inodes size : Nat) : Multiset UInt32 :=
  ((dataBlocks inodes size).map UInt32.ofNat : List UInt32)

theorem mem_dataBlocks {n : Nat} :
    n ∈ dataBlocks inodes size ↔ iblocks inodes < n ∧ n < size / 4096 := by
  unfold dataBlocks
  simp only [s5BlockSize, List.mem_map, List.mem_range]
  constructor
  · rintro ⟨k, hk, rfl⟩
    omega
  · rintro ⟨hlt, hn⟩
    exact ⟨n - (iblocks inodes + 1), by omega, by omega⟩

theorem toNat_mem_dataSet (hmax : size / 4096 ≤ 4294967296) {b : UInt32}
    (hb : b ∈ dataSet inodes size) : b.toNat ∈ dataBlocks inodes size := by
  obtain ⟨n, hn, rfl⟩ := List.mem_map.mp (Multiset.mem_coe.mp hb)
  have hlt := (mem_dataBlocks.mp hn).2
  rwa [UInt32.toNat_ofNat', Nat.mod_eq_of_lt (by omega)]

theorem nodup_dataSet (hmax : size / 4096 ≤ 4294967296) : (dataSet inodes size).Nodup := by
  refine Multiset.coe_nodup.mpr (List.Nodup.map_on ?_ ?_)
  · intro m hm n hn heq
    have hm' := (mem_dataBlocks.mp hm).2
    have hn' := (mem_dataBlocks.mp hn).2
    have := congrArg UInt32.toNat heq
    rw [UInt32.toNat_ofNat', UInt32.toNat_ofNat'] at this
    omega
  · exact List.Nodup.map (fun a b h => Nat.add_left_cancel h) List.nodup_range

/-- What `format` checks. -/
theorem of_format_ok (h : format inodes size f₀ = (.ok (), f)) :
    0 < inodes ∧ inodes < 4294967296 ∧ size % 4096 = 0 ∧ iblocks inodes + 1 < size / 4096 := by
  unfold format at h
  by_cases hpos : inodes < 1
  · rw [decide_eq_true hpos] at h
    simp [bind_apply] at h
  rw [decide_eq_false hpos, raiseIf_false, pure_bind_apply] at h
  by_cases hmod : size % s5BlockSize ≠ 0
  · rw [decide_eq_true hmod] at h
    simp [bind_apply] at h
  rw [decide_eq_false hmod, raiseIf_false, pure_bind_apply] at h
  by_cases hroom : size / s5BlockSize ≤ iblocks inodes + 1
  · rw [decide_eq_true hroom] at h
    simp [bind_apply] at h
  rw [decide_eq_false hroom, raiseIf_false, pure_bind_apply] at h
  refine ⟨by omega, ?_, by simpa using hmod, by simpa using hroom⟩
  by_contra hlarge
  have hpack (g : Simfile) : (pack inodes >>= setNumInodes) g = (.error .structError, g) := by
    rw [bind_apply, pack, if_neg hlarge]
    rfl
  have htables : formatTables inodes f₀ =
      (.error .structError, (Simfile.empty.setWord 0 0 0x727f).setWord 0 35 3) := by
    rw [formatTables, modify_bind_apply, bind_of_ok (setWord_apply _ _ _ _),
      bind_of_ok (setWord_apply _ _ _ _)]
    exact bind_of_error (hpack _)
  rw [bind_of_error htables] at h
  simp at h

/-- What `format` leaves besides the list: a table of free inodes but for the first one, which is a
directory of two entries. -/
structure Formatted (inodes : Nat) (f : Simfile) : Prop where
  magic : (f 0).word 0 = 0x727f
  freeInode : (f 0).word 1 = nextFree inodes 0
  root : (f 0).word 33 = 0
  numInodes : ((f 0).word 34).toNat = inodes
  version : (f 0).word 35 = 3
  number : ∀ i < inodes, f.iword i 1 = UInt32.ofNat i
  inode : ∀ i < inodes, i ≠ 0 → BlankInode i (nextFree inodes i) f
  type : f.itype 0 = s5TypeDir
  size : f.isize 0 = 64
  links : f.ilinks 0 = 1
  direct : ∀ loc < 28, loc ≠ 0 → f.iword 0 (3 + loc) = 0
  indirect : f.iword 0 31 = 0
  dot : ∀ j < 32, f (f.iword 0 3).toNat j = direntByte 0 Inode.dot j
  dotdot : ∀ j < 32, f (f.iword 0 3).toNat (32 + j) = direntByte 0 Inode.dotdot j

/-- The parts of `format` together. -/
theorem formatted {f1 f2 f3 : Simfile} (hpos : 0 < inodes) (hempty : EmptyList inodes f1)
    (htable : EmptyTable inodes f1) (honly : f1.ListOnly (· ∈ dataBlocks inodes size) f2)
    {b : UInt32} (hmade : RootMade inodes b f2 f3) : Formatted inodes f3 := by
  have hslot {m : Nat} (hm : m < inodes) (k : Nat) : f2.iword m k = f1.iword m k := by
    refine Simfile.iword_congr (honly.blocks _ (Simfile.block_ne_zero m) fun hmem => ?_)
    have hle : Inode.block m ≤ iblocks inodes := by
      rw [Inode.block, iblocks, Nat.add_comm]
      exact Nat.succ_le_succ (Nat.div_le_div_right (by omega))
    have hlt := (mem_dataBlocks.mp hmem).1
    omega
  have hnumber : f2.iword 0 1 = 0 := by
    rw [hslot hpos, (htable.inode 0 hpos).number]
    rfl
  have hblock : f3.iword 0 3 = b := by
    rw [hmade.direct 0 (by omega), if_pos rfl]
  refine ⟨?_, ?_, ?_, ?_, ?_, fun i hi => ?_, fun i hi hne => ?_, hmade.type, hmade.size,
    hmade.links, fun loc hloc hne => ?_, hmade.indirect, fun j hj => ?_, fun j hj => ?_⟩
  · rw [hmade.words 0 (by omega), honly.words 0 (by omega), htable.magic]
  · rw [hmade.freeInode, hslot hpos, (htable.inode 0 hpos).next]
  · rw [hmade.words 33 (by omega), honly.words 33 (by omega), htable.root]
  · rw [hmade.words 34 (by omega), honly.words 34 (by omega), hempty.numInodes]
  · rw [hmade.words 35 (by omega), honly.words 35 (by omega), htable.version]
  · rw [hmade.others i 1 hi (by omega) (Or.inr rfl), hslot hi, (htable.inode i hi).number]
  · exact (htable.inode i hi).congr fun k hk => by
      rw [hmade.others i k hi hk (Or.inl hne), hslot hi]
  · rw [hmade.direct loc hloc, if_neg hne]
  · rw [hblock, hmade.dot j hj, hnumber]
  · rw [hblock, hmade.dotdot j hj, hnumber]

/-- **Formatting.** The list holds all data blocks but one, which is the last and belongs to the
root directory. -/
theorem format_image (hpos : 0 < inodes) (hinodes : inodes < 4294967296)
    (hmod : size % 4096 = 0) (hroom : iblocks inodes + 1 < size / 4096)
    (hmax : size / 4096 ≤ 4294967295) (f₀ : Simfile) :
    ∃ f nodes L, format inodes size f₀ = (.ok (), f) ∧ Lists L nodes f ∧
      f.iword 0 3 ::ₘ L = dataSet inodes size ∧
      f.iword 0 3 = UInt32.ofNat (size / 4096 - 1) ∧ Formatted inodes f := by
  obtain ⟨f1, htables, hempty, htable⟩ := formatTables_apply hpos hinodes f₀
  have hnil : Lists 0 [] f1 := by
    have hex := hempty.exhausted
    refine ⟨⟨hex.1.le.trans (Nat.zero_le _), ?_⟩, ?_⟩
    · rw [hex.2]
      exact .nil
    · rw [FreeList.listed, hex.1]
      rfl
  have hnums : ∀ n ∈ dataBlocks inodes size, n ≠ 0 ∧ n < 4294967295 := fun n hn => by
    have := mem_dataBlocks.mp hn
    omega
  have hnodup : (dataBlocks inodes size).Nodup :=
    List.Nodup.map (fun a b h => Nat.add_left_cancel h) List.nodup_range
  obtain ⟨f2, nodes, hfrees, hlists, honly, htop⟩ :=
    hnil.frees (Multiset.notMem_zero _) hnums hnodup fun _ _ => Multiset.notMem_zero _
  rw [add_zero] at hlists
  have hlist : formatFreeList inodes size f1 = (.ok (), f2) := by
    have heq := formatBlocks_eq_frees (l := dataBlocks inodes size)
      (fun n hn => ⟨(hnums n hn).1, by have := (hnums n hn).2; omega⟩) (Nat.zero_le 29) f1
    have hzero : f1.setWord 0 2 (UInt32.ofNat 0) = f1 := hempty.nfree
    rw [hzero, hfrees] at heq
    exact heq
  have hlast : (dataBlocks inodes size).getLast? = some (size / 4096 - 1) := by
    obtain ⟨k, hk⟩ : ∃ k, size / 4096 - (iblocks inodes + 1) = k + 1 :=
      ⟨size / 4096 - (iblocks inodes + 1) - 1, by omega⟩
    have hval : iblocks inodes + 1 + k = size / 4096 - 1 := by omega
    rw [dataBlocks]
    simp only [s5BlockSize]
    rw [hk, List.range_succ, List.map_append, List.map_singleton,
      List.getLast?_append_of_ne_nil _ (List.cons_ne_nil _ _), List.getLast?_singleton, hval]
  have hword {j : Nat} (hj : j < 2 ∨ 33 ≤ j) : (f2 0).word j = (f1 0).word j := honly.words j hj
  obtain ⟨f3, nodes', L, hroot, hL, hlists', hmade⟩ := formatRoot_apply (f := f2)
    (L := dataSet inodes size) ((hword (by omega)).trans hempty.freeInode) hpos
    ((congrArg UInt32.toNat (hword (by omega))).trans hempty.numInodes) hlists
    (fun b hb => (mem_dataBlocks.mp (toNat_mem_dataSet (by omega) hb)).1)
    (nodup_dataSet (by omega)) fun hzero => by
      have hcard := congrArg Multiset.card hzero
      simp [dataSet, dataBlocks] at hcard
      omega
  have hdirect : f3.iword 0 3 = f2.freeList.top 29 := by
    rw [hmade.direct 0 (by omega), if_pos rfl]
  refine ⟨f3, nodes', L, ?_, hlists', by rw [hdirect, hL], ?_,
    formatted hpos hempty htable honly hmade⟩
  · have hmod' : ¬ size % s5BlockSize ≠ 0 := not_not.mpr hmod
    have hroom' : ¬ size / s5BlockSize ≤ iblocks inodes + 1 := not_le.mpr hroom
    rw [format, decide_eq_false (by omega), raiseIf_false, pure_bind_apply,
      decide_eq_false hmod', raiseIf_false, pure_bind_apply, decide_eq_false hroom',
      raiseIf_false, pure_bind_apply, bind_of_ok htables, bind_of_ok hlist, hroot]
  · rw [hdirect, htop _ hlast]

theorem format_apply (hpos : 0 < inodes) (hinodes : inodes < 4294967296)
    (hmod : size % 4096 = 0) (hroom : iblocks inodes + 1 < size / 4096)
    (hmax : size / 4096 ≤ 4294967295) (f₀ : Simfile) :
    ∃ f nodes L, format inodes size f₀ = (.ok (), f) ∧ Lists L nodes f ∧
      f.iword 0 3 ::ₘ L = dataSet inodes size ∧
      f.iword 0 3 = UInt32.ofNat (size / 4096 - 1) := by
  obtain ⟨f, nodes, L, hformat, hlists, hL, hlast, -⟩ :=
    format_image hpos hinodes hmod hroom hmax f₀
  exact ⟨f, nodes, L, hformat, hlists, hL, hlast⟩

/-! ### Running both -/

/-- The type a type code stands for. -/
def typeOfCode : Nat → S5Type
  | 1 => .data
  | 2 => .dir
  | 4 => .chr
  | 8 => .blk
  | _ => .free

/-- The file system as the kernel finds it on the image. -/
def mount (f : Simfile) : S5 where
  super := ⟨((f 0).word 1).toNat, ((f 0).word 2).toNat, fun i => (f 0).word (3 + i),
    ((f 0).word 33).toNat, ((f 0).word 34).toNat⟩
  inodes n := ⟨f.isize n, (f.iword n 1).toNat, typeOfCode (f.itype n), f.ilinks n,
    fun k => f.iword n (3 + k), f.iword n 31⟩
  bdev _ := none
  disk b := f b.toNat
  vnodes _ := none

/-- An image under the editor, a mounted file system, and the blocks that are allocated. -/
structure Pair where
  file : Simfile
  kernel : S5
  used : Multiset UInt32

variable [BlockDev]

/-- The same allocations and releases made by both, each block freed being an allocated one. -/
inductive ListRun (p₀ : Pair) : Pair → Prop
  | start : ListRun p₀ p₀
  | alloc {p : Pair} {x : Except PyErr UInt32} {r : Int} {f' : Simfile} {s' : S5} :
      ListRun p₀ p → allocBlock p.file = (x, f') → s5AllocBlock p.kernel = .ok (r, s') →
      ListRun p₀ ⟨f', s', match x with
        | .ok b => b ::ₘ p.used
        | .error _ => p.used⟩
  | free {p : Pair} {b : UInt32} {f' : Simfile} {s' : S5} : ListRun p₀ p → b ∈ p.used →
      Block.free b p.file = (.ok (), f') → s5FreeBlock b p.kernel = .ok ((), s') →
      ListRun p₀ ⟨f', s', p.used.erase b⟩

/-- The data blocks: distinct, after the superblock and the first inode block, and served. -/
structure DataRegion (D : Multiset UInt32) : Prop where
  nodup : D.Nodup
  two_le : ∀ b ∈ D, 2 ≤ b.toNat
  serves : ∀ b ∈ D, BlockDev.serves b = true

namespace DataRegion

variable {D : Multiset UInt32} {b : UInt32}

theorem ne_zero (h : DataRegion D) (hb : b ∈ D) : b ≠ 0 := by
  rintro rfl
  exact absurd (h.two_le 0 hb) (by decide)

theorem ne_noBlock (h : DataRegion D) (hb : b ∈ D) : b ≠ noBlock := by
  rintro rfl
  have := h.serves _ hb
  rw [BlockDev.refuses_noBlock] at this
  exact Bool.noConfusion this

end DataRegion

/-- The two see one list, of the blocks of `D` that are not in use. -/
structure SameList (D : Multiset UInt32) (nodes : List UInt32) (p : Pair) : Prop where
  lists : ∃ L, Lists L nodes p.file ∧ L + p.used = D
  agree : FreeList.Agree 29 nodes p.file.freeList p.kernel.freeList
  uncached : p.kernel.bdev noBlock = none

variable {D : Multiset UInt32} {nodes : List UInt32} {p : Pair}

/-- **One allocation** on both sides. -/
theorem SameList.alloc (hD : DataRegion D) (h : SameList D nodes p) :
    (p.file.freeList.Exhausted 29 0xffffffff ∧
      allocBlock p.file = (.error .diskSpace, p.file) ∧
      s5AllocBlock p.kernel = .ok (-enospc, p.kernel)) ∨
    ∃ b f' s' nodes', b = p.file.freeList.top 29 ∧ b ∈ D ∧ allocBlock p.file = (.ok b, f') ∧
      s5AllocBlock p.kernel = .ok (toInt32 b, s') ∧ SameList D nodes' ⟨f', s', b ::ₘ p.used⟩ := by
  obtain ⟨⟨L, hlists, hL⟩, hagree, huncached⟩ := h
  have hsub {b : UInt32} (hb : b ∈ L) : b ∈ D := hL ▸ Multiset.mem_add.mpr (Or.inl hb)
  have hnodup : L.Nodup := (Multiset.nodup_add.mp (hL.symm ▸ hD.nodup)).1
  rcases hlists.alloc (fun h0 => hD.ne_zero (hsub h0) rfl) hnodup with
    ⟨hzero, heq⟩ | ⟨f', nodes', L', hcons, heq, hlists', -, hrest, hpop⟩
  · have hex := (FreeList.listed_eq_zero_iff hlists.wf).mp (hlists.listed.trans hzero)
    have hfree : p.kernel.NoFree := hagree.exhausted_iff.mpr hex
    refine Or.inl ⟨hex, heq, s5AllocBlock_of_refused hfree.1 ?_ ?_⟩
    · rw [hfree.2]
      exact huncached
    · rw [hfree.2]
      exact BlockDev.refuses_noBlock
  · have hmem : p.file.freeList.top 29 ∈ L := hcons ▸ Multiset.mem_cons_self _ _
    have hnext : p.kernel.nextBlock = p.file.freeList.top 29 := hagree.top_eq hlists.wf
    have hex : ¬ p.file.freeList.Exhausted 29 0xffffffff := fun hex => by
      have := (FreeList.listed_eq_zero_iff hlists.wf).mpr hex
      rw [hlists.listed] at this
      rw [this] at hmem
      exact Multiset.notMem_zero _ hmem
    refine Or.inr ⟨_, f', p.kernel.afterAlloc, nodes', rfl, hsub hmem, heq, ?_,
      ⟨L', hlists', ?_⟩, ?_, ?_⟩
    · rw [← hnext]
      exact s5AllocBlock_of_free (hnext.symm ▸ hD.serves _ (hsub hmem))
    · rw [Multiset.add_cons, ← Multiset.cons_add, ← hcons, hL]
    · -- both lists are what taking the top leaves
      exact hpop.symm.trans ((hagree.popped hlists.wf hex fun c hc => (hrest c hc).1).trans
        (p.kernel.agree_afterAlloc fun c hc => hnext.symm ▸ (hrest c hc).2))
    · refine (S5.bdev_afterAlloc_of_ne ?_).trans huncached
      rw [hnext]
      exact (hD.ne_noBlock (hsub hmem)).symm

/-- **One release** on both sides. -/
theorem SameList.free (hD : DataRegion D) (h : SameList D nodes p) {b : UInt32}
    (hb : b ∈ p.used) :
    ∃ f' s' nodes', Block.free b p.file = (.ok (), f') ∧ s5FreeBlock b p.kernel = .ok ((), s') ∧
      SameList D nodes' ⟨f', s', p.used.erase b⟩ ∧ f'.freeList.top 29 = b := by
  obtain ⟨⟨L, hlists, hL⟩, hagree, huncached⟩ := h
  have hmem : b ∈ D := hL ▸ Multiset.mem_add.mpr (Or.inr hb)
  have hfresh : b ∉ L := fun hbL =>
    Multiset.disjoint_left.mp (Multiset.nodup_add.mp (hL.symm ▸ hD.nodup)).2.2 hbL hb
  have h0 : 0 ∉ L := fun h0 => hD.ne_zero (hL ▸ Multiset.mem_add.mpr (Or.inl h0)) rfl
  obtain ⟨f', nodes', hfree, hlists', -, htop, rfl, hpush⟩ :=
    hlists.free h0 (hD.ne_zero hmem) (hD.ne_noBlock hmem) hfresh
  have hnodes : b ∉ nodes := fun hbn => hfresh (hlists.sub hbn)
  refine ⟨f', p.kernel.giveBlock b, _, hfree,
    s5FreeBlock_apply (hagree.wf hlists.wf).nfree_le (hD.serves _ hmem),
    ⟨⟨_, hlists', ?_⟩, ?_, ?_⟩, htop⟩
  · rw [Multiset.cons_add, ← Multiset.add_cons, Multiset.cons_erase hb, hL]
  · have hkernel := p.kernel.agree_giveBlock b hnodes
    have hnfree : p.kernel.freeList.pushedNodes 29 nodes b =
        p.file.freeList.pushedNodes 29 nodes b := by
      rw [FreeList.pushedNodes, FreeList.pushedNodes, hagree.nfree]
    rw [hnfree] at hkernel
    exact hpush.symm.trans (hagree.pushed.trans hkernel)
  · exact (S5.bdev_giveBlock_of_ne _ _ (hD.ne_noBlock hmem).symm).trans huncached

theorem ListRun.same (hD : DataRegion D) {p₀ : Pair} (h : SameList D nodes p₀)
    (hrun : ListRun p₀ p) : ∃ nodes', SameList D nodes' p := by
  induction hrun with
  | start => exact ⟨nodes, h⟩
  | alloc _ hfile hkernel ih =>
      obtain ⟨nodes', ih⟩ := ih
      rcases ih.alloc hD with ⟨-, hf, hk⟩ | ⟨b, f', s', nodes'', -, -, hf, hk, hsame⟩
      · cases hfile.symm.trans hf
        cases hkernel.symm.trans hk
        exact ⟨nodes', ih.lists, ih.agree, ih.uncached⟩
      · cases hfile.symm.trans hf
        cases hkernel.symm.trans hk
        exact ⟨nodes'', hsame⟩
  | free _ hb hfile hkernel ih =>
      obtain ⟨nodes', ih⟩ := ih
      obtain ⟨f', s', nodes'', hf, hk, hsame, -⟩ := ih.free hD hb
      cases hfile.symm.trans hf
      cases hkernel.symm.trans hk
      exact ⟨nodes'', hsame⟩

/-! ### The results -/

/-- The two hold the same array, and the same words in every node on the chain. -/
def SameContents (f : Simfile) (s : S5) : Prop :=
  ((f 0).word 2).toNat = s.super.s5sNfree ∧ (∀ i < 30, (f 0).word (3 + i) = s.super.s5sFreeBlocks i) ∧
    ∃ nodes, f.freeList.Wf 29 0xffffffff nodes ∧ s.freeList.Wf 29 0xffffffff nodes ∧
      ∀ b ∈ nodes, ∀ i < 30, (f b.toNat).word i = (s.bview b).word i

/-- The two give the same block number, or both are out of space. -/
def SameResult : Except PyErr UInt32 → Int → Prop
  | .ok b, r => r = b.toNat
  | .error e, r => e = .diskSpace ∧ r = -enospc

omit [BlockDev] in
theorem SameList.contents (h : SameList D nodes p) : SameContents p.file p.kernel := by
  obtain ⟨⟨L, hlists, -⟩, hagree, -⟩ := h
  exact ⟨hagree.nfree.symm, fun i hi => (hagree.slots i (Nat.le_of_lt_succ hi)).symm, nodes,
    hlists.wf, hagree.wf hlists.wf, fun b hb i hi =>
      (hagree.node b hb i (Nat.le_of_lt_succ hi)).symm⟩

theorem dataRegion (hmax : size / 4096 ≤ 4294967296)
    (hserves : ∀ b : UInt32, b.toNat < size / 4096 → BlockDev.serves b = true) :
    DataRegion (dataSet inodes size) := by
  have hiblocks : 0 < iblocks inodes := Nat.succ_pos _
  refine ⟨nodup_dataSet hmax, fun b hb => ?_, fun b hb => ?_⟩
  · have := mem_dataBlocks.mp (toNat_mem_dataSet hmax hb)
    omega
  · exact hserves b (mem_dataBlocks.mp (toNat_mem_dataSet hmax hb)).2

/-- The pair at the start, when the root directory has the only block in use. -/
def startPair (f : Simfile) : Pair := ⟨f, mount f, {f.iword 0 3}⟩

omit [BlockDev] in
theorem startPair_same (hformat : format inodes size f₀ = (.ok (), f))
    (hmax : size / 4096 ≤ 4294967295) :
    ∃ nodes, SameList (dataSet inodes size) nodes (startPair f) := by
  obtain ⟨hpos, hinodes, hmod, hroom⟩ := of_format_ok hformat
  obtain ⟨f', nodes, L, hformat', hlists, hL, -⟩ :=
    format_apply hpos hinodes hmod hroom hmax f₀
  cases hformat.symm.trans hformat'
  refine ⟨nodes, ⟨L, hlists, ?_⟩, .refl .., rfl⟩
  rw [← hL, ← Multiset.singleton_add]
  exact add_comm _ _

omit [BlockDev] in
/-- The loop of `format` over the data blocks is as good as freeing them in increasing order, from
an empty list. -/
theorem formatFreeList_eq_frees (hformat : format inodes size f₀ = (.ok (), f))
    (hmax : size / 4096 ≤ 4294967296) {g : Simfile}
    (htables : formatTables inodes f₀ = (.ok (), g)) :
    g.freeList.Exhausted 29 0xffffffff ∧ formatFreeList inodes size g =
      each (fun num => pack num >>= Block.free) (dataBlocks inodes size) g := by
  obtain ⟨hpos, hinodes, -, -⟩ := of_format_ok hformat
  obtain ⟨g', htables', hempty, -⟩ := formatTables_apply hpos hinodes f₀
  cases htables.symm.trans htables'
  refine ⟨hempty.exhausted, ?_⟩
  have heq := formatBlocks_eq_frees (l := dataBlocks inodes size) (fun n hn => by
    have := mem_dataBlocks.mp hn
    omega) (Nat.zero_le 29) g
  have hzero : g.setWord 0 2 (UInt32.ofNat 0) = g := hempty.nfree
  rw [hzero] at heq
  exact heq

end CodingSample.Fsmaker
