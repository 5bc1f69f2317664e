import CodingSample.Fsmaker.Inodes

/-!
# Formatting an image

`format` leaves a list of the data blocks, in which the root directory has already taken the
block that was pushed last.
-/

namespace CodingSample.Fsmaker

open Raise Simdisk

/-- The file with an empty free-block list. -/
structure EmptyList (inodes : Nat) (f : Simfile) : Prop where
  nfree : f.setWord 0 2 0 = f
  last : (f 0).word 32 = 0xffffffff
  freeInode : (f 0).word 1 = 0
  numInodes : ((f 0).word 34).toNat = inodes

/-- Inode `i` in the table of an image without files, with the next free inode after it. -/
structure BlankInode (i : Nat) (next : UInt32) (f : Simfile) : Prop where
  number : f.iword i 1 = UInt32.ofNat i
  type : f.itype i = s5TypeFree
  next : f.iword i 0 = next

theorem BlankInode.congr {i : Nat} {next : UInt32} {f f' : Simfile} (h : BlankInode i next f)
    (hsame : ∀ k < 32, f'.iword i k = f.iword i k) : BlankInode i next f' := by
  constructor
  · rw [hsame 1 (by omega), h.number]
  · rw [Simfile.itype, hsame 2 (by omega)]
    exact h.type
  · rw [hsame 0 (by omega), h.next]

/-- The next free inode of the last one is none. -/
def nextFree (inodes i : Nat) : UInt32 :=
  if i = inodes - 1 then 0xffffffff else UInt32.ofNat (i + 1)

/-- The file with a table of free inodes, but for the words of the free-block list. -/
structure EmptyTable (inodes : Nat) (f : Simfile) : Prop where
  magic : (f 0).word 0 = 0x727f
  root : (f 0).word 33 = 0
  version : (f 0).word 35 = 3
  inode : ∀ i < inodes, BlankInode i (nextFree inodes i) f

theorem formatInode_apply {i inodes : Nat} (hi : i < inodes) (hinodes : inodes < 4294967296)
    {f : Simfile} (hf : ((f 0).word 34).toNat = inodes) :
    ∃ f', formatInode i f = (.ok (), f') ∧ f' 0 = f 0 ∧
      BlankInode i (UInt32.ofNat (i + 1)) f' ∧
      ∀ m k, k < 32 → m ≠ i → f'.iword m k = f.iword m k := by
  refine ⟨((f.setIword i 1 (UInt32.ofNat i)).setItype i s5TypeFree).setIword i 0
    (UInt32.ofNat (i + 1)), ?_, ?_, ⟨?_, ?_, ?_⟩, fun m k hk hm => ?_⟩
  · rw [formatInode, bind_of_ok (Inode.get_apply (hf ▸ hi))]
    have hnumber : (pack i >>= Inode.setNumber i) f =
        (.ok (), f.setIword i 1 (UInt32.ofNat i)) := by
      rw [bind_of_ok (pack_apply (by omega) f)]
      rfl
    rw [bind_of_ok hnumber, bind_of_ok (Inode.setType_apply _),
      bind_of_ok (pack_apply (by omega) _)]
    rfl
  · rw [Simfile.setIword_zero, Simfile.setItype, Simfile.setIword_zero, Simfile.setIword_zero]
  · rw [Simfile.iword_setIword_of_ne (by omega) (by omega) (Or.inr (by omega)), Simfile.setItype,
      Simfile.iword_setIword_of_ne (by omega) (by omega) (Or.inr (by omega)),
      Simfile.iword_setIword (by omega) (by omega), if_pos ⟨rfl, rfl⟩]
  · rw [Simfile.itype_setIword_of_ne (by omega) (Or.inr (by omega)),
      Simfile.itype_setItype (by decide)]
  · rw [Simfile.iword_setIword (by omega) (by omega), if_pos ⟨rfl, rfl⟩]
  · rw [Simfile.setItype, Simfile.iword_setIword_of_ne (by omega) hk (Or.inl hm),
      Simfile.iword_setIword_of_ne (by omega) hk (Or.inl hm),
      Simfile.iword_setIword_of_ne (by omega) hk (Or.inl hm)]

theorem formatTables_apply {inodes : Nat} (hpos : 0 < inodes) (hinodes : inodes < 4294967296)
    (f₀ : Simfile) :
    ∃ f, formatTables inodes f₀ = (.ok (), f) ∧ EmptyList inodes f ∧ EmptyTable inodes f := by
  set f1 : Simfile := ((Simfile.empty.setWord 0 0 0x727f).setWord 0 35 3).setWord 0 34 (UInt32.ofNat inodes) with hf1
  have hnum1 : ((f1 0).word 34).toNat = inodes := by
    rw [hf1, Simfile.word_setWord_self, UInt32.toNat_ofNat']
    omega
  obtain ⟨f2, hloop, hf2, -, hdone2⟩ := each_ok (f := formatInode)
    (I := fun rest f => f 0 = f1 0 ∧ (∀ i ∈ rest, i < inodes) ∧
      ∀ i < inodes, i ∉ rest → BlankInode i (UInt32.ofNat (i + 1)) f)
    (l := List.range inodes) (s := f1)
    ⟨rfl, fun i hi => List.mem_range.mp hi, fun i hi hrest => absurd (List.mem_range.mpr hi) hrest⟩
    fun i rest t ⟨ht, hrest, hdone⟩ => by
      obtain ⟨t', hround, ht', hnew, hkeep⟩ := formatInode_apply (hrest i List.mem_cons_self)
        hinodes (ht ▸ hnum1)
      refine ⟨t', hround, ht'.trans ht, fun j hj => hrest j (List.mem_cons_of_mem _ hj),
        fun j hj hjrest => ?_⟩
      by_cases hji : j = i
      · subst hji
        exact hnew
      · refine (hdone j hj fun hmem => ?_).congr fun k hk => hkeep j k hk hji
        exact (List.mem_cons.mp hmem).elim hji hjrest
  refine ⟨((f2.setIword (inodes - 1) 0 0xffffffff).setWord 0 1 0).setWord 0 32 0xffffffff, ?_, ?_,
    ?_⟩
  · have hnum : (pack inodes >>= setNumInodes)
        ((Simfile.empty.setWord 0 0 0x727f).setWord 0 35 3) =
          (.ok (), f1) := by
      rw [bind_of_ok (pack_apply hinodes _)]
      rfl
    rw [formatTables, modify_bind_apply, bind_of_ok (setWord_apply _ _ _ _),
      bind_of_ok (setWord_apply _ _ _ _)]
    have := bind_of_ok (f := fun _ => (each formatInode (List.range inodes) >>= fun _ =>
      Inode.setNextFree (inodes - 1) 0xffffffff >>= fun _ => setFreeInode 0 >>= fun _ =>
        setLastFreeBlock 0xffffffff)) hnum
    refine this.trans ?_
    rw [bind_of_ok hloop, bind_of_ok (Inode.setNextFree_apply _), setFreeInode,
      bind_of_ok (setWord_apply _ _ _ _)]
    rfl
  · set g := f2.setIword (inodes - 1) 0 0xffffffff with hg
    have hg0 : g 0 = f1 0 := Simfile.setIword_zero.trans hf2
    have hzero : Simfile.empty.setWord 0 2 0 = Simfile.empty := by
      funext b j
      unfold Simfile.setWord Simfile.empty
      by_cases hb : b = 0
      · subst hb
        rw [Function.update_self]
        unfold CodingSample.Block.setWord
        split
        · simp [CodingSample.Block.byteOf]
        · rfl
      · rw [Function.update_of_ne hb]
    have hf1nfree : f1.setWord 0 2 0 = f1 := by
      rw [hf1, Simfile.setWord_comm_index (by omega), Simfile.setWord_comm_index (i := 35) (by omega),
        Simfile.setWord_comm_index (i := 0) (by omega), hzero]
    have hgnfree : g.setWord 0 2 0 = g := by
      have h0 := congrFun hf1nfree 0
      unfold Simfile.setWord at h0 ⊢
      rw [Function.update_self, ← hg0] at h0
      rw [h0, Function.update_eq_self]
    refine ⟨?_, ?_, ?_, ?_⟩
    · rw [Simfile.setWord_comm_index (by omega), Simfile.setWord_comm_index (i := 1) (by omega),
        hgnfree]
    · exact Simfile.word_setWord_self
    · rw [Simfile.word_setWord_of_ne (by omega), Simfile.word_setWord_self]
    · rw [Simfile.word_setWord_of_ne (by omega), Simfile.word_setWord_of_ne (by omega), hg0, hnum1]
  · have hword {j : Nat} (h1 : j ≠ 1) (h32 : j ≠ 32) : ((((f2.setIword (inodes - 1) 0
        0xffffffff).setWord 0 1 0).setWord 0 32 0xffffffff) 0).word j = (f1 0).word j := by
      rw [Simfile.word_setWord_of_ne h32, Simfile.word_setWord_of_ne h1, Simfile.setIword_zero, hf2]
    refine ⟨?_, ?_, ?_, fun i hi => ?_⟩
    · rw [hword (by omega) (by omega), hf1, Simfile.word_setWord_of_ne (by omega),
        Simfile.word_setWord_of_ne (by omega), Simfile.word_setWord_self]
    · rw [hword (by omega) (by omega), hf1, Simfile.word_setWord_of_ne (by omega),
        Simfile.word_setWord_of_ne (by omega), Simfile.word_setWord_of_ne (by omega)]
      exact CodingSample.Block.word_zero 33
    · rw [hword (by omega) (by omega), hf1, Simfile.word_setWord_of_ne (by omega),
        Simfile.word_setWord_self]
    · have hinode := hdone2 i hi List.not_mem_nil
      have hslot (k : Nat) : Simfile.iword (((f2.setIword (inodes - 1) 0 0xffffffff).setWord 0 1
          0).setWord 0 32 0xffffffff) i k = (f2.setIword (inodes - 1) 0 0xffffffff).iword i k := by
        apply Simfile.iword_congr
        rw [Simfile.setWord_of_ne (Simfile.block_ne_zero i),
          Simfile.setWord_of_ne (Simfile.block_ne_zero i)]
      have hother {k : Nat} (hk : k < 32) (hk0 : k ≠ 0) :
          (f2.setIword (inodes - 1) 0 0xffffffff).iword i k = f2.iword i k :=
        Simfile.iword_setIword_of_ne (by omega) hk (Or.inr hk0)
      constructor
      · rw [hslot, hother (by omega) (by omega), hinode.number]
      · rw [Simfile.itype, hslot, hother (by omega) (by omega)]
        exact hinode.type
      · rw [hslot, Simfile.iword_setIword (by omega) (by omega), nextFree]
        refine if_congr (and_iff_left rfl) rfl hinode.next

/-! ### The free-block list -/

variable {f : Simfile} {nodes : List UInt32}

theorem EmptyList.exhausted {inodes : Nat} (h : EmptyList inodes f) :
    f.freeList.Exhausted 29 0xffffffff := by
  refine ⟨?_, h.last⟩
  change ((f 0).word 2).toNat = 0
  rw [← h.nfree, Simfile.word_setWord_self]
  rfl

/-- A well-formed list of the blocks `L`. -/
structure Lists (L : Multiset UInt32) (nodes : List UInt32) (f : Simfile) : Prop where
  wf : f.freeList.Wf 29 0xffffffff nodes
  listed : f.freeList.listed 29 nodes = L

theorem Lists.sub {L : Multiset UInt32} (h : Lists L nodes f) {b : UInt32} (hb : b ∈ nodes) :
    b ∈ L := by
  rw [← h.listed]
  exact FreeList.mem_listed_of_mem_nodes hb

theorem Lists.congr {L : Multiset UInt32} {f' : Simfile} (h : Lists L nodes f)
    (hagree : FreeList.Agree 29 nodes f.freeList f'.freeList) : Lists L nodes f' :=
  ⟨hagree.wf h.wf, (hagree.listed h.wf).trans h.listed⟩

/-- Freeing a block puts it on the list, on top. -/
theorem Lists.free {L : Multiset UInt32} {b : UInt32} (h : Lists L nodes f) (h0 : 0 ∉ L)
    (hb0 : b ≠ 0) (hbn : b ≠ 0xffffffff) (hb : b ∉ L) :
    ∃ f' nodes', Block.free b f = (.ok (), f') ∧ Lists (b ::ₘ L) nodes' f' ∧
      f.ListOnly (· = b.toNat) f' ∧ f'.freeList.top 29 = b ∧
      nodes' = f.freeList.pushedNodes 29 nodes b ∧
      FreeList.Agree 29 nodes' (f.freeList.pushed 29 b) f'.freeList := by
  have hfresh : b ∉ nodes := fun hmem => hb (h.sub hmem)
  obtain ⟨f', hfree, honly, hagree⟩ := free_spec h.wf.nfree_le hb0 (fun hmem => h0 (h.sub hmem))
    hfresh
  obtain ⟨hwf, hlisted⟩ := FreeList.listed_pushed h.wf hbn hfresh
  refine ⟨f', _, hfree, ⟨hagree.wf hwf, (hagree.listed hwf).trans (hlisted.trans ?_)⟩, honly, ?_,
    rfl, hagree⟩
  · rw [h.listed]
  · rw [hagree.top_eq hwf, FreeList.top_pushed]

/-- Taking the top of the list. -/
theorem Lists.alloc {L : Multiset UInt32} (h : Lists L nodes f) (h0 : 0 ∉ L) (hL : L.Nodup) :
    (L = 0 ∧ allocBlock f = (.error .diskSpace, f)) ∨
    ∃ f' nodes' L', L = f.freeList.top 29 ::ₘ L' ∧ allocBlock f = (.ok (f.freeList.top 29), f') ∧
      Lists L' nodes' f' ∧ f.ListOnly (fun _ => False) f' ∧
      (∀ c ∈ nodes', c ∈ nodes ∧ c ≠ f.freeList.top 29) ∧
      FreeList.Agree 29 nodes' (f.freeList.popped 29) f'.freeList := by
  have hpos : f.freeList.top 29 ≠ 0 := by
    by_cases hex : f.freeList.Exhausted 29 0xffffffff
    · rw [FreeList.top, if_pos hex.1, hex.2]
      decide
    · intro heq
      rw [← h.listed, ← heq] at h0
      exact h0 (FreeList.top_mem h.wf hex)
  rcases allocBlock_spec h.wf hpos with ⟨hex, heq⟩ | ⟨hex, f', heq, honly, hagree⟩
  · exact Or.inl ⟨h.listed ▸ (FreeList.listed_eq_zero_iff h.wf).mpr hex, heq⟩
  · obtain ⟨rest, hrest, hwf, hlisted⟩ := FreeList.listed_popped h.wf hex (h.listed ▸ hL)
    have hagree' := hagree rest fun hmem => h0 (h.sub (hrest 0 hmem).1)
    exact Or.inr ⟨f', rest, _, (h.listed.symm.trans hlisted.symm), heq,
      ⟨hagree'.wf hwf, hagree'.listed hwf⟩, honly, hrest, hagree'⟩

/-- Freeing blocks one after the other puts them all on the list. -/
theorem Lists.frees {L : Multiset UInt32} {nums : List Nat} (h : Lists L nodes f) (h0 : 0 ∉ L)
    (hnums : ∀ n ∈ nums, n ≠ 0 ∧ n < 4294967295) (hnodup : nums.Nodup)
    (hfresh : ∀ n ∈ nums, UInt32.ofNat n ∉ L) :
    ∃ f' nodes', each (fun num => pack num >>= Block.free) nums f = (.ok (), f') ∧
      Lists ((nums.map UInt32.ofNat : List UInt32) + L) nodes' f' ∧ f.ListOnly (· ∈ nums) f' ∧
      ∀ n, nums.getLast? = some n → f'.freeList.top 29 = UInt32.ofNat n := by
  induction nums generalizing L nodes f with
  | nil => exact ⟨f, nodes, rfl, by simpa using h, ⟨fun _ _ _ => rfl, fun _ _ => rfl⟩, by simp⟩
  | cons num nums ih =>
      obtain ⟨hpos, hlt⟩ := hnums num List.mem_cons_self
      obtain ⟨hnum, hnodup⟩ := List.nodup_cons.mp hnodup
      have htoNat : (UInt32.ofNat num).toNat = num := by
        rw [UInt32.toNat_ofNat']
        omega
      have hb0 : UInt32.ofNat num ≠ 0 := fun heq => hpos (by rw [← htoNat, heq]; rfl)
      have hbn : UInt32.ofNat num ≠ 0xffffffff := fun heq => by
        rw [heq] at htoNat
        have : (0xffffffff : UInt32).toNat = 4294967295 := rfl
        omega
      obtain ⟨f1, nodes1, hfree, hlists, honly, htop, -⟩ :=
        h.free h0 hb0 hbn (hfresh num List.mem_cons_self)
      obtain ⟨f2, nodes2, heach, hlists2, honly2, htop2⟩ := ih hlists
        (fun hmem => (Multiset.mem_cons.mp hmem).elim hb0.symm h0)
        (fun n hn => hnums n (List.mem_cons_of_mem _ hn)) hnodup fun n hn hmem => by
          rcases Multiset.mem_cons.mp hmem with heq | hmem
          · have hlt' := (hnums n (List.mem_cons_of_mem _ hn)).2
            have := congrArg UInt32.toNat heq
            rw [htoNat, UInt32.toNat_ofNat'] at this
            exact hnum (by rwa [show num = n by omega])
          · exact hfresh n (List.mem_cons_of_mem _ hn) hmem
      have hround : (pack num >>= Block.free) f = (.ok (), f1) := by
        rw [bind_of_ok (pack_apply (by omega) f), hfree]
      refine ⟨f2, nodes2, ?_, ?_, ⟨fun c hc hmem => ?_, fun j hj => ?_⟩, fun n hn => ?_⟩
      · rw [each, bind_of_ok hround, heach]
      · rw [List.map_cons, ← Multiset.cons_coe, Multiset.cons_add, ← Multiset.add_cons]
        exact hlists2
      · rw [honly2.blocks c hc fun hmem' => hmem (List.mem_cons_of_mem _ hmem'),
          honly.blocks c hc fun heq => hmem (by rw [heq, htoNat]; exact List.mem_cons_self)]
      · rw [honly2.words j hj, honly.words j hj]
      · cases nums with
        | nil =>
            cases heach
            simp at hn
            rw [← hn]
            exact htop
        | cons m rest => exact htop2 n (by rwa [List.getLast?_cons_cons] at hn)

/-! ### The root directory -/

/-- The root inode before its first entry. -/
structure RootInode (f f' : Simfile) : Prop where
  blocks : ∀ c, c ≠ 1 → f' c = f c
  type : f'.itype 0 = s5TypeDir
  size : f'.isize 0 = 0
  direct : ∀ loc < 28, f'.iword 0 (3 + loc) = 0
  indirect : f'.iword 0 31 = 0

theorem clearDirect (n : Nat) (f : Simfile) :
    ∃ f', each (fun i => Inode.setDirectBlockno n i 0) (List.range s5NdirectBlocks) f =
        (.ok (), f') ∧ (∀ c, c ≠ Inode.block n → f' c = f c) ∧
      (∀ loc < 28, f'.iword n (3 + loc) = 0) ∧
      ∀ m k, k < 32 → (m ≠ n ∨ k < 3 ∨ 30 < k) → f'.iword m k = f.iword m k := by
  obtain ⟨f', heach, hblocks, hdone, hkeep, -⟩ := each_ok
    (f := fun i => Inode.setDirectBlockno n i 0) (l := List.range s5NdirectBlocks) (s := f)
    (I := fun rest g => (∀ c, c ≠ Inode.block n → g c = f c) ∧
      (∀ loc < 28, loc ∉ rest → g.iword n (3 + loc) = 0) ∧
      (∀ m k, k < 32 → (m ≠ n ∨ k < 3 ∨ 30 < k) → g.iword m k = f.iword m k) ∧
      ∀ i ∈ rest, i < 28)
    ⟨fun _ _ => rfl, fun loc hloc hrest => absurd (List.mem_range.mpr hloc) hrest,
      fun _ _ _ _ => rfl, fun i hi => by simpa using hi⟩ fun i rest g ⟨hblocks, hdone, hkeep, hsub⟩ => by
        have hi := hsub i List.mem_cons_self
        refine ⟨g.setIword n (3 + i) 0, Inode.setDirectBlockno_apply hi 0, fun c hc => ?_,
          fun loc hloc hrest => ?_, fun m k hk hmk => ?_,
          fun j hj => hsub j (List.mem_cons_of_mem _ hj)⟩
        · rw [Simfile.setIword_of_ne hc, hblocks c hc]
        · rw [Simfile.iword_setIword (by omega) (by omega)]
          split
          · rfl
          · rename_i hne
            exact hdone loc hloc fun hmem => (List.mem_cons.mp hmem).elim
              (fun heq => hne ⟨rfl, by omega⟩) hrest
        · rw [Simfile.iword_setIword_of_ne (by omega) hk (by omega), hkeep m k hk hmk]
  exact ⟨f', heach, hblocks, fun loc hloc => hdone loc hloc List.not_mem_nil, hkeep⟩

theorem allocInode_root {inodes : Nat} (hroot : (f 0).word 1 = 0) (hpos : 0 < inodes)
    (hnum : ((f 0).word 34).toNat = inodes) :
    allocInode f = (.ok 0, f.setWord 0 1 (f.iword 0 0)) := by
  have hget : Inode.get (0 : UInt32).toNat f = (.ok 0, f) := Inode.get_apply (hnum ▸ hpos)
  rw [allocInode, getFreeInode, bind_of_ok (word_apply _ _ f), hroot, decide_eq_false (by decide),
    raiseIf_false, pure_bind_apply, bind_of_ok hget]
  have hset : (Inode.getNextFree 0 >>= setFreeInode) f =
      (.ok (), f.setWord 0 1 (f.iword 0 0)) := bind_of_ok Inode.getNextFree_apply
  rw [bind_of_ok hset]
  rfl

/-- `format` up to the first entry of the root directory. -/
theorem formatRoot_inode {inodes : Nat} (hroot : (f 0).word 1 = 0) (hpos : 0 < inodes)
    (hnum : ((f 0).word 34).toNat = inodes) :
    ∃ g, RootInode (f.setWord 0 1 (f.iword 0 0)) g ∧
      (∀ m k, k < 32 → m ≠ 0 ∨ k = 1 → g.iword m k = f.iword m k) ∧ formatRoot f = (do
      let number ← Inode.getNumber 0
      Inode.makeDirent 0 number Inode.dot
      Inode.makeDirent 0 number Inode.dotdot
      Inode.setLinkCount 0 1) g := by
  obtain ⟨f2, hclear, hblocks, hdirect, hkeep⟩ := clearDirect 0 (f.setWord 0 1 (f.iword 0 0))
  refine ⟨Simfile.setIlinks
      (((f2.setIword 0 31 0).setItype 0 s5TypeDir).setIword 0 0 (UInt32.ofNat 0)) 0 1,
    ⟨fun c hc => ?_, ?_, ?_, fun loc hloc => ?_, ?_⟩, fun m k hk hm => ?_, ?_⟩
  · rw [Simfile.setIlinks, Simfile.setItype]
    have hc' : c ≠ Inode.block 0 := hc
    rw [Simfile.setIword_of_ne hc', Simfile.setIword_of_ne hc', Simfile.setIword_of_ne hc',
      Simfile.setIword_of_ne hc', hblocks c hc']
  · rw [Simfile.itype_setIlinks, Simfile.itype_setIword_of_ne (by omega) (Or.inr (by omega)),
      Simfile.itype_setItype (by decide)]
  · rw [Simfile.isize, Simfile.setIlinks,
      Simfile.iword_setIword_of_ne (by omega) (by omega) (Or.inr (by omega)),
      Simfile.iword_setIword (by omega) (by omega), if_pos ⟨rfl, rfl⟩]
    rfl
  · rw [Simfile.setIlinks, Simfile.setItype,
      Simfile.iword_setIword_of_ne (by omega) (by omega) (Or.inr (by omega)),
      Simfile.iword_setIword_of_ne (by omega) (by omega) (Or.inr (by omega)),
      Simfile.iword_setIword_of_ne (by omega) (by omega) (Or.inr (by omega)),
      Simfile.iword_setIword_of_ne (by omega) (by omega) (Or.inr (by omega)), hdirect loc hloc]
  · rw [Simfile.setIlinks, Simfile.setItype,
      Simfile.iword_setIword_of_ne (by omega) (by omega) (Or.inr (by omega)),
      Simfile.iword_setIword_of_ne (by omega) (by omega) (Or.inr (by omega)),
      Simfile.iword_setIword_of_ne (by omega) (by omega) (Or.inr (by omega)),
      Simfile.iword_setIword (by omega) (by omega), if_pos ⟨rfl, rfl⟩]
  · have hstart : Simfile.iword (f.setWord 0 1 (f.iword 0 0)) m k = f.iword m k :=
      Simfile.iword_congr (Simfile.setWord_of_ne (Simfile.block_ne_zero m))
    rw [Simfile.setIlinks, Simfile.setItype,
      Simfile.iword_setIword_of_ne (by omega) hk (by omega),
      Simfile.iword_setIword_of_ne (by omega) hk (by omega),
      Simfile.iword_setIword_of_ne (by omega) hk (by omega),
      Simfile.iword_setIword_of_ne (by omega) hk (by omega), hkeep m k hk (by omega), hstart]
  · rw [formatRoot, bind_of_ok (allocInode_root hroot hpos hnum), bind_of_ok hclear,
      bind_of_ok (Inode.setIndirectBlockno_apply 0), bind_of_ok (Inode.setType_apply _),
      bind_of_ok (Inode.setSize_apply (by omega)),
      bind_of_ok (Inode.setLinkCount_apply (by omega))]

/-- A byte of the directory entry with this inode and name. -/
def direntByte (inode : UInt32) (name : List UInt8) (j : Nat) : UInt8 :=
  if j < 4 then (Inode.wordBytes inode).getD j 0 else (Inode.ljust name).getD (j - 4) 0

/-- The image after its root directory was made, with `b` for its block. -/
structure RootMade (inodes : Nat) (b : UInt32) (f f' : Simfile) : Prop where
  words : ∀ j, j = 0 ∨ 33 ≤ j → (f' 0).word j = (f 0).word j
  freeInode : (f' 0).word 1 = f.iword 0 0
  others : ∀ m k, m < inodes → k < 32 → m ≠ 0 ∨ k = 1 → f'.iword m k = f.iword m k
  type : f'.itype 0 = s5TypeDir
  size : f'.isize 0 = 64
  links : f'.ilinks 0 = 1
  direct : ∀ loc < 28, f'.iword 0 (3 + loc) = if loc = 0 then b else 0
  indirect : f'.iword 0 31 = 0
  dot : ∀ j < 32, f' b.toNat j = direntByte (f.iword 0 1) Inode.dot j
  dotdot : ∀ j < 32, f' b.toNat (32 + j) = direntByte (f.iword 0 1) Inode.dotdot j

theorem Simfile.byte_first {b : UInt32} (hb : b ≠ 0) {n o : Nat} (hmap : f.iword n 3 = b)
    (ho : o < 4096) : f.byte n o = f b.toNat o := by
  have hdiv : o / 4096 = 0 := by omega
  have hmod : o % 4096 = o := by omega
  have hblock : f.blockno n 0 = b := hmap
  rw [Simfile.byte, hdiv, hmod, hblock, if_neg hb]

theorem formatRoot_apply {inodes : Nat} {L : Multiset UInt32} (hroot : (f 0).word 1 = 0)
    (hpos : 0 < inodes) (hnum : ((f 0).word 34).toNat = inodes) (hlists : Lists L nodes f)
    (hdata : ∀ b ∈ L, iblocks inodes < b.toNat) (hnodup : L.Nodup) (hsome : L ≠ 0) :
    ∃ f' nodes' L', formatRoot f = (.ok (), f') ∧ L = f.freeList.top 29 ::ₘ L' ∧
      Lists L' nodes' f' ∧ RootMade inodes (f.freeList.top 29) f f' := by
  obtain ⟨g, hg, hothers, hrun⟩ := formatRoot_inode hroot hpos hnum
  have htable : 0 < iblocks inodes := Nat.succ_pos _
  have hL0 : 0 ∉ L := fun hmem => absurd (hdata 0 hmem) (Nat.not_lt_zero _)
  -- the list is still as it was
  have hagree : FreeList.Agree 29 nodes f.freeList g.freeList := by
    have h0 : g 0 = (f.setWord 0 1 (f.iword 0 0)) 0 := hg.blocks 0 (by omega)
    refine ⟨?_, fun i _ => ?_, fun c hc i _ => ?_⟩
    · change ((g 0).word 2).toNat = ((f 0).word 2).toNat
      rw [h0, Simfile.word_setWord_of_ne (by omega)]
    · change (g 0).word (3 + i) = (f 0).word (3 + i)
      rw [h0, Simfile.word_setWord_of_ne (by omega)]
    · have hc2 := hdata c (hlists.sub hc)
      change (g c.toNat).word i = (f c.toNat).word i
      rw [hg.blocks _ (by omega), Simfile.setWord_of_ne (by omega)]
  have htop : g.freeList.top 29 = f.freeList.top 29 := hagree.top_eq hlists.wf
  rcases (hlists.congr hagree).alloc hL0 hnodup with ⟨hzero, -⟩ |
    ⟨f7, nodes', L', hL, halloc, hlists7, honly, hsub, -⟩
  · exact absurd hzero hsome
  rw [htop] at hL halloc hsub
  set b := f.freeList.top 29
  have hbdata : iblocks inodes < b.toNat := hdata b (hL ▸ Multiset.mem_cons_self _ _)
  have hb2 : 2 ≤ b.toNat := by omega
  have hb0 : b ≠ 0 := fun h => by
    rw [h] at hb2
    exact absurd hb2 (by decide)
  have hbn : b.toNat ≠ Inode.block 0 := by
    change b.toNat ≠ 1
    omega
  -- the block of the first entry
  set f8 := Simfile.setIword (Function.update f7 b.toNat CodingSample.Block.zero) 0 3 b with hf8
  have hword7 (k : Nat) :
      Simfile.iword (Function.update f7 b.toNat CodingSample.Block.zero) 0 k = g.iword 0 k := by
    refine (Simfile.iword_congr ?_).trans
      (Simfile.iword_congr (honly.blocks _ (Simfile.block_ne_zero 0) not_false))
    exact Function.update_of_ne hbn.symm _ _
  have hword8 {k : Nat} (hk : k < 32) (h3 : k ≠ 3) : f8.iword 0 k = g.iword 0 k := by
    rw [hf8, Simfile.iword_setIword_of_ne (by omega) hk (Or.inr h3), hword7]
  have hblock8 : Inode.writeBlockno 0 (0 / 4096) g = (.ok b, f8) :=
    Inode.writeBlockno_direct_new (by omega) (hg.direct 0 (by omega)) halloc
  have hdirect8 : f8.iword 0 3 = b := by
    rw [hf8, Simfile.iword_setIword (by omega) (by omega), if_pos ⟨rfl, rfl⟩]
  have hind8 : f8.iword 0 31 = 0 := (hword8 (by omega) (by omega)).trans hg.indirect
  have hmap8 {loc : Nat} (hloc : loc ≠ 0) : f8.blockno 0 loc = 0 := by
    rw [Simfile.blockno, hind8, if_pos rfl]
    by_cases hdirect : loc < s5NdirectBlocks
    · rw [if_pos hdirect, hword8 (by simp at hdirect; omega) (by omega)]
      exact hg.direct loc hdirect
    · rw [if_neg hdirect]
  have hholds8 : Inode.Holds f8 0 0 b := by
    refine ⟨hdirect8, hb0, hbn, fun h => absurd hind8 h, fun h => absurd hind8 h,
      fun loc _ hloc => ?_, fun loc _ hne => ?_⟩
    · rw [hmap8 (by omega)]
      exact hb0.symm
    · by_cases hloc : loc = 0
      · subst hloc
        change (f8.iword 0 3).toNat ≠ _
        rw [hdirect8]
        exact hbn
      · exact absurd (hmap8 hloc) hne
  have htype8 : f8.itype 0 = s5TypeDir := by
    rw [Simfile.itype, hword8 (by omega) (by omega)]
    exact hg.type
  have hsize8 : f8.isize 0 = 0 := by
    rw [Simfile.isize, hword8 (by omega) (by omega)]
    exact hg.size
  have hfirst : Inode.makeDirent 0 (g.iword 0 1) Inode.dot g =
      (.ok (), Inode.withDirent f8 0 b 0 (g.iword 0 1) Inode.dot) :=
    Inode.makeDirent_append hg.type hg.size (by simp) rfl (by decide) (by decide)
      (fun i hi => absurd ((Inode.mem_direntOffsets rfl).mp hi).2 (by omega)) hblock8 hholds8
      htype8 hsize8
  -- the second entry goes into the same block
  set f9 := Inode.withDirent f8 0 b 0 (g.iword 0 1) Inode.dot with hf9
  have hholds9 : Inode.Holds f9 0 32 b := hholds8.withDirent (by omega) rfl
  have htype9 : f9.itype 0 = s5TypeDir := by
    rw [Simfile.itype, hf9, Inode.iword_withDirent (by omega) hbn (Or.inr (by omega))]
    exact htype8
  have hsize9 : f9.isize 0 = 32 := Inode.isize_withDirent (by omega)
  have hfresh9 : ∀ i ∈ Inode.direntOffsets 32, Inode.cstr (Inode.nameAt f9 0 i) ≠ Inode.dotdot := by
    intro i hi
    obtain ⟨hi32, hlt⟩ := (Inode.mem_direntOffsets rfl).mp hi
    have hi0 : i = 0 := by omega
    subst hi0
    rw [hf9, Inode.nameAt_withDirent_self hholds8 rfl (by decide) (by simp),
      Inode.cstr_ljust (by decide) (by decide)]
    decide
  have hsecond : Inode.makeDirent 0 (g.iword 0 1) Inode.dotdot f9 =
      (.ok (), Inode.withDirent f9 0 b 32 (g.iword 0 1) Inode.dotdot) := by
    have hblock9 : Inode.writeBlockno 0 (32 / 4096) f9 = (.ok b, f9) := by
      rw [Inode.writeBlockno_mapped (by omega) (hholds9.map.symm ▸ hb0), hholds9.map]
    exact Inode.makeDirent_append htype9 hsize9 (by simp) rfl (by decide) (by decide) hfresh9
      hblock9 hholds9 htype9 hsize9
  set f10 := Inode.withDirent f9 0 b 32 (g.iword 0 1) Inode.dotdot with hf10
  have hblocks10 {c : Nat} (h1 : c ≠ 1) (hcb : c ≠ b.toNat) : f10.setIlinks 0 1 c = f7 c := by
    rw [Simfile.setIlinks, Simfile.setIword_of_ne h1, hf10, Inode.withDirent_of_ne h1 hcb, hf9,
      Inode.withDirent_of_ne h1 hcb, hf8, Simfile.setIword_of_ne h1, Function.update_of_ne hcb]
  have hword10 {m k : Nat} (hk : k < 32) (hbm : b.toNat ≠ Inode.block m)
      (h : m ≠ 0 ∨ k ≠ 0 ∧ k ≠ 2) : (f10.setIlinks 0 1).iword m k = f8.iword m k := by
    rw [Simfile.setIlinks, Simfile.iword_setIword_of_ne (by omega) hk (by omega),
      hf10, Inode.iword_withDirent hk hbm (by omega), hf9, Inode.iword_withDirent hk hbm (by omega)]
  have hblock10 : f10.setIlinks 0 1 b.toNat = f10 b.toNat := Simfile.setIword_of_ne hbn
  have hdirect9 : f9.iword 0 3 = b := by
    rw [hf9, Inode.iword_withDirent (by omega) hbn (Or.inr (by omega)), hdirect8]
  have hdirect10 : f10.iword 0 3 = b := by
    rw [hf10, Inode.iword_withDirent (by omega) hbn (Or.inr (by omega)), hdirect9]
  refine ⟨f10.setIlinks 0 1, nodes', L', ?_, hL, ?_, ⟨fun j hj => ?_, ?_, fun m k hm hk h => ?_,
    ?_, ?_, ?_, fun loc hloc => ?_, ?_, fun j hj => ?_, fun j hj => ?_⟩⟩
  · rw [hrun, bind_of_ok Inode.getNumber_apply, bind_of_ok hfirst, bind_of_ok hsecond]
    exact Inode.setLinkCount_apply (by omega)
  · refine hlists7.congr ⟨?_, fun i _ => ?_, fun c hc i _ => ?_⟩
    · change ((f10.setIlinks 0 1 0).word 2).toNat = ((f7 0).word 2).toNat
      rw [hblocks10 (by omega) (by omega)]
    · change (f10.setIlinks 0 1 0).word (3 + i) = (f7 0).word (3 + i)
      rw [hblocks10 (by omega) (by omega)]
    · obtain ⟨hmem, hne⟩ := hsub c hc
      have hc2 := hdata c (hlists.sub hmem)
      change (f10.setIlinks 0 1 c.toNat).word i = (f7 c.toNat).word i
      rw [hblocks10 (by omega) fun h => hne (UInt32.toNat_inj.mp h)]
  · rw [hblocks10 (by omega) (by omega), honly.words j (by omega), hg.blocks 0 (by omega),
      Simfile.word_setWord_of_ne (by omega)]
  · rw [hblocks10 (by omega) (by omega), honly.words 1 (by omega), hg.blocks 0 (by omega),
      Simfile.word_setWord_self]
  · have hbm : b.toNat ≠ Inode.block m := by
      have hle : Inode.block m ≤ iblocks inodes := by
        rw [Inode.block, iblocks, Nat.add_comm]
        exact Nat.succ_le_succ (Nat.div_le_div_right (by omega))
      omega
    have hword8' : f8.iword m k = g.iword m k := by
      rw [hf8, Simfile.iword_setIword_of_ne (by omega) hk (by omega)]
      refine (Simfile.iword_congr ?_).trans
        (Simfile.iword_congr (honly.blocks _ (Simfile.block_ne_zero m) not_false))
      exact Function.update_of_ne hbm.symm _ _
    rw [hword10 hk hbm (by omega), hword8', hothers m k hk h]
  · rw [Simfile.itype_setIlinks, Simfile.itype, hf10,
      Inode.iword_withDirent (by omega) hbn (Or.inr (by omega))]
    exact htype9
  · rw [Simfile.isize, Simfile.setIlinks,
      Simfile.iword_setIword_of_ne (by omega) (by omega) (Or.inr (by omega))]
    exact Inode.isize_withDirent (by omega)
  · exact Simfile.ilinks_setIlinks (by omega)
  · rw [hword10 (by omega) hbn (by omega)]
    by_cases hzero : loc = 0
    · subst hzero
      rw [if_pos rfl]
      exact hdirect8
    · rw [if_neg hzero, hword8 (by omega) (by omega), hg.direct loc hloc]
  · rw [hword10 (by omega) hbn (by omega)]
    exact hind8
  · have hlow : f10 b.toNat j = f9 b.toNat j := by
      rw [← Simfile.byte_first hb0 hdirect10 (by omega), hf10,
        Inode.byte_withDirent hholds9 (by omega) (by decide) (by omega), if_neg (by omega),
        if_neg (by omega), Simfile.byte_first hb0 hdirect9 (by omega)]
    rw [hblock10, hlow, ← Simfile.byte_first hb0 hdirect9 (by omega), hf9,
      Inode.byte_withDirent hholds8 (by omega) (by decide) (by omega), hothers 0 1 (by omega)
      (Or.inr rfl), direntByte]
    by_cases h4 : j < 4
    · rw [if_pos (by omega), if_pos h4, Nat.sub_zero]
    · rw [if_neg (by omega), if_pos (by omega), if_neg h4]
  · rw [hblock10, ← Simfile.byte_first hb0 hdirect10 (by omega), hf10,
      Inode.byte_withDirent hholds9 (by omega) (by decide) (by omega), hothers 0 1 (by omega)
      (Or.inr rfl), direntByte]
    have hsub : 32 + j - 32 = j := by omega
    have hsub4 : 32 + j - (32 + 4) = j - 4 := by omega
    by_cases h4 : j < 4
    · rw [if_pos (by omega), if_pos h4, hsub]
    · rw [if_neg (by omega), if_pos (by omega), if_neg h4, hsub4]

end CodingSample.Fsmaker
