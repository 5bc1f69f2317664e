import CodingSample.Fsmaker.Api
import CodingSample.Data.FreeList

/-!
# The free-block list of an image

What `alloc_block`, `Block.free` and `format` do to the list, in terms of the general one.
-/

namespace CodingSample.Fsmaker

open Raise Simdisk

/-- The free-block list in its general form, as the editor sees it. -/
def Simfile.freeList (f : Simfile) : FreeList UInt32 where
  nfree := ((f 0).word 2).toNat
  slots i := (f 0).word (3 + i)
  node b := (f b.toNat).word

namespace Simfile

variable {f : Simfile} {b c i j : Nat} {w : UInt32}

theorem setWord_of_ne (hc : c ≠ b) : f.setWord b i w c = f c := Function.update_of_ne hc _ _

theorem word_setWord : ((f.setWord b i w) c).word j = if c = b ∧ j = i then w else (f c).word j := by
  by_cases hc : c = b
  · subst hc
    rw [setWord, Function.update_self, Block.word_setWord]
    by_cases hj : j = i
    · subst hj
      simp
    · simp [hj]
  · rw [setWord_of_ne hc, if_neg fun h => hc h.1]

@[simp] theorem word_setWord_self : ((f.setWord b i w) b).word i = w := by
  rw [word_setWord, if_pos ⟨rfl, rfl⟩]

theorem word_setWord_of_ne (hj : j ≠ i) : ((f.setWord b i w) c).word j = (f c).word j := by
  rw [word_setWord, if_neg fun h => hj h.2]

/-- Besides the free-block list only blocks in `B` changed. -/
structure ListOnly (B : Nat → Prop) (f f' : Simfile) : Prop where
  blocks : ∀ c, c ≠ 0 → ¬ B c → f' c = f c
  words : ∀ j, j < 2 ∨ 33 ≤ j → (f' 0).word j = (f 0).word j

end Simfile

variable {f : Simfile} {nodes : List UInt32} {b : UInt32}

@[simp] theorem word_apply (b i : Nat) (f : Simfile) : word b i f = (.ok ((f b).word i), f) := rfl

@[simp] theorem setWord_apply (b i : Nat) (w : UInt32) (f : Simfile) :
    setWord b i w f = (.ok (), f.setWord b i w) := rfl

theorem getFreeBlock_apply {i : Nat} (hi : i < 29) (f : Simfile) :
    getFreeBlock i f = (.ok ((f 0).word (3 + i)), f) := by
  unfold getFreeBlock
  rw [decide_eq_false (by simpa using hi)]
  rfl

theorem setFreeBlock_apply {i : Nat} (hi : i < 29) (w : UInt32) (f : Simfile) :
    setFreeBlock i w f = (.ok (), f.setWord 0 (3 + i) w) := by
  unfold setFreeBlock
  rw [decide_eq_false (by simpa using hi)]
  rfl

/-! ### Allocation -/

/-- The file after `done` slots of the head were read from block `b`. -/
structure Loaded (b : Nat) (f : Simfile) (rest : List Nat) (f' : Simfile) : Prop where
  blocks : ∀ c, c ≠ 0 → f' c = f c
  words : ∀ j, (f' 0).word j =
    if 3 ≤ j ∧ j < 32 ∧ j - 3 ∉ rest then (f b).word (j - 3) else (f 0).word j
  sub : ∀ i ∈ rest, i < 29
  nodup : rest.Nodup

theorem loadSlots (hb : b.toNat ≠ 0) (f : Simfile) :
    ∃ f', each (fun i => word b.toNat i >>= setFreeBlock i)
        (List.range (s5NblksPerFnode - 1)) f = (.ok (), f') ∧ Loaded b.toNat f [] f' := by
  refine each_ok (I := Loaded b.toNat f) ⟨fun _ _ => rfl, fun j => ?_, fun i hi => by simpa using hi,
    List.nodup_range⟩ ?_
  · rw [if_neg]
    rintro ⟨h3, h32, hmem⟩
    exact hmem (List.mem_range.mpr (by simp; omega))
  rintro i rest t ⟨hblocks, hwords, hsub, hnodup⟩
  obtain ⟨hi, hnodup⟩ := List.nodup_cons.mp hnodup
  have hlt := hsub i List.mem_cons_self
  refine ⟨t.setWord 0 (3 + i) ((f b.toNat).word i), ?_, fun c hc => ?_, fun j => ?_,
    fun k hk => hsub k (List.mem_cons_of_mem _ hk), hnodup⟩
  · rw [bind_of_ok (word_apply _ _ t), setFreeBlock_apply hlt, hblocks _ hb]
  · rw [Simfile.setWord_of_ne hc, hblocks c hc]
  · rw [Simfile.word_setWord]
    by_cases hj : j = 3 + i
    · subst hj
      have hsub3 : 3 + i - 3 = i := by omega
      rw [if_pos ⟨rfl, rfl⟩, if_pos ⟨by omega, by omega, by rwa [hsub3]⟩, hsub3]
    · rw [if_neg fun h => hj h.2, hwords]
      refine if_congr ?_ rfl rfl
      refine and_congr_right fun h3 => and_congr_right fun _ => ?_
      rw [List.mem_cons, not_or]
      exact and_iff_right_of_imp fun _ heq => hj (by omega)

/-- `alloc_block` takes the top of the list. -/
theorem allocBlock_spec (hwf : f.freeList.Wf 29 0xffffffff nodes)
    (hpos : f.freeList.top 29 ≠ 0) :
    (f.freeList.Exhausted 29 0xffffffff ∧ allocBlock f = (.error .diskSpace, f)) ∨
    (¬ f.freeList.Exhausted 29 0xffffffff ∧ ∃ f',
      allocBlock f = (.ok (f.freeList.top 29), f') ∧ f.ListOnly (fun _ => False) f' ∧
      ∀ rest, 0 ∉ rest → FreeList.Agree 29 rest (f.freeList.popped 29) f'.freeList) := by
  have hle : ((f 0).word 2).toNat ≤ 29 := hwf.nfree_le
  unfold allocBlock
  rw [getNfree, bind_of_ok (word_apply _ _ f), decide_eq_false (by simpa using hle), raiseIf_false,
    pure_bind_apply]
  by_cases hn : (f 0).word 2 = 0
  · have hnfree : f.freeList.nfree = 0 := congrArg UInt32.toNat hn
    rw [if_pos hn, getLastFreeBlock, bind_of_ok (word_apply _ _ f)]
    by_cases hstop : (f 0).word (3 + (s5NblksPerFnode - 1)) = 0xffffffff
    · rw [if_pos hstop]
      exact Or.inl ⟨⟨hnfree, hstop⟩, rfl⟩
    · rw [if_neg hstop]
      have htop : f.freeList.top 29 = (f 0).word (3 + (s5NblksPerFnode - 1)) := if_pos hnfree
      rw [htop] at hpos ⊢
      set b := (f 0).word (3 + (s5NblksPerFnode - 1)) with hb
      have hbpos : b.toNat ≠ 0 := fun h => hpos (UInt32.toNat_inj.mp h)
      obtain ⟨f1, hload, hblocks, hwords, -, -⟩ := loadSlots hbpos f
      have hlast : (f1 b.toNat).word (s5NblksPerFnode - 1) = (f b.toNat).word 29 := by
        rw [hblocks _ hbpos]
        rfl
      refine Or.inr ⟨fun h => hstop h.2,
        (f1.setWord 0 32 ((f b.toNat).word 29)).setWord 0 2 29, ?_, ⟨fun c hc _ => ?_, fun j hj => ?_⟩,
        fun rest hrest => ?_⟩
      · rw [bind_of_ok hload]
        have hlink : (word b.toNat (s5NblksPerFnode - 1) >>= setLastFreeBlock) f1 =
            (.ok (), f1.setWord 0 32 ((f b.toNat).word 29)) := by
          rw [bind_of_ok (word_apply _ _ f1), hlast]
          rfl
        exact bind_of_ok hlink
      · rw [Simfile.setWord_of_ne hc, Simfile.setWord_of_ne hc, hblocks c hc]
      · rw [Simfile.word_setWord_of_ne (by omega), Simfile.word_setWord_of_ne (by omega), hwords,
          if_neg (by omega)]
      · rw [FreeList.popped, if_pos hnfree]
        refine ⟨?_, fun i hi => ?_, fun c hc i _ => ?_⟩
        · change (((f1.setWord 0 32 _).setWord 0 2 29 0).word 2).toNat = 29
          rw [Simfile.word_setWord_self]
          rfl
        · change ((f1.setWord 0 32 _).setWord 0 2 29 0).word (3 + i) = (f b.toNat).word i
          rw [Simfile.word_setWord_of_ne (by omega), Simfile.word_setWord]
          by_cases h29 : i = 29
          · subst h29
            rw [if_pos ⟨rfl, rfl⟩]
          · have hsub3 : 3 + i - 3 = i := by omega
            rw [if_neg fun h => h29 (by omega), hwords,
              if_pos ⟨by omega, by omega, List.not_mem_nil⟩, hsub3]
        · have hc0 : c.toNat ≠ 0 := fun h => hrest ((UInt32.toNat_inj (b := 0)).mp h ▸ hc)
          change ((f1.setWord 0 32 _).setWord 0 2 29 c.toNat).word i = (f c.toNat).word i
          rw [Simfile.setWord_of_ne hc0, Simfile.setWord_of_ne hc0, hblocks _ hc0]
  · have hnfree : f.freeList.nfree ≠ 0 := fun h => hn (UInt32.toNat_inj.mp h)
    have hpred : ((f 0).word 2 - 1).toNat = ((f 0).word 2).toNat - 1 :=
      UInt32.toNat_sub_of_le _ _ (by
        rw [UInt32.le_iff_toNat_le]
        exact Nat.pos_of_ne_zero hnfree)
    have hlt : ((f 0).word 2).toNat - 1 < 29 := by
      have : ((f 0).word 2).toNat ≠ 0 := hnfree
      omega
    rw [if_neg hn]
    refine Or.inr ⟨fun h => hnfree h.1, f.setWord 0 2 ((f 0).word 2 - 1), ?_, ⟨fun c hc _ => ?_,
      fun j hj => ?_⟩, fun rest hrest => ?_⟩
    · rw [setNfree, bind_of_ok (setWord_apply _ _ _ f), bind_of_ok (word_apply _ _ _),
        Simfile.word_setWord_self, hpred, getFreeBlock_apply hlt,
        Simfile.word_setWord_of_ne (by omega), FreeList.top, if_neg hnfree]
      rfl
    · exact Simfile.setWord_of_ne hc
    · exact Simfile.word_setWord_of_ne (by omega)
    · rw [FreeList.popped, if_neg hnfree]
      refine ⟨?_, fun i _ => ?_, fun c hc i _ => ?_⟩
      · change ((f.setWord 0 2 _ 0).word 2).toNat = ((f 0).word 2).toNat - 1
        rw [Simfile.word_setWord_self, hpred]
      · exact Simfile.word_setWord_of_ne (by omega)
      · have hc0 : c.toNat ≠ 0 := fun h => hrest ((UInt32.toNat_inj (b := 0)).mp h ▸ hc)
        exact congrArg (Block.word · i) (Simfile.setWord_of_ne hc0)

/-! ### Release -/

/-- The file after `done` slots of the head were written to block `b`. -/
structure Saved (b : Nat) (f : Simfile) (rest : List Nat) (f' : Simfile) : Prop where
  blocks : ∀ c, c ≠ b → f' c = f c
  words : ∀ j, (f' b).word j = if j < 29 ∧ j ∉ rest then (f 0).word (3 + j) else (f b).word j
  sub : ∀ i ∈ rest, i < 29
  nodup : rest.Nodup

theorem saveSlots {b : Nat} (hb : b ≠ 0) (f : Simfile) :
    ∃ f', each (fun i => getFreeBlock i >>= setWord b i)
        (List.range (s5NblksPerFnode - 1)) f = (.ok (), f') ∧ Saved b f [] f' := by
  refine each_ok (I := Saved b f) ⟨fun _ _ => rfl, fun j => ?_, fun i hi => by simpa using hi,
    List.nodup_range⟩ ?_
  · rw [if_neg]
    rintro ⟨h29, hmem⟩
    exact hmem (List.mem_range.mpr (by simpa using h29))
  rintro i rest t ⟨hblocks, hwords, hsub, hnodup⟩
  obtain ⟨hi, hnodup⟩ := List.nodup_cons.mp hnodup
  have hlt := hsub i List.mem_cons_self
  refine ⟨t.setWord b i ((f 0).word (3 + i)), ?_, fun c hc => ?_, fun j => ?_,
    fun k hk => hsub k (List.mem_cons_of_mem _ hk), hnodup⟩
  · rw [bind_of_ok (getFreeBlock_apply hlt t), hblocks 0 hb.symm]
    rfl
  · rw [Simfile.setWord_of_ne hc, hblocks c hc]
  · rw [Simfile.word_setWord]
    by_cases hj : j = i
    · subst hj
      rw [if_pos ⟨rfl, rfl⟩, if_pos ⟨hlt, hi⟩]
    · rw [if_neg fun h => hj h.2, hwords]
      refine if_congr ?_ rfl rfl
      refine and_congr_right fun _ => ?_
      rw [List.mem_cons, not_or]
      exact and_iff_right hj

/-- `Block.free` returns the block to the list. -/
theorem free_spec (hle : f.freeList.nfree ≤ 29) (hb : b ≠ 0) (hnodes : 0 ∉ nodes)
    (hfresh : b ∉ nodes) :
    ∃ f', Block.free b f = (.ok (), f') ∧ f.ListOnly (· = b.toNat) f' ∧
      FreeList.Agree 29 (f.freeList.pushedNodes 29 nodes b) (f.freeList.pushed 29 b)
        f'.freeList := by
  have hle : ((f 0).word 2).toNat ≤ 29 := hle
  have hb0 : b.toNat ≠ 0 := fun h => hb (UInt32.toNat_inj.mp h)
  have hnode0 {c : UInt32} (hc : c ∈ nodes) : c.toNat ≠ 0 := fun h =>
    hnodes ((UInt32.toNat_inj (b := 0)).mp h ▸ hc)
  unfold Block.free
  rw [getNfree, bind_of_ok (word_apply _ _ f)]
  by_cases hfull : ((f 0).word 2).toNat < s5NblksPerFnode - 1
  · have hnfree : f.freeList.nfree ≠ 29 := ne_of_lt hfull
    have hlt : ((f 0).word 2).toNat < 29 := hfull
    have hsucc : ((f 0).word 2 + 1).toNat = ((f 0).word 2).toNat + 1 := by
      rw [UInt32.toNat_add, UInt32.toNat_one]
      omega
    rw [if_pos hfull, bind_of_ok (setFreeBlock_apply hlt _ f), setNfree, FreeList.pushedNodes,
      FreeList.pushed, if_neg hnfree, if_neg hnfree]
    refine ⟨_, setWord_apply _ _ _ _, ⟨fun c hc _ => ?_, fun j hj => ?_⟩, ?_, fun i _ => ?_, fun c hc i _ => ?_⟩
    · rw [Simfile.setWord_of_ne hc, Simfile.setWord_of_ne hc]
    · rw [Simfile.word_setWord_of_ne (by omega), Simfile.word_setWord_of_ne (by omega)]
    · change ((Simfile.setWord _ 0 2 _ 0).word 2).toNat = ((f 0).word 2).toNat + 1
      rw [Simfile.word_setWord_self, hsucc]
    · change (Simfile.setWord _ 0 2 _ 0).word (3 + i) =
        Function.update f.freeList.slots f.freeList.nfree b i
      rw [Simfile.word_setWord_of_ne (by omega), Simfile.word_setWord, Function.update_apply]
      refine if_congr ?_ rfl rfl
      change 0 = 0 ∧ 3 + i = 3 + ((f 0).word 2).toNat ↔ i = ((f 0).word 2).toNat
      omega
    · change (Simfile.setWord _ 0 2 _ c.toNat).word i = (f c.toNat).word i
      rw [Simfile.setWord_of_ne (hnode0 hc), Simfile.setWord_of_ne (hnode0 hc)]
  · have hnfree : f.freeList.nfree = 29 := by
      change ((f 0).word 2).toNat = 29
      simp at hfull
      omega
    obtain ⟨f1, hsave, hblocks, hwords, -, -⟩ := saveSlots hb0 f
    have h0 : f1 0 = f 0 := hblocks 0 hb0.symm
    have hlink : (getLastFreeBlock >>= setWord b.toNat (s5NblksPerFnode - 1)) f1 =
        (.ok (), f1.setWord b.toNat 29 ((f 0).word 32)) := by
      rw [getLastFreeBlock, bind_of_ok (word_apply _ _ f1), h0]
      rfl
    rw [if_neg hfull, bind_of_ok hsave, bind_of_ok hlink, setLastFreeBlock,
      bind_of_ok (setWord_apply _ _ _ _), setNfree, FreeList.pushedNodes, FreeList.pushed,
      if_pos hnfree, if_pos hnfree]
    refine ⟨_, setWord_apply _ _ _ _, ⟨fun c hc hcb => ?_, fun j hj => ?_⟩, ?_, fun i hi => ?_, fun c hc i hi => ?_⟩
    · rw [Simfile.setWord_of_ne hc, Simfile.setWord_of_ne hc, Simfile.setWord_of_ne hcb,
        hblocks c hcb]
    · rw [Simfile.word_setWord_of_ne (by omega),
        Simfile.word_setWord_of_ne (by simp; omega), Simfile.setWord_of_ne hb0.symm, h0]
    · change ((Simfile.setWord _ 0 2 0 0).word 2).toNat = 0
      rw [Simfile.word_setWord_self]
      rfl
    · change (Simfile.setWord _ 0 2 0 0).word (3 + i) = Function.update f.freeList.slots 29 b i
      rw [Simfile.word_setWord_of_ne (by omega), Simfile.word_setWord, Function.update_apply]
      by_cases hi29 : i = 29
      · subst hi29
        rw [if_pos ⟨rfl, rfl⟩, if_pos rfl]
      · rw [if_neg (by simp; omega), if_neg hi29, Simfile.setWord_of_ne hb0.symm, h0]
        rfl
    · have hc0 : c.toNat ≠ 0 := by
        rcases List.mem_cons.mp hc with rfl | hc
        · exact hb0
        · exact hnode0 hc
      change (Simfile.setWord _ 0 2 0 c.toNat).word i =
        Function.update f.freeList.node b f.freeList.slots c i
      rw [Simfile.setWord_of_ne hc0, Simfile.setWord_of_ne hc0, Simfile.word_setWord]
      by_cases hcb : c = b
      · subst hcb
        simp only [Function.update_self]
        by_cases hi29 : i = 29
        · subst hi29
          rw [if_pos ⟨trivial, rfl⟩]
          rfl
        · rw [if_neg fun h => hi29 h.2, hwords, if_pos (by simp; omega)]
          rfl
      · have hne : c.toNat ≠ b.toNat := fun h => hcb (UInt32.toNat_inj.mp h)
        rw [if_neg fun h => hne h.1, hblocks _ hne, Function.update_of_ne hcb]
        rfl

/-! ### The list `format` builds -/

theorem pack_apply {n : Nat} (h : n < 4294967296) (f : Simfile) :
    pack n f = (.ok (UInt32.ofNat n), f) := by
  rw [pack, if_pos h]
  rfl

theorem Simfile.setWord_comm_of_ne {b c i j : Nat} {v w : UInt32} (h : b ≠ c) (f : Simfile) :
    (f.setWord b i v).setWord c j w = (f.setWord c j w).setWord b i v := by
  unfold Simfile.setWord
  rw [Function.update_of_ne h.symm, Function.update_of_ne h, Function.update_comm h]

theorem Simfile.setWord_comm_index {b i j : Nat} {v w : UInt32} (h : i ≠ j) (f : Simfile) :
    (f.setWord b i v).setWord b j w = (f.setWord b j w).setWord b i v := by
  unfold Simfile.setWord
  rw [Function.update_self, Function.update_self, Function.update_idem, Function.update_idem,
    Block.setWord_comm _ h]

theorem Simfile.setWord_setWord {b i : Nat} {v w : UInt32} (f : Simfile) :
    (f.setWord b i v).setWord b i w = f.setWord b i w := by
  unfold Simfile.setWord
  rw [Function.update_self, Function.update_idem, Block.setWord_setWord]

/-- Saving the slots does not depend on the count of slots in use. -/
theorem saveSlots_setNfree {b : Nat} (hb : b ≠ 0) (w : UInt32) {xs : List Nat}
    (hxs : ∀ i ∈ xs, i < 29) {f f' : Simfile}
    (h : each (fun i => getFreeBlock i >>= setWord b i) xs f = (.ok (), f')) :
    each (fun i => getFreeBlock i >>= setWord b i) xs (f.setWord 0 2 w) =
      (.ok (), f'.setWord 0 2 w) := by
  induction xs generalizing f with
  | nil =>
      cases h
      rfl
  | cons i xs ih =>
      have hi := hxs i List.mem_cons_self
      have hround (g : Simfile) : (getFreeBlock i >>= setWord b i) g =
          (.ok (), g.setWord b i ((g 0).word (3 + i))) := bind_of_ok (getFreeBlock_apply hi g)
      rw [each, bind_of_ok (hround _)] at h ⊢
      rw [Simfile.word_setWord_of_ne (by omega), Simfile.setWord_comm_of_ne hb.symm]
      exact ih (fun k hk => hxs k (List.mem_cons_of_mem _ hk)) h

/-- The loop of `format` builds the list that freeing the blocks in the same order builds. -/
theorem formatBlocks_eq_frees {l : List Nat} (hnums : ∀ n ∈ l, n ≠ 0 ∧ n < 4294967296)
    {i : Nat} (hi : i ≤ 29) (f : Simfile) :
    (formatBlocks i l >>= fun nfree => setNfree (UInt32.ofNat nfree)) f =
      each (fun num => pack num >>= Block.free) l (f.setWord 0 2 (UInt32.ofNat i)) := by
  induction l generalizing i f with
  | nil => rfl
  | cons num nums ih =>
      obtain ⟨hpos, hlt⟩ := hnums num List.mem_cons_self
      have hnums' : ∀ n ∈ nums, n ≠ 0 ∧ n < 4294967296 := fun n hn =>
        hnums n (List.mem_cons_of_mem _ hn)
      have hnum : (UInt32.ofNat num).toNat = num := by
        rw [UInt32.toNat_ofNat']
        omega
      have hcount : (((f.setWord 0 2 (UInt32.ofNat i)) 0).word 2).toNat = i := by
        rw [Simfile.word_setWord_self, UInt32.toNat_ofNat']
        omega
      rw [each, formatBlocks]
      by_cases h29 : i = s5NblksPerFnode - 1
      · have hfull : ¬ i < s5NblksPerFnode - 1 := by omega
        obtain ⟨f1, hsave, hblocks, -⟩ := saveSlots hpos f
        have hsave' := saveSlots_setNfree hpos (UInt32.ofNat i) (by simp) hsave
        have h0 : f1 0 = f 0 := hblocks 0 hpos.symm
        have hlink (g : Simfile) :
            (getLastFreeBlock >>= setWord num (s5NblksPerFnode - 1)) g =
              (.ok (), g.setWord num 29 ((g 0).word 32)) := bind_of_ok (word_apply _ _ g)
        have hlast (g : Simfile) : (pack num >>= setLastFreeBlock) g =
            (.ok (), g.setWord 0 32 (UInt32.ofNat num)) := bind_of_ok (pack_apply hlt g)
        have hfree : (pack num >>= Block.free) (f.setWord 0 2 (UInt32.ofNat i)) = (.ok (),
            ((f1.setWord num 29 ((f 0).word 32)).setWord 0 32 (UInt32.ofNat num)).setWord 0 2 0) := by
          rw [bind_of_ok (pack_apply hlt _), Block.free, getNfree, bind_of_ok (word_apply _ _ _),
            hcount, if_neg hfull, hnum, bind_of_ok hsave', bind_of_ok (hlink _), setLastFreeBlock,
            bind_of_ok (setWord_apply _ _ _ _), setNfree, setWord_apply]
          rw [Simfile.word_setWord_of_ne (by omega), h0, Simfile.setWord_comm_of_ne hpos.symm,
            Simfile.setWord_comm_index (by simp), Simfile.setWord_setWord,
            Simfile.setWord_comm_index (by simp)]
          rfl
        rw [if_pos h29, bind_of_ok hfree]
        have hstep : (each (fun j => getFreeBlock j >>= setWord num j)
              (List.range (s5NblksPerFnode - 1)) >>= fun _ =>
            (getLastFreeBlock >>= setWord num (s5NblksPerFnode - 1)) >>= fun _ =>
            (pack num >>= setLastFreeBlock) >>= fun _ => formatBlocks 0 nums) f =
              formatBlocks 0 nums ((f1.setWord num 29 ((f 0).word 32)).setWord 0 32
                (UInt32.ofNat num)) := by
          rw [bind_of_ok hsave, bind_of_ok (hlink _), bind_of_ok (hlast _), h0]
        rw [bind_apply, hstep, ← bind_apply]
        exact ih hnums' (Nat.zero_le _) _
      · have hroom : i < s5NblksPerFnode - 1 := by
          simp at h29 ⊢
          omega
        have hsucc : UInt32.ofNat i + 1 = UInt32.ofNat (i + 1) := by
          simp
        have hset (g : Simfile) : (pack num >>= setFreeBlock i) g =
            (.ok (), g.setWord 0 (3 + i) (UInt32.ofNat num)) := by
          rw [bind_of_ok (pack_apply hlt g), setFreeBlock_apply hroom]
        have hfree : (pack num >>= Block.free) (f.setWord 0 2 (UInt32.ofNat i)) = (.ok (),
            (f.setWord 0 (3 + i) (UInt32.ofNat num)).setWord 0 2 (UInt32.ofNat (i + 1))) := by
          rw [bind_of_ok (pack_apply hlt _), Block.free, getNfree, bind_of_ok (word_apply _ _ _),
            hcount, if_pos hroom, bind_of_ok (setFreeBlock_apply hroom _ _), setNfree,
            setWord_apply, Simfile.word_setWord_self, hsucc]
          rw [Simfile.setWord_comm_index (by omega), Simfile.setWord_setWord,
            Simfile.setWord_comm_index (by omega)]
        rw [if_neg h29, bind_of_ok hfree]
        have hstep : ((pack num >>= setFreeBlock i) >>= fun _ => formatBlocks (i + 1) nums) f =
            formatBlocks (i + 1) nums (f.setWord 0 (3 + i) (UInt32.ofNat num)) := bind_of_ok (hset f)
        rw [bind_apply, hstep, ← bind_apply]
        exact ih hnums' (by simp at hroom; omega) _

end CodingSample.Fsmaker
