import CodingSample.S5fs.Reading

/-!
# Editing a file

A read or a write of a file brings its pages into core one after another, changes them and marks
them dirty. What such a step does to the file, and what it leaves alone, is collected in `Edited`;
what it does to the block map is in `Extended`.
-/

namespace CodingSample.S5fs

open Prog

/-- `S5_MAX_FILE_SIZE` -/
@[simp] def s5MaxFileSize : Nat := 4308992

/-- File `ino` has the size and the bytes given, and everything else is as it was. -/
structure Edited (ino size : Nat) (bytes : Nat → UInt8) (s s' : S5) : Prop where
  numInodes : s'.super.s5sNumInodes = s.super.s5sNumInodes
  inode : s'.inodes ino = { s.inodes ino with
    s5Un := size
    s5DirectBlocks := (s'.inodes ino).s5DirectBlocks
    s5IndirectBlock := (s'.inodes ino).s5IndirectBlock }
  others : ∀ j, j ≠ ino → s'.inodes j = s.inodes j
  byteAt : ∀ pos < s5MaxFileSize, s'.byteAt ino pos = bytes pos
  content : ∀ j < s.super.s5sNumInodes, (s.inodes j).IsFile → j ≠ ino → ∀ n < s5MaxFileBlocks,
    s'.content j n = s.content j n
  absent : ∀ i, s.vnodes i = none → s'.vnodes i = none
  present : ∀ i v, s.vnodes i = some v → ∃ v', s'.vnodes i = some v' ∧
    v.Grows { v' with vnLen := v.vnLen } ∧ (i ≠ ino → v'.vnLen = v.vnLen)

/-- The block map of file `ino` may have grown: the pages in `written` have a block unless there
was none left, and no page past `top` was looked for. -/
structure Extended (ino top : Nat) (written : Nat → Prop) (s s' : S5) : Prop where
  fileBlock : ∀ n < s5MaxFileBlocks, (written n → s.fileBlock ino n ≠ 0) →
    s'.fileBlock ino n = s.fileBlock ino n
  indirect : (s.inodes ino).s5IndirectBlock ≠ 0 →
    (s'.inodes ino).s5IndirectBlock = (s.inodes ino).s5IndirectBlock
  direct : top < s5NdirectBlocks →
    (s'.inodes ino).s5IndirectBlock = (s.inodes ino).s5IndirectBlock
  mapped : (∀ n < s5MaxFileBlocks, written n → s'.fileBlock ino n ≠ 0) ∨ s'.NoFree
  noFree : s.NoFree → s'.NoFree
  /-- What the map of the file gained is what all maps together gained. -/
  taken : (allMapped s').card + (S5fs.mapped s.bview (s.inodes ino)).card =
    (allMapped s).card + (S5fs.mapped s'.bview (s'.inodes ino)).card

variable {D : Multiset UInt32} {s s' s'' : S5} {ino n top top' size size' : Nat}
  {bytes bytes' : Nat → UInt8} {written written' : Nat → Prop} {v v' v'' : Vnode}

namespace Edited

theorem trans (h : Edited ino size bytes s s') (h' : Edited ino size' bytes' s' s'') :
    Edited ino size' bytes' s s'' := by
  refine ⟨h'.numInodes.trans h.numInodes, ?_, fun j hj => (h'.others j hj).trans (h.others j hj),
    h'.byteAt, ?_, fun i hi => h'.absent i (h.absent i hi), ?_⟩
  · rw [h'.inode, h.inode]
  · intro j hj hfile hne n hn
    have hsame := h.others j hne
    rw [h'.content j (h.numInodes ▸ hj) (hsame ▸ hfile) hne n hn, h.content j hj hfile hne n hn]
  · intro i v hv
    obtain ⟨v1, hv1, hgrows, hlen⟩ := h.present i v hv
    obtain ⟨v2, hv2, hgrows', hlen'⟩ := h'.present i v1 hv1
    refine ⟨v2, hv2, ⟨hgrows'.mode.trans hgrows.mode, rfl, hgrows'.devid.trans hgrows.devid,
      hgrows'.held.trans hgrows.held, fun n hn => hgrows'.pages n (hgrows.pages n hn)⟩,
      fun hi => (hlen' hi).trans (hlen hi)⟩

theorem congr (h : Edited ino size bytes s s')
    (heq : ∀ pos < s5MaxFileSize, bytes' pos = bytes pos) : Edited ino size bytes' s s' :=
  { h with byteAt := fun pos hpos => (h.byteAt pos hpos).trans (heq pos hpos).symm }

theorem isFile_iff (h : Edited ino size bytes s s') (j : Nat) :
    (s'.inodes j).IsFile ↔ (s.inodes j).IsFile := by
  by_cases hj : j = ino
  · subst hj
    rw [h.inode]
    rfl
  · rw [h.others j hj]

end Edited

namespace Extended

theorem refl (ino top : Nat) (s : S5) : Extended ino top (fun _ => False) s s :=
  ⟨fun _ _ _ => rfl, fun _ => rfl, fun _ => rfl, Or.inl fun _ _ hfalse => hfalse.elim, id, rfl⟩

theorem trans (h : Extended ino top written s s') (h' : Extended ino top' written' s' s'') :
    Extended ino (max top top') (fun n => written n ∨ written' n) s s'' := by
  refine ⟨?_, ?_, ?_, ?_, fun hfree => h'.noFree (h.noFree hfree), ?_⟩
  · intro n hn hnew
    have hfirst := h.fileBlock n hn fun hw => hnew (Or.inl hw)
    rw [h'.fileBlock n hn, hfirst]
    intro hw
    rw [hfirst]
    exact hnew (Or.inr hw)
  · intro hind
    have hfirst := h.indirect hind
    rw [h'.indirect (hfirst ▸ hind), hfirst]
  · intro htop
    obtain ⟨hfirst, hsecond⟩ := max_lt_iff.mp htop
    rw [h'.direct hsecond, h.direct hfirst]
  · rcases h.mapped with hall | hnone
    · rcases h'.mapped with hall' | hnone
      · refine Or.inl fun n hn hw => ?_
        rcases hw with hw | hw
        · have hne := hall n hn hw
          rw [h'.fileBlock n hn fun _ => hne]
          exact hne
        · exact hall' n hn hw
      · exact Or.inr hnone
    · exact Or.inr (h'.noFree hnone)
  · have hfirst := h.taken
    have hsecond := h'.taken
    omega

theorem mono (h : Extended ino top written s s') (htop : top ≤ top')
    (hw : ∀ n < s5MaxFileBlocks, written n ↔ written' n) : Extended ino top' written' s s' := by
  refine ⟨?_, h.indirect, fun hlt => h.direct (lt_of_le_of_lt htop hlt), ?_, h.noFree, h.taken⟩
  · intro n hn hnew
    exact h.fileBlock n hn fun hwn => hnew ((hw n hn).mp hwn)
  · exact h.mapped.imp_left fun hall n hn hwn => hall n hn ((hw n hn).mpr hwn)

theorem reaches (h : Extended ino top written s s') (hreach : Reaches s ino n) :
    Reaches s' ino n := by
  refine hreach.imp_right fun hind => ?_
  rw [h.indirect hind]
  exact hind

/-- A step that changes neither maps nor the free list. -/
theorem of_same (hsuper : s'.super = s.super) (hview : s'.bview = s.bview)
    (hmap : ∀ j, (s'.inodes j).s5Type = (s.inodes j).s5Type ∧
      (s'.inodes j).s5DirectBlocks = (s.inodes j).s5DirectBlocks ∧
      (s'.inodes j).s5IndirectBlock = (s.inodes j).s5IndirectBlock) :
    Extended ino top (fun _ => False) s s' := by
  have hmapped (j : Nat) : S5fs.mapped s'.bview (s'.inodes j) =
      S5fs.mapped s.bview (s.inodes j) := by
    obtain ⟨htype, hdirect, hind⟩ := hmap j
    unfold S5fs.mapped
    rw [htype, hdirect, hind, hview]
  refine ⟨?_, fun _ => (hmap ino).2.2, fun _ => (hmap ino).2.2,
    Or.inl fun _ _ hfalse => hfalse.elim, ?_, ?_⟩
  · intro n _ _
    unfold S5.fileBlock
    rw [(hmap ino).2.1, (hmap ino).2.2, hview]
  · intro hfree
    unfold S5.NoFree
    rw [hsuper]
    exact hfree
  · have hall : allMapped s' = allMapped s := by
      unfold allMapped
      rw [hsuper]
      exact Finset.sum_congr rfl fun j _ => hmapped j
    rw [hall, hmapped]

end Extended

variable [BlockDev]

/-! ### Growing the map -/

/-- What one file gained is what all files together gained. -/
theorem Grew.taken {P : Nat → Prop} (h : FileAt D 0 ino s) (hacc : Accounted D 0 s')
    (hgrew : Grew ino P s s') :
    (allMapped s').card + (S5fs.mapped s.bview (s.inodes ino)).card =
      (allMapped s).card + (S5fs.mapped s'.bview (s'.inodes ino)).card := by
  obtain ⟨nodes', hl'⟩ := hacc
  have hfile' : (s'.inodes ino).IsFile := (hgrew.isFile_iff ino).mpr h.isFile
  have hmem : ino ∈ Finset.range s.super.s5sNumInodes := Finset.mem_range.mpr h.lt
  have hrest : ∑ j ∈ (Finset.range s.super.s5sNumInodes).erase ino,
        S5fs.mapped s'.bview (s'.inodes j) =
      ∑ j ∈ (Finset.range s.super.s5sNumInodes).erase ino, S5fs.mapped s.bview (s.inodes j) := by
    apply Finset.sum_congr rfl
    intro j hj
    obtain ⟨hne, hlt⟩ := Finset.mem_erase.mp hj
    have hj := Finset.mem_range.mp hlt
    rw [hgrew.others j hne]
    apply mapped_congr
    intro hfile hind
    refine (hgrew.page _ (Ledger.indirect_mem hj hfile hind) ?_).1
    intro heq
    have hind' : (s'.inodes ino).s5IndirectBlock ≠ 0 := heq ▸ hind
    apply hl'.indirect_ne (hgrew.numInodes ▸ h.lt) (hgrew.numInodes ▸ hj) hfile'
      ((hgrew.isFile_iff j).mpr hfile) hind' hne
    rw [hgrew.others j hne]
    exact heq
  have hnew : allMapped s' = S5fs.mapped s'.bview (s'.inodes ino) +
      ∑ j ∈ (Finset.range s.super.s5sNumInodes).erase ino, S5fs.mapped s.bview (s.inodes j) := by
    rw [← hrest, allMapped, hgrew.numInodes]
    exact (Finset.add_sum_erase _ _ hmem).symm
  have hold : allMapped s = S5fs.mapped s.bview (s.inodes ino) +
      ∑ j ∈ (Finset.range s.super.s5sNumInodes).erase ino, S5fs.mapped s.bview (s.inodes j) :=
    (Finset.add_sum_erase _ _ hmem).symm
  rw [hnew, hold, Multiset.card_add, Multiset.card_add]
  omega

/-- No block is free exactly when all are mapped. -/
theorem Accounted.noFree_iff (h : Accounted D 0 s) :
    s.NoFree ↔ (allMapped s).card = D.card := by
  obtain ⟨nodes, hl⟩ := h
  have htotal := congrArg Multiset.card hl.total
  rw [add_zero, Multiset.card_add] at htotal
  rw [← hl.listed_eq_zero_iff, ← Multiset.card_eq_zero]
  omega

theorem Accounted.allMapped_le (h : Accounted D 0 s) : (allMapped s).card ≤ D.card := by
  obtain ⟨nodes, hl⟩ := h
  have htotal := congrArg Multiset.card hl.total
  rw [add_zero, Multiset.card_add] at htotal
  omega

theorem Grew.noFree {P : Nat → Prop} (h : Accounted D 0 s) (hacc : Accounted D 0 s')
    (hgrew : Grew ino P s s') (hfree : s.NoFree) : s'.NoFree := by
  rw [hacc.noFree_iff]
  apply le_antisymm hacc.allMapped_le
  rw [← h.noFree_iff.mp hfree]
  obtain ⟨nodes, hl⟩ := h
  apply Multiset.card_le_card
  rw [Multiset.le_iff_subset (Multiset.nodup_add.mp hl.nodup).2.1]
  exact fun c hc => hgrew.mapped c hc

theorem Grew.extended {P : Nat → Prop} (h : FileAt D 0 ino s) (hacc : Accounted D 0 s')
    (hgrew : Grew ino P s s') (htop : top < s5NdirectBlocks →
      (s'.inodes ino).s5IndirectBlock = (s.inodes ino).s5IndirectBlock)
    (hmapped : (∀ n < s5MaxFileBlocks, P n → s'.fileBlock ino n ≠ 0) ∨ s'.NoFree) :
    Extended ino top P s s' :=
  ⟨fun n _ hn => hgrew.fileBlock ino h.lt h.isFile n fun _ => hn, hgrew.indirect, htop, hmapped,
    hgrew.noFree h.accounted hacc, hgrew.taken h hacc⟩

/-! ### Steps on a file in core -/

/-- The file is in core and someone holds it, and each of its pages was looked up when it was
brought in. -/
structure FileHeld (D : Multiset UInt32) (ino : Nat) (v : Vnode) (s : S5) : Prop where
  inv : PageInv D s
  held : HeldFile D ino v s
  reached : ∀ n ∈ v.vnRespages, Reaches s ino n
  len : v.vnLen = (s.inodes ino).s5Size
  small : (s.inodes ino).s5Size ≤ s5MaxFileSize

/-- What some steps of a read or a write leave. -/
structure Worked (D : Multiset UInt32) (ino top : Nat) (written : Nat → Prop) (size : Nat)
    (bytes : Nat → UInt8) (v : Vnode) (s : S5) (v' : Vnode) (s' : S5) : Prop where
  file : FileHeld D ino v' s'
  grows : v.Grows { v' with vnLen := v.vnLen }
  edited : Edited ino size bytes s s'
  extended : Extended ino top written s s'

namespace Worked

theorem trans (h : Worked D ino top written size bytes v s v' s')
    (h' : Worked D ino top' written' size' bytes' v' s' v'' s'') :
    Worked D ino (max top top') (fun n => written n ∨ written' n) size' bytes' v s v'' s'' := by
  refine ⟨h'.file, ⟨h'.grows.mode.trans h.grows.mode, rfl, h'.grows.devid.trans h.grows.devid,
    h'.grows.held.trans h.grows.held, fun n hn => h'.grows.pages n (h.grows.pages n hn)⟩,
    h.edited.trans h'.edited, h.extended.trans h'.extended⟩

theorem weaken (h : Worked D ino top written size bytes v s v' s') (htop : top ≤ top')
    (hw : ∀ n < s5MaxFileBlocks, written n ↔ written' n)
    (heq : ∀ pos < s5MaxFileSize, bytes' pos = bytes pos) :
    Worked D ino top' written' size bytes' v s v' s' :=
  ⟨h.file, h.grows, h.edited.congr heq, h.extended.mono htop hw⟩

end Worked

/-- A step that keeps what the pages of all files hold. -/
theorem Grew.edited {P : Nat → Prop} (h : HeldFile D ino v s) (hgrew : Grew ino P s s')
    (hvnodes : s'.vnodes = Function.update s.vnodes ino (some v')) (hgrows : v.Grows v')
    (hcontent : ∀ n < s5MaxFileBlocks, s'.content ino n = s.content ino n) :
    Edited ino (s.inodes ino).s5Size (s.byteAt ino) s s' := by
  refine ⟨hgrew.numInodes, hgrew.inode, hgrew.others, ?_, ?_, ?_, ?_⟩
  · intro pos hpos
    simp only [s5MaxFileSize] at hpos
    rw [S5.byteAt, S5.byteAt, hcontent _ (by simp only [s5MaxFileBlocks]; omega)]
  · intro j hj hfile hne n hn
    have hview := hgrew.fileView hj hfile hn fun heq => absurd heq hne
    rw [S5.content, S5.content, hvnodes, Function.update_of_ne hne]
    simp only [hview]
  · intro i hi
    rw [hvnodes, Function.update_of_ne]
    · exact hi
    · rintro rfl
      rw [h.vnode] at hi
      cases hi
  · intro i w hw
    by_cases hi : i = ino
    · subst hi
      obtain rfl : v = w := Option.some.inj (h.vnode.symm.trans hw)
      refine ⟨v', by rw [hvnodes, Function.update_self], ?_, fun hne => absurd rfl hne⟩
      rw [← hgrows.len]
      exact hgrows
    · exact ⟨w, by rw [hvnodes, Function.update_of_ne hi, hw], .refl w, fun _ => rfl⟩

theorem FileHeld.step {P : Nat → Prop} (h : FileHeld D ino v s) (hinv : PageInv D s')
    (hgrew : Grew ino P s s') (hv' : s'.vnodes ino = some v') (hgrows : v.Grows v')
    (hreached : ∀ n ∈ v'.vnRespages, n ∉ v.vnRespages → Reaches s' ino n) :
    FileHeld D ino v' s' := by
  have hcount := h.held.held
  have hsame := hgrows.held
  have hself := congrArg Inode.s5Un hgrew.inode
  refine ⟨hinv, hinv.heldFile hv' ?_ (by omega), ?_, ?_, ?_⟩
  · rw [hgrows.mode]
    exact h.held.mode
  · intro n hn
    by_cases hold : n ∈ v.vnRespages
    · refine (h.reached n hold).imp_right fun hind => ?_
      rw [hgrew.indirect hind]
      exact hind
    · exact hreached n hn hold
  · rw [hgrows.len, h.len, Inode.s5Size, Inode.s5Size, hself]
  · rw [Inode.s5Size, hself]
    exact h.small

/-! ### Bringing a page in -/

/-- A look-up that succeeds has found the way to the block. -/
theorem wlp_pframeGet_reaches (h : HeldFile D ino v s) (hpage : n ∉ v.vnRespages)
    (hmax : n < s5MaxFileBlocks) :
    wlp (pframeGet ino n) (fun r s' => r = 0 → Reaches s' ino n) s := by
  have hn : n < 524288 := lt_trans hmax (by decide)
  have hpos : 0 < v.vnRefcount := by
    have hheld := h.held
    simp only [Vnode.vnNrespages] at hheld
    omega
  unfold pframeGet
  rw [wlp_bind]
  apply wlp_getVnode
  intro w hw
  obtain rfl : v = w := Option.some.inj (h.vnode.symm.trans hw)
  rw [if_neg hpage, wlp_bind]
  rintro _ s1 halloc
  rw [pframeAlloc_apply hw hpos] at halloc
  cases halloc
  set s1 := s.setVnode ino (some (v.addPage n { v.vnFrame n with dirty := false })) with hs1
  have hfile1 : FileAt D 0 ino s1 :=
    ⟨h.fileAt.accounted.setVnode _ _, h.fileAt.lt, h.fileAt.isFile⟩
  have hread : vreadpage ino n s1 = s5fsFillpage ino (pnToAddr n) n s1 :=
    vreadpage_apply S5.vnodes_setVnode_self h.mode
  have hfill : wlp (s5fsFillpage ino (pnToAddr n) n) (fun r s' => ¬ r < 0 → Reaches s' ino n)
      s1 := by
    unfold s5fsFillpage
    refine wlp_bind_of (wlp_of_wp (wp_seekPage hfile1 hn false)) ?_
    rintro r s2 (⟨hpast, -⟩ | ⟨-, ⟨-, rfl, -⟩ | ⟨-, rfl, hsought⟩⟩)
    · exact absurd hmax (not_lt.mpr hpast)
    · rw [if_pos (by decide)]
      exact wlp_pure.mpr fun hneg => absurd (by decide) hneg
    have hreach : Reaches s2 ino n := (hsought.source rfl).1
    have hkeep {s3 : S5} (hsame : Untouched s2 s3) : Reaches s3 ino n := by
      rw [Reaches, hsame.inodes]
      exact hreach
    split
    · exact wlp_pure.mpr fun hneg => absurd ‹_› hneg
    · split
      · exact wlp_bind_of (wlp_pokePage_same _) fun _ _ hsame =>
          wlp_pure.mpr fun _ => hkeep hsame
      · exact wlp_mono (wlp_readBlock _) fun _ _ hsame _ => hkeep hsame
  rw [wlp_bind]
  intro r s2 hr
  have hreach := hfill r s2 (hread ▸ hr)
  split
  · rename_i hneg
    rw [wlp_bind]
    intro _ s3 _
    exact wlp_pure.mpr fun hzero => absurd hzero (ne_of_lt hneg)
  · rename_i hneg
    exact wlp_pure.mpr fun _ => hreach hneg

/-- The page holds what the disk has for it. -/
theorem Loaded.content (h : HeldFile D ino v s) (hpage : n ∉ v.vnRespages)
    (hloaded : Loaded D ino n v s s') {m : Nat} (hm : m < s5MaxFileBlocks) :
    s'.content ino m = s.content ino m := by
  have hv' : s'.vnodes ino = some (v.addPage n ⟨s'.fileView ino n, false⟩) := by
    rw [hloaded.vnodes, Function.update_self]
  have hview : s'.fileView ino m = s.fileView ino m :=
    hloaded.grew.fileView h.fileAt.lt h.fileAt.isFile hm fun _ hfalse => hfalse.elim
  by_cases hmn : m = n
  · subst hmn
    rw [S5.content_of_resident hv' List.mem_cons_self, S5.content_of_absent h.vnode hpage, ← hview]
    simp [Vnode.addPage, Vnode.setFrame]
  · by_cases hmem : m ∈ v.vnRespages
    · rw [S5.content_of_resident hv' (List.mem_cons_of_mem n hmem),
        S5.content_of_resident h.vnode hmem]
      simp [Vnode.addPage, Vnode.setFrame, hmn]
    · have hnot : m ∉ (v.addPage n ⟨s'.fileView ino n, false⟩).vnRespages := by
        simp [Vnode.addPage, hmn, hmem]
      rw [S5.content_of_absent hv' hnot, S5.content_of_absent h.vnode hmem, hview]

theorem Worked.refl (h : FileHeld D ino v s) (top : Nat) :
    Worked D ino top (fun _ => False) (s.inodes ino).s5Size (s.byteAt ino) v s v s := by
  refine ⟨h, .refl v, ?_, .refl ..⟩
  exact ⟨rfl, rfl, fun _ _ => rfl, fun _ _ => rfl, fun _ _ _ _ _ _ => rfl, fun _ hi => hi,
    fun _ w hw => ⟨w, hw, .refl w, fun _ => rfl⟩⟩

/-- Getting a page changes no file. -/
theorem wp_getPage (h : FileHeld D ino v s) (hn : n < 524288) :
    wp (pframeGet ino n) (fun r s' => ∃ v', Worked D ino n (fun _ => False)
      (s.inodes ino).s5Size (s.byteAt ino) v s v' s' ∧
        (r < 0 ∧ n ∉ v.vnRespages ∧ s.FillFails ino n r ∨
          r = 0 ∧ n < s5MaxFileBlocks ∧ n ∈ v'.vnRespages)) s := by
  obtain ⟨r, s', hrun, hout⟩ := wp_pframeGet h.held hn
  refine ⟨r, s', hrun, ?_⟩
  rcases hout with ⟨hpage, rfl, rfl⟩ | ⟨hpage, hneg, hfails, rfl⟩ |
    ⟨hpage, hmax, -, rfl, hloaded⟩
  · have hmax := ((h.inv.vnode ino v h.held.vnode).page n hpage).2.1
    exact ⟨v, .refl h n, Or.inr ⟨rfl, hmax, hpage⟩⟩
  · set w := v.setFrame n { v.vnFrame n with dirty := false } with hw
    have hgrows : v.Grows w := ⟨rfl, rfl, rfl, rfl, fun _ hm => hm⟩
    have hinv : PageInv D (s.setVnode ino (some w)) :=
      h.inv.setFrame h.held.vnode fun hd _ => Bool.noConfusion hd
    have hgrew : Grew ino (fun _ => False) s (s.setVnode ino (some w)) :=
      (Grew.refl ..).setVnode _ _
    have hv' : (s.setVnode ino (some w)).vnodes ino = some w := S5.vnodes_setVnode_self
    refine ⟨w, ⟨h.step hinv hgrew hv' hgrows fun m hm hnew => absurd hm hnew, hgrows,
      hgrew.edited h.held rfl hgrows ?_, .of_same rfl rfl fun _ => ⟨rfl, rfl, rfl⟩⟩,
      Or.inl ⟨hneg, hpage, hfails⟩⟩
    intro m _
    by_cases hmem : m ∈ v.vnRespages
    · have hmn : m ≠ n := fun heq => hpage (heq ▸ hmem)
      rw [S5.content_of_resident hv' hmem, S5.content_of_resident h.held.vnode hmem]
      simp [hw, Vnode.setFrame, hmn]
    · rw [S5.content_of_absent hv' hmem, S5.content_of_absent h.held.vnode hmem]
      rfl
  · set w := v.addPage n ⟨s'.fileView ino n, false⟩ with hw
    have hgrows : v.Grows w := .addPage v n _
    have hinv := h.inv.loaded h.held hpage hmax hloaded
    have hv' : s'.vnodes ino = some w := by
      rw [hloaded.vnodes, Function.update_self]
    have hreach := wlp_pframeGet_reaches h.held hpage hmax _ _ hrun rfl
    refine ⟨w, ⟨h.step hinv hloaded.grew hv' hgrows ?_, hgrows,
      hloaded.grew.edited h.held hloaded.vnodes hgrows fun m hm =>
        hloaded.content h.held hpage hm,
      hloaded.grew.extended h.held.fileAt hloaded.accounted ?_
        (Or.inl fun _ _ hfalse => hfalse.elim)⟩,
      Or.inr ⟨rfl, hmax, List.mem_cons_self⟩⟩
    · intro m hm hnew
      rcases List.mem_cons.mp hm with rfl | hm
      · exact hreach
      · exact absurd hm hnew
    · intro hlt
      rw [(wlp_pframeGet_untouched h.held hmax hpage (Or.inl hlt) _ _ hrun rfl).inodes]

/-! ### Writing to a page -/

/-- `memcpy` into a page in core. -/
theorem wp_pokeFile {off k : Nat} {src : Nat → UInt8} (h : FileHeld D ino v s)
    (hpage : n ∈ v.vnRespages) (hoff : off + k ≤ 4096) :
    wp (pokePage ino n fun d => d.copyIn off k src) (fun _ s' => ∃ v',
      Worked D ino n (fun _ => False) (s.inodes ino).s5Size
        (Block.copyIn (s.byteAt ino) (4096 * n + off) k src) v s v' s') s := by
  set w := v.setFrame n { v.vnFrame n with data := (v.vnFrame n).data.copyIn off k src } with hw
  have hgrows : v.Grows w := ⟨rfl, rfl, rfl, rfl, fun _ hm => hm⟩
  have hinv : PageInv D (s.setVnode ino (some w)) := h.inv.setFrame h.held.vnode fun hd _ => hd
  have hgrew : Grew ino (fun _ => False) s (s.setVnode ino (some w)) := (Grew.refl ..).setVnode _ _
  have hv' : (s.setVnode ino (some w)).vnodes ino = some w := S5.vnodes_setVnode_self
  have hself : (s.setVnode ino (some w)).content ino n = (s.content ino n).copyIn off k src := by
    rw [S5.content_of_resident hv' hpage, S5.content_of_resident h.held.vnode hpage]
    simp [hw, Vnode.setFrame]
  have hothers {m : Nat} (hm : m ≠ n) :
      (s.setVnode ino (some w)).content ino m = s.content ino m := by
    by_cases hmem : m ∈ v.vnRespages
    · rw [S5.content_of_resident hv' hmem, S5.content_of_resident h.held.vnode hmem]
      simp [hw, Vnode.setFrame, hm]
    · rw [S5.content_of_absent hv' hmem, S5.content_of_absent h.held.vnode hmem]
      rfl
  rw [wp_of_eq (pokePage_apply h.held.vnode hpage _)]
  refine ⟨w, h.step hinv hgrew hv' hgrows fun m hm hnew => absurd hm hnew, hgrows, ?_,
    .of_same rfl rfl fun _ => ⟨rfl, rfl, rfl⟩⟩
  refine ⟨rfl, rfl, fun _ _ => rfl, ?_, ?_, ?_, ?_⟩
  · intro pos _
    rw [S5.byteAt, Block.copyIn]
    by_cases hpos : pos / 4096 = n
    · rw [hpos, hself, Block.copyIn]
      by_cases hin : off ≤ pos % 4096 ∧ pos % 4096 < off + k
      · rw [if_pos hin, if_pos (by omega)]
        congr 1
        omega
      · rw [if_neg hin, if_neg (by omega), S5.byteAt, hpos]
    · rw [hothers hpos, if_neg (by omega), S5.byteAt]
  · intro j _ _ hne m _
    rw [S5.content, S5.content, S5.vnodes_setVnode_of_ne hne]
    rfl
  · intro i hi
    rw [S5.vnodes_setVnode_of_ne]
    · exact hi
    · rintro rfl
      rw [h.held.vnode] at hi
      cases hi
  · intro i u hu
    by_cases hi : i = ino
    · subst hi
      obtain rfl : v = u := Option.some.inj (h.held.vnode.symm.trans hu)
      exact ⟨w, hv', hgrows, fun hne => absurd rfl hne⟩
    · exact ⟨u, by rw [S5.vnodes_setVnode_of_ne hi, hu], .refl u, fun _ => rfl⟩

/-- The direct part of the map leaves the indirect block alone. -/
theorem wlp_seek_direct {t : Multiset UInt32} {seekptr : Int} (h : Accounted D t s)
    (hn : (seekptr / 4096).toNat < s5NdirectBlocks) (alloc : Bool) :
    wlp (s5SeekToBlock ino seekptr alloc) (fun _ s' =>
      (s'.inodes ino).s5IndirectBlock = (s.inodes ino).s5IndirectBlock ∧
        (alloc = false → s' = s)) s := by
  have hblocksize : ((s5BlockSize : Nat) : Int) = 4096 := rfl
  obtain ⟨nodes, hl⟩ := h
  unfold s5SeekToBlock
  rw [hblocksize, wlp_bind, kassert, wlp_check]
  intro _
  simp only [s5NdirectBlocks] at hn
  simp only []
  rw [if_neg (by simp; omega), if_pos (by simpa using hn), s5SeekDirect, wlp_bind, wlp_get]
  split
  · cases alloc with
    | false => exact wlp_pure.mpr ⟨rfl, fun _ => rfl⟩
    | true =>
        rw [if_pos rfl, wlp_bind]
        rcases hl.alloc with ⟨-, heq⟩ | ⟨-, nodes', heq, -⟩
        · rintro b s1 hrun
          rw [heq] at hrun
          cases hrun
          rw [if_pos (by decide)]
          exact wlp_pure.mpr ⟨rfl, fun _ => rfl⟩
        · rintro b s1 hrun
          rw [heq] at hrun
          cases hrun
          split
          · exact wlp_pure.mpr ⟨by rw [S5.inodes_afterAlloc], fun hfalse => Bool.noConfusion hfalse⟩
          · rw [setDirect, wlp_bind, wlp_modify]
            refine wlp_pure.mpr ⟨?_, fun hfalse => Bool.noConfusion hfalse⟩
            rw [S5.inodes_setInode_self, S5.inodes_afterAlloc]
  · exact wlp_pure.mpr ⟨rfl, fun _ => rfl⟩

/-- Marking a page of the direct part dirty leaves the indirect block alone. -/
theorem wlp_pframeDirty_direct (h : Accounted D 0 s) (hn : n < s5NdirectBlocks) :
    wlp (pframeDirty ino n) (fun _ s' =>
      (s'.inodes ino).s5IndirectBlock = (s.inodes ino).s5IndirectBlock) s := by
  have haddr : (pnToAddr n / 4096).toNat < s5NdirectBlocks := by
    simp only [s5NdirectBlocks] at hn ⊢
    rw [pnToAddr_eq (by omega)]
    omega
  have hseek {s : S5} (h : Accounted D 0 s) (alloc : Bool) :
      wlp (s5SeekToBlock ino (pnToAddr n) alloc) (fun _ s' =>
        (s'.inodes ino).s5IndirectBlock = (s.inodes ino).s5IndirectBlock ∧
          (alloc = false → s' = s)) s := wlp_seek_direct h haddr alloc
  have hdirtypage : wlp (s5fsDirtypage ino (pnToAddr n)) (fun _ s' =>
      (s'.inodes ino).s5IndirectBlock = (s.inodes ino).s5IndirectBlock) s := by
    unfold s5fsDirtypage
    refine wlp_bind_of (hseek h false) ?_
    rintro r s1 ⟨-, hs1⟩
    rw [hs1 rfl]
    split
    · exact wlp_pure.mpr rfl
    · split
      · exact wlp_pure.mpr rfl
      · exact wlp_bind_of (hseek h true) fun _ _ hind => wlp_pure.mpr hind.1
  have hset {s1 : S5} {dirty : Bool} : wlp (setDirty ino n dirty) (fun _ s' =>
      (s'.inodes ino).s5IndirectBlock = (s1.inodes ino).s5IndirectBlock) s1 :=
    wlp_modifyVnode fun _ _ => rfl
  unfold pframeDirty
  rw [wlp_bind]
  apply wlp_getVnode
  intro w hw
  rw [wlp_bind, wlp_check]
  intro _
  refine wlp_bind_of (Q := fun _ s' =>
    (s'.inodes ino).s5IndirectBlock = (s.inodes ino).s5IndirectBlock) ?_ ?_
  · unfold vdirtypage
    rw [wlp_bind]
    apply wlp_getVnode
    intro u _
    split
    · exact wlp_pure.mpr rfl
    · split
      · exact hdirtypage
      · exact hdirtypage
      · exact wlp_fail.mpr trivial
      · exact wlp_fail.mpr trivial
  · intro r s1 h1
    split
    · exact wlp_bind_of hset fun _ _ h2 => wlp_pure.mpr (h2.trans h1)
    · exact wlp_pure.mpr h1

/-- Marking a page dirty gives it a block if there is one, and changes no file. -/
theorem wp_dirtyFile (h : FileHeld D ino v s) (hpage : n ∈ v.vnRespages) :
    wp (pframeDirty ino n) (fun _ s' => ∃ v', Worked D ino n (· = n) (s.inodes ino).s5Size
      (s.byteAt ino) v s v' s') s := by
  have hok := h.inv.vnode ino v h.held.vnode
  obtain ⟨hfile, hmax, hmapped⟩ := hok.page n hpage
  have hdirect : n < s5NdirectBlocks → wlp (pframeDirty ino n) (fun _ s' =>
      (s'.inodes ino).s5IndirectBlock = (s.inodes ino).s5IndirectBlock) s :=
    wlp_pframeDirty_direct h.inv.books.accounted
  obtain ⟨r, s', hrun, hout⟩ :=
    wp_pframeDirty h.held.fileAt h.held.vnode h.held.mode hpage hmax hmapped
  refine ⟨r, s', hrun, ?_⟩
  rcases hout with ⟨hlacks, -, hacc, hgrew, hvnodes⟩ | ⟨-, -, hdirtied⟩
  · have hfree : s.NoFree := by
      rcases hlacks with ⟨hn, hind, -⟩ | ⟨-, -, hfree⟩
      · rcases h.reached n hpage with hlt | hne
        · exact absurd hlt (not_lt.mpr hn)
        · exact absurd hind hne
      · have hsource : s.mapSource ino n = s := if_pos (h.reached n hpage)
        rwa [hsource] at hfree
    have hinv := h.inv.grew hok.lt hfile hacc hgrew hvnodes
    have hv' : s'.vnodes ino = some v := hvnodes ▸ h.held.vnode
    have hupdate : s'.vnodes = Function.update s.vnodes ino (some v) := by
      rw [hvnodes, ← h.held.vnode, Function.update_eq_self]
    refine ⟨v, h.step hinv hgrew hv' (.refl v) fun m hm hnew => absurd hm hnew, .refl v, ?_, ?_⟩
    · refine hgrew.edited h.held hupdate (.refl v) ?_
      intro m hm
      have hview : s'.fileView ino m = s.fileView ino m :=
        hgrew.fileView h.held.fileAt.lt h.held.fileAt.isFile hm fun _ hfalse => hfalse.elim
      rw [S5.content, S5.content, hvnodes, hview]
    · exact (hgrew.mono fun _ hfalse => hfalse.elim).extended h.held.fileAt hacc
        (fun hlt => hdirect hlt _ _ hrun)
        (Or.inr (hgrew.noFree h.held.fileAt.accounted hacc hfree))
  · set w := v.setFrame n { v.vnFrame n with dirty := true } with hw
    have hgrows : v.Grows w := ⟨rfl, rfl, rfl, rfl, fun _ hm => hm⟩
    have hinv := h.inv.dirtied h.held.vnode hpage hdirtied
    have hv' : s'.vnodes ino = some w := by
      rw [hdirtied.vnodes, Function.update_self]
    refine ⟨w, h.step hinv hdirtied.grew hv' hgrows fun m hm hnew => absurd hm hnew, hgrows,
      hdirtied.grew.edited h.held hdirtied.vnodes hgrows ?_,
      hdirtied.grew.extended h.held.fileAt hdirtied.accounted
        (fun hlt => hdirect hlt _ _ hrun) (Or.inl fun m _ hm => hm ▸ hdirtied.ne_zero)⟩
    intro m hm
    by_cases hmem : m ∈ v.vnRespages
    · rw [S5.content_of_resident hv' hmem, S5.content_of_resident h.held.vnode hmem]
      by_cases hmn : m = n
      · subst hmn
        simp [hw, Vnode.setFrame]
      · simp [hw, Vnode.setFrame, hmn]
    · have hview : s'.fileView ino m = s.fileView ino m :=
        hdirtied.grew.fileView h.held.fileAt.lt h.held.fileAt.isFile hm fun _ heq =>
          absurd (heq ▸ hpage) hmem
      rw [S5.content_of_absent hv' hmem, S5.content_of_absent h.held.vnode hmem, hview]

/-- Setting the size of the file. -/
theorem wp_setSize (h : FileHeld D ino v s) (hsize : size ≤ s5MaxFileSize) (top : Nat) :
    wp (setSize ino size) (fun _ s' => ∃ v', Worked D ino top (fun _ => False) size
      (s.byteAt ino) v s v' s') s := by
  have hok := h.inv.vnode ino v h.held.vnode
  set i := { s.inodes ino with s5Un := size } with hi
  set s1 := s.setInode ino i with hs1
  set w := { v with vnLen := toInt32 (UInt32.ofNat size) } with hw
  have h1 : PageInv D s1 := h.inv.setInode hok size (s.inodes ino).s5Linkcount
  have hok1 := h1.vnode ino v h.held.vnode
  have hinv : PageInv D (s1.setVnode ino (some w)) :=
    h1.setVnode ⟨hok1.lt, hok1.type, hok1.nodup, hok1.page⟩
  have hinode : (s1.setVnode ino (some w)).inodes ino = i := S5.inodes_setInode_self
  have hothers {j : Nat} (hj : j ≠ ino) : (s1.setVnode ino (some w)).inodes j = s.inodes j :=
    S5.inodes_setInode_of_ne hj
  have hblock (j m : Nat) : (s1.setVnode ino (some w)).fileBlock j m = s.fileBlock j m := by
    by_cases hj : j = ino
    · subst hj
      rw [S5.fileBlock, hinode]
      rfl
    · exact S5.fileBlock_congr (hothers hj) (fun _ => rfl) m
  have hview (j m : Nat) : (s1.setVnode ino (some w)).fileView j m = s.fileView j m := by
    rw [S5.fileView, S5.fileView, hblock]
    rfl
  have hv' : (s1.setVnode ino (some w)).vnodes ino = some w := S5.vnodes_setVnode_self
  have hcontent (j m : Nat) : (s1.setVnode ino (some w)).content j m = s.content j m := by
    by_cases hj : j = ino
    · subst hj
      by_cases hmem : m ∈ v.vnRespages
      · rw [S5.content_of_resident hv' hmem, S5.content_of_resident h.held.vnode hmem]
      · rw [S5.content_of_absent hv' hmem, S5.content_of_absent h.held.vnode hmem, hview]
    · rw [S5.content, S5.content, S5.vnodes_setVnode_of_ne hj, hview]
      rfl
  have hv1 : s1.vnodes ino = some v := h.held.vnode
  rw [setSize, wp_bind, wp_modify]
  rw [wp_of_eq (modifyVnode_apply hv1 _)]
  refine ⟨w, ⟨hinv, hinv.heldFile hv' h.held.mode h.held.held, ?_, ?_, ?_⟩, .refl v,
    ⟨rfl, ?_, fun j hj => hothers hj, fun pos _ => ?_, fun j _ _ _ m _ => hcontent j m,
      ?_, ?_⟩, .of_same rfl rfl fun j => ?_⟩
  · intro m hm
    refine (h.reached m hm).imp_right fun hind => ?_
    rw [hinode]
    exact hind
  · rw [hinode, hw]
    simp only [s5MaxFileSize] at hsize
    have hnat : (UInt32.ofNat size).toNat = size := by
      rw [UInt32.toNat_ofNat']
      omega
    rw [toInt32_of_lt (by omega), hnat]
    rfl
  · rw [hinode]
    exact hsize
  · change (s1.setVnode ino (some w)).inodes ino = { s.inodes ino with
      s5Un := size
      s5DirectBlocks := ((s1.setVnode ino (some w)).inodes ino).s5DirectBlocks
      s5IndirectBlock := ((s1.setVnode ino (some w)).inodes ino).s5IndirectBlock }
    rw [hinode]
  · rw [S5.byteAt, hcontent, S5.byteAt]
  · intro j hj
    rw [S5.vnodes_setVnode_of_ne]
    · exact hj
    · rintro rfl
      rw [h.held.vnode] at hj
      cases hj
  · intro j u hu
    by_cases hj : j = ino
    · subst hj
      obtain rfl : v = u := Option.some.inj (h.held.vnode.symm.trans hu)
      exact ⟨w, hv', .refl v, fun hne => absurd rfl hne⟩
    · exact ⟨u, by rw [S5.vnodes_setVnode_of_ne hj]; exact hu, .refl u, fun _ => rfl⟩
  · by_cases hj : j = ino
    · subst hj
      rw [hinode]
      exact ⟨rfl, rfl, rfl⟩
    · rw [hothers hj]
      exact ⟨rfl, rfl, rfl⟩

end CodingSample.S5fs
