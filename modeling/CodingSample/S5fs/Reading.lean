import CodingSample.S5fs.Lookups
import CodingSample.S5fs.PageRun

/-!
# Reading a file

`s5_read_file`. Where the pages of the file can be found without giving it an indirect block, a
read brings pages into core and changes nothing else.
-/

namespace CodingSample.S5fs

open Prog

/-- The value of an `int` after arithmetic that wraps around. -/
def wrap32 (n : Int) : Int := toInt32 (ofInt32 n)

/-- `S5_DATA_BLOCK`, as the number of a page. -/
def s5DataBlock (seekptr : Int) : Nat := (ofInt32 (seekptr.tdiv 4096)).toNat

/-- `S5_DATA_OFFSET` -/
def s5DataOffset (seekptr : Int) : Int := seekptr.tmod 4096

theorem wrap32_of_range {n : Int} (hlow : -2147483648 ≤ n) (hhigh : n < 2147483648) :
    wrap32 n = n := by
  rw [wrap32, toInt32, ofInt32, UInt32.toNat_ofNat']
  split <;> omega

theorem s5DataBlock_natCast {n : Nat} (hn : n < 2147483648) : s5DataBlock n = n / 4096 := by
  have hdiv : (n : Int).tdiv 4096 = ((n / 4096 : Nat) : Int) := Int.ofNat_tdiv n 4096
  rw [s5DataBlock, hdiv, ofInt32, UInt32.toNat_ofNat']
  omega

theorem s5DataOffset_natCast (n : Nat) : s5DataOffset n = ((n % 4096 : Nat) : Int) :=
  Int.ofNat_tmod n 4096

/-- `memcpy` of `k` bytes from offset `off` of a page to offset `pos` of a buffer of `len`
bytes. -/
def copyOut (ino n : Nat) (off k : Int) (pos len : Nat) (dest : Block) : K Block := do
  let v ← getVnode ino
  check .badAccess (n ∈ v.vnRespages ∧ 0 ≤ off ∧ 0 ≤ k ∧ off + k ≤ 4096 ∧ pos + k ≤ len)
  pure (dest.copyIn pos k.toNat fun j => (v.vnFrame n).data (off.toNat + j))

variable [BlockDev]

/-- The loop of `s5_read_file` over the pages between the first and the last. Its `off` never
moves on, so a page that is not the last one is copied until the buffer overruns. -/
def s5ReadMiddle (ino block endBlock len : Nat) : Nat → Nat → Block → K (Int × Nat × Block)
  | 0, _, _ => fail .badAccess
  | fuel + 1, bytes, dest => do
      let ret ← pframeGet ino block
      if ret < 0 then
        pure (ret, bytes, dest)
      else if block = endBlock then
        pure (0, bytes, dest)
      else do
        let dest ← copyOut ino block 0 4096 bytes len dest
        s5ReadMiddle ino block endBlock len fuel (bytes + 4096) dest

/-- `s5_read_file` into a buffer of `len` bytes: its value and the buffer. -/
def s5ReadFile (ino : Nat) (seek : Int) (dest : Block) (len : Nat) : K (Int × Block) := do
  let v ← getVnode ino
  let s ← get
  kassert (ofInt32 v.vnLen = UInt32.ofNat (s.inodes ino).s5Size)
  if v.vnLen ≤ seek then
    pure (0, dest)
  else do
    let ret ← pframeGet ino (s5DataBlock seek)
    if ret < 0 then
      pure (ret, dest)
    else do
      let endPos := min (wrap32 (seek + wrap32 len)) v.vnLen
      let ret ← pframeGet ino (s5DataBlock endPos)
      if ret < 0 then
        pure (ret, dest)
      else if s5DataBlock seek = s5DataBlock endPos then do
        let dest ← copyOut ino (s5DataBlock seek) (s5DataOffset seek) (endPos - seek) 0 len dest
        pure (endPos - seek, dest)
      else do
        let first := 4096 - s5DataOffset seek
        let dest ← copyOut ino (s5DataBlock seek) (s5DataOffset seek) first 0 len dest
        let r ← s5ReadMiddle ino (s5DataBlock (seek + first)) (s5DataBlock endPos) len (len + 1)
          first.toNat dest
        if r.1 < 0 then
          pure (r.1, r.2.2)
        else do
          let dest ← copyOut ino (s5DataBlock endPos) 0 (len - r.2.1) r.2.1 len r.2.2
          pure (wrap32 len, dest)

/-! ### What a read leaves -/

/-- What page `n` of a file holds: its page if it is in core, else what the disk has. -/
def S5.content (s : S5) (ino n : Nat) : Block :=
  match s.vnodes ino with
  | some v => if n ∈ v.vnRespages then (v.vnFrame n).data else s.fileView ino n
  | none => s.fileView ino n

/-- The byte of a file at a position. -/
def S5.byteAt (s : S5) (ino pos : Nat) : UInt8 := s.content ino (pos / 4096) (pos % 4096)

/-- A vnode with more of its pages in core. -/
structure Vnode.Grows (v v' : Vnode) : Prop where
  mode : v'.vnMode = v.vnMode
  len : v'.vnLen = v.vnLen
  devid : v'.vnDevid = v.vnDevid
  held : v'.vnRefcount - v'.vnNrespages = v.vnRefcount - v.vnNrespages
  pages : ∀ n ∈ v.vnRespages, n ∈ v'.vnRespages

/-- Pages were brought into core and nothing else happened. -/
structure Looked (s s' : S5) : Prop where
  untouched : Untouched s s'
  content : s'.content = s.content
  absent : ∀ i, s.vnodes i = none → s'.vnodes i = none
  present : ∀ i v, s.vnodes i = some v → ∃ v', s'.vnodes i = some v' ∧ v.Grows v'

variable {D : Multiset UInt32} {s s' s'' : S5} {ino n : Nat} {v v' v'' : Vnode}

omit [BlockDev] in
theorem S5.content_of_resident (hv : s.vnodes ino = some v) (hpage : n ∈ v.vnRespages) :
    s.content ino n = (v.vnFrame n).data := by
  simp [S5.content, hv, hpage]

omit [BlockDev] in
theorem S5.content_of_absent (hv : s.vnodes ino = some v) (hpage : n ∉ v.vnRespages) :
    s.content ino n = s.fileView ino n := by
  simp [S5.content, hv, hpage]

namespace Vnode.Grows

omit [BlockDev] in
theorem refl (v : Vnode) : v.Grows v := ⟨rfl, rfl, rfl, rfl, fun _ h => h⟩

omit [BlockDev] in
theorem trans (h : v.Grows v') (h' : v'.Grows v'') : v.Grows v'' :=
  ⟨h'.mode.trans h.mode, h'.len.trans h.len, h'.devid.trans h.devid, h'.held.trans h.held,
    fun n hn => h'.pages n (h.pages n hn)⟩

omit [BlockDev] in
theorem addPage (v : Vnode) (n : Nat) (p : PFrame) : v.Grows (v.addPage n p) := by
  refine ⟨rfl, rfl, rfl, ?_, fun m hm => List.mem_cons_of_mem n hm⟩
  simp only [Vnode.addPage, Vnode.vnNrespages, List.length_cons]
  omega

end Vnode.Grows

namespace Looked

omit [BlockDev] in
theorem refl (s : S5) : Looked s s :=
  ⟨.refl s, rfl, fun _ h => h, fun _ v h => ⟨v, h, .refl v⟩⟩

omit [BlockDev] in
theorem trans (h : Looked s s') (h' : Looked s' s'') : Looked s s'' := by
  refine ⟨h.untouched.trans h'.untouched, h'.content.trans h.content,
    fun i hi => h'.absent i (h.absent i hi), ?_⟩
  intro i v hv
  obtain ⟨v1, hv1, hg⟩ := h.present i v hv
  obtain ⟨v2, hv2, hg'⟩ := h'.present i v1 hv1
  exact ⟨v2, hv2, hg.trans hg'⟩

omit [BlockDev] in
theorem byteAt (h : Looked s s') (ino pos : Nat) : s'.byteAt ino pos = s.byteAt ino pos := by
  rw [S5.byteAt, S5.byteAt, h.content]

end Looked

omit [BlockDev] in
theorem Untouched.fileView (h : Untouched s s') (ino n : Nat) :
    s'.fileView ino n = s.fileView ino n := by
  have hblock : s'.fileBlock ino n = s.fileBlock ino n :=
    S5.fileBlock_congr (congrFun h.inodes ino) (fun _ => congrFun h.bview _) n
  rw [S5.fileView, S5.fileView, hblock, h.disk]

omit [BlockDev] in
/-- A page filled from the disk. -/
theorem Untouched.looked (h : Untouched s s') (hv : s.vnodes ino = some v)
    (hpage : n ∉ v.vnRespages) (hvnodes : s'.vnodes =
      Function.update s.vnodes ino (some (v.addPage n ⟨s'.fileView ino n, false⟩))) :
    Looked s s' := by
  refine ⟨h, ?_, ?_, ?_⟩
  · funext i m
    by_cases hi : i = ino
    · subst hi
      have hv' : s'.vnodes i = some (v.addPage n ⟨s'.fileView i n, false⟩) := by
        rw [hvnodes, Function.update_self]
      by_cases hm : m = n
      · subst hm
        rw [S5.content_of_resident hv' List.mem_cons_self, S5.content_of_absent hv hpage,
          ← h.fileView]
        simp [Vnode.addPage, Vnode.setFrame]
      · by_cases hmem : m ∈ v.vnRespages
        · rw [S5.content_of_resident hv' (List.mem_cons_of_mem n hmem),
            S5.content_of_resident hv hmem]
          simp [Vnode.addPage, Vnode.setFrame, hm]
        · have hnot : m ∉ (v.addPage n ⟨s'.fileView i n, false⟩).vnRespages := by
            simp [Vnode.addPage, hm, hmem]
          rw [S5.content_of_absent hv' hnot, S5.content_of_absent hv hmem, h.fileView]
    · rw [S5.content, S5.content, hvnodes, Function.update_of_ne hi]
      simp only [h.fileView]
  · intro i hi
    rw [hvnodes, Function.update_of_ne]
    · exact hi
    · rintro rfl
      rw [hv] at hi
      cases hi
  · intro i w hw
    by_cases hi : i = ino
    · subst hi
      obtain rfl : v = w := Option.some.inj (hv.symm.trans hw)
      exact ⟨_, by rw [hvnodes, Function.update_self], .addPage v n _⟩
    · exact ⟨w, by rw [hvnodes, Function.update_of_ne hi, hw], .refl w⟩

/-! ### Looking at a page -/

omit [BlockDev] in
theorem pframeAlloc_apply (hv : s.vnodes ino = some v) (hpos : 0 < v.vnRefcount) :
    pframeAlloc ino n s = .ok ((), s.setVnode ino
      (some (v.addPage n { v.vnFrame n with dirty := false }))) := by
  rw [pframeAlloc, bind_eq_of_ok (vref_apply hv hpos),
    modifyVnode_apply S5.vnodes_setVnode_self, S5.setVnode_setVnode]
  rfl

theorem vreadpage_apply (hv : s.vnodes ino = some v)
    (hmode : v.vnMode = .reg ∨ v.vnMode = .dir) :
    vreadpage ino n s = s5fsFillpage ino (pnToAddr n) n s := by
  rw [vreadpage, bind_eq_of_ok (getVnode_apply hv)]
  rcases hmode with hmode | hmode <;> rw [hmode]

/-- A page that can be reached without allocating is brought in without allocating. -/
theorem wlp_pframeGet_untouched (h : HeldFile D ino v s) (hmax : n < s5MaxFileBlocks)
    (hpage : n ∉ v.vnRespages) (hreach : Reaches s ino n) :
    wlp (pframeGet ino n) (fun r s' => r = 0 → Untouched s s') s := by
  have hn : n < 524288 := lt_trans hmax (by decide)
  have haddr := pnToAddr_eq hn
  have hblock : (pnToAddr n / 4096).toNat = n := by
    rw [haddr]
    omega
  have hpos : 0 < v.vnRefcount := by
    have hheld := h.held
    simp only [Vnode.vnNrespages] at hheld
    omega
  unfold pframeGet
  rw [wlp_bind]
  apply wlp_getVnode
  intro w hw
  obtain rfl : v = w := Option.some.inj (h.vnode.symm.trans hw)
  rw [if_neg hpage, wlp_bind]
  rintro _ s1 halloc
  rw [pframeAlloc_apply hw hpos] at halloc
  cases halloc
  set s1 := s.setVnode ino (some (v.addPage n { v.vnFrame n with dirty := false })) with hs1
  have hfile1 : FileAt D 0 ino s1 :=
    ⟨h.fileAt.accounted.setVnode _ _, h.fileAt.lt, h.fileAt.isFile⟩
  have hread : vreadpage ino n s1 = s5fsFillpage ino (pnToAddr n) n s1 :=
    vreadpage_apply S5.vnodes_setVnode_self h.mode
  have hfill : wlp (s5fsFillpage ino (pnToAddr n) n) (fun _ s' => Untouched s1 s') s1 := by
    apply wlp_s5fsFillpage hfile1
    · rw [haddr]
      positivity
    · rwa [hblock]
    · rwa [hblock]
  rw [wlp_bind]
  intro r s2 hr
  have hsame : Untouched s s2 := (Untouched.setVnode s ino _).trans (hfill r s2 (hread ▸ hr))
  split
  · rename_i hneg
    rw [wlp_bind]
    intro _ s3 _
    exact wlp_pure.mpr fun hzero => absurd hzero (ne_of_lt hneg)
  · exact wlp_pure.mpr fun _ => hsame

/-- A page that is in core, or can be brought in without allocating. -/
def S5.AtHand (s : S5) (ino n : Nat) (v : Vnode) : Prop :=
  n < s5MaxFileBlocks ∧ (n ∈ v.vnRespages ∨ Reaches s ino n)

/-- Getting such a page only looks. -/
theorem wp_look (h : PageInv D s) (hheld : HeldFile D ino v s) (hhand : s.AtHand ino n v) :
    wp (pframeGet ino n) (fun r s' => r = 0 ∧ PageInv D s' ∧ Looked s s' ∧
      ∃ v', s'.vnodes ino = some v' ∧ n ∈ v'.vnRespages) s := by
  obtain ⟨hmax, hreach⟩ := hhand
  have hn : n < 524288 := lt_trans hmax (by decide)
  obtain ⟨r, s', hrun, hout⟩ := wp_pframeGet hheld hn
  refine ⟨r, s', hrun, ?_⟩
  rcases hout with ⟨hpage, rfl, rfl⟩ | ⟨hpage, -, hfails, -⟩ | ⟨hpage, -, -, rfl, hloaded⟩
  · exact ⟨rfl, h, .refl _, v, hheld.vnode, hpage⟩
  · have hreach := hreach.resolve_left hpage
    rcases hfails with ⟨hpast, -⟩ | ⟨-, hlacks, -⟩
    · omega
    · rcases hlacks with ⟨hdirect, hind, -⟩ | ⟨halloc, -⟩
      · rcases hreach with hlt | hne
        · omega
        · exact absurd hind hne
      · cases halloc
  · have hsame := wlp_pframeGet_untouched hheld hmax hpage (hreach.resolve_left hpage) _ _ hrun rfl
    refine ⟨rfl, h.loaded hheld hpage hmax hloaded, hsame.looked hheld.vnode hpage hloaded.vnodes,
      _, by rw [hloaded.vnodes, Function.update_self], List.mem_cons_self⟩

/-! ### Reading -/

omit [BlockDev] in
theorem S5.AtHand.looked (h : s.AtHand ino n v) (hlook : Looked s s') (hgrows : v.Grows v') :
    s'.AtHand ino n v' := by
  refine ⟨h.1, ?_⟩
  rcases h.2 with hpage | hreach
  · exact Or.inl (hgrows.pages n hpage)
  · refine Or.inr ?_
    rwa [Reaches, hlook.untouched.inodes]

theorem HeldFile.looked (hheld : HeldFile D ino v s) (h : PageInv D s') (hlook : Looked s s') :
    ∃ v', HeldFile D ino v' s' ∧ v.Grows v' := by
  obtain ⟨v', hv', hgrows⟩ := hlook.present ino v hheld.vnode
  have hcount := hheld.held
  have hsame := hgrows.held
  refine ⟨v', h.heldFile hv' ?_ ?_, hgrows⟩
  · rw [hgrows.mode]
    exact hheld.mode
  · omega

omit [BlockDev] in
theorem wp_copyOut {off k pos len : Nat} {dest : Block} {Q : Block → S5 → Prop}
    (hv : s.vnodes ino = some v) (hpage : n ∈ v.vnRespages) (hoff : off + k ≤ 4096)
    (hlen : pos + k ≤ len)
    (h : Q (dest.copyIn pos k fun j => s.content ino n (off + j)) s) :
    wp (copyOut ino n off k pos len dest) Q s := by
  rw [copyOut, wp_bind, wp_of_eq (getVnode_apply hv), wp_bind, wp_check]
  refine ⟨decide_eq_true ⟨hpage, by omega⟩, wp_pure.mpr ?_⟩
  simp only [Int.toNat_natCast]
  rwa [S5.content_of_resident hv hpage] at h

/-- What a read does once its first and its last page are in core. -/
theorem wp_s5ReadFile_of_pages {seek len size : Nat} {dest : Block} (hv : s.vnodes ino = some v)
    (hlen : v.vnLen = size) (hsize : (s.inodes ino).s5Size = size) (hseek : seek < size)
    (hfit : size < 2147483648) (hend : seek + len < 2147483648)
    (hfirst : pframeGet ino (seek / 4096) s = .ok (0, s'))
    (hlast : pframeGet ino (min (seek + len) size / 4096) s' = .ok (0, s''))
    (hv' : s''.vnodes ino = some v') (hpage : seek / 4096 ∈ v'.vnRespages)
    (hpage' : min (seek + len) size / 4096 ∈ v'.vnRespages)
    (hspan : min (seek + len) size / 4096 = seek / 4096 ∨
      min (seek + len) size / 4096 = seek / 4096 + 1 ∧ seek + len ≤ size) :
    wp (s5ReadFile ino seek dest len) (fun r t => r.1 = (min (seek + len) size - seek : Nat) ∧
      (∀ j < min (seek + len) size - seek, r.2 j = s''.byteAt ino (seek + j)) ∧
      (∀ j, min (seek + len) size - seek ≤ j → r.2 j = dest j) ∧ t = s'') s := by
  have hblock : s5DataBlock seek = seek / 4096 := s5DataBlock_natCast (by omega)
  have hsum : min (wrap32 ((seek : Int) + wrap32 len)) v.vnLen =
      ((min (seek + len) size : Nat) : Int) := by
    rw [wrap32_of_range (n := (len : Int)) (by omega) (by omega),
      wrap32_of_range (by omega) (by omega), hlen]
    omega
  generalize he : min (seek + len) size = e at *
  have hse : seek < e ∨ e = seek := by omega
  have heblock : s5DataBlock (e : Int) = e / 4096 := s5DataBlock_natCast (by omega)
  have hassert : ofInt32 v.vnLen = UInt32.ofNat (s.inodes ino).s5Size := by
    rw [hlen, hsize, ofInt32]
    congr 1
    omega
  rw [s5ReadFile, wp_bind, wp_of_eq (getVnode_apply hv), wp_bind, wp_get, wp_bind, kassert,
    wp_check]
  refine ⟨decide_eq_true hassert, ?_⟩
  rw [if_neg (by omega), hblock, wp_bind, wp_of_eq hfirst]
  simp only []
  rw [if_neg (lt_irrefl 0), hsum, heblock, wp_bind, wp_of_eq hlast, if_neg (lt_irrefl 0),
    s5DataOffset_natCast]
  by_cases hsame : seek / 4096 = e / 4096
  · rw [if_pos hsame, wp_bind]
    have hk : ((e : Nat) : Int) - seek = ((e - seek : Nat) : Int) := by omega
    rw [hk]
    refine wp_copyOut hv' hpage (by omega) (by omega) ?_
    refine wp_pure.mpr ⟨rfl, ?_, ?_, rfl⟩
    · intro j hj
      simp only [Block.copyIn]
      rw [if_pos (by omega), S5.byteAt]
      congr 1 <;> omega
    · intro j hj
      exact if_neg (by omega)
  · obtain ⟨hnext, hinside⟩ := hspan.resolve_left fun heq => hsame heq.symm
    rw [if_neg hsame, wp_bind]
    have hk : (4096 : Int) - (seek % 4096 : Nat) = ((4096 - seek % 4096 : Nat) : Int) := by omega
    have hoff : (seek : Int) + (4096 - seek % 4096 : Nat) =
        ((seek + (4096 - seek % 4096) : Nat) : Int) := by omega
    have hoffblock : s5DataBlock ((seek + (4096 - seek % 4096) : Nat) : Int) = e / 4096 := by
      rw [s5DataBlock_natCast (by omega)]
      omega
    rw [hk]
    refine wp_copyOut hv' hpage (by omega) (by omega) ?_
    rw [hoff, hoffblock, wp_bind, s5ReadMiddle, wp_bind]
    have hget : pframeGet ino (e / 4096) s'' = .ok (0, s'') := by
      rw [pframeGet, bind_eq_of_ok (getVnode_apply hv'), if_pos hpage']
      rfl
    rw [wp_of_eq hget, if_neg (lt_irrefl 0), if_pos rfl, wp_pure]
    simp only []
    rw [if_neg (lt_irrefl 0), Int.toNat_natCast, wp_bind]
    have hrest : (len : Int) - (4096 - seek % 4096 : Nat) =
        ((len - (4096 - seek % 4096) : Nat) : Int) := by omega
    have hzero : (0 : Int) = ((0 : Nat) : Int) := rfl
    rw [hrest, hzero]
    refine wp_copyOut hv' hpage' (by omega) (by omega) ?_
    refine wp_pure.mpr ⟨?_, ?_, ?_, rfl⟩
    · rw [wrap32_of_range (by omega) (by omega)]
      omega
    · intro j hj
      simp only [Block.copyIn]
      by_cases hlate : 4096 - seek % 4096 ≤ j
      · rw [if_pos (by omega), S5.byteAt]
        congr 1 <;> omega
      · rw [if_neg (by omega), if_pos (by omega), S5.byteAt]
        congr 1 <;> omega
    · intro j hj
      simp only [Block.copyIn]
      rw [if_neg (by omega), if_neg (by omega)]

/-- A read that ends in the page it starts in, or in the next one before the end of the file,
returns the bytes of the file. -/
theorem wp_s5ReadFile {seek len size : Nat} {dest : Block} (h : PageInv D s)
    (hheld : HeldFile D ino v s) (hlen : v.vnLen = size) (hsize : (s.inodes ino).s5Size = size)
    (hseek : seek < size) (hfit : size < 2147483648) (hend : seek + len < 2147483648)
    (hfirst : s.AtHand ino (seek / 4096) v)
    (hlast : s.AtHand ino (min (seek + len) size / 4096) v)
    (hspan : min (seek + len) size / 4096 = seek / 4096 ∨
      min (seek + len) size / 4096 = seek / 4096 + 1 ∧ seek + len ≤ size) :
    wp (s5ReadFile ino seek dest len) (fun r s' => r.1 = (min (seek + len) size - seek : Nat) ∧
      (∀ j < min (seek + len) size - seek, r.2 j = s.byteAt ino (seek + j)) ∧
      PageInv D s' ∧ Looked s s') s := by
  obtain ⟨r1, s1, hrun1, rfl, h1, hlook1, v1, hv1, hpage1⟩ := wp_look h hheld hfirst
  obtain ⟨w1, hheld1, hgrows1⟩ := hheld.looked h1 hlook1
  obtain rfl : v1 = w1 := Option.some.inj (hv1.symm.trans hheld1.vnode)
  obtain ⟨r2, s2, hrun2, rfl, h2, hlook2, v2, hv2, hpage2⟩ :=
    wp_look h1 hheld1 (hlast.looked hlook1 hgrows1)
  obtain ⟨w2, hheld2, hgrows2⟩ := hheld1.looked h2 hlook2
  obtain rfl : v2 = w2 := Option.some.inj (hv2.symm.trans hheld2.vnode)
  have hlook := hlook1.trans hlook2
  refine wp_mono (wp_s5ReadFile_of_pages hheld.vnode hlen hsize hseek hfit hend hrun1 hrun2 hv2
    (hgrows2.pages _ hpage1) hpage2 hspan) ?_
  rintro r t ⟨hr, hbytes, -, rfl⟩
  refine ⟨hr, ?_, h2, hlook⟩
  intro j hj
  rw [hbytes j hj, hlook.byteAt]

end CodingSample.S5fs
