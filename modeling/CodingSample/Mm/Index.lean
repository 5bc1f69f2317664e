import CodingSample.Data.Place
import CodingSample.Mm.Pframe

/-!
# The page cache as an index

The page frames in use have different identities, and each is in the lists that go with it. Every
piece of `pframe.c` between two blocking points keeps it so, and no link leads nowhere.
-/

namespace CodingSample.Mm

open Prog

/-- The list that `pf_link` is in. -/
def Pframe.paging (p : Pframe) : Option Paging :=
  if p.pfObj = none then none
  else if p.pfPincount = 0 then some .allocList else some .pinnedList

/-- The hash chain of the identity. -/
def Pframe.chain (p : Pframe) : Option UInt32 := p.pfObj.map fun o => hashPage o p.pfPagenum

def Cache.counts (s : Cache) : Paging → Int
  | .allocList => s.nallocated
  | .pinnedList => s.npinned

/-- The cache is a consistent index. -/
structure Cache.Index (s : Cache) : Prop where
  unique : ∀ pf pf' o, (s.pframes pf).pfObj = some o → (s.pframes pf').pfObj = some o →
    (s.pframes pf).pfPagenum = (s.pframes pf').pfPagenum → pf = pf'
  paging : Placed s.link (Pframe.paging ∘ s.pframes) s.counts
  chain : ∃ size, Placed s.hlink (Pframe.chain ∘ s.pframes) size
  res : Placed s.olink (Pframe.pfObj ∘ s.pframes) s.mmoNrespages
  lt : ∀ pf, (s.pframes pf).pfObj ≠ none → pf < s.frames
  pos : ∀ pf, (s.pframes pf).pfObj ≠ none → 0 ≤ (s.pframes pf).pfPincount

/-- A page frame holds the page. -/
def Cache.Holds (s : Cache) (o : Mmobj) (pagenum : UInt32) (pf : Nat) : Prop :=
  (s.pframes pf).pfObj = some o ∧ (s.pframes pf).pfPagenum = pagenum

variable {s s' : Cache} {pf : Nat} {o dest : Mmobj} {pagenum : UInt32}

/-! ### The rules of the programs -/

/-- The faults other than a link that leads nowhere. -/
def Fault.Allowed (f : Fault) : Prop := f ≠ .badLink

theorem ewp_editLink {f : Links (Paging ⊕ Nat) → Option (Links (Paging ⊕ Nat))}
    {l : Links (Paging ⊕ Nat)} {Q : Unit → Cache → Prop} {E : Fault → Prop}
    (hf : f s.link = some l) (hq : Q () { s with link := l }) : ewp (editLink f) Q E s := by
  unfold ewp editLink
  rw [hf]
  exact hq

theorem ewp_editHlink {f : Links (UInt32 ⊕ Nat) → Option (Links (UInt32 ⊕ Nat))}
    {l : Links (UInt32 ⊕ Nat)} {Q : Unit → Cache → Prop} {E : Fault → Prop}
    (hf : f s.hlink = some l) (hq : Q () { s with hlink := l }) : ewp (editHlink f) Q E s := by
  unfold ewp editHlink
  rw [hf]
  exact hq

theorem ewp_editOlink {f : Links (Mmobj ⊕ Nat) → Option (Links (Mmobj ⊕ Nat))}
    {l : Links (Mmobj ⊕ Nat)} {Q : Unit → Cache → Prop} {E : Fault → Prop}
    (hf : f s.olink = some l) (hq : Q () { s with olink := l }) : ewp (editOlink f) Q E s := by
  unfold ewp editOlink
  rw [hf]
  exact hq

theorem ewp_kassert {test : Bool} {Q : Unit → Cache → Prop} (hq : test = true → Q () s) :
    ewp (kassert test) Q Fault.Allowed s := by
  rw [kassert, ewp_check]
  exact ⟨hq, fun _ => nofun⟩

theorem ewp_getPframe {Q : Pframe → Cache → Prop} {E : Fault → Prop} :
    ewp (getPframe pf) Q E s ↔ Q (s.pframes pf) s := Iff.rfl

theorem ewp_setPframe {f : Pframe → Pframe} {Q : Unit → Cache → Prop} {E : Fault → Prop} :
    ewp (setPframe pf f) Q E s ↔
      Q () { s with pframes := Function.update s.pframes pf (f (s.pframes pf)) } := Iff.rfl

theorem ewp_pfObj {Q : Mmobj → Cache → Prop}
    (hq : ∀ o, (s.pframes pf).pfObj = some o → Q o s) : ewp (pfObj pf) Q Fault.Allowed s := by
  rw [pfObj, ewp_bind, ewp_getPframe]
  cases hobj : (s.pframes pf).pfObj with
  | none => exact (nofun : Fault.noObject ≠ .badLink)
  | some o => exact hq o hobj

theorem Pframe.paging_of_free {p : Pframe} (hobj : p.pfObj = none) : p.paging = none :=
  if_pos hobj

theorem Pframe.paging_of_alloc {p : Pframe} (hobj : p.pfObj ≠ none) (hpin : p.pfPincount = 0) :
    p.paging = some .allocList := (if_neg hobj).trans (if_pos hpin)

theorem Pframe.paging_of_pinned {p : Pframe} (hobj : p.pfObj ≠ none) (hpin : p.pfPincount ≠ 0) :
    p.paging = some .pinnedList := (if_neg hobj).trans (if_neg hpin)

theorem Pframe.chain_of_obj {p : Pframe} (hobj : p.pfObj = some o) :
    p.chain = some (hashPage o p.pfPagenum) := by
  rw [Pframe.chain, hobj]
  rfl

namespace Cache.Index

/-- A page frame changes, and its links with it. -/
theorem update (hi : s.Index) (p : Pframe) (hframes : s'.frames = s.frames)
    (hpframes : s'.pframes = Function.update s.pframes pf p)
    (hpaging : Placed s'.link (Function.update (Pframe.paging ∘ s.pframes) pf p.paging) s'.counts)
    (hchain : ∃ size, Placed s'.hlink (Function.update (Pframe.chain ∘ s.pframes) pf p.chain) size)
    (hres : Placed s'.olink (Function.update (Pframe.pfObj ∘ s.pframes) pf p.pfObj)
      s'.mmoNrespages)
    (hlt : p.pfObj ≠ none → pf < s.frames) (hpos : p.pfObj ≠ none → 0 ≤ p.pfPincount)
    (hother : ∀ u o, u ≠ pf → p.pfObj = some o → ¬ s.Holds o p.pfPagenum u) : s'.Index := by
  have hself : s'.pframes pf = p := by
    rw [hpframes, Function.update_self]
  have hrest {u : Nat} (hu : u ≠ pf) : s'.pframes u = s.pframes u := by
    rw [hpframes, Function.update_of_ne hu]
  refine ⟨?_, ?_, ?_, ?_, ?_, ?_⟩
  · intro u v o hu hv huv
    by_cases hupf : u = pf
    · by_cases hvpf : v = pf
      · rw [hupf, hvpf]
      · rw [hupf, hself] at hu huv
        rw [hrest hvpf] at hv huv
        exact absurd ⟨hv, huv.symm⟩ (hother v o hvpf hu)
    · rw [hrest hupf] at hu huv
      by_cases hvpf : v = pf
      · rw [hvpf, hself] at hv huv
        exact absurd ⟨hu, huv⟩ (hother u o hupf hv)
      · rw [hrest hvpf] at hv huv
        exact hi.unique u v o hu hv huv
  · rw [hpframes, Function.comp_update]
    exact hpaging
  · rw [hpframes, Function.comp_update]
    exact hchain
  · rw [hpframes, Function.comp_update]
    exact hres
  · intro u hu
    rw [hframes]
    by_cases hupf : u = pf
    · rw [hupf, hself] at hu
      exact hupf ▸ hlt hu
    · rw [hrest hupf] at hu
      exact hi.lt u hu
  · intro u hu
    by_cases hupf : u = pf
    · rw [hupf, hself] at hu ⊢
      exact hpos hu
    · rw [hrest hupf] at hu ⊢
      exact hi.pos u hu

/-- The page frame that has an identity. -/
theorem not_holds (hi : s.Index) (hobj : (s.pframes pf).pfObj = some o) {u : Nat} (hu : u ≠ pf) :
    ¬ s.Holds o (s.pframes pf).pfPagenum u :=
  fun hholds => hu (hi.unique u pf o hholds.1 hobj hholds.2)

/-- The busy and dirty bits do not matter. -/
theorem setFlags (hi : s.Index) (p : Pframe) (hobj : p.pfObj = (s.pframes pf).pfObj)
    (hnum : p.pfPagenum = (s.pframes pf).pfPagenum)
    (hpin : p.pfPincount = (s.pframes pf).pfPincount) :
    Index { s with pframes := Function.update s.pframes pf p } := by
  have hpaging : p.paging = (Pframe.paging ∘ s.pframes) pf := by
    rw [Function.comp_apply, Pframe.paging, Pframe.paging, hobj, hpin]
  have hchain : p.chain = (Pframe.chain ∘ s.pframes) pf := by
    rw [Function.comp_apply, Pframe.chain, Pframe.chain, hobj, hnum]
  refine hi.update p rfl rfl ?_ ?_ ?_ ?_ ?_ ?_
  · rw [hpaging, Function.update_eq_self]
    exact hi.paging
  · rw [hchain, Function.update_eq_self]
    exact hi.chain
  · rw [hobj]
    exact (congrArg (Placed s.olink · s.mmoNrespages) (Function.update_eq_self _ _)).mpr hi.res
  · exact fun hu => hi.lt pf (hobj ▸ hu)
  · exact fun hu => hpin ▸ hi.pos pf (hobj ▸ hu)
  · intro u o hu ho
    rw [hnum]
    exact hi.not_holds (hobj ▸ ho) hu

/-- Reference counts do not matter. -/
theorem setRefcount (hi : s.Index) (f : Mmobj → Int) : Index { s with mmoRefcount := f } :=
  ⟨hi.unique, hi.paging, hi.chain, hi.res, hi.lt, hi.pos⟩

end Cache.Index

/-! ### Looking for a page -/

/-- What `pframe_get_resident` does: it may move the page in the list of the allocated ones. -/
structure Cache.Found (s : Cache) (o : Mmobj) (pagenum : UInt32) (r : Option Nat) (s' : Cache) :
    Prop where
  index : s'.Index
  only : ∃ l, s' = { s with link := l }
  found : ∀ u, r = some u → s.Holds o pagenum u
  missing : r = none → ∀ u, ¬ s.Holds o pagenum u

/-- A page that is not pinned goes to the end of its list. -/
theorem ewp_touch (hi : s.Index) (hobj : (s.pframes pf).pfObj ≠ none)
    (hpin : (s.pframes pf).pfPincount = 0) {r : Option Nat} {E : Fault → Prop}
    {Q : Option Nat → Cache → Prop}
    (hq : ∀ l, Cache.Index { s with link := l } → Q r { s with link := l }) :
    ewp (do
      editLink fun l => l.remove (.inr pf)
      editLink fun l => l.insertTail (.inl .allocList) (.inr pf)
      pure r) Q E s := by
  have hhome : (Pframe.paging ∘ s.pframes) pf = some .allocList :=
    Pframe.paging_of_alloc hobj hpin
  obtain ⟨l₁, l₂, hrem, hins, hp⟩ := hi.paging.move hhome .allocList
  rw [ewp_bind]
  refine ewp_editLink hrem ?_
  rw [ewp_bind]
  refine ewp_editLink hins ?_
  refine hq l₂ ⟨hi.unique, ?_, hi.chain, hi.res, hi.lt, hi.pos⟩
  rw [← hhome, Function.update_eq_self, Function.update_self, Function.update_idem,
    Int.sub_add_cancel, Function.update_eq_self] at hp
  exact hp

theorem ewp_findPage (hi : s.Index) {q : UInt32 → List Nat} (hr : Rings s.hlink q)
    (hmem : ∀ k u, u ∈ q k ↔ (s.pframes u).chain = some k) {xs ys : List Nat} {fuel : Nat}
    (hq : q (hashPage o pagenum) = xs ++ ys) (hxs : ∀ u ∈ xs, ¬ s.Holds o pagenum u)
    (hfuel : ys.length < fuel) {E : Fault → Prop} :
    ewp (findPage o pagenum fuel (lastOf (hashPage o pagenum) xs)) (s.Found o pagenum) E s := by
  induction ys generalizing xs fuel with
  | nil =>
      obtain ⟨fuel, rfl⟩ := Nat.exists_eq_add_one_of_ne_zero (Nat.ne_of_gt hfuel)
      have hnext : s.hlink.next (lastOf (hashPage o pagenum) xs) =
          some (.inl (hashPage o pagenum)) := (hr.adj hq).1
      rw [findPage, ewp_bind, ewp_get, hnext]
      refine ⟨hi, ⟨s.link, rfl⟩, nofun, ?_⟩
      intro _ u hu
      have hin : u ∈ q (hashPage o pagenum) := by
        rw [hmem, Pframe.chain_of_obj hu.1, hu.2]
      rw [hq, List.append_nil] at hin
      exact hxs u hin hu
  | cons v ys ih =>
      obtain ⟨fuel, rfl⟩ := Nat.exists_eq_add_one_of_ne_zero
        (Nat.ne_of_gt (Nat.zero_lt_of_lt hfuel))
      have hnext : s.hlink.next (lastOf (hashPage o pagenum) xs) = some (.inr v) :=
        (hr.adj hq).1
      rw [findPage, ewp_bind, ewp_get, hnext]
      simp only []
      split
      · rename_i hv
        have hobj : (s.pframes v).pfObj ≠ none := by
          rw [hv.1]
          nofun
        have hresult : ∀ u, some v = some u → s.Holds o pagenum u := by
          rintro u ⟨rfl⟩
          exact hv
        split
        · rename_i hpin
          exact ewp_touch hi hobj hpin fun l hil => ⟨hil, ⟨l, rfl⟩, hresult, nofun⟩
        · exact ⟨hi, ⟨s.link, rfl⟩, hresult, nofun⟩
      · rename_i hv
        have hlast : lastOf (hashPage o pagenum) (xs ++ [v]) = Sum.inr v := by
          simp [lastOf]
        rw [← hlast]
        refine ih (by rw [hq, List.append_assoc]; rfl) ?_ (Nat.lt_of_succ_lt_succ hfuel)
        intro u hu
        rcases List.mem_append.mp hu with hu | hu
        · exact hxs u hu
        · obtain rfl := List.mem_singleton.mp hu
          exact hv

theorem ewp_pframeGetResident (hi : s.Index) {E : Fault → Prop} :
    ewp (pframeGetResident o pagenum) (s.Found o pagenum) E s := by
  obtain ⟨size, q, hr, hmem, -⟩ := hi.chain
  rw [pframeGetResident, ewp_bind, ewp_get]
  have hq : q (hashPage o pagenum) = [] ++ q (hashPage o pagenum) := rfl
  refine ewp_findPage hi hr hmem hq (fun _ hu => absurd hu List.not_mem_nil)
    (Nat.lt_succ_of_le ?_)
  refine length_le_of_lt (hr.nodup _) fun u hu => hi.lt u ?_
  have hchain := (hmem _ u).mp hu
  intro hnone
  rw [Function.comp_apply, Pframe.chain, hnone] at hchain
  cases hchain

/-! ### Taking and freeing page frames -/

theorem Cache.counts_nallocated (n : Int) : Cache.counts { s with nallocated := n } =
    Function.update s.counts .allocList n := by
  funext c
  cases c <;> rfl

theorem Cache.counts_npinned (n : Int) : Cache.counts { s with npinned := n } =
    Function.update s.counts .pinnedList n := by
  funext c
  cases c <;> rfl

theorem ewp_pframeAlloc (hi : s.Index) (hmissing : ∀ u, ¬ s.Holds o pagenum u) {fresh : Option Nat}
    (hfresh : ∀ pf, fresh = some pf → pf < s.frames ∧ (s.pframes pf).pfObj = none)
    {E : Fault → Prop} : ewp (pframeAlloc o pagenum fresh) (fun _ s' => s'.Index) E s := by
  cases fresh with
  | none => exact hi
  | some pf =>
      obtain ⟨hlt, hfree⟩ := hfresh pf rfl
      set p : Pframe := ⟨some o, pagenum, false, false, 0⟩ with hp
      have hpaging : (Pframe.paging ∘ s.pframes) pf = none := Pframe.paging_of_free hfree
      have hchain : (Pframe.chain ∘ s.pframes) pf = none := by
        rw [Function.comp_apply, Pframe.chain, hfree]
        rfl
      obtain ⟨size, hchains⟩ := hi.chain
      obtain ⟨l, hins, hlink⟩ := hi.paging.insertTail hpaging .allocList
      obtain ⟨h, hhins, hhlink⟩ := hchains.insertHead hchain (hashPage o pagenum)
      obtain ⟨r, hoins, holink⟩ := hi.res.insertHead (t := pf) hfree o
      rw [pframeAlloc, ewp_bind, addNallocated, ewp_modify, ewp_bind]
      refine ewp_editLink hins ?_
      rw [ewp_bind, ewp_setPframe, ewp_bind]
      refine ewp_editHlink hhins ?_
      rw [ewp_bind, ref, ewp_modify, ewp_bind, addNrespages, ewp_modify, ewp_bind]
      refine ewp_editOlink hoins (hi.update p rfl rfl ?_ ⟨_, hhlink⟩ holink ?_ ?_ ?_)
      · rw [← Cache.counts_nallocated] at hlink
        exact hlink
      · exact fun _ => hlt
      · exact fun _ => Int.le_refl 0
      · rintro u _ - ⟨rfl⟩
        exact hmissing u

theorem ewp_pframeFree (hi : s.Index) :
    ewp (pframeFree pf) (fun _ s' => s'.Index) Fault.Allowed s := by
  rw [pframeFree, ewp_bind, ewp_getPframe, ewp_bind]
  refine ewp_kassert fun hpin => ?_
  rw [ewp_bind]
  refine ewp_kassert fun hused => ?_
  rw [ewp_bind]
  refine ewp_kassert fun _ => ?_
  rw [ewp_bind]
  refine ewp_pfObj fun o hobj => ?_
  have hpin := of_decide_eq_true hpin
  have hused := of_decide_eq_true hused
  set p : Pframe := { s.pframes pf with pfObj := none } with hp
  obtain ⟨size, hchains⟩ := hi.chain
  obtain ⟨h, hhrem, hhlink⟩ := hchains.remove (t := pf) (Pframe.chain_of_obj hobj)
  obtain ⟨l, hrem, hlink⟩ := hi.paging.remove (t := pf) (Pframe.paging_of_alloc hused hpin)
  obtain ⟨r, horem, holink⟩ := hi.res.remove (t := pf) hobj
  rw [ewp_bind]
  refine ewp_editHlink hhrem ?_
  rw [ewp_bind, ewp_setPframe, ewp_bind, addNallocated, ewp_modify, ewp_bind]
  refine ewp_editLink hrem ?_
  rw [ewp_bind, addNrespages, ewp_modify, ewp_bind]
  refine ewp_editOlink horem ?_
  refine hi.update p rfl rfl ?_ ⟨_, hhlink⟩ holink ?_ ?_ ?_
  · rw [← Cache.counts_nallocated] at hlink
    exact hlink
  · exact fun hu => absurd rfl hu
  · exact fun hu => absurd rfl hu
  · intro u o' _ ho
    cases ho

/-! ### Pinning -/

theorem ewp_setBusy (hi : s.Index) (busy : Bool) {Q : Unit → Cache → Prop} {E : Fault → Prop}
    (hq : ∀ s', s'.Index → s'.pframes pf = { s.pframes pf with busy := busy } → Q () s') :
    ewp (setBusy pf busy) Q E s :=
  hq _ (hi.setFlags _ rfl rfl rfl) (Function.update_self _ _ _)

theorem ewp_setDirty (hi : s.Index) (dirty : Bool) {Q : Unit → Cache → Prop} {E : Fault → Prop}
    (hq : ∀ s', s'.Index → s'.pframes pf = { s.pframes pf with dirty := dirty } → Q () s') :
    ewp (setDirty pf dirty) Q E s :=
  hq _ (hi.setFlags _ rfl rfl rfl) (Function.update_self _ _ _)

theorem Cache.counts_pin : Function.update
    (Function.update s.counts .allocList (s.counts .allocList - 1)) .pinnedList
      (Function.update s.counts .allocList (s.counts .allocList - 1) .pinnedList + 1) =
    Cache.counts { s with nallocated := s.nallocated + -1, npinned := s.npinned + 1 } := by
  funext c
  cases c <;> rfl

theorem Cache.counts_unpin : Function.update
    (Function.update s.counts .pinnedList (s.counts .pinnedList - 1)) .allocList
      (Function.update s.counts .pinnedList (s.counts .pinnedList - 1) .allocList + 1) =
    Cache.counts { s with nallocated := s.nallocated + 1, npinned := s.npinned + -1 } := by
  funext c
  cases c <;> rfl

/-- The pin count changes, and the page with it to the other list. -/
theorem Cache.Index.setPincount (hi : s.Index) (hused : (s.pframes pf).pfObj ≠ none) {n : Int}
    (hn : 0 ≤ n) {l : Links (Paging ⊕ Nat)} {alloc pinned : Int}
    (hlink : Placed l (Function.update (Pframe.paging ∘ s.pframes) pf
      (some (if n = 0 then .allocList else .pinnedList)))
      (Cache.counts { s with nallocated := alloc, npinned := pinned })) :
    Index { s with
      link := l, nallocated := alloc, npinned := pinned,
      pframes := Function.update s.pframes pf { s.pframes pf with pfPincount := n } } := by
  refine hi.update { s.pframes pf with pfPincount := n } rfl rfl ?_ ?_ ?_ (fun _ => hi.lt pf hused)
    (fun _ => hn) fun u o hu ho => hi.not_holds ho hu
  · have hpaging : Pframe.paging { s.pframes pf with pfPincount := n } =
        some (if n = 0 then .allocList else .pinnedList) := by
      rw [Pframe.paging, if_neg hused]
      split
      · rfl
      · rfl
    rw [hpaging]
    exact hlink
  · exact (congrArg (fun g => ∃ size, Placed s.hlink g size) (Function.update_eq_self _ _)).mpr
      hi.chain
  · exact (congrArg (Placed s.olink · s.mmoNrespages) (Function.update_eq_self _ _)).mpr hi.res

theorem ewp_pframePin (hi : s.Index) :
    ewp (pframePin pf) (fun _ s' => s'.Index) Fault.Allowed s := by
  rw [pframePin, ewp_bind, ewp_getPframe, ewp_bind]
  refine ewp_kassert fun hused => ?_
  have hused := of_decide_eq_true hused
  have hpos := hi.pos pf hused
  rw [ewp_bind]
  refine ewp_setBusy hi true fun s₁ hi₁ hpf => ?_
  have hused₁ : (s₁.pframes pf).pfObj ≠ none := by
    rw [hpf]
    exact hused
  have hcount : (s₁.pframes pf).pfPincount = (s.pframes pf).pfPincount := by
    rw [hpf]
  rw [← hcount] at hpos ⊢
  split
  · rename_i hpin
    obtain ⟨l₁, l₂, hrem, hins, hlink⟩ :=
      hi₁.paging.move (t := pf) (Pframe.paging_of_alloc hused₁ hpin) .pinnedList
    rw [Cache.counts_pin] at hlink
    rw [ewp_bind]
    refine ewp_editLink hrem ?_
    rw [ewp_bind, addNallocated, ewp_modify, ewp_bind, addNpinned, ewp_modify, ewp_bind]
    refine ewp_editLink hins ?_
    rw [ewp_bind, CodingSample.Mm.setPincount, ewp_setPframe]
    refine ewp_setBusy (hi₁.setPincount hused₁ (n := (s₁.pframes pf).pfPincount + 1) ?_ ?_) false
      fun _ hi₂ _ => hi₂
    · omega
    · rw [if_neg (by omega)]
      exact hlink
  · rename_i hpin
    rw [ewp_bind, CodingSample.Mm.setPincount, ewp_setPframe]
    refine ewp_setBusy (hi₁.setPincount hused₁ (n := (s₁.pframes pf).pfPincount + 1) ?_ ?_) false
      fun _ hi₂ _ => hi₂
    · omega
    · have hself := hi₁.paging
      have hpaging : (Pframe.paging ∘ s₁.pframes) pf = some .pinnedList :=
        Pframe.paging_of_pinned hused₁ hpin
      rw [if_neg (by omega), ← hpaging, Function.update_eq_self]
      exact hself

theorem ewp_pframeUnpin (hi : s.Index) :
    ewp (pframeUnpin pf) (fun _ s' => s'.Index) Fault.Allowed s := by
  rw [pframeUnpin, ewp_bind, ewp_getPframe, ewp_bind]
  refine ewp_kassert fun hused => ?_
  rw [ewp_bind]
  refine ewp_kassert fun hpin => ?_
  have hused := of_decide_eq_true hused
  have hpin := of_decide_eq_true hpin
  have hpos := hi.pos pf hused
  rw [ewp_bind]
  refine ewp_setBusy hi true fun s₁ hi₁ hpf => ?_
  have hused₁ : (s₁.pframes pf).pfObj ≠ none := by
    rw [hpf]
    exact hused
  have hcount : (s₁.pframes pf).pfPincount = (s.pframes pf).pfPincount := by
    rw [hpf]
  rw [← hcount] at hpos hpin ⊢
  have hpinned : (Pframe.paging ∘ s₁.pframes) pf = some .pinnedList :=
    Pframe.paging_of_pinned hused₁ hpin
  rw [ewp_bind, CodingSample.Mm.setPincount, ewp_setPframe]
  split
  · rename_i hzero
    obtain ⟨l₁, l₂, hrem, hins, hlink⟩ := hi₁.paging.move (t := pf) hpinned .allocList
    rw [Cache.counts_unpin] at hlink
    rw [ewp_bind]
    refine ewp_editLink hrem ?_
    rw [ewp_bind, addNpinned, ewp_modify, ewp_bind, addNallocated, ewp_modify, ewp_bind]
    refine ewp_editLink hins ?_
    refine ewp_setBusy (hi₁.setPincount hused₁ (n := (s₁.pframes pf).pfPincount - 1) ?_ ?_) false
      fun _ hi₂ _ => hi₂
    · omega
    · rw [if_pos hzero]
      exact hlink
  · rename_i hzero
    refine ewp_setBusy (hi₁.setPincount hused₁ (n := (s₁.pframes pf).pfPincount - 1) ?_ ?_) false
      fun _ hi₂ _ => hi₂
    · omega
    · have hself := hi₁.paging
      rw [if_neg hzero, ← hpinned, Function.update_eq_self]
      exact hself

/-! ### Dirtying and cleaning -/

theorem ewp_pframeDirtyStart (hi : s.Index) :
    ewp (pframeDirtyStart pf) (fun _ s' => s'.Index) Fault.Allowed s := by
  rw [pframeDirtyStart, ewp_bind, ewp_getPframe, ewp_bind]
  refine ewp_kassert fun _ => ?_
  rw [ewp_bind]
  refine ewp_setBusy hi true fun s₁ hi₁ _ => ?_
  rw [ewp_bind]
  exact ewp_pfObj fun _ _ => hi₁

theorem ewp_pframeDirtyEnd (hi : s.Index) (ret : Int) {E : Fault → Prop} :
    ewp (pframeDirtyEnd pf ret) (fun _ s' => s'.Index) E s := by
  unfold pframeDirtyEnd
  split
  · rw [ewp_bind]
    exact ewp_setDirty hi true fun s₁ hi₁ _ => ewp_setBusy hi₁ false fun _ hi₂ _ => hi₂
  · exact ewp_setBusy hi false fun _ hi₁ _ => hi₁

theorem ewp_pframeCleanStart (hi : s.Index) :
    ewp (pframeCleanStart pf) (fun _ s' => s'.Index) Fault.Allowed s := by
  rw [pframeCleanStart, ewp_bind, ewp_getPframe, ewp_bind]
  refine ewp_kassert fun _ => ?_
  rw [ewp_bind]
  refine ewp_kassert fun _ => ?_
  rw [ewp_bind]
  refine ewp_setDirty hi false fun s₁ hi₁ _ => ?_
  rw [ewp_bind]
  exact ewp_pfObj fun _ _ => ewp_setBusy hi₁ true fun _ hi₂ _ => hi₂

theorem ewp_pframeCleanEnd (hi : s.Index) (ret : Int) {E : Fault → Prop} :
    ewp (pframeCleanEnd pf ret) (fun _ s' => s'.Index) E s := by
  unfold pframeCleanEnd
  split
  · rw [ewp_bind]
    exact ewp_setDirty hi true fun s₁ hi₁ _ => ewp_setBusy hi₁ false fun _ hi₂ _ => hi₂
  · exact ewp_setBusy hi false fun _ hi₁ _ => hi₁

/-! ### Migrating -/

/-- A page that moves to an object that does not have it. While the source is put, the page is in
no hash chain. -/
theorem ewp_migrateOut (hi : s.Index) (hmissing : ∀ u, ¬ s.Holds dest (s.pframes pf).pfPagenum u)
    {Q : Unit → Cache → Prop}
    (hq : ∀ s₁, (s₁.pframes pf).pfObj = some dest →
      s₁.hlink.next (.inr pf) = none ∧ s₁.hlink.prev (.inr pf) = none →
      ewp (migrateIn pf dest) (fun _ s' => s'.Index) Fault.Allowed s₁ → Q () s₁) :
    ewp (migrateOut pf dest) Q Fault.Allowed s := by
  rw [migrateOut, ewp_bind]
  refine ewp_pfObj fun src hobj => ?_
  have hused : (s.pframes pf).pfObj ≠ none := by
    rw [hobj]
    nofun
  set p : Pframe := { s.pframes pf with pfObj := some dest } with hp
  obtain ⟨size, hchains⟩ := hi.chain
  obtain ⟨h₁, hhrem, hhlink₁⟩ := hchains.remove (t := pf) (Pframe.chain_of_obj hobj)
  obtain ⟨r₁, horem, holink₁⟩ := hi.res.remove (t := pf) hobj
  rw [ewp_bind, ewp_setPframe, ewp_bind]
  refine ewp_editHlink hhrem ?_
  rw [ewp_bind]
  refine ewp_editOlink horem ?_
  rw [ewp_bind, addNrespages, ewp_modify, put, ewp_modify]
  refine hq _ ?_ ?_ ?_
  · change (Function.update s.pframes pf p pf).pfObj = _
    rw [Function.update_self]
  · exact hhlink₁.null_iff.mpr (Function.update_self _ _ _)
  · obtain ⟨h₂, hhins, hhlink₂⟩ :=
      hhlink₁.insertHead (Function.update_self pf _ _) (hashPage dest (s.pframes pf).pfPagenum)
    obtain ⟨r₂, hoins, holink₂⟩ := holink₁.insertHead (Function.update_self pf _ _) dest
    rw [Function.update_idem] at hhlink₂ holink₂
    rw [migrateIn, ewp_bind, ewp_getPframe, ewp_bind]
    simp only [Function.update_self]
    refine ewp_editHlink hhins ?_
    rw [ewp_bind]
    refine ewp_editOlink hoins ?_
    rw [ewp_bind, addNrespages, ewp_modify, ref, ewp_modify]
    refine hi.update p rfl rfl ?_ ⟨_, hhlink₂⟩ holink₂ (fun _ => hi.lt pf hused)
      (fun _ => hi.pos pf hused) ?_
    · have hpaging : p.paging = (Pframe.paging ∘ s.pframes) pf := by
        rw [Function.comp_apply, Pframe.paging, Pframe.paging, if_neg nofun, if_neg hused]
      have hself := hi.paging
      rw [hpaging, Function.update_eq_self]
      exact hself
    · rintro u _ - ⟨rfl⟩
      exact hmissing u

end CodingSample.Mm
