import CodingSample.Mm.Runs

/-!
# A fill that fails

`pframe_get` as one piece, for an object whose operations leave the cache alone, and what its
callers in the file system take from it. When the fill fails, the page goes away and everything is
as it was, but the result still points to the page frame that was freed.
-/

namespace CodingSample.Mm

open Prog

variable {s s' : Cache} {o : Mmobj} {pagenum : UInt32} {env : Env} {ret : Int}
  {result : Option Nat} {pf : Nat}

/-- `pframe_get` from `get_start` to where it returns or falls asleep; when it wakes up, it begins
again. -/
def pframeGetAlone (o : Mmobj) (pagenum : UInt32) (env : Env) : PageM Frame := do
  let frame ← pframeGet o pagenum env
  match frame with
  | .filling pf => do
      let frame ← fillEnd pf env
      frame.resume env
  | frame => pure frame

/-! ### The callers -/

inductive Middle where
  | stop (ret : Int)
  | last
  | copy (tmp : Nat)

/-- A round of the loop over the middle blocks of `s5_write_file` and of `s5_read_file`, from the
return of `pframe_get` to the copying. `last` is the page `end`. -/
def s5Middle (last : Nat) (ret : Int) (tmp : Option Nat) : PageM Middle :=
  match tmp with
  | none => pure (.stop ret)
  | some tmp =>
      if tmp = last then pure .last
      else do
        pframePin tmp
        pure (.copy tmp)

inductive Caller where
  | s5WriteFile
  | s5ReadFile
  | s5AllocBlock
  | s5SeekToBlock

/-- The page frame that a caller goes on with. The middle blocks are told apart by the pointer
alone. -/
def Caller.page (ret : Int) (result : Option Nat) : Caller → Option Nat
  | .s5WriteFile | .s5ReadFile => result
  | .s5AllocBlock | .s5SeekToBlock => if ret < 0 then none else result

/-! ### The contract -/

/-- The lists and the counters are the same. -/
structure Cache.SameLists (s s' : Cache) : Prop where
  link : s'.link = s.link
  hlink : s'.hlink = s.hlink
  olink : s'.olink = s.olink
  npinned : s'.npinned = s.npinned
  nallocated : s'.nallocated = s.nallocated
  mmoNrespages : s'.mmoNrespages = s.mmoNrespages
  mmoRefcount : s'.mmoRefcount = s.mmoRefcount

/-- The page is not resident, and the lists and the counters are as before. -/
structure Cache.Undone (s : Cache) (o : Mmobj) (pagenum : UInt32) (s' : Cache) : Prop where
  missing : ∀ u, ¬ s'.Holds o pagenum u
  same : s.SameLists s'

/-- A call that fails returns no page and leaves nothing behind, and no caller goes on with a page
frame that does not hold the page. -/
structure Cache.GetContract (s : Cache) (o : Mmobj) (pagenum : UInt32) (ret : Int)
    (result : Option Nat) (s' : Cache) : Prop where
  null : ret < 0 → result = none
  undone : ret < 0 → s.Undone o pagenum s'
  callers : ∀ (c : Caller) (pf : Nat), c.page ret result = some pf → s'.Holds o pagenum pf

/-- `pframe_get_resident` finds the page. -/
def Cache.Resident (s : Cache) (o : Mmobj) (pagenum : UInt32) : Prop :=
  ∃ pf s₁, pframeGetResident o pagenum s = .ok (some pf, s₁)

/-- In a consistent index, that is so if a page frame holds it. -/
theorem Cache.resident_iff (hi : s.Index) :
    s.Resident o pagenum ↔ ∃ pf, s.Holds o pagenum pf := by
  have hfind : wp (pframeGetResident o pagenum) (s.Found o pagenum) s :=
    wp_of_ewp (ewp_pframeGetResident hi) fun _ h => h
  obtain ⟨r, s₁, hrun, hfound⟩ := hfind
  constructor
  · rintro ⟨pf, s₂, hpf⟩
    rw [hrun] at hpf
    cases hpf
    exact ⟨pf, hfound.found pf rfl⟩
  · rintro ⟨pf, hpf⟩
    cases r with
    | none => exact absurd hpf (hfound.missing rfl pf)
    | some u => exact ⟨u, s₁, hrun⟩

/-! ### The parts of the call -/

theorem wlp_editLink {f : Links (Paging ⊕ Nat) → Option (Links (Paging ⊕ Nat))} :
    wlp (editLink f) (fun _ t => ∃ l, t = { s with link := l }) s := by
  intro _ t h
  unfold editLink at h
  split at h
  · cases h
  · cases h
    exact ⟨_, rfl⟩

theorem wlp_editHlink {f : Links (UInt32 ⊕ Nat) → Option (Links (UInt32 ⊕ Nat))} :
    wlp (editHlink f) (fun _ t => ∃ l, t = { s with hlink := l }) s := by
  intro _ t h
  unfold editHlink at h
  split at h
  · cases h
  · cases h
    exact ⟨_, rfl⟩

theorem wlp_editOlink {f : Links (Mmobj ⊕ Nat) → Option (Links (Mmobj ⊕ Nat))} :
    wlp (editOlink f) (fun _ t => ∃ l, t = { s with olink := l }) s := by
  intro _ t h
  unfold editOlink at h
  split at h
  · cases h
  · cases h
    exact ⟨_, rfl⟩

theorem wlp_findPage {fuel : Nat} {a : UInt32 ⊕ Nat} :
    wlp (findPage o pagenum fuel a)
      (fun r t => (r = none → t = s) ∧ ∀ pf, r = some pf → s.Holds o pagenum pf ∧
        ∃ l, t = { s with link := l }) s := by
  induction fuel generalizing a with
  | zero => exact wlp_fail.mpr trivial
  | succ fuel ih =>
      rw [findPage, wlp_bind, wlp_get]
      split
      · exact wlp_fail.mpr trivial
      · refine wlp_pure.mpr ⟨fun _ => rfl, ?_⟩
        intro pf hpf
        cases hpf
      · rename_i pf _
        split
        · rename_i hpf
          split
          · refine wlp_bind_of wlp_editLink ?_
            rintro _ _ ⟨l, rfl⟩
            refine wlp_bind_of wlp_editLink ?_
            rintro _ _ ⟨l', rfl⟩
            refine wlp_pure.mpr ⟨fun h => absurd h (Option.some_ne_none _), ?_⟩
            rintro _ ⟨rfl⟩
            exact ⟨hpf, l', rfl⟩
          · refine wlp_pure.mpr ⟨fun h => absurd h (Option.some_ne_none _), ?_⟩
            rintro _ ⟨rfl⟩
            exact ⟨hpf, s.link, rfl⟩
        · exact ih

theorem wlp_pframeGetResident :
    wlp (pframeGetResident o pagenum)
      (fun r t => (r = none → t = s) ∧ ∀ pf, r = some pf → s.Holds o pagenum pf ∧
        ∃ l, t = { s with link := l }) s := by
  rw [pframeGetResident, wlp_bind, wlp_get]
  exact wlp_findPage

/-- What `pframe_alloc` leaves of the state. -/
theorem wlp_pframeAlloc {fresh : Option Nat} :
    wlp (pframeAlloc o pagenum fresh)
      (fun r t => r = fresh ∧
        ∀ pf, fresh = some pf → t.pframes pf = ⟨some o, pagenum, false, false, 0⟩) s := by
  cases fresh with
  | none =>
      refine wlp_pure.mpr ⟨rfl, ?_⟩
      intro pf hpf
      cases hpf
  | some pf =>
      rw [pframeAlloc, wlp_bind, addNallocated, wlp_modify]
      refine wlp_bind_of wlp_editLink ?_
      rintro _ _ ⟨l, rfl⟩
      rw [wlp_bind, setPframe, wlp_modify]
      refine wlp_bind_of wlp_editHlink ?_
      rintro _ _ ⟨h, rfl⟩
      rw [wlp_bind, ref, wlp_modify, wlp_bind, addNrespages, wlp_modify]
      refine wlp_bind_of wlp_editOlink ?_
      rintro _ _ ⟨r, rfl⟩
      refine wlp_pure.mpr ⟨rfl, ?_⟩
      rintro _ ⟨rfl⟩
      exact Function.update_self _ _ _

theorem Cache.Holds.setBusy (hpf : s.Holds o pagenum pf) (busy : Bool) :
    Cache.Holds
      { s with pframes := Function.update s.pframes pf ({ s.pframes pf with busy := busy }) }
      o pagenum pf := by
  simp only [Cache.Holds, Function.update_self]
  exact hpf

/-- The end of a call that filled the page. -/
theorem wlp_fillEnd_resume (env : Env) (hpf : s.Holds o pagenum pf) :
    wlp (do let frame ← fillEnd pf env; frame.resume env)
      (fun f t => (0 ≤ env.ret ∧ f = .returned 0 (some pf) ∧ t.Holds o pagenum pf) ∨
        (env.ret < 0 ∧ f = .returned env.ret (some pf))) s := by
  rw [wlp_bind, fillEnd, wlp_bind, setBusy, setPframe, wlp_modify]
  split
  · rename_i hret
    refine wlp_bind_of (Q := fun _ _ => True) (fun _ _ _ => trivial) ?_
    intro _ t _
    exact wlp_pure.mpr (wlp_pure.mpr (Or.inr ⟨hret, rfl⟩))
  · rename_i hret
    rw [wlp_bind, getPframe, wlp_bind, wlp_get, wlp_pure, wlp_bind, kassert, wlp_check]
    intro _
    exact wlp_pure.mpr (wlp_pure.mpr (Or.inl ⟨Int.not_lt.mp hret, rfl, hpf.setBusy false⟩))

/-- How a call returns: with a resident page, or after a fill, and then with the new page frame
whatever the fill did. -/
theorem pframeGetAlone_cases
    (hrun : pframeGetAlone o pagenum env s = .ok (.returned ret result, s')) :
    ((s.Resident o pagenum ∨ 0 ≤ env.ret) ∧ ret = 0 ∧
      ∃ pf, result = some pf ∧ s'.Holds o pagenum pf) ∨
    (¬ s.Resident o pagenum ∧ env.ret < 0 ∧ ret = env.ret ∧ ∃ pf, result = some pf) := by
  rw [pframeGetAlone, pframeGet, bind_ok_iff] at hrun
  obtain ⟨frame, t, hget, hend⟩ := hrun
  obtain ⟨r, s₁, hr, hget⟩ := bind_ok_iff.mp hget
  obtain ⟨hnone, hholds⟩ := wlp_pframeGetResident r s₁ hr
  cases r with
  | some pf =>
      obtain ⟨hpf, l, rfl⟩ := hholds pf rfl
      simp only [getPframe, bind_apply, get_apply, pure_apply] at hget
      split at hget
      · cases hget
        cases hend
      · cases hget
        cases hend
        exact Or.inl ⟨Or.inl ⟨pf, _, hr⟩, rfl, pf, rfl, hpf⟩
  | none =>
      have hmissing : ¬ s.Resident o pagenum := by
        rintro ⟨pf, s₂, hpf⟩
        rw [hr] at hpf
        cases hpf
      obtain ⟨page, s₂, halloc, hget⟩ := bind_ok_iff.mp hget
      obtain ⟨rfl, hnew⟩ := wlp_pframeAlloc page s₂ halloc
      cases hfresh : env.fresh with
      | none =>
          rw [hfresh] at hget
          cases hget
      | some pf =>
          rw [hfresh] at hget
          cases hget
          have hpf : s₂.Holds o pagenum pf := by
            rw [Cache.Holds, hnew pf hfresh]
            exact ⟨rfl, rfl⟩
          rcases wlp_fillEnd_resume env (hpf.setBusy true) _ _ hend with
            ⟨hret, hf, hin⟩ | ⟨hret, hf⟩
          · cases hf
            exact Or.inl ⟨Or.inr hret, rfl, pf, rfl, hin⟩
          · cases hf
            exact Or.inr ⟨hmissing, hret, rfl, pf, rfl⟩

/-! ### What is undone -/

/-- A new page frame is at one end of each of its three lists. -/
theorem pframeAlloc_apply (hi : s.Index) (hfree : (s.pframes pf).pfObj = none) :
    ∃ l h r, l.remove (.inr pf) = some s.link ∧ h.remove (.inr pf) = some s.hlink ∧
      r.remove (.inr pf) = some s.olink ∧
      pframeAlloc o pagenum (some pf) s = .ok (some pf, { s with
        pframes := Function.update s.pframes pf ⟨some o, pagenum, false, false, 0⟩
        link := l
        hlink := h
        olink := r
        nallocated := s.nallocated + 1
        mmoRefcount := Function.update s.mmoRefcount o (s.mmoRefcount o + 1)
        mmoNrespages := Function.update s.mmoNrespages o (s.mmoNrespages o + 1) }) := by
  have hpaging : (Pframe.paging ∘ s.pframes) pf = none := Pframe.paging_of_free hfree
  have hchain : (Pframe.chain ∘ s.pframes) pf = none := by
    rw [Function.comp_apply, Pframe.chain, hfree]
    rfl
  obtain ⟨size, hchains⟩ := hi.chain
  obtain ⟨l, hins, -⟩ := hi.paging.insertTail hpaging .allocList
  obtain ⟨h, hhins, -⟩ := hchains.insertHead hchain (hashPage o pagenum)
  obtain ⟨r, hoins, -⟩ := hi.res.insertHead (t := pf) hfree o
  refine ⟨l, h, r, hi.paging.remove_insertTail hpaging hins,
    hchains.remove_insertHead hchain hhins, hi.res.remove_insertHead (t := pf) hfree hoins, ?_⟩
  simp only [pframeAlloc, addNallocated, editLink, setPframe, editHlink, ref, addNrespages,
    editOlink, bind_apply, modify_apply, hins, hhins, hoins, pure_apply]

/-- A page frame that is freed leaves its lists. -/
theorem pframeFree_apply (o : Mmobj) (hobj : (s.pframes pf).pfObj = some o)
    (hpin : (s.pframes pf).pfPincount = 0) (hbusy : (s.pframes pf).busy = false) {l h r}
    (hl : s.link.remove (.inr pf) = some l) (hh : s.hlink.remove (.inr pf) = some h)
    (hr : s.olink.remove (.inr pf) = some r) :
    pframeFree pf s = .ok ((), { s with
      pframes := Function.update s.pframes pf { s.pframes pf with pfObj := none }
      link := l
      hlink := h
      olink := r
      nallocated := s.nallocated + -1
      mmoNrespages := Function.update s.mmoNrespages o (s.mmoNrespages o + -1)
      mmoRefcount := Function.update s.mmoRefcount o (s.mmoRefcount o - 1) }) := by
  simp [pframeFree, setPframe, bind_apply, getPframe, kassert, hpin, hobj, hbusy, pfObj,
    editHlink, hh, addNallocated, editLink, hl, addNrespages, editOlink, hr, put]

/-- A page frame whose fill fails is freed. -/
theorem fillEnd_apply (o : Mmobj) (hret : env.ret < 0) (hobj : (s.pframes pf).pfObj = some o)
    (hpin : (s.pframes pf).pfPincount = 0) {l h r}
    (hl : s.link.remove (.inr pf) = some l) (hh : s.hlink.remove (.inr pf) = some h)
    (hr : s.olink.remove (.inr pf) = some r) :
    fillEnd pf env s = .ok (.putting env.ret (some pf), { s with
      pframes := Function.update s.pframes pf
        { s.pframes pf with busy := false, pfObj := none }
      link := l
      hlink := h
      olink := r
      nallocated := s.nallocated + -1
      mmoNrespages := Function.update s.mmoNrespages o (s.mmoNrespages o + -1)
      mmoRefcount := Function.update s.mmoRefcount o (s.mmoRefcount o - 1) }) := by
  have hfree : pframeFree pf { s with
      pframes := Function.update s.pframes pf ({ s.pframes pf with busy := false }) } = _ :=
    pframeFree_apply o (by simpa using hobj) (by simpa using hpin) (by simp) hl hh hr
  simp only [Function.update_self, Function.update_idem] at hfree
  rw [fillEnd, setBusy, setPframe, bind_apply, modify_apply]
  simp only [hret, if_true]
  rw [bind_eq_of_ok hfree]
  rfl

/-- The fill of a new page fails. -/
theorem undone_of_fill_fails (hi : s.Index) (hmissing : ∀ u, ¬ s.Holds o pagenum u)
    (hfresh : ∀ pf, env.fresh = some pf → (s.pframes pf).pfObj = none) (hret : env.ret < 0)
    (hrun : pframeGetAlone o pagenum env s = .ok (.returned ret result, s')) :
    s.Undone o pagenum s' := by
  rw [pframeGetAlone, pframeGet, bind_ok_iff] at hrun
  obtain ⟨frame, t, hget, hend⟩ := hrun
  obtain ⟨r, s₁, hr, hstep⟩ := bind_ok_iff.mp hget
  obtain ⟨hnone, hholds⟩ := wlp_pframeGetResident r s₁ hr
  cases r with
  | some pf => exact absurd (hholds pf rfl).1 (hmissing pf)
  | none =>
      obtain rfl := hnone rfl
      cases henv : env.fresh with
      | none =>
          rw [henv] at hstep
          cases hstep
      | some pf =>
          obtain ⟨l, h, r, hl, hh, hr, halloc⟩ :=
            pframeAlloc_apply hi (hfresh pf henv)
          simp only [henv] at hstep
          rw [bind_eq_of_ok halloc] at hstep
          cases hstep
          simp only [] at hend
          rw [bind_eq_of_ok (fillEnd_apply o hret ?_ ?_ hl hh hr)] at hend
          · cases hend
            refine ⟨?_, ?_⟩
            · intro u hu
              by_cases hupf : u = pf
              · simp [Cache.Holds, hupf] at hu
              · refine hmissing u ?_
                simpa [Cache.Holds, hupf] using hu
            · exact ⟨rfl, rfl, rfl, rfl, Int.add_neg_cancel_right ..,
                by simp [Int.add_neg_cancel_right], by simp⟩
          · simp
          · simp

/-! ### The contract of `pframe_get` -/

/-- The contract holds of a call exactly if the page is resident or the fill does not fail. In a
consistent index, a call that fails leaves nothing behind either, so that only the result is
wrong. -/
theorem pframe_get_contract
    (hrun : pframeGetAlone o pagenum env s = .ok (.returned ret result, s')) :
    (s.GetContract o pagenum ret result s' ↔ s.Resident o pagenum ∨ 0 ≤ env.ret) ∧
      (s.Index → (∀ pf, env.fresh = some pf → (s.pframes pf).pfObj = none) → ret < 0 →
        s.Undone o pagenum s' ∧ ∃ pf, result = some pf ∧ ¬ s'.Holds o pagenum pf) := by
  rcases pframeGetAlone_cases hrun with ⟨hcond, rfl, pf, rfl, hpf⟩ | ⟨hmissing, hret, rfl, pf, rfl⟩
  · refine ⟨iff_of_true ⟨nofun, nofun, ?_⟩ hcond, nofun⟩
    intro c u hu
    have hc : c.page 0 (some pf) = some pf := by
      cases c <;> rfl
    rw [hc] at hu
    cases hu
    exact hpf
  · refine ⟨iff_of_false ?_ ?_, ?_⟩
    · intro hcontract
      cases hcontract.null hret
    · rintro (hres | hfill)
      · exact hmissing hres
      · exact absurd hret (Int.not_lt.mpr hfill)
    · intro hi hfresh _
      have hundone : s.Undone o pagenum s' := by
        refine undone_of_fill_fails hi ?_ hfresh hret hrun
        intro u hu
        exact hmissing ((Cache.resident_iff hi).mpr ⟨u, hu⟩)
      exact ⟨hundone, pf, rfl, hundone.missing pf⟩

/-- Page 5 of the object 1 is filled. -/
theorem pframe_get_contract_filled : ∃ s',
    pframeGetAlone 1 5 ⟨0, some 0, false⟩ (pframeInit 2) = .ok (.returned 0 (some 0), s') ∧
    (pframeInit 2).GetContract 1 5 0 (some 0) s' := by
  have hrun : pframeGetAlone 1 5 ⟨0, some 0, false⟩ (pframeInit 2) =
    .ok (.returned 0 (some 0), _) := rfl
  exact ⟨_, hrun, (pframe_get_contract hrun).1.mpr (Or.inr (Int.le_refl 0))⟩

/-- The fill of page 5 of the object 1 fails with `-EIO`. A middle block goes on to pin the page
frame, and the assertion that it is not free fails. -/
theorem pframe_get_contract_broken : ∃ s',
    pframeGetAlone 1 5 ⟨-5, some 0, false⟩ (pframeInit 2) =
      .ok (.returned (-5) (some 0), s') ∧
    ¬ (pframeInit 2).GetContract 1 5 (-5) (some 0) s' ∧
    s5Middle 1 (-5) (some 0) s' = .error .assertion := by
  refine ⟨_, rfl, ?_, rfl⟩
  intro hcontract
  cases hcontract.null (by decide)

end CodingSample.Mm
