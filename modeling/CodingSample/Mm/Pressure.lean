import CodingSample.Mm.Failure
import Mathlib.Data.Finset.Card
import Mathlib.Data.Finset.Range

/-!
# The page cache without memory

The kernel is not preemptive: a thread runs until it returns or sleeps. `pframe_get` that finds no
memory wakes the page-out daemon up and looks again at once, and the daemon looks again at once
after a page that it could not clean.
-/

namespace CodingSample.Mm

open Prog

/-! ### `pframe_get` -/

/-- What a pass of `pframe_get` meets: the page frame that the allocators give it, which may have
taken memory back from their caches, `page_free_count` after that, and the result of the fill. -/
structure Supply where
  fresh : Option Nat
  freeCount : Nat
  ret : Int

def nfreepagesMin : Nat := 0

/-- `pageoutd_needed` -/
def pageoutdNeeded (freeCount : Nat) : PageM Bool := do
  let s ← get
  pure (freeCount ≤ nfreepagesMin && !s.link.isEmpty (.inl .allocList))

/-- How far a pass from `get_start` gets: the call returns or falls asleep, or it starts again. It
may have made the page-out daemon runnable. -/
structure Pass where
  frame : Option Frame
  woken : Bool

/-- `pframe_get` from one `get_start` to the next. The operations of the object leave the cache as
it is. -/
def getStart (o : Mmobj) (pagenum : UInt32) (env : Supply) : PageM Pass := do
  let page ← pframeGetResident o pagenum
  match page with
  | some pf => do
      let p ← getPframe pf
      pure ⟨some (if p.busy then .asleep o pagenum else .returned 0 (some pf)), false⟩
  | none => do
      let page ← pframeAlloc o pagenum env.fresh
      let woken ← pageoutdNeeded env.freeCount
      match page with
      | none => pure ⟨none, woken⟩
      | some pf => do
          setBusy pf true
          let frame ← fillEnd pf ⟨env.ret, none, false⟩
          let frame ← frame.resume ⟨env.ret, none, false⟩
          pure ⟨some frame, woken⟩

/-- The first passes of a call, at most `n` of them. -/
def pframeGetPasses (o : Mmobj) (pagenum : UInt32) : Nat → (Nat → Supply) → PageM (Option Frame)
  | 0, _ => pure none
  | n + 1, env => do
      let pass ← getStart o pagenum (env 0)
      match pass.frame with
      | some frame => pure (some frame)
      | none => pframeGetPasses o pagenum n fun i => env (i + 1)

/-- The call returns or falls asleep after finitely many passes. -/
def Cache.GetEnds (s : Cache) (o : Mmobj) (pagenum : UInt32) (env : Nat → Supply) : Prop :=
  ∃ n, wp (pframeGetPasses o pagenum n env) (fun frame _ => frame ≠ none) s

/-! ### The page-out daemon -/

/-- What a pass of the daemon meets: `page_free_count` and its target, the result of `cleanpage`,
and whether that or the `put` of the object blocks. -/
structure Pressure where
  freeCount : Nat
  nfreepagesTarget : Nat
  ret : Int
  blocks : Bool

inductive Outcome where
  /-- The condition of the loop does not hold. -/
  | ended
  | slept
  /-- The pass ran to its end without a pause. -/
  | again
  deriving DecidableEq

/-- The pass when the first page is dirty. -/
def cleanHead (pf : Nat) (env : Pressure) : PageM Outcome := do
  pframeCleanStart pf
  if env.blocks then pure .slept
  else do
    pframeCleanEnd pf env.ret
    pure .again

def freeHead (pf : Nat) (env : Pressure) : PageM Outcome := do
  pframeFree pf
  pure (if env.blocks then .slept else .again)

/-- A pass of the inner loop of `pageoutd_run`, up to where it sleeps. -/
def pageoutdPass (env : Pressure) : PageM Outcome := do
  let s ← get
  if env.nfreepagesTarget ≤ env.freeCount ∨ s.link.isEmpty (.inl .allocList) then pure .ended
  else
    match s.link.next (.inl .allocList) with
    | some (.inr pf) =>
        if (s.pframes pf).busy then pure .slept
        else if (s.pframes pf).dirty then cleanHead pf env
        else freeHead pf env
    | _ => fail .badLink

/-- The page frames in use. -/
def Cache.resident (s : Cache) : Finset Nat :=
  {pf ∈ Finset.range s.frames | (s.pframes pf).pfObj ≠ none}

def Cache.dirtyPages (s : Cache) : Finset Nat :=
  {pf ∈ s.resident | (s.pframes pf).dirty}

/-- The pass sleeps, ends, or leaves fewer dirty or fewer resident pages. -/
def Cache.Progress (s : Cache) (r : Outcome) (s' : Cache) : Prop :=
  r = .ended ∨ r = .slept ∨ s'.dirtyPages.card < s.dirtyPages.card ∨
    s'.resident.card < s.resident.card

/-- The least recently requested page is dirty and not busy, and writing it out fails without
blocking. -/
def Cache.Unclean (s : Cache) (env : Pressure) : Prop :=
  env.freeCount < env.nfreepagesTarget ∧ env.ret < 0 ∧ env.blocks = false ∧
    ∃ pf, s.link.next (.inl .allocList) = some (.inr pf) ∧ (s.pframes pf).busy = false ∧
      (s.pframes pf).dirty = true

variable {s s' : Cache} {o : Mmobj} {pagenum : UInt32} {pf : Nat}

/-! ### The retry loop -/

/-- A resident page ends the call in the first pass. -/
theorem getEnds_of_resident (hres : s.Resident o pagenum) (env : Nat → Supply) :
    s.GetEnds o pagenum env := by
  obtain ⟨pf, s₁, hpf⟩ := hres
  refine ⟨1, ?_⟩
  rw [pframeGetPasses, wp_bind, getStart, wp_bind, wp_of_eq hpf]
  simp [getPframe, bind_apply, wp]

/-- A page that is not resident is looked for in vain, and nothing changes. -/
theorem pframeGetResident_missing (hi : s.Index) (hmissing : ¬ s.Resident o pagenum) :
    pframeGetResident o pagenum s = .ok (none, s) := by
  have hfind : wp (pframeGetResident o pagenum) (s.Found o pagenum) s :=
    wp_of_ewp (ewp_pframeGetResident hi) fun _ h => h
  obtain ⟨r, s₁, hrun, hfound⟩ := hfind
  cases r with
  | some pf => exact absurd ⟨pf, s₁, hrun⟩ hmissing
  | none =>
      obtain ⟨hsame, -⟩ := wlp_pframeGetResident none s₁ hrun
      rw [hrun, hsame rfl]

/-- A pass without memory leads back to its beginning, whether or not the daemon has been made
runnable. -/
theorem getStart_starved (hi : s.Index) (hmissing : ¬ s.Resident o pagenum) {env : Supply}
    (hnone : env.fresh = none) : ∃ woken, getStart o pagenum env s = .ok (⟨none, woken⟩, s) := by
  rw [getStart, bind_eq_of_ok (pframeGetResident_missing hi hmissing)]
  simp only [hnone, pframeAlloc, pageoutdNeeded, bind_apply, pure_apply, get_apply]
  exact ⟨_, rfl⟩

/-- A fill ends whatever its result is. -/
theorem wp_fillEnd (o : Mmobj) {env : Env} (hobj : (s.pframes pf).pfObj = some o)
    (hpin : (s.pframes pf).pfPincount = 0) {l h r}
    (hl : s.link.remove (.inr pf) = some l) (hh : s.hlink.remove (.inr pf) = some h)
    (hr : s.olink.remove (.inr pf) = some r) :
    wp (fillEnd pf env)
      (fun frame _ => ∃ ret result, frame = .putting ret result ∨ frame = .returned ret result)
      s := by
  by_cases hret : env.ret < 0
  · rw [wp_of_eq (fillEnd_apply o hret hobj hpin hl hh hr)]
    exact ⟨_, _, Or.inl rfl⟩
  · simp [fillEnd, setBusy, setPframe, wp, bind_apply, hret, getPframe, kassert]

/-- A pass with memory ends the call. -/
theorem getStart_fed (hi : s.Index) (hmissing : ¬ s.Resident o pagenum) {env : Supply}
    (hfresh : env.fresh = some pf) (hfree : (s.pframes pf).pfObj = none) :
    wp (getStart o pagenum env) (fun pass _ => pass.frame ≠ none) s := by
  obtain ⟨l, h, r, hl, hh, hr, halloc⟩ := pframeAlloc_apply hi hfree
  rw [getStart, wp_bind, wp_of_eq (pframeGetResident_missing hi hmissing)]
  simp only [hfresh]
  rw [wp_bind, wp_of_eq halloc, wp_bind, pageoutdNeeded, wp_bind, wp_get, wp_pure]
  simp only []
  rw [wp_bind, setBusy, setPframe, wp_modify, wp_bind]
  refine wp_mono (wp_fillEnd o ?_ ?_ hl hh hr) ?_
  · simp only [Function.update_self]
  · simp only [Function.update_self]
  · rintro _ t ⟨ret, result, rfl | rfl⟩
    · rw [Frame.resume, wp_bind, wp_pure, wp_pure]
      exact Option.some_ne_none _
    · rw [Frame.resume, wp_bind, wp_pure, wp_pure]
      exact Option.some_ne_none _

theorem passes_starved (hi : s.Index) (hmissing : ¬ s.Resident o pagenum) {n : Nat}
    {env : Nat → Supply} (hnone : ∀ i, i < n → (env i).fresh = none) :
    pframeGetPasses o pagenum n env s = .ok (none, s) := by
  induction n generalizing env with
  | zero => rfl
  | succ n ih =>
      obtain ⟨woken, hpass⟩ := getStart_starved hi hmissing (hnone 0 (Nat.zero_lt_succ n))
      rw [pframeGetPasses, bind_eq_of_ok hpass]
      exact ih fun i hin => hnone (i + 1) (Nat.succ_lt_succ hin)

/-- Memory in the first pass. -/
theorem getEnds_of_fed (hi : s.Index) (hmissing : ¬ s.Resident o pagenum) {env : Nat → Supply}
    (hfresh : ∀ i pf, (env i).fresh = some pf → (s.pframes pf).pfObj = none)
    (hfed : (env 0).fresh ≠ none) : s.GetEnds o pagenum env := by
  obtain ⟨pf, hpf⟩ := Option.ne_none_iff_exists'.mp hfed
  refine ⟨1, ?_⟩
  rw [pframeGetPasses]
  refine wp_bind_of (getStart_fed hi hmissing hpf (hfresh 0 pf hpf)) ?_
  intro pass t hpass
  cases hframe : pass.frame with
  | none => exact absurd hframe hpass
  | some frame => exact wp_pure.mpr nofun

/-- A call for a page that is not resident ends exactly if some pass is given memory. -/
theorem getEnds_iff_fed (hi : s.Index) (hmissing : ¬ s.Resident o pagenum) {env : Nat → Supply}
    (hfresh : ∀ i pf, (env i).fresh = some pf → (s.pframes pf).pfObj = none) :
    s.GetEnds o pagenum env ↔ ∃ i, (env i).fresh ≠ none := by
  constructor
  · rintro ⟨n, hn⟩
    by_contra hstarved
    have hnone : ∀ i, i < n → (env i).fresh = none := by
      intro i _
      by_contra hi
      exact hstarved ⟨i, hi⟩
    rw [wp_of_eq (passes_starved hi hmissing hnone)] at hn
    exact hn rfl
  · rintro ⟨i, hfed⟩
    induction i generalizing env with
    | zero => exact getEnds_of_fed hi hmissing hfresh hfed
    | succ i ih =>
        by_cases hzero : (env 0).fresh = none
        · obtain ⟨n, hn⟩ := ih (fun j pf => hfresh (j + 1) pf) hfed
          obtain ⟨woken, hpass⟩ := getStart_starved hi hmissing hzero
          refine ⟨n + 1, ?_⟩
          rw [pframeGetPasses, wp_bind, wp_of_eq hpass]
          exact hn
        · exact getEnds_of_fed hi hmissing hfresh hzero

/-! ### A pass of the daemon -/

/-- The first page of the list can be cleaned and freed as far as its pin count goes. -/
theorem head_unpinned (hpf : (Pframe.paging ∘ s.pframes) pf = some .allocList) :
    (∃ o, (s.pframes pf).pfObj = some o) ∧ (s.pframes pf).pfPincount = 0 := by
  rw [Function.comp_apply, Pframe.paging] at hpf
  split at hpf
  · cases hpf
  · rename_i hobj
    split at hpf
    · rename_i hpin
      exact ⟨Option.ne_none_iff_exists'.mp hobj, hpin⟩
    · cases hpf

theorem mem_resident (hi : s.Index) : pf ∈ s.resident ↔ (s.pframes pf).pfObj ≠ none := by
  rw [Cache.resident, Finset.mem_filter, Finset.mem_range]
  exact ⟨And.right, fun hobj => ⟨hi.lt pf hobj, hobj⟩⟩

section Flags

variable (p : Pframe) (hobj : p.pfObj = (s.pframes pf).pfObj) {c : Cache}
  (hframes : c.frames = s.frames) (hpframes : c.pframes = Function.update s.pframes pf p)

include hobj hframes hpframes

/-- A page frame that keeps its object. -/
theorem resident_setFlags : c.resident = s.resident := by
  unfold Cache.resident
  rw [hframes, hpframes]
  apply Finset.filter_congr
  intro u _
  by_cases hu : u = pf
  · simp [hu, hobj]
  · simp [hu]

theorem dirtyPages_setFlags (hdirty : p.dirty = (s.pframes pf).dirty) :
    c.dirtyPages = s.dirtyPages := by
  unfold Cache.dirtyPages
  rw [resident_setFlags p hobj hframes hpframes, hpframes]
  apply Finset.filter_congr
  intro u _
  by_cases hu : u = pf
  · simp [hu, hdirty]
  · simp [hu]

/-- One dirty page less. -/
theorem dirtyPages_clean (hi : s.Index) (hin : (s.pframes pf).pfObj ≠ none)
    (hold : (s.pframes pf).dirty = true) (hnew : p.dirty = false) :
    c.dirtyPages.card < s.dirtyPages.card := by
  have herase : c.dirtyPages = s.dirtyPages.erase pf := by
    ext u
    rw [Cache.dirtyPages, Finset.mem_filter, resident_setFlags p hobj hframes hpframes, hpframes,
      Finset.mem_erase, Cache.dirtyPages, Finset.mem_filter]
    by_cases hu : u = pf
    · simp [hu, hnew]
    · simp [hu]
  have hmem : pf ∈ s.dirtyPages := by
    rw [Cache.dirtyPages, Finset.mem_filter, mem_resident hi]
    exact ⟨hin, hold⟩
  rw [herase]
  exact Finset.card_erase_lt_of_mem hmem

end Flags

/-- One resident page less. -/
theorem resident_free (hi : s.Index) (hin : (s.pframes pf).pfObj ≠ none) {p : Pframe}
    (hobj : p.pfObj = none) {c : Cache} (hframes : c.frames = s.frames)
    (hpframes : c.pframes = Function.update s.pframes pf p) :
    c.resident.card < s.resident.card := by
  have herase : c.resident = s.resident.erase pf := by
    ext u
    rw [Cache.resident, Finset.mem_filter, hframes, hpframes, Finset.mem_erase, Cache.resident,
      Finset.mem_filter]
    by_cases hu : u = pf
    · simp [hu, hobj]
    · simp [hu]
  rw [herase]
  exact Finset.card_erase_lt_of_mem ((mem_resident hi).mpr hin)

/-- A clean that does not block changes the flags only, and the page stays dirty if it fails. -/
theorem cleanHead_apply (hobj : (s.pframes pf).pfObj = some o)
    (hpin : (s.pframes pf).pfPincount = 0) (hdirty : (s.pframes pf).dirty = true)
    {env : Pressure} (hblocks : env.blocks = false) :
    ∃ p c, p.pfObj = (s.pframes pf).pfObj ∧ p.dirty = decide (env.ret < 0) ∧
      Cache.frames c = s.frames ∧ c.pframes = Function.update s.pframes pf p ∧
      cleanHead pf env s = .ok (.again, c) := by
  by_cases hret : env.ret < 0
  · simp [cleanHead, pframeCleanStart, bind_apply, getPframe, kassert, hdirty, hpin, setDirty,
      setBusy, setPframe, pfObj, hobj, hblocks, pframeCleanEnd, hret]
    exact ⟨_, rfl, rfl, rfl⟩
  · simp [cleanHead, pframeCleanStart, bind_apply, getPframe, kassert, hdirty, hpin, setDirty,
      setBusy, setPframe, pfObj, hobj, hblocks, pframeCleanEnd, hret]
    exact ⟨_, rfl, rfl, rfl⟩

/-- A page that cannot be written out is as dirty as before, and still the first. -/
theorem wp_cleanHead (hi : s.Index) (hobj : (s.pframes pf).pfObj = some o)
    (hpin : (s.pframes pf).pfPincount = 0) (hdirty : (s.pframes pf).dirty = true)
    {env : Pressure} :
    wp (cleanHead pf env)
      (fun r s' => s.Progress r s' ↔ ¬ (env.ret < 0 ∧ env.blocks = false)) s := by
  have hin : (s.pframes pf).pfObj ≠ none := by
    rw [hobj]
    nofun
  cases hblocks : env.blocks with
  | true =>
      simp [cleanHead, pframeCleanStart, wp, bind_apply, getPframe, kassert, hdirty, hpin, setDirty,
        setBusy, setPframe, pfObj, hobj, hblocks, Cache.Progress]
  | false =>
      obtain ⟨p, c, hobj', hdirty', hframes, hpframes, hrun⟩ :=
        cleanHead_apply hobj hpin hdirty hblocks
      rw [wp_of_eq hrun]
      by_cases hret : env.ret < 0
      · have hsame : p.dirty = (s.pframes pf).dirty := by
          simp [hdirty', hdirty, hret]
        rw [Cache.Progress, resident_setFlags p hobj' hframes hpframes,
          dirtyPages_setFlags p hobj' hframes hpframes hsame]
        simp [hret]
      · have hclean : p.dirty = false := by
          simp [hdirty', hret]
        refine iff_of_true (Or.inr (Or.inr (Or.inl ?_))) fun h => hret h.1
        exact dirtyPages_clean p hobj' hframes hpframes hi hin hdirty hclean

theorem wp_freeHead (hi : s.Index) (hobj : (s.pframes pf).pfObj = some o)
    (hpin : (s.pframes pf).pfPincount = 0) (hbusy : (s.pframes pf).busy = false)
    {env : Pressure} : wp (freeHead pf env) s.Progress s := by
  have hin : (s.pframes pf).pfObj ≠ none := by
    rw [hobj]
    nofun
  obtain ⟨size, hchains⟩ := hi.chain
  obtain ⟨h, hh, -⟩ := hchains.remove (t := pf) (Pframe.chain_of_obj hobj)
  obtain ⟨l, hl, -⟩ := hi.paging.remove (t := pf) (Pframe.paging_of_alloc hin hpin)
  obtain ⟨r, hr, -⟩ := hi.res.remove (t := pf) hobj
  rw [freeHead, wp_bind, wp_of_eq (pframeFree_apply o hobj hpin hbusy hl hh hr), wp_pure]
  exact Or.inr (Or.inr (Or.inr (resident_free hi hin rfl rfl rfl)))

/-- The step lemma. -/
theorem wp_pageoutdPass (hi : s.Index) (env : Pressure) :
    wp (pageoutdPass env) (fun r s' => s.Progress r s' ↔ ¬ s.Unclean env) s := by
  rw [pageoutdPass, wp_bind, wp_get]
  split
  · rename_i hend
    refine wp_pure.mpr (iff_of_true (Or.inl rfl) ?_)
    rintro ⟨hfree, -, -, pf, hpf, -⟩
    rcases hend with hmet | hempty
    · exact absurd hfree (Nat.not_lt.mpr hmet)
    · rw [Links.isEmpty, decide_eq_true_eq, hpf] at hempty
      cases hempty
  · rename_i hgo
    rw [not_or, Nat.not_le] at hgo
    rcases hi.paging.next_head .allocList with hempty | ⟨pf, hpf, hhome⟩
    · rw [Links.isEmpty, decide_eq_true_eq] at hgo
      exact absurd hempty hgo.2
    · obtain ⟨⟨o, hobj⟩, hpin⟩ := head_unpinned hhome
      have hunclean : s.Unclean env ↔ (env.ret < 0 ∧ env.blocks = false) ∧
          (s.pframes pf).busy = false ∧ (s.pframes pf).dirty = true := by
        constructor
        · rintro ⟨-, hret, hblocks, u, hu, hbusy, hdirty⟩
          rw [hpf] at hu
          cases hu
          exact ⟨⟨hret, hblocks⟩, hbusy, hdirty⟩
        · rintro ⟨⟨hret, hblocks⟩, hbusy, hdirty⟩
          exact ⟨hgo.1, hret, hblocks, pf, hpf, hbusy, hdirty⟩
      rw [hpf, hunclean]
      simp only []
      split
      · rename_i hbusy
        exact wp_pure.mpr (iff_of_true (Or.inr (Or.inl rfl)) fun h => by simp [hbusy] at h)
      · rename_i hbusy
        rw [Bool.not_eq_true] at hbusy
        split
        · rename_i hdirty
          simp only [hbusy, hdirty, and_true]
          exact wp_cleanHead hi hobj hpin hdirty
        · rename_i hdirty
          refine wp_mono (wp_freeHead hi hobj hpin hbusy) fun r s' hprogress => ?_
          exact iff_of_true hprogress fun h => hdirty h.2.2

/-! ### Progress -/

/-- A call of `pframe_get` returns or sleeps exactly if the page is resident or one of its passes
is given memory, and a pass of the daemon makes progress, sleeps or ends exactly unless the least
recently requested page is dirty and cannot be written out. -/
theorem memory_pressure (hi : s.Index) :
    (∀ (o : Mmobj) (pagenum : UInt32) (env : Nat → Supply),
      (∀ i pf, (env i).fresh = some pf → (s.pframes pf).pfObj = none) →
      (s.GetEnds o pagenum env ↔ s.Resident o pagenum ∨ ∃ i, (env i).fresh ≠ none)) ∧
    ∀ env : Pressure, wp (pageoutdPass env) (fun r s' => s.Progress r s' ↔ ¬ s.Unclean env) s := by
  refine ⟨?_, wp_pageoutdPass hi⟩
  intro o pagenum env hfresh
  by_cases hres : s.Resident o pagenum
  · exact iff_of_true (getEnds_of_resident hres env) (Or.inl hres)
  · rw [getEnds_iff_fed hi hres hfresh]
    exact (or_iff_right hres).symm

/-- Memory for page 5 of the object 1 in the third pass. -/
theorem memory_pressure_fed :
    (pframeInit 2).GetEnds 1 5 fun i => ⟨if i < 2 then none else some 0, 0, 0⟩ :=
  ((memory_pressure (index_pframeInit 2)).1 1 5 _ fun _ _ _ => rfl).mpr
    (Or.inr ⟨2, by decide⟩)

/-- The object 1 has page 5 in the only page frame. A call for its page 6 finds no memory, makes
the daemon runnable and goes round for ever; the daemon could free the page frame. Once the page
is dirty, a daemon that cannot write it out goes round for ever as well. -/
theorem memory_pressure_spins : ∃ k k',
    Reach 1 k ∧ getStart 1 6 ⟨none, 0, 0⟩ k.cache = .ok (⟨none, true⟩, k.cache) ∧
    ¬ k.cache.GetEnds 1 6 (fun _ => ⟨none, 0, 0⟩) ∧
    Reach 1 k' ∧ ∃ c, pageoutdPass ⟨0, 1, -5, false⟩ k'.cache = .ok (.again, c) ∧
      ¬ k'.cache.Progress .again c := by
  have hget : Reach 1 _ := .step (e := .call 0 (.get 1 5) ⟨0, some 0, false⟩) .init
    ⟨by rintro _ ⟨⟩; exact ⟨by decide, rfl⟩, 0, none, rfl⟩ (by rintro _ _ _ _ ⟨⟩) rfl
  have hfill : Reach 1 _ := .step (e := .resume 0 ⟨0, none, false⟩) hget
    ⟨by rintro _ ⟨⟩, by rintro _ _ ⟨⟩⟩ (by rintro _ _ _ _ ⟨⟩) rfl
  have hdirty : Reach 1 _ := .step (e := .call 0 (.dirty 0) ⟨0, none, false⟩) hfill
    ⟨by rintro _ ⟨⟩, 0, some 0, rfl⟩ (by rintro _ _ _ _ ⟨⟩) rfl
  have hdone : Reach 1 _ := .step (e := .resume 0 ⟨0, none, false⟩) hdirty
    ⟨by rintro _ ⟨⟩, by rintro _ _ ⟨⟩⟩ (by rintro _ _ _ _ ⟨⟩) rfl
  refine ⟨_, _, hfill, rfl, ?_, hdone, _, rfl, ?_⟩
  · rw [getEnds_iff_fed hfill.ok.index]
    · rintro ⟨_, h⟩
      exact h rfl
    · rintro ⟨pf, s₁, hpf⟩
      cases hpf
    · rintro _ _ ⟨⟩
  · have hpass := wp_pageoutdPass hdone.ok.index ⟨0, 1, -5, false⟩
    rw [wp_of_eq rfl] at hpass
    intro hprogress
    exact hpass.mp hprogress ⟨by decide, by decide, rfl, 0, rfl, rfl, rfl⟩

end CodingSample.Mm
