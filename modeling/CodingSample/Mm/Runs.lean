import CodingSample.Mm.Index

/-!
# Runs of the page cache

Any number of threads call the functions of the page cache, and others run at their blocking
points. Only `pframe_migrate` can break the index: it puts the source while the page is in no hash
chain.
-/

namespace CodingSample.Mm

open Prog

/-- No list has an element. -/
def emptyLinks {H : Type} : Links (H ⊕ Nat) where
  next
    | .inl h => some (.inl h)
    | .inr _ => none
  prev
    | .inl h => some (.inl h)
    | .inr _ => none

/-- After `pframe_init` and `mmobj_init`, with memory for `frames` page frames. -/
def pframeInit (frames : Nat) : Cache where
  frames := frames
  pframes := fun _ => ⟨none, 0, false, false, 0⟩
  link := emptyLinks
  hlink := emptyLinks
  olink := emptyLinks
  npinned := 0
  nallocated := 0
  mmoNrespages := fun _ => 0
  mmoRefcount := fun _ => 0

def Kernel.initial (frames : Nat) : Kernel := ⟨pframeInit frames, fun _ => .returned 0 none⟩

/-- Where `pframe_migrate` moves a page to an object that does not have it, the `put` of the
source does not block. -/
def Event.Mild (k : Kernel) (e : Event) : Prop :=
  ∀ t pf dest env, e = .call t (.migrate pf dest) env →
    (∀ u, ¬ k.cache.Holds dest (k.cache.pframes pf).pfPagenum u) → env.blocks = false

/-- The states that runs of mild events lead to. -/
inductive Reach (frames : Nat) : Kernel → Prop
  | init : Reach frames (Kernel.initial frames)
  | step {k k' : Kernel} {e : Event} (h : Reach frames k) (he : e.Enabled k) (hm : e.Mild k)
      (hrun : e.run k = .ok k') : Reach frames k'

/-- A run through the events. -/
inductive Runs : Kernel → List Event → Kernel → Prop
  | nil (k : Kernel) : Runs k [] k
  | cons {k k₁ k₂ : Kernel} {e : Event} {es : List Event} (he : e.Enabled k) (hrun : e.run k = .ok k₁)
      (h : Runs k₁ es k₂) : Runs k (e :: es) k₂

variable {k k' : Kernel} {e : Event} {s : Cache} {pf : Nat} {o dest : Mmobj} {pagenum : UInt32}
  {env : Env} {frames : Nat}

/-! ### The initial state -/

theorem placed_empty {H : Type} : Placed (emptyLinks : Links (H ⊕ Nat)) (fun _ => none) fun _ => 0 := by
  refine ⟨fun _ => [], ⟨?_, fun _ => List.nodup_nil, nofun, fun _ _ => ⟨rfl, rfl⟩⟩, ?_, ?_⟩
  · intro h
    exact .cons_cons ⟨rfl, rfl⟩ (.singleton _)
  · exact fun _ _ => iff_of_false nofun nofun
  · exact fun _ => rfl

theorem index_pframeInit (frames : Nat) : (pframeInit frames).Index := by
  refine ⟨nofun, ?_, ⟨fun _ => 0, placed_empty⟩, placed_empty, ?_, ?_⟩
  · have hcounts : (pframeInit frames).counts = fun _ => 0 := by
      funext c
      cases c <;> rfl
    rw [hcounts]
    exact placed_empty
  · exact fun _ h => absurd rfl h
  · exact fun _ h => absurd rfl h

/-! ### The functions -/

/-- The thread is not in the `put` of `pframe_migrate`. -/
def Frame.Mild : Frame → Prop
  | .migrating _ _ => False
  | _ => True

/-- What holds at the end of a piece of a function that is not cut in the `put` of
`pframe_migrate`. -/
def Settled (f : Frame) (s : Cache) : Prop := s.Index ∧ f.Mild

theorem ewp_returned {m : PageM Unit} (h : ewp m (fun _ s' => s'.Index) Fault.Allowed s) (f : Frame)
    (hf : f.Mild) :
    ewp (do m; pure f) Settled Fault.Allowed s :=
  ewp_bind_of h fun _ _ hi => ⟨hi, hf⟩

theorem ewp_pframeGet (hi : s.Index)
    (hfresh : ∀ pf, env.fresh = some pf → pf < s.frames ∧ (s.pframes pf).pfObj = none) :
    ewp (pframeGet o pagenum env) Settled Fault.Allowed s := by
  rw [pframeGet]
  refine ewp_bind_of (ewp_pframeGetResident hi) ?_
  rintro r s₁ ⟨hi₁, ⟨l, rfl⟩, hfound, hmissing⟩
  cases r with
  | some pf =>
      simp only []
      rw [ewp_bind, ewp_getPframe]
      split
      · exact ⟨hi₁, trivial⟩
      · exact ⟨hi₁, trivial⟩
  | none =>
      simp only []
      refine ewp_bind_of (ewp_pframeAlloc hi₁ (hmissing rfl) hfresh) ?_
      intro page s₂ hi₂
      cases page with
      | none => exact (nofun : Fault.spins ≠ .badLink)
      | some pf =>
          simp only []
          rw [ewp_bind]
          exact ewp_setBusy hi₂ true fun _ hi₃ _ => ⟨hi₃, trivial⟩

theorem ewp_fillEnd (hi : s.Index) : ewp (fillEnd pf env) Settled Fault.Allowed s := by
  rw [fillEnd, ewp_bind]
  refine ewp_setBusy hi false fun s₁ hi₁ _ => ?_
  split
  · exact ewp_returned (ewp_pframeFree hi₁) _ trivial
  · rw [ewp_bind, ewp_getPframe, ewp_bind]
    exact ewp_kassert fun _ => ⟨hi₁, trivial⟩

/-- `pframe_migrate` moves the page and blocks. -/
def Cache.Cut (s : Cache) (pf : Nat) (dest : Mmobj) (env : Env) : Prop :=
  (∀ u, ¬ s.Holds dest (s.pframes pf).pfPagenum u) ∧ env.blocks = true

theorem ewp_pframeMigrate (hi : s.Index) :
    ewp (pframeMigrate pf dest env) (fun f s' =>
      (s.Cut pf dest env → ¬ s'.Index) ∧ (¬ s.Cut pf dest env → Settled f s'))
      Fault.Allowed s := by
  rw [pframeMigrate, ewp_bind, ewp_getPframe, ewp_bind]
  refine ewp_kassert fun _ => ?_
  refine ewp_bind_of (ewp_pframeGetResident hi) ?_
  rintro r s₁ ⟨hi₁, ⟨l, rfl⟩, hfound, hmissing⟩
  cases r with
  | some u =>
      have hno : ¬ s.Cut pf dest env := fun h => h.1 u (hfound u rfl)
      refine ewp_mono (Q := Settled) ?_ (fun _ _ h => ⟨fun hcut => absurd hcut hno, fun _ => h⟩)
        fun _ h => h
      refine ewp_bind_of (ewp_pframeUnpin hi₁) ?_
      exact fun _ s₂ hi₂ => ewp_returned (ewp_pframeCleanStart hi₂) _ trivial
  | none =>
      have hmissing := hmissing rfl
      simp only []
      rw [ewp_bind]
      refine ewp_migrateOut hi₁ hmissing ?_
      intro s₂ hobj hnull hin
      split
      · rename_i hblocks
        refine ⟨fun _ hi₂ => ?_, fun hcut => absurd ⟨hmissing, hblocks⟩ hcut⟩
        obtain ⟨size, hchains⟩ := hi₂.chain
        cases (Pframe.chain_of_obj hobj).symm.trans (hchains.null_iff.mp hnull)
      · rename_i hblocks
        refine ewp_mono (ewp_returned hin _ trivial)
          (fun _ _ h => ⟨fun hcut => absurd hcut.2 hblocks, fun _ => h⟩) fun _ h => h

/-! ### Events -/

/-- The state of a run. -/
structure Kernel.Ok (k : Kernel) : Prop where
  index : k.cache.Index
  mild : ∀ t, (k.threads t).Mild

theorem Frame.ewp_resume (hi : s.Index) {f : Frame} (hf : f.Mild)
    (hfresh : ∀ pf, env.fresh = some pf → pf < s.frames ∧ (s.pframes pf).pfObj = none) :
    ewp (f.resume env) Settled Fault.Allowed s := by
  cases f with
  | returned ret result => exact ⟨hi, trivial⟩
  | asleep o pagenum => exact ewp_pframeGet hi hfresh
  | filling pf => exact ewp_fillEnd hi
  | dirtying pf => exact ewp_returned (ewp_pframeDirtyEnd hi env.ret) _ trivial
  | cleaning pf => exact ewp_returned (ewp_pframeCleanEnd hi env.ret) _ trivial
  | migrateCleaning pf =>
      refine ewp_bind_of (ewp_pframeCleanEnd hi env.ret) ?_
      exact fun _ s₁ hi₁ => ewp_returned (ewp_pframeFree hi₁) _ trivial
  | migrating pf dest => exact hf.elim
  | putting ret result => exact ⟨hi, trivial⟩

theorem Event.mild_call {t : Nat} : (Event.call t (.migrate pf dest) env).Mild k ↔
    ¬ k.cache.Cut pf dest env := by
  constructor
  · intro hm hcut
    have hblocks := hm t pf dest env rfl hcut.1
    cases hblocks.symm.trans hcut.2
  · rintro hcut _ _ _ _ ⟨⟩ hmissing
    rw [← Bool.not_eq_true]
    exact fun hblocks => hcut ⟨hmissing, hblocks⟩

/-- An event keeps the index if it is mild and breaks it otherwise. -/
theorem Event.ewp_prog (hk : k.Ok) (he : e.Enabled k) :
    ewp (e.prog k) (fun f s' => (¬ e.Mild k → ¬ s'.Index) ∧ (e.Mild k → Settled f s'))
      Fault.Allowed k.cache := by
  have hi := hk.index
  have hmild (hm : e.Mild k) (h : ewp (e.prog k) Settled Fault.Allowed k.cache) :
      ewp (e.prog k) (fun f s' => (¬ e.Mild k → ¬ s'.Index) ∧ (e.Mild k → Settled f s'))
        Fault.Allowed k.cache :=
    ewp_mono h (fun _ _ hs => ⟨fun hno => absurd hm hno, fun _ => hs⟩) fun _ h => h
  cases e with
  | resume t env =>
      refine hmild ?_ (Frame.ewp_resume hi (hk.mild t) he.1)
      rintro _ _ _ _ ⟨⟩
  | call t c env =>
      cases c with
      | get o pagenum =>
          refine hmild ?_ (ewp_pframeGet hi he.1)
          rintro _ _ _ _ ⟨⟩
      | pin pf =>
          refine hmild ?_ (ewp_returned (ewp_pframePin hi) _ trivial)
          rintro _ _ _ _ ⟨⟩
      | unpin pf =>
          refine hmild ?_ (ewp_returned (ewp_pframeUnpin hi) _ trivial)
          rintro _ _ _ _ ⟨⟩
      | dirty pf =>
          refine hmild ?_ (ewp_returned (ewp_pframeDirtyStart hi) _ trivial)
          rintro _ _ _ _ ⟨⟩
      | clean pf =>
          refine hmild ?_ (ewp_returned (ewp_pframeCleanStart hi) _ trivial)
          rintro _ _ _ _ ⟨⟩
      | free pf =>
          refine hmild ?_ (ewp_returned (ewp_pframeFree hi) _ trivial)
          rintro _ _ _ _ ⟨⟩
      | migrate pf dest =>
          rw [Event.mild_call, Classical.not_not]
          exact ewp_pframeMigrate hi

/-- The step lemma. -/
theorem Event.run_ok (hk : k.Ok) (he : e.Enabled k) (hrun : e.run k = .ok k') :
    (¬ e.Mild k → ¬ k'.cache.Index) ∧ (e.Mild k → k'.Ok) := by
  have hprog := Event.ewp_prog hk he
  unfold ewp at hprog
  unfold Event.run at hrun
  split at hrun
  · cases hrun
  · rename_i f s' hok
    cases hrun
    rw [hok] at hprog
    refine ⟨hprog.1, fun hm => ⟨(hprog.2 hm).1, ?_⟩⟩
    intro t
    change (Function.update k.threads e.thread f t).Mild
    rw [Function.update_apply]
    split
    · exact (hprog.2 hm).2
    · exact hk.mild t

/-- The functions follow no null link. -/
theorem Event.run_error (hk : k.Ok) (he : e.Enabled k) {f : Fault} (hrun : e.run k = .error f) :
    f ≠ .badLink := by
  have hprog := Event.ewp_prog hk he
  unfold ewp at hprog
  unfold Event.run at hrun
  split at hrun
  · rename_i hfault
    cases hrun
    rw [hfault] at hprog
    exact hprog
  · cases hrun

/-- The run lemma. -/
theorem Reach.ok (h : Reach frames k) : k.Ok := by
  induction h with
  | init => exact ⟨index_pframeInit frames, fun _ => trivial⟩
  | step _ he hm hrun ih => exact (Event.run_ok ih he hrun).2 hm

/-- In every run in which no `pframe_migrate` blocks in the `put` of the source, the page cache is
a consistent index, and it is one after the next event exactly if that event is mild as well. -/
theorem page_cache_index (h : Reach frames k) : k.cache.Index ∧
    ∀ (e : Event) (k' : Kernel), e.Enabled k → e.run k = .ok k' → (k'.cache.Index ↔ e.Mild k) := by
  refine ⟨h.ok.index, ?_⟩
  intro e k' he hrun
  obtain ⟨hbreaks, hkeeps⟩ := Event.run_ok h.ok he hrun
  constructor
  · intro hi
    by_contra hm
    exact hbreaks hm hi
  · exact fun hm => (hkeeps hm).index

/-- A page that the first thread has filled is pinned. -/
theorem page_cache_index_pin : ∃ k k', Reach 2 k ∧ k.cache.pframes 0 = ⟨some 1, 5, false, false, 0⟩ ∧
    (Event.call 0 (.pin 0) ⟨0, none, false⟩).run k = .ok k' ∧ k'.cache.npinned = 1 ∧
      k'.cache.Index := by
  have hget : Reach 2 _ := .step (e := .call 0 (.get 1 5) ⟨0, some 0, false⟩) .init
    ⟨by rintro _ ⟨⟩; exact ⟨by decide, rfl⟩, 0, none, rfl⟩ (by rintro _ _ _ _ ⟨⟩) rfl
  have hfill : Reach 2 _ := .step (e := .resume 0 ⟨0, none, false⟩) hget
    ⟨by rintro _ ⟨⟩, by rintro _ _ ⟨⟩⟩ (by rintro _ _ _ _ ⟨⟩) rfl
  refine ⟨_, _, hfill, rfl, rfl, rfl, ?_⟩
  exact ((page_cache_index hfill).2 (.call 0 (.pin 0) ⟨0, none, false⟩) _
    ⟨by rintro _ ⟨⟩, 0, some 0, rfl⟩ rfl).mpr (by rintro _ _ _ _ ⟨⟩)

/-- The first thread moves page 5 of the object 1 to the object 2 and blocks in the `put`. The
second thread takes another page frame for page 5 of the object 2. -/
theorem page_cache_splits : ∃ k, Runs (Kernel.initial 2)
    [.call 0 (.get 1 5) ⟨0, some 0, false⟩, .resume 0 ⟨0, none, false⟩,
      .call 0 (.migrate 0 2) ⟨0, none, true⟩, .call 1 (.get 2 5) ⟨0, some 1, false⟩,
      .resume 1 ⟨0, none, false⟩, .resume 0 ⟨0, none, false⟩] k ∧
    k.cache.Holds 2 5 0 ∧ k.cache.Holds 2 5 1 ∧ ¬ k.cache.Index := by
  refine ⟨_, .cons ?_ rfl (.cons ?_ rfl (.cons ?_ rfl (.cons ?_ rfl (.cons ?_ rfl (.cons ?_ rfl
    (.nil _)))))), ⟨rfl, rfl⟩, ⟨rfl, rfl⟩, ?_⟩
  · exact ⟨by rintro _ ⟨⟩; exact ⟨by decide, rfl⟩, 0, none, rfl⟩
  · exact ⟨by rintro _ ⟨⟩, by rintro _ _ ⟨⟩⟩
  · exact ⟨by rintro _ ⟨⟩, 0, some 0, rfl⟩
  · exact ⟨by rintro _ ⟨⟩; exact ⟨by decide, rfl⟩, 0, none, rfl⟩
  · exact ⟨by rintro _ ⟨⟩, by rintro _ _ ⟨⟩⟩
  · exact ⟨by rintro _ ⟨⟩, by rintro _ _ ⟨⟩⟩
  · intro hi
    cases hi.unique 0 1 2 rfl rfl rfl

end CodingSample.Mm
