import CodingSample.Util.Calling

/-!
# The order of the initialization functions

`init_call_all` calls every function once, after its dependencies, or panics; it panics exactly when
a dependency does not exist or two chains of dependencies lead from one function to another that no
function before it on the list leads to.
-/

namespace CodingSample.Util

open Prog Dependencies

variable {funcs : List InitFunction} {root number fuel func : Nat} {done : List Nat}
  {W : Set (List Nat)} {s : InitState} {p : List Nat}

/-- The chains that go on after `p` with a number below `k`. -/
def below (p : List Nat) (k : Nat) : Set (List Nat) := {w | ∃ j < k, p ++ [j] <+: w}

theorem below_succ (p : List Nat) (k : Nat) :
    below p (k + 1) = below p k ∪ {w | p ++ [k] <+: w} := by
  ext w
  simp only [below, Set.mem_ofPred_eq, Set.mem_union]
  constructor
  · rintro ⟨j, hj, hw⟩
    rcases Nat.lt_succ_iff_lt_or_eq.mp hj with hj | rfl
    · exact .inl ⟨j, hj, hw⟩
    · exact .inr hw
  · rintro (⟨j, hj, hw⟩ | hw)
    · exact ⟨j, hj.trans (Nat.lt_succ_self k), hw⟩
    · exact ⟨k, Nat.lt_succ_self k, hw⟩

theorem prefix_snoc_inj {p w : List Nat} {j k : Nat} (hj : p ++ [j] <+: w) (hk : p ++ [k] <+: w) :
    j = k := by
  have heq : p ++ [j] = p ++ [k] :=
    (List.prefix_of_prefix_length_le hj hk (by simp)).eq_of_length (by simp)
  exact List.singleton_inj.mp (List.append_cancel_left heq)

theorem not_snoc_prefix {p : List Nat} {k : Nat} : ¬ p ++ [k] <+: p := fun h => by
  have hlen := h.length_le
  rw [List.length_append, List.length_singleton] at hlen
  exact Nat.not_succ_le_self _ hlen

/-- A search from a function finds all the chains that go on from the one that leads to it. -/
def Searches (funcs : List InitFunction) (fuel : Nat) : Prop :=
  ∀ root done number W s p func, Searching funcs root done number W s →
    Closed (dependency funcs) done → (∀ j < root, j ∈ done) → p ∈ W →
    follow (dependency funcs) root p = some func → func ∉ s.calls → func < funcs.length →
    (∀ w ∈ W, p <+: w → w = p) → unmarked funcs number s < fuel →
    ewp (initCall funcs fuel func)
      (fun _ t => ∃ W', Explored funcs root done number {w | p <+: w} W s W' t ∧ func ∈ t.calls)
      (Panics funcs) s

/-- What holds in the loop over the dependencies of a function, when `k` of them are done. -/
structure Depending (funcs : List InitFunction) (root : Nat) (done : List Nat) (number func : Nat)
    (p : List Nat) (W : Set (List Nat)) (s : InitState) (k : Nat) (t : InitState) : Prop where
  explored : ∃ W', Explored funcs root done number (below p k) W s W' t
  found : ∀ j < k, ∀ name, (depends funcs func)[j]? = some name →
    ∃ f, findFunction funcs name = some f ∧ f ∈ t.calls

/-- One dependency. -/
theorem initDepend_spec (hrec : Searches funcs fuel) {t : InitState} {k : Nat} {name : List UInt8}
    (hclosed : Closed (dependency funcs) done) (hroot : ∀ j < root, j ∈ done) (hp : p ∈ W)
    (hfollow : follow (dependency funcs) root p = some func) (hend : ∀ w ∈ W, p <+: w → w = p)
    (hunmarked : unmarked funcs number s ≤ fuel)
    (h : Depending funcs root done number func p W s k t)
    (hname : (depends funcs func)[k]? = some name) :
    ewp (initDepend funcs (initCall funcs fuel) func name)
      (fun _ u => Depending funcs root done number func p W s (k + 1) u) (Panics funcs) t := by
  obtain ⟨W', hexplored⟩ := h.explored
  have hsearching := hexplored.searching
  unfold initDepend
  split
  · rename_i hfind
    refine .inl ⟨rfl, fun hresolved => ?_⟩
    obtain ⟨f, hf⟩ := hresolved func name (List.mem_of_getElem? hname)
    rw [hfind] at hf
    cases hf
  rename_i f hfind
  have hdep : dependency funcs func k = some f := by
    rw [dependency, hname, Option.bind_some, hfind]
  have hchain : follow (dependency funcs) root (p ++ [k]) = some f := by
    rw [follow_snoc hfollow, hdep]
  have hmark : t.ifSearch func = number :=
    (hsearching.marked func).mpr ⟨p, hexplored.visited hp, hfollow⟩
  -- how the loop goes on when the dependency has been dealt with
  have hnext : ∀ {W'' u}, Explored funcs root done number {w | p ++ [k] <+: w} W' t W'' u →
      f ∈ u.calls → Depending funcs root done number func p W s (k + 1) u := by
    intro W'' u hu hf
    refine ⟨⟨W'', by rw [below_succ]; exact hexplored.trans hu⟩, ?_⟩
    intro j hj name' hname'
    rcases Nat.lt_succ_iff_lt_or_eq.mp hj with hj | rfl
    · obtain ⟨g, hg, hmem⟩ := h.found j hj name' hname'
      exact ⟨g, hg, hu.calls hmem⟩
    · rw [hname] at hname'
      cases hname'
      exact ⟨f, hfind, hf⟩
  -- the chain to the dependency has not been visited
  have hnew : p ++ [k] ∉ W' := by
    intro hmem
    rcases hexplored.within _ hmem with hW | ⟨j, hj, hbelow⟩
    · have heq := hend _ hW (List.prefix_append p [k])
      exact not_snoc_prefix (heq.symm ▸ List.prefix_refl p : p ++ [k] <+: p)
    · exact (prefix_snoc_inj hbelow (List.prefix_refl _) ▸ hj).false
  refine ewp_bind.mpr (ewp_bind.mpr (ewp_check.mpr ⟨fun hne => ?_, fun heq => ?_⟩))
  · have hne' : t.ifSearch f ≠ number := by
      rw [hmark] at hne
      exact fun h => of_decide_eq_true hne h.symm
    split
    · rename_i hcalled
      have hf : f ∈ t.calls := (hsearching.sound.called f).mp hcalled
      have hdone : f ∈ done := (hsearching.since f hf).resolve_right hne'
      refine hnext (Explored.skip hsearching ?_) hf
      intro w hw b hb
      obtain ⟨r, -, hr⟩ := exists_follow_of_prefix hw hchain
      exact hclosed.follow hdone (hr ▸ hb)
    · rename_i hcalled
      have hf : f ∉ t.calls := fun hmem => hcalled ((hsearching.sound.called f).mpr hmem)
      have hdone : f ∉ done := fun hmem => hf (hsearching.kept hmem)
      have hlt := findFunction_lt hfind
      have hcount := unmarked_mark hlt hne'
      have hle := hexplored.unmarked
      rw [hmark]
      refine ewp_bind.mpr (ewp_modify.mpr ?_)
      refine ewp_mono (hrec root done number (insert (p ++ [k]) W') (t.setSearch f number)
        (p ++ [k]) f (hsearching.mark hchain hne' hdone) hclosed hroot (Set.mem_insert _ _) hchain
        hf hlt ?_ (by omega)) ?_ fun _ he => he
      · rintro w (rfl | hw) hbelow
        · rfl
        · exfalso
          rcases hexplored.within w hw with hW | ⟨j, hj, hbelow'⟩
          · have heq := hend w hW ((List.prefix_append p [k]).trans hbelow)
            exact not_snoc_prefix (heq ▸ hbelow)
          · exact (prefix_snoc_inj hbelow' hbelow ▸ hj).false
      · rintro _ u ⟨W'', hu, hmem⟩
        exact hnext (hu.ofMark (List.prefix_refl _) (by omega)) hmem
  · -- a second chain leads to the dependency
    have hf : t.ifSearch f = number := (not_not.mp (of_decide_eq_false heq)).symm.trans hmark
    obtain ⟨w, hw, hwf⟩ := (hsearching.marked f).mp hf
    refine .inr ⟨rfl, fun hunambiguous => ?_⟩
    obtain ⟨j, hj, r, hr⟩ := hunambiguous root f w (p ++ [k]) hwf hchain fun h => hnew (h ▸ hw)
    exact hsearching.fresh w hw f hwf (hclosed.follow (hroot j hj) hr)

theorem initCall_searches (fuel : Nat) : Searches funcs fuel := by
  induction fuel with
  | zero =>
      intro root done number W s p func _ _ _ _ _ _ _ _ hunmarked
      exact absurd hunmarked (Nat.not_lt_zero _)
  | succ fuel ih =>
      intro root done number W s p func hs hclosed hroot hp hfollow hcalls hlt hend hunmarked
      unfold initCall
      have hloop : ewp (each (initDepend funcs (initCall funcs fuel) func) (depends funcs func))
          (fun _ t => Depending funcs root done number func p W s (depends funcs func).length t)
          (Panics funcs) s := by
        refine ewp_mono (ewp_each (I := fun rest t => ∃ k, rest = (depends funcs func).drop k ∧
          k ≤ (depends funcs func).length ∧ Depending funcs root done number func p W s k t)
          ⟨0, rfl, Nat.zero_le _, ⟨W, ?_⟩, ?_⟩ ?_) ?_ fun _ he => he
        · apply Explored.skip hs
          rintro w ⟨j, hj, -⟩
          exact absurd hj (Nat.not_lt_zero j)
        · exact fun j hj => absurd hj (Nat.not_lt_zero j)
        · rintro name rest t ⟨k, hrest, -, ht⟩
          have hname : (depends funcs func)[k]? = some name := by
            rw [← List.head?_drop, ← hrest, List.head?_cons]
          have hk : k < (depends funcs func).length := (List.getElem?_eq_some_iff.mp hname).1
          refine ewp_mono (initDepend_spec ih hclosed hroot hp hfollow hend
            (Nat.lt_succ_iff.mp hunmarked) ht hname) ?_ fun _ he => he
          intro _ u hu
          refine ⟨k + 1, ?_, hk, hu⟩
          rw [← List.tail_drop, ← hrest, List.tail_cons]
        · rintro _ t ⟨k, hnil, hle, ht⟩
          have hk : k = (depends funcs func).length :=
            le_antisymm hle (List.drop_eq_nil_iff.mp hnil.symm)
          exact hk ▸ ht
      refine ewp_bind_of hloop ?_
      rintro _ t ⟨⟨W', ht⟩, hfound⟩
      -- the function itself was not called meanwhile
      have hnot : func ∉ t.calls := by
        intro hmem
        rcases ht.new func hmem with hmem | ⟨w, hw, ⟨j, -, hbelow⟩, hwfunc⟩
        · exact hcalls hmem
        · have heq := ht.searching.single w hw p (ht.visited hp) func hwfunc hfollow
          exact not_snoc_prefix (heq ▸ hbelow)
      have hsound : Sound funcs (t.call func) := by
        apply ht.searching.sound.call hnot hlt
        intro name hname
        obtain ⟨k, hk⟩ := List.getElem?_of_mem hname
        exact hfound k (List.getElem?_eq_some_iff.mp hk).1 name hk
      refine ewp_bind.mpr (ewp_bind.mpr (ewp_check.mpr ⟨fun _ => ?_, fun hcalled => ?_⟩))
      · refine ⟨W', ?_, List.mem_append_right _ (List.mem_singleton_self func)⟩
        exact {
          searching := ht.searching.call (ht.visited hp) hfollow hsound
          visited := ht.visited
          within := by
            intro w hw
            rcases ht.within w hw with hw | ⟨j, -, hbelow⟩
            · exact .inl hw
            · exact .inr ((List.prefix_append p [j]).trans hbelow)
          all := by
            intro w hw b hb hdone
            obtain ⟨r, rfl, hr⟩ := exists_follow_of_prefix hw hfollow
            cases r with
            | nil =>
                rw [List.append_nil]
                exact ht.visited hp
            | cons j r =>
                refine ht.all _ ⟨j, ?_, ?_⟩ b hb hdone
                · rw [hr, follow] at hb
                  obtain ⟨c, hc, -⟩ := Option.bind_eq_some_iff.mp hb
                  obtain ⟨name, hname, -⟩ := Option.bind_eq_some_iff.mp hc
                  exact (List.getElem?_eq_some_iff.mp hname).1
                · exact ⟨r, (List.append_cons p j r).symm⟩
          calls := fun b hb => List.mem_append_left _ (ht.calls hb)
          new := by
            intro b hb
            rcases List.mem_append.mp hb with hb | hb
            · rcases ht.new b hb with hb | ⟨w, hw, ⟨j, -, hbelow⟩, hwb⟩
              · exact .inl hb
              · exact .inr ⟨w, hw, (List.prefix_append p [j]).trans hbelow, hwb⟩
            · rw [List.mem_singleton.mp hb]
              exact .inr ⟨p, ht.visited hp, List.prefix_refl p, hfollow⟩
          unmarked := ht.unmarked }
      · have htrue : t.ifCalled func = true := by simpa using hcalled
        exact absurd ((ht.searching.sound.called func).mp htrue) hnot

end CodingSample.Util
