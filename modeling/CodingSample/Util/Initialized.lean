import CodingSample.Util.Ordering
import CodingSample.Util.Section

/-!
# What `init_call_all` does

It panics, or it calls every function of its section once, after the functions it depends on.
-/

namespace CodingSample.Util

open Prog Dependencies

variable {funcs : List InitFunction} {memory rest : List UInt8} {i : Nat} {s : InitState}

/-- What holds between the searches, when the functions before `i` have been called. -/
structure Initialized (funcs : List InitFunction) (i : Nat) (s : InitState) : Prop where
  sound : Sound funcs s
  search_le : ∀ b, s.ifSearch b ≤ s.initSearchCount
  called : ∀ j < i, j ∈ s.calls
  caused : ∀ b ∈ s.calls, ∃ j < i, ∃ r, follow (dependency funcs) j r = some b
  unambiguous : ∀ j < i, UnambiguousAt funcs j

theorem Initialized.searching (h : Initialized funcs i s) (hi : i ∉ s.calls) :
    Searching funcs i s.calls (s.initSearchCount + 1) {[]} (s.newSearch i) where
  sound := h.sound.congr rfl rfl
  count := rfl
  search_le b := by
    simp only [InitState.newSearch, InitState.setSearch, Function.update_apply]
    split
    · exact le_refl _
    · exact Nat.le_succ_of_le (h.search_le b)
  kept := List.Subset.refl _
  marked b := by
    simp only [InitState.newSearch, InitState.setSearch, Function.update_apply,
      Set.mem_singleton_iff, exists_eq_left, follow_nil, Option.some.injEq]
    split
    · simp [*]
    · rename_i hne
      exact iff_of_false (Nat.ne_of_lt (Nat.lt_succ_of_le (h.search_le b))) (Ne.symm hne)
  single := by
    rintro w rfl w' rfl b _ _
    rfl
  fresh := by
    rintro w rfl b hb
    cases hb
    exact hi
  since _ hb := .inl hb

theorem unmarked_newSearch (h : Initialized funcs i s) (hi : i < funcs.length) :
    unmarked funcs (s.initSearchCount + 1) (s.newSearch i) < funcs.length := by
  have hmark : s.ifSearch i ≠ s.initSearchCount + 1 :=
    Nat.ne_of_lt (Nat.lt_succ_of_le (h.search_le i))
  have hsucc : unmarked funcs (s.initSearchCount + 1) s =
      unmarked funcs (s.initSearchCount + 1) (s.newSearch i) + 1 := unmarked_mark hi hmark
  have hle : unmarked funcs (s.initSearchCount + 1) s ≤ (Finset.range funcs.length).card := by
    unfold unmarked tally
    exact Finset.card_filter_le _ _
  rw [Finset.card_range] at hle
  omega

/-- One search. -/
theorem initCallOne_spec (h : Initialized funcs i s) (hi : i < funcs.length) :
    ewp (initCallOne funcs i) (fun _ t => Initialized funcs (i + 1) t) (Panics funcs) s := by
  have hclosed : Closed (dependency funcs) s.calls := h.sound.ordered.closed
  unfold initCallOne
  refine ewp_bind.mpr (ewp_get.mpr ?_)
  split
  · rename_i hcalled
    have hmem : i ∈ s.calls := (h.sound.called i).mp hcalled
    obtain ⟨j, hj, r, hr⟩ := h.caused i hmem
    exact {
      sound := h.sound
      search_le := h.search_le
      called := by
        intro k hk
        rcases Nat.lt_succ_iff_lt_or_eq.mp hk with hk | rfl
        · exact h.called k hk
        · exact hmem
      caused := by
        intro b hb
        obtain ⟨k, hk, hchain⟩ := h.caused b hb
        exact ⟨k, Nat.lt_succ_of_lt hk, hchain⟩
      unambiguous := by
        intro k hk
        rcases Nat.lt_succ_iff_lt_or_eq.mp hk with hk | rfl
        · exact h.unambiguous k hk
        · intro b p q hp _ _
          exact ⟨j, hj, r ++ p, by rw [follow_append, hr]; exact hp⟩ }
  · rename_i hcalled
    have hnot : i ∉ s.calls := fun hmem => hcalled ((h.sound.called i).mpr hmem)
    refine ewp_bind.mpr (ewp_modify.mpr ?_)
    refine ewp_mono (initCall_searches funcs.length i s.calls (s.initSearchCount + 1) {[]}
      (s.newSearch i) [] i (h.searching hnot) hclosed h.called rfl rfl hnot hi (fun w hw _ => hw)
      (unmarked_newSearch h hi)) ?_ fun _ he => he
    rintro _ t ⟨W, ht, hmem⟩
    exact {
      sound := ht.searching.sound
      search_le := fun b => ht.searching.count ▸ ht.searching.search_le b
      called := by
        intro j hj
        rcases Nat.lt_succ_iff_lt_or_eq.mp hj with hj | rfl
        · exact ht.calls (h.called j hj)
        · exact hmem
      caused := by
        intro b hb
        rcases ht.new b hb with hb | ⟨w, -, -, hw⟩
        · obtain ⟨j, hj, hchain⟩ := h.caused b hb
          exact ⟨j, Nat.lt_succ_of_lt hj, hchain⟩
        · exact ⟨i, Nat.lt_succ_self i, w, hw⟩
      unambiguous := by
        intro j hj
        rcases Nat.lt_succ_iff_lt_or_eq.mp hj with hj | rfl
        · exact h.unambiguous j hj
        · intro b p q hp hq hne
          apply h.caused b
          by_contra hb
          exact hne (ht.searching.single p (ht.all p List.nil_prefix b hp hb) q
            (ht.all q List.nil_prefix b hq hb) b hp hq) }

theorem initialized_start : Initialized funcs 0 {} where
  sound := ⟨fun a => by simp, List.nodup_nil, by simp, Ordered.nil, by simp⟩
  search_le _ := Nat.le_refl _
  called _ hj := absurd hj (Nat.not_lt_zero _)
  caused := by simp
  unambiguous _ hj := absurd hj (Nat.not_lt_zero _)

theorem initCallOne_each (funcs : List InitFunction) :
    ewp (each (initCallOne funcs) (List.range funcs.length))
      (fun _ t => Initialized funcs funcs.length t) (Panics funcs) {} := by
  refine ewp_mono (ewp_each (I := fun rest t => ∃ i, rest = (List.range funcs.length).drop i ∧
    i ≤ funcs.length ∧ Initialized funcs i t) ⟨0, rfl, Nat.zero_le _, initialized_start⟩ ?_) ?_
    fun _ he => he
  · rintro func rest t ⟨i, hrest, -, ht⟩
    have hfunc : (List.range funcs.length)[i]? = some func := by
      rw [← List.head?_drop, ← hrest, List.head?_cons]
    obtain ⟨hi, heq⟩ := List.getElem?_eq_some_iff.mp hfunc
    rw [List.getElem_range] at heq
    rw [List.length_range] at hi
    subst heq
    refine ewp_mono (initCallOne_spec ht hi) ?_ fun _ he => he
    intro _ u hu
    refine ⟨i + 1, ?_, hi, hu⟩
    rw [← List.tail_drop, ← hrest, List.tail_cons]
  · rintro _ t ⟨i, hnil, hle, ht⟩
    have hi := List.drop_eq_nil_iff.mp hnil.symm
    rw [List.length_range] at hi
    exact le_antisymm hle hi ▸ ht

/-- When `init_call_all` returns, its section was assembled from the functions on the list, and it
has called each of them once, after the functions that it depends on. -/
theorem functions_called (memory : List UInt8) (size : Nat) (funcs : List InitFunction)
    (s : InitState) (h : initCallAll memory size = .ok (funcs, s)) :
    size ≤ memory.length ∧ memory.take size = sectionOf funcs ∧
      s.calls.Perm (List.range funcs.length) ∧ Ordered (dependency funcs) s.calls := by
  obtain ⟨funcs', hread, h⟩ := bind_eq_ok.mp h
  obtain ⟨⟨_, t⟩, hrun, h⟩ := bind_eq_ok.mp h
  cases h
  obtain ⟨hsize, -, hmemory⟩ := readFunctions_eq_ok hread (Nat.zero_le _)
  have hcalls := (ewp_of_ok hrun).mp (initCallOne_each funcs)
  refine ⟨hsize, ?_, ?_, hcalls.sound.ordered⟩
  · exact List.append_cancel_right ((List.take_append_drop size memory).trans hmemory)
  · apply (List.perm_ext_iff_of_nodup hcalls.sound.nodup List.nodup_range).mpr
    intro a
    rw [List.mem_range]
    exact ⟨hcalls.sound.bound a, hcalls.called a⟩

/-- A function `a` that depends on the function `b` after it. -/
def dependent : List InitFunction :=
  [{ ifFunc := 4096, ifName := [97], ifDeps := [[98]] },
    { ifFunc := 8192, ifName := [98], ifDeps := [] }]

theorem functions_called_dependent :
    18 ≤ (sectionOf dependent ++ [0, 0, 0, 0]).length ∧
      (sectionOf dependent ++ [0, 0, 0, 0]).take 18 = sectionOf dependent ∧
      [1, 0].Perm (List.range dependent.length) ∧ Ordered (dependency dependent) [1, 0] :=
  functions_called (sectionOf dependent ++ [0, 0, 0, 0]) 18 dependent
    { initSearchCount := 1
      ifSearch := Function.update (Function.update (fun _ => 0) 0 1) 1 1
      ifCalled := Function.update (Function.update (fun _ => false) 1 true) 0 true
      calls := [1, 0] } (by rfl)

theorem resolved_of_initialized (h : Initialized funcs funcs.length s) : Resolved funcs := by
  intro func name hname
  have hlt : func < funcs.length := by
    by_contra hle
    rw [depends, List.getElem?_eq_none (Nat.not_lt.mp hle)] at hname
    cases hname
  exact h.sound.resolved func (h.called func hlt) name hname

theorem unambiguous_of_initialized (h : Initialized funcs funcs.length s) : Unambiguous funcs := by
  intro i
  by_cases hi : i < funcs.length
  · exact h.unambiguous i hi
  have hnone : depends funcs i = [] := by
    rw [depends, List.getElem?_eq_none (Nat.not_lt.mp hi)]
  have honly : ∀ p b, follow (dependency funcs) i p = some b → p = [] := by
    intro p b hp
    cases p with
    | nil => rfl
    | cons k p =>
        rw [follow, dependency, hnone] at hp
        cases hp
  intro b p q hp hq hne
  exact absurd ((honly p b hp).trans (honly q b hq).symm) hne

/-- On a section that the macros assembled, `init_call_all` returns exactly if every dependency
exists and no two chains of dependencies lead from a function to another, unless a function before
it on the list leads there as well. Otherwise it panics, and says what is wrong. -/
theorem initialization_outcome (funcs : List InitFunction) (rest : List UInt8)
    (hfuncs : ∀ f ∈ funcs, f.Proper) (hrest : 4 ≤ rest.length) :
    match initCallAll (sectionOf funcs ++ rest) (sectionOf funcs).length with
    | .ok _ => Resolved funcs ∧ Unambiguous funcs
    | .error e => e = .noDependency ∧ ¬ Resolved funcs ∨ e = .circular ∧ ¬ Unambiguous funcs := by
  have hlen : funcs.length ≤ (sectionOf funcs ++ rest).length := by
    have hle := length_le_sectionOf funcs
    rw [List.length_append]
    omega
  have hread : readFunctions (sectionOf funcs ++ rest) (sectionOf funcs).length
      ((sectionOf funcs ++ rest).length + 1) 0 = .ok funcs :=
    readFunctions_sectionOf hfuncs hrest rfl (Nat.zero_add _) (Nat.lt_succ_of_le hlen)
  have hrun := initCallOne_each funcs
  unfold ewp at hrun
  have hsplit : initCallAll (sectionOf funcs ++ rest) (sectionOf funcs).length =
      (each (initCallOne funcs) (List.range funcs.length) {}).map fun r => (funcs, r.2) := by
    unfold initCallAll
    rw [hread]
    change (each (initCallOne funcs) (List.range funcs.length) {} >>= fun r =>
      Except.ok (funcs, r.2)) = _
    cases each (initCallOne funcs) (List.range funcs.length) {} <;> rfl
  rw [hsplit]
  split at hrun
  · rename_i e heq
    rw [heq]
    exact hrun
  · rename_i u t heq
    rw [heq]
    exact ⟨resolved_of_initialized hrun, unambiguous_of_initialized hrun⟩

theorem initialization_outcome_dependent :
    match initCallAll (sectionOf dependent ++ [0, 0, 0, 0]) (sectionOf dependent).length with
    | .ok _ => Resolved dependent ∧ Unambiguous dependent
    | .error e =>
        e = .noDependency ∧ ¬ Resolved dependent ∨ e = .circular ∧ ¬ Unambiguous dependent := by
  refine initialization_outcome dependent [0, 0, 0, 0] ?_ (by decide)
  simp only [dependent, List.forall_mem_cons, List.not_mem_nil, IsEmpty.forall_iff, implies_true,
    and_true]
  exact ⟨⟨by decide, by decide, by decide, by decide⟩, ⟨by decide, by decide, by decide, by decide⟩⟩

/-- Two functions on which `a` depends share a dependency, and this is taken for a circle. -/
example : initCallAll (sectionOf
    [{ ifFunc := 1, ifName := [97], ifDeps := [[98], [99]] },
      { ifFunc := 1, ifName := [98], ifDeps := [[100]] },
      { ifFunc := 1, ifName := [99], ifDeps := [[100]] },
      { ifFunc := 1, ifName := [100], ifDeps := [] }] ++ [0, 0, 0, 0]) 48 = .error .circular := rfl

end CodingSample.Util
