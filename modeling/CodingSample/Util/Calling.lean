import CodingSample.Data.Dependencies
import CodingSample.Data.Tally
import CodingSample.Util.Init

/-!
# The search for the functions to call

A search visits the chains of dependencies of its root that lead to functions not called before it.
The visited chains lead to the functions that carry its number, each to another one; a dependency
with the number therefore closes a second chain to the same function.
-/

namespace CodingSample.Util

open Prog Dependencies

variable {funcs : List InitFunction}

/-- The function that dependency `k` of a function names. -/
def dependency (funcs : List InitFunction) (func k : Nat) : Option Nat :=
  (depends funcs func)[k]?.bind (findFunction funcs)

/-- Every dependency exists. -/
def Resolved (funcs : List InitFunction) : Prop :=
  ∀ func, ∀ name ∈ depends funcs func, ∃ f, findFunction funcs name = some f

/-- Two chains of dependencies lead from a function to another only where some function before it
on the list leads there, too. -/
def UnambiguousAt (funcs : List InitFunction) (i : Nat) : Prop :=
  ∀ b p q, follow (dependency funcs) i p = some b → follow (dependency funcs) i q = some b →
    p ≠ q → ∃ j < i, ∃ r, follow (dependency funcs) j r = some b

def Unambiguous (funcs : List InitFunction) : Prop := ∀ i, UnambiguousAt funcs i

/-- What a panic tells. -/
def Panics (funcs : List InitFunction) (e : InitFault) : Prop :=
  e = .noDependency ∧ ¬ Resolved funcs ∨ e = .circular ∧ ¬ Unambiguous funcs

theorem findFunction_lt {name : List UInt8} {f : Nat} (h : findFunction funcs name = some f) :
    f < funcs.length :=
  (List.findIdx?_eq_some_iff_getElem.mp h).1

/-! ### What holds between the calls -/

structure Sound (funcs : List InitFunction) (s : InitState) : Prop where
  called : ∀ a, s.ifCalled a = true ↔ a ∈ s.calls
  nodup : s.calls.Nodup
  bound : ∀ a ∈ s.calls, a < funcs.length
  ordered : Ordered (dependency funcs) s.calls
  resolved : ∀ a ∈ s.calls, ∀ name ∈ depends funcs a, ∃ f, findFunction funcs name = some f

theorem Sound.call {s : InitState} {func : Nat} (h : Sound funcs s) (hnot : func ∉ s.calls)
    (hlt : func < funcs.length)
    (hdeps : ∀ name ∈ depends funcs func, ∃ f, findFunction funcs name = some f ∧ f ∈ s.calls) :
    Sound funcs (s.call func) where
  called a := by
    simp only [InitState.call, List.mem_append, List.mem_singleton, ← h.called,
      Function.update_apply]
    split
    · simp [*]
    · simp [*]
  nodup := by
    simp only [InitState.call]
    rw [List.nodup_append_comm]
    exact List.nodup_cons.mpr ⟨hnot, h.nodup⟩
  bound := by
    intro a ha
    rcases List.mem_append.mp ha with ha | ha
    · exact h.bound a ha
    · rw [List.mem_singleton.mp ha]
      exact hlt
  ordered := by
    apply h.ordered.snoc
    intro k b hb
    obtain ⟨name, hname, hfind⟩ := Option.bind_eq_some_iff.mp hb
    obtain ⟨f, hf, hmem⟩ := hdeps name (List.mem_of_getElem? hname)
    rw [hf] at hfind
    cases hfind
    exact hmem
  resolved := by
    intro a ha name hname
    rcases List.mem_append.mp ha with ha | ha
    · exact h.resolved a ha name hname
    · rw [List.mem_singleton.mp ha] at hname
      obtain ⟨f, hf, -⟩ := hdeps name hname
      exact ⟨f, hf⟩

theorem Sound.congr {s t : InitState} (h : Sound funcs s) (hcalled : t.ifCalled = s.ifCalled)
    (hcalls : t.calls = s.calls) : Sound funcs t where
  called a := by
    rw [hcalled, hcalls]
    exact h.called a
  nodup := hcalls ▸ h.nodup
  bound := hcalls ▸ h.bound
  ordered := hcalls ▸ h.ordered
  resolved := hcalls ▸ h.resolved

/-! ### One search -/

/-- A search from `root` with a number, when the functions in `done` have been called before it,
that has visited the chains in `W`. -/
structure Searching (funcs : List InitFunction) (root : Nat) (done : List Nat) (number : Nat)
    (W : Set (List Nat)) (s : InitState) : Prop where
  sound : Sound funcs s
  count : s.initSearchCount = number
  search_le : ∀ b, s.ifSearch b ≤ number
  kept : done ⊆ s.calls
  marked : ∀ b, s.ifSearch b = number ↔ ∃ w ∈ W, follow (dependency funcs) root w = some b
  single : ∀ w ∈ W, ∀ w' ∈ W, ∀ b, follow (dependency funcs) root w = some b →
    follow (dependency funcs) root w' = some b → w = w'
  fresh : ∀ w ∈ W, ∀ b, follow (dependency funcs) root w = some b → b ∉ done
  since : ∀ b ∈ s.calls, b ∈ done ∨ s.ifSearch b = number

/-- How many functions do not carry the number. -/
def unmarked (funcs : List InitFunction) (number : Nat) (s : InitState) : Nat :=
  tally (Finset.range funcs.length) fun b => s.ifSearch b != number

section

variable {root number : Nat} {done : List Nat} {W W' : Set (List Nat)} {s t : InitState}
  {p w : List Nat} {f func k : Nat}

theorem Searching.mark (h : Searching funcs root done number W s)
    (hw : follow (dependency funcs) root w = some f) (hmark : s.ifSearch f ≠ number)
    (hf : f ∉ done) :
    Searching funcs root done number (insert w W) (s.setSearch f number) where
  sound := h.sound.congr rfl rfl
  count := h.count
  search_le b := by
    simp only [InitState.setSearch, Function.update_apply]
    split
    · exact le_refl _
    · exact h.search_le b
  kept := h.kept
  marked b := by
    simp only [InitState.setSearch, Function.update_apply, Set.mem_insert_iff]
    constructor
    · intro hb
      split at hb
      · rename_i heq
        exact ⟨w, .inl rfl, heq ▸ hw⟩
      · obtain ⟨v, hv, hvb⟩ := (h.marked b).mp hb
        exact ⟨v, .inr hv, hvb⟩
    · rintro ⟨v, rfl | hv, hvb⟩
      · rw [hw] at hvb
        cases hvb
        exact if_pos rfl
      · split
        · rfl
        · exact (h.marked b).mpr ⟨v, hv, hvb⟩
  single := by
    -- the new chain leads to a function that no visited chain leads to
    have hnew : ∀ v ∈ W, ∀ b, follow (dependency funcs) root v = some b →
        follow (dependency funcs) root w = some b → False := by
      intro v hv b hvb hwb
      rw [hw] at hwb
      cases hwb
      exact hmark ((h.marked f).mpr ⟨v, hv, hvb⟩)
    rintro v (rfl | hv) v' (rfl | hv') b hvb hvb'
    · rfl
    · exact (hnew v' hv' b hvb' hvb).elim
    · exact (hnew v hv b hvb hvb').elim
    · exact h.single v hv v' hv' b hvb hvb'
  fresh := by
    rintro v (rfl | hv) b hvb
    · rw [hw] at hvb
      cases hvb
      exact hf
    · exact h.fresh v hv b hvb
  since b hb := by
    simp only [InitState.setSearch, Function.update_apply]
    rcases h.since b hb with hb | hb
    · exact .inl hb
    · right
      split
      · rfl
      · exact hb

theorem unmarked_mark (hf : f < funcs.length) (hmark : s.ifSearch f ≠ number) :
    unmarked funcs number s = unmarked funcs number (s.setSearch f number) + 1 := by
  apply tally_succ (Finset.mem_range.mpr hf)
  · simp [InitState.setSearch]
  · simp [hmark]
  · intro b _ hb
    simp [InitState.setSearch, Function.update_of_ne hb]

theorem Searching.call (h : Searching funcs root done number W s) (hp : p ∈ W)
    (hfollow : follow (dependency funcs) root p = some func)
    (hsound : Sound funcs (s.call func)) :
    Searching funcs root done number W (s.call func) where
  sound := hsound
  count := h.count
  search_le := h.search_le
  kept := fun b hb => List.mem_append_left _ (h.kept hb)
  marked := h.marked
  single := h.single
  fresh := h.fresh
  since b hb := by
    rcases List.mem_append.mp hb with hb | hb
    · exact h.since b hb
    · rw [List.mem_singleton.mp hb]
      exact .inr ((h.marked func).mpr ⟨p, hp, hfollow⟩)

/-- What a part of a search does that visits the chains in `T`. -/
structure Explored (funcs : List InitFunction) (root : Nat) (done : List Nat) (number : Nat)
    (T : Set (List Nat)) (W : Set (List Nat)) (s : InitState) (W' : Set (List Nat))
    (t : InitState) : Prop where
  searching : Searching funcs root done number W' t
  visited : W ⊆ W'
  within : ∀ w ∈ W', w ∈ W ∨ w ∈ T
  all : ∀ w ∈ T, ∀ b, follow (dependency funcs) root w = some b → b ∉ done → w ∈ W'
  calls : s.calls ⊆ t.calls
  new : ∀ b ∈ t.calls, b ∈ s.calls ∨ ∃ w ∈ W', w ∈ T ∧ follow (dependency funcs) root w = some b
  unmarked : unmarked funcs number t ≤ unmarked funcs number s

theorem Explored.trans {T T' W'' : Set (List Nat)} {u : InitState}
    (h : Explored funcs root done number T W s W' t)
    (h' : Explored funcs root done number T' W' t W'' u) :
    Explored funcs root done number (T ∪ T') W s W'' u where
  searching := h'.searching
  visited := h.visited.trans h'.visited
  within w hw := by
    rcases h'.within w hw with hw | hw
    · exact (h.within w hw).imp_right .inl
    · exact .inr (.inr hw)
  all := by
    rintro w (hw | hw) b hb hdone
    · exact h'.visited (h.all w hw b hb hdone)
    · exact h'.all w hw b hb hdone
  calls := List.Subset.trans h.calls h'.calls
  new b hb := by
    rcases h'.new b hb with hb | ⟨w, hw, hT, hb⟩
    · rcases h.new b hb with hb | ⟨w, hw, hT, hb⟩
      · exact .inl hb
      · exact .inr ⟨w, h'.visited hw, .inl hT, hb⟩
    · exact .inr ⟨w, hw, .inr hT, hb⟩
  unmarked := h'.unmarked.trans h.unmarked

/-- Nothing is done for chains that lead to functions called before the search. -/
theorem Explored.skip {T : Set (List Nat)} (h : Searching funcs root done number W s)
    (hT : ∀ w ∈ T, ∀ b, follow (dependency funcs) root w = some b → b ∈ done) :
    Explored funcs root done number T W s W s where
  searching := h
  visited := subset_rfl
  within _ hw := .inl hw
  all w hw b hb hdone := (hdone (hT w hw b hb)).elim
  calls := List.Subset.refl _
  new _ hb := .inl hb
  unmarked := le_refl _

/-- The chain at the head of a part is visited first. -/
theorem Explored.ofMark {T : Set (List Nat)}
    (h : Explored funcs root done number T (insert w W) (s.setSearch f number) W' t)
    (hw : w ∈ T) (hunmarked : Util.unmarked funcs number (s.setSearch f number) ≤
      Util.unmarked funcs number s) :
    Explored funcs root done number T W s W' t where
  searching := h.searching
  visited := (Set.subset_insert _ _).trans h.visited
  within v hv := by
    rcases h.within v hv with (rfl | hv) | hv
    · exact .inr hw
    · exact .inl hv
    · exact .inr hv
  all := h.all
  calls := h.calls
  new := h.new
  unmarked := h.unmarked.trans hunmarked

end

end CodingSample.Util
