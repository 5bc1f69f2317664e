import Mathlib.Data.List.Nodup
import Mathlib.Data.List.Perm.Basic
import Mathlib.Logic.Function.Basic

/-!
# Lists of entries as finite maps

A table that is kept as a list of entries without an order: an entry is added at the end, and the
last one is moved into the place of an entry that is taken out.
-/

namespace CodingSample.KeyedList

variable {α κ β : Type} {key : α → κ} {val : α → β} {l l' : List α} {f : κ → Option β} {i : Nat}
  {x : α} {k : κ}

/-- The list with the entry at `i` replaced by the last one, which goes from the end. -/
def takeOut (l : List α) (i : Nat) (last : α) : List α := (l.set i last).dropLast

/-- The list holds the map `f`: one entry for every key that has a value. -/
structure Holds (key : α → κ) (val : α → β) (l : List α) (f : κ → Option β) : Prop where
  nodup : (l.map key).Nodup
  entry : ∀ k b, f k = some b ↔ ∃ x ∈ l, key x = k ∧ val x = b

theorem getElem_perm_eraseIdx (h : l[i]? = some x) : (x :: l.eraseIdx i).Perm l := by
  obtain ⟨hlt, rfl⟩ := List.getElem?_eq_some_iff.mp h
  exact List.getElem_cons_eraseIdx_perm hlt

/-- Taking an entry out removes it and no other. -/
theorem takeOut_perm (hi : i < l.length) (hlast : l[l.length - 1]? = some x) :
    (takeOut l i x).Perm (l.eraseIdx i) := by
  have hne : l.set i x ≠ [] := by
    apply List.ne_nil_of_length_pos
    rw [List.length_set]
    omega
  have hend : (l.set i x).getLast hne = x := by
    apply Option.some.inj
    rw [← List.getLast?_eq_some_getLast, List.getLast?_eq_getElem?, List.length_set]
    by_cases hin : i + 1 < l.length
    · rw [List.getElem?_set_ne (by omega)]
      exact hlast
    · have heq : l.length - 1 = i := by omega
      rw [heq, List.getElem?_set_self hi]
  have hset : (l.set i x).Perm (x :: l.eraseIdx i) := List.set_perm_cons_eraseIdx hi x
  have hsplit : (x :: takeOut l i x).Perm (l.set i x) := by
    have happend := List.dropLast_append_getLast hne
    rw [hend] at happend
    exact (List.perm_append_singleton x _).symm.trans (List.Perm.of_eq happend)
  exact (hsplit.trans hset).cons_inv

namespace Holds

theorem empty : Holds key val [] fun _ => none := by
  refine ⟨List.nodup_nil, fun k b => ?_⟩
  simp

theorem perm (h : Holds key val l f) (hperm : l.Perm l') : Holds key val l' f := by
  refine ⟨((hperm.map key).nodup_iff).mp h.nodup, fun k b => ?_⟩
  rw [h.entry]
  exact exists_congr fun x => and_congr_left fun _ => hperm.mem_iff

theorem eq_none_iff (h : Holds key val l f) : f k = none ↔ ∀ x ∈ l, key x ≠ k := by
  rw [Option.eq_none_iff_forall_ne_some]
  constructor
  · intro hnone x hx hk
    exact hnone (val x) ((h.entry k _).mpr ⟨x, hx, hk, rfl⟩)
  · intro hall b hb
    obtain ⟨x, hx, hk, -⟩ := (h.entry k b).mp hb
    exact hall x hx hk

/-- The first entry with a key is the one with its value. -/
theorem find (h : Holds key val l f) [DecidableEq κ] :
    (l.find? fun x => key x = k).map val = f k := by
  cases hfind : l.find? fun x => key x = k with
  | none =>
      symm
      rw [Option.map_none, h.eq_none_iff]
      intro x hx
      exact of_decide_eq_false (Bool.eq_false_iff.mpr (List.find?_eq_none.mp hfind x hx))
  | some x =>
      have hkey := List.find?_some hfind
      symm
      rw [Option.map_some, h.entry]
      exact ⟨x, List.mem_of_find?_eq_some hfind, of_decide_eq_true hkey, rfl⟩

theorem append [DecidableEq κ] (h : Holds key val l f) (hnew : f (key x) = none) :
    Holds key val (l ++ [x]) (Function.update f (key x) (some (val x))) := by
  have hfresh := h.eq_none_iff.mp hnew
  constructor
  · rw [List.map_append, List.nodup_append]
    refine ⟨h.nodup, List.nodup_singleton _, ?_⟩
    intro a ha b hb
    obtain ⟨y, hy, rfl⟩ := List.mem_map.mp ha
    rw [List.map_singleton, List.mem_singleton] at hb
    rw [hb]
    exact hfresh y hy
  · intro k b
    by_cases hk : k = key x
    · subst hk
      rw [Function.update_self, Option.some_inj]
      constructor
      · rintro rfl
        exact ⟨x, List.mem_append_right _ List.mem_cons_self, rfl, rfl⟩
      · rintro ⟨y, hy, hkey, hval⟩
        rcases List.mem_append.mp hy with hy | hy
        · exact absurd hkey (hfresh y hy)
        · rw [List.mem_singleton.mp hy] at hval
          exact hval
    · rw [Function.update_of_ne hk, h.entry]
      constructor
      · rintro ⟨y, hy, hkey⟩
        exact ⟨y, List.mem_append_left _ hy, hkey⟩
      · rintro ⟨y, hy, hkey⟩
        rcases List.mem_append.mp hy with hy | hy
        · exact ⟨y, hy, hkey⟩
        · rw [List.mem_singleton.mp hy] at hkey
          exact absurd hkey.1.symm hk

theorem eraseIdx [DecidableEq κ] (h : Holds key val l f) (hx : l[i]? = some x) :
    Holds key val (l.eraseIdx i) (Function.update f (key x) none) := by
  have hperm := getElem_perm_eraseIdx hx
  have hcons := h.perm hperm.symm
  have hnodup := hcons.nodup
  rw [List.map_cons, List.nodup_cons] at hnodup
  refine ⟨hnodup.2, fun k b => ?_⟩
  by_cases hk : k = key x
  · subst hk
    rw [Function.update_self]
    refine iff_of_false (Option.some_ne_none b).symm ?_
    rintro ⟨y, hy, hkey, -⟩
    exact hnodup.1 (hkey ▸ List.mem_map_of_mem hy)
  · rw [Function.update_of_ne hk, hcons.entry]
    constructor
    · rintro ⟨y, hy, hkey⟩
      rcases List.mem_cons.mp hy with rfl | hy
      · exact absurd hkey.1.symm hk
      · exact ⟨y, hy, hkey⟩
    · rintro ⟨y, hy, hkey⟩
      exact ⟨y, List.mem_cons_of_mem x hy, hkey⟩

end Holds

end CodingSample.KeyedList
