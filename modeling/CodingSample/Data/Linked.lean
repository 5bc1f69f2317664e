import Mathlib.Data.List.Nodup
import Mathlib.Logic.Function.Basic

/-!
# Lists through one link field

The elements of a list are linked through `next`, the last one to nothing, and a list has a pointer
to its first and one to its last element. The links of elements in no list are arbitrary.
-/

namespace CodingSample

variable {α : Type} {next next' : α → Option α} {head tail : Option α} {a b t : α}
  {l l' xs ys : List α}

/-- The list goes along `next` and ends where `next` does. -/
def Linked (next : α → Option α) : List α → Prop
  | [] => True
  | a :: l => next a = l.head? ∧ Linked next l

namespace Linked

theorem congr (h : Linked next l) (heq : ∀ a ∈ l, next' a = next a) : Linked next' l := by
  induction l with
  | nil => exact trivial
  | cons a l ih =>
      refine ⟨(heq a List.mem_cons_self).trans h.1, ih h.2 ?_⟩
      exact fun b hb => heq b (List.mem_cons_of_mem a hb)

theorem of_append (h : Linked next (xs ++ ys)) : Linked next ys := by
  induction xs with
  | nil => exact h
  | cons x xs ih => exact ih h.2

theorem next_last (h : Linked next (xs ++ [t])) : next t = none := h.of_append.1

/-- The list is determined by where it starts. -/
theorem unique (h : Linked next l) (h' : Linked next l') (heq : l.head? = l'.head?) : l = l' := by
  induction l generalizing l' with
  | nil => exact (List.head?_eq_none_iff.mp heq.symm).symm
  | cons a l ih =>
      cases l' with
      | nil => cases heq
      | cons b l' =>
          obtain rfl : a = b := Option.some.inj heq
          rw [ih h.2 h'.2 (h.1.symm.trans h'.1)]

variable [DecidableEq α]

theorem update_of_notMem {o : Option α} (h : Linked next l) (ha : a ∉ l) :
    Linked (Function.update next a o) l := by
  apply h.congr
  intro b hb
  refine Function.update_of_ne ?_ _ _
  rintro rfl
  exact ha hb

/-- An element is put behind the last one. -/
theorem concat (h : Linked next (xs ++ [t])) (ht : t ∉ xs) (hta : t ≠ a) (ha : next a = none) :
    Linked (Function.update next t (some a)) (xs ++ [t, a]) := by
  induction xs with
  | nil =>
      refine ⟨Function.update_self _ _ _, ?_, trivial⟩
      rw [Function.update_of_ne hta.symm]
      exact ha
  | cons x xs ih =>
      rw [List.mem_cons, not_or] at ht
      refine ⟨?_, ih h.2 ht.2⟩
      rw [Function.update_of_ne (Ne.symm ht.1), h.1]
      cases xs with
      | nil => rfl
      | cons _ _ => rfl

/-- The element behind `b` is taken out. -/
theorem unlink (h : Linked next (xs ++ b :: a :: ys)) (hb : b ∉ xs ++ ys) :
    Linked (Function.update next b (next a)) (xs ++ b :: ys) := by
  rw [List.mem_append, not_or] at hb
  induction xs with
  | nil =>
      exact ⟨(Function.update_self _ _ _).trans h.2.1, h.2.2.update_of_notMem hb.2⟩
  | cons x xs ih =>
      rw [List.mem_cons, not_or] at hb
      refine ⟨?_, ih h.2 ⟨hb.1.2, hb.2⟩⟩
      rw [Function.update_of_ne (Ne.symm hb.1.1), h.1]
      cases xs with
      | nil => rfl
      | cons _ _ => rfl

/-- An element in no list is put behind `a`. -/
theorem insert_behind (h : Linked next (xs ++ a :: ys)) (ha : a ∉ xs ++ ys)
    (hb : b ∉ xs ++ a :: ys) :
    Linked (Function.update (Function.update next b (next a)) a (some b)) (xs ++ a :: b :: ys) := by
  rw [List.mem_append, not_or] at ha hb
  rw [List.mem_cons, not_or] at hb
  induction xs with
  | nil =>
      refine ⟨Function.update_self _ _ _, ?_, ?_⟩
      · rw [Function.update_of_ne hb.2.1, Function.update_self]
        exact h.1
      · exact (h.2.update_of_notMem hb.2.2).update_of_notMem ha.2
  | cons x xs ih =>
      rw [List.mem_cons, not_or] at ha hb
      refine ⟨?_, ih h.2 ⟨ha.1.2, ha.2⟩ ⟨hb.1.2, hb.2⟩⟩
      rw [Function.update_of_ne (Ne.symm ha.1.1), Function.update_of_ne (Ne.symm hb.1.1), h.1]
      cases xs with
      | nil => rfl
      | cons _ _ => rfl

/-- One list is put behind the last element of another. -/
theorem join (h : Linked next (xs ++ [t])) (h' : Linked next ys) (ht : t ∉ xs ++ ys) :
    Linked (Function.update next t ys.head?) (xs ++ t :: ys) := by
  rw [List.mem_append, not_or] at ht
  induction xs with
  | nil =>
      exact ⟨Function.update_self _ _ _, h'.update_of_notMem ht.2⟩
  | cons x xs ih =>
      rw [List.mem_cons, not_or] at ht
      refine ⟨?_, ih h.2 ⟨ht.1.2, ht.2⟩⟩
      rw [Function.update_of_ne (Ne.symm ht.1.1), h.1]
      cases xs with
      | nil => rfl
      | cons _ _ => rfl

end Linked

/-- The list between two pointers. -/
structure Listed (next : α → Option α) (head tail : Option α) (l : List α) : Prop where
  head : head = l.head?
  tail : tail = l.getLast?
  linked : Linked next l
  nodup : l.Nodup

namespace Listed

theorem nil : Listed next none none [] := ⟨rfl, rfl, trivial, List.nodup_nil⟩

theorem congr (h : Listed next head tail l) (heq : ∀ a ∈ l, next' a = next a) :
    Listed next' head tail l := ⟨h.head, h.tail, h.linked.congr heq, h.nodup⟩

theorem unique (h : Listed next head tail l) (h' : Listed next head tail l') : l = l' :=
  h.linked.unique h'.linked (h.head.symm.trans h'.head)

theorem eq_nil (h : Listed next none tail l) : l = [] := List.head?_eq_none_iff.mp h.head.symm

theorem eq_cons (h : Listed next (some a) tail l) : ∃ xs, l = a :: xs := by
  obtain ⟨xs, hxs⟩ := List.head?_eq_some_iff.mp h.head.symm
  exact ⟨xs, hxs⟩

theorem eq_concat (h : Listed next head (some t) l) : ∃ xs, l = xs ++ [t] :=
  List.getLast?_eq_some_iff.mp h.tail.symm

theorem tail_isSome (h : Listed next (some a) tail l) : ∃ t, tail = some t := by
  obtain ⟨xs, rfl⟩ := h.eq_cons
  exact ⟨_, h.tail.trans (List.getLast?_eq_some_getLast (List.cons_ne_nil a xs))⟩

theorem next_tail (h : Listed next head (some t) l) : next t = none := by
  obtain ⟨xs, rfl⟩ := h.eq_concat
  exact h.linked.next_last

theorem single (ha : next a = none) : Listed next (some a) (some a) [a] :=
  ⟨rfl, rfl, ⟨ha, trivial⟩, List.nodup_singleton a⟩

/-- The first element is taken out. -/
theorem removeHead (h : Listed next head tail (a :: l)) :
    Listed next (next a) (if next a = none then none else tail) l := by
  obtain ⟨ha, hnodup⟩ := List.nodup_cons.mp h.nodup
  refine ⟨h.linked.1, ?_, h.linked.2, hnodup⟩
  rw [h.linked.1]
  cases l with
  | nil => rfl
  | cons b l =>
      rw [if_neg (by exact nofun), h.tail, List.getLast?_cons_cons]

variable [DecidableEq α]

theorem append (h : Listed next head (some t) l) (ha : a ∉ l) (hnext : next a = none) :
    Listed (Function.update next t (some a)) head (some a) (l ++ [a]) := by
  obtain ⟨xs, rfl⟩ := h.eq_concat
  have hta : t ≠ a := by
    rintro rfl
    exact ha (List.mem_append_right xs (List.mem_singleton_self t))
  have ht : t ∉ xs := by
    intro hin
    exact (List.nodup_append.mp h.nodup).2.2 t hin t (List.mem_singleton_self t) rfl
  refine ⟨?_, List.getLast?_concat.symm, ?_, ?_⟩
  · rw [h.head]
    cases xs <;> rfl
  · rw [List.append_assoc]
    exact h.linked.concat ht hta hnext
  · refine List.nodup_append.mpr ⟨h.nodup, List.nodup_singleton a, ?_⟩
    rintro c hc d hd rfl
    obtain rfl := List.mem_singleton.mp hd
    exact ha hc

/-- The element behind `b` is taken out. -/
theorem unlink (h : Listed next head tail (xs ++ b :: a :: ys)) :
    Listed (Function.update next b (next a)) head (if next a = none then some b else tail)
      (xs ++ b :: ys) := by
  have hsub : (xs ++ b :: ys).Sublist (xs ++ b :: a :: ys) :=
    (List.Sublist.refl xs).append ((List.sublist_cons_self a ys).cons_cons b)
  have hb : b ∉ xs ++ ys := (List.nodup_middle.mp (h.nodup.sublist hsub)).notMem
  have hlast : next a = ys.head? := h.linked.of_append.2.1
  refine ⟨?_, ?_, h.linked.unlink hb, h.nodup.sublist hsub⟩
  · rw [h.head]
    cases xs <;> rfl
  · rw [hlast]
    cases ys with
    | nil => simp
    | cons c ys =>
        rw [if_neg (by exact nofun), h.tail]
        simp [List.getLast?_cons]

theorem erase_next (h : Listed next head tail (xs ++ b :: a :: ys)) :
    (xs ++ b :: a :: ys).erase a = xs ++ b :: ys ∧ a ≠ b := by
  obtain ⟨-, hright, hdisj⟩ := List.nodup_append.mp h.nodup
  have hax : a ∉ xs := fun hx => hdisj a hx a (List.mem_cons_of_mem _ List.mem_cons_self) rfl
  have hab : a ≠ b := by
    rintro rfl
    exact (List.nodup_cons.mp hright).1 List.mem_cons_self
  refine ⟨?_, hab⟩
  rw [List.erase_append_right _ hax, List.erase_cons_tail, List.erase_cons_head]
  rw [beq_iff_eq]
  exact hab.symm

end Listed

end CodingSample
