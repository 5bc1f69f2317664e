import Mathlib.Data.List.Chain
import Mathlib.Data.List.Perm.Subperm
import Mathlib.Logic.Function.Basic
import Mathlib.Tactic.Common

/-!
# Circular doubly linked lists

Lists threaded through the link fields of their elements, each closed by a head. An address is a
head or an element. The edits are the two macros of `list.h`; they fail where the macro would
follow a null pointer.
-/

namespace CodingSample

/-- The two link fields of every address. -/
structure Links (α : Type) where
  next : α → Option α
  prev : α → Option α

namespace Links

variable {α : Type} [DecidableEq α]

def setNext (l : Links α) (a : α) (b : Option α) : Links α :=
  { l with next := Function.update l.next a b }

def setPrev (l : Links α) (a : α) (b : Option α) : Links α :=
  { l with prev := Function.update l.prev a b }

/-- `list_init` -/
def init (l : Links α) (a : α) : Links α := (l.setNext a (some a)).setPrev a (some a)

/-- `list_insert_before` -/
def insertBefore (l : Links α) (old new : α) : Option (Links α) := do
  let l := l.setNext new (some old)
  let l := l.setPrev new (l.prev old)
  let prev ← l.prev old
  let l := l.setNext prev (some new)
  pure (l.setPrev old (some new))

/-- `list_insert_head` -/
def insertHead (l : Links α) (list link : α) : Option (Links α) := do
  let first ← l.next list
  l.insertBefore first link

/-- `list_insert_tail` -/
def insertTail (l : Links α) (list link : α) : Option (Links α) := l.insertBefore list link

/-- `list_remove` -/
def remove (l : Links α) (link : α) : Option (Links α) := do
  let prev ← l.prev link
  let next ← l.next link
  let l := (l.setNext prev (some next)).setPrev next (some prev)
  pure ((l.setNext link none).setPrev link none)

/-- `list_empty` -/
def isEmpty (l : Links α) (list : α) : Bool := l.next list = some list

/-- `b` follows `a`. -/
def Adj (l : Links α) (a b : α) : Prop := l.next a = some b ∧ l.prev b = some a

variable {l l' : Links α}

omit [DecidableEq α] in
/-- A chain reads the next field of all its elements but the last, and the other field of all
but the first. -/
theorem isChain_congr {c : List α} (h : c.IsChain l.Adj)
    (hnext : ∀ a ∈ c.dropLast, l'.next a = l.next a)
    (hprev : ∀ a ∈ c.tail, l'.prev a = l.prev a) : c.IsChain l'.Adj := by
  induction c with
  | nil => exact .nil
  | cons a c ih =>
      cases c with
      | nil => exact .singleton a
      | cons b c =>
          rw [List.isChain_cons_cons] at h ⊢
          refine ⟨⟨?_, ?_⟩, ih h.2 ?_ ?_⟩
          · rw [hnext a (by simp), h.1.1]
          · rw [hprev b (by simp), h.1.2]
          · intro x hx
            exact hnext x (by rw [List.dropLast_cons_cons]; exact List.mem_cons_of_mem a hx)
          · intro x hx
            exact hprev x (List.mem_cons_of_mem b hx)

/-- Removing a new element restores the fields of its neighbours. -/
theorem remove_insertBefore {a b t : α} (hadj : l.Adj a b) (ha : a ≠ t) (hb : b ≠ t)
    (hnext : l.next t = none) (hprev : l.prev t = none) (hins : l.insertBefore b t = some l') :
    l'.remove t = some l := by
  obtain ⟨hab, hba⟩ := hadj
  simp only [insertBefore, setNext, setPrev, Function.update_of_ne hb, hba, pure, bind,
    Option.bind_some, Option.some.injEq] at hins
  subst hins
  have hto : t ≠ a := ha.symm
  have hfrom : t ≠ b := hb.symm
  simp only [remove, setNext, setPrev, Function.update_self, Function.update_of_ne hto,
    Function.update_of_ne hfrom, pure, bind, Option.bind_some, Option.some.injEq]
  obtain ⟨next, prev⟩ := l
  simp only [] at hab hba hnext hprev
  congr 1
  · funext c
    by_cases hc : c = t
    · simp [hc, hnext]
    · by_cases hca : c = a
      · simp [hca, ha, hab]
      · simp [hc, hca]
  · funext c
    by_cases hc : c = t
    · simp [hc, hprev]
    · by_cases hcb : c = b
      · simp [hcb, hb, hba]
      · simp [hc, hcb]

end Links

open Links

variable {H T : Type}

/-- The elements after an address, up to the head of the list. -/
def Links.walk (l : Links (H ⊕ T)) : H ⊕ T → Nat → List T
  | _, 0 => []
  | a, n + 1 =>
      match l.next a with
      | some (.inr t) => t :: walk l (.inr t) n
      | _ => []

/-- The addresses met on the way around a list, from its head back to its head. -/
def cycle (h : H) (xs : List T) : List (H ⊕ T) := Sum.inl h :: (xs.map Sum.inr ++ [Sum.inl h])

/-- The list at head `h` is `q h`, an element is in one place at most, and the links of an element
that is in no list are null. -/
structure Rings (l : Links (H ⊕ T)) (q : H → List T) : Prop where
  chain : ∀ h, (cycle h (q h)).IsChain l.Adj
  nodup : ∀ h, (q h).Nodup
  unique : ∀ h h' t, t ∈ q h → t ∈ q h' → h = h'
  null : ∀ t, (∀ h, t ∉ q h) → l.next (.inr t) = none ∧ l.prev (.inr t) = none

/-- The address before the place between `xs` and what follows it. -/
def lastOf (h : H) (xs : List T) : H ⊕ T := (xs.map Sum.inr).getLastD (Sum.inl h)

/-- The address after the place between `ys` and what precedes it. -/
def firstOf (h : H) (ys : List T) : H ⊕ T := (ys.map Sum.inr).headD (Sum.inl h)

theorem lastOf_eq (h : H) (xs : List T) :
    lastOf h xs = Sum.inl h ∨ ∃ u ∈ xs, lastOf h xs = Sum.inr u := by
  rcases List.eq_nil_or_concat xs with rfl | ⟨zs, u, rfl⟩
  · exact Or.inl rfl
  · exact Or.inr ⟨u, by simp, by simp [lastOf]⟩

theorem firstOf_eq (h : H) (ys : List T) :
    firstOf h ys = Sum.inl h ∨ ∃ u ∈ ys, firstOf h ys = Sum.inr u := by
  cases ys with
  | nil => exact Or.inl rfl
  | cons u ys => exact Or.inr ⟨u, List.mem_cons_self, rfl⟩

theorem head?_eq (h : H) (ys : List T) :
    (ys.map Sum.inr ++ [Sum.inl h]).head? = some (firstOf h ys) := by
  cases ys <;> rfl

/-- The way around a list falls into the part up to a place and the part after it. -/
theorem isChain_cycle_append {l : Links (H ⊕ T)} {h : H} {xs ys : List T} :
    (cycle h (xs ++ ys)).IsChain l.Adj ↔
      (Sum.inl h :: xs.map Sum.inr).IsChain l.Adj ∧
        (ys.map Sum.inr ++ [Sum.inl h]).IsChain l.Adj ∧ l.Adj (lastOf h xs) (firstOf h ys) := by
  have hsplit : cycle h (xs ++ ys) =
      (Sum.inl h :: xs.map Sum.inr) ++ (ys.map Sum.inr ++ [Sum.inl h]) := by
    simp [cycle]
  have hlast : (Sum.inl h :: xs.map Sum.inr).getLast? = some (lastOf h xs) := by
    simp [List.getLast?_cons, lastOf]
  rw [hsplit, List.isChain_append, hlast, head?_eq]
  simp

theorem length_le_of_lt {l : List Nat} (hnodup : l.Nodup) {n : Nat} (hlt : ∀ t ∈ l, t < n) :
    l.length ≤ n := by
  have hsub : l ⊆ List.range n := fun t ht => List.mem_range.mpr (hlt t ht)
  simpa using (List.subperm_of_subset hnodup hsub).length_le

namespace Rings

variable {l l' : Links (H ⊕ T)} {q : H → List T} {h h' : H} {t : T} {xs ys : List T}

theorem lastOf_ne_inl (hne : h' ≠ h) : lastOf h xs ≠ Sum.inl h' := by
  rcases lastOf_eq h xs with hlast | ⟨w, -, hlast⟩
  · rw [hlast]
    exact fun heq => hne (Sum.inl.inj heq).symm
  · rw [hlast]
    exact nofun

theorem lastOf_ne_inr (ht : t ∉ xs) : lastOf h xs ≠ Sum.inr t := by
  rcases lastOf_eq h xs with hlast | ⟨w, hw, hlast⟩
  · rw [hlast]
    exact nofun
  · rw [hlast]
    exact fun heq => ht (Sum.inr.inj heq ▸ hw)

theorem firstOf_ne_inl (hne : h' ≠ h) : firstOf h ys ≠ Sum.inl h' := by
  rcases firstOf_eq h ys with hfirst | ⟨w, -, hfirst⟩
  · rw [hfirst]
    exact fun heq => hne (Sum.inl.inj heq).symm
  · rw [hfirst]
    exact nofun

theorem firstOf_ne_inr (ht : t ∉ ys) : firstOf h ys ≠ Sum.inr t := by
  rcases firstOf_eq h ys with hfirst | ⟨w, hw, hfirst⟩
  · rw [hfirst]
    exact nofun
  · rw [hfirst]
    exact fun heq => ht (Sum.inr.inj heq ▸ hw)

/-- An edit between `lastOf h xs` and `firstOf h ys` leaves the two sides of the place alone. -/
theorem sides (hleft : (Sum.inl h :: xs.map Sum.inr).IsChain l.Adj)
    (hright : (ys.map Sum.inr ++ [Sum.inl h]).IsChain l.Adj) (hnodup : (xs ++ ys).Nodup)
    (hnext : ∀ a, (a = Sum.inl h ∨ ∃ u ∈ xs ++ ys, a = Sum.inr u) → lastOf h xs ≠ a →
      l'.next a = l.next a)
    (hprev : ∀ a, (a = Sum.inl h ∨ ∃ u ∈ xs ++ ys, a = Sum.inr u) → firstOf h ys ≠ a →
      l'.prev a = l.prev a) :
    (Sum.inl h :: xs.map Sum.inr).IsChain l'.Adj ∧
      (ys.map Sum.inr ++ [Sum.inl h]).IsChain l'.Adj := by
  obtain ⟨hnodupX, hnodupY, hdisj⟩ := List.nodup_append.mp hnodup
  constructor
  · refine isChain_congr hleft ?_ ?_
    · intro a ha
      rcases List.eq_nil_or_concat xs with rfl | ⟨zs, z, rfl⟩
      · simp at ha
      · have hlast : lastOf h (zs ++ [z]) = (Sum.inr z : H ⊕ T) := by simp [lastOf]
        rw [List.concat_eq_append] at *
        rw [List.map_append, List.map_singleton, ← List.cons_append, List.dropLast_concat] at ha
        rcases List.mem_cons.mp ha with rfl | ha
        · exact hnext _ (Or.inl rfl) (by rw [hlast]; exact nofun)
        · obtain ⟨u, hu, rfl⟩ := List.mem_map.mp ha
          refine hnext _ (Or.inr ⟨u, by simp [hu], rfl⟩) ?_
          rw [hlast]
          intro heq
          obtain rfl := Sum.inr.inj heq
          exact (List.nodup_append.mp hnodupX).2.2 z hu z List.mem_cons_self rfl
    · intro a ha
      obtain ⟨u, hu, rfl⟩ := List.mem_map.mp ha
      refine hprev _ (Or.inr ⟨u, List.mem_append_left _ hu, rfl⟩) ?_
      exact firstOf_ne_inr fun hy => hdisj u hu u hy rfl
  · refine isChain_congr hright ?_ ?_
    · intro a ha
      rw [List.dropLast_concat] at ha
      obtain ⟨u, hu, rfl⟩ := List.mem_map.mp ha
      refine hnext _ (Or.inr ⟨u, List.mem_append_right _ hu, rfl⟩) ?_
      exact lastOf_ne_inr fun hx => hdisj u hx u hu rfl
    · intro a ha
      cases ys with
      | nil => simp at ha
      | cons y ys =>
          rw [List.map_cons, List.cons_append, List.tail_cons, List.mem_append,
            List.mem_singleton] at ha
          rcases ha with ha | rfl
          · obtain ⟨u, hu, rfl⟩ := List.mem_map.mp ha
            refine hprev _ (Or.inr ⟨u, by simp [hu], rfl⟩) ?_
            intro heq
            obtain rfl := Sum.inr.inj heq
            exact (List.nodup_cons.mp hnodupY).1 hu
          · exact hprev _ (Or.inl rfl) nofun

/-- An edit in the list of `h` that makes it `zs` and touches no other list. -/
theorem splice [DecidableEq H] (hr : Rings l q) {zs : List T}
    (hchain : (cycle h zs).IsChain l'.Adj) (hzs : zs.Nodup)
    (hfree : ∀ u ∈ zs, ∀ g, g ≠ h → u ∉ q g)
    (hframe : ∀ a g, g ≠ h → (a = Sum.inl g ∨ ∃ u ∈ q g, a = Sum.inr u) →
      l'.next a = l.next a ∧ l'.prev a = l.prev a)
    (hnull : ∀ u, u ∉ zs → (∀ g, g ≠ h → u ∉ q g) →
      l'.next (.inr u) = none ∧ l'.prev (.inr u) = none) :
    Rings l' (Function.update q h zs) := by
  refine ⟨?_, ?_, ?_, ?_⟩
  · intro g
    by_cases hg : g = h
    · subst hg
      rwa [Function.update_self]
    · rw [Function.update_of_ne hg]
      refine isChain_congr (hr.chain g) ?_ ?_
      · intro a ha
        refine (hframe a g hg ?_).1
        rcases List.mem_cons.mp (List.dropLast_subset _ ha) with rfl | ha
        · exact Or.inl rfl
        · simpa [eq_comm, or_comm] using ha
      · intro a ha
        refine (hframe a g hg ?_).2
        rw [cycle, List.tail_cons] at ha
        simpa [eq_comm, or_comm] using ha
  · intro g
    by_cases hg : g = h
    · subst hg
      rwa [Function.update_self]
    · rw [Function.update_of_ne hg]
      exact hr.nodup g
  · intro g g' u hu hu'
    by_cases hg : g = h <;> by_cases hg' : g' = h
    · rw [hg, hg']
    · rw [hg, Function.update_self] at hu
      rw [Function.update_of_ne hg'] at hu'
      exact absurd hu' (hfree u hu g' hg')
    · rw [hg', Function.update_self] at hu'
      rw [Function.update_of_ne hg] at hu
      exact absurd hu (hfree u hu' g hg)
    · rw [Function.update_of_ne hg] at hu
      rw [Function.update_of_ne hg'] at hu'
      exact hr.unique g g' u hu hu'
  · intro u hu
    refine hnull u ?_ ?_
    · have := hu h
      rwa [Function.update_self] at this
    · intro g hg
      have := hu g
      rwa [Function.update_of_ne hg] at this

theorem adj (hr : Rings l q) (hq : q h = xs ++ ys) : l.Adj (lastOf h xs) (firstOf h ys) := by
  have hchain := hr.chain h
  rw [hq] at hchain
  exact (isChain_cycle_append.mp hchain).2.2

section Edits

variable [DecidableEq H] [DecidableEq T]

/-- Put `t` between `xs` and `ys`. -/
theorem insertBefore_spec (hr : Rings l q) (hq : q h = xs ++ ys) (ht : ∀ g, t ∉ q g) :
    ∃ l', l.insertBefore (firstOf h ys) (.inr t) = some l' ∧
      Rings l' (Function.update q h (xs ++ t :: ys)) := by
  have htq := ht h
  rw [hq, List.mem_append, not_or] at htq
  obtain ⟨hadjn, hadjp⟩ := hr.adj hq
  have hpt : lastOf h xs ≠ Sum.inr t := lastOf_ne_inr htq.1
  have hot : firstOf h ys ≠ Sum.inr t := firstOf_ne_inr htq.2
  set l' : Links (H ⊕ T) :=
    ⟨Function.update (Function.update l.next (.inr t) (some (firstOf h ys))) (lastOf h xs)
      (some (.inr t)), Function.update (Function.update l.prev (.inr t) (some (lastOf h xs)))
        (firstOf h ys) (some (.inr t))⟩ with hl'
  have hins : l.insertBefore (firstOf h ys) (.inr t) = some l' := by
    simp [Links.insertBefore, setNext, setPrev, hadjp, hot, hl']
  have hnext {a : H ⊕ T} (ha : a ≠ .inr t) (hap : lastOf h xs ≠ a) : l'.next a = l.next a :=
    (Function.update_of_ne hap.symm _ _).trans (Function.update_of_ne ha _ _)
  have hprev {a : H ⊕ T} (ha : a ≠ .inr t) (hao : firstOf h ys ≠ a) : l'.prev a = l.prev a :=
    (Function.update_of_ne hao.symm _ _).trans (Function.update_of_ne ha _ _)
  have hmem {u : T} {g : H} (hu : u ∈ q g) : Sum.inr u ≠ (Sum.inr t : H ⊕ T) :=
    fun heq => ht g (Sum.inr.inj heq ▸ hu)
  have hchain := hr.chain h
  rw [hq] at hchain
  obtain ⟨hleft, hright, -⟩ := isChain_cycle_append.mp hchain
  have hnodup := hr.nodup h
  rw [hq] at hnodup
  have hside {a : H ⊕ T} (ha : a = Sum.inl h ∨ ∃ u ∈ xs ++ ys, a = Sum.inr u) : a ≠ .inr t := by
    rcases ha with rfl | ⟨u, hu, rfl⟩
    · exact nofun
    · exact hmem (hq ▸ hu)
  obtain ⟨hleft', hright'⟩ := sides hleft hright hnodup
    (fun a ha hap => hnext (hside ha) hap) fun a ha hao => hprev (hside ha) hao
  refine ⟨l', hins, hr.splice ?_ ?_ ?_ ?_ ?_⟩
  · rw [isChain_cycle_append]
    refine ⟨hleft', ?_, Function.update_self .., ?_⟩
    · rw [List.map_cons, List.cons_append, List.isChain_cons, head?_eq]
      refine ⟨?_, hright'⟩
      intro b hb
      cases hb
      refine ⟨?_, Function.update_self ..⟩
      exact (Function.update_of_ne hpt.symm _ _).trans (Function.update_self ..)
    · exact (Function.update_of_ne hot.symm _ _).trans (Function.update_self ..)
  · rw [(List.perm_middle).nodup_iff, List.nodup_cons, List.mem_append]
    exact ⟨not_or.mpr htq, hnodup⟩
  · intro u hu g hg hug
    rcases List.mem_append.mp hu with hu | hu
    · exact hg (hr.unique g h u hug (hq ▸ List.mem_append_left _ hu))
    · rcases List.mem_cons.mp hu with rfl | hu
      · exact ht g hug
      · exact hg (hr.unique g h u hug (hq ▸ List.mem_append_right _ hu))
  · rintro a g hg (rfl | ⟨u, hu, rfl⟩)
    · exact ⟨hnext nofun (lastOf_ne_inl hg), hprev nofun (firstOf_ne_inl hg)⟩
    · have hux : u ∉ xs ++ ys := fun hx => hg (hr.unique g h u hu (hq ▸ hx))
      rw [List.mem_append, not_or] at hux
      exact ⟨hnext (hmem hu) (lastOf_ne_inr hux.1), hprev (hmem hu) (firstOf_ne_inr hux.2)⟩
  · intro u hu hug
    rw [List.mem_append, List.mem_cons, not_or, not_or] at hu
    have hut : Sum.inr u ≠ (Sum.inr t : H ⊕ T) := fun heq => hu.2.1 (Sum.inr.inj heq)
    rw [hnext hut (lastOf_ne_inr hu.1), hprev hut (firstOf_ne_inr hu.2.2)]
    refine hr.null u fun g => ?_
    by_cases hg : g = h
    · rw [hg, hq, List.mem_append, not_or]
      exact ⟨hu.1, hu.2.2⟩
    · exact hug g hg

/-- Take `t` from between `xs` and `ys`. -/
theorem remove_spec (hr : Rings l q) (hq : q h = xs ++ t :: ys) :
    ∃ l', l.remove (.inr t) = some l' ∧ Rings l' (Function.update q h (xs ++ ys)) ∧
      l'.next (.inr t) = none ∧ l'.prev (.inr t) = none := by
  have hnodup := hr.nodup h
  rw [hq, (List.perm_middle).nodup_iff, List.nodup_cons, List.mem_append, not_or] at hnodup
  obtain ⟨htq, hnodup⟩ := hnodup
  have htmem : t ∈ q h := by simp [hq]
  have hchain := hr.chain h
  rw [hq] at hchain
  obtain ⟨hleft, hright, hbefore⟩ := isChain_cycle_append.mp hchain
  rw [List.map_cons, List.cons_append, List.isChain_cons, head?_eq] at hright
  obtain ⟨hafter, hright⟩ := hright
  have hafter := hafter _ rfl
  have hpt : lastOf h xs ≠ Sum.inr t := lastOf_ne_inr htq.1
  have hot : firstOf h ys ≠ Sum.inr t := firstOf_ne_inr htq.2
  set l' : Links (H ⊕ T) :=
    ⟨Function.update (Function.update l.next (lastOf h xs) (some (firstOf h ys))) (.inr t) none,
      Function.update (Function.update l.prev (firstOf h ys) (some (lastOf h xs))) (.inr t) none⟩
    with hl'
  have hprevT : l.prev (.inr t) = some (lastOf h xs) := hbefore.2
  have hrem : l.remove (.inr t) = some l' := by
    simp [Links.remove, setNext, setPrev, hafter.1, hprevT, hl']
  have hnext {a : H ⊕ T} (ha : a ≠ .inr t) (hap : lastOf h xs ≠ a) : l'.next a = l.next a :=
    (Function.update_of_ne ha _ _).trans (Function.update_of_ne hap.symm _ _)
  have hprev {a : H ⊕ T} (ha : a ≠ .inr t) (hao : firstOf h ys ≠ a) : l'.prev a = l.prev a :=
    (Function.update_of_ne ha _ _).trans (Function.update_of_ne hao.symm _ _)
  have hside {a : H ⊕ T} (ha : a = Sum.inl h ∨ ∃ u ∈ xs ++ ys, a = Sum.inr u) : a ≠ .inr t := by
    rcases ha with rfl | ⟨u, hu, rfl⟩
    · exact nofun
    · intro heq
      obtain rfl := Sum.inr.inj heq
      exact (List.mem_append.mp hu).elim htq.1 htq.2
  obtain ⟨hleft', hright'⟩ := sides hleft hright hnodup
    (fun a ha hap => hnext (hside ha) hap) fun a ha hao => hprev (hside ha) hao
  have hself : l'.next (.inr t) = none ∧ l'.prev (.inr t) = none :=
    ⟨Function.update_self .., Function.update_self ..⟩
  refine ⟨l', hrem, hr.splice ?_ hnodup ?_ ?_ ?_, hself⟩
  · rw [isChain_cycle_append]
    refine ⟨hleft', hright', ?_, ?_⟩
    · exact (Function.update_of_ne hpt _ _).trans (Function.update_self ..)
    · exact (Function.update_of_ne hot _ _).trans (Function.update_self ..)
  · intro u hu g hg hug
    refine hg (hr.unique g h u hug ?_)
    rw [hq]
    rcases List.mem_append.mp hu with hu | hu
    · exact List.mem_append_left _ hu
    · exact List.mem_append_right _ (List.mem_cons_of_mem t hu)
  · rintro a g hg (rfl | ⟨u, hu, rfl⟩)
    · exact ⟨hnext nofun (lastOf_ne_inl hg), hprev nofun (firstOf_ne_inl hg)⟩
    · have hux : u ∉ xs ++ t :: ys := fun hx => hg (hr.unique g h u hu (hq ▸ hx))
      rw [List.mem_append, List.mem_cons, not_or, not_or] at hux
      have hut : Sum.inr u ≠ (Sum.inr t : H ⊕ T) := fun heq => hux.2.1 (Sum.inr.inj heq)
      exact ⟨hnext hut (lastOf_ne_inr hux.1), hprev hut (firstOf_ne_inr hux.2.2)⟩
  · intro u hu hug
    by_cases hut : u = t
    · subst hut
      exact hself
    · rw [List.mem_append, not_or] at hu
      have hne : Sum.inr u ≠ (Sum.inr t : H ⊕ T) := fun heq => hut (Sum.inr.inj heq)
      rw [hnext hne (lastOf_ne_inr hu.1), hprev hne (firstOf_ne_inr hu.2)]
      refine hr.null u fun g => ?_
      by_cases hg : g = h
      · rw [hg, hq, List.mem_append, List.mem_cons, not_or, not_or]
        exact ⟨hu.1, hut, hu.2⟩
      · exact hug g hg

theorem insertHead_spec (hr : Rings l q) (ht : ∀ g, t ∉ q g) :
    ∃ l', l.insertHead (.inl h) (.inr t) = some l' ∧
      Rings l' (Function.update q h (t :: q h)) := by
  obtain ⟨hadjn, -⟩ := hr.adj (show q h = [] ++ q h from rfl)
  obtain ⟨l', hins, hr'⟩ := hr.insertBefore_spec (show q h = [] ++ q h from rfl) ht
  refine ⟨l', ?_, hr'⟩
  have hfirst : l.next (.inl h) = some (firstOf h (q h)) := hadjn
  rw [Links.insertHead, hfirst]
  exact hins

theorem insertTail_spec (hr : Rings l q) (ht : ∀ g, t ∉ q g) :
    ∃ l', l.insertTail (.inl h) (.inr t) = some l' ∧
      Rings l' (Function.update q h (q h ++ [t])) :=
  hr.insertBefore_spec (show q h = q h ++ [] from (List.append_nil _).symm) ht

/-- Inserting an element and removing it again. -/
theorem remove_insertBefore (hr : Rings l q) (hq : q h = xs ++ ys) (ht : ∀ g, t ∉ q g)
    (hins : l.insertBefore (firstOf h ys) (.inr t) = some l') : l'.remove (.inr t) = some l := by
  have htq := ht h
  rw [hq, List.mem_append, not_or] at htq
  obtain ⟨hnext, hprev⟩ := hr.null t ht
  exact Links.remove_insertBefore (hr.adj hq) (lastOf_ne_inr htq.1) (firstOf_ne_inr htq.2)
    hnext hprev hins

theorem remove_insertHead (hr : Rings l q) (ht : ∀ g, t ∉ q g)
    (hins : l.insertHead (.inl h) (.inr t) = some l') : l'.remove (.inr t) = some l := by
  have hq : q h = [] ++ q h := rfl
  have hfirst : l.next (.inl h) = some (firstOf h (q h)) := (hr.adj hq).1
  rw [Links.insertHead, hfirst] at hins
  exact hr.remove_insertBefore hq ht hins

theorem remove_insertTail (hr : Rings l q) (ht : ∀ g, t ∉ q g)
    (hins : l.insertTail (.inl h) (.inr t) = some l') : l'.remove (.inr t) = some l :=
  hr.remove_insertBefore (show q h = q h ++ [] from (List.append_nil _).symm) ht hins

end Edits

theorem isEmpty_iff (hr : Rings l q) : l.next (.inl h) = some (.inl h) ↔ q h = [] := by
  obtain ⟨hadjn, -⟩ := hr.adj (show q h = [] ++ q h from rfl)
  have hfirst : l.next (.inl h) = some (firstOf h (q h)) := hadjn
  rw [hfirst]
  cases hq : q h with
  | nil => simp [firstOf]
  | cons t ts => simp [firstOf]

/-- The links of an element are null exactly when it is in no list. -/
theorem null_iff (hr : Rings l q) :
    (l.next (.inr t) = none ∧ l.prev (.inr t) = none ↔ ∀ g, t ∉ q g) ∧
      (l.next (.inr t) ≠ none ∧ l.prev (.inr t) ≠ none ↔ ∃ g, t ∈ q g) := by
  have hlinked (hmem : ∃ g, t ∈ q g) :
      l.next (.inr t) ≠ none ∧ l.prev (.inr t) ≠ none := by
    obtain ⟨g, hg⟩ := hmem
    obtain ⟨xs, ys, hq⟩ := List.append_of_mem hg
    have hchain := hr.chain g
    rw [hq] at hchain
    obtain ⟨-, hright, hbefore⟩ := isChain_cycle_append.mp hchain
    rw [List.map_cons, List.cons_append, List.isChain_cons, head?_eq] at hright
    rw [(hright.1 _ rfl).1, show l.prev (.inr t) = some (lastOf g xs) from hbefore.2]
    exact ⟨nofun, nofun⟩
  by_cases hmem : ∃ g, t ∈ q g
  · obtain ⟨hn, hp⟩ := hlinked hmem
    exact ⟨iff_of_false (fun h => hn h.1) (fun h => hmem.elim h), iff_of_true ⟨hn, hp⟩ hmem⟩
  · have hnone : ∀ g, t ∉ q g := fun g hg => hmem ⟨g, hg⟩
    obtain ⟨hn, hp⟩ := hr.null t hnone
    exact ⟨iff_of_true ⟨hn, hp⟩ hnone, iff_of_false (fun h => h.1 hn) hmem⟩

theorem walk_lastOf (hr : Rings l q) {n : Nat} (hq : q h = xs ++ ys) (hn : ys.length ≤ n) :
    l.walk (lastOf h xs) n = ys := by
  induction n generalizing xs ys with
  | zero => exact (List.length_eq_zero_iff.mp (Nat.le_zero.mp hn)).symm
  | succ n ih =>
      have hnext := (hr.adj hq).1
      unfold Links.walk
      rw [hnext]
      cases ys with
      | nil => rfl
      | cons t ys =>
          have hrest := ih (show q h = xs ++ [t] ++ ys by simp [hq])
            (Nat.le_of_succ_le_succ hn)
          have hlast : lastOf h (xs ++ [t]) = Sum.inr t := by simp [lastOf]
          rw [hlast] at hrest
          exact congrArg (t :: ·) hrest

theorem walk_eq (hr : Rings l q) {n : Nat} (hn : (q h).length ≤ n) :
    l.walk (.inl h) n = q h :=
  hr.walk_lastOf (show q h = [] ++ q h from rfl) hn

end Rings

end CodingSample
