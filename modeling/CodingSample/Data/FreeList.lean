import Mathlib.Algebra.Order.Group.Multiset
import Mathlib.Algebra.BigOperators.Group.List.Basic
import Mathlib.Data.Multiset.Range

/-!
# A two-level free list

The head of the list has `cap` slots, of which the first `nfree` are in use, and a link in slot
`cap`. The link names a node, an element that is itself free and whose own words are `cap`
further free elements and a link; the link `stop` ends the chain. An element is taken from the
last slot in use, or, when none is, it is the first node, whose words then become the head.
-/

namespace CodingSample

/-- The head of a free list and the words of every element that may be a node. -/
structure FreeList (α : Type) where
  nfree : Nat
  slots : Nat → α
  node : α → Nat → α

namespace FreeList

variable {α : Type} {cap : Nat} {stop : α}

/-- `Chain cap stop node a nodes`: following links from `a` visits `nodes` and ends. -/
inductive Chain (cap : Nat) (stop : α) (node : α → Nat → α) : α → List α → Prop
  | nil : Chain cap stop node stop []
  | cons {b : α} {rest : List α} : b ≠ stop → Chain cap stop node (node b cap) rest →
      Chain cap stop node b (b :: rest)

namespace Chain

variable {node node' : α → Nat → α} {a : α} {nodes : List α}

theorem congr (h : Chain cap stop node a nodes) (hnode : ∀ b ∈ nodes, node' b cap = node b cap) :
    Chain cap stop node' a nodes := by
  induction h with
  | nil => exact .nil
  | cons hne _ ih =>
      refine .cons hne ?_
      rw [hnode _ List.mem_cons_self]
      exact ih fun c hc => hnode c (List.mem_cons_of_mem _ hc)

theorem eq_nil (h : Chain cap stop node stop nodes) : nodes = [] := by
  cases h with
  | nil => rfl
  | cons hne _ => exact absurd rfl hne

theorem eq_cons (h : Chain cap stop node a nodes) (ha : a ≠ stop) :
    ∃ rest, nodes = a :: rest ∧ Chain cap stop node (node a cap) rest := by
  cases h with
  | nil => exact absurd rfl ha
  | cons _ hrest => exact ⟨_, rfl, hrest⟩

theorem unique {nodes' : List α} (h : Chain cap stop node a nodes)
    (h' : Chain cap stop node a nodes') : nodes' = nodes := by
  induction h generalizing nodes' with
  | nil => exact h'.eq_nil
  | cons hne _ ih =>
      obtain ⟨rest, rfl, hrest⟩ := h'.eq_cons hne
      rw [ih hrest]

theorem of_cons {b : α} {rest : List α} (h : Chain cap stop node a (b :: rest)) :
    a = b ∧ Chain cap stop node (node b cap) rest := by
  cases h with
  | cons _ hrest => exact ⟨rfl, hrest⟩

end Chain

/-- A node and the elements its slots list. -/
def family (cap : Nat) (node : α → Nat → α) (b : α) : Multiset α :=
  b ::ₘ (Multiset.range cap).map (node b)

/-- All free elements: those in the head, the nodes, and those in the nodes. -/
def listed (cap : Nat) (l : FreeList α) (nodes : List α) : Multiset α :=
  (Multiset.range l.nfree).map l.slots + (nodes.map (family cap l.node)).sum

/-- The chain ends, visiting `nodes`, and the head has room for what it claims to hold. -/
structure Wf (cap : Nat) (stop : α) (l : FreeList α) (nodes : List α) : Prop where
  nfree_le : l.nfree ≤ cap
  chain : Chain cap stop l.node (l.slots cap) nodes

/-- The chain of a well-formed list visits the element. -/
def IsNode (cap : Nat) (stop : α) (l : FreeList α) (b : α) : Prop :=
  ∃ nodes, l.Wf cap stop nodes ∧ b ∈ nodes

variable {l l' : FreeList α} {nodes rest : List α} {b : α}

theorem Wf.isNode_iff (h : l.Wf cap stop nodes) : l.IsNode cap stop b ↔ b ∈ nodes := by
  constructor
  · rintro ⟨nodes', hwf, hmem⟩
    rwa [h.chain.unique hwf.chain] at hmem
  · intro hmem
    exact ⟨nodes, h, hmem⟩

theorem map_range_congr {n : Nat} {f g : Nat → α} (h : ∀ i < n, f i = g i) :
    (Multiset.range n).map f = (Multiset.range n).map g :=
  Multiset.map_congr rfl fun i hi => h i (Multiset.mem_range.mp hi)

theorem family_congr {node node' : α → Nat → α} (h : ∀ i < cap, node' b i = node b i) :
    family cap node' b = family cap node b := by
  rw [family, family, map_range_congr h]

theorem sum_family_congr {node node' : α → Nat → α}
    (h : ∀ c ∈ nodes, ∀ i < cap, node' c i = node c i) :
    (nodes.map (family cap node')).sum = (nodes.map (family cap node)).sum := by
  congr 1
  exact List.map_congr_left fun c hc => family_congr (h c hc)

theorem mem_sum_family_of_mem (node : α → Nat → α) (hb : b ∈ nodes) :
    b ∈ (nodes.map (family cap node)).sum := by
  induction nodes with
  | nil => simp at hb
  | cons c rest ih =>
      rw [List.map_cons, List.sum_cons, Multiset.mem_add]
      rcases List.mem_cons.mp hb with rfl | hrest
      · exact Or.inl (Multiset.mem_cons_self _ _)
      · exact Or.inr (ih hrest)

theorem mem_listed_of_mem_nodes (hb : b ∈ nodes) : b ∈ listed cap l nodes :=
  Multiset.mem_add.mpr (Or.inr (mem_sum_family_of_mem _ hb))

theorem mem_listed_of_slot {i : Nat} (hi : i < l.nfree) : l.slots i ∈ listed cap l nodes :=
  Multiset.mem_add.mpr (Or.inl (Multiset.mem_map_of_mem _ (Multiset.mem_range.mpr hi)))

theorem mem_listed_of_node_slot {i : Nat} (hb : b ∈ nodes) (hi : i < cap) :
    l.node b i ∈ listed cap l nodes := by
  refine Multiset.mem_add.mpr (Or.inr ?_)
  induction nodes with
  | nil => simp at hb
  | cons c rest ih =>
      rw [List.map_cons, List.sum_cons, Multiset.mem_add]
      rcases List.mem_cons.mp hb with rfl | hrest
      · exact Or.inl (Multiset.mem_cons_of_mem
          (Multiset.mem_map_of_mem _ (Multiset.mem_range.mpr hi)))
      · exact Or.inr (ih hrest)

/-! ### Lists that look the same -/

/-- From the head and along `nodes`, the two lists hold the same words. -/
structure Agree (cap : Nat) (nodes : List α) (l l' : FreeList α) : Prop where
  nfree : l'.nfree = l.nfree
  slots : ∀ i ≤ cap, l'.slots i = l.slots i
  node : ∀ c ∈ nodes, ∀ i ≤ cap, l'.node c i = l.node c i

namespace Agree

variable {l'' : FreeList α}

theorem refl (cap : Nat) (nodes : List α) (l : FreeList α) : Agree cap nodes l l :=
  ⟨rfl, fun _ _ => rfl, fun _ _ _ _ => rfl⟩

theorem symm (h : Agree cap nodes l l') : Agree cap nodes l' l :=
  ⟨h.nfree.symm, fun i hi => (h.slots i hi).symm, fun c hc i hi => (h.node c hc i hi).symm⟩

theorem trans (h : Agree cap nodes l l') (h' : Agree cap nodes l' l'') : Agree cap nodes l l'' :=
  ⟨h'.nfree.trans h.nfree, fun i hi => (h'.slots i hi).trans (h.slots i hi),
    fun c hc i hi => (h'.node c hc i hi).trans (h.node c hc i hi)⟩

theorem wf (h : Agree cap nodes l l') (hwf : l.Wf cap stop nodes) : l'.Wf cap stop nodes := by
  refine ⟨h.nfree ▸ hwf.nfree_le, ?_⟩
  rw [h.slots cap le_rfl]
  exact hwf.chain.congr fun c hc => h.node c hc cap le_rfl

theorem listed (h : Agree cap nodes l l') (hwf : l.Wf cap stop nodes) :
    listed cap l' nodes = listed cap l nodes := by
  have hle := hwf.nfree_le
  rw [FreeList.listed, FreeList.listed, h.nfree,
    sum_family_congr fun c hc i hi => h.node c hc i hi.le,
    map_range_congr fun i hi => h.slots i (by omega)]

end Agree

/-! ### Taking an element -/

/-- The element that is taken next. -/
def top (cap : Nat) (l : FreeList α) : α :=
  if l.nfree = 0 then l.slots cap else l.slots (l.nfree - 1)

/-- The list without that element. -/
def popped (cap : Nat) (l : FreeList α) : FreeList α :=
  if l.nfree = 0 then ⟨cap, l.node (l.slots cap), l.node⟩ else { l with nfree := l.nfree - 1 }

/-- Nothing is left to take. -/
def Exhausted (cap : Nat) (stop : α) (l : FreeList α) : Prop := l.nfree = 0 ∧ l.slots cap = stop

section Pop

variable (hwf : l.Wf cap stop nodes)
include hwf

theorem top_mem (hsome : ¬ l.Exhausted cap stop) : l.top cap ∈ listed cap l nodes := by
  unfold top
  by_cases hn : l.nfree = 0
  · rw [if_pos hn]
    obtain ⟨rest, rfl, -⟩ := hwf.chain.eq_cons fun hstop => hsome ⟨hn, hstop⟩
    exact mem_listed_of_mem_nodes List.mem_cons_self
  · rw [if_neg hn]
    exact mem_listed_of_slot (Nat.sub_lt (Nat.pos_of_ne_zero hn) one_pos)

/-- Nothing is listed exactly when no slot is in use and the link ends the chain. -/
theorem listed_eq_zero_iff : listed cap l nodes = 0 ↔ l.Exhausted cap stop := by
  constructor
  · intro hzero
    by_contra hsome
    have hmem := top_mem hwf hsome
    rw [hzero] at hmem
    exact Multiset.notMem_zero _ hmem
  · rintro ⟨hnone, hstop⟩
    have hnil : nodes = [] := (hstop ▸ hwf.chain).eq_nil
    rw [listed, hnone, hnil]
    rfl

theorem listed_popped (hsome : ¬ l.Exhausted cap stop) (hnodup : (listed cap l nodes).Nodup) :
    ∃ rest, (∀ c ∈ rest, c ∈ nodes ∧ c ≠ l.top cap) ∧ (l.popped cap).Wf cap stop rest ∧
      l.top cap ::ₘ listed cap (l.popped cap) rest = listed cap l nodes := by
  unfold top popped
  by_cases hn : l.nfree = 0
  · rw [if_pos hn, if_pos hn]
    obtain ⟨rest, rfl, hrest⟩ := hwf.chain.eq_cons fun hstop => hsome ⟨hn, hstop⟩
    have hfresh : l.slots cap ∉ rest := by
      intro hmem
      rw [listed, List.map_cons, List.sum_cons, family, Multiset.cons_add, Multiset.add_cons,
        Multiset.nodup_cons] at hnodup
      refine hnodup.1 (Multiset.mem_add.mpr (Or.inr (Multiset.mem_add.mpr (Or.inr ?_))))
      exact mem_sum_family_of_mem _ hmem
    refine ⟨rest, fun c hc => ⟨List.mem_cons_of_mem _ hc, fun heq => hfresh (heq ▸ hc)⟩,
      ⟨le_rfl, hrest⟩, ?_⟩
    rw [listed, listed, hn, List.map_cons, List.sum_cons, family, Multiset.range_zero,
      Multiset.map_zero, zero_add, Multiset.cons_add]
  · rw [if_neg hn, if_neg hn]
    obtain ⟨k, hk⟩ := Nat.exists_eq_succ_of_ne_zero hn
    have hlisted : l.slots k ::ₘ listed cap { l with nfree := k } nodes = listed cap l nodes := by
      rw [listed, listed, hk, Nat.succ_eq_add_one, Multiset.range_succ, Multiset.map_cons,
        Multiset.cons_add]
    rw [hk, Nat.succ_sub_one]
    refine ⟨nodes, fun c hc => ⟨hc, ?_⟩, ⟨?_, hwf.chain⟩, hlisted⟩
    · rintro rfl
      rw [← hlisted, Multiset.nodup_cons] at hnodup
      exact hnodup.1 (mem_listed_of_mem_nodes hc)
    · have hle := hwf.nfree_le
      change k ≤ cap
      omega

omit hwf in
theorem Agree.exhausted_iff (h : Agree cap nodes l l') :
    l'.Exhausted cap stop ↔ l.Exhausted cap stop := by
  rw [Exhausted, Exhausted, h.nfree, h.slots cap le_rfl]

theorem Agree.top_eq (h : Agree cap nodes l l') : l'.top cap = l.top cap := by
  have hle := hwf.nfree_le
  rw [top, top, h.nfree, h.slots cap le_rfl, h.slots (l.nfree - 1) (by omega)]

theorem Agree.popped (h : Agree cap nodes l l') (hsome : ¬ l.Exhausted cap stop)
    (hsub : ∀ c ∈ rest, c ∈ nodes) : Agree cap rest (l.popped cap) (l'.popped cap) := by
  unfold FreeList.popped
  rw [h.nfree]
  by_cases hn : l.nfree = 0
  · obtain ⟨tail, rfl, -⟩ := hwf.chain.eq_cons fun hstop => hsome ⟨hn, hstop⟩
    rw [if_pos hn, if_pos hn]
    refine ⟨rfl, fun i hi => ?_, fun c hc i hi => h.node c (hsub c hc) i hi⟩
    change l'.node (l'.slots cap) i = l.node (l.slots cap) i
    rw [h.slots cap le_rfl]
    exact h.node _ List.mem_cons_self i hi
  · rw [if_neg hn, if_neg hn]
    exact ⟨rfl, h.slots, fun c hc i hi => h.node c (hsub c hc) i hi⟩

end Pop

/-! ### Returning an element -/

section Push

variable [DecidableEq α]

/-- The list with `b` returned to it: to a free slot, or as the first node, which then takes over
a full head. -/
def pushed (cap : Nat) (l : FreeList α) (b : α) : FreeList α :=
  if l.nfree = cap then
    ⟨0, Function.update l.slots cap b, Function.update l.node b l.slots⟩
  else
    { l with nfree := l.nfree + 1, slots := Function.update l.slots l.nfree b }

/-- The nodes after `b` was returned. -/
def pushedNodes (cap : Nat) (l : FreeList α) (nodes : List α) (b : α) : List α :=
  if l.nfree = cap then b :: nodes else nodes

omit [DecidableEq α] in
theorem mem_pushedNodes {c : α} (hc : c ∈ l.pushedNodes cap nodes b) : c = b ∨ c ∈ nodes := by
  unfold pushedNodes at hc
  split at hc
  · exact List.mem_cons.mp hc
  · exact Or.inr hc

/-- The element returned last is taken next. -/
theorem top_pushed : (l.pushed cap b).top cap = b := by
  unfold pushed top
  by_cases hn : l.nfree = cap
  · simp [hn]
  · simp [hn]

variable (hwf : l.Wf cap stop nodes)
include hwf

theorem listed_pushed (hb : b ≠ stop) (hfresh : b ∉ nodes) :
    (l.pushed cap b).Wf cap stop (l.pushedNodes cap nodes b) ∧
      listed cap (l.pushed cap b) (l.pushedNodes cap nodes b) = b ::ₘ listed cap l nodes := by
  have hle := hwf.nfree_le
  unfold pushed pushedNodes
  by_cases hn : l.nfree = cap
  · rw [if_pos hn, if_pos hn]
    have hkeep : ∀ c ∈ nodes, Function.update l.node b l.slots c = l.node c := fun c hc => by
      rw [Function.update_of_ne]
      rintro rfl
      exact hfresh hc
    have hlink : Function.update l.slots cap b cap = b := by simp
    have hself : Function.update l.node b l.slots b = l.slots := by simp
    refine ⟨⟨Nat.zero_le _, ?_⟩, ?_⟩
    · change Chain cap stop (Function.update l.node b l.slots)
        (Function.update l.slots cap b cap) (b :: nodes)
      rw [hlink]
      refine .cons hb ?_
      rw [hself]
      exact hwf.chain.congr fun c hc => congrFun (hkeep c hc) cap
    · rw [listed, listed, hn, List.map_cons, List.sum_cons, family, Multiset.range_zero,
        Multiset.map_zero, zero_add, Multiset.cons_add,
        sum_family_congr fun c hc i _ => congrFun (hkeep c hc) i]
      simp only [hself]
  · rw [if_neg hn, if_neg hn]
    refine ⟨⟨?_, ?_⟩, ?_⟩
    · change l.nfree + 1 ≤ cap
      omega
    · change Chain cap stop _ (Function.update l.slots l.nfree b cap) _
      rw [Function.update_of_ne (Ne.symm hn)]
      exact hwf.chain
    · have hself : Function.update l.slots l.nfree b l.nfree = b := by simp
      rw [listed, listed, Multiset.range_succ, Multiset.map_cons, Multiset.cons_add]
      simp only [hself]
      rw [map_range_congr fun i hi => Function.update_of_ne (ne_of_lt hi) _ _]

omit hwf in
theorem Agree.pushed (h : Agree cap nodes l l') :
    Agree cap (l.pushedNodes cap nodes b) (l.pushed cap b) (l'.pushed cap b) := by
  unfold FreeList.pushed pushedNodes
  rw [h.nfree]
  by_cases hn : l.nfree = cap
  · rw [if_pos hn, if_pos hn, if_pos hn]
    refine ⟨rfl, fun i hi => ?_, fun c hc i hi => ?_⟩
    · by_cases hi' : i = cap
      · subst hi'
        simp
      · simp only [Function.update_of_ne hi']
        exact h.slots i hi
    · by_cases hcb : c = b
      · subst hcb
        simp only [Function.update_self]
        exact h.slots i hi
      · simp only [Function.update_of_ne hcb]
        exact h.node c ((List.mem_cons.mp hc).resolve_left hcb) i hi
  · rw [if_neg hn, if_neg hn, if_neg hn]
    refine ⟨rfl, fun i hi => ?_, h.node⟩
    by_cases hi' : i = l.nfree
    · subst hi'
      simp
    · simp only [Function.update_of_ne hi']
      exact h.slots i hi

end Push

end FreeList

end CodingSample
