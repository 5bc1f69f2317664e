import CodingSample.Data.Linked
import CodingSample.Raytracing.KdTree

/-!
# The split nodes in memory

The candidates for a split plane are nodes of one array. They are linked in order, the nodes that are
not in use are linked as well, and a node goes from one list to the other and back.
-/

namespace CodingSample.Raytracing

/-- The split nodes by their index, and the pointers to the two lists. `size` is the length of the
array. -/
structure SplitArray (R : Type) where
  size : Nat
  splitPos : Nat → R
  leftCount : Nat → Nat
  rightCount : Nat → Nat
  next : Nat → Option Nat
  splitList : Option Nat
  splitPool : Option Nat

/-- What can go wrong with the two lists. -/
inductive SplitFault
  /-- a fault outside them -/
  | tree (e : Fault)
  /-- a node is taken from an empty pool -/
  | emptyPool
  /-- a list does not end -/
  | endless

/-- What the search for the place of a new node finds. -/
inductive Place
  | behind (list : Nat)
  | duplicate
  | endless

namespace SplitArray

section Programs

variable {R : Type}

/-- The node is put in front of the pool. -/
def giveBack (newNode : Nat) (s : SplitArray R) : SplitArray R :=
  { s with next := Function.update s.next newNode s.splitPool, splitPool := some newNode }

/-- The node is taken from the front of the pool. -/
def take (splitPos : R) (newNode : Nat) (s : SplitArray R) : SplitArray R :=
  { s with
    splitPool := s.next newNode
    next := Function.update s.next newNode none
    splitPos := Function.update s.splitPos newNode splitPos
    leftCount := Function.update s.leftCount newNode 0
    rightCount := Function.update s.rightCount newNode 0 }

variable [LinearOrder R]

/-- The loop that looks for the place, for at most the given number of nodes. -/
def findPlace (splitPos : R) (s : SplitArray R) : Nat → Nat → Place
  | 0, _ => .endless
  | n + 1, list =>
      match s.next list with
      | none => .behind list
      | some next =>
          if splitPos ≥ s.splitPos next then
            if splitPos = s.splitPos next then .duplicate else findPlace splitPos s n next
          else .behind list

def insertSplitPos (splitPos : R) (s : SplitArray R) : Except SplitFault (SplitArray R) :=
  match s.splitPool with
  | none => .error .emptyPool
  | some newNode =>
      let s := s.take splitPos newNode
      match s.splitList with
      | none => .ok { s with splitList := some newNode }
      | some first =>
          if splitPos < s.splitPos first then
            .ok { s with
              next := Function.update s.next newNode (some first)
              splitList := some newNode }
          else if splitPos = s.splitPos first then .ok (s.giveBack newNode)
          else match s.findPlace splitPos s.size first with
            | .endless => .error .endless
            | .duplicate => .ok (s.giveBack newNode)
            | .behind list =>
                .ok { s with
                  next := Function.update (Function.update s.next newNode (s.next list)) list
                    (some newNode) }

omit [LinearOrder R] in
/-- The last node of the list from a pointer. -/
def lastFrom (s : SplitArray R) : Nat → Nat → Except SplitFault Nat
  | 0, _ => .error .endless
  | n + 1, list =>
      match s.next list with
      | none => .ok list
      | some next => lastFrom s n next

omit [LinearOrder R] in
/-- The list of candidates goes to the front of the pool. -/
def recycle (s : SplitArray R) : Except SplitFault (SplitArray R) :=
  match s.splitList with
  | none => .ok s
  | some first => do
      let list ← s.lastFrom s.size first
      .ok { s with
        next := Function.update s.next list s.splitPool
        splitPool := s.splitList
        splitList := none }

end Programs

/-! ### The two lists -/

section Lists

variable {R : Type} [LinearOrder R] {s : SplitArray R} {as bs pre post : List Nat} {a b n : Nat}
  {v : R}

/-- The candidates are the nodes `as`, in increasing order, and the nodes `bs` are in the pool;
together these are all nodes, each of them once. -/
structure Held (s : SplitArray R) (as bs : List Nat) : Prop where
  list_head : s.splitList = as.head?
  list : Linked s.next as
  pool_head : s.splitPool = bs.head?
  pool : Linked s.next bs
  all : (as ++ bs).Perm (List.range s.size)
  sorted : (as.map s.splitPos).Pairwise (· < ·)

/-- While a node `b` is in neither list. -/
structure Taken (s : SplitArray R) (as bs : List Nat) (b : Nat) : Prop where
  list_head : s.splitList = as.head?
  list : Linked s.next as
  pool_head : s.splitPool = bs.head?
  pool : Linked s.next bs
  all : (as ++ b :: bs).Perm (List.range s.size)
  sorted : (as.map s.splitPos).Pairwise (· < ·)
  next_none : s.next b = none

theorem Held.nodup (h : Held s as bs) : (as ++ bs).Nodup := h.all.nodup_iff.mpr List.nodup_range

theorem Taken.nodup (h : Taken s as bs b) : (as ++ b :: bs).Nodup :=
  h.all.nodup_iff.mpr List.nodup_range

theorem Taken.notMem (h : Taken s as bs b) : b ∉ as ∧ b ∉ bs := by
  obtain ⟨-, htail, hdisjoint⟩ := List.nodup_append.mp h.nodup
  exact ⟨fun hb => hdisjoint b hb b List.mem_cons_self rfl, (List.nodup_cons.mp htail).1⟩

theorem Held.notMem (h : Held s as (b :: bs)) : b ∉ as ∧ b ∉ bs := by
  obtain ⟨-, htail, hdisjoint⟩ := List.nodup_append.mp h.nodup
  exact ⟨fun hb => hdisjoint b hb b List.mem_cons_self rfl, (List.nodup_cons.mp htail).1⟩

theorem map_update_of_notMem {β : Type} {f : Nat → β} {x : β} (h : b ∉ as) :
    as.map (Function.update f b x) = as.map f := by
  apply List.map_congr_left
  intro c hc
  refine Function.update_of_ne ?_ x f
  rintro rfl
  exact h hc

theorem Held.take (h : Held s as (b :: bs)) (v : R) : Taken (s.take v b) as bs b where
  list_head := h.list_head
  list := h.list.update_of_notMem h.notMem.1
  pool_head := h.pool.1
  pool := h.pool.2.update_of_notMem h.notMem.2
  all := h.all
  sorted := by
    have hpos : as.map (s.take v b).splitPos = as.map s.splitPos :=
      map_update_of_notMem h.notMem.1
    rw [hpos]
    exact h.sorted
  next_none := Function.update_self ..

/-- A node that is not needed goes back. -/
theorem Taken.giveBack (h : Taken s as bs b) : Held (s.giveBack b) as (b :: bs) where
  list_head := h.list_head
  list := h.list.update_of_notMem h.notMem.1
  pool_head := rfl
  pool := by
    refine ⟨(Function.update_self ..).trans h.pool_head, ?_⟩
    exact h.pool.update_of_notMem h.notMem.2
  all := h.all
  sorted := h.sorted

/-- The node becomes the first of the list. -/
theorem Taken.front (h : Taken s as bs b) (hleast : ∀ c ∈ as, s.splitPos b < s.splitPos c) :
    Held { s with next := Function.update s.next b as.head?, splitList := some b } (b :: as) bs where
  list_head := rfl
  list := ⟨Function.update_self .., h.list.update_of_notMem h.notMem.1⟩
  pool_head := h.pool_head
  pool := h.pool.update_of_notMem h.notMem.2
  all := List.perm_middle.symm.trans h.all
  sorted := by
    refine List.pairwise_cons.mpr ⟨fun x hx => ?_, h.sorted⟩
    obtain ⟨c, hc, rfl⟩ := List.mem_map.mp hx
    exact hleast c hc

/-- The node comes behind another one. -/
theorem Taken.behind (h : Taken s (pre ++ a :: post) bs b) (ha : s.splitPos a < s.splitPos b)
    (hpost : ∀ c ∈ post, s.splitPos b < s.splitPos c) :
    Held { s with
      next := Function.update (Function.update s.next b (s.next a)) a (some b) }
      (pre ++ a :: b :: post) bs where
  list_head := by
    rw [h.list_head]
    cases pre <;> rfl
  list := by
    refine h.list.insert_behind ?_ h.notMem.1
    have hnodup := (List.nodup_append.mp h.nodup).1
    exact (List.nodup_cons.mp (List.perm_middle.nodup_iff.mp hnodup)).1
  pool_head := h.pool_head
  pool := by
    refine (h.pool.update_of_notMem h.notMem.2).update_of_notMem fun hin => ?_
    refine (List.nodup_append.mp h.nodup).2.2 a ?_ a (List.mem_cons_of_mem b hin) rfl
    exact List.mem_append_right pre List.mem_cons_self
  all := by
    have hmove : (pre ++ a :: b :: post ++ bs).Perm (pre ++ a :: post ++ b :: bs) := by
      rw [List.append_assoc, List.append_assoc]
      refine List.Perm.append_left pre (List.Perm.cons a ?_)
      exact List.perm_middle.symm
    exact hmove.trans h.all
  sorted := by
    have hsorted := h.sorted
    rw [List.map_append, List.map_cons, List.pairwise_append] at hsorted
    obtain ⟨hpre, htail, hcross⟩ := hsorted
    obtain ⟨hfirst, htail⟩ := List.pairwise_cons.mp htail
    have hb (x : R) (hx : x ∈ post.map s.splitPos) : s.splitPos b < x := by
      obtain ⟨c, hc, rfl⟩ := List.mem_map.mp hx
      exact hpost c hc
    rw [List.map_append, List.map_cons, List.map_cons, List.pairwise_append]
    refine ⟨hpre, ?_, fun x hx y hy => ?_⟩
    · refine List.pairwise_cons.mpr ⟨fun x hx => ?_, List.pairwise_cons.mpr ⟨hb, htail⟩⟩
      rcases List.mem_cons.mp hx with rfl | hx
      · exact ha
      · exact hfirst x hx
    · have hxa := hcross x hx _ List.mem_cons_self
      rcases List.mem_cons.mp hy with rfl | hy
      · exact hxa
      · rcases List.mem_cons.mp hy with rfl | hy
        · exact hxa.trans ha
        · exact hcross x hx y (List.mem_cons_of_mem _ hy)

/-- The search ends at a node with the position or at the last node before it. -/
theorem findPlace_spec (h : Linked s.next (a :: post)) (hn : post.length < n)
    (hpos : s.splitPos a < v) (hsorted : ((a :: post).map s.splitPos).Pairwise (· < ·)) :
    (s.findPlace v n a = .duplicate ∧ v ∈ post.map s.splitPos) ∨
      ∃ pre b post', a :: post = pre ++ b :: post' ∧ s.findPlace v n a = .behind b ∧
        s.splitPos b < v ∧ ∀ c ∈ post', v < s.splitPos c := by
  induction n generalizing a post with
  | zero => exact absurd hn (Nat.not_lt_zero _)
  | succ n ih =>
      obtain ⟨hnext, hrest⟩ := h
      obtain ⟨-, htail⟩ := List.pairwise_cons.mp hsorted
      cases post with
      | nil =>
          refine Or.inr ⟨[], a, [], rfl, ?_, hpos, fun c hc => absurd hc List.not_mem_nil⟩
          rw [findPlace, hnext]
          rfl
      | cons b post =>
          obtain ⟨hfirst, -⟩ := List.pairwise_cons.mp htail
          have hnext : s.next a = some b := hnext
          rw [findPlace, hnext]
          dsimp only
          rcases lt_trichotomy v (s.splitPos b) with hlt | heq | hgt
          · rw [if_neg hlt.not_ge]
            refine Or.inr ⟨[], a, b :: post, rfl, rfl, hpos, fun c hc => ?_⟩
            rcases List.mem_cons.mp hc with rfl | hc
            · exact hlt
            · exact hlt.trans (hfirst _ (List.mem_map_of_mem hc))
          · rw [if_pos heq.ge, if_pos heq]
            exact Or.inl ⟨rfl, heq ▸ List.mem_cons_self⟩
          · rw [if_pos hgt.le, if_neg hgt.ne']
            have hlength : post.length < n := by
              rw [List.length_cons] at hn
              exact Nat.lt_of_succ_lt_succ hn
            rcases ih hrest hlength hgt htail with ⟨hfind, hmem⟩ | ⟨pre, c, post', heq, hfind⟩
            · exact Or.inl ⟨hfind, List.mem_cons_of_mem _ hmem⟩
            · refine Or.inr ⟨a :: pre, c, post', ?_, hfind⟩
              rw [heq]
              rfl

/-- A position is inserted: the pool loses at most one node, and the position is among the
candidates. -/
structure Inserted (v : R) (s s' : SplitArray R) (as bs as' bs' : List Nat) : Prop where
  held : Held s' as' bs'
  size : s'.size = s.size
  pool : bs.length ≤ bs'.length + 1
  mem : ∀ x, x ∈ as'.map s'.splitPos ↔ x = v ∨ x ∈ as.map s.splitPos

/-- A node that is taken and given back, for a position that is there. -/
theorem Taken.inserted_giveBack {t : SplitArray R} (h : Taken t as bs b) (hsize : t.size = s.size)
    (hpos : as.map t.splitPos = as.map s.splitPos) (hv : v ∈ as.map s.splitPos) :
    Inserted v s (t.giveBack b) as (b :: bs) as (b :: bs) where
  held := h.giveBack
  size := hsize
  pool := Nat.le_succ _
  mem x := by
    have hgive : (t.giveBack b).splitPos = t.splitPos := rfl
    rw [hgive, hpos]
    constructor
    · exact Or.inr
    · rintro (rfl | hx)
      · exact hv
      · exact hx

/-- A node that is put in front. -/
theorem Taken.inserted_front {t : SplitArray R} (h : Taken t as bs b) (hsize : t.size = s.size)
    (hpos : as.map t.splitPos = as.map s.splitPos) (hb : t.splitPos b = v)
    (hleast : ∀ c ∈ as, v < t.splitPos c) :
    Inserted v s { t with next := Function.update t.next b as.head?, splitList := some b }
      as (b :: bs) (b :: as) bs where
  held := h.front (hb ▸ hleast)
  size := hsize
  pool := le_rfl
  mem x := by
    rw [List.map_cons, List.mem_cons, hb, hpos]

/-- A node that comes behind another one. -/
theorem Taken.inserted_behind {t : SplitArray R} (h : Taken t (pre ++ a :: post) bs b)
    (hsize : t.size = s.size)
    (hpos : (pre ++ a :: post).map t.splitPos = (pre ++ a :: post).map s.splitPos)
    (hb : t.splitPos b = v) (ha : t.splitPos a < v) (hpost : ∀ c ∈ post, v < t.splitPos c) :
    Inserted v s { t with
      next := Function.update (Function.update t.next b (t.next a)) a (some b) }
      (pre ++ a :: post) (b :: bs) (pre ++ a :: b :: post) bs where
  held := h.behind (hb ▸ ha) (hb ▸ hpost)
  size := hsize
  pool := le_rfl
  mem x := by
    rw [← hpos, List.map_append, List.map_append, List.map_cons, List.map_cons, List.map_cons, hb]
    simp only [List.mem_append, List.mem_cons]
    tauto

theorem Held.insertSplitPos (h : Held s as (b :: bs)) (v : R) : ∃ s' as' bs',
    s.insertSplitPos v = .ok s' ∧ Inserted v s s' as (b :: bs) as' bs' := by
  have htaken := h.take v
  have hb : (s.take v b).splitPos b = v := Function.update_self ..
  have hpos : as.map (s.take v b).splitPos = as.map s.splitPos :=
    map_update_of_notMem h.notMem.1
  have hpool : s.splitPool = some b := h.pool_head
  have hsize : (s.take v b).size = s.size := rfl
  rw [SplitArray.insertSplitPos, hpool]
  dsimp only
  generalize s.take v b = t at htaken hb hpos hsize ⊢
  cases as with
  | nil =>
      have hnone : t.splitList = none := htaken.list_head
      have hfront := htaken.inserted_front hsize hpos hb fun c hc => absurd hc List.not_mem_nil
      have hnext : Function.update t.next b ([] : List Nat).head? = t.next := by
        rw [Function.update_eq_self_iff]
        exact htaken.next_none.symm
      rw [hnext] at hfront
      rw [hnone]
      exact ⟨_, [b], bs, rfl, hfront⟩
  | cons a post =>
      have hfirst : t.splitList = some a := htaken.list_head
      rw [hfirst]
      dsimp only
      rcases lt_trichotomy v (t.splitPos a) with hlt | heq | hgt
      · rw [if_pos hlt]
        refine ⟨_, b :: a :: post, bs, rfl, htaken.inserted_front hsize hpos hb fun c hc => ?_⟩
        rcases List.mem_cons.mp hc with rfl | hc
        · exact hlt
        · exact hlt.trans ((List.pairwise_cons.mp htaken.sorted).1 _ (List.mem_map_of_mem hc))
      · rw [if_neg heq.not_lt, if_pos heq]
        refine ⟨_, a :: post, b :: bs, rfl, htaken.inserted_giveBack hsize hpos ?_⟩
        rw [← hpos, heq]
        exact List.mem_cons_self
      · have hlength : post.length < t.size := by
          have hall := htaken.all.length_eq
          rw [List.length_range, List.length_append, List.length_cons] at hall
          omega
        rw [if_neg hgt.not_gt, if_neg hgt.ne']
        rcases findPlace_spec htaken.list hlength hgt htaken.sorted with
          ⟨hfind, hmem⟩ | ⟨pre, c, post', hsplit, hfind, hc, hpost⟩
        · rw [hfind]
          refine ⟨_, a :: post, b :: bs, rfl, htaken.inserted_giveBack hsize hpos ?_⟩
          rw [← hpos]
          exact List.mem_cons_of_mem _ hmem
        · rw [hfind]
          rw [hsplit] at htaken hpos ⊢
          have hbehind := htaken.inserted_behind hsize hpos hb hc hpost
          rw [hfirst] at hbehind
          exact ⟨_, _, bs, rfl, hbehind⟩

/-! ### The whole list goes back -/

omit [LinearOrder R] in
theorem lastFrom_spec (h : Linked s.next (pre ++ [a])) (hn : pre.length < n) (hhead :
    (pre ++ [a]).head? = some b) : s.lastFrom n b = .ok a := by
  induction n generalizing pre b with
  | zero => exact absurd hn (Nat.not_lt_zero _)
  | succ n ih =>
      cases pre with
      | nil =>
          obtain rfl : a = b := Option.some.inj hhead
          rw [lastFrom, h.1]
          rfl
      | cons c pre =>
          obtain rfl : c = b := Option.some.inj hhead
          obtain ⟨hnext, hrest⟩ := h
          have hlength : pre.length < n := Nat.lt_of_succ_lt_succ hn
          obtain ⟨d, hd⟩ : ∃ d, (pre ++ [a]).head? = some d := by
            cases pre with
            | nil => exact ⟨a, rfl⟩
            | cons d pre => exact ⟨d, rfl⟩
          have hstep : s.next c = some d := hnext.trans hd
          rw [lastFrom, hstep]
          exact ih hrest hlength hd

omit [LinearOrder R] in
theorem recycle_of_none (h : s.splitList = none) : s.recycle = .ok s := by
  rw [recycle, h]

theorem Held.recycle (h : Held s as bs) :
    ∃ s', s.recycle = .ok s' ∧ Held s' [] (as ++ bs) ∧ s'.size = s.size := by
  rcases List.eq_nil_or_concat as with rfl | ⟨pre, a, rfl⟩
  · exact ⟨s, recycle_of_none h.list_head, h, rfl⟩
  · rw [List.concat_eq_append] at h ⊢
    obtain ⟨b, hb⟩ : ∃ b, (pre ++ [a]).head? = some b := by
      cases pre with
      | nil => exact ⟨a, rfl⟩
      | cons b pre => exact ⟨b, rfl⟩
    have hfirst : s.splitList = some b := h.list_head.trans hb
    have hlength : pre.length < s.size := by
      have hall := h.all.length_eq
      rw [List.length_range, List.length_append, List.length_append, List.length_singleton] at hall
      omega
    have ha : a ∉ pre ++ bs := by
      have hnodup := h.nodup
      rw [List.append_assoc, List.singleton_append] at hnodup
      exact (List.nodup_cons.mp (List.perm_middle.nodup_iff.mp hnodup)).1
    refine ⟨{ s with
      next := Function.update s.next a s.splitPool
      splitPool := s.splitList
      splitList := none }, ?_, ?_, rfl⟩
    · rw [SplitArray.recycle, hfirst]
      dsimp only
      rw [lastFrom_spec h.list hlength hb]
      rfl
    · refine ⟨rfl, trivial, ?_, ?_, h.all, List.Pairwise.nil⟩
      · rw [hfirst, ← hb]
        cases pre <;> rfl
      · rw [h.pool_head, List.append_assoc]
        exact h.list.join h.pool ha

end Lists

end SplitArray

end CodingSample.Raytracing
