import CodingSample.Uthreads.Machine

/-!
# Queues as lists

The abstract machine keeps the threads of each queue in a list, newest first. A view relates it to
the memory of the process, and every function of the library keeps the two in step.
-/

namespace CodingSample.Uthreads

open Prog

variable {M C : Type}

structure Abs (M C : Type) where
  core : Core M C
  q : Head M C → List Nat

/-- The links of the memory hold the lists of the abstract machine. -/
structure View (s : Machine M C) (a : Abs M C) : Prop where
  core : s.core = a.core
  rings : Rings s.links a.q
  size : ∀ h, h ≠ .reap → s.tqSize h = (a.q h).length

namespace Abs

def onCore (a : Abs M C) (f : Core M C → Core M C) : Abs M C := { a with core := f a.core }

def setQ [DecidableEq M] [DecidableEq C] (a : Abs M C) (h : Head M C) (l : List Nat) : Abs M C :=
  { a with q := Function.update a.q h l }

def setErrno (a : Abs M C) (errno : Int) : Abs M C :=
  a.onCore fun c => c.setErrno c.utCurthr errno

/-- No list holds the thread. -/
def Free (a : Abs M C) (t : Nat) : Prop := ∀ h, t ∉ a.q h

end Abs

variable {s s' : Machine M C} {a : Abs M C} {h : Head M C} {t : Nat}

theorem View.onCore (hv : View s a) (f : Core M C → Core M C) :
    View { s with core := f s.core } (a.onCore f) :=
  ⟨congrArg f hv.core, hv.rings, hv.size⟩

theorem ewp_modifyCore {f : Core M C → Core M C} {Q : Unit → Machine M C → Prop}
    {E : Fault → Prop} : ewp (modifyCore f) Q E s ↔ Q () { s with core := f s.core } := Iff.rfl

theorem ewp_getCore {Q : Core M C → Machine M C → Prop} {E : Fault → Prop} :
    ewp getCore Q E s ↔ Q s.core s := Iff.rfl

theorem ewp_assert {site : Site} {test : Bool} {Q : Unit → Machine M C → Prop}
    {E : Fault → Prop} (htest : test = true) (hq : Q () s) : ewp (assert site test) Q E s := by
  rw [assert, htest]
  exact hq

theorem ewp_editLinks {f : Links (Head M C ⊕ Nat) → Option (Links (Head M C ⊕ Nat))}
    {l : Links (Head M C ⊕ Nat)} {Q : Unit → Machine M C → Prop} {E : Fault → Prop}
    (hf : f s.links = some l) (hq : Q () { s with links := l }) : ewp (editLinks f) Q E s := by
  unfold ewp editLinks
  rw [hf]
  exact hq

/-- The library never stops in this part. -/
def Never : Fault → Prop := fun _ => False

/-! ### Queues -/

theorem View.size_eq (hv : View s a) (hh : h ≠ .reap) :
    (s.tqSize h == 0) = (a.q h).isEmpty := by
  rw [hv.size h hh, Bool.eq_iff_iff, List.isEmpty_iff, beq_iff_eq, Int.natCast_eq_zero,
    List.length_eq_zero_iff]

theorem runqTable_ne_reap (prio : Int) : (runqTable prio : Head M C) ≠ .reap := nofun

theorem ewp_failWith (hv : View s a) (errno : Int) {E : Fault → Prop} :
    ewp (failWith errno) (fun r s' => r = errno ∧ View s' (a.setErrno errno)) E s :=
  ⟨rfl, hv.onCore fun c => c.setErrno c.utCurthr errno⟩

theorem ewp_doIf {p : Prop} [Decidable p] {m : U M C Unit} {Q : Unit → Machine M C → Prop}
    {E : Fault → Prop} (hthen : p → ewp m Q E s) (helse : ¬ p → Q () s) : ewp (doIf p m) Q E s := by
  unfold doIf
  split
  · rename_i hp
    exact hthen hp
  · rename_i hp
    exact helse hp

variable [DecidableEq M] [DecidableEq C]

theorem View.isEmpty (hv : View s a) : s.links.isEmpty (.inl h) = (a.q h).isEmpty := by
  have hiff := hv.rings.isEmpty_iff (h := h)
  rw [Links.isEmpty, Bool.eq_iff_iff, decide_eq_true_iff, hiff, List.isEmpty_iff]

theorem ewp_utqueueEmpty (hv : View s a) (hh : h ≠ .reap) {E : Fault → Prop} :
    ewp (utqueueEmpty h) (fun r s' => s' = s ∧ r = (a.q h).isEmpty) E s := by
  unfold utqueueEmpty
  rw [ewp_bind, ewp_get, ewp_bind]
  refine ewp_assert ?_ (ewp_pure.mpr ⟨rfl, hv.size_eq hh⟩)
  rw [hv.isEmpty, hv.size_eq hh, beq_self_eq_true]

theorem View.setQ (hv : View s a) {l : Links (Head M C ⊕ Nat)} {xs : List Nat}
    (hr : Rings l (Function.update a.q h xs)) {n : Int}
    (hn : h ≠ .reap → s.tqSize h + n = xs.length) :
    View { s with links := l, tqSize := Function.update s.tqSize h (s.tqSize h + n) }
      (a.setQ h xs) := by
  refine ⟨hv.core, hr, ?_⟩
  intro g hg
  change Function.update s.tqSize h _ g = ((Function.update a.q h xs) g).length
  by_cases hgh : g = h
  · subst hgh
    rw [Function.update_self, Function.update_self, hn hg]
  · rw [Function.update_of_ne hgh, Function.update_of_ne hgh, hv.size g hg]

theorem ewp_utqueueEnqueue (hv : View s a) (hh : h ≠ .reap) (hfree : a.Free t)
    {E : Fault → Prop} :
    ewp (utqueueEnqueue h t) (fun _ s' => View s' (a.setQ h (t :: a.q h))) E s := by
  unfold utqueueEnqueue
  rw [ewp_bind, ewp_get, ewp_bind]
  refine ewp_assert (decide_eq_true (hv.rings.null_iff.1.mpr hfree)) ?_
  obtain ⟨l, hins, hr⟩ := hv.rings.insertHead_spec (h := h) hfree
  rw [ewp_bind]
  refine ewp_editLinks hins ?_
  refine hv.setQ hr fun _ => ?_
  rw [hv.size h hh]
  simp

theorem ewp_utqueueDequeue (hv : View s a) (hh : h ≠ .reap) {xs : List Nat}
    (hq : a.q h = xs ++ [t]) {E : Fault → Prop} :
    ewp (utqueueDequeue h) (fun r s' => r = some t ∧ View s' (a.setQ h xs) ∧
      s'.links.prev (.inr t) = none ∧ s'.links.next (.inr t) = none) E s := by
  unfold utqueueDequeue
  refine ewp_bind_of (ewp_utqueueEmpty hv hh) ?_
  rintro r s1 ⟨rfl, rfl⟩
  have hne : (a.q h).isEmpty = false := by simp [hq]
  have hadj := hv.rings.adj (show a.q h = xs ++ [t] ++ [] by simp [hq])
  have hprev : s1.links.prev (.inl h) = some (.inr t) := by
    have := hadj.2
    simpa [lastOf, firstOf] using this
  obtain ⟨l, hrem, hr, hnext, hnull⟩ := hv.rings.remove_spec (show a.q h = xs ++ t :: [] from hq)
  rw [List.append_nil] at hr
  rw [hne, if_neg (by simp), ewp_bind, ewp_get, hprev]
  simp only []
  rw [ewp_bind]
  refine ewp_editLinks hrem ?_
  rw [ewp_bind]
  refine ⟨rfl, hv.setQ hr fun _ => ?_, hnull, hnext⟩
  rw [hv.size h hh, hq, List.length_append, List.length_singleton]
  omega

theorem ewp_utqueueRemove (hv : View s a) (hh : h ≠ .reap) (hmem : t ∈ a.q h)
    {E : Fault → Prop} :
    ewp (utqueueRemove h t) (fun _ s' => View s' (a.setQ h ((a.q h).erase t))) E s := by
  unfold utqueueRemove
  rw [ewp_bind, ewp_get, ewp_bind]
  refine ewp_assert (decide_eq_true (hv.rings.null_iff.2.mpr ⟨h, hmem⟩)) ?_
  obtain ⟨xs, ys, hq⟩ := List.append_of_mem hmem
  obtain ⟨l, hrem, hr, -⟩ := hv.rings.remove_spec hq
  have hnodup := hv.rings.nodup h
  have herase : (a.q h).erase t = xs ++ ys := by
    rw [hq] at hnodup ⊢
    have hxs : t ∉ xs := by
      intro hx
      exact (List.nodup_append.mp hnodup).2.2 t hx t List.mem_cons_self rfl
    rw [List.erase_append_right _ hxs, List.erase_cons_head]
  rw [ewp_bind]
  refine ewp_editLinks hrem ?_
  rw [herase]
  refine hv.setQ hr fun _ => ?_
  rw [hv.size h hh, hq]
  simp
  omega

end CodingSample.Uthreads
