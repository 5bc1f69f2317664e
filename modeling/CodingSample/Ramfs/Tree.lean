import CodingSample.Ramfs.Calls
import CodingSample.Data.Tally
import Mathlib.Data.Finset.Prod
import Mathlib.Data.Finset.Range

/-!
# The entries of the ramfs

What the directories hold, apart from how it is counted: the entries that name an inode, and the
rules they keep to.
-/

namespace CodingSample.Ramfs

/-- What each inode of the table holds. -/
abbrev Held : Type := Nat → Option Contents

variable {c : Held} {raw : Option Nat} {d ino i : Nat} {e : Nat → Dirent} {new : Dirent}

def Contents.entry : Contents → Nat → Option Dirent
  | dir e, i => some (e i)
  | data _, _ | chr _, _ | blk _, _ => none

/-- Entry `p.2` of directory `p.1`. -/
def slot (c : Held) (p : Nat × Nat) : Option Dirent := (c p.1).bind fun x => x.entry p.2

/-- The entry names the inode, and is not `.` or `..`. -/
def Dirent.names (e : Dirent) (ino : Nat) : Bool := e.live && e.rdIno == ino

def places : Finset (Nat × Nat) := Finset.range ramfsMaxFiles ×ˢ Finset.range ramfsMaxDirent

/-- The entries other than `.` and `..` that name an inode. -/
def links (c : Held) (ino : Nat) : Nat := tally places fun p => (slot c p).any (·.names ino)

/-- The entries of a directory that are in use. -/
def entryCount (e : Nat → Dirent) : Nat :=
  tally (Finset.range ramfsMaxDirent) fun i => !(e i).rdName.isEmpty

theorem mem_places : (d, i) ∈ places ↔ d < 64 ∧ i < 128 := by
  simp [places]

attribute [irreducible] places

theorem slot_of_dir (h : c d = some (.dir e)) : slot c (d, i) = some (e i) := by
  simp [slot, h, Contents.entry]

theorem slot_update_of_ne {x : Option Contents} {p : Nat × Nat} (h : p.1 ≠ d) :
    slot (Function.update c d x) p = slot c p := by
  rw [slot, slot, Function.update_of_ne h]

theorem Dirent.not_live_of_empty {x : Dirent} (h : x.rdName = []) : x.live = false := by
  simp [live, h]

theorem Dirent.live_iff {x : Dirent} :
    x.live = true ↔ x.rdName ≠ [] ∧ x.rdName ≠ dot ∧ x.rdName ≠ dotdot := by
  simp [live, and_comm]

theorem Dirent.names_eq {x : Dirent} (h : x.live = true) : x.names ino = (x.rdIno == ino) := by
  simp [names, h]

theorem Dirent.names_of_not_live {x : Dirent} (h : x.live = false) : x.names ino = false := by
  simp [names, h]

/-- An inode without links is named by no entry. -/
theorem not_names_of_links (h : links c ino = 0) (hd : d < 64) (hi : i < 128)
    (hc : c d = some (.dir e)) (hlive : (e i).live = true) : (e i).rdIno ≠ ino := by
  intro heq
  have hplace : (d, i) ∈ places := mem_places.mpr ⟨hd, hi⟩
  have hfalse := tally_eq_zero_iff.mp h (d, i) hplace
  rw [slot_of_dir hc, Option.any_some, Dirent.names_eq hlive, beq_eq_false_iff_ne] at hfalse
  exact hfalse heq

/-! ### How the links move -/

/-- An inode appears or goes away whose entries name nothing. -/
theorem links_update {x : Option Contents}
    (hold : ∀ y j, c d = some y → j < 128 → (y.entry j).any Dirent.live = false)
    (hnew : ∀ y j, x = some y → j < 128 → (y.entry j).any Dirent.live = false) :
    links (Function.update c d x) ino = links c ino := by
  have hnone : ∀ (z : Option Contents) j, j < 128 →
      (∀ y j, z = some y → j < 128 → (y.entry j).any Dirent.live = false) →
      (z.bind fun x => x.entry j).any (·.names ino) = false := by
    intro z j hj hz
    cases z with
    | none => rfl
    | some y =>
        have hy := hz y j rfl hj
        rw [Option.bind_some]
        cases hentry : y.entry j with
        | none => rfl
        | some w =>
            rw [hentry] at hy
            exact Dirent.names_of_not_live hy
  apply tally_congr
  rintro ⟨a, j⟩ hp
  have hj := (mem_places.mp hp).2
  by_cases ha : a = d
  · subst ha
    simp only [slot, Function.update_self]
    rw [hnone x j hj hnew, hnone (c a) j hj hold]
  · rw [slot_update_of_ne ha]

theorem links_setDot (h : c d = some (.dir e)) (hdead : ∀ j, j < 128 → (e j).live = false)
    (hnew : new.live = false) :
    links (Function.update c d (some (.dir (Function.update e i new)))) ino = links c ino := by
  refine links_update ?_ ?_
  · intro y j hy hj
    rw [h] at hy
    cases hy
    exact hdead j hj
  · rintro y j ⟨rfl⟩ hj
    rw [Contents.entry, Option.any_some]
    by_cases hji : j = i
    · rw [hji, Function.update_self]
      exact hnew
    · rw [Function.update_of_ne hji]
      exact hdead j hj

theorem slot_set {p : Nat × Nat} (h : c d = some (.dir e)) (hp : p ≠ (d, i)) :
    slot (Function.update c d (some (.dir (Function.update e i new)))) p = slot c p := by
  obtain ⟨a, j⟩ := p
  by_cases ha : a = d
  · subst ha
    have hj : j ≠ i := fun hj => hp (by rw [hj])
    rw [slot, Function.update_self, Option.bind_some, Contents.entry, Function.update_of_ne hj,
      slot_of_dir h]
  · rw [slot_update_of_ne ha]

theorem slot_set_self :
    slot (Function.update c d (some (.dir (Function.update e i new)))) (d, i) = some new := by
  rw [slot_of_dir (Function.update_self ..), Function.update_self]

/-- An entry is filled. -/
theorem links_fill (h : c d = some (.dir e)) (hd : d < 64) (hi : i < 128)
    (hempty : (e i).rdName = []) (hlive : new.live = true) :
    links (Function.update c d (some (.dir (Function.update e i new)))) ino =
      links c ino + if ino = new.rdIno then 1 else 0 := by
  have hold : (slot c (d, i)).any (·.names ino) = false := by
    rw [slot_of_dir h]
    exact Dirent.names_of_not_live (Dirent.not_live_of_empty hempty)
  have hplace : (d, i) ∈ places := mem_places.mpr ⟨hd, hi⟩
  split
  · rename_i heq
    refine tally_succ hplace hold ?_ ?_
    · rw [slot_set_self, Option.any_some, Dirent.names_eq hlive, heq, beq_self_eq_true]
    · intro p _ hp
      rw [slot_set h hp]
  · rename_i hne
    apply tally_congr
    intro p _
    by_cases hp : p = (d, i)
    · subst hp
      rw [hold, slot_set_self, Option.any_some, Dirent.names_eq hlive, beq_eq_false_iff_ne]
      exact fun heq => hne heq.symm
    · rw [slot_set h hp]

/-- An entry is cleared. -/
theorem links_clear (ino : Nat) (h : c d = some (.dir e)) (hd : d < 64) (hi : i < 128)
    (hlive : (e i).live = true) (hempty : new.rdName = []) :
    links (Function.update c d (some (.dir (Function.update e i new)))) ino +
      (if ino = (e i).rdIno then 1 else 0) = links c ino := by
  set e' := Function.update e i new with he'
  have hback : Function.update (Function.update c d (some (.dir e'))) d
      (some (.dir (Function.update e' i (e i)))) = c := by
    rw [Function.update_idem, he', Function.update_idem, Function.update_eq_self, ← h,
      Function.update_eq_self]
  have hfill : links (Function.update (Function.update c d (some (.dir e'))) d
      (some (.dir (Function.update e' i (e i))))) ino =
      links (Function.update c d (some (.dir e'))) ino + if ino = (e i).rdIno then 1 else 0 := by
    refine links_fill (Function.update_self ..) hd hi ?_ hlive
    rw [he', Function.update_self]
    exact hempty
  rw [← hfill, hback]

theorem entryCount_fill (hi : i < 128) (hempty : (e i).rdName = []) (hname : new.rdName ≠ []) :
    entryCount (Function.update e i new) = entryCount e + 1 := by
  refine tally_succ (Finset.mem_range.mpr hi) ?_ ?_ ?_
  · simp [hempty]
  · simp [hname]
  · intro j _ hj
    rw [Function.update_of_ne hj]

theorem entryCount_clear (hi : i < 128) (hname : (e i).rdName ≠ []) (hempty : new.rdName = []) :
    entryCount (Function.update e i new) + 1 = entryCount e := by
  set e' := Function.update e i new with he'
  have hback : Function.update e' i (e i) = e := by
    rw [he', Function.update_idem, Function.update_eq_self]
  have hfill : entryCount (Function.update e' i (e i)) = entryCount e' + 1 := by
    refine entryCount_fill hi ?_ hname
    rw [he', Function.update_self]
    exact hempty
  rw [← hfill, hback]

/-! ### The rules of the tree -/

/-- The directories and what they name; `raw` is a directory that is still being made. -/
structure Tree (raw : Option Nat) (c : Held) : Prop where
  root : c 0 ≠ none
  lt : ∀ d, c d ≠ none → d < 64
  dots : ∀ d e, c d = some (.dir e) → raw ≠ some d →
    e 0 = ⟨d, dot⟩ ∧ (e 1).rdName = dotdot
  named : ∀ d e i, c d = some (.dir e) → i < 128 → (e i).live = true → c (e i).rdIno ≠ none
  /-- A directory that nothing names is empty. -/
  orphan : ∀ d e i, c d = some (.dir e) → d ≠ 0 → links c d = 0 → i < 128 → (e i).live = false

namespace Tree

variable {x : Contents}

theorem lt_of_dir (h : Tree raw c) (hc : c d = some (.dir e)) : d < 64 := by
  apply h.lt
  rw [hc]
  exact Option.some_ne_none _

/-- A new inode. -/
theorem alloc (h : Tree none c) (hnone : c ino = none) (hlt : ino < 64)
    (hempty : ∀ j, j < 128 → (x.entry j).any Dirent.live = false) :
    Tree (some ino) (Function.update c ino (some x)) := by
  have hlinks : ∀ j, links (Function.update c ino (some x)) j = links c j := by
    intro j
    refine links_update ?_ ?_
    · intro y _ hy
      rw [hnone] at hy
      cases hy
    · rintro y k ⟨rfl⟩ hk
      exact hempty k hk
  have hself : ∀ e j, x = .dir e → j < 128 → (e j).live = false := by
    intro e j hx hj
    have hany := hempty j hj
    rw [hx, Contents.entry] at hany
    exact hany
  refine ⟨?_, ?_, ?_, ?_, ?_⟩
  · by_cases hi : 0 = ino
    · rw [hi, Function.update_self]
      exact Option.some_ne_none _
    · rw [Function.update_of_ne hi]
      exact h.root
  · intro d hd
    by_cases hdi : d = ino
    · exact hdi ▸ hlt
    · rw [Function.update_of_ne hdi] at hd
      exact h.lt d hd
  · intro d e hd hraw
    have hdi : d ≠ ino := fun heq => hraw (by rw [heq])
    rw [Function.update_of_ne hdi] at hd
    exact h.dots d e hd (Option.some_ne_none _).symm
  · intro d e i hd hi hlive
    by_cases hdi : d = ino
    · subst hdi
      rw [Function.update_self] at hd
      rw [hself e i (Option.some.inj hd) hi] at hlive
      cases hlive
    · rw [Function.update_of_ne hdi] at hd
      have hnamed := h.named d e i hd hi hlive
      by_cases heq : (e i).rdIno = ino
      · rw [heq, Function.update_self]
        exact Option.some_ne_none _
      · rwa [Function.update_of_ne heq]
  · intro d e i hd hzero hl hi
    rw [hlinks] at hl
    by_cases hdi : d = ino
    · subst hdi
      rw [Function.update_self] at hd
      exact hself e i (Option.some.inj hd) hi
    · rw [Function.update_of_ne hdi] at hd
      exact h.orphan d e i hd hzero hl hi

/-- An entry is filled, in a directory that is named itself. -/
theorem fill (h : Tree raw c) (hc : c d = some (.dir e)) (hraw : raw ≠ some d) (hi : i < 128)
    (hempty : (e i).rdName = []) (hlive : new.live = true) (htarget : c new.rdIno ≠ none)
    (hlinked : d = 0 ∨ links c d ≠ 0) :
    Tree raw (Function.update c d (some (.dir (Function.update e i new)))) := by
  set c' := Function.update c d (some (.dir (Function.update e i new))) with hc'
  have hlt := h.lt_of_dir hc
  have hmono : ∀ j, c j ≠ none → c' j ≠ none := by
    intro j hj
    by_cases hjd : j = d
    · rw [hc', hjd, Function.update_self]
      exact Option.some_ne_none _
    · rwa [hc', Function.update_of_ne hjd]
  have hlinks : ∀ j, links c j ≤ links c' j := by
    intro j
    rw [hc', links_fill hc hlt hi hempty hlive]
    exact Nat.le_add_right ..
  obtain ⟨hdot, hdotdot⟩ := h.dots d e hc hraw
  have hi0 : i ≠ 0 := by
    rintro rfl
    rw [hdot] at hempty
    cases hempty
  have hi1 : i ≠ 1 := by
    rintro rfl
    rw [hdotdot] at hempty
    cases hempty
  -- in each clause the directory itself is the case that needs an argument
  refine ⟨hmono 0 h.root, ?_, ?_, ?_, ?_⟩
  · intro j hj
    by_cases hjd : j = d
    · exact hjd ▸ hlt
    · rw [hc', Function.update_of_ne hjd] at hj
      exact h.lt j hj
  · intro j e' hj hjraw
    by_cases hjd : j = d
    · subst hjd
      rw [hc', Function.update_self] at hj
      cases hj
      rw [Function.update_of_ne hi0.symm, Function.update_of_ne hi1.symm]
      exact ⟨hdot, hdotdot⟩
    · rw [hc', Function.update_of_ne hjd] at hj
      exact h.dots j e' hj hjraw
  · intro j e' k hj hk hlive'
    by_cases hjd : j = d
    · subst hjd
      rw [hc', Function.update_self] at hj
      cases hj
      by_cases hki : k = i
      · rw [hki, Function.update_self]
        exact hmono _ htarget
      · rw [Function.update_of_ne hki] at hlive' ⊢
        exact hmono _ (h.named j e k hc hk hlive')
    · rw [hc', Function.update_of_ne hjd] at hj
      exact hmono _ (h.named j e' k hj hk hlive')
  · intro j e' k hj hzero hl hk
    have hl' : links c j = 0 := Nat.le_zero.mp (hl ▸ hlinks j)
    by_cases hjd : j = d
    · subst hjd
      rcases hlinked with hroot | hne
      · exact absurd hroot hzero
      · exact absurd hl' hne
    · rw [hc', Function.update_of_ne hjd] at hj
      exact h.orphan j e' k hj hzero hl' hk

/-- An entry is cleared, and what it named is no directory with entries. -/
theorem clear (h : Tree raw c) (hc : c d = some (.dir e)) (hi : i < 128)
    (hlive : (e i).live = true) (hempty : new.rdName = [])
    (htarget : ∀ e' j, c (e i).rdIno = some (.dir e') → j < 128 → (e' j).live = false) :
    Tree raw (Function.update c d (some (.dir (Function.update e i new)))) := by
  set c' := Function.update c d (some (.dir (Function.update e i new))) with hc'
  have hlt := h.lt_of_dir hc
  have hmono : ∀ j, c j ≠ none → c' j ≠ none := by
    intro j hj
    by_cases hjd : j = d
    · rw [hc', hjd, Function.update_self]
      exact Option.some_ne_none _
    · rwa [hc', Function.update_of_ne hjd]
  -- an entry of the directory that is in use now was in use before
  have hsub : ∀ j, (Function.update e i new j).live = true →
      (e j).live = true ∧ Function.update e i new j = e j := by
    intro j hj
    by_cases hji : j = i
    · rw [hji, Function.update_self, Dirent.not_live_of_empty hempty] at hj
      cases hj
    · rw [Function.update_of_ne hji] at hj ⊢
      exact ⟨hj, rfl⟩
  refine ⟨hmono 0 h.root, ?_, ?_, ?_, ?_⟩
  · intro j hj
    by_cases hjd : j = d
    · exact hjd ▸ hlt
    · rw [hc', Function.update_of_ne hjd] at hj
      exact h.lt j hj
  · intro j e' hj hjraw
    by_cases hjd : j = d
    · subst hjd
      rw [hc', Function.update_self] at hj
      cases hj
      obtain ⟨hdot, hdotdot⟩ := h.dots j e hc hjraw
      obtain ⟨-, hnotdot, hnotdotdot⟩ := Dirent.live_iff.mp hlive
      have hi0 : (0 : Nat) ≠ i := by
        rintro rfl
        exact hnotdot (by rw [hdot])
      have hi1 : (1 : Nat) ≠ i := by
        rintro rfl
        exact hnotdotdot hdotdot
      rw [Function.update_of_ne hi0, Function.update_of_ne hi1]
      exact ⟨hdot, hdotdot⟩
    · rw [hc', Function.update_of_ne hjd] at hj
      exact h.dots j e' hj hjraw
  · intro j e' k hj hk hlive'
    by_cases hjd : j = d
    · subst hjd
      rw [hc', Function.update_self] at hj
      cases hj
      obtain ⟨hold, heq⟩ := hsub k hlive'
      rw [heq]
      exact hmono _ (h.named j e k hc hk hold)
    · rw [hc', Function.update_of_ne hjd] at hj
      exact hmono _ (h.named j e' k hj hk hlive')
  · intro j e' k hj hzero hl hk
    have hcount := links_clear j hc hlt hi hlive hempty
    rw [← hc', hl, Nat.zero_add] at hcount
    -- either nothing named it before, or only the entry that is cleared
    by_cases hjt : j = (e i).rdIno
    · by_cases hjd : j = d
      · have hnone := htarget e i (by rw [← hjt, hjd, hc]) hi
        rw [hlive] at hnone
        cases hnone
      · rw [hc', Function.update_of_ne hjd] at hj
        exact htarget e' k (hjt ▸ hj) hk
    · rw [if_neg hjt] at hcount
      by_cases hjd : j = d
      · subst hjd
        rw [hc', Function.update_self] at hj
        cases hj
        apply Bool.eq_false_iff.mpr
        intro hkl
        have hold := h.orphan j e k hc hzero hcount.symm hk
        rw [(hsub k hkl).1] at hold
        cases hold
      · rw [hc', Function.update_of_ne hjd] at hj
        exact h.orphan j e' k hj hzero hcount.symm hk

/-- An inode that nothing names is freed. -/
theorem free (h : Tree none c) (hroot : ino ≠ 0) (hl : links c ino = 0) :
    Tree none (Function.update c ino none) := by
  have hdead : ∀ y j, c ino = some y → j < 128 → (y.entry j).any Dirent.live = false := by
    intro y j hy hj
    cases y with
    | dir e => exact h.orphan ino e j hy hroot hl hj
    | data _ | chr _ | blk _ => rfl
  have hlinks : ∀ j, links (Function.update c ino none) j = links c j := by
    intro j
    refine links_update hdead ?_
    intro y _ hy
    cases hy
  have hne : ∀ {d e}, Function.update c ino none d = some (.dir e) → d ≠ ino := by
    rintro d e hd rfl
    rw [Function.update_self] at hd
    cases hd
  refine ⟨?_, ?_, ?_, ?_, ?_⟩
  · rw [Function.update_of_ne hroot.symm]
    exact h.root
  · intro d hd
    by_cases hdi : d = ino
    · rw [hdi, Function.update_self] at hd
      exact absurd rfl hd
    · rw [Function.update_of_ne hdi] at hd
      exact h.lt d hd
  · intro d e hd hraw
    rw [Function.update_of_ne (hne hd)] at hd
    exact h.dots d e hd hraw
  · intro d e i hd hi hlive
    rw [Function.update_of_ne (hne hd)] at hd
    rw [Function.update_of_ne (not_names_of_links hl (h.lt_of_dir hd) hi hd hlive)]
    exact h.named d e i hd hi hlive
  · intro d e i hd hzero hl' hi
    rw [hlinks] at hl'
    rw [Function.update_of_ne (hne hd)] at hd
    exact h.orphan d e i hd hzero hl' hi

/-- An entry that names nothing is set in a directory that is still being made. -/
theorem setDot (h : Tree (some d) c) (hc : c d = some (.dir e))
    (hdead : ∀ j, j < 128 → (e j).live = false) (hnew : new.live = false) :
    Tree (some d) (Function.update c d (some (.dir (Function.update e i new)))) := by
  set c' := Function.update c d (some (.dir (Function.update e i new))) with hc'
  have hdead' : ∀ j, j < 128 → (Function.update e i new j).live = false := by
    intro j hj
    by_cases hji : j = i
    · rw [hji, Function.update_self]
      exact hnew
    · rw [Function.update_of_ne hji]
      exact hdead j hj
  have hmono : ∀ j, c j ≠ none → c' j ≠ none := by
    intro j hj
    by_cases hjd : j = d
    · rw [hc', hjd, Function.update_self]
      exact Option.some_ne_none _
    · rwa [hc', Function.update_of_ne hjd]
  refine ⟨hmono 0 h.root, ?_, ?_, ?_, ?_⟩
  · intro j hj
    by_cases hjd : j = d
    · exact hjd ▸ h.lt_of_dir hc
    · rw [hc', Function.update_of_ne hjd] at hj
      exact h.lt j hj
  · intro j e' hj hraw
    have hjd : j ≠ d := fun heq => hraw (by rw [heq])
    rw [hc', Function.update_of_ne hjd] at hj
    exact h.dots j e' hj hraw
  · intro j e' k hj hk hlive
    by_cases hjd : j = d
    · subst hjd
      rw [hc', Function.update_self] at hj
      cases hj
      rw [hdead' k hk] at hlive
      cases hlive
    · rw [hc', Function.update_of_ne hjd] at hj
      exact hmono _ (h.named j e' k hj hk hlive)
  · intro j e' k hj hzero hl hk
    by_cases hjd : j = d
    · subst hjd
      rw [hc', Function.update_self] at hj
      cases hj
      exact hdead' k hk
    · rw [links_setDot hc hdead hnew] at hl
      rw [hc', Function.update_of_ne hjd] at hj
      exact h.orphan j e' k hj hzero hl hk

/-- A new directory has its first two entries. -/
theorem settle (h : Tree (some ino) c)
    (hdots : ∀ e, c ino = some (.dir e) → e 0 = ⟨ino, dot⟩ ∧ (e 1).rdName = dotdot) :
    Tree none c := by
  refine ⟨h.root, h.lt, ?_, h.named, h.orphan⟩
  intro d e' hd _
  by_cases hdi : d = ino
  · subst hdi
    exact hdots e' hd
  · exact h.dots d e' hd fun heq => hdi (Option.some.inj heq).symm

end Tree

end CodingSample.Ramfs
