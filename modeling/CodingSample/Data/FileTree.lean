import Mathlib.Data.List.AList
import Mathlib.Data.List.Infix
import Mathlib.Data.List.MinMax

/-!
# Trees of directories and files

A path is the list of its names, the last name first, so that the parent of `n :: p` is `p` and
the paths at and below `p` are those with the suffix `p`. A tree has a node at finitely many paths,
and a directory at the parent of each.
-/

namespace CodingSample

/-- What stands at a path. -/
inductive Node (β : Type) where
  | dir
  | file (content : β)
  deriving DecidableEq

structure FileTree (N β : Type) [DecidableEq N] where
  nodes : AList fun _ : List N => Node β
  root : nodes.lookup [] = some .dir
  parent : ∀ n p, nodes.lookup (n :: p) ≠ none → nodes.lookup p = some .dir

namespace FileTree

variable {N β : Type} [DecidableEq N] {t t' : FileTree N β} {n : N} {p q : List N}
  {node : Node β} {content : β}

/-- The root alone. -/
def empty : FileTree N β where
  nodes := AList.insert [] .dir ∅
  root := AList.lookup_insert ∅
  parent n p h := absurd (AList.lookup_insert_ne (List.cons_ne_nil n p)) h

def get (t : FileTree N β) (p : List N) : Option (Node β) := t.nodes.lookup p

def fileExists (t : FileTree N β) (p : List N) : Bool := (t.get p).isSome

def isDirectory (t : FileTree N β) (p : List N) : Bool :=
  match t.get p with
  | some .dir => true
  | _ => false

/-- The paths right below `p`. -/
def listFiles (t : FileTree N β) (p : List N) : List (List N) :=
  t.nodes.keys.filter fun q => q ≠ [] ∧ q.tail = p

/-- The length of the longest path. -/
def depth (t : FileTree N β) : Nat := (t.nodes.keys.map List.length).foldr max 0

theorem get_root : t.get [] = some .dir := t.root

theorem get_parent (h : t.get (n :: p) ≠ none) : t.get p = some .dir := t.parent n p h

theorem fileExists_iff : t.fileExists p = true ↔ t.get p ≠ none := Option.isSome_iff_ne_none

theorem isDirectory_iff : t.isDirectory p = true ↔ t.get p = some .dir := by
  unfold isDirectory
  split
  · exact iff_of_true rfl ‹_›
  · exact iff_of_false Bool.false_ne_true ‹_›

theorem mem_listFiles : q ∈ t.listFiles p ↔ (∃ n, q = n :: p) ∧ t.get q ≠ none := by
  rw [listFiles, List.mem_filter, ← AList.mem_keys, ← AList.lookup_isSome,
    Option.isSome_iff_ne_none, and_comm, decide_eq_true_iff]
  refine and_congr_left fun _ => ?_
  constructor
  · rintro ⟨hne, rfl⟩
    exact ⟨q.head hne, (List.cons_head_tail hne).symm⟩
  · rintro ⟨n, rfl⟩
    exact ⟨List.cons_ne_nil n p, rfl⟩

theorem length_le_depth (h : t.get p ≠ none) : p.length ≤ t.depth := by
  have hmem : p.length ∈ t.nodes.keys.map List.length :=
    List.mem_map_of_mem (AList.lookup_isSome.mp (Option.isSome_iff_ne_none.mpr h))
  exact List.le_max_of_le' 0 hmem le_rfl

/-- Everything above a node is a directory. -/
theorem get_of_suffix (h : p <:+ q) (hne : p ≠ q) (hq : t.get q ≠ none) : t.get p = some .dir := by
  induction q with
  | nil => exact absurd (List.suffix_nil.mp h) hne
  | cons n q ih =>
      have hdir := get_parent hq
      rcases List.suffix_cons_iff.mp h with rfl | h
      · exact absurd rfl hne
      by_cases heq : p = q
      · exact heq ▸ hdir
      · exact ih h heq (hdir ▸ Option.some_ne_none _)

/-- Nothing stands below a path at which no directory stands. -/
theorem get_eq_none (h : p <:+ q) (hne : p ≠ q) (hp : t.get p ≠ some .dir) : t.get q = none :=
  not_not.mp fun hq => hp (get_of_suffix h hne hq)

theorem get_of_dir (h : t.get p = some .dir) (q : List N) :
    t.get q = if q <:+ p then some .dir else t.get q := by
  split
  · by_cases heq : q = p
    · exact heq ▸ h
    · exact get_of_suffix ‹_› heq (h ▸ Option.some_ne_none _)
  · rfl

/-! ### Edits -/

/-- A node under a directory. -/
def put (t : FileTree N β) (n : N) (p : List N) (node : Node β) (hp : t.get p = some .dir)
    (hnode : t.get (n :: p) = some .dir → node = .dir) : FileTree N β where
  nodes := t.nodes.insert (n :: p) node
  root := (AList.lookup_insert_ne (List.cons_ne_nil n p).symm).trans t.root
  parent m q hq := by
    have hdir : t.get q = some .dir := by
      by_cases heq : m :: q = n :: p
      · obtain ⟨rfl, rfl⟩ := List.cons_eq_cons.mp heq
        exact hp
      · rw [AList.lookup_insert_ne heq] at hq
        exact t.parent m q hq
    by_cases heq : q = n :: p
    · subst heq
      rw [AList.lookup_insert, hnode hdir]
    · rw [AList.lookup_insert_ne heq]
      exact hdir

theorem get_put (hp : t.get p = some .dir) (hnode : t.get (n :: p) = some .dir → node = .dir) :
    (t.put n p node hp hnode).get q = if q = n :: p then some node else t.get q := by
  split
  · subst q
    exact AList.lookup_insert _
  · exact AList.lookup_insert_ne ‹_›

/-- A node with nothing below. -/
def remove (t : FileTree N β) (n : N) (p : List N) (h : t.listFiles (n :: p) = []) :
    FileTree N β where
  nodes := t.nodes.erase (n :: p)
  root := (AList.lookup_erase_ne (List.cons_ne_nil n p).symm).trans t.root
  parent m q hq := by
    by_cases heq : m :: q = n :: p
    · exact absurd (heq ▸ AList.lookup_erase _ _) hq
    rw [AList.lookup_erase_ne heq] at hq
    have hne : q ≠ n :: p := by
      rintro rfl
      exact List.not_mem_nil (h ▸ mem_listFiles.mpr ⟨⟨m, rfl⟩, hq⟩)
    rw [AList.lookup_erase_ne hne]
    exact t.parent m q hq

theorem get_remove (h : t.listFiles (n :: p) = []) :
    (t.remove n p h).get q = if q = n :: p then none else t.get q := by
  split
  · subst q
    exact AList.lookup_erase _ _
  · exact AList.lookup_erase_ne ‹_›

/-! ### Operations of a file system -/

variable [DecidableEq β]

/-- Whether the directory is made. -/
def mkdir (t : FileTree N β) : List N → Bool × FileTree N β
  | [] => (false, t)
  | n :: p =>
      if h : t.get p = some .dir ∧ t.get (n :: p) = none then
        (true, t.put n p .dir h.1 fun _ => rfl)
      else (false, t)

/-- The directory with the missing ones above it, as far as they can be made. -/
def mkdirs (t : FileTree N β) : List N → Bool × FileTree N β
  | [] => (false, t)
  | n :: p =>
      if t.fileExists (n :: p) then (false, t)
      else if (t.mkdir (n :: p)).1 then t.mkdir (n :: p)
      else
        let made := t.mkdirs p
        if made.1 || made.2.fileExists p then made.2.mkdir (n :: p) else (false, made.2)

/-- An empty file where there is nothing, or `none` when the directory for it is missing. -/
def createNewFile [EmptyCollection β] (t : FileTree N β) : List N → Option (FileTree N β)
  | [] => some t
  | n :: p =>
      if h : t.get p = some .dir then
        if h' : t.get (n :: p) = none then
          some (t.put n p (.file ∅) h fun hdir => absurd (h'.symm.trans hdir) nofun)
        else some t
      else none

/-- A file with the content, or `none` when a directory is in its place or is missing for it. -/
def write (t : FileTree N β) (content : β) : List N → Option (FileTree N β)
  | [] => none
  | n :: p =>
      if h : t.get p = some .dir ∧ t.get (n :: p) ≠ some .dir then
        some (t.put n p (.file content) h.1 fun hdir => absurd hdir h.2)
      else none

/-- A file or an empty directory is removed, anything else stays. -/
def delete (t : FileTree N β) : List N → FileTree N β
  | [] => t
  | n :: p => if h : t.listFiles (n :: p) = [] then t.remove n p h else t

theorem mkdir_of_can (hp : t.get p = some .dir) (hnone : t.get (n :: p) = none) :
    (t.mkdir (n :: p)).1 = true ∧
      (t.mkdir (n :: p)).2.get q = if q = n :: p then some .dir else t.get q := by
  rw [mkdir, dif_pos ⟨hp, hnone⟩]
  exact ⟨rfl, get_put hp fun _ => rfl⟩

theorem mkdir_of_cannot (h : ¬(t.get p = some .dir ∧ t.get (n :: p) = none)) :
    t.mkdir (n :: p) = (false, t) := by
  rw [mkdir, dif_neg h]

theorem get_mkdir_eq_or : (t.mkdir p).2.get q = t.get q ∨ q = p ∧ t.get q = none := by
  cases p with
  | nil => exact .inl rfl
  | cons n p =>
      by_cases h : t.get p = some .dir ∧ t.get (n :: p) = none
      · rw [(mkdir_of_can h.1 h.2).2]
        split
        · exact .inr ⟨‹_›, ‹q = n :: p› ▸ h.2⟩
        · exact .inl rfl
      · rw [mkdir_of_cannot h]
        exact .inl rfl

theorem get_mkdir_above {u : FileTree N β} (hnone : t.get (n :: p) = none)
    (hu : ∀ q, u.get q = if q <:+ p then some .dir else t.get q) :
    (u.mkdir (n :: p)).2.get q = if q <:+ n :: p then some .dir else t.get q := by
  have hdir : u.get p = some .dir := (hu p).trans (if_pos List.suffix_rfl)
  have hfree : u.get (n :: p) = none := by
    rw [hu, if_neg fun hsuf => absurd hsuf.length_le (by simp)]
    exact hnone
  rw [(mkdir_of_can hdir hfree).2, hu]
  by_cases heq : q = n :: p
  · rw [if_pos heq, if_pos (heq ▸ List.suffix_rfl)]
  · rw [if_neg heq]
    exact if_congr (List.suffix_cons_iff.trans (or_iff_right heq)).symm rfl rfl

/-- Where no file is in the way every directory is made. -/
theorem get_mkdirs (h : ∀ a, a <:+ p → ∀ c, t.get a ≠ some (.file c)) (q : List N) :
    (t.mkdirs p).2.get q = if q <:+ p then some .dir else t.get q := by
  induction p generalizing q with
  | nil => exact get_of_dir get_root q
  | cons n p ih =>
      have habove := ih fun a ha => h a (ha.trans (List.suffix_cons n p))
      rw [mkdirs]
      by_cases hex : t.fileExists (n :: p) = true
      · rw [if_pos hex]
        refine get_of_dir ?_ q
        cases hnode : t.get (n :: p) with
        | none => exact absurd hnode (fileExists_iff.mp hex)
        | some node =>
            cases node with
            | dir => rfl
            | file c => exact absurd hnode (h _ List.suffix_rfl c)
      rw [if_neg hex]
      have hnone : t.get (n :: p) = none := not_not.mp fun hne => hex (fileExists_iff.mpr hne)
      by_cases hdir : t.get p = some .dir
      · rw [if_pos (mkdir_of_can (q := q) hdir hnone).1]
        exact get_mkdir_above hnone (get_of_dir hdir)
      · have hfail : (t.mkdir (n :: p)).1 ≠ true := by
          rw [mkdir_of_cannot fun hcan => hdir hcan.1]
          exact Bool.false_ne_true
        have hget : (t.mkdirs p).2.get p = some .dir :=
          (habove p).trans (if_pos List.suffix_rfl)
        have hex' := fileExists_iff.mpr (hget ▸ Option.some_ne_none _)
        rw [if_neg hfail, if_pos ((congrArg _ hex').trans (Bool.or_true _))]
        exact get_mkdir_above hnone habove

theorem get_mkdirs_eq_or :
    (t.mkdirs p).2.get q = t.get q ∨ q <:+ p ∧ t.get q = none := by
  induction p with
  | nil => exact .inl rfl
  | cons n p ih =>
      have hmk : ∀ {u : FileTree N β}, (u.get q = t.get q ∨ q <:+ p ∧ t.get q = none) →
          ((u.mkdir (n :: p)).2.get q = t.get q ∨ q <:+ n :: p ∧ t.get q = none) := by
        rintro u (hu | ⟨hsuf, hnone⟩)
        · rcases get_mkdir_eq_or (t := u) (p := n :: p) (q := q) with h | ⟨rfl, h⟩
          · exact .inl (h.trans hu)
          · exact .inr ⟨List.suffix_rfl, hu ▸ h⟩
        · exact .inr ⟨hsuf.trans (List.suffix_cons n p), hnone⟩
      rw [mkdirs]
      split
      · exact .inl rfl
      split
      · exact hmk (.inl rfl)
      dsimp only
      split
      · exact hmk ih
      · exact ih.imp_right fun h => ⟨h.1.trans (List.suffix_cons n p), h.2⟩

/-- A file in the way stops all of it. -/
theorem mkdirs_of_file (h : q <:+ p) (hq : t.get q = some (.file content)) :
    t.mkdirs p = (false, t) := by
  induction p with
  | nil => rfl
  | cons n p ih =>
      rw [mkdirs]
      rcases List.suffix_cons_iff.mp h with rfl | h
      · rw [if_pos (fileExists_iff.mpr (hq ▸ Option.some_ne_none _))]
      have hdir : t.get p ≠ some .dir := by
        by_cases heq : q = p
        · rw [← heq, hq]
          exact nofun
        · intro hdir
          cases hq.symm.trans (get_of_suffix h heq (hdir ▸ Option.some_ne_none _))
      have hcannot := mkdir_of_cannot (t := t) (n := n) fun hcan => hdir hcan.1
      rw [hcannot, ih h]
      split
      · rfl
      dsimp only
      rw [if_neg Bool.false_ne_true, hcannot]
      split <;> rfl

theorem createNewFile_eq_none [EmptyCollection β] :
    t.createNewFile (n :: p) = none ↔ t.get p ≠ some .dir := by
  rw [createNewFile]
  split_ifs with hp hnone
  · exact iff_of_false nofun (not_not.mpr hp)
  · exact iff_of_false nofun (not_not.mpr hp)
  · exact iff_of_true rfl hp

theorem get_createNewFile [EmptyCollection β] (h : t.createNewFile p = some t') (q : List N) :
    t'.get q = if q = p ∧ t.get p = none then some (.file ∅) else t.get q := by
  cases p with
  | nil =>
      obtain rfl := Option.some.inj h
      exact (if_neg fun hq => absurd (get_root.symm.trans hq.2) (Option.some_ne_none _)).symm
  | cons n p =>
      rw [createNewFile] at h
      split_ifs at h with hp hnone
      · obtain rfl := Option.some.inj h
        rw [get_put]
        exact if_congr (and_iff_left hnone).symm rfl rfl
      · obtain rfl := Option.some.inj h
        exact (if_neg fun hq => hnone hq.2).symm

theorem write_eq_none :
    t.write content (n :: p) = none ↔ t.get p ≠ some .dir ∨ t.get (n :: p) = some .dir := by
  rw [write]
  split_ifs with hp
  · exact iff_of_false nofun fun h => h.elim (· hp.1) hp.2
  · exact iff_of_true rfl (by tauto)

theorem get_write (h : t.write content p = some t') (q : List N) :
    t'.get q = if q = p then some (.file content) else t.get q := by
  cases p with
  | nil => cases h
  | cons n p =>
      rw [write] at h
      split_ifs at h with hp
      obtain rfl := Option.some.inj h
      exact get_put hp.1 fun hdir => absurd hdir hp.2

omit [DecidableEq β] in
theorem get_delete (q : List N) : (t.delete p).get q =
    if q = p ∧ p ≠ [] ∧ t.listFiles p = [] then none else t.get q := by
  cases p with
  | nil => exact (if_neg fun hq => hq.2.1 rfl).symm
  | cons n p =>
      rw [delete]
      split_ifs with hlist hq hq
      · rw [get_remove, if_pos hq.1]
      · rw [get_remove, if_neg fun heq => hq ⟨heq, List.cons_ne_nil n p, hlist⟩]
      · exact absurd hq.2.2 hlist
      · rfl

end FileTree

end CodingSample
