import CodingSample.Data.FileTree
import CodingSample.Dropbox.Lines

/-!
# Files

A `File` is a string, and the file system finds the place that it names anew in every call.
-/

namespace CodingSample.Dropbox

def slash : UInt16 := 47

def dot : JString := java "."

def dotDot : JString := java ".."

def IsName (s : JString) : Prop := s ≠ [] ∧ slash ∉ s ∧ 0 ∉ s ∧ s ≠ dot ∧ s ≠ dotDot

instance : DecidablePred IsName := fun s =>
  inferInstanceAs (Decidable (s ≠ [] ∧ slash ∉ s ∧ 0 ∉ s ∧ s ≠ dot ∧ s ≠ dotDot))

abbrev FileName := {s : JString // IsName s}

abbrev Path := List FileName

abbrev Bytes := List UInt8

abbrev FileSystem := FileTree FileName Bytes

/-- The string of a path. -/
def pathString : Path → JString
  | [] => []
  | n :: p => pathString p ++ slash :: n.1

inductive Component where
  | here
  | up
  | name (n : FileName)
  deriving DecidableEq

/-- An empty string between two slashes is no component. -/
def component (s : JString) : Option Component :=
  if s = dot then some .here
  else if s = dotDot then some .up
  else if h : IsName s then some (.name ⟨s, h⟩)
  else none

def enter (p : Path) : Component → Path
  | .here => p
  | .up => p.tail
  | .name n => n :: p

/-- A string with a NUL names no file. -/
def IsValid (f : JString) : Prop := 0 ∉ f

instance : DecidablePred IsValid := fun f => inferInstanceAs (Decidable (0 ∉ f))

def components (f : JString) : List Component := (f.splitOnP (· = slash)).filterMap component

/-- The path that is left when `.` and `..` are removed from the string. -/
def canonicalPath (f : JString) : Path := (components f).foldl enter []

/-- Each component is looked up in a directory. -/
def walk (t : FileSystem) : Path → List Component → Option Path
  | p, [] => some p
  | p, c :: cs => if t.isDirectory p then walk t (enter p c) cs else none

def locate (t : FileSystem) (f : JString) : Option Path :=
  if IsValid f then walk t [] (components f) else none

namespace File

def fileExists (t : FileSystem) (f : JString) : Bool := (locate t f).any t.fileExists

def isDirectory (t : FileSystem) (f : JString) : Bool := (locate t f).any t.isDirectory

/-- The string of an entry of a directory. -/
def child (f : JString) (n : FileName) : JString := f ++ slash :: n.1

def listFiles (t : FileSystem) (f : JString) : List JString :=
  match locate t f with
  | none => []
  | some p => (t.listFiles p).filterMap fun q => q.head?.map (child f)

def mkdir (t : FileSystem) (f : JString) : Bool × FileSystem :=
  match locate t f with
  | none => (false, t)
  | some p => t.mkdir p

/-- After the attempt at the string itself the canonical path is made. -/
def mkdirs (t : FileSystem) (f : JString) : Bool × FileSystem :=
  if fileExists t f then (false, t)
  else if (mkdir t f).1 then mkdir t f
  else if IsValid f then t.mkdirs (canonicalPath f)
  else (false, t)

def createNewFile (t : FileSystem) (f : JString) : Option FileSystem :=
  (locate t f).bind t.createNewFile

/-- What a `FileInputStream` reads up to the end. -/
def read (t : FileSystem) (f : JString) : Option Bytes :=
  (locate t f).bind fun p =>
    match t.get p with
    | some (.file content) => some content
    | _ => none

/-- What a `FileOutputStream` does that is given the content at once. -/
def write (t : FileSystem) (content : Bytes) (f : JString) : Option FileSystem :=
  (locate t f).bind (t.write content)

/-- A string that ends in `.` cannot be deleted. -/
def delete (t : FileSystem) (f : JString) : FileSystem :=
  match locate t f with
  | none => t
  | some p => if (components f).getLast? = some .here then t else t.delete p

end File

variable {t : FileSystem} {f g : JString} {n : FileName} {p q : Path} {c : Component}
  {cs : List Component}

/-- A path at or below `p` is `p` or at or below one of the children. -/
theorem suffix_iff_child : p <:+ q ↔ q = p ∨ ∃ n : FileName, n :: p <:+ q := by
  constructor
  · rintro ⟨l, rfl⟩
    induction l using List.reverseRecOn with
    | nil => exact .inl rfl
    | append_singleton l n =>
        refine .inr ⟨n, l, ?_⟩
        rw [List.append_assoc]
        rfl
  · rintro (rfl | ⟨n, hn⟩)
    · exact List.suffix_rfl
    · exact (List.suffix_cons n p).trans hn

theorem components_append : components (f ++ slash :: g) = components f ++ components g := by
  rw [components, List.splitOnP_append_cons f g (decide_eq_true rfl), List.filterMap_append]
  rfl

theorem component_name : component n.1 = some (.name n) := by
  rw [component, if_neg n.2.2.2.2.1, if_neg n.2.2.2.2.2, dif_pos n.2]

theorem components_name : components n.1 = [.name n] := by
  rw [components, List.splitOnP_eq_singleton]
  · rw [List.filterMap_cons_some component_name]
    rfl
  · intro u hu
    exact decide_eq_false fun heq => n.2.2.1 (heq ▸ hu)

theorem components_child : components (File.child f n) = components f ++ [.name n] := by
  rw [File.child, components_append, components_name]

theorem components_pathString : components (pathString p) = p.reverse.map Component.name := by
  induction p with
  | nil => rfl
  | cons n p ih =>
      rw [pathString, components_append, components_name, ih, List.reverse_cons, List.map_append]
      rfl

theorem isValid_append : IsValid (f ++ slash :: g) ↔ IsValid f ∧ IsValid g := by
  simp [IsValid, slash]

theorem isValid_child : IsValid (File.child f n) ↔ IsValid f :=
  isValid_append.trans (and_iff_left n.2.2.2.1)

theorem isValid_pathString : IsValid (pathString p) := by
  induction p with
  | nil => exact List.not_mem_nil
  | cons n p ih => exact isValid_append.mpr ⟨ih, n.2.2.2.1⟩

theorem canonicalPath_child : canonicalPath (File.child f n) = n :: canonicalPath f := by
  rw [canonicalPath, components_child, List.foldl_append]
  rfl

theorem canonicalPath_pathString : canonicalPath (pathString p) = p := by
  induction p with
  | nil => rfl
  | cons n p ih => exact canonicalPath_child.trans (congrArg _ ih)

theorem pathString_injective : Function.Injective pathString := fun p q h => by
  rw [← canonicalPath_pathString (p := p), h, canonicalPath_pathString]

theorem walk_eq_some (h : walk t p cs = some q) : q = cs.foldl enter p := by
  induction cs generalizing p with
  | nil => exact (Option.some.inj h).symm
  | cons c cs ih =>
      rw [walk] at h
      split at h
      · exact ih h
      · cases h

/-- A file stands where its string says. -/
theorem locate_eq_some (h : locate t f = some p) : p = canonicalPath f := by
  rw [locate] at h
  split at h
  · exact walk_eq_some h
  · cases h

theorem walk_append {cs' : List Component} :
    walk t p (cs ++ cs') = (walk t p cs).bind fun q => walk t q cs' := by
  induction cs generalizing p with
  | nil => rfl
  | cons c cs ih =>
      rw [List.cons_append, walk, walk]
      split
      · exact ih
      · rfl

theorem locate_child : locate t (File.child f n) =
    (locate t f).bind fun p => if t.isDirectory p then some (n :: p) else none := by
  rw [locate, locate]
  by_cases hf : IsValid f
  · rw [if_pos hf, if_pos (isValid_child.mpr hf), components_child, walk_append]
    rfl
  · rw [if_neg hf, if_neg fun h => hf (isValid_child.mp h)]
    rfl

/-- The string of a path leads there when there is a directory above it. -/
theorem locate_pathString : locate t (pathString (n :: p)) =
    if t.isDirectory p then some (n :: p) else none := by
  induction p generalizing n with
  | nil => exact locate_child (f := pathString [])
  | cons m p ih =>
      refine (locate_child (f := pathString (m :: p))).trans ?_
      rw [ih]
      split
      · rfl
      · rename_i hp
        refine (if_neg fun hm => hp ?_).symm
        exact FileTree.isDirectory_iff.mpr
          (FileTree.get_parent ((FileTree.isDirectory_iff.mp hm).trans_ne (Option.some_ne_none _)))

theorem locate_of_get (h : t.get p ≠ none) : locate t (pathString p) = some p := by
  cases p with
  | nil => rfl
  | cons n p =>
      exact locate_pathString.trans (if_pos (FileTree.isDirectory_iff.mpr (FileTree.get_parent h)))

theorem isDirectory_pathString : File.isDirectory t (pathString p) = t.isDirectory p := by
  cases p with
  | nil => rfl
  | cons n p =>
      rw [File.isDirectory, locate_pathString]
      by_cases hp : t.isDirectory p = true
      · rw [if_pos hp, Option.any_some]
      · rw [if_neg hp, Option.any_none]
        refine (Bool.eq_false_iff.mpr fun hdir => hp ?_).symm
        exact FileTree.isDirectory_iff.mpr
          (FileTree.get_parent ((FileTree.isDirectory_iff.mp hdir).trans_ne (Option.some_ne_none _)))

theorem fileExists_pathString : File.fileExists t (pathString p) = t.fileExists p := by
  cases p with
  | nil => rfl
  | cons n p =>
      rw [File.fileExists, locate_pathString]
      by_cases hp : t.isDirectory p = true
      · rw [if_pos hp, Option.any_some]
      · rw [if_neg hp, Option.any_none]
        refine (Bool.eq_false_iff.mpr fun hex => hp ?_).symm
        exact FileTree.isDirectory_iff.mpr (FileTree.get_parent (FileTree.fileExists_iff.mp hex))

theorem mem_listFiles (hf : locate t f = some p) :
    g ∈ File.listFiles t f ↔ ∃ n, g = File.child f n ∧ t.get (n :: p) ≠ none := by
  rw [File.listFiles, hf]
  dsimp only
  rw [List.mem_filterMap]
  constructor
  · rintro ⟨q, hq, hg⟩
    obtain ⟨⟨n, rfl⟩, hne⟩ := FileTree.mem_listFiles.mp hq
    exact ⟨n, (Option.some.inj hg).symm, hne⟩
  · rintro ⟨n, rfl, hne⟩
    exact ⟨n :: p, FileTree.mem_listFiles.mpr ⟨⟨n, rfl⟩, hne⟩, rfl⟩

theorem createNewFile_pathString :
    File.createNewFile t (pathString (n :: p)) = t.createNewFile (n :: p) := by
  rw [File.createNewFile, locate_pathString]
  split
  · rfl
  · rename_i hp
    exact (FileTree.createNewFile_eq_none.mpr fun h => hp (FileTree.isDirectory_iff.mpr h)).symm

theorem write_pathString {content : Bytes} :
    File.write t content (pathString (n :: p)) = t.write content (n :: p) := by
  rw [File.write, locate_pathString]
  split
  · rfl
  · rename_i hp
    exact (FileTree.write_eq_none.mpr (.inl fun h => hp (FileTree.isDirectory_iff.mpr h))).symm

theorem get_mkdirs_pathString (h : ∀ a, a <:+ p → ∀ c, t.get a ≠ some (.file c)) (q : Path) :
    (File.mkdirs t (pathString p)).2.get q = if q <:+ p then some .dir else t.get q := by
  rw [File.mkdirs, fileExists_pathString, if_pos isValid_pathString, canonicalPath_pathString]
  split
  · rename_i hex
    refine FileTree.get_of_dir ?_ q
    cases hnode : t.get p with
    | none => exact absurd hnode (FileTree.fileExists_iff.mp hex)
    | some node =>
        cases node with
        | dir => rfl
        | file c => exact absurd hnode (h p List.suffix_rfl c)
  split
  · rename_i hex hmk
    cases p with
    | nil => exact absurd hmk Bool.false_ne_true
    | cons n p =>
        rw [File.mkdir, locate_pathString] at hmk ⊢
        by_cases hp : t.isDirectory p = true
        · rw [if_pos hp]
          have hnone : t.get (n :: p) = none :=
            not_not.mp fun hne => hex (FileTree.fileExists_iff.mpr hne)
          exact FileTree.get_mkdir_above hnone
            (FileTree.get_of_dir (FileTree.isDirectory_iff.mp hp))
        · rw [if_neg hp] at hmk
          exact absurd hmk Bool.false_ne_true
  · exact FileTree.get_mkdirs h q

theorem get_delete_pathString (hne : p ≠ []) (q : Path) :
    (File.delete t (pathString p)).get q =
      if q = p ∧ t.listFiles p = [] then none else t.get q := by
  cases p with
  | nil => exact absurd rfl hne
  | cons n p =>
      have hlast : (components (pathString (n :: p))).getLast? ≠ some .here := by
        rw [components_pathString, List.reverse_cons, List.map_append, List.getLast?_append]
        exact nofun
      rw [File.delete, locate_pathString]
      by_cases hp : t.isDirectory p = true
      · rw [if_pos hp]
        dsimp only
        rw [if_neg hlast, FileTree.get_delete]
        exact if_congr (and_congr_right fun _ => and_iff_right hne) rfl rfl
      · rw [if_neg hp]
        dsimp only
        split_ifs with hq
        · rw [hq.1]
          exact not_not.mp fun h => hp (FileTree.isDirectory_iff.mpr (FileTree.get_parent h))
        · rfl

/-! ### What a call leaves alone -/

theorem get_mkdirs_eq_or (q : Path) : (File.mkdirs t f).2.get q = t.get q ∨
    q <:+ canonicalPath f ∧ t.get q = none := by
  rw [File.mkdirs]
  split
  · exact .inl rfl
  split
  · rw [File.mkdir]
    cases hf : locate t f with
    | none => exact .inl rfl
    | some p =>
        refine FileTree.get_mkdir_eq_or.imp_right ?_
        rintro ⟨rfl, hnone⟩
        exact ⟨locate_eq_some hf ▸ List.suffix_rfl, hnone⟩
  split
  · exact FileTree.get_mkdirs_eq_or
  · exact .inl rfl

theorem get_createNewFile_of_ne {t' : FileSystem} (h : File.createNewFile t f = some t')
    (hq : q ≠ canonicalPath f) : t'.get q = t.get q := by
  obtain ⟨p, hp, h⟩ := Option.bind_eq_some_iff.mp h
  rw [FileTree.get_createNewFile h, if_neg]
  exact fun hqp => hq (hqp.1.trans (locate_eq_some hp))

theorem get_write_of_ne {t' : FileSystem} {content : Bytes} (h : File.write t content f = some t')
    (hq : q ≠ canonicalPath f) : t'.get q = t.get q := by
  obtain ⟨p, hp, h⟩ := Option.bind_eq_some_iff.mp h
  rw [FileTree.get_write h, if_neg]
  exact fun hqp => hq (hqp.trans (locate_eq_some hp))

theorem get_delete_of_ne (hq : q ≠ canonicalPath f) : (File.delete t f).get q = t.get q := by
  rw [File.delete]
  cases hf : locate t f with
  | none => rfl
  | some p =>
      dsimp only
      split
      · rfl
      · rw [FileTree.get_delete, if_neg]
        exact fun hqp => hq (hqp.1.trans (locate_eq_some hf))

end CodingSample.Dropbox
