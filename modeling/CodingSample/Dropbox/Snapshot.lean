import CodingSample.Dropbox.Maps

/-!
# Keys of relative homes

A `File` keeps its string without doubled slashes, and a relative one is completed with the working
directory when its absolute path is asked for. The key of an entry is cut out of that path behind the
first place at which the home string occurs.
-/

namespace CodingSample.Dropbox

/-! ### Strings -/

/-- Where `sub` occurs first, or `-1`. -/
def indexOf (s sub : JString) : Int :=
  match (List.range (s.length + 1)).find? fun i => sub.isPrefixOf (s.drop i) with
  | some i => i
  | none => -1

/-- Nothing where Java throws. -/
def substring (s : JString) (beginIndex : Int) : Option JString :=
  if 0 ≤ beginIndex ∧ beginIndex ≤ s.length then some (s.drop beginIndex.toNat) else none

namespace UnixFileSystem

/-- The words between slashes. -/
def parts (s : JString) : List JString := (s.splitOnP (· = slash)).filter (· ≠ [])

def joined (words : List JString) : JString := words.flatMap (slash :: ·)

/-- Doubled slashes and slashes at the end are removed. -/
def normalize (s : JString) : JString :=
  if parts s = [] then if s = [] then [] else [slash]
  else if s.head? = some slash then joined (parts s)
  else (joined (parts s)).tail

def resolve (parent child : JString) : JString :=
  if child = [] then parent
  else if child.head? = some slash then if parent = [slash] then child else parent ++ child
  else if parent = [slash] then parent ++ child
  else parent ++ slash :: child

/-- The property `user.dir`. -/
def userDir (cwd : Path) : JString := if cwd = [] then [slash] else pathString cwd

def absolutePath (cwd : Path) (f : JString) : JString :=
  if f.head? = some slash then f else resolve (userDir cwd) f

end UnixFileSystem

open UnixFileSystem

namespace Relative

/-- Where a `File` stands; the empty one stands nowhere. -/
def place (cwd : Path) (t : FileSystem) (f : JString) : Option Path :=
  if f = [] then none else locate t (absolutePath cwd f)

def isDirectory (cwd : Path) (t : FileSystem) (f : JString) : Bool :=
  (place cwd t f).any t.isDirectory

/-- Null where no directory stands. -/
def listFiles (cwd : Path) (t : FileSystem) (f : JString) : Option (List JString) :=
  match place cwd t f with
  | none => none
  | some p =>
      if t.isDirectory p then
        some ((t.listFiles p).filterMap fun q => q.head?.map fun n => resolve f n.1)
      else none

def getRelativeRootPath (cwd : Path) (home file : JString) : Option JString :=
  let absolute := absolutePath cwd file
  substring absolute (indexOf absolute home + home.length)

/-- The entry that is put for a file. -/
def putFile (cwd : Path) (t : FileSystem) (time : Times) (home file : JString)
    (curDirFileMap : HashMap DummyFile) : Option (HashMap DummyFile) := do
  let key ← getRelativeRootPath cwd home file
  some (AList.insert key ⟨isDirectory cwd t file, file, time file⟩ curDirFileMap)

/-- `depth` bounds the recursion. There is no result where an exception is thrown. -/
def buildFileMapRecursive (cwd : Path) (t : FileSystem) (time : Times) (home : JString) :
    Nat → JString → Option (HashMap DummyFile)
  | 0, _ => none
  | depth + 1, dir => do
      let files ← listFiles cwd t dir
      let curDirFileMap ← (if dir ≠ home then putFile cwd t time home dir ∅ else some ∅)
      files.foldlM (fun curDirFileMap file =>
        if isDirectory cwd t file then
          (buildFileMapRecursive cwd t time home depth file).map curDirFileMap.putAll
        else putFile cwd t time home file curDirFileMap) curDirFileMap

/-- `buildFileMap` of a home directory that is there. -/
def buildFileMap (cwd : Path) (t : FileSystem) (time : Times) (home : JString) :
    Option (HashMap DummyFile) :=
  buildFileMapRecursive cwd t time home (t.depth + 1) (normalize home)

end Relative

/-! ### Occurrences -/

variable {s sub p : JString} {i j : Nat}

theorem indexOf_cases (s sub : JString) :
    (∃ i : Nat, indexOf s sub = i ∧ i ≤ s.length ∧ sub <+: s.drop i ∧
      ∀ j < i, ¬sub <+: s.drop j) ∨
    indexOf s sub = -1 ∧ ∀ j ≤ s.length, ¬sub <+: s.drop j := by
  unfold indexOf
  cases hfind : (List.range (s.length + 1)).find? fun i => sub.isPrefixOf (s.drop i) with
  | some i =>
      obtain ⟨hoccurs, hmem, hbefore⟩ := List.find?_range_eq_some.mp hfind
      refine Or.inl ⟨i, rfl, Nat.le_of_lt_succ (List.mem_range.mp hmem),
        List.isPrefixOf_iff_prefix.mp hoccurs, fun j hj hoccurs => ?_⟩
      have := hbefore j hj
      rw [List.isPrefixOf_iff_prefix.mpr hoccurs] at this
      cases this
  | none =>
      refine Or.inr ⟨rfl, fun j hj hoccurs => ?_⟩
      have hnone := List.find?_eq_none.mp hfind j (List.mem_range.mpr (Nat.lt_succ_of_le hj))
      exact hnone (List.isPrefixOf_iff_prefix.mpr hoccurs)

theorem indexOf_eq (hi : i ≤ s.length) (h : sub <+: s.drop i)
    (hbefore : ∀ j < i, ¬sub <+: s.drop j) : indexOf s sub = i := by
  rcases indexOf_cases s sub with ⟨i', heq, -, hoccurs, hno⟩ | ⟨-, hno⟩
  · have h₁ : ¬i' < i := fun hlt => hbefore i' hlt hoccurs
    have h₂ : ¬i < i' := fun hlt => hno i hlt h
    omega
  · exact absurd h (hno i hi)

theorem indexOf_eq_neg_one (h : ∀ j ≤ s.length, ¬sub <+: s.drop j) : indexOf s sub = -1 := by
  rcases indexOf_cases s sub with ⟨i, -, hi, hoccurs, -⟩ | ⟨heq, -⟩
  · exact absurd hoccurs (h i hi)
  · exact heq

theorem prefix_drop_append (h : sub <+: s.drop j) : sub <+: (s ++ p).drop j := by
  rw [List.drop_append]
  exact h.trans (List.prefix_append _ _)

/-- An occurrence that ends in front of `p`. -/
theorem prefix_drop_of_append (hj : j + sub.length ≤ s.length) (h : sub <+: (s ++ p).drop j) :
    sub <+: s.drop j := by
  rw [List.drop_append_of_le_length (by omega)] at h
  refine List.prefix_of_prefix_length_le h (List.prefix_append _ _) ?_
  rw [List.length_drop]
  omega

/-- The first occurrence stays the first when the rest of the string is cut off behind it. -/
theorem indexOf_of_append (h : indexOf (s ++ p) sub + sub.length ≤ s.length) :
    indexOf s sub = indexOf (s ++ p) sub := by
  rcases indexOf_cases (s ++ p) sub with ⟨i, heq, -, hoccurs, hno⟩ | ⟨heq, hno⟩
  · rw [heq] at h ⊢
    exact indexOf_eq (by omega) (prefix_drop_of_append (by omega) hoccurs)
      fun j hj hj' => hno j hj (prefix_drop_append hj')
  · rw [heq]
    refine indexOf_eq_neg_one fun j hj hj' => hno j ?_ (prefix_drop_append hj')
    rw [List.length_append]
    omega

/-- What is cut out of a string is its end `p`. -/
theorem substring_append {n : Int} : substring (s ++ p) n = some p ↔ n = s.length := by
  rw [substring]
  constructor
  · intro h
    split_ifs at h with hn
    have hlength := congrArg List.length (Option.some.inj h)
    rw [List.length_drop, List.length_append] at hlength
    rw [List.length_append] at hn
    omega
  · rintro rfl
    rw [if_pos, Int.toNat_natCast, List.drop_left]
    rw [List.length_append]
    omega

/-! ### Normal strings -/

variable {words : List JString} {f f' : JString} {n : FileName} {rel rel' cwd base : Path}

theorem component_nil : component [] = none := rfl

theorem components_eq (f : JString) : components f = (parts f).filterMap component := by
  rw [components, parts]
  induction f.splitOnP (· = slash) with
  | nil => rfl
  | cons w words ih =>
      by_cases hw : w = []
      · subst w
        exact ih
      · have hcons : (w :: words).filter (· ≠ []) = w :: words.filter (· ≠ []) :=
          List.filter_cons_of_pos (decide_eq_true hw)
        rw [hcons, List.filterMap_cons, List.filterMap_cons, ih]

theorem parts_append : parts (f ++ slash :: f') = parts f ++ parts f' := by
  rw [parts, List.splitOnP_append_cons f f' (decide_eq_true rfl), List.filter_append]
  rfl

theorem parts_slash : parts (slash :: f) = parts f := parts_append (f := [])

theorem mem_parts {w : JString} (hw : w ∈ parts f) : w ≠ [] ∧ slash ∉ w := by
  obtain ⟨hmem, hne⟩ := List.mem_filter.mp hw
  refine ⟨of_decide_eq_true hne, fun hslash => ?_⟩
  have := forall_of_mem_splitOnP hmem slash hslash
  exact of_decide_eq_false this rfl

theorem parts_word {w : JString} (hw : w ≠ [] ∧ slash ∉ w) : parts w = [w] := by
  have hno : ∀ c ∈ w, decide (c = slash) = false :=
    fun c hc => decide_eq_false fun heq => hw.2 (heq ▸ hc)
  rw [parts, List.splitOnP_eq_singleton hno]
  exact List.filter_cons_of_pos (decide_eq_true hw.1)

theorem parts_joined (h : ∀ w ∈ words, w ≠ [] ∧ slash ∉ w) : parts (joined words) = words := by
  induction words with
  | nil => rfl
  | cons w words ih =>
      have hw := parts_word (h w List.mem_cons_self)
      have htail := ih fun w' hw' => h w' (List.mem_cons_of_mem w hw')
      have hjoined : joined (w :: words) = slash :: (w ++ joined words) := rfl
      rw [hjoined, parts_slash]
      cases words with
      | nil => rw [joined, List.flatMap_nil, List.append_nil, hw]
      | cons w' words =>
          have hcons : joined (w' :: words) = slash :: (w' ++ joined words) := rfl
          rw [hcons, parts_slash] at htail
          rw [hcons, parts_append, hw, htail]
          rfl

/-- The string has the words that it had. -/
theorem parts_normalize (f : JString) : parts (normalize f) = parts f := by
  have hwords : parts (joined (parts f)) = parts f := parts_joined fun w hw => mem_parts hw
  rw [UnixFileSystem.normalize]
  split_ifs with hnil hf hslash
  · rw [hf]
  · rw [hnil]
    rfl
  · exact hwords
  · cases hparts : parts f with
    | nil => exact absurd hparts hnil
    | cons w words =>
        rw [hparts] at hwords
        have hcons : joined (w :: words) = slash :: (joined (w :: words)).tail := rfl
        rw [hcons, parts_slash] at hwords
        exact hwords

theorem components_normalize (f : JString) : components (normalize f) = components f := by
  rw [components_eq, parts_normalize, ← components_eq]

theorem parts_ne_nil {c : UInt16} (hc : c ≠ slash) : parts (c :: f) ≠ [] := by
  rw [parts, List.splitOnP_cons_eq_if_modifyHead, if_neg fun h => hc (of_decide_eq_true h)]
  cases hsplit : f.splitOnP (· = slash) with
  | nil => exact absurd hsplit (List.splitOnP_ne_nil _ _)
  | cons w words => exact List.ne_nil_of_mem (List.mem_filter.mpr ⟨List.mem_cons_self, rfl⟩)

theorem head_normalize (f : JString) :
    (normalize f).head? = some slash ↔ f.head? = some slash := by
  rw [UnixFileSystem.normalize]
  split_ifs with hnil hf hslash
  · rw [hf]
  · refine iff_of_true rfl ?_
    cases f with
    | nil => exact absurd rfl hf
    | cons c f =>
        by_contra hc
        exact parts_ne_nil (fun heq => hc (heq ▸ rfl)) hnil
  · refine iff_of_true ?_ hslash
    cases hparts : parts f with
    | nil => exact absurd hparts hnil
    | cons w words => rfl
  · refine iff_of_false ?_ hslash
    cases hparts : parts f with
    | nil => exact absurd hparts hnil
    | cons w words =>
        have hw : w ≠ [] ∧ slash ∉ w := mem_parts (hparts ▸ List.mem_cons_self)
        cases w with
        | nil => exact absurd rfl hw.1
        | cons c w =>
            intro heq
            exact hw.2 (Option.some.inj heq ▸ List.mem_cons_self)

/-! ### Absolute paths -/

theorem components_slash : components (slash :: f) = components f := components_append (f := [])

theorem components_resolve (parent child : JString) :
    components (resolve parent child) = components parent ++ components child := by
  have hroot : components [slash] = [] := rfl
  rw [resolve]
  split_ifs with hchild hslash hparent hparent
  · rw [hchild]
    exact (List.append_nil _).symm
  · rw [hparent, hroot]
    rfl
  · obtain ⟨f, rfl⟩ := List.head?_eq_some_iff.mp hslash
    rw [components_append, components_slash]
  · rw [hparent, hroot]
    exact components_slash
  · exact components_append

theorem components_absolutePath (cwd : Path) (f : JString) : components (absolutePath cwd f) =
    if f.head? = some slash then components f
    else cwd.reverse.map Component.name ++ components f := by
  rw [absolutePath]
  split_ifs with hslash
  · rfl
  · rw [components_resolve, userDir]
    split_ifs with hcwd
    · rw [hcwd]
      rfl
    · rw [components_pathString]

theorem components_append_pathString (f : JString) (rel : Path) :
    components (f ++ pathString rel) = components f ++ rel.reverse.map Component.name := by
  induction rel with
  | nil => rw [pathString, List.append_nil, List.reverse_nil, List.map_nil, List.append_nil]
  | cons n rel ih =>
      rw [pathString, ← List.append_assoc, components_append, ih, components_name,
        List.reverse_cons, List.map_append, List.append_assoc]
      rfl

theorem foldl_enter_names (p rel : Path) :
    (rel.reverse.map Component.name).foldl enter p = rel ++ p := by
  induction rel with
  | nil => rfl
  | cons n rel ih =>
      rw [List.reverse_cons, List.map_append, List.foldl_append, ih]
      rfl

/-- A key that is put behind the string of a home directory leads below that directory. -/
theorem canonicalPath_receiver {home : JString} (hhome : home ≠ []) (cwd rel : Path) :
    canonicalPath (absolutePath cwd (normalize (home ++ pathString rel))) =
      rel ++ canonicalPath (absolutePath cwd (normalize home)) := by
  have hhead : (home ++ pathString rel).head? = home.head? := by
    cases home with
    | nil => exact absurd rfl hhome
    | cons c home => rfl
  have hcomponents : components (absolutePath cwd (normalize (home ++ pathString rel))) =
      components (absolutePath cwd (normalize home)) ++ rel.reverse.map Component.name := by
    rw [components_absolutePath, components_absolutePath, components_normalize,
      components_normalize, components_append_pathString]
    simp only [head_normalize, hhead]
    split_ifs with hslash
    · rfl
    · exact (List.append_assoc _ _ _).symm
  rw [canonicalPath, hcomponents, List.foldl_append, foldl_enter_names]
  rfl

theorem isValid_resolve {parent child : JString} :
    IsValid (resolve parent child) ↔ IsValid parent ∧ IsValid child := by
  rw [resolve]
  split_ifs with hchild hslash hparent hparent
  · simp [IsValid, hchild]
  · simp [IsValid, hparent, slash]
  · simp [IsValid]
  · simp [IsValid]
  · exact isValid_append

theorem isValid_absolutePath : IsValid (absolutePath cwd f) ↔ IsValid f := by
  have huserDir : IsValid (userDir cwd) := by
    rw [userDir]
    split_ifs
    · simp [IsValid, slash]
    · exact isValid_pathString
  rw [absolutePath]
  split_ifs
  · rfl
  · exact isValid_resolve.trans (and_iff_right huserDir)

/-! ### The entries below a directory -/

namespace Relative

variable {t : FileSystem} {h : JString}

/-- The `File` that a scan of `h` has for a path below it. -/
def entry (h : JString) : Path → JString
  | [] => h
  | n :: rel => resolve (entry h rel) n.1

theorem resolve_name (f : JString) (n : FileName) :
    resolve f n.1 = (if f = [slash] then [] else f) ++ slash :: n.1 := by
  have hslash : n.1.head? ≠ some slash := fun heq => n.2.2.1 (List.mem_of_head? heq)
  rw [resolve, if_neg n.2.1, if_neg hslash]
  split_ifs with hf
  · rw [hf]
    rfl
  · rfl

theorem entry_eq (hrel : rel ≠ []) :
    entry h rel = (if h = [slash] then [] else h) ++ pathString rel := by
  induction rel with
  | nil => exact absurd rfl hrel
  | cons n rel ih =>
      rw [entry, resolve_name]
      cases rel with
      | nil => rfl
      | cons m rel =>
          -- a name stands behind the last slash
          have hlong : entry h (m :: rel) ≠ [slash] := by
            intro heq
            rw [entry, resolve_name] at heq
            have hlength := congrArg List.length heq
            have hname := List.length_pos_of_ne_nil m.2.1
            rw [List.length_append, List.length_cons, List.length_singleton] at hlength
            omega
          rw [if_neg hlong, ih (List.cons_ne_nil m rel), List.append_assoc]
          rfl

theorem head_entry (hh : h ≠ []) : (entry h rel).head? = h.head? := by
  induction rel with
  | nil => rfl
  | cons n rel ih =>
      rw [entry, resolve_name]
      split_ifs with hslash
      · rw [hslash] at ih
        exact ih
      · cases hentry : entry h rel with
        | nil =>
          rw [hentry] at ih
          exact absurd (List.head?_eq_none_iff.mp ih.symm) hh
        | cons c f =>
          rw [hentry] at ih
          exact ih

theorem entry_ne_nil (hh : h ≠ []) : entry h rel ≠ [] := fun heq => by
  have hhead : (entry h rel).head? = h.head? := head_entry hh
  rw [heq] at hhead
  exact hh (List.head?_eq_none_iff.mp hhead.symm)

theorem place_resolve (hf : f ≠ []) : place cwd t (resolve f n.1) =
    (place cwd t f).bind fun p => if t.isDirectory p then some (n :: p) else none := by
  have hne : entry f [n] ≠ [] := entry_ne_nil hf
  have hhead : (entry f [n]).head? = f.head? := head_entry hf
  rw [entry, entry] at hne hhead
  have hcomponents : components (absolutePath cwd (resolve f n.1)) =
      components (absolutePath cwd f) ++ [.name n] := by
    rw [components_absolutePath, components_absolutePath, hhead, components_resolve,
      components_name]
    split_ifs
    · rfl
    · exact (List.append_assoc _ _ _).symm
  rw [place, if_neg hne, place, if_neg hf, locate, locate, hcomponents]
  simp only [isValid_absolutePath, isValid_resolve]
  by_cases hvalid : IsValid f
  · rw [if_pos ⟨hvalid, n.2.2.2.1⟩, if_pos hvalid, walk_append]
    rfl
  · rw [if_neg fun h => hvalid h.1, if_neg hvalid]
    rfl

section

variable (hplace : place cwd t h = some base)
include hplace

theorem ne_nil_of_place : h ≠ [] := by
  rintro rfl
  cases hplace

theorem place_entry (hget : t.get (rel ++ base) ≠ none) :
    place cwd t (entry h rel) = some (rel ++ base) := by
  induction rel with
  | nil => exact hplace
  | cons n rel ih =>
      have hdir : t.get (rel ++ base) = some .dir := FileTree.get_parent hget
      rw [entry, place_resolve (entry_ne_nil (ne_nil_of_place hplace)),
        ih (hdir.trans_ne (Option.some_ne_none _)), Option.bind_some,
        if_pos (FileTree.isDirectory_iff.mpr hdir)]
      rfl

theorem isDirectory_entry (hget : t.get (rel ++ base) ≠ none) :
    isDirectory cwd t (entry h rel) = t.isDirectory (rel ++ base) := by
  rw [isDirectory, place_entry hplace hget]
  rfl

theorem listFiles_entry (hdir : t.get (rel ++ base) = some .dir) :
    ∃ files, listFiles cwd t (entry h rel) = some files ∧
      ∀ f, f ∈ files ↔ ∃ n, f = entry h (n :: rel) ∧ t.get (n :: rel ++ base) ≠ none := by
  rw [listFiles, place_entry hplace (hdir.trans_ne (Option.some_ne_none _))]
  refine ⟨_, if_pos (FileTree.isDirectory_iff.mpr hdir), fun f => ?_⟩
  rw [List.mem_filterMap]
  constructor
  · rintro ⟨q, hq, hf⟩
    obtain ⟨⟨n, rfl⟩, hne⟩ := FileTree.mem_listFiles.mp hq
    exact ⟨n, (Option.some.inj hf).symm, hne⟩
  · rintro ⟨n, rfl, hne⟩
    exact ⟨n :: rel ++ base, FileTree.mem_listFiles.mpr ⟨⟨n, rfl⟩, hne⟩, rfl⟩

end

theorem canonicalPath_entry : canonicalPath (entry h rel) = rel ++ canonicalPath h := by
  induction rel with
  | nil => rfl
  | cons n rel ih =>
      rw [entry, canonicalPath, components_resolve, List.foldl_append, components_name]
      exact congrArg (List.cons n) ih

theorem entry_injective : Function.Injective (entry h) := fun rel rel' heq => by
  have hcanonical := congrArg canonicalPath heq
  rw [canonicalPath_entry, canonicalPath_entry] at hcanonical
  exact List.append_cancel_right hcanonical

/-! ### A scan -/

/-- Every entry of the map is that of a path in `s`, and every path in `s` has a key in the map. -/
structure Covers (key : Path → Option JString) (mk : Path → DummyFile) (m : HashMap DummyFile)
    (s : Set Path) : Prop where
  sound : ∀ k v, m.lookup k = some v → ∃ rel ∈ s, key rel = some k ∧ v = mk rel
  complete : ∀ rel ∈ s, ∃ k v, key rel = some k ∧ m.lookup k = some v

/-- A map that covers `s`, or a path in `s` without a key. -/
def Gathers (key : Path → Option JString) (mk : Path → DummyFile) :
    Option (HashMap DummyFile) → Set Path → Prop
  | some m, s => Covers key mk m s
  | none, s => ∃ rel ∈ s, key rel = none

section

variable {key : Path → Option JString} {mk : Path → DummyFile} {m m' : HashMap DummyFile}
  {s s' : Set Path} {r : Option (HashMap DummyFile)}

theorem Covers.empty : Covers key mk ∅ ∅ where
  sound _ _ := nofun
  complete _ := nofun

theorem Covers.insert {k : JString} (hm : Covers key mk m s) (hk : key rel = some k) :
    Covers key mk (AList.insert k (mk rel) m) (s ∪ {rel}) where
  sound k' v hv := by
    rw [HashMap.lookup_insert] at hv
    split_ifs at hv with heq
    · exact ⟨rel, .inr rfl, heq ▸ hk, (Option.some.inj hv).symm⟩
    · obtain ⟨rel', hrel', hkv⟩ := hm.sound k' v hv
      exact ⟨rel', .inl hrel', hkv⟩
  complete rel' hrel' := by
    rcases hrel' with hrel' | rfl
    · obtain ⟨k', v, hk', hv⟩ := hm.complete rel' hrel'
      by_cases heq : k' = k
      · exact ⟨k', mk rel, hk', (HashMap.lookup_insert m k k' _).trans (if_pos heq)⟩
      · exact ⟨k', v, hk', (HashMap.lookup_insert m k k' _).trans ((if_neg heq).trans hv)⟩
    · exact ⟨k, mk rel', hk, (HashMap.lookup_insert m k k _).trans (if_pos rfl)⟩

theorem Covers.putAll (hm : Covers key mk m s) (hm' : Covers key mk m' s') :
    Covers key mk (m.putAll m') (s ∪ s') where
  sound k v hv := by
    rw [HashMap.lookup_putAll] at hv
    rcases Option.or_eq_some_iff.mp hv with hv | ⟨-, hv⟩
    · obtain ⟨rel, hrel, hkv⟩ := hm'.sound k v hv
      exact ⟨rel, .inr hrel, hkv⟩
    · obtain ⟨rel, hrel, hkv⟩ := hm.sound k v hv
      exact ⟨rel, .inl hrel, hkv⟩
  complete rel hrel := by
    have hmem : ∃ k v, key rel = some k ∧ (m'.lookup k = some v ∨ m.lookup k = some v) := by
      rcases hrel with hrel | hrel
      · obtain ⟨k, v, hk, hv⟩ := hm.complete rel hrel
        exact ⟨k, v, hk, .inr hv⟩
      · obtain ⟨k, v, hk, hv⟩ := hm'.complete rel hrel
        exact ⟨k, v, hk, .inl hv⟩
    obtain ⟨k, v, hk, hv⟩ := hmem
    have hsome : ((m'.lookup k).or (m.lookup k)).isSome := by
      rcases hv with hv | hv
      · rw [hv]
        rfl
      · rw [hv]
        cases m'.lookup k <;> rfl
    obtain ⟨v', hv'⟩ := Option.isSome_iff_exists.mp hsome
    exact ⟨k, v', hk, HashMap.lookup_putAll.trans hv'⟩

theorem Gathers.bind {f : HashMap DummyFile → Option (HashMap DummyFile)}
    (hr : Gathers key mk r s) (hf : ∀ m, Covers key mk m s → Gathers key mk (f m) (s ∪ s')) :
    Gathers key mk (r.bind f) (s ∪ s') := by
  cases r with
  | none =>
      obtain ⟨rel, hrel, hkey⟩ := hr
      exact ⟨rel, .inl hrel, hkey⟩
  | some m => exact hf m hr

/-- What is put under the key of a path. -/
theorem Covers.put (hm : Covers key mk m s) (rel : Path) :
    Gathers key mk ((key rel).map fun k => AList.insert k (mk rel) m) (s ∪ {rel}) := by
  cases hkey : key rel with
  | none => exact ⟨rel, .inr rfl, hkey⟩
  | some k => exact hm.insert hkey

theorem Covers.putAllOf (hm : Covers key mk m s) (hr : Gathers key mk r s') :
    Gathers key mk (r.map m.putAll) (s ∪ s') := by
  cases r with
  | none =>
      obtain ⟨rel, hrel, hkey⟩ := hr
      exact ⟨rel, .inr hrel, hkey⟩
  | some m' => exact hm.putAll hr

theorem Covers.foldlM {f : HashMap DummyFile → JString → Option (HashMap DummyFile)}
    {l : List JString} (S : JString → Set Path) (hm : Covers key mk m s)
    (hstep : ∀ a ∈ l, ∀ m s, Covers key mk m s → Gathers key mk (f m a) (s ∪ S a)) :
    Gathers key mk (l.foldlM f m) (s ∪ {rel | ∃ a ∈ l, rel ∈ S a}) := by
  induction l generalizing m s with
  | nil =>
      have hset : s ∪ {rel | ∃ a ∈ ([] : List JString), rel ∈ S a} = s := by simp
      rw [hset]
      exact hm
  | cons a l ih =>
      have hset : s ∪ {rel | ∃ b ∈ a :: l, rel ∈ S b} =
          s ∪ S a ∪ {rel | ∃ b ∈ l, rel ∈ S b} := by
        ext rel
        simp only [Set.mem_union, Set.mem_ofPred_eq, List.exists_mem_cons_iff, or_assoc]
      rw [List.foldlM_cons, hset]
      refine (hstep a List.mem_cons_self m s hm).bind fun m' hm' => ?_
      exact ih hm' fun b hb => hstep b (List.mem_cons_of_mem a hb)

end

/-- What a scan of the home directory records of a path. -/
def entryFile (t : FileSystem) (time : Times) (home : JString) (base rel : Path) : DummyFile :=
  let f := entry (normalize home) rel
  ⟨t.isDirectory (rel ++ base), f, time f⟩

/-- The key of a path. -/
def entryKey (cwd : Path) (home : JString) (rel : Path) : Option JString :=
  getRelativeRootPath cwd home (entry (normalize home) rel)

/-- The paths at and below `dir` for which a scan puts an entry. -/
def scanned (t : FileSystem) (home : JString) (base dir : Path) : Set Path :=
  {rel | entry (normalize home) rel ≠ home ∧ dir <:+ rel ∧ t.get (rel ++ base) ≠ none}

variable {time : Times} {home : JString} {dir : Path}

theorem entry_ne_home (hrel : rel ≠ []) : entry (normalize home) rel ≠ home := fun heq => by
  have hcanonical := congrArg canonicalPath heq
  have hhome : canonicalPath (normalize home) = canonicalPath home := by
    rw [canonicalPath, components_normalize, canonicalPath]
  rw [canonicalPath_entry, hhome] at hcanonical
  exact hrel (List.append_left_eq_self.mp hcanonical)

/-- Nothing is below what is no directory. -/
theorem get_eq_none (hsuf : dir <:+ rel) (hne : dir ≠ rel) (hdir : t.get (dir ++ base) ≠ some .dir) :
    t.get (rel ++ base) = none :=
  FileTree.get_eq_none (List.suffix_append_self_iff.mpr hsuf)
    (fun heq => hne (List.append_cancel_right heq)) hdir

theorem scanned_eq : scanned t home base rel =
    {r | r = rel ∧ entry (normalize home) r ≠ home ∧ t.get (rel ++ base) ≠ none} ∪
    {r | ∃ n : FileName, t.get (n :: rel ++ base) ≠ none ∧
      r ∈ scanned t home base (n :: rel)} := by
  ext r
  constructor
  · rintro ⟨hne, hsuf, hget⟩
    rcases suffix_iff_child.mp hsuf with rfl | ⟨n, hn⟩
    · exact .inl ⟨rfl, hne, hget⟩
    · refine .inr ⟨n, fun hnone => hget ?_, hne, hn, hget⟩
      by_cases heq : n :: rel = r
      · exact heq ▸ hnone
      · exact get_eq_none hn heq (hnone ▸ nofun)
  · rintro (⟨rfl, hne, hget⟩ | ⟨n, -, hne, hn, hget⟩)
    · exact ⟨hne, List.suffix_rfl, hget⟩
    · exact ⟨hne, (List.suffix_cons n _).trans hn, hget⟩

theorem scanned_file (hfile : t.get (rel ++ base) ≠ some .dir) (hrel : rel ≠ [])
    (hget : t.get (rel ++ base) ≠ none) : scanned t home base rel = {rel} := by
  ext r
  constructor
  · rintro ⟨-, hsuf, hr⟩
    by_contra hnot
    exact hr (get_eq_none hsuf (fun heq => hnot heq.symm) hfile)
  · rintro rfl
    exact ⟨entry_ne_home hrel, List.suffix_rfl, hget⟩

section

variable (hplace : place cwd t (normalize home) = some base)
include hplace

theorem putFile_entry {m : HashMap DummyFile} (hget : t.get (rel ++ base) ≠ none) :
    putFile cwd t time home (entry (normalize home) rel) m =
      (entryKey cwd home rel).map fun k =>
        AList.insert k (entryFile t time home base rel) m := by
  rw [putFile, isDirectory_entry hplace hget, entryKey]
  cases getRelativeRootPath cwd home (entry (normalize home) rel) <;> rfl

/-- What the map has before the files of a directory are looked at. -/
theorem gathers_self (hget : t.get (rel ++ base) ≠ none) :
    Gathers (entryKey cwd home) (entryFile t time home base)
      (if entry (normalize home) rel ≠ home then
        putFile cwd t time home (entry (normalize home) rel) ∅ else some ∅)
      {r | r = rel ∧ entry (normalize home) r ≠ home ∧ t.get (rel ++ base) ≠ none} := by
  split_ifs with hne
  · have hset : {r | r = rel ∧ entry (normalize home) r ≠ home ∧ t.get (rel ++ base) ≠ none} =
        ∅ ∪ {rel} := by
      ext r
      constructor
      · rintro ⟨rfl, -⟩
        exact .inr rfl
      · rintro (⟨⟨⟩⟩ | rfl)
        exact ⟨rfl, hne, hget⟩
    rw [hset, putFile_entry hplace hget]
    exact Covers.empty.put rel
  · have hset : {r | r = rel ∧ entry (normalize home) r ≠ home ∧ t.get (rel ++ base) ≠ none} =
        ∅ := by
      refine Set.eq_empty_iff_forall_notMem.mpr ?_
      rintro r ⟨rfl, hr, -⟩
      exact hne hr
    rw [hset]
    exact Covers.empty

theorem gathers_buildFileMapRecursive {depth : Nat} (hdir : t.get (rel ++ base) = some .dir)
    (hdepth : t.depth < (rel ++ base).length + depth) :
    Gathers (entryKey cwd home) (entryFile t time home base)
      (buildFileMapRecursive cwd t time home depth (entry (normalize home) rel))
      (scanned t home base rel) := by
  induction depth generalizing rel with
  | zero =>
      have := FileTree.length_le_depth (hdir.trans_ne (Option.some_ne_none _))
      omega
  | succ depth ih =>
      obtain ⟨files, hfiles, hmem⟩ := listFiles_entry hplace hdir
      have hset : {r | ∃ f ∈ files, r ∈ {r | ∃ n : FileName, f = entry (normalize home) (n :: rel) ∧
            r ∈ scanned t home base (n :: rel)}} =
          {r | ∃ n : FileName, t.get (n :: rel ++ base) ≠ none ∧
            r ∈ scanned t home base (n :: rel)} := by
        ext r
        constructor
        · rintro ⟨f, hf, n, rfl, hr⟩
          obtain ⟨m, hm, hget⟩ := (hmem _).mp hf
          rw [← entry_injective hm] at hget
          exact ⟨n, hget, hr⟩
        · rintro ⟨n, hget, hr⟩
          exact ⟨_, (hmem _).mpr ⟨n, rfl, hget⟩, n, rfl, hr⟩
      rw [buildFileMapRecursive, hfiles, scanned_eq, ← hset]
      refine (gathers_self hplace (hdir.trans_ne (Option.some_ne_none _))).bind fun m hm => ?_
      refine hm.foldlM _ fun f hf m s hm => ?_
      obtain ⟨n, rfl, hget⟩ := (hmem f).mp hf
      have hchild : {r | ∃ n' : FileName,
            entry (normalize home) (n :: rel) = entry (normalize home) (n' :: rel) ∧
            r ∈ scanned t home base (n' :: rel)} = scanned t home base (n :: rel) := by
        ext r
        constructor
        · rintro ⟨n', hn', hr⟩
          rw [entry_injective hn']
          exact hr
        · exact fun hr => ⟨n, rfl, hr⟩
      rw [hchild, isDirectory_entry hplace hget]
      split
      · rename_i hisDir
        refine hm.putAllOf (ih (FileTree.isDirectory_iff.mp hisDir) ?_)
        simp only [List.cons_append, List.length_cons] at hdepth ⊢
        omega
      · rename_i hfile
        rw [scanned_file (fun h => hfile (FileTree.isDirectory_iff.mpr h)) (List.cons_ne_nil n rel)
          hget, putFile_entry hplace hget]
        exact hm.put (n :: rel)

theorem gathers_buildFileMap (hdir : t.get base = some .dir) :
    Gathers (entryKey cwd home) (entryFile t time home base) (buildFileMap cwd t time home)
      (scanned t home base []) := by
  have hroot : t.get ([] ++ base) = some .dir := hdir
  have hdepth : t.depth < ([] ++ base).length + (t.depth + 1) := by omega
  exact gathers_buildFileMapRecursive hplace hroot hdepth

end

/-! ### Snapshots -/

/-- The files and directories below the home directory. -/
def strictlyBelow (t : FileSystem) (base : Path) : Set Path :=
  {rel | rel ≠ [] ∧ t.get (rel ++ base) ≠ none}

/-- The map has each file below the home directory under its path, nothing for the home directory,
and its keys lead below the home directory of whoever receives them. -/
structure IsSnapshot (t : FileSystem) (time : Times) (home : JString) (base : Path)
    (m : HashMap DummyFile) : Prop where
  keys : Set.BijOn pathString (strictlyBelow t base) {k | k ∈ m}
  entries : ∀ rel ∈ strictlyBelow t base,
    m.lookup (pathString rel) = some (entryFile t time home base rel)
  home_without : ∀ k v, m.lookup k = some v → v.file ≠ normalize home
  received : ∀ k v, m.lookup k = some v → ∃ rel ∈ strictlyBelow t base,
    v.file = entry (normalize home) rel ∧ ∀ cwd' home', home' ≠ [] →
      canonicalPath (absolutePath cwd' (normalize (home' ++ k))) =
        rel ++ canonicalPath (absolutePath cwd' (normalize home'))

/-- The home string does not occur in its absolute path before the end. -/
def OccursLast (cwd : Path) (home : JString) : Prop :=
  ∀ i, i + home.length < (absolutePath cwd home).length →
    ¬home <+: (absolutePath cwd home).drop i

theorem isSnapshot_iff {m : HashMap DummyFile} :
    IsSnapshot t time home base m ↔ Maps (entryFile t time home base) m (strictlyBelow t base) := by
  constructor
  · intro h k v
    constructor
    · intro hv
      have hk : k ∈ m := AList.lookup_isSome.mp (Option.isSome_iff_exists.mpr ⟨v, hv⟩)
      obtain ⟨rel, hrel, rfl⟩ := h.keys.surjOn hk
      exact ⟨rel, hrel, rfl, Option.some.inj (hv.symm.trans (h.entries rel hrel))⟩
    · rintro ⟨rel, hrel, rfl, rfl⟩
      exact h.entries rel hrel
  · intro h
    have hentries : ∀ rel ∈ strictlyBelow t base,
        m.lookup (pathString rel) = some (entryFile t time home base rel) :=
      fun rel hrel => (h _ _).mpr ⟨rel, hrel, rfl, rfl⟩
    refine ⟨⟨fun rel hrel => ?_, pathString_injective.injOn, fun k hk => ?_⟩, hentries,
      fun k v hv => ?_, fun k v hv => ?_⟩
    · exact AList.lookup_isSome.mp (hentries rel hrel ▸ rfl)
    · obtain ⟨v, hv⟩ := Option.isSome_iff_exists.mp (AList.lookup_isSome.mpr hk)
      obtain ⟨rel, hrel, rfl, -⟩ := (h k v).mp hv
      exact ⟨rel, hrel, rfl⟩
    · obtain ⟨rel, hrel, -, rfl⟩ := (h k v).mp hv
      exact fun heq => hrel.1 (entry_injective (heq : _ = entry (normalize home) []))
    · obtain ⟨rel, hrel, rfl, rfl⟩ := (h k v).mp hv
      exact ⟨rel, hrel, rfl, fun cwd' home' hhome' => canonicalPath_receiver hhome' cwd' rel⟩

theorem entryFile_injective : Function.Injective (entryFile t time home base) :=
  fun _ _ heq => entry_injective (congrArg DummyFile.file heq)

theorem scanned_nil (hhome : normalize home = home) :
    scanned t home base [] = strictlyBelow t base := by
  ext rel
  constructor
  · rintro ⟨hne, -, hget⟩
    refine ⟨?_, hget⟩
    rintro rfl
    exact hne hhome
  · rintro ⟨hrel, hget⟩
    exact ⟨entry_ne_home hrel, List.nil_suffix, hget⟩

theorem maps_of_keys {r : Option (HashMap DummyFile)} {key : Path → Option JString}
    {mk : Path → DummyFile} {s : Set Path} (hr : Gathers key mk r s)
    (hkey : ∀ rel ∈ s, key rel = some (pathString rel)) : ∃ m, r = some m ∧ Maps mk m s := by
  cases r with
  | none =>
      obtain ⟨rel, hrel, hnone⟩ := hr
      cases hnone.symm.trans (hkey rel hrel)
  | some m =>
      have hm : Covers key mk m s := hr
      refine ⟨m, rfl, fun k v => ⟨fun hv => ?_, ?_⟩⟩
      · obtain ⟨rel, hrel, hk, rfl⟩ := hm.sound k v hv
        exact ⟨rel, hrel, Option.some.inj (hk.symm.trans (hkey rel hrel)), rfl⟩
      · rintro ⟨rel, hrel, rfl, rfl⟩
        obtain ⟨k, v, hk, hv⟩ := hm.complete rel hrel
        obtain rfl := Option.some.inj ((hkey rel hrel).symm.trans hk)
        obtain ⟨rel', hrel', hk', rfl⟩ := hm.sound _ _ hv
        obtain rfl := pathString_injective
          (Option.some.inj ((hkey rel' hrel').symm.trans hk'))
        exact hv

theorem keys_of_maps {m : HashMap DummyFile} {key : Path → Option JString}
    {mk : Path → DummyFile} {s s' : Set Path} (hmk : Function.Injective mk)
    (hm : Covers key mk m s) (h : Maps mk m s') :
    (∀ rel ∈ s', key rel = some (pathString rel)) ∧
      ∀ rel ∈ s, ∃ rel' ∈ s', key rel = some (pathString rel') := by
  constructor
  · intro rel hrel
    obtain ⟨rel', -, hk, heq⟩ := hm.sound _ _ ((h _ _).mpr ⟨rel, hrel, rfl, rfl⟩)
    rw [hmk heq]
    exact hmk heq ▸ hk
  · intro rel hrel
    obtain ⟨k, v, hk, hv⟩ := hm.complete rel hrel
    obtain ⟨rel', hrel', rfl, -⟩ := (h k v).mp hv
    exact ⟨rel', hrel', hk⟩

theorem absolutePath_entry (hh : h ≠ []) (hrel : rel ≠ []) : absolutePath cwd (entry h rel) =
    (if h = [slash] then [] else absolutePath cwd h) ++ pathString rel := by
  rw [absolutePath, absolutePath, head_entry hh]
  by_cases hslash : h.head? = some slash
  · rw [if_pos hslash, if_pos hslash]
    exact entry_eq hrel
  · have hroot : h ≠ [slash] := fun heq => hslash (heq ▸ rfl)
    have hhead : (entry h rel).head? ≠ some slash := head_entry hh ▸ hslash
    rw [if_neg hslash, if_neg hslash, if_neg hroot, resolve, if_neg (entry_ne_nil hh),
      if_neg hhead, resolve, if_neg hh, if_neg hslash, entry_eq hrel, if_neg hroot]
    split_ifs
    · exact (List.append_assoc _ _ _).symm
    · exact (List.append_assoc (userDir cwd) (slash :: h) _).symm

/-- An absolute path ends in the string of the file. -/
theorem suffix_absolutePath (hh : h ≠ []) : h <:+ absolutePath cwd h := by
  rw [absolutePath]
  split_ifs with hslash
  · exact List.suffix_rfl
  · rw [resolve, if_neg hh, if_neg hslash]
    split_ifs
    · exact List.suffix_append _ _
    · exact (List.suffix_cons _ _).trans (List.suffix_append _ _)

/-- A path has the right key when the home string occurs first at the end of its directory. -/
theorem entryKey_iff (hh : normalize home ≠ []) (hrel : rel ≠ []) :
    entryKey cwd home rel = some (pathString rel) ↔
      indexOf ((if normalize home = [slash] then [] else absolutePath cwd (normalize home)) ++
          pathString rel) home + home.length =
        (if normalize home = [slash] then [] else absolutePath cwd (normalize home)).length := by
  rw [entryKey, getRelativeRootPath, absolutePath_entry hh hrel]
  exact substring_append

theorem head_pathString (hrel : rel ≠ []) : (pathString rel).head? = some slash := by
  have hentry : entry [slash] rel = pathString rel := entry_eq hrel
  rw [← hentry, head_entry (List.cons_ne_nil slash [])]
  rfl

theorem entryKey_root (hroot : normalize home = [slash]) (hrel : rel ≠ []) :
    entryKey cwd home rel ≠ some (pathString rel) := by
  intro hkey
  have hhead : home.head? = some slash := (head_normalize home).mp (hroot ▸ rfl)
  obtain ⟨tail, rfl⟩ := List.head?_eq_some_iff.mp hhead
  obtain ⟨path, hpath⟩ := List.head?_eq_some_iff.mp (head_pathString hrel)
  rw [entryKey_iff (hroot ▸ List.cons_ne_nil slash []) hrel, if_pos hroot, List.nil_append, hpath,
    List.length_nil, List.length_cons] at hkey
  rcases indexOf_cases (slash :: path) (slash :: tail) with ⟨i, heq, -⟩ | ⟨heq, hno⟩
  · rw [heq] at hkey
    omega
  · have htail : tail = [] := List.length_eq_zero_iff.mp (by rw [heq] at hkey; omega)
    rw [htail] at hno
    exact hno 0 (Nat.zero_le _) ⟨path, rfl⟩

/-- The home directory then has the empty key. -/
theorem entryKey_home (hh : normalize home ≠ []) (hroot : normalize home ≠ [slash])
    (hrel : rel ≠ []) (hkey : entryKey cwd home rel = some (pathString rel)) :
    entryKey cwd home [] = some [] := by
  rw [entryKey_iff hh hrel, if_neg hroot] at hkey
  rw [entryKey, getRelativeRootPath, entry, indexOf_of_append hkey.le, hkey]
  have hend := substring_append (s := absolutePath cwd (normalize home)) (p := [])
    (n := (absolutePath cwd (normalize home)).length)
  rw [List.append_nil] at hend
  exact hend.mpr rfl

theorem entryKey_normal (hhome : normalize home = home) (hh : home ≠ []) (hroot : home ≠ [slash])
    (hrel : rel ≠ []) :
    entryKey cwd home rel = some (pathString rel) ↔ OccursLast cwd home := by
  rw [entryKey_iff (hhome.trans_ne hh) hrel, hhome, if_neg hroot, OccursLast]
  obtain ⟨above, habove⟩ : home <:+ absolutePath cwd home := suffix_absolutePath hh
  rw [← habove, List.length_append]
  constructor
  · intro hkey i hi hoccurs
    rcases indexOf_cases (above ++ home ++ pathString rel) home with
      ⟨j, heq, -, -, hno⟩ | ⟨heq, -⟩
    · exact hno i (by omega) (prefix_drop_append hoccurs)
    · omega
  · intro hlast
    have hfirst : indexOf (above ++ home ++ pathString rel) home = above.length := by
      refine indexOf_eq ?_ (prefix_drop_append ?_) fun j hj hoccurs => ?_
      · rw [List.length_append, List.length_append]
        omega
      · rw [List.drop_left]
      · refine hlast j (by omega) (prefix_drop_of_append ?_ hoccurs)
        rw [List.length_append]
        omega
    rw [hfirst]
    push_cast
    rfl

/-- No snapshot gives an entry to the home directory. -/
theorem normal_of_maps {m : HashMap DummyFile} (hh : normalize home ≠ [])
    (hm : Covers (entryKey cwd home) (entryFile t time home base) m (scanned t home base []))
    (hdir : t.get base = some .dir)
    (h : Maps (entryFile t time home base) m (strictlyBelow t base)) : normalize home = home := by
  obtain ⟨hkeys, hscanned⟩ := keys_of_maps entryFile_injective hm h
  by_contra hnot
  have hself : [] ∈ scanned t home base [] :=
    ⟨hnot, List.suffix_rfl, (hdir.trans_ne (Option.some_ne_none _) :)⟩
  obtain ⟨rel, hrel, hkey⟩ := hscanned [] hself
  by_cases hroot : normalize home = [slash]
  · exact entryKey_root hroot hrel.1 (hkeys rel hrel)
  · rw [entryKey_home hh hroot hrel.1 (hkeys rel hrel)] at hkey
    exact hrel.1 (pathString_injective (Option.some.inj hkey).symm)

theorem maps_iff (hplace : place cwd t (normalize home) = some base)
    (hdir : t.get base = some .dir) :
    (∃ m, buildFileMap cwd t time home = some m ∧
      Maps (entryFile t time home base) m (strictlyBelow t base)) ↔
    normalize home = home ∧
      (strictlyBelow t base = ∅ ∨ home ≠ [slash] ∧ OccursLast cwd home) := by
  have hh := ne_nil_of_place hplace
  have hgathers : Gathers (entryKey cwd home) (entryFile t time home base)
      (buildFileMap cwd t time home) (scanned t home base []) := gathers_buildFileMap hplace hdir
  constructor
  · rintro ⟨m, hbuild, hm⟩
    rw [hbuild] at hgathers
    have hhome := normal_of_maps hh hgathers hdir hm
    refine ⟨hhome, ?_⟩
    rcases Set.eq_empty_or_nonempty (strictlyBelow t base) with hempty | ⟨rel, hrel⟩
    · exact .inl hempty
    · have hkey := (keys_of_maps entryFile_injective hgathers hm).1 rel hrel
      have hroot : home ≠ [slash] :=
        fun heq => entryKey_root (hhome.trans heq) hrel.1 hkey
      exact .inr ⟨hroot, (entryKey_normal hhome (hhome ▸ hh) hroot hrel.1).mp hkey⟩
  · rintro ⟨hhome, hkeys⟩
    rw [← scanned_nil hhome]
    refine maps_of_keys hgathers fun rel hrel => ?_
    rw [scanned_nil hhome] at hrel
    rcases hkeys with hempty | ⟨hroot, hlast⟩
    · rw [hempty] at hrel
      cases hrel
    · exact (entryKey_normal hhome (hhome ▸ hh) hroot hrel.1).mpr hlast

/-! ### The strings of paths -/

theorem parts_pathString (p : Path) : parts (pathString p) = p.reverse.map Subtype.val := by
  induction p with
  | nil => rfl
  | cons n p ih =>
      rw [pathString, parts_append, ih, parts_word ⟨n.2.1, n.2.2.1⟩, List.reverse_cons,
        List.map_append]
      rfl

theorem joined_reverse (p : Path) : joined (p.reverse.map Subtype.val) = pathString p := by
  induction p with
  | nil => rfl
  | cons n p ih =>
      have hlast : joined ([n].map Subtype.val) = slash :: n.1 := List.append_nil _
      rw [List.reverse_cons, List.map_append, joined, List.flatMap_append]
      exact congrArg₂ _ ih hlast

theorem normalize_pathString (hrel : rel ≠ []) :
    normalize (pathString rel) = pathString rel := by
  have hparts : parts (pathString rel) ≠ [] := by
    rw [parts_pathString]
    exact fun h => hrel (List.reverse_eq_nil_iff.mp (List.map_eq_nil_iff.mp h))
  rw [UnixFileSystem.normalize, if_neg hparts, if_pos (head_pathString hrel), parts_pathString,
    joined_reverse]

theorem pathString_ne_root (hbase : base ≠ []) : pathString base ≠ [slash] := by
  intro heq
  have hcomponents := congrArg components heq
  rw [components_pathString] at hcomponents
  exact hbase (List.reverse_eq_nil_iff.mp (List.map_eq_nil_iff.mp hcomponents))

theorem entry_pathString (hbase : base ≠ []) :
    entry (pathString base) rel = pathString (rel ++ base) := by
  cases rel with
  | nil => rfl
  | cons n rel =>
      rw [entry_eq (List.cons_ne_nil n rel), if_neg (pathString_ne_root hbase), pathString_append]

/-- For the string of a path nothing depends on the working directory. -/
theorem buildFileMap_pathString (hbase : base ≠ []) (hdir : t.get base = some .dir) (k : JString) :
    (buildFileMap cwd t time (pathString base)).map (AList.lookup k) =
      some ((DropboxFileManager.buildFileMap t time (pathString base)).lookup k) := by
  have hnormal := normalize_pathString hbase
  have habsolute : absolutePath cwd (pathString base) = pathString base :=
    if_pos (head_pathString hbase)
  have hne : pathString base ≠ [] := fun heq => by
    have hhead := head_pathString hbase
    rw [heq] at hhead
    cases hhead
  have hplace : place cwd t (normalize (pathString base)) = some base := by
    rw [hnormal, place, if_neg hne, habsolute,
      locate_of_get (hdir.trans_ne (Option.some_ne_none _))]
  have hlast : OccursLast cwd (pathString base) := by
    intro i hi
    rw [habsolute] at hi
    omega
  obtain ⟨m, hbuild, hm⟩ : ∃ m, buildFileMap cwd t time (pathString base) = some m ∧
      Maps (entryFile t time (pathString base) base) m (strictlyBelow t base) :=
    (maps_iff hplace hdir).mpr ⟨hnormal, .inr ⟨pathString_ne_root hbase, hlast⟩⟩
  have hmk : entryFile t time (pathString base) base = dummyFile t time base := by
    ext1 rel
    rw [entryFile, hnormal, entry_pathString hbase]
    rfl
  have hset : strictlyBelow t base = below t base ([] ++ base) := by
    ext rel
    exact and_congr_right fun _ => (and_iff_right (List.suffix_append rel base)).symm
  rw [hmk, hset] at hm
  rw [hbuild]
  exact congrArg some (Option.ext fun v => (hm k v).trans (maps_buildFileMap hdir k v).symm)

/-- The map of a home directory is a snapshot when the home string is in normal form and occurs in
its own absolute path only at the end. The root has no snapshot that is not empty. -/
theorem snapshot_iff (hplace : place cwd t (normalize home) = some base)
    (hdir : t.get base = some .dir) :
    (∃ m, buildFileMap cwd t time home = some m ∧ IsSnapshot t time home base m) ↔
    normalize home = home ∧
      ((∀ rel, rel ≠ [] → t.get (rel ++ base) = none) ∨
        home ≠ [slash] ∧ OccursLast cwd home) := by
  have hempty : strictlyBelow t base = ∅ ↔ ∀ rel, rel ≠ [] → t.get (rel ++ base) = none := by
    rw [Set.eq_empty_iff_forall_notMem]
    exact forall_congr' fun rel => not_and_not_right
  simp only [isSnapshot_iff]
  rw [maps_iff hplace hdir, hempty]

/-! ### A relative home -/

def data : FileName := ⟨java "data", by decide⟩

def user : FileName := ⟨java "user", by decide⟩

def letter : FileName := ⟨java "letter", by decide⟩

/-- The file `/data/user/data/user/letter`. -/
def nested : FileSystem :=
  let t : FileSystem := (FileTree.empty.mkdirs [user, data, user, data]).2
  (t.write [7] [letter, user, data, user, data]).getD t

/-- In the working directory `/data/user` the home `data/user` is also the beginning of its own
absolute path, and the file has the key `/data/user/letter`. -/
theorem nested_not_snapshot : ∃ (cwd : Path) (t : FileSystem) (time : Times) (home : JString)
    (base : Path), place cwd t (normalize home) = some base ∧ t.get base = some .dir ∧
      entryKey cwd home [letter] = some (java "/data/user/letter") ∧
      ¬∃ m, buildFileMap cwd t time home = some m ∧ IsSnapshot t time home base m := by
  refine ⟨[user, data], nested, fun _ => 0, java "data/user", [user, data, user, data],
    by decide, by decide, by decide, ?_⟩
  simp only [isSnapshot_iff]
  rw [maps_iff (by decide) (by decide)]
  rintro ⟨-, hempty | ⟨-, hlast⟩⟩
  · have hletter : [letter] ∈ strictlyBelow nested [user, data, user, data] := by
      constructor <;> decide
    rw [hempty] at hletter
    cases hletter
  · exact hlast 1 (by decide) (by decide)

theorem snapshot_iff_nested :
    (∃ m, buildFileMap [] nested (fun _ => 0) (java "data/user") = some m ∧
      IsSnapshot nested (fun _ => 0) (java "data/user") [user, data] m) ↔
    normalize (java "data/user") = java "data/user" ∧
      ((∀ rel, rel ≠ [] → nested.get (rel ++ [user, data]) = none) ∨
        java "data/user" ≠ [slash] ∧ OccursLast [] (java "data/user")) :=
  snapshot_iff (by decide) (by decide)

end Relative

end CodingSample.Dropbox
