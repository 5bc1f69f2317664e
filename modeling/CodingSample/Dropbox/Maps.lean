import CodingSample.Dropbox.FileManager

/-!
# Maps of a home directory

What the tables of the file manager hold, whatever the order of their entries.
-/

namespace CodingSample.Dropbox

namespace HashMap

variable {V W : Type} {m m' : HashMap V} {k : JString} {v : V}

theorem lookup_insert (m : HashMap V) (k k' : JString) (v : V) :
    (AList.insert k v m).lookup k' = if k' = k then some v else m.lookup k' := by
  split
  · subst k'
    exact AList.lookup_insert m
  · exact AList.lookup_insert_ne ‹_›

theorem mem_entries : ⟨k, v⟩ ∈ m.entries ↔ m.lookup k = some v :=
  AList.mem_lookup_iff.symm.trans Option.mem_def

theorem lookup_putAll : (m.putAll m').lookup k = (m'.lookup k).or (m.lookup k) := by
  cases hk : m'.lookup k with
  | none => exact AList.lookup_union_right (AList.lookup_eq_none.mp hk)
  | some v =>
      refine (AList.lookup_union_left (AList.lookup_isSome.mp ?_)).trans hk
      exact Option.isSome_iff_exists.mpr ⟨v, hk⟩

theorem lookup_putEach (g : JString → V → Option W) (m : HashMap V) (m' : HashMap W) :
    (m.putEach g m').lookup k = ((m.lookup k).bind (g k)).or (m'.lookup k) := by
  obtain ⟨l, hl⟩ := m
  show (List.foldl _ m' l).lookup k = ((l.dlookup k).bind (g k)).or _
  induction l generalizing m' with
  | nil => rfl
  | cons e l ih =>
      obtain ⟨hnot, hl⟩ := List.nodupKeys_cons.mp hl
      rw [List.foldl_cons, ih _ hl]
      by_cases heq : k = e.1
      · subst k
        rw [List.dlookup_eq_none.mpr hnot, List.dlookup_cons_eq]
        cases hg : g e.1 e.2 with
        | none => simp [hg]
        | some w => simp [hg]
      · rw [List.dlookup_cons_ne _ _ heq]
        cases hg : g e.1 e.2 with
        | none => rfl
        | some w => rw [AList.lookup_insert_ne heq]

end HashMap

/-- The map has the entries of the paths in `s`, and no others. -/
def Maps (mk : Path → DummyFile) (m : HashMap DummyFile) (s : Set Path) : Prop :=
  ∀ k v, m.lookup k = some v ↔ ∃ rel ∈ s, k = pathString rel ∧ v = mk rel

namespace Maps

variable {mk : Path → DummyFile} {m m' : HashMap DummyFile} {s s' : Set Path} {rel : Path}

theorem empty : Maps mk ∅ ∅ := fun _ _ =>
  iff_of_false nofun fun ⟨_, hrel, _⟩ => hrel

theorem insert (h : Maps mk m s) (rel : Path) :
    Maps mk (AList.insert (pathString rel) (mk rel) m) (Insert.insert rel s) := by
  intro k v
  rw [HashMap.lookup_insert]
  constructor
  · intro hk
    split_ifs at hk with heq
    · exact ⟨rel, .inl rfl, heq, (Option.some.inj hk).symm⟩
    · obtain ⟨rel', hrel', hkv⟩ := (h k v).mp hk
      exact ⟨rel', .inr hrel', hkv⟩
  · rintro ⟨rel', rfl | hrel', rfl, rfl⟩
    · exact if_pos rfl
    · split_ifs with heq
      · rw [pathString_injective heq]
      · exact (h _ _).mpr ⟨rel', hrel', rfl, rfl⟩

theorem putAll (h : Maps mk m s) (h' : Maps mk m' s') : Maps mk (m.putAll m') (s ∪ s') := by
  intro k v
  rw [HashMap.lookup_putAll]
  constructor
  · intro hk
    rcases Option.or_eq_some_iff.mp hk with hk | ⟨-, hk⟩
    · obtain ⟨rel, hrel, hkv⟩ := (h' k v).mp hk
      exact ⟨rel, .inr hrel, hkv⟩
    · obtain ⟨rel, hrel, hkv⟩ := (h k v).mp hk
      exact ⟨rel, .inl hrel, hkv⟩
  · rintro ⟨rel, hrel, rfl, rfl⟩
    cases hk : m'.lookup (pathString rel) with
    | some v =>
        obtain ⟨rel', -, heq, rfl⟩ := (h' _ _).mp hk
        rw [pathString_injective heq]
        rfl
    | none =>
        rcases hrel with hrel | hrel
        · exact (h _ _).mpr ⟨rel, hrel, rfl, rfl⟩
        · cases hk.symm.trans ((h' _ _).mpr ⟨rel, hrel, rfl, rfl⟩)

theorem foldl {f : HashMap DummyFile → JString → HashMap DummyFile} {l : List JString}
    (S : JString → Set Path) (h : Maps mk m s)
    (hstep : ∀ a ∈ l, ∀ m s, Maps mk m s → Maps mk (f m a) (s ∪ S a)) :
    Maps mk (l.foldl f m) (s ∪ {rel | ∃ a ∈ l, rel ∈ S a}) := by
  induction l generalizing m s with
  | nil => simpa using h
  | cons a l ih =>
      have hl := ih (hstep a List.mem_cons_self m s h) fun b hb =>
        hstep b (List.mem_cons_of_mem a hb)
      have hset : s ∪ S a ∪ {rel | ∃ b ∈ l, rel ∈ S b} =
          s ∪ {rel | ∃ b ∈ a :: l, rel ∈ S b} := by
        ext rel
        simp only [Set.mem_union, Set.mem_ofPred_eq, List.exists_mem_cons_iff, or_assoc]
      rw [List.foldl_cons, ← hset]
      exact hl

theorem lookup (h : Maps mk m s) [Decidable (rel ∈ s)] :
    m.lookup (pathString rel) = if rel ∈ s then some (mk rel) else none := by
  split
  · exact (h _ _).mpr ⟨rel, ‹_›, rfl, rfl⟩
  · refine Option.eq_none_iff_forall_ne_some.mpr fun v hv => ?_
    obtain ⟨rel', hrel', heq, -⟩ := (h _ _).mp hv
    exact absurd (pathString_injective heq ▸ hrel') ‹_›

end Maps

/-! ### A scan -/

/-- What a scan records of a path below the home directory. -/
def dummyFile (t : FileSystem) (time : Times) (home rel : Path) : DummyFile :=
  ⟨t.isDirectory (rel ++ home), pathString (rel ++ home), time (pathString (rel ++ home))⟩

variable {t : FileSystem} {time : Times} {home rel dir : Path} {n : FileName}

theorem pathString_append : pathString (rel ++ home) = pathString home ++ pathString rel := by
  induction rel with
  | nil => exact (List.append_nil _).symm
  | cons n rel ih => rw [List.cons_append, pathString, pathString, ih, List.append_assoc]

open DropboxFileManager

theorem getRelativeRootPath_append :
    getRelativeRootPath (pathString home) (pathString (rel ++ home)) = pathString rel := by
  rw [getRelativeRootPath, pathString_append, List.drop_left]

/-- The paths at and below `dir`, without the home directory itself. -/
def below (t : FileSystem) (home dir : Path) : Set Path :=
  {rel | rel ≠ [] ∧ dir <:+ rel ++ home ∧ t.get (rel ++ home) ≠ none}

/-- A directory has its children below it, and itself if it is not the home directory. -/
theorem below_eq : below t home (rel ++ home) = {r | r = rel ∧ r ≠ [] ∧ t.get (rel ++ home) ≠ none} ∪
    {r | ∃ n : FileName, t.get (n :: (rel ++ home)) ≠ none ∧ r ∈ below t home (n :: (rel ++ home))} := by
  ext r
  constructor
  · rintro ⟨hne, hsuf, hget⟩
    rcases suffix_iff_child.mp hsuf with heq | ⟨n, hn⟩
    · exact .inl ⟨List.append_cancel_right heq, hne, heq ▸ hget⟩
    · refine .inr ⟨n, fun hnone => hget ?_, hne, hn, hget⟩
      by_cases heq : n :: (rel ++ home) = r ++ home
      · exact heq ▸ hnone
      · exact FileTree.get_eq_none hn heq (hnone ▸ nofun)
  · rintro (⟨rfl, hne, hget⟩ | ⟨n, -, hne, hn, hget⟩)
    · exact ⟨hne, List.suffix_rfl, hget⟩
    · exact ⟨hne, (List.suffix_cons n _).trans hn, hget⟩

theorem below_file (h : t.get (rel ++ home) ≠ some .dir) (hne : rel ≠ [])
    (hget : t.get (rel ++ home) ≠ none) : below t home (rel ++ home) = {rel} := by
  ext r
  constructor
  · rintro ⟨-, hsuf, hr⟩
    by_contra hnot
    exact hr (FileTree.get_eq_none hsuf (fun heq => hnot (List.append_cancel_right heq).symm) h)
  · rintro rfl
    exact ⟨hne, List.suffix_rfl, hget⟩

/-- The paths at and below the child of `dir` with the string `f`. -/
def belowChild (t : FileSystem) (home dir : Path) (f : JString) : Set Path :=
  {r | ∃ n : FileName, f = pathString (n :: dir) ∧ r ∈ below t home (n :: dir)}

theorem belowChild_pathString :
    belowChild t home dir (pathString (n :: dir)) = below t home (n :: dir) := by
  ext r
  constructor
  · rintro ⟨m, hm, hr⟩
    exact pathString_injective hm ▸ hr
  · exact fun hr => ⟨n, rfl, hr⟩

/-- The entry of a directory itself. -/
theorem maps_self (hdir : t.get (rel ++ home) = some .dir) :
    Maps (dummyFile t time home)
      (if pathString (rel ++ home) ≠ pathString home then
        AList.insert (getRelativeRootPath (pathString home) (pathString (rel ++ home)))
          ⟨File.isDirectory t (pathString (rel ++ home)), pathString (rel ++ home),
            time (pathString (rel ++ home))⟩ ∅
      else ∅)
      {r | r = rel ∧ r ≠ [] ∧ t.get (rel ++ home) ≠ none} := by
  split
  · rename_i hne
    rw [getRelativeRootPath_append, isDirectory_pathString]
    have hrel : rel ≠ [] := fun h => hne (h ▸ rfl)
    have hset : {r | r = rel ∧ r ≠ [] ∧ t.get (rel ++ home) ≠ none} = Insert.insert rel ∅ := by
      ext r
      constructor
      · rintro ⟨rfl, -⟩
        exact .inl rfl
      · rintro (rfl | ⟨⟨⟩⟩)
        exact ⟨rfl, hrel, hdir.trans_ne (Option.some_ne_none _)⟩
    rw [hset]
    exact Maps.empty.insert rel
  · rename_i heq
    have hrel : rel = [] :=
      List.append_cancel_right (pathString_injective (not_not.mp heq))
    have hset : {r | r = rel ∧ r ≠ [] ∧ t.get (rel ++ home) ≠ none} = ∅ :=
      Set.eq_empty_iff_forall_notMem.mpr fun r hr => hr.2.1 (hr.1.trans hrel)
    rw [hset]
    exact Maps.empty

theorem maps_buildFileMapRecursive {depth : Nat} (hdir : t.get (rel ++ home) = some .dir)
    (hdepth : t.depth < (rel ++ home).length + depth) :
    Maps (dummyFile t time home)
      (buildFileMapRecursive t time (pathString home) depth (pathString (rel ++ home)))
      (below t home (rel ++ home)) := by
  induction depth generalizing rel with
  | zero =>
      have := FileTree.length_le_depth (hdir.trans_ne (Option.some_ne_none _))
      omega
  | succ depth ih =>
      have hlist : ∀ f, f ∈ File.listFiles t (pathString (rel ++ home)) ↔
          ∃ n, f = pathString (n :: rel ++ home) ∧ t.get (n :: rel ++ home) ≠ none :=
        fun f => mem_listFiles (locate_of_get (hdir.trans_ne (Option.some_ne_none _)))
      have hset : {r | ∃ f ∈ File.listFiles t (pathString (rel ++ home)),
            r ∈ belowChild t home (rel ++ home) f} =
          {r | ∃ n, t.get (n :: (rel ++ home)) ≠ none ∧
            r ∈ below t home (n :: (rel ++ home))} := by
        ext r
        constructor
        · rintro ⟨f, hf, n, rfl, hr⟩
          obtain ⟨m, hm, hget⟩ := (hlist _).mp hf
          rw [← pathString_injective hm] at hget
          exact ⟨n, hget, hr⟩
        · rintro ⟨n, hget, hr⟩
          exact ⟨_, (hlist _).mpr ⟨n, rfl, hget⟩, n, rfl, hr⟩
      rw [buildFileMapRecursive, below_eq, ← hset]
      refine Maps.foldl (belowChild t home (rel ++ home)) (maps_self hdir) fun f hf m s hm => ?_
      obtain ⟨n, rfl, hget⟩ := (hlist f).mp hf
      rw [List.cons_append, belowChild_pathString, ← List.cons_append]
      split
      · rename_i hisDir
        rw [isDirectory_pathString] at hisDir
        refine hm.putAll (ih (FileTree.isDirectory_iff.mp hisDir) ?_)
        simp only [List.cons_append, List.length_cons] at hdepth ⊢
        omega
      · rename_i hfile
        rw [isDirectory_pathString] at hfile
        rw [below_file (fun h => hfile (FileTree.isDirectory_iff.mpr h)) (List.cons_ne_nil n rel)
          hget, Set.union_singleton, getRelativeRootPath_append, isDirectory_pathString]
        exact hm.insert (n :: rel)

theorem maps_buildFileMap (hdir : t.get home = some .dir) : Maps (dummyFile t time home)
    (buildFileMap t time (pathString home)) (below t home ([] ++ home)) := by
  have hdepth : t.depth < ([] ++ home).length + (t.depth + 1) := by omega
  exact maps_buildFileMapRecursive hdir hdepth

/-- The map has every path below the home directory. -/
theorem lookup_buildFileMap (hdir : t.get home = some .dir) :
    (buildFileMap t time (pathString home)).lookup (pathString rel) =
      if rel ≠ [] ∧ t.get (rel ++ home) ≠ none then some (dummyFile t time home rel) else none := by
  have : Decidable (rel ∈ below t home ([] ++ home)) := Classical.dec _
  refine (maps_buildFileMap hdir).lookup.trans (if_congr (and_congr_right fun _ => ?_) rfl rfl)
  exact and_iff_right (List.suffix_append rel home)

theorem lookup_buildFileMap_of_none (hdir : t.get home = some .dir)
    (hget : t.get (rel ++ home) = none) :
    (buildFileMap t time (pathString home)).lookup (pathString rel) = none := by
  rw [lookup_buildFileMap hdir, if_neg fun h => h.2 hget]

theorem lookup_buildFileMap_of_some {node : Node Bytes} (hdir : t.get home = some .dir)
    (hrel : rel ≠ []) (hget : t.get (rel ++ home) = some node) :
    (buildFileMap t time (pathString home)).lookup (pathString rel) =
      some (dummyFile t time home rel) := by
  rw [lookup_buildFileMap hdir, if_pos ⟨hrel, hget.trans_ne (Option.some_ne_none _)⟩]

theorem exists_of_lookup_buildFileMap {k : JString} (hdir : t.get home = some .dir)
    (hk : (buildFileMap t time (pathString home)).lookup k ≠ none) :
    ∃ rel, k = pathString rel ∧ rel ≠ [] := by
  obtain ⟨v, hv⟩ := Option.ne_none_iff_exists'.mp hk
  obtain ⟨rel, hrel, heq, -⟩ := (maps_buildFileMap hdir k v).mp hv
  exact ⟨rel, heq, hrel.1⟩

/-! ### The difference of two scans -/

/-- The operation for a path from what the two maps have there. -/
def difference : Option DummyFile → Option DummyFile → Option FileOperation
  | some file, some prev =>
      if prev.lastModifiedTime ≠ file.lastModifiedTime then some ⟨opMod, file, none⟩ else none
  | some file, none => some ⟨opAdd, file, none⟩
  | none, some file => some ⟨opDel, file, none⟩
  | none, none => none

theorem lookup_writeFromFileMap {cur prev : HashMap DummyFile} {k : JString} :
    (writeFromFileMap cur prev).lookup k = difference (cur.lookup k) (prev.lookup k) := by
  rw [writeFromFileMap, HashMap.lookup_putEach, HashMap.lookup_putEach]
  cases cur.lookup k with
  | none => cases prev.lookup k <;> rfl
  | some file =>
      cases prev.lookup k with
      | none => rfl
      | some prev => exact Option.or_none

end CodingSample.Dropbox
