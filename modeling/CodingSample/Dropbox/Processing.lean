import CodingSample.Dropbox.FileManager

/-!
# Processing of operations

What one operation does to the files, and which paths it can change.
-/

namespace CodingSample.Dropbox

namespace DropboxFileManager

variable {t u : FileSystem} {file f : JString} {p q : Path} {n : FileName} {depth : Nat}
  {l : List JString} {fo : FileOperation} {fos : List FileOperation}

/-! ### What is left alone -/

theorem canonicalPath_suffix (h : f ∈ File.listFiles t file) :
    canonicalPath file <:+ canonicalPath f := by
  cases hloc : locate t file with
  | none =>
      rw [File.listFiles, hloc] at h
      cases h
  | some p =>
      obtain ⟨n, rfl, -⟩ := (mem_listFiles hloc).mp h
      rw [canonicalPath_child]
      exact List.suffix_cons n _

theorem get_deleteEntries_of_not_suffix {del : FileSystem → JString → FileSystem}
    (hdel : ∀ t f, ¬canonicalPath f <:+ q → (del t f).get q = t.get q)
    (hl : ∀ f ∈ l, ¬canonicalPath f <:+ q) : (l.foldl (deleteEntry del) t).get q = t.get q := by
  induction l generalizing t with
  | nil => rfl
  | cons f l ih =>
      have hf := hl f List.mem_cons_self
      rw [List.foldl_cons, ih fun g hg => hl g (List.mem_cons_of_mem f hg), deleteEntry,
        get_delete_of_ne fun heq => hf (heq ▸ List.suffix_rfl)]
      split
      · exact hdel t f hf
      · rfl

/-- Only paths at and below the directory change. -/
theorem get_deleteSubDirs_of_not_suffix (hq : ¬canonicalPath file <:+ q) :
    (deleteSubDirs depth t file).get q = t.get q := by
  induction depth generalizing t file with
  | zero => rfl
  | succ depth ih =>
      rw [deleteSubDirs]
      split
      · rw [get_delete_of_ne fun heq => hq (heq ▸ List.suffix_rfl)]
        exact get_deleteEntries_of_not_suffix (fun _ _ => ih)
          fun f hf hsuf => hq ((canonicalPath_suffix hf).trans hsuf)
      · rfl

theorem get_processDir_eq_or (q : Path) : (processDir t fo).get q = t.get q ∨
    fo.operation = opDel ∧ canonicalPath fo.file.file <:+ q ∨
    fo.operation = opAdd ∧ q <:+ canonicalPath fo.file.file ∧ t.get q = none := by
  unfold processDir
  dsimp only
  split
  · split
    · rename_i h
      exact (get_mkdirs_eq_or q).imp_right fun hq => .inr ⟨h.1, hq⟩
    split
    · rename_i h
      by_cases hq : canonicalPath fo.file.file <:+ q
      · exact .inr (.inl ⟨h.1, hq⟩)
      · exact .inl (get_deleteSubDirs_of_not_suffix hq)
    · exact .inl rfl
  · exact .inl rfl

theorem get_processFile_of_ne (hq : q ≠ canonicalPath fo.file.file) :
    (processFile t fo).2.get q = t.get q := by
  unfold processFile
  dsimp only
  split
  · rfl
  split
  · have hmade : ∀ t' : FileSystem, (if File.fileExists t fo.file.file then some t
        else File.createNewFile t fo.file.file) = some t' → t'.get q = t.get q := by
      intro t' h
      split at h
      · rw [← Option.some.inj h]
      · exact get_createNewFile_of_ne h hq
    split
    · rfl
    · rename_i t' hcreate
      split
      · exact hmade t' hcreate
      · split
        · exact hmade t' hcreate
        · rename_i hwrite
          exact (get_write_of_ne hwrite hq).trans (hmade t' hcreate)
  split
  · dsimp only
    split
    · exact get_delete_of_ne hq
    · rfl
  · rfl

theorem processFiles_cons : processFiles t (fo :: fos) =
    if (processFile t fo).1 then processFiles (processFile t fo).2 fos else processFile t fo := by
  rw [processFiles]
  obtain ⟨ok, t'⟩ := processFile t fo
  cases ok <;> rfl

/-! ### Operations on strings of paths -/

/-- A tree in which some of the nodes of `t` are missing. -/
def Thinned (t u : FileSystem) : Prop := ∀ q, u.get q = t.get q ∨ u.get q = none

theorem get_deleteEntry {del : FileSystem → JString → FileSystem}
    (hdel : u.get p = some .dir → ∀ q, (del u (pathString p)).get q =
      if p <:+ q then none else u.get q) (hne : p ≠ []) (q : Path) :
    (deleteEntry del u (pathString p)).get q = if p <:+ q then none else u.get q := by
  rw [deleteEntry, isDirectory_pathString]
  by_cases hdir : u.get p = some .dir
  · rw [if_pos (FileTree.isDirectory_iff.mpr hdir), get_delete_pathString hne, hdel hdir]
    exact ite_eq_right_iff.mpr fun hq => (if_pos (hq.1 ▸ List.suffix_rfl)).symm
  · rw [if_neg fun h => hdir (FileTree.isDirectory_iff.mp h), get_delete_pathString hne]
    have hempty : u.listFiles p = [] := List.eq_nil_iff_forall_not_mem.mpr fun q hq => by
      obtain ⟨⟨n, rfl⟩, hget⟩ := FileTree.mem_listFiles.mp hq
      exact hdir (FileTree.get_parent hget)
    by_cases heq : q = p
    · rw [if_pos ⟨heq, hempty⟩, if_pos (heq ▸ List.suffix_rfl)]
    · rw [if_neg fun h => heq h.1]
      split
      · exact FileTree.get_eq_none ‹_› (Ne.symm heq) hdir
      · rfl

theorem get_deleteEntries_eq_none {del : FileSystem → JString → FileSystem}
    (hdel : ∀ n u, Thinned t u → u.get (n :: p) = some .dir → ∀ q,
      (del u (pathString (n :: p))).get q = if n :: p <:+ q then none else u.get q)
    (hl : ∀ f ∈ l, ∃ n : FileName, f = pathString (n :: p)) (hu : Thinned t u)
    (h : u.get q = none ∨ ∃ n : FileName, pathString (n :: p) ∈ l ∧ n :: p <:+ q) :
    (l.foldl (deleteEntry del) u).get q = none := by
  induction l generalizing u with
  | nil => exact h.resolve_right fun ⟨_, hn, _⟩ => List.not_mem_nil hn
  | cons f l ih =>
      obtain ⟨n, rfl⟩ := hl f List.mem_cons_self
      have hget := get_deleteEntry (hdel n u hu) (List.cons_ne_nil n p)
      have hu' : Thinned t (deleteEntry del u (pathString (n :: p))) := by
        intro q
        rw [hget]
        split
        · exact .inr rfl
        · exact hu q
      refine ih (fun g hg => hl g (List.mem_cons_of_mem _ hg)) hu' ?_
      rw [hget]
      by_cases hn : n :: p <:+ q
      · exact .inl (if_pos hn)
      rw [if_neg hn]
      refine h.imp_right ?_
      rintro ⟨m, hm, hq⟩
      rcases List.mem_cons.mp hm with heq | hm
      · exact absurd (pathString_injective heq ▸ hq) hn
      · exact ⟨m, hm, hq⟩

/-- A directory is deleted with everything below. -/
theorem get_deleteSubDirs (hdir : t.get p = some .dir) (hne : p ≠ [])
    (hdepth : ∀ q, p <:+ q → t.get q ≠ none → q.length < p.length + depth) (q : Path) :
    (deleteSubDirs depth t (pathString p)).get q = if p <:+ q then none else t.get q := by
  induction depth generalizing t p q with
  | zero =>
      exact absurd (hdepth p List.suffix_rfl (hdir.trans_ne (Option.some_ne_none _)))
        (Nat.lt_irrefl _)
  | succ depth ih =>
      by_cases hq : p <:+ q
      swap
      · rw [if_neg hq]
        exact get_deleteSubDirs_of_not_suffix (canonicalPath_pathString.symm ▸ hq)
      rw [if_pos hq, deleteSubDirs, isDirectory_pathString,
        if_pos (FileTree.isDirectory_iff.mpr hdir)]
      have hlist : ∀ f, f ∈ File.listFiles t (pathString p) ↔
          ∃ n, f = pathString (n :: p) ∧ t.get (n :: p) ≠ none :=
        fun f => mem_listFiles (locate_of_get (hdir.trans_ne (Option.some_ne_none _)))
      have hloop : ∀ q, p <:+ q → p ≠ q → ((File.listFiles t (pathString p)).foldl
          (deleteEntry (deleteSubDirs depth)) t).get q = none := by
        intro q hq hpq
        refine get_deleteEntries_eq_none (fun n u hu hdir => ?_)
          (fun f hf => ((hlist f).mp hf).imp fun _ h => h.1) (fun q => .inl rfl) ?_
        · refine ih hdir (List.cons_ne_nil n p) fun q hq hget => ?_
          have hlt := hdepth q ((List.suffix_cons n p).trans hq)
            ((hu q).elim (fun h => h ▸ hget) fun h => absurd h hget)
          rw [List.length_cons]
          omega
        · by_cases hget : t.get q = none
          · exact .inl hget
          · obtain ⟨n, hn⟩ := (suffix_iff_child.mp hq).resolve_left (Ne.symm hpq)
            refine .inr ⟨n, (hlist _).mpr ⟨n, rfl, fun hnone => hget ?_⟩, hn⟩
            by_cases heq : n :: p = q
            · exact heq ▸ hnone
            · exact FileTree.get_eq_none hn heq (hnone ▸ nofun)
      rw [get_delete_pathString hne]
      by_cases hpq : q = p
      · refine if_pos ⟨hpq, List.eq_nil_iff_forall_not_mem.mpr fun q hq => ?_⟩
        obtain ⟨⟨n, rfl⟩, hget⟩ := FileTree.mem_listFiles.mp hq
        exact hget (hloop _ (List.suffix_cons n p) (List.cons_ne_self n p).symm)
      · rw [if_neg fun h => hpq h.1]
        exact hloop q hq (Ne.symm hpq)

/-! ### One operation -/

theorem processDir_of_file (h : fo.file.isDir = false) : processDir t fo = t := by
  unfold processDir
  dsimp only
  exact if_neg (Bool.eq_false_iff.mp h)

theorem processDir_mod (h : fo.operation = opMod) : processDir t fo = t := by
  unfold processDir
  dsimp only
  rw [h]
  split
  · rw [if_neg fun h => absurd h.1 (by decide), if_neg fun h => absurd h.1 (by decide)]
  · rfl

theorem get_processDir_add (hfile : fo.file.file = pathString p) (hdir : fo.file.isDir = true)
    (hop : fo.operation = opAdd) (h : ∀ a, a <:+ p → ∀ c, t.get a ≠ some (.file c)) (q : Path) :
    (processDir t fo).get q = if q <:+ p then some .dir else t.get q := by
  unfold processDir
  dsimp only
  rw [if_pos hdir, hop, hfile, fileExists_pathString]
  by_cases hex : t.fileExists p = false
  · rw [if_pos ⟨rfl, hex⟩]
    exact get_mkdirs_pathString h q
  · rw [if_neg fun h => hex h.2, if_neg fun h => absurd h.1 (by decide)]
    have hget := FileTree.fileExists_iff.mp (Bool.not_eq_false _ ▸ hex)
    refine FileTree.get_of_dir ?_ q
    cases hnode : t.get p with
    | none => exact absurd hnode hget
    | some node =>
        cases node with
        | dir => rfl
        | file c => exact absurd hnode (h p List.suffix_rfl c)

theorem get_processDir_del (hfile : fo.file.file = pathString p) (hdir : fo.file.isDir = true)
    (hop : fo.operation = opDel) (hne : p ≠ []) (h : t.get p = none ∨ t.get p = some .dir)
    (q : Path) : (processDir t fo).get q = if p <:+ q then none else t.get q := by
  unfold processDir
  dsimp only
  rw [if_pos hdir, hop, hfile, fileExists_pathString, if_neg fun h => absurd h.1 (by decide)]
  rcases h with h | h
  · rw [if_neg fun hex => FileTree.fileExists_iff.mp hex.2 h]
    split
    · by_cases heq : p = q
      · exact heq ▸ h
      · exact FileTree.get_eq_none ‹_› heq (h ▸ nofun)
    · rfl
  · rw [if_pos ⟨rfl, FileTree.fileExists_iff.mpr (h.trans_ne (Option.some_ne_none _))⟩]
    refine get_deleteSubDirs h hne (fun q _ hq => ?_) q
    have := FileTree.length_le_depth hq
    omega

theorem processFile_of_dir (h : fo.file.isDir = true) : processFile t fo = (true, t) := by
  unfold processFile
  dsimp only
  exact if_pos h

/-- The file that a write finds or makes. -/
theorem exists_created (hp : t.get p = some .dir) : ∃ u : FileSystem,
    (if File.fileExists t (pathString (n :: p)) then some t
      else File.createNewFile t (pathString (n :: p))) = some u ∧
    ∀ q, q ≠ n :: p → u.get q = t.get q := by
  rw [fileExists_pathString, createNewFile_pathString]
  split
  · exact ⟨t, rfl, fun _ _ => rfl⟩
  · obtain ⟨u, hu⟩ := Option.ne_none_iff_exists'.mp
      fun h => FileTree.createNewFile_eq_none.mp h hp
    refine ⟨u, hu, fun q hq => ?_⟩
    rw [FileTree.get_createNewFile hu, if_neg fun h => hq h.1]

theorem get_created_ne_dir (hnode : t.get (n :: p) ≠ some .dir)
    (hu : (if File.fileExists t (pathString (n :: p)) then some t
      else File.createNewFile t (pathString (n :: p))) = some u) : u.get (n :: p) ≠ some .dir := by
  rw [fileExists_pathString, createNewFile_pathString] at hu
  split at hu
  · rwa [← Option.some.inj hu]
  · rw [FileTree.get_createNewFile hu]
    split
    · exact nofun
    · exact hnode

theorem processFile_write {c : Bytes} (hfile : fo.file.file = pathString (n :: p))
    (hdir : fo.file.isDir = false) (hop : fo.operation = opAdd ∨ fo.operation = opMod)
    (hbytes : fo.bytes = some c) (hp : t.get p = some .dir) (hnode : t.get (n :: p) ≠ some .dir) :
    ∃ t', processFile t fo = (true, t') ∧
      ∀ q, t'.get q = if q = n :: p then some (.file c) else t.get q := by
  obtain ⟨u, hu, hframe⟩ := exists_created (n := n) hp
  have hup : u.get p = some .dir := (hframe p (List.cons_ne_self n p).symm).trans hp
  obtain ⟨t', ht'⟩ : ∃ t', u.write c (n :: p) = some t' :=
    Option.ne_none_iff_exists'.mp fun h =>
      (FileTree.write_eq_none.mp h).elim (· hup) (get_created_ne_dir hnode hu)
  refine ⟨t', ?_, fun q => ?_⟩
  · unfold processFile
    dsimp only
    rw [hdir, if_neg Bool.false_ne_true, if_pos hop, hfile, hu, hbytes]
    dsimp only
    rw [write_pathString, ht']
  · rw [FileTree.get_write ht']
    split
    · rfl
    · exact hframe q ‹_›

theorem processFile_del (hfile : fo.file.file = pathString p) (hdir : fo.file.isDir = false)
    (hop : fo.operation = opDel) (hne : p ≠ []) (hnode : t.get p ≠ some .dir) :
    ∃ t', processFile t fo = (true, t') ∧ ∀ q, t'.get q = if q = p then none else t.get q := by
  have hempty : t.listFiles p = [] := List.eq_nil_iff_forall_not_mem.mpr fun q hq => by
    obtain ⟨⟨n, rfl⟩, hget⟩ := FileTree.mem_listFiles.mp hq
    exact hnode (FileTree.get_parent hget)
  refine ⟨if t.fileExists p then File.delete t (pathString p) else t, ?_, fun q => ?_⟩
  · unfold processFile
    dsimp only
    rw [hdir, if_neg Bool.false_ne_true, hop, if_neg (by decide), if_pos rfl, hfile,
      fileExists_pathString]
  · split
    · rw [get_delete_pathString hne]
      exact if_congr (and_iff_left hempty) rfl rfl
    · rename_i hex
      split
      · rename_i heq
        rw [heq]
        exact not_not.mp fun h => hex (FileTree.fileExists_iff.mpr h)
      · rfl

/-- A directory in the place of a file is an exception. -/
theorem processFile_raises {c : Bytes} (hfile : fo.file.file = pathString p)
    (hdir : fo.file.isDir = false) (hop : fo.operation = opAdd ∨ fo.operation = opMod)
    (hbytes : fo.bytes = some c) (hnode : t.get p = some .dir) :
    (processFile t fo).1 = false := by
  have hex := FileTree.fileExists_iff.mpr (hnode.trans_ne (Option.some_ne_none _))
  have hwrite : File.write t c (pathString p) = none := by
    cases p with
    | nil => rfl
    | cons n p => exact write_pathString.trans (FileTree.write_eq_none.mpr (.inr hnode))
  unfold processFile
  dsimp only
  rw [hdir, if_neg Bool.false_ne_true, if_pos hop, hfile, fileExists_pathString, if_pos hex, hbytes]
  dsimp only
  rw [hwrite]

end DropboxFileManager

end CodingSample.Dropbox
