import CodingSample.Dropbox.Maps
import CodingSample.Dropbox.Processing

/-!
# Transfer of a difference

The sender has scanned its home directory twice, and the receiver has the files of the first scan.
The operations between the two scans give the receiver the files of the second, in any order, unless
a file has become a directory or a directory a file.
-/

namespace CodingSample.Dropbox

open DropboxFileManager

abbrev View := Path → Option (Node Bytes)

/-- The tree below a home directory. -/
def FileSystem.view (t : FileSystem) (home : Path) : View := fun rel => t.get (rel ++ home)

/-- A file has become a directory, or a directory a file. -/
def KindChange (old new : Option (Node Bytes)) : Prop :=
  ∃ c, old = some (.file c) ∧ new = some .dir ∨ old = some .dir ∧ new = some (.file c)

/-- The operation for a path from the nodes before and after. -/
def change (touched : Bool) : Option (Node Bytes) → Option (Node Bytes) →
    Option (UInt8 × Bool × Option Bytes)
  | none, none => none
  | none, some .dir => some (opAdd, true, none)
  | none, some (.file c) => some (opAdd, false, some c)
  | some .dir, none => some (opDel, true, none)
  | some (.file _), none => some (opDel, false, none)
  | some _, some .dir => if touched then some (opMod, true, none) else none
  | some _, some (.file c) => if touched then some (opMod, false, some c) else none

variable {before after t u : FileSystem} {times times' : Times} {home there rel rel' q : Path}
  {batch : HashMap FileOperation} {fo : FileOperation} {fos : List FileOperation} {k : JString}
  {touched : Bool} {old new : Option (Node Bytes)}

/-- An operation of the batch, at the receiver. -/
def operationAt (there rel : Path) (c : UInt8 × Bool × Option Bytes) : FileOperation :=
  ⟨c.1, ⟨c.2.1, pathString (rel ++ there), 0⟩, c.2.2⟩

theorem lookup_received {operations : HashMap FileOperation} {home : JString} :
    (operations.received t home).lookup k =
      (operations.lookup k).map fun fo => fo.received t home k := by
  rw [HashMap.received, HashMap.lookup_putEach]
  cases operations.lookup k <;> rfl

theorem read_pathString {p : Path} {c : Bytes} (h : t.get p = some (.file c)) :
    File.read t (pathString p) = some c := by
  rw [File.read, locate_of_get (h.trans_ne (Option.some_ne_none _)), Option.bind_some, h]

theorem isDirectory_dir {p : Path} (h : t.get p = some .dir) : t.isDirectory p = true :=
  FileTree.isDirectory_iff.mpr h

theorem isDirectory_file {p : Path} {c : Bytes} (h : t.get p = some (.file c)) :
    t.isDirectory p = false :=
  Bool.eq_false_iff.mpr fun hdir => by cases h.symm.trans (FileTree.isDirectory_iff.mp hdir)

theorem received_dir {op : UInt8} (h : after.get (rel ++ home) = some .dir) :
    (FileOperation.mk op (dummyFile after times home rel) none).received after (pathString there)
      (pathString rel) = operationAt there rel (op, true, none) := by
  have hpath : pathString (rel ++ there) = pathString there ++ pathString rel := pathString_append
  rw [FileOperation.received, dummyFile, operationAt, isDirectory_pathString, isDirectory_dir h,
    hpath, if_neg fun hfile => Bool.noConfusion hfile.1]

theorem received_file {op : UInt8} {c : Bytes} (h : after.get (rel ++ home) = some (.file c))
    (hop : op = opAdd ∨ op = opMod) :
    (FileOperation.mk op (dummyFile after times home rel) none).received after (pathString there)
      (pathString rel) = operationAt there rel (op, false, some c) := by
  have hpath : pathString (rel ++ there) = pathString there ++ pathString rel := pathString_append
  rw [FileOperation.received, dummyFile, operationAt, isDirectory_pathString, isDirectory_file h,
    if_pos ⟨rfl, hop⟩, read_pathString h, hpath]

theorem received_del :
    (FileOperation.mk opDel (dummyFile before times home rel) none).received after
      (pathString there) (pathString rel) =
      operationAt there rel (opDel, before.isDirectory (rel ++ home), none) := by
  have hpath : pathString (rel ++ there) = pathString there ++ pathString rel := pathString_append
  rw [FileOperation.received, operationAt, hpath, if_neg fun hop => by rcases hop.2 with h | h <;> cases h]
  rfl

/-- The batch has the operation of every path below the home directory. -/
theorem lookup_batch (hbefore : before.get home = some .dir) (hafter : after.get home = some .dir)
    (hbatch : ∀ k, batch.lookup k = ((writeFromFileMap (buildFileMap after times' (pathString home))
      (buildFileMap before times (pathString home))).received after (pathString there)).lookup k)
    (hrel : rel ≠ []) : batch.lookup (pathString rel) =
      (change (times (pathString (rel ++ home)) ≠ times' (pathString (rel ++ home)))
        (before.view home rel) (after.view home rel)).map (operationAt there rel) := by
  rw [hbatch, lookup_received, lookup_writeFromFileMap, FileSystem.view, FileSystem.view]
  cases hold : before.get (rel ++ home) with
  | none =>
      rw [lookup_buildFileMap_of_none hbefore hold]
      cases hnew : after.get (rel ++ home) with
      | none =>
          rw [lookup_buildFileMap_of_none hafter hnew]
          rfl
      | some node =>
          rw [lookup_buildFileMap_of_some hafter hrel hnew]
          cases node with
          | dir => exact congrArg some (received_dir hnew)
          | file c => exact congrArg some (received_file hnew (.inl rfl))
  | some old =>
      rw [lookup_buildFileMap_of_some hbefore hrel hold]
      cases hnew : after.get (rel ++ home) with
      | none =>
          rw [lookup_buildFileMap_of_none hafter hnew]
          refine (congrArg some received_del).trans ?_
          cases old with
          | dir =>
              rw [isDirectory_dir hold]
              rfl
          | file c =>
              rw [isDirectory_file hold]
              rfl
      | some node =>
          rw [lookup_buildFileMap_of_some hafter hrel hnew, difference]
          by_cases htime : times (pathString (rel ++ home)) ≠ times' (pathString (rel ++ home))
          · refine (congrArg _ (if_pos htime)).trans ?_
            rw [decide_eq_true htime]
            cases node with
            | dir =>
                refine (congrArg some (received_dir hnew)).trans ?_
                cases old <;> rfl
            | file c =>
                refine (congrArg some (received_file hnew (.inr rfl))).trans ?_
                cases old <;> rfl
          · refine (congrArg _ (if_neg htime)).trans ?_
            rw [decide_eq_false htime]
            cases node <;> cases old <;> rfl

/-! ### The first loop -/

variable {P C : View} {touch : Path → Bool} {c : UInt8 × Bool × Option Bytes}

/-- The trees of two scans. -/
structure Scans (P C : View) (touch : Path → Bool) : Prop where
  old_root : P [] = some .dir
  root : C [] = some .dir
  closed : ∀ {rel rel' : Path}, rel' <:+ rel → rel' ≠ rel → C rel ≠ none → C rel' = some .dir
  touched : ∀ rel c c', P rel = some (.file c) → C rel = some (.file c') → c ≠ c' →
    touch rel = true

/-- Each path is as it was or as it shall be. -/
def Between (P C V : View) : Prop := ∀ rel, V rel = C rel ∨ V rel = P rel

/-- The operation of a path. -/
def IsChange (P C : View) (touch : Path → Bool) (rel : Path) (c : UInt8 × Bool × Option Bytes) :
    Prop :=
  rel ≠ [] ∧ change (touch rel) (P rel) (C rel) = some c

/-- All that an operation can be. -/
theorem change_cases (h : change touched old new = some c) :
    old = none ∧ new = some .dir ∧ c = (opAdd, true, none) ∨
    (∃ b, old = none ∧ new = some (.file b) ∧ c = (opAdd, false, some b)) ∨
    old = some .dir ∧ new = none ∧ c = (opDel, true, none) ∨
    (∃ b, old = some (.file b) ∧ new = none ∧ c = (opDel, false, none)) ∨
    (∃ node, old = some node ∧ new = some .dir ∧ c = (opMod, true, none)) ∨
    ∃ node b, old = some node ∧ new = some (.file b) ∧ c = (opMod, false, some b) := by
  unfold change at h
  split at h
  · cases h
  · exact .inl ⟨rfl, rfl, (Option.some.inj h).symm⟩
  · exact .inr (.inl ⟨_, rfl, rfl, (Option.some.inj h).symm⟩)
  · exact .inr (.inr (.inl ⟨rfl, rfl, (Option.some.inj h).symm⟩))
  · exact .inr (.inr (.inr (.inl ⟨_, rfl, rfl, (Option.some.inj h).symm⟩)))
  · split at h
    · exact .inr (.inr (.inr (.inr (.inl ⟨_, rfl, rfl, (Option.some.inj h).symm⟩))))
    · cases h
  · split at h
    · exact .inr (.inr (.inr (.inr (.inr ⟨_, _, rfl, rfl, (Option.some.inj h).symm⟩))))
    · cases h

theorem change_del (h : change touched old new = some c) (hop : c.1 = opDel) : new = none := by
  rcases change_cases h with ⟨-, -, rfl⟩ | ⟨b, -, -, rfl⟩ | ⟨-, hnew, -⟩ | ⟨b, -, hnew, -⟩ |
    ⟨node, -, -, rfl⟩ | ⟨node, b, -, -, rfl⟩
  · exact absurd hop (show opAdd ≠ opDel by decide)
  · exact absurd hop (show opAdd ≠ opDel by decide)
  · exact hnew
  · exact hnew
  · exact absurd hop (show opMod ≠ opDel by decide)
  · exact absurd hop (show opMod ≠ opDel by decide)

theorem view_processDir_add (hbetween : Between P C (t.view there)) (hscans : Scans P C touch)
    (hkind : ∀ rel, ¬KindChange (P rel) (C rel)) (hC : C rel = some .dir) (q : Path) :
    (processDir t (operationAt there rel (opAdd, true, none))).view there q =
      if q <:+ rel then some .dir else t.view there q := by
  have hdirs : ∀ q, q <:+ rel → C q = some .dir := fun q hq => by
    by_cases heq : q = rel
    · exact heq ▸ hC
    · exact hscans.closed hq heq (hC.trans_ne (Option.some_ne_none _))
  have hthere : t.get there = some .dir :=
    (hbetween []).elim (fun h => h.trans hscans.root) fun h => h.trans hscans.old_root
  have hclear : ∀ a, a <:+ rel ++ there → ∀ c, t.get a ≠ some (.file c) := by
    intro a ha c hfile
    rcases List.suffix_or_suffix_of_suffix ha (List.suffix_append rel there) with ha' | ⟨q, rfl⟩
    · cases hfile.symm.trans ((FileTree.get_of_dir hthere a).trans (if_pos ha'))
    · have hq := hdirs q (List.suffix_append_self_iff.mp ha)
      rcases hbetween q with h | h
      · cases hfile.symm.trans (h.trans hq)
      · exact hkind q ⟨c, .inl ⟨h.symm.trans hfile, hq⟩⟩
  refine (get_processDir_add rfl rfl rfl hclear _).trans ?_
  exact if_congr List.suffix_append_self_iff rfl rfl

theorem view_processDir_del (hbetween : Between P C (t.view there)) (hrel : rel ≠ [])
    (hP : P rel = some .dir) (hC : C rel = none) (q : Path) :
    (processDir t (operationAt there rel (opDel, true, none))).view there q =
      if rel <:+ q then none else t.view there q := by
  have hnode := (hbetween rel).imp (fun h => h.trans hC) fun h => h.trans hP
  refine (get_processDir_del rfl rfl rfl (List.append_ne_nil_of_left_ne_nil hrel _) hnode _).trans ?_
  exact if_congr List.suffix_append_self_iff rfl rfl

/-- An operation makes a path what it shall be or leaves it alone, and makes its own directory. -/
theorem view_processDir (hbetween : Between P C (t.view there)) (hscans : Scans P C touch)
    (hkind : ∀ rel, ¬KindChange (P rel) (C rel)) (h : IsChange P C touch rel c) :
    (∀ q, (processDir t (operationAt there rel c)).view there q = C q ∨
      (processDir t (operationAt there rel c)).view there q = t.view there q) ∧
    (c.2.1 = true → c.1 ≠ opMod →
      (processDir t (operationAt there rel c)).view there rel = C rel) := by
  obtain ⟨hrel, h⟩ := h
  rcases change_cases h with ⟨-, hC, rfl⟩ | ⟨b, -, -, rfl⟩ | ⟨hP, hC, rfl⟩ | ⟨b, -, -, rfl⟩ |
    ⟨node, -, -, rfl⟩ | ⟨node, b, -, -, rfl⟩
  · have hget := view_processDir_add hbetween hscans hkind hC
    refine ⟨fun q => ?_, fun _ _ => ?_⟩
    · rw [hget]
      split
      · rename_i hq
        by_cases heq : q = rel
        · exact .inl (heq ▸ hC.symm)
        · exact .inl (hscans.closed hq heq (hC.trans_ne (Option.some_ne_none _))).symm
      · exact .inr rfl
    · rw [hget, if_pos List.suffix_rfl, hC]
  · rw [processDir_of_file rfl]
    exact ⟨fun q => .inr rfl, nofun⟩
  · have hget := view_processDir_del hbetween hrel hP hC
    refine ⟨fun q => ?_, fun _ _ => ?_⟩
    · rw [hget]
      split
      · rename_i hq
        have hnone : C q = none := by
          by_cases heq : rel = q
          · exact heq ▸ hC
          · exact not_not.mp fun hne => by cases hC.symm.trans (hscans.closed hq heq hne)
        exact .inl hnone.symm
      · exact .inr rfl
    · rw [hget, if_pos List.suffix_rfl, hC]
  · rw [processDir_of_file rfl]
    exact ⟨fun q => .inr rfl, nofun⟩
  · rw [processDir_mod rfl]
    exact ⟨fun q => .inr rfl, fun _ hne => absurd rfl hne⟩
  · rw [processDir_of_file rfl]
    exact ⟨fun q => .inr rfl, nofun⟩

/-- The operations are those of paths. -/
def AllChanges (P C : View) (touch : Path → Bool) (there : Path) (fos : List FileOperation) :
    Prop :=
  ∀ fo ∈ fos, ∃ rel c, IsChange P C touch rel c ∧ fo = operationAt there rel c

theorem operationAt_inj {c c' : UInt8 × Bool × Option Bytes}
    (h : operationAt there rel c = operationAt there rel' c') : rel = rel' ∧ c = c' := by
  obtain ⟨hop, hfile, hbytes⟩ := FileOperation.mk.inj h
  obtain ⟨hdir, hpath, -⟩ := DummyFile.mk.inj hfile
  exact ⟨List.append_cancel_right (pathString_injective hpath),
    Prod.ext hop (Prod.ext hdir hbytes)⟩

/-- After the first loop every directory is as it shall be. -/
theorem view_processDirs (hbetween : Between P C (t.view there)) (hscans : Scans P C touch)
    (hkind : ∀ rel, ¬KindChange (P rel) (C rel)) (hfos : AllChanges P C touch there fos) (q : Path) :
    (fos.foldl processDir t).view there q = C q ∨
      (fos.foldl processDir t).view there q = t.view there q ∧
        ∀ c, operationAt there q c ∈ fos → c.2.1 = true → c.1 = opMod := by
  induction fos generalizing t with
  | nil => exact .inr ⟨rfl, fun _ h => absurd h List.not_mem_nil⟩
  | cons fo fos ih =>
      obtain ⟨rel, c, hc, rfl⟩ := hfos fo List.mem_cons_self
      obtain ⟨hother, hself⟩ := view_processDir hbetween hscans hkind hc
      have hbetween' : Between P C ((processDir t (operationAt there rel c)).view there) := fun q =>
        (hother q).elim .inl fun h => (hbetween q).imp h.trans h.trans
      rcases ih hbetween' (fun fo hfo => hfos fo (List.mem_cons_of_mem _ hfo)) with h | ⟨h, hdone⟩
      · exact .inl h
      rw [List.foldl_cons, h]
      by_cases hmade : q = rel ∧ c.2.1 = true ∧ c.1 ≠ opMod
      · obtain ⟨rfl, hdir, hop⟩ := hmade
        exact .inl (hself hdir hop)
      refine (hother q).imp_right fun hsame => ⟨hsame, fun c' hc' hdir => ?_⟩
      rcases List.mem_cons.mp hc' with heq | hc'
      · obtain ⟨rfl, rfl⟩ := operationAt_inj heq
        exact not_not.mp fun hop => hmade ⟨rfl, hdir, hop⟩
      · exact hdone c' hc' hdir

/-! ### The second loop -/

/-- What is not yet as it shall be is no directory, neither before nor after. -/
def FilesLeft (P C V : View) : Prop :=
  ∀ rel, V rel = C rel ∨ V rel = P rel ∧ P rel ≠ some .dir ∧ C rel ≠ some .dir

theorem FilesLeft.ne_dir {V : View} (h : FilesLeft P C V) (hC : C rel ≠ some .dir) :
    V rel ≠ some .dir := by
  rcases h rel with h | ⟨h, hP, -⟩
  · exact h.symm ▸ hC
  · exact h.symm ▸ hP

theorem FilesLeft.eq_dir {V : View} (h : FilesLeft P C V) (hC : C rel = some .dir) :
    V rel = some .dir :=
  (h rel).elim (fun h => h.trans hC) fun h => absurd hC h.2.2

theorem view_write {op : UInt8} {b : Bytes} (hleft : FilesLeft P C (t.view there))
    (hscans : Scans P C touch) (hrel : rel ≠ []) (hop : op = opAdd ∨ op = opMod)
    (hC : C rel = some (.file b)) :
    ∃ t', processFile t (operationAt there rel (op, false, some b)) = (true, t') ∧
      ∀ q, t'.view there q = if q = rel then C rel else t.view there q := by
  obtain ⟨n, r, rfl⟩ := List.exists_cons_of_ne_nil hrel
  have hparent : C r = some .dir :=
    hscans.closed (List.suffix_cons n r) (List.cons_ne_self n r).symm (hC.trans_ne nofun)
  have hnode : t.view there (n :: r) ≠ some .dir := hleft.ne_dir (hC.trans_ne nofun)
  have hfile : (operationAt there (n :: r) (op, false, some b)).file.file =
    pathString (n :: (r ++ there)) := rfl
  obtain ⟨t', hrun, hget⟩ := processFile_write hfile rfl hop rfl (hleft.eq_dir hparent) hnode
  refine ⟨t', hrun, fun q => (hget _).trans ?_⟩
  rw [hC]
  have hinj : q ++ there = n :: r ++ there ↔ q = n :: r := List.append_left_inj there
  exact if_congr hinj rfl rfl

theorem view_processFile (hleft : FilesLeft P C (t.view there)) (hscans : Scans P C touch)
    (h : IsChange P C touch rel c) :
    ∃ t', processFile t (operationAt there rel c) = (true, t') ∧
      ∀ q, t'.view there q = if q = rel ∧ c.2.1 = false then C rel else t.view there q := by
  obtain ⟨hrel, h⟩ := h
  have hskip : ∀ op b, ∃ t', processFile t (operationAt there rel (op, true, b)) = (true, t') ∧
      ∀ q, t'.view there q = if q = rel ∧ true = false then C rel else t.view there q :=
    fun op b => ⟨t, processFile_of_dir rfl, fun q => (if_neg fun h => nomatch h.2).symm⟩
  rcases change_cases h with ⟨-, -, rfl⟩ | ⟨b, -, hC, rfl⟩ | ⟨-, -, rfl⟩ | ⟨b, hP, hC, rfl⟩ |
    ⟨node, -, -, rfl⟩ | ⟨node, b, -, hC, rfl⟩
  · exact hskip _ _
  · obtain ⟨t', hrun, hview⟩ := view_write hleft hscans hrel (.inl rfl) hC
    exact ⟨t', hrun, fun q => (hview q).trans (if_congr (and_iff_left rfl).symm rfl rfl)⟩
  · exact hskip _ _
  · have hfile : (operationAt there rel (opDel, false, none)).file.file =
      pathString (rel ++ there) := rfl
    obtain ⟨t', hrun, hget⟩ := processFile_del hfile rfl rfl
      (List.append_ne_nil_of_left_ne_nil hrel there) (hleft.ne_dir (hC.trans_ne nofun))
    refine ⟨t', hrun, fun q => (hget _).trans ?_⟩
    rw [hC]
    exact if_congr ((List.append_left_inj there).trans (and_iff_left rfl).symm) rfl rfl
  · exact hskip _ _
  · obtain ⟨t', hrun, hview⟩ := view_write hleft hscans hrel (.inr rfl) hC
    exact ⟨t', hrun, fun q => (hview q).trans (if_congr (and_iff_left rfl).symm rfl rfl)⟩

/-- After the second loop every file with an operation is as it shall be. -/
theorem view_processFiles (hleft : FilesLeft P C (t.view there)) (hscans : Scans P C touch)
    (hfos : AllChanges P C touch there fos) :
    ∃ t', processFiles t fos = (true, t') ∧ ∀ q, t'.view there q = C q ∨
      t'.view there q = t.view there q ∧ ∀ c, operationAt there q c ∈ fos → c.2.1 = true := by
  induction fos generalizing t with
  | nil => exact ⟨t, rfl, fun q => .inr ⟨rfl, fun _ h => absurd h List.not_mem_nil⟩⟩
  | cons fo fos ih =>
      obtain ⟨rel, c, hc, rfl⟩ := hfos fo List.mem_cons_self
      obtain ⟨t₁, hrun₁, hview₁⟩ := view_processFile hleft hscans hc
      have hleft₁ : FilesLeft P C (t₁.view there) := fun q => by
        rw [hview₁]
        split
        · rename_i hq
          exact .inl (hq.1 ▸ rfl)
        · exact hleft q
      obtain ⟨t', hrun, hview⟩ := ih hleft₁ fun fo hfo => hfos fo (List.mem_cons_of_mem _ hfo)
      refine ⟨t', ?_, fun q => ?_⟩
      · rw [processFiles, hrun₁]
        exact hrun
      rcases hview q with h | ⟨h, hdone⟩
      · exact .inl h
      rw [h, hview₁]
      split
      · rename_i hq
        exact .inl (hq.1 ▸ rfl)
      · rename_i hq
        refine .inr ⟨rfl, fun c' hc' => ?_⟩
        rcases List.mem_cons.mp hc' with heq | hc'
        · obtain ⟨rfl, rfl⟩ := operationAt_inj heq
          exact Bool.not_eq_false _ ▸ fun hfile => hq ⟨rfl, hfile⟩
        · exact hdone c' hc'

/-! ### Both loops -/

/-- The operations of all paths. -/
structure Lists (P C : View) (touch : Path → Bool) (there : Path) (fos : List FileOperation) :
    Prop where
  changes : AllChanges P C touch there fos
  all : ∀ rel c, IsChange P C touch rel c → operationAt there rel c ∈ fos

theorem filesLeft_processDirs (hview : ∀ rel, t.view there rel = P rel) (hscans : Scans P C touch)
    (hkind : ∀ rel, ¬KindChange (P rel) (C rel)) (hlist : Lists P C touch there fos) :
    FilesLeft P C ((fos.foldl processDir t).view there) := by
  intro q
  rcases view_processDirs (fun rel => .inr (hview rel)) hscans hkind hlist.changes q with
    h | ⟨h, hdone⟩
  · exact .inl h
  rw [hview] at h
  -- a directory on one side alone would have had an operation in this loop
  have hop : ∀ op, op ≠ opMod → ¬change (touch q) (P q) (C q) = some (op, true, none) := by
    intro op hne hchange
    have hq : q ≠ [] := by
      rintro rfl
      rw [hscans.old_root, hscans.root] at hchange
      cases htouch : touch [] with
      | false =>
          rw [htouch] at hchange
          cases hchange
      | true =>
          rw [htouch] at hchange
          exact hne (Prod.mk.inj (Option.some.inj hchange)).1.symm
    exact hne (hdone _ (hlist.all q _ ⟨hq, hchange⟩) rfl)
  cases hP : P q with
  | none =>
      cases hC : C q with
      | none => exact .inl (h.trans hP)
      | some node =>
          cases node with
          | dir => exact absurd (by rw [hP, hC]; rfl) (hop opAdd (by decide))
          | file b => exact .inr ⟨h.trans hP, nofun, nofun⟩
  | some node =>
      cases hC : C q with
      | none =>
          cases node with
          | dir => exact absurd (by rw [hP, hC]; rfl) (hop opDel (by decide))
          | file b => exact .inr ⟨h.trans hP, nofun, nofun⟩
      | some node' =>
          cases node with
          | dir =>
              cases node' with
              | dir => exact .inl (h.trans hP)
              | file b => exact absurd ⟨b, .inr ⟨hP, hC⟩⟩ (hkind q)
          | file b =>
              cases node' with
              | dir => exact absurd ⟨b, .inl ⟨hP, hC⟩⟩ (hkind q)
              | file b' => exact .inr ⟨h.trans hP, nofun, nofun⟩

theorem FilesLeft.isChange {V : View} (hleft : FilesLeft P C V) (hscans : Scans P C touch)
    {q : Path} (h : V q ≠ C q) : ∃ c, IsChange P C touch q c ∧ c.2.1 = false := by
  obtain ⟨hV, hP', hC'⟩ := (hleft q).resolve_left h
  have hq : q ≠ [] := fun heq => hC' (heq ▸ hscans.root)
  cases hP : P q with
  | none =>
      cases hC : C q with
      | none => exact absurd (hV.trans (hP.trans hC.symm)) h
      | some node =>
          cases node with
          | dir => exact absurd hC hC'
          | file b => exact ⟨(opAdd, false, some b), ⟨hq, by rw [hP, hC]; rfl⟩, rfl⟩
  | some node =>
      cases node with
      | dir => exact absurd hP hP'
      | file b =>
          cases hC : C q with
          | none => exact ⟨(opDel, false, none), ⟨hq, by rw [hP, hC]; rfl⟩, rfl⟩
          | some node =>
              cases node with
              | dir => exact absurd hC hC'
              | file b' =>
                  have hne : b ≠ b' := fun heq => h (hV.trans (hP.trans (heq ▸ hC.symm)))
                  have htouch := hscans.touched q b b' hP hC hne
                  refine ⟨(opMod, false, some b'), ⟨hq, ?_⟩, rfl⟩
                  rw [hP, hC, htouch]
                  rfl

/-- Without a change of kind the receiver ends with the tree of the sender. -/
theorem process_view (hview : ∀ rel, t.view there rel = P rel) (hscans : Scans P C touch)
    (hkind : ∀ rel, ¬KindChange (P rel) (C rel)) (hlist : Lists P C touch there fos) :
    ∃ t', processFiles (fos.foldl processDir t) fos = (true, t') ∧
      ∀ rel, t'.view there rel = C rel := by
  have hleft := filesLeft_processDirs hview hscans hkind hlist
  obtain ⟨t', hrun, h⟩ := view_processFiles hleft hscans hlist.changes
  refine ⟨t', hrun, fun rel => (h rel).elim id fun ⟨hsame, hdone⟩ => ?_⟩
  rw [hsame]
  by_contra hne
  obtain ⟨c, hc, hfile⟩ := hleft.isChange hscans hne
  exact Bool.noConfusion (hfile.symm.trans (hdone c (hlist.all rel c hc)))

/-! ### A change of kind -/

theorem view_kindChange_dir (hscans : Scans P C touch) (hkind : KindChange (P rel) (C rel))
    (hfos : AllChanges P C touch there fos) (hview : t.view there rel = P rel) :
    (fos.foldl processDir t).view there rel = P rel := by
  induction fos generalizing t with
  | nil => exact hview
  | cons fo fos ih =>
      refine ih (fun fo hfo => hfos fo (List.mem_cons_of_mem _ hfo)) ?_
      obtain ⟨rel', c, ⟨hrel', hc⟩, rfl⟩ := hfos fo List.mem_cons_self
      have hsome : P rel ≠ none ∧ C rel ≠ none := by
        obtain ⟨b, ⟨hP, hC⟩ | ⟨hP, hC⟩⟩ := hkind <;> exact ⟨hP.trans_ne nofun, hC.trans_ne nofun⟩
      have hcanon : canonicalPath (operationAt there rel' c).file.file = rel' ++ there :=
        canonicalPath_pathString
      have hframe : (processDir t (operationAt there rel' c)).get (rel ++ there) =
          t.get (rel ++ there) ∨ _ := get_processDir_eq_or (rel ++ there)
      rcases hframe with h | ⟨hop, hsuf⟩ | ⟨-, -, hnone⟩
      · exact h.trans hview
      · rw [hcanon] at hsuf
        -- what is deleted has nothing below it at the sender
        have hdel := change_del hc hop
        have hsuf' := List.suffix_append_self_iff.mp hsuf
        by_cases heq : rel' = rel
        · exact absurd (heq ▸ hdel) hsome.2
        · cases hdel.symm.trans (hscans.closed hsuf' heq hsome.2)
      · exact absurd (hview.symm.trans hnone) hsome.1

theorem processFile_kindChange (hkind : KindChange (P rel) (C rel))
    (hview : t.view there rel = P rel) (hc : change touched (P rel) (C rel) = some c)
    (hrun : (processFile t (operationAt there rel c)).1 = true) :
    processFile t (operationAt there rel c) = (true, t) := by
  have hdir : c.2.1 = true := by
    rcases change_cases hc with ⟨-, -, rfl⟩ | ⟨b, hP, -, rfl⟩ | ⟨-, -, rfl⟩ | ⟨b, -, hC, rfl⟩ |
      ⟨node, -, -, rfl⟩ | ⟨node, b, -, hC, rfl⟩
    · rfl
    · obtain ⟨b', ⟨hP', -⟩ | ⟨hP', -⟩⟩ := hkind <;> cases hP.symm.trans hP'
    · rfl
    · obtain ⟨b', ⟨-, hC'⟩ | ⟨-, hC'⟩⟩ := hkind <;> cases hC.symm.trans hC'
    · rfl
    · obtain ⟨b', ⟨-, hC'⟩ | ⟨hP', -⟩⟩ := hkind
      · cases hC.symm.trans hC'
      · rw [processFile_raises rfl rfl (.inr rfl) rfl (hview.trans hP')] at hrun
        cases hrun
  exact processFile_of_dir hdir

/-- A path that has changed its kind stays as it was, or there is an exception. -/
theorem view_kindChange (hkind : KindChange (P rel) (C rel)) (hfos : AllChanges P C touch there fos)
    (hview : t.view there rel = P rel) (hrun : (processFiles t fos).1 = true) :
    (processFiles t fos).2.view there rel = P rel := by
  induction fos generalizing t with
  | nil => exact hview
  | cons fo fos ih =>
      obtain ⟨rel', c, ⟨-, hc⟩, rfl⟩ := hfos fo List.mem_cons_self
      rw [processFiles_cons] at hrun ⊢
      split at hrun
      · rename_i hok
        rw [if_pos hok]
        refine ih (fun fo hfo => hfos fo (List.mem_cons_of_mem _ hfo)) ?_ hrun
        by_cases heq : rel' = rel
        · subst heq
          rw [processFile_kindChange hkind hview hc hok]
          exact hview
        · refine (get_processFile_of_ne fun h => heq ?_).trans hview
          rw [operationAt, canonicalPath_pathString] at h
          exact (List.append_cancel_right h).symm
      · exact absurd hrun ‹_›

/-! ### The maps -/

/-- What the sender has at its two scans. -/
theorem scans_view (hbefore : before.get home = some .dir) (hafter : after.get home = some .dir)
    (htimes : ∀ rel c c', before.view home rel = some (.file c) →
      after.view home rel = some (.file c') → c ≠ c' →
      times (pathString (rel ++ home)) ≠ times' (pathString (rel ++ home))) :
    Scans (before.view home) (after.view home) fun rel =>
      times (pathString (rel ++ home)) ≠ times' (pathString (rel ++ home)) where
  old_root := hbefore
  root := hafter
  closed hsuf hne hget := FileTree.get_of_suffix (List.suffix_append_self_iff.mpr hsuf)
    (fun h => hne (List.append_cancel_right h)) hget
  touched rel c c' hP hC hne := decide_eq_true (htimes rel c c' hP hC hne)

theorem lists_batch (hbefore : before.get home = some .dir) (hafter : after.get home = some .dir)
    (hbatch : ∀ k, batch.lookup k = ((writeFromFileMap (buildFileMap after times' (pathString home))
      (buildFileMap before times (pathString home))).received after (pathString there)).lookup k) :
    Lists (before.view home) (after.view home)
      (fun rel => times (pathString (rel ++ home)) ≠ times' (pathString (rel ++ home))) there
      (batch.entries.map Sigma.snd) := by
  have hlookup := fun (rel : Path) (hrel : rel ≠ []) => lookup_batch hbefore hafter hbatch hrel
  constructor
  · intro fo hfo
    obtain ⟨⟨k, fo⟩, hmem, rfl⟩ := List.mem_map.mp hfo
    have hk := HashMap.mem_entries.mp hmem
    have hpath : ∃ rel, k = pathString rel ∧ rel ≠ [] := by
      have hne : batch.lookup k ≠ none := hk.trans_ne (Option.some_ne_none _)
      rw [hbatch, lookup_received, lookup_writeFromFileMap] at hne
      by_cases hcur : (buildFileMap after times' (pathString home)).lookup k = none
      · by_cases hprev : (buildFileMap before times (pathString home)).lookup k = none
        · rw [hcur, hprev] at hne
          exact absurd rfl hne
        · exact exists_of_lookup_buildFileMap hbefore hprev
      · exact exists_of_lookup_buildFileMap hafter hcur
    obtain ⟨rel, rfl, hrel⟩ := hpath
    rw [hlookup rel hrel] at hk
    obtain ⟨c, hc, hfo⟩ := Option.map_eq_some_iff.mp hk
    exact ⟨rel, c, ⟨hrel, hc⟩, hfo.symm⟩
  · rintro rel c ⟨hrel, hc⟩
    refine List.mem_map.mpr ⟨⟨pathString rel, operationAt there rel c⟩, ?_, rfl⟩
    rw [HashMap.mem_entries, hlookup rel hrel, hc]
    rfl

theorem not_kindChange_self (node : Option (Node Bytes)) : ¬KindChange node node := by
  rintro ⟨c, ⟨h, h'⟩ | ⟨h, h'⟩⟩ <;> cases h.symm.trans h'

theorem KindChange.ne (h : KindChange old new) : old ≠ new := by
  rintro rfl
  exact not_kindChange_self old h

/-- A change of kind is not transferred. -/
theorem not_transferred (hbefore : before.get home = some .dir) (hafter : after.get home = some .dir)
    (hreceiver : ∀ rel, t.view there rel = before.view home rel)
    (htimes : ∀ rel c c', before.view home rel = some (.file c) →
      after.view home rel = some (.file c') → c ≠ c' →
      times (pathString (rel ++ home)) ≠ times' (pathString (rel ++ home)))
    (hbatch : ∀ k, batch.lookup k = ((writeFromFileMap (buildFileMap after times' (pathString home))
      (buildFileMap before times (pathString home))).received after (pathString there)).lookup k)
    (hkind : KindChange (before.view home rel) (after.view home rel))
    (hrun : (processReceivedFileMap t batch).1 = true) :
    (processReceivedFileMap t batch).2.view there rel ≠ after.view home rel := by
  have hlist := lists_batch hbefore hafter hbatch
  have hdirs := view_kindChange_dir (scans_view hbefore hafter htimes) hkind hlist.changes
    (hreceiver rel)
  intro heq
  exact hkind.ne ((view_kindChange hkind hlist.changes hdirs hrun).symm.trans heq)

def shared : FileName := ⟨java "shared", by decide⟩

def note : FileName := ⟨java "note", by decide⟩

def homeOnly : FileSystem := (FileTree.empty.mkdir [shared]).2

def withFile (c : Bytes) : FileSystem := (homeOnly.write c [note, shared]).getD homeOnly

def withDir : FileSystem := (homeOnly.mkdir [note, shared]).2

theorem get_withFile (c : Bytes) (q : Path) :
    (withFile c).get q = if q = [note, shared] then some (.file c) else homeOnly.get q := by
  have hwrite : homeOnly.write c [note, shared] = some (withFile c) := rfl
  exact FileTree.get_write hwrite q

theorem times_ne : (0 : Int64) ≠ 1 := by decide

end CodingSample.Dropbox
