import CodingSample.Dropbox.Batches

/-!
# Confinement to a home directory

A name of a batch is appended to the home directory as it is. A path outside the home directory
changes only for a name that leads outside.
-/

namespace CodingSample.Dropbox

open DropboxFileManager

/-- What a peer does with the stream after a data head. Nothing is changed when the stream cannot be
parsed. -/
def receiveBatch (newString : Bytes → JString) (home : JString) (s : InputStream)
    (t : FileSystem) : Bool × FileSystem :=
  match SyncStreamParser.parseFileMap newString home s with
  | none => (false, t)
  | some (fileMap, _) => processReceivedFileMap t fileMap

def StrictlyBelow (home p : Path) : Prop := home <:+ p ∧ p ≠ home

instance {home p : Path} : Decidable (StrictlyBelow home p) := inferInstanceAs (Decidable (_ ∧ _))

/-- The paths at, below and above a path. -/
def Related (p q : Path) : Prop := p <:+ q ∨ q <:+ p

variable {t u : FileSystem} {home q : Path} {fo : FileOperation} {fos : List FileOperation}
  {fileMap : HashMap FileOperation} {newString : Bytes → JString} {s s' : InputStream}

/-- The operation leads below the home directory, or has nothing to do with the path. -/
def Aside (home q : Path) (fo : FileOperation) : Prop :=
  StrictlyBelow home (canonicalPath fo.file.file) ∨ ¬Related (canonicalPath fo.file.file) q

theorem get_processDir_of_aside (hhome : t.get home = some .dir) (hq : ¬StrictlyBelow home q)
    (hu : u.get q = t.get q) (hfo : Aside home q fo) : (processDir u fo).get q = t.get q := by
  rcases get_processDir_eq_or q with h | ⟨-, hsuf⟩ | ⟨-, hsuf, hnone⟩
  · exact h.trans hu
  · rcases hfo with ⟨hbelow, hne⟩ | hfo
    · refine absurd ⟨hbelow.trans hsuf, ?_⟩ hq
      rintro rfl
      exact hne (hsuf.eq_of_length (Nat.le_antisymm hsuf.length_le hbelow.length_le))
    · exact absurd (.inl hsuf) hfo
  · rcases hfo with ⟨hbelow, hne⟩ | hfo
    · -- what is made for a name below the home directory was not there, so it is below as well
      rcases List.suffix_or_suffix_of_suffix hsuf hbelow with habove | hbelow'
      · rw [hu, FileTree.get_of_dir hhome q, if_pos habove] at hnone
        cases hnone
      · refine absurd ⟨hbelow', ?_⟩ hq
        rintro rfl
        cases (hu.symm.trans hnone).symm.trans hhome
    · exact absurd (.inr hsuf) hfo

theorem get_processFile_of_aside (hq : ¬StrictlyBelow home q) (hfo : Aside home q fo) :
    (processFile u fo).2.get q = u.get q := by
  refine get_processFile_of_ne ?_
  rintro rfl
  exact hfo.elim hq fun h => h (.inl List.suffix_rfl)

theorem get_processReceived_of_aside (hhome : t.get home = some .dir) (hq : ¬StrictlyBelow home q)
    (hfos : ∀ fo ∈ fos, Aside home q fo) :
    (processFiles (fos.foldl processDir t) fos).2.get q = t.get q := by
  have hdirs : ∀ fos' : List FileOperation, (∀ fo ∈ fos', Aside home q fo) →
      ∀ u : FileSystem, u.get q = t.get q → (fos'.foldl processDir u).get q = t.get q := by
    intro fos'
    induction fos' with
    | nil => exact fun _ _ hu => hu
    | cons fo fos' ih =>
        intro h u hu
        exact ih (fun fo hfo => h fo (List.mem_cons_of_mem _ hfo)) _
          (get_processDir_of_aside hhome hq hu (h fo List.mem_cons_self))
  have hfiles : ∀ fos' : List FileOperation, (∀ fo ∈ fos', Aside home q fo) →
      ∀ u : FileSystem, (processFiles u fos').2.get q = u.get q := by
    intro fos'
    induction fos' with
    | nil => exact fun _ _ => rfl
    | cons fo fos' ih =>
        intro h u
        have hstep := get_processFile_of_aside (u := u) hq (h fo List.mem_cons_self)
        rw [processFiles_cons]
        split
        · exact (ih (fun fo hfo => h fo (List.mem_cons_of_mem _ hfo)) _).trans hstep
        · exact hstep
  exact (hfiles fos hfos _).trans (hdirs fos hfos t rfl)

theorem parseFileMap_read {home : JString}
    (h : SyncStreamParser.parseFileMap newString home s = some (fileMap, s')) :
    ∀ key fo, fileMap.lookup key = some fo → fo.Read home key := by
  obtain ⟨⟨targetHome, s₁⟩, -, h⟩ := Option.bind_eq_some_iff.mp h
  obtain ⟨⟨fileNum, s₂⟩, -, h⟩ := Option.bind_eq_some_iff.mp h
  exact readAll_read h fun _ _ => nofun

/-- A path that is not below the home directory changes only for a name of the batch that leads to
it, below it or above it and is not below the home directory itself. -/
theorem receiveBatch_confined {newString : Bytes → JString} {home q : Path} {s : InputStream}
    {t : FileSystem} (hhome : t.get home = some .dir)
    (hq : (receiveBatch newString (pathString home) s t).2.get q ≠ t.get q) :
    StrictlyBelow home q ∨ ∃ fileMap s' key,
      SyncStreamParser.parseFileMap newString (pathString home) s = some (fileMap, s') ∧
      key ∈ fileMap ∧ ¬StrictlyBelow home (canonicalPath (pathString home ++ key)) ∧
      Related (canonicalPath (pathString home ++ key)) q := by
  by_contra hnot
  obtain ⟨hbelow, hnames⟩ := not_or.mp hnot
  refine hq ?_
  rw [receiveBatch]
  cases hparse : SyncStreamParser.parseFileMap newString (pathString home) s with
  | none => rfl
  | some r =>
      obtain ⟨fileMap, s'⟩ := r
      refine get_processReceived_of_aside hhome hbelow fun fo hfo => ?_
      obtain ⟨⟨key, fo⟩, hmem, rfl⟩ := List.mem_map.mp hfo
      have hlookup := HashMap.mem_entries.mp hmem
      have hkey : key ∈ fileMap := AList.lookup_isSome.mp (Option.isSome_iff_exists.mpr ⟨fo, hlookup⟩)
      have hfile := (parseFileMap_read hparse key fo hlookup).file
      unfold Aside
      rw [hfile]
      by_contra haside
      obtain ⟨hout, hrel⟩ := not_or.mp haside
      exact hnames ⟨fileMap, s', key, hparse, hkey, hout, not_not.mp hrel⟩

/-! ### A neighbour -/

def other : FileName := ⟨java "other", by decide⟩

/-- Two home directories, and a file in the second. -/
def neighbours : FileSystem := ((homeOnly.mkdir [other]).2.write [7] [note, other]).getD homeOnly

/-- A batch that deletes the directory `/../other`. -/
def intruder : InputStream :=
  ⟨[0, 0, 0, 0, 0, 0, 0, 1, 0, 0, 0, 9] ++ latin (java "/../other") ++
    [0, 0, 0, 0, 0, 0, 0, 0, opDel, 1], []⟩

theorem neighbour_deleted : ∃ (newString : Bytes → JString) (home q : Path) (s : InputStream)
    (t : FileSystem), t.get home = some .dir ∧ ¬StrictlyBelow home q ∧
      (receiveBatch newString (pathString home) s t).2.get q ≠ t.get q :=
  ⟨ofLatin, [shared], [note, other], intruder, neighbours, by decide, by decide, by decide⟩

theorem receiveBatch_confined_intruder :
    StrictlyBelow [shared] [note, other] ∨ ∃ fileMap s' key,
      SyncStreamParser.parseFileMap ofLatin (pathString [shared]) intruder = some (fileMap, s') ∧
      key ∈ fileMap ∧ ¬StrictlyBelow [shared] (canonicalPath (pathString [shared] ++ key)) ∧
      Related (canonicalPath (pathString [shared] ++ key)) [note, other] :=
  receiveBatch_confined (q := [note, other]) (t := neighbours) (by decide) (by decide)

end CodingSample.Dropbox
