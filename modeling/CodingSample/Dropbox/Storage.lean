import CodingSample.Dropbox.Accounts
import Mathlib.Data.List.Sort

/-!
# Stored accounts

The file `clients.txt` that a file server keeps of its table of clients, and what a new server loads
from it. The character set of the platform encodes all names and passwords.
-/

namespace CodingSample.Dropbox

def newline : UInt16 := 10

/-- The lines that `BufferedReader.readLine` finds. -/
def readLines : JString → List JString
  | [] => []
  | 10 :: s => [] :: readLines s
  | 13 :: 10 :: s => [] :: readLines s
  | 13 :: s => [] :: readLines s
  | c :: s =>
      match readLines s with
      | [] => [[c]]
      | line :: rest => (c :: line) :: rest

/-- The table of a file server with the text of its file. A file that is missing has no text. -/
structure Storage where
  clients : ClientTable
  file : JString

/-- One line of the file. -/
def clientLine (name password : JString) : JString := unwords [name, password] ++ [newline]

namespace Storage

variable (s : Storage)

def appendClientToFile (name password : JString) : Storage :=
  { s with file := s.file ++ clientLine name password }

/-- The entries in the order of a `TreeMap`. -/
def sorted : List (Σ _ : JString, JString) :=
  s.clients.entries.insertionSort fun e e' => e.1 ≤ e'.1

def writeClientsToFile : Storage :=
  { s with file := s.sorted.flatMap fun e => clientLine e.1 e.2 }

def changePassword (name oldPassword password : JString) : Bool × Storage :=
  if s.clients.lookup name = some oldPassword then
    (true, { s with clients := s.clients.insert name password })
  else (false, s)

def addClient (disk : Disk) (clientName password : JString) (nocheck : Bool) : Bool × Storage :=
  if clientName ∈ s.clients then (false, s)
  else
    let added : Storage := { s with clients := s.clients.insert clientName password }
    if disk.dirExists then if nocheck then (true, added) else (false, s)
    else if disk.mkdir then (true, added.appendClientToFile clientName password)
    else (false, s)

def removeClient (disk : Disk) (clientName : JString) : Bool × Storage :=
  if clientName ∈ s.clients then
    let removed : Storage := { s with clients := s.clients.erase clientName }
    (disk.delete, if disk.delete then removed.writeClientsToFile else removed)
  else (false, s)

/-- The loop of `loadClientsFromFile`. A line without two words is an exception. What the loop
appends to the file is there already, so reading it as well would change nothing. -/
def loadLines (disk : JString → Disk) : List JString → Storage → Storage
  | [], s => s
  | nextLine :: rest, s =>
      match tokens nextLine with
      | [name, password] => loadLines disk rest (s.addClient (disk name) name password true).2
      | _ => s

end Storage

def loadClientsFromFile (disk : JString → Disk) (file : JString) : Storage :=
  Storage.loadLines disk (readLines file) ⟨∅, file⟩

/-! ### Reading the file back -/

/-- A name or a password. -/
abbrev Word := { word : JString // IsToken word }

/-- The file with one line for each of the accounts. -/
def fileText (accounts : List (Word × Word)) : JString :=
  accounts.flatMap fun account => clientLine account.1 account.2

/-- The password of the first account with the name. -/
def lookupFirst (accounts : List (Word × Word)) (name : JString) : Option JString :=
  (accounts.find? fun account => account.1.1 = name).map fun account => account.2.1

section Lines

variable {line s : JString} {accounts accounts' : List (Word × Word)} {name password : JString}

theorem readLines_append (h : ∀ c ∈ line, c ≠ 10 ∧ c ≠ 13) :
    readLines (line ++ newline :: s) = line :: readLines s := by
  induction line with
  | nil => rfl
  | cons c line ih =>
      obtain ⟨hnewline, hreturn⟩ := h c List.mem_cons_self
      have hrest := ih fun c' hc' => h c' (List.mem_cons_of_mem c hc')
      rw [List.cons_append, readLines, hrest]
      · exact hnewline
      · exact fun s' hc => absurd hc hreturn
      · exact hreturn

theorem isToken_ne {word : JString} (h : IsToken word) : ∀ c ∈ word, c ≠ 10 ∧ c ≠ 13 := by
  intro c hc
  have hdelim := h.2 c hc
  refine ⟨?_, ?_⟩
  · rintro rfl
    exact absurd hdelim (by decide)
  · rintro rfl
    exact absurd hdelim (by decide)

theorem readLines_clientLine (hname : IsToken name) (hpassword : IsToken password) :
    readLines (clientLine name password ++ s) = unwords [name, password] :: readLines s := by
  rw [clientLine, List.append_assoc, List.singleton_append]
  refine readLines_append fun c hc => ?_
  rcases List.mem_append.mp hc with hc | hc
  · exact isToken_ne hname c hc
  · rcases List.mem_cons.mp hc with rfl | hc
    · decide
    · exact isToken_ne hpassword c hc

theorem readLines_fileText :
    readLines (fileText accounts) = accounts.map fun account => unwords [account.1, account.2] := by
  induction accounts with
  | nil => rfl
  | cons account accounts ih =>
      rw [fileText, List.flatMap_cons, readLines_clientLine account.1.2 account.2.2]
      exact congrArg _ ih

theorem fileText_append :
    fileText (accounts ++ accounts') = fileText accounts ++ fileText accounts' :=
  List.flatMap_append

theorem fileText_singleton {account : Word × Word} :
    fileText [account] = clientLine account.1 account.2 :=
  List.flatMap_singleton _ _

theorem tokens_clientLine (hname : IsToken name) (hpassword : IsToken password) :
    tokens (unwords [name, password]) = [name, password] := by
  refine tokens_unwords fun word hword => ?_
  simp only [List.mem_cons, List.not_mem_nil, or_false] at hword
  rcases hword with rfl | rfl
  · exact hname
  · exact hpassword

theorem lookupFirst_cons {account : Word × Word} : lookupFirst (account :: accounts) name =
    (if account.1.1 = name then some account.2.1 else none).or (lookupFirst accounts name) := by
  rw [lookupFirst, List.find?_cons]
  by_cases hname : account.1.1 = name
  · rw [decide_eq_true hname, if_pos hname]
    rfl
  · rw [decide_eq_false hname, if_neg hname]
    rfl

theorem lookupFirst_append :
    lookupFirst (accounts ++ accounts') name =
      (lookupFirst accounts name).or (lookupFirst accounts' name) := by
  rw [lookupFirst, List.find?_append, Option.map_or]
  rfl

end Lines

namespace Storage

variable {s : Storage} {disk : Disk} {disks : JString → Disk} {name password : JString}
  {accounts : List (Word × Word)}

/-- A directory that does not exist can be made. -/
def Permits (disks : JString → Disk) : Prop := ∀ name, (disks name).dirExists ∨ (disks name).mkdir

theorem lookup_addClient (hdisk : disk.dirExists ∨ disk.mkdir) (name' : JString) :
    (s.addClient disk name password true).2.clients.lookup name' =
      (s.clients.lookup name').or (if name = name' then some password else none) := by
  have hinsert : name ∉ s.clients → (s.clients.insert name password).lookup name' =
      (s.clients.lookup name').or (if name = name' then some password else none) := by
    intro hmem
    by_cases hname : name = name'
    · rw [← hname, AList.lookup_insert, AList.lookup_eq_none.mpr hmem, if_pos rfl]
      rfl
    · rw [AList.lookup_insert_ne (Ne.symm hname), if_neg hname, Option.or_none]
  rw [addClient]
  split
  · rename_i hmem
    split
    · rename_i hname
      rw [← hname]
      obtain ⟨old, hold⟩ := Option.isSome_iff_exists.mp (AList.lookup_isSome.mpr hmem)
      rw [hold]
      rfl
    · rw [Option.or_none]
  · rename_i hmem
    split
    · exact hinsert hmem
    · rename_i hexists
      rw [if_pos (hdisk.resolve_left hexists)]
      exact hinsert hmem

/-- Loading adds the accounts of the file whose names are new. -/
theorem lookup_loadLines (hdisks : Permits disks) :
    (loadLines disks (accounts.map fun account => unwords [account.1, account.2])
      s).clients.lookup name = (s.clients.lookup name).or (lookupFirst accounts name) := by
  induction accounts generalizing s with
  | nil => exact (Option.or_none).symm
  | cons account accounts ih =>
      rw [List.map_cons, loadLines, tokens_clientLine account.1.2 account.2.2]
      dsimp only
      rw [ih, lookup_addClient (hdisks account.1), Option.or_assoc, lookupFirst_cons]

theorem lookup_load (hdisks : Permits disks) :
    (loadClientsFromFile disks (fileText accounts)).clients.lookup name =
      lookupFirst accounts name := by
  rw [loadClientsFromFile, readLines_fileText, lookup_loadLines hdisks, AList.lookup_empty]
  rfl

/-- The entries of a table of words, as they are written. -/
theorem exists_accounts {l : List (Σ _ : JString, JString)}
    (h : ∀ e ∈ l, IsToken e.1 ∧ IsToken e.2) : ∃ accounts : List (Word × Word),
      l.flatMap (fun e => clientLine e.1 e.2) = fileText accounts ∧
        ∀ name, lookupFirst accounts name = l.dlookup name := by
  induction l with
  | nil => exact ⟨[], rfl, fun name => rfl⟩
  | cons e l ih =>
      obtain ⟨accounts, htext, hlookup⟩ := ih fun e' he' => h e' (List.mem_cons_of_mem e he')
      obtain ⟨hname, hpassword⟩ := h e List.mem_cons_self
      refine ⟨(⟨e.1, hname⟩, ⟨e.2, hpassword⟩) :: accounts, ?_, fun name => ?_⟩
      · rw [List.flatMap_cons, htext]
        rfl
      · rw [lookupFirst_cons, hlookup]
        by_cases heq : e.1 = name
        · obtain ⟨key, value⟩ := e
          cases heq
          rw [if_pos rfl, List.dlookup_cons_eq]
          rfl
        · rw [if_neg heq, List.dlookup_cons_ne l e (Ne.symm heq)]
          rfl

/-- The file lists accounts, and the table has only words. -/
structure Written (s : Storage) : Prop where
  file : ∃ accounts, s.file = fileText accounts
  words : ∀ e ∈ s.clients.entries, IsToken e.1 ∧ IsToken e.2

/-- A new server loads the table from the file. -/
def InStep (s : Storage) : Prop :=
  ∀ disks, Permits disks → ∀ name,
    (loadClientsFromFile disks s.file).clients.lookup name = s.clients.lookup name

theorem inStep_iff (s : Storage) (hfile : s.file = fileText accounts) :
    InStep s ↔ ∀ name, lookupFirst accounts name = s.clients.lookup name := by
  constructor
  · intro h name
    have hpermits : Permits fun _ => ⟨true, true, true⟩ := fun _ => .inl rfl
    rw [← h _ hpermits, hfile, lookup_load hpermits]
  · intro h disks hdisks name
    rw [hfile, lookup_load hdisks, h]

theorem words_insert {password : Word} {name : Word}
    (h : ∀ e ∈ s.clients.entries, IsToken e.1 ∧ IsToken e.2) :
    ∀ e ∈ (s.clients.insert name.1 password.1).entries, IsToken e.1 ∧ IsToken e.2 := by
  intro e he
  rw [AList.entries_insert] at he
  rcases List.mem_cons.mp he with rfl | he
  · exact ⟨name.2, password.2⟩
  · exact h e ((List.kerase_sublist _ _).subset he)

/-- With `nocheck` the account is in the file before, or is appended. -/
theorem addClient_file (disk : Disk) {name password : Word}
    (h : ∀ e ∈ s.clients.entries, IsToken e.1 ∧ IsToken e.2) :
    (∀ e ∈ (s.addClient disk name password true).2.clients.entries, IsToken e.1 ∧ IsToken e.2) ∧
      ∃ extra, (s.addClient disk name password true).2.file = s.file ++ fileText extra ∧
        ∀ account ∈ extra, account = (name, password) := by
  have hsame : ∃ extra, s.file = s.file ++ fileText extra ∧
      ∀ account ∈ extra, account = (name, password) :=
    ⟨[], (List.append_nil s.file).symm, fun account hmem => absurd hmem List.not_mem_nil⟩
  rw [addClient]
  split
  · exact ⟨h, hsame⟩
  · split
    · exact ⟨words_insert h, hsame⟩
    · split
      · refine ⟨words_insert h, [(name, password)], ?_, fun account => List.mem_singleton.mp⟩
        rw [fileText_singleton]
        rfl
      · exact ⟨h, hsame⟩

/-- What loading appends to the file is there already. -/
theorem loadLines_file (disks : JString → Disk) (accounts : List (Word × Word)) {s : Storage}
    (h : ∀ e ∈ s.clients.entries, IsToken e.1 ∧ IsToken e.2) :
    let loaded := loadLines disks (accounts.map fun account => unwords [account.1, account.2]) s
    (∀ e ∈ loaded.clients.entries, IsToken e.1 ∧ IsToken e.2) ∧
      ∃ extra, loaded.file = s.file ++ fileText extra ∧ ∀ account ∈ extra, account ∈ accounts := by
  induction accounts generalizing s with
  | nil =>
      refine ⟨h, [], (List.append_nil s.file).symm, fun account haccount => ?_⟩
      exact absurd haccount List.not_mem_nil
  | cons account accounts ih =>
      dsimp only
      rw [List.map_cons, loadLines, tokens_clientLine account.1.2 account.2.2]
      dsimp only
      obtain ⟨hwords, first, hfirst, hsame⟩ := addClient_file (disks account.1) h
      obtain ⟨hwords', extra, hextra, hmem⟩ := ih hwords
      refine ⟨hwords', first ++ extra, ?_, fun a ha => ?_⟩
      · rw [hextra, hfirst, List.append_assoc, fileText_append]
      · rcases List.mem_append.mp ha with ha | ha
        · rw [hsame a ha]
          exact List.mem_cons_self
        · exact List.mem_cons_of_mem account (hmem a ha)

/-- The table is the one of `DropboxFileServer`. -/
theorem addClient_clients (f : DropboxFileServer) (file clientName password : JString) :
    f.addClient disk clientName password =
      let r := addClient ⟨f.clients, file⟩ disk clientName password false
      (r.1, { f with clients := r.2.clients }) := by
  rw [addClient, DropboxFileServer.addClient]
  split
  · rfl
  · split
    · rfl
    · split <;> rfl

theorem removeClient_clients (f : DropboxFileServer) (file clientName : JString) :
    f.removeClient disk clientName =
      let r := removeClient ⟨f.clients, file⟩ disk clientName
      (r.1, { f with clients := r.2.clients }) := by
  rw [removeClient, DropboxFileServer.removeClient]
  split
  · dsimp only
    split <;> rfl
  · rfl

theorem changePassword_clients (f : DropboxFileServer) (file name oldPassword password : JString) :
    f.changePassword name oldPassword password =
      let r := changePassword ⟨f.clients, file⟩ name oldPassword password
      (r.1, { f with clients := r.2.clients }) := by
  rw [changePassword, DropboxFileServer.changePassword]
  split <;> rfl

end Storage

/-! ### Runs -/

inductive Operation where
  | addClient (disk : Disk) (clientName password : Word)
  | removeClient (disk : Disk) (clientName : Word)
  | changePassword (name oldPassword password : Word)

namespace Storage

variable {s : Storage} {disk : Disk} {name : JString} {accounts : List (Word × Word)}

def step (s : Storage) : Operation → Storage
  | .addClient disk clientName password => (s.addClient disk clientName password false).2
  | .removeClient disk clientName => (s.removeClient disk clientName).2
  | .changePassword name oldPassword password => (s.changePassword name oldPassword password).2

def run (s : Storage) (ops : List Operation) : Storage := ops.foldl step s

/-- The table changes only when the file is written. -/
def Saved (s : Storage) : Operation → Prop
  | .addClient _ _ _ => True
  | .removeClient disk clientName => clientName.1 ∈ s.clients → disk.delete
  | .changePassword name oldPassword password =>
      s.clients.lookup name.1 = some oldPassword.1 → password = oldPassword

def AllSaved : Storage → List Operation → Prop
  | _, [] => True
  | s, op :: ops => s.Saved op ∧ AllSaved (s.step op) ops

/-- What is in the file after it was rewritten. -/
theorem exists_writeClientsToFile (s : Storage)
    (h : ∀ e ∈ s.clients.entries, IsToken e.1 ∧ IsToken e.2) :
    ∃ accounts, s.writeClientsToFile.file = fileText accounts ∧
      ∀ name, lookupFirst accounts name = s.clients.lookup name := by
  have hperm : s.sorted.Perm s.clients.entries := List.perm_insertionSort _ _
  obtain ⟨accounts, htext, hlookup⟩ := exists_accounts fun e he => h e (hperm.mem_iff.mp he)
  refine ⟨accounts, htext, fun name => (hlookup name).trans ?_⟩
  exact List.perm_dlookup name ((List.perm_nodupKeys hperm).mpr s.clients.nodupKeys) hperm

theorem words_erase (h : Written s) : ∀ e ∈ (s.clients.erase name).entries,
    IsToken e.1 ∧ IsToken e.2 :=
  fun e he => h.words e ((List.kerase_sublist _ _).subset he)

theorem addClient_unchecked {name password : Word} :
    (s.addClient disk name password false).2 =
      if name.1 ∉ s.clients ∧ disk.dirExists = false ∧ disk.mkdir then
        { clients := s.clients.insert name.1 password.1
          file := s.file ++ clientLine name password }
      else s := by
  rw [addClient]
  by_cases hmem : name.1 ∈ s.clients
  · rw [if_pos hmem, if_neg fun h => h.1 hmem]
  · rw [if_neg hmem]
    cases hexists : disk.dirExists with
    | true =>
        rw [if_pos rfl, if_neg Bool.false_ne_true, if_neg fun h => Bool.noConfusion h.2.1]
    | false =>
        rw [if_neg Bool.false_ne_true]
        cases hmkdir : disk.mkdir with
        | true =>
            rw [if_pos rfl, if_pos ⟨hmem, rfl, rfl⟩]
            rfl
        | false => rw [if_neg Bool.false_ne_true, if_neg fun h => Bool.noConfusion h.2.2]

theorem written_step (h : Written s) (op : Operation) : Written (s.step op) := by
  obtain ⟨accounts, hfile⟩ := h.file
  cases op with
  | addClient disk clientName password =>
      rw [step, addClient_unchecked]
      split
      · refine ⟨⟨accounts ++ [(clientName, password)], ?_⟩, words_insert h.words⟩
        rw [fileText_append, fileText_singleton, ← hfile]
      · exact h
  | removeClient disk clientName =>
      rw [step, removeClient]
      split
      · dsimp only
        split
        · obtain ⟨accounts', htext, -⟩ := exists_writeClientsToFile
            { s with clients := s.clients.erase clientName } (words_erase h)
          exact ⟨⟨accounts', htext⟩, words_erase h⟩
        · exact ⟨h.file, words_erase h⟩
      · exact h
  | changePassword name oldPassword password =>
      rw [step, changePassword]
      split
      · exact ⟨h.file, words_insert h.words⟩
      · exact h

theorem inStep_step (hwritten : Written s) (h : InStep s) (op : Operation) :
    InStep (s.step op) ↔ s.Saved op := by
  obtain ⟨accounts, hfile⟩ := hwritten.file
  have hlookup := (inStep_iff s hfile).mp h
  cases op with
  | addClient disk clientName password =>
      refine iff_of_true ?_ trivial
      rw [step, addClient_unchecked]
      split
      · rename_i hadd
        have hfile' : s.file ++ clientLine clientName password =
            fileText (accounts ++ [(clientName, password)]) := by
          rw [fileText_append, fileText_singleton, ← hfile]
        refine (inStep_iff _ hfile').mpr fun name => ?_
        dsimp only
        rw [lookupFirst_append, hlookup, lookupFirst_cons]
        by_cases hname : clientName.1 = name
        · rw [if_pos hname, ← hname, AList.lookup_insert, AList.lookup_eq_none.mpr hadd.1]
          rfl
        · rw [if_neg hname, AList.lookup_insert_ne (Ne.symm hname)]
          exact Option.or_none
      · exact h
  | removeClient disk clientName =>
      rw [step, removeClient, Saved]
      by_cases hmem : clientName.1 ∈ s.clients
      · rw [if_pos hmem]
        dsimp only
        cases disk.delete with
        | true =>
            rw [if_pos rfl]
            obtain ⟨accounts', htext, hlookup'⟩ := exists_writeClientsToFile
              { s with clients := s.clients.erase clientName } (words_erase hwritten)
            exact iff_of_true ((inStep_iff _ htext).mpr hlookup') fun _ => rfl
        | false =>
            rw [if_neg Bool.false_ne_true]
            refine iff_of_false (fun hstep => ?_) fun hsaved => Bool.noConfusion (hsaved hmem)
            have hname := (inStep_iff { s with clients := s.clients.erase clientName }
              hfile).mp hstep clientName
            rw [hlookup, AList.lookup_erase] at hname
            exact AList.lookup_eq_none.mp hname hmem
      · rw [if_neg hmem]
        exact iff_of_true h fun hmem' => absurd hmem' hmem
  | changePassword name oldPassword password =>
      rw [step, changePassword, Saved]
      by_cases hold : s.clients.lookup name.1 = some oldPassword.1
      · rw [if_pos hold]
        constructor
        · intro hstep _
          have hname := (inStep_iff { s with clients := s.clients.insert name.1 password.1 }
            hfile).mp hstep name
          rw [hlookup, hold, AList.lookup_insert] at hname
          exact Subtype.ext (Option.some.inj hname).symm
        · intro hsaved
          refine (inStep_iff { s with clients := s.clients.insert name.1 password.1 }
            hfile).mpr fun name' => ?_
          dsimp only
          rw [hlookup, hsaved hold]
          by_cases hname : name.1 = name'
          · rw [← hname, hold, AList.lookup_insert]
          · rw [AList.lookup_insert_ne (Ne.symm hname)]
      · rw [if_neg hold]
        exact iff_of_true h fun hold' => absurd hold' hold

theorem inStep_run (hwritten : Written s) (h : InStep s) (ops : List Operation) :
    (∀ done, done <+: ops → InStep (s.run done)) ↔ s.AllSaved ops := by
  induction ops generalizing s with
  | nil =>
      refine iff_of_true (fun done hdone => ?_) trivial
      rw [List.prefix_nil.mp hdone]
      exact h
  | cons op ops ih =>
      rw [AllSaved, ← inStep_step hwritten h op]
      constructor
      · intro hrun
        have hfirst : InStep (s.step op) := hrun [op] (List.prefix_append [op] ops)
        refine ⟨hfirst, (ih (written_step hwritten op) hfirst).mp fun done hdone => ?_⟩
        exact hrun (op :: done) ((List.prefix_cons_inj op).mpr hdone)
      · rintro ⟨hfirst, hrest⟩ done hdone
        cases done with
        | nil => exact h
        | cons op' done =>
            obtain ⟨rfl, hprefix⟩ := List.cons_prefix_cons.mp hdone
            exact (ih (written_step hwritten op') hfirst).mpr hrest done hprefix

/-- A server that has loaded its accounts. -/
theorem written_load (disks : JString → Disk) :
    Written (loadClientsFromFile disks (fileText accounts)) := by
  rw [loadClientsFromFile, readLines_fileText]
  have hempty : ∀ e ∈ (⟨∅, fileText accounts⟩ : Storage).clients.entries,
      IsToken e.1 ∧ IsToken e.2 := fun e he => absurd he List.not_mem_nil
  obtain ⟨hwords, extra, hfile, -⟩ := loadLines_file disks accounts hempty
  exact ⟨⟨accounts ++ extra, by rw [hfile, fileText_append]⟩, hwords⟩

theorem inStep_load {disks : JString → Disk} (hdisks : Permits disks) :
    InStep (loadClientsFromFile disks (fileText accounts)) := by
  have hfile : ∃ extra, (loadClientsFromFile disks (fileText accounts)).file =
      fileText (accounts ++ extra) ∧ ∀ account ∈ extra, account ∈ accounts := by
    rw [loadClientsFromFile, readLines_fileText]
    have hempty : ∀ e ∈ (⟨∅, fileText accounts⟩ : Storage).clients.entries,
        IsToken e.1 ∧ IsToken e.2 := fun e he => absurd he List.not_mem_nil
    obtain ⟨-, extra, hfile, hextra⟩ := loadLines_file disks accounts hempty
    exact ⟨extra, by rw [hfile, fileText_append], hextra⟩
  obtain ⟨extra, hfile, hextra⟩ := hfile
  refine (inStep_iff _ hfile).mpr fun name => ?_
  rw [lookup_load hdisks, lookupFirst_append]
  cases hfirst : lookupFirst accounts name with
  | some password => rfl
  | none =>
      rw [Option.none_or, lookupFirst, Option.map_eq_none_iff, List.find?_eq_none]
      rw [lookupFirst, Option.map_eq_none_iff, List.find?_eq_none] at hfirst
      exact fun account haccount => hfirst account (hextra account haccount)

end Storage

/-- After every prefix of the calls a new server loads exactly the current table, iff every change
of a password keeps it and the directory of every client that is removed can be deleted. -/
theorem accounts_survive_iff (accounts : List (Word × Word)) (disks : JString → Disk)
    (hdisks : Storage.Permits disks) (ops : List Operation) :
    (∀ done, done <+: ops →
      ((loadClientsFromFile disks (fileText accounts)).run done).InStep) ↔
      (loadClientsFromFile disks (fileText accounts)).AllSaved ops :=
  Storage.inStep_run (Storage.written_load disks) (Storage.inStep_load hdisks) ops

/-- A run from an empty file whose directory cannot be deleted after the client was synchronized. -/
theorem accounts_survive_iff_remove :
    Storage.Permits (fun _ => ⟨false, true, false⟩) ∧
      ((∀ done, done <+:
          [.addClient ⟨false, true, false⟩ ⟨java "a", by decide⟩ ⟨java "x", by decide⟩,
            .removeClient ⟨true, false, false⟩ ⟨java "a", by decide⟩] →
        ((loadClientsFromFile (fun _ => ⟨false, true, false⟩) (fileText [])).run done).InStep) ↔
        (loadClientsFromFile (fun _ => ⟨false, true, false⟩) (fileText [])).AllSaved
          [.addClient ⟨false, true, false⟩ ⟨java "a", by decide⟩ ⟨java "x", by decide⟩,
            .removeClient ⟨true, false, false⟩ ⟨java "a", by decide⟩]) :=
  ⟨fun _ => .inr rfl, accounts_survive_iff [] _ (fun _ => .inr rfl) _⟩

/-- A changed password is lost: the file still has the old one. -/
theorem changed_password_lost :
    ¬((loadClientsFromFile (fun _ => ⟨false, true, true⟩) []).run
      [.addClient ⟨false, true, true⟩ ⟨java "a", by decide⟩ ⟨java "x", by decide⟩,
        .changePassword ⟨java "a", by decide⟩ ⟨java "x", by decide⟩
          ⟨java "y", by decide⟩]).InStep := by
  intro h
  have hlookup := h (fun _ => ⟨true, true, true⟩) (fun _ => .inl rfl) (java "a")
  revert hlookup
  decide

end CodingSample.Dropbox
