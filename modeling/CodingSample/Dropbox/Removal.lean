import CodingSample.Dropbox.Files
import CodingSample.Dropbox.Storage

/-!
# Removing a client

The directory of the client is deleted first, and the client leaves the table whether that succeeds
or not. The command `-r` calls `removeClient` until it succeeds.
-/

namespace CodingSample.Dropbox

/-- Whether `delete` succeeds. A directory that is not empty cannot be deleted. -/
def File.deletes (t : FileSystem) (f : JString) : Bool :=
  match locate t f with
  | none => false
  | some p =>
      (components f).getLast? ≠ some .here ∧ p ≠ [] ∧ t.fileExists p ∧ t.listFiles p = []

namespace Removal

/-- `syncers` are the threads of the client. -/
structure ClientNode where
  dir : JString
  password : JString
  syncers : List Nat

/-- A file server with the text of `clients.txt`, the files of the clients and the threads that run.
Names and passwords were read as tokens. -/
structure Server where
  clients : AList fun _ : JString => ClientNode
  words : ∀ e ∈ clients.entries, IsToken e.1 ∧ IsToken e.2.password
  file : JString
  files : FileSystem
  running : List Nat

/-- `clear`: the threads are stopped only after the directory was deleted. -/
def ClientNode.clear (cn : ClientNode) (s : Server) : Bool × Server :=
  if File.deletes s.files cn.dir then
    (true, { s with
      files := File.delete s.files cn.dir
      running := s.running.filter (· ∉ cn.syncers) })
  else (false, s)

namespace Server

variable (s : Server)

def passwords : ClientTable where
  entries := s.clients.entries.map fun e => ⟨e.1, e.2.password⟩
  nodupKeys := by
    rw [List.NodupKeys, List.keys, List.map_map]
    exact s.clients.nodupKeys

def storage : Storage := ⟨s.passwords, s.file⟩

def erase (clientName : JString) : Server :=
  { s with
    clients := s.clients.erase clientName
    words := fun e he => s.words e ((List.kerase_sublist _ _).subset he) }

/-- The exception is caught when the file cannot be opened. -/
def writeClientsToFile (writable : Bool) : Server :=
  if writable then { s with file := s.storage.writeClientsToFile.file } else s

def removeClient (writable : Bool) (clientName : JString) : Bool × Server :=
  match s.clients.lookup clientName with
  | none => (false, s)
  | some cn =>
      let (success, cleared) := cn.clear s
      let removed := cleared.erase clientName
      (success, if success then removed.writeClientsToFile writable else removed)

end Server

/-- What happens outside in one round of the loop: whether `clients.txt` can be opened, and what
others do to the files while the thread sleeps. -/
structure Round where
  writable : Bool
  sleep : FileSystem → FileSystem

/-- The loop of `-r` from the given round on. `fuel` bounds the rounds. -/
def removeLoop (rounds : Nat → Round) (name : JString) : Nat → Nat → Server → Option Server
  | 0, _, _ => none
  | fuel + 1, round, s =>
      match s.removeClient (rounds round).writable name with
      | (true, removed) => some removed
      | (false, kept) =>
          removeLoop rounds name fuel (round + 1)
            { kept with files := (rounds round).sleep kept.files }

/-! ### Success and failure -/

/-- A new server reads the name from the file. -/
def Listed (name file : JString) : Prop := ∃ line ∈ readLines file, (tokens line).head? = some name

/-- The client of `s` is removed in `s'`. -/
structure Gone (s : Server) (name : JString) (s' : Server) : Prop where
  table : name ∉ s'.clients
  file : ¬Listed name s'.file
  dir : ∀ cn, s.clients.lookup name = some cn → File.isDirectory s'.files cn.dir = false

/-- `removeClient` removes the client, or it fails and changes nothing. -/
def Atomic (writable : Bool) (s : Server) (name : JString) : Prop :=
  (s.removeClient writable name).1 = true ∧ Gone s name (s.removeClient writable name).2 ∨
    (s.removeClient writable name).1 = false ∧ (s.removeClient writable name).2 = s

/-- The loop of `-r` ends, and then the client is removed. -/
def Ends (rounds : Nat → Round) (s : Server) (name : JString) : Prop :=
  ∃ fuel s', removeLoop rounds name fuel 0 s = some s' ∧ Gone s name s'

/-- The directory of the client can be deleted, and the file can be written unless it does not list
the client anyway. -/
def Removable (writable : Bool) (s : Server) (name : JString) : Prop :=
  ∃ cn, s.clients.lookup name = some cn ∧ File.deletes s.files cn.dir = true ∧
    (writable = true ∨ ¬Listed name s.file)

variable {t : FileSystem} {f name : JString} {s s' : Server} {cn : ClientNode} {writable : Bool}
  {rounds : Nat → Round}

theorem isDirectory_delete (h : File.deletes t f = true) :
    File.isDirectory (File.delete t f) f = false := by
  rw [File.deletes] at h
  rw [File.isDirectory]
  cases hf : locate t f with
  | none =>
      rw [hf] at h
      cases h
  | some p =>
      rw [hf] at h
      obtain ⟨hhere, hroot, -, hempty⟩ := of_decide_eq_true h
      cases hf' : locate (File.delete t f) f with
      | none => rfl
      | some p' =>
          -- the string still names the same path, where nothing stands any more
          obtain rfl : p' = p := (locate_eq_some hf').trans (locate_eq_some hf).symm
          rw [Option.any_some, Bool.eq_false_iff]
          intro hdir
          have hget := FileTree.isDirectory_iff.mp hdir
          rw [File.delete, hf] at hget
          dsimp only at hget
          rw [if_neg hhere, FileTree.get_delete, if_pos ⟨rfl, hroot, hempty⟩] at hget
          cases hget

theorem listed_fileText {accounts : List (Word × Word)} :
    Listed name (fileText accounts) ↔ lookupFirst accounts name ≠ none := by
  rw [Listed, readLines_fileText, lookupFirst, ne_eq, Option.map_eq_none_iff, List.find?_eq_none]
  simp only [List.mem_map, exists_exists_and_eq_and, decide_eq_true_eq, not_forall, not_not,
    exists_prop]
  refine exists_congr fun account => and_congr_right fun _ => ?_
  rw [tokens_clientLine account.1.2 account.2.2, List.head?_cons, Option.some_inj]

theorem mem_passwords : name ∈ s.passwords ↔ name ∈ s.clients := by
  have hkeys : s.passwords.keys = s.clients.keys := List.map_map
  rw [AList.mem_keys, AList.mem_keys, hkeys]

/-- The file that is written lists the clients of the table. -/
theorem listed_written :
    Listed name (s.writeClientsToFile true).file ↔ name ∈ s.clients := by
  have hwords : ∀ e ∈ s.storage.clients.entries, IsToken e.1 ∧ IsToken e.2 := by
    intro e he
    obtain ⟨e', he', rfl⟩ := List.mem_map.mp he
    exact s.words e' he'
  obtain ⟨accounts, htext, hlookup⟩ := Storage.exists_writeClientsToFile s.storage hwords
  have hfile : (s.writeClientsToFile true).file = fileText accounts := htext
  rw [hfile, listed_fileText, hlookup, ← mem_passwords, ← AList.lookup_isSome,
    Option.isSome_iff_ne_none]
  rfl

theorem not_mem_erase : name ∉ (s.erase name).clients := fun h =>
  (AList.mem_erase.mp h).1 rfl

theorem removable_iff (h : s.clients.lookup name = some cn) : Removable writable s name ↔
    File.deletes s.files cn.dir = true ∧ (writable = true ∨ ¬Listed name s.file) := by
  constructor
  · rintro ⟨cn', hcn', hdir⟩
    obtain rfl := Option.some.inj (h.symm.trans hcn')
    exact hdir
  · exact fun hdir => ⟨cn, h, hdir⟩

/-! ### One call -/

theorem removeClient_none (h : name ∉ s.clients) : s.removeClient writable name = (false, s) := by
  rw [Server.removeClient, AList.lookup_eq_none.mpr h]

/-- The server after the directory was deleted. -/
def cleared (s : Server) (cn : ClientNode) : Server :=
  { s with
    files := File.delete s.files cn.dir
    running := s.running.filter (· ∉ cn.syncers) }

theorem removeClient_deleted (h : s.clients.lookup name = some cn)
    (hdir : File.deletes s.files cn.dir = true) :
    s.removeClient writable name =
      (true, ((cleared s cn).erase name).writeClientsToFile writable) := by
  have hclear : cn.clear s = (true, cleared s cn) := if_pos hdir
  rw [Server.removeClient, h]
  dsimp only
  rw [hclear]
  rfl

theorem gone_iff (h : s.clients.lookup name = some cn) (hdir : File.deletes s.files cn.dir = true) :
    Gone s name (s.removeClient writable name).2 ↔ writable = true ∨ ¬Listed name s.file := by
  rw [removeClient_deleted h hdir]
  cases writable with
  | true =>
      refine iff_of_true ⟨not_mem_erase, fun hlisted => ?_, fun cn' hcn' => ?_⟩ (.inl rfl)
      · exact not_mem_erase (listed_written.mp hlisted)
      · obtain rfl := Option.some.inj (h.symm.trans hcn')
        exact isDirectory_delete hdir
  | false =>
      constructor
      · intro hgone
        exact .inr hgone.file
      · rintro (hfalse | hfile)
        · cases hfalse
        · refine ⟨not_mem_erase, hfile, fun cn' hcn' => ?_⟩
          obtain rfl := Option.some.inj (h.symm.trans hcn')
          exact isDirectory_delete hdir

/-- The client has left the table all the same. -/
theorem removeClient_kept (h : s.clients.lookup name = some cn)
    (hdir : File.deletes s.files cn.dir = false) :
    s.removeClient writable name = (false, s.erase name) := by
  have hclear : cn.clear s = (false, s) := if_neg (Bool.eq_false_iff.mp hdir)
  rw [Server.removeClient, h]
  dsimp only
  rw [hclear]
  rfl

theorem atomic_iff : Atomic writable s name ↔ name ∉ s.clients ∨ Removable writable s name := by
  cases h : s.clients.lookup name with
  | none =>
      have hmem : name ∉ s.clients := AList.lookup_eq_none.mp h
      have hatomic : Atomic writable s name := by
        rw [Atomic, removeClient_none hmem]
        exact .inr ⟨rfl, rfl⟩
      exact iff_of_true hatomic (.inl hmem)
  | some cn =>
      have hmem : name ∈ s.clients :=
        AList.lookup_isSome.mp (Option.isSome_iff_exists.mpr ⟨cn, h⟩)
      rw [or_iff_right (not_not.mpr hmem), removable_iff h, Atomic]
      cases hdir : File.deletes s.files cn.dir with
      | true =>
          rw [gone_iff h hdir, removeClient_deleted h hdir]
          simp
      | false =>
          rw [removeClient_kept h hdir]
          -- the client is not in the table any more
          have hne : s.erase name ≠ s := fun heq => not_mem_erase (heq ▸ hmem)
          simp [hne]

/-! ### The loop -/

/-- The loop never ends for a client that is not in the table. -/
theorem removeLoop_none {fuel round : Nat} (h : name ∉ s.clients) :
    removeLoop rounds name fuel round s = none := by
  induction fuel generalizing round s with
  | zero => rfl
  | succ fuel ih =>
      rw [removeLoop, removeClient_none h]
      exact ih h

/-- The first round decides. -/
theorem ends_iff : Ends rounds s name ↔ Removable (rounds 0).writable s name := by
  cases h : s.clients.lookup name with
  | none =>
      refine iff_of_false ?_ ?_
      · rintro ⟨fuel, s', hloop, -⟩
        rw [removeLoop_none (AList.lookup_eq_none.mp h)] at hloop
        cases hloop
      · rintro ⟨cn, hcn, -⟩
        cases h.symm.trans hcn
  | some cn =>
      rw [removable_iff h]
      cases hdir : File.deletes s.files cn.dir with
      | true =>
          have hloop : ∀ fuel, removeLoop rounds name (fuel + 1) 0 s =
              some (s.removeClient (rounds 0).writable name).2 := by
            intro fuel
            rw [removeLoop, removeClient_deleted h hdir]
          constructor
          · rintro ⟨fuel, s', heq, hs'⟩
            cases fuel with
            | zero => cases heq
            | succ fuel =>
                obtain rfl := Option.some.inj ((hloop fuel).symm.trans heq)
                exact ⟨rfl, (gone_iff h hdir).mp hs'⟩
          · rintro ⟨-, hfile⟩
            exact ⟨1, _, hloop 0, (gone_iff h hdir).mpr hfile⟩
      | false =>
          have hloop : ∀ fuel, removeLoop rounds name fuel 0 s = none := by
            rintro (_ | fuel)
            · rfl
            · rw [removeLoop, removeClient_kept h hdir]
              exact removeLoop_none not_mem_erase
          refine iff_of_false ?_ fun hdeletes => Bool.false_ne_true hdeletes.1
          rintro ⟨fuel, s', heq, -⟩
          cases (hloop fuel).symm.trans heq

/-- `removeClient` is atomic and the command `-r` ends when the directory of the client can be
deleted at once, and the file written. For a client that the table does not have, the command must
not be confirmed. -/
theorem removal_iff (rounds : Nat → Round) (s : Server) (name : JString) (confirmed : Bool) :
    Atomic (rounds 0).writable s name ∧ (confirmed = true → Ends rounds s name) ↔
      name ∉ s.clients ∧ confirmed = false ∨ Removable (rounds 0).writable s name := by
  rw [atomic_iff, ends_iff]
  cases confirmed with
  | true =>
      constructor
      · exact fun h => .inr (h.2 rfl)
      · rintro (⟨-, hfalse⟩ | hremovable)
        · cases hfalse
        · exact ⟨.inr hremovable, fun _ => hremovable⟩
  | false => simp

/-! ### A synchronized client -/

/-- The directory `/ann` with the file `todo`. -/
def synchronized : FileSystem :=
  let t : FileSystem := (FileTree.empty.mkdir [⟨java "ann", by decide⟩]).2
  (t.write [7] [⟨java "todo", by decide⟩, ⟨java "ann", by decide⟩]).getD t

/-- The server of the client `ann`. -/
def oneClient : Server where
  clients := AList.singleton (java "ann") ⟨java "/ann", java "x", [1]⟩
  words := by decide
  file := clientLine (java "ann") (java "x")
  files := synchronized
  running := [1]

/-- The removal fails, `ann` has left the table but not the file, and `-r` never ends. -/
theorem ann_not_removed : ∃ (rounds : Nat → Round) (s : Server) (name : JString),
    (s.removeClient (rounds 0).writable name).1 = false ∧ name ∈ s.clients ∧
      name ∉ (s.removeClient (rounds 0).writable name).2.clients ∧
      Listed name (s.removeClient (rounds 0).writable name).2.file ∧
      ¬Atomic (rounds 0).writable s name ∧ ¬Ends rounds s name := by
  let node : ClientNode := ⟨java "/ann", java "x", [1]⟩
  have hlookup : oneClient.clients.lookup (java "ann") = some node := rfl
  have hdir : File.deletes oneClient.files node.dir = false := by decide
  have hnot : ¬Removable true oneClient (java "ann") := by
    rw [removable_iff hlookup, hdir]
    exact fun h => Bool.false_ne_true h.1
  have hmem : java "ann" ∈ oneClient.clients := by decide
  refine ⟨fun _ => ⟨true, id⟩, oneClient, java "ann", ?_⟩
  rw [removeClient_kept hlookup hdir, atomic_iff, ends_iff]
  refine ⟨rfl, hmem, not_mem_erase, ?_, fun h => ?_, hnot⟩
  · exact ⟨unwords [java "ann", java "x"], by decide, by decide⟩
  · exact h.elim (fun h => h hmem) hnot

/-! ### The table and the file -/

theorem storage_erase : (s.erase name).storage =
    { s.storage with clients := s.storage.clients.erase name } := by
  have hmap : ∀ l : List (Σ _ : JString, ClientNode),
      (l.kerase name).map (fun e => (⟨e.1, e.2.password⟩ : Σ _ : JString, JString)) =
        (l.map fun e => (⟨e.1, e.2.password⟩ : Σ _ : JString, JString)).kerase name := by
    intro l
    rw [List.kerase, List.kerase, List.eraseP_map]
    rfl
  have hclients : (s.erase name).passwords = s.passwords.erase name :=
    AList.ext (hmap s.clients.entries)
  rw [Server.storage, hclients]
  rfl

/-- When the file can be written, the call does to the table and the file what the model without
directories says. -/
theorem storage_removeClient (disk : Disk)
    (hdisk : ∀ cn, s.clients.lookup name = some cn → disk.delete = File.deletes s.files cn.dir) :
    ((s.removeClient true name).1, (s.removeClient true name).2.storage) =
      s.storage.removeClient disk name := by
  rw [Storage.removeClient]
  cases h : s.clients.lookup name with
  | none =>
      have hmem : name ∉ s.clients := AList.lookup_eq_none.mp h
      have hnot : name ∉ s.storage.clients := fun hin => hmem (mem_passwords.mp hin)
      rw [if_neg hnot, removeClient_none hmem]
  | some cn =>
      have hmem : name ∈ s.storage.clients := mem_passwords.mpr
        (AList.lookup_isSome.mp (Option.isSome_iff_exists.mpr ⟨cn, h⟩))
      rw [if_pos hmem, hdisk cn h]
      cases hdir : File.deletes s.files cn.dir with
      | true =>
          have hcleared : (cleared s cn).storage = s.storage := rfl
          have hwritten : (((cleared s cn).erase name).writeClientsToFile true).storage =
              ((cleared s cn).erase name).storage.writeClientsToFile := rfl
          rw [removeClient_deleted h hdir, hwritten, storage_erase, hcleared]
          rfl
      | false =>
          rw [removeClient_kept h hdir, storage_erase]
          rfl

end Removal

end CodingSample.Dropbox
