import CodingSample.Dropbox.Lines
import Mathlib.Data.List.AList

/-!
# Accounts

The table of clients of the master and that of a file server, and the commands `-a`, `-r` and `-w`
that change both. The lines between the two arrive as they were sent.
-/

namespace CodingSample.Dropbox

def addClientHead : JString := java "ADD"

def removeClientHead : JString := java "RMV"

def changePwdHead : JString := java "PWD"

def confirmHead : JString := java "CFM"

def errmesHead : JString := java "ERM"

def badHead : JString := java "BAD"

def maxClientNameLen : Nat := 16

def maxPasswordNameLen : Nat := 16

def defaultPwd : JString := java "123456"

/-! ### The master -/

/-- The owner is the object that stands for a connected file server. -/
structure ClientRecord where
  name : JString
  password : JString
  owner : Nat
  deriving DecidableEq

structure FileServerNode where
  object : Nat
  id : Int

/-- `made` is the number of `FileServerNode` objects so far. -/
structure MasterServer where
  clients : List ClientRecord
  fsnodes : List FileServerNode
  made : Nat

namespace MasterServer

def clientExist (m : MasterServer) (name : JString) : Bool :=
  m.clients.any fun cr => cr.name = name

def addClient (m : MasterServer) (name password : JString) (fs : Nat) : Bool × MasterServer :=
  if m.clientExist name then (false, m)
  else (true, { m with clients := m.clients ++ [⟨name, password, fs⟩] })

def removeClient (m : MasterServer) (name : JString) : Bool × MasterServer :=
  if m.clientExist name then
    (true, { m with clients := m.clients.eraseP fun cr => cr.name = name })
  else (false, m)

/-- The loop of `changePassword`. -/
def changeLoop (name pwd : JString) : List ClientRecord → Bool × List ClientRecord
  | [] => (false, [])
  | cr :: rest =>
      if cr.name = name then (true, { cr with password := pwd } :: rest)
      else
        let (found, rest') := changeLoop name pwd rest
        (found, cr :: rest')

def changePassword (m : MasterServer) (name pwd : JString) : Bool × MasterServer :=
  let (found, clients) := changeLoop name pwd m.clients
  (found, { m with clients := clients })

def findFileServer (m : MasterServer) (id : Int) : Option FileServerNode :=
  m.fsnodes.find? fun fsn => fsn.id = id

/-- `removeDead` at the end of the connection. -/
def removeDead (m : MasterServer) (fs : Nat) : MasterServer :=
  { m with clients := m.clients.filter fun cr => cr.owner ≠ fs
           fsnodes := m.fsnodes.eraseP fun fsn => fsn.object = fs }

/-- The loop of `MasterServerClusterNet.parse` over the entries of a file server. A name without a
password is an exception. -/
def loadEntries (node : Nat) : List JString → MasterServer → Bool × MasterServer
  | [], m => (true, m)
  | [_], m => (false, m)
  | clientName :: password :: entries, m =>
      match m.addClient clientName password node with
      | (false, m') => (false, m')
      | (true, m') => loadEntries node entries m'

/-- The branch of `MasterServerClusterNet.parse` in which a file server identifies itself, and
whether it confirms. -/
def identify (m : MasterServer) (id : Int) (entries : List JString) : Bool × MasterServer :=
  let node := m.made
  match loadEntries node entries { m with made := node + 1 } with
  | (false, m') => (false, m')
  | (true, m') => (true, { m' with fsnodes := m'.fsnodes ++ [⟨node, id⟩] })

/-- The branches of `MasterServerFileServerAccept.parse` for the three commands, with the line sent
back. A file server sends no such line with another number of words. -/
def accept (m : MasterServer) (node : Nat) (str : JString) : Option JString × MasterServer :=
  match tokens str with
  | [] => (none, m)
  | tkn :: rest =>
      if tkn = addClientHead then
        match rest with
        | [name, pwd] =>
            match m.addClient name pwd node with
            | (true, m') => (some confirmHead, m')
            | (false, m') => (some (unwords [errmesHead,
                java "Conflict in adding client, the client name already exists!"]), m')
        | _ => (none, m)
      else if tkn = removeClientHead then
        match rest with
        | [name] =>
            match m.removeClient name with
            | (true, m') => (some confirmHead, m')
            | (false, m') => (some (unwords [errmesHead,
                java "Error in removing client, the client name doesn't exist!"]), m')
        | _ => (none, m)
      else if tkn = changePwdHead then
        match rest with
        | [name, pwd] =>
            match m.changePassword name pwd with
            | (true, m') => (some confirmHead, m')
            | (false, m') => (some badHead, m')
        | _ => (none, m)
      else (none, m)

end MasterServer

/-! ### A file server -/

/-- The clients of a file server with their passwords. -/
abbrev ClientTable := AList fun _ : JString => JString

/-- The command that waits for the answer of the master. -/
inductive Call where
  | add (name : JString)
  | remove (name : JString)
  | change (name oldPassword password : JString)

/-- What the thread that reads the commands is doing. -/
inductive Thread where
  | idle
  /-- The line is on its way to the master. -/
  | asking (call : Call) (str : JString)
  /-- The answer is on its way back. -/
  | told (call : Call) (reply : JString)
  /-- The loop of `-r`, which goes on until `removeClient` succeeds. -/
  | retrying (name : JString)

/-- `node` is the object that stands for this file server at the master while it is connected. -/
structure DropboxFileServer where
  clients : ClientTable
  maxClientNum : Nat
  node : Option Nat
  thread : Thread

/-- What the file system answers: whether the directory of a new client exists, and whether making
and deleting a directory succeed. -/
structure Disk where
  dirExists : Bool
  mkdir : Bool
  delete : Bool

namespace DropboxFileServer

variable (f : DropboxFileServer)

def changePassword (name oldPassword password : JString) : Bool × DropboxFileServer :=
  if f.clients.lookup name = some oldPassword then
    (true, { f with clients := f.clients.insert name password })
  else (false, f)

/-- `addClient` with `nocheck` false. -/
def addClient (disk : Disk) (clientName password : JString) : Bool × DropboxFileServer :=
  if clientName ∈ f.clients then (false, f)
  else if disk.dirExists then (false, f)
  else if disk.mkdir then (true, { f with clients := f.clients.insert clientName password })
  else (false, f)

/-- The client is taken out of the table also when its directory cannot be deleted. -/
def removeClient (disk : Disk) (clientName : JString) : Bool × DropboxFileServer :=
  if clientName ∈ f.clients then
    (disk.delete, { f with clients := f.clients.erase clientName })
  else (false, f)

def sendAdd (name : JString) : DropboxFileServer :=
  match f.clients.lookup name with
  | none => f
  | some password =>
      { f with thread := .asking (.add name) (unwords [addClientHead, name, password]) }

def sendRemove (name : JString) : DropboxFileServer :=
  { f with thread := .asking (.remove name) (unwords [removeClientHead, name]) }

def sendChangePassword (name oldPassword password : JString) : DropboxFileServer :=
  { f with thread := .asking (.change name oldPassword password)
                       (unwords [changePwdHead, name, password]) }

/-- The branch of `parse` for `-a`, up to the answer of the master. -/
def parseAdd (disk : Disk) (name passWord : JString) : DropboxFileServer :=
  if name.length > maxClientNameLen then f
  else if passWord.length > maxPasswordNameLen then f
  else if f.clients.entries.length = f.maxClientNum then f
  else match f.addClient disk name passWord with
    | (false, f') => f'
    | (true, f') => f'.sendAdd name

/-- The branch of `parse` for `-w`, up to the answer of the master. -/
def parseChange (name oldPassword password : JString) : DropboxFileServer :=
  if password.length > maxPasswordNameLen then f
  else match f.changePassword name oldPassword password with
    | (false, f') => f'
    | (true, f') => f'.sendChangePassword name oldPassword password

/-- `DropboxFileServerUserNet.parse` for the three commands, up to the answer of the master. The
other commands leave the table as it is. -/
def parse (disk : Disk) (str : JString) : DropboxFileServer :=
  match tokens str with
  | [] => f
  | [_] => f
  | tmp :: rest =>
      if tmp = java "-r" then
        match rest with
        | [name] => f.sendRemove name
        | _ => f
      else if tmp = java "-a" then
        match rest with
        | [name] => f.parseAdd disk name defaultPwd
        | [name, passWord] => f.parseAdd disk name passWord
        | _ => f
      else if tmp = java "-w" then
        match rest with
        | [name, oldPassword, password] => f.parseChange name oldPassword password
        | _ => f
      else f

/-- The rest of the branches, after the answer. -/
def resume (disk : Disk) (reply : JString) : Call → DropboxFileServer
  | .add name =>
      if reply = confirmHead then { f with thread := .idle }
      else { (f.removeClient disk name).2 with thread := .idle }
  | .remove name =>
      if reply = confirmHead then
        match f.removeClient disk name with
        | (true, f') => { f' with thread := .idle }
        | (false, f') => { f' with thread := .retrying name }
      else { f with thread := .idle }
  | .change name oldPassword password =>
      if reply = confirmHead then { f with thread := .idle }
      else { (f.changePassword name password oldPassword).2 with thread := .idle }

/-- The names and passwords that the file server sends when it identifies itself. -/
def entries : List JString := f.clients.entries.flatMap fun e => [e.1, e.2]

end DropboxFileServer

/-! ### The master and the file servers -/

structure Cluster (ι : Type) where
  master : MasterServer
  servers : ι → DropboxFileServer

variable {ι : Type} [DecidableEq ι]

def Cluster.put (s : Cluster ι) (m : MasterServer) (i : ι) (f : DropboxFileServer) : Cluster ι :=
  ⟨m, Function.update s.servers i f⟩

/-- A step of file server `i`. The condition `ok` is on the lines that the master handles. -/
inductive Cluster.Step (ok : MasterServer → Nat → JString → Prop) (id : ι → Int) (i : ι)
    (s : Cluster ι) : Cluster ι → Prop
  /-- The process starts and reads its table from a file. -/
  | load {clients : ClientTable} (hnode : (s.servers i).node = none)
      (htokens : ∀ name password, clients.lookup name = some password →
        IsToken name ∧ IsToken password) :
      Step ok id i s (s.put s.master i { s.servers i with clients := clients })
  /-- It registers, and the master finds the new object for its second connection. -/
  | register {m : MasterServer} {fsn : FileServerNode} (hnode : (s.servers i).node = none)
      (hidentify : s.master.identify (id i) (s.servers i).entries = (true, m))
      (huser : m.findFileServer (id i) = some fsn) :
      Step ok id i s
        (s.put m i { s.servers i with node := some fsn.object, thread := .idle })
  | command {n : Nat} {disk : Disk} {str : JString} (hnode : (s.servers i).node = some n)
      (hthread : (s.servers i).thread = .idle) :
      Step ok id i s (s.put s.master i ((s.servers i).parse disk str))
  | handle {n : Nat} {call : Call} {str reply : JString} {m : MasterServer}
      (hnode : (s.servers i).node = some n) (hthread : (s.servers i).thread = .asking call str)
      (hok : ok s.master n str) (haccept : s.master.accept n str = (some reply, m)) :
      Step ok id i s (s.put m i { s.servers i with thread := .told call reply })
  | answer {call : Call} {disk : Disk} {reply : JString}
      (hthread : (s.servers i).thread = .told call reply) :
      Step ok id i s (s.put s.master i ((s.servers i).resume disk reply call))
  /-- Another round of the loop of `-r`. -/
  | retry {disk : Disk} {name : JString} (hthread : (s.servers i).thread = .retrying name) :
      Step ok id i s (s.put s.master i ((s.servers i).resume disk confirmHead (.remove name)))
  /-- The connection ends, and a command that waits for an answer is given up. -/
  | disconnect {n : Nat} (hnode : (s.servers i).node = some n) :
      Step ok id i s
        (s.put (s.master.removeDead n) i { s.servers i with node := none, thread := .idle })

/-- The runs from a start without connections. -/
inductive Cluster.Reached (ok : MasterServer → Nat → JString → Prop) (id : ι → Int) :
    Cluster ι → Prop
  | init (maxClientNum : ι → Nat) :
      Reached ok id ⟨⟨[], [], 0⟩, fun i => ⟨∅, maxClientNum i, none, .idle⟩⟩
  | step {i : ι} {s s' : Cluster ι} (h : Reached ok id s) (hstep : Step ok id i s s') :
      Reached ok id s'

end CodingSample.Dropbox
