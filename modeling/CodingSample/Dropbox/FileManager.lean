import CodingSample.Dropbox.Files
import Mathlib.Data.Finmap

/-!
# The file manager

The map of a home directory, the difference of two maps, and what a peer does with it. A hash map
is a table in the order in which it is iterated.
-/

namespace CodingSample.Dropbox

def opAdd : UInt8 := 1

def opDel : UInt8 := 2

def opMod : UInt8 := 3

structure DummyFile where
  isDir : Bool
  file : JString
  lastModifiedTime : Int64
  deriving DecidableEq

/-- `getName` of a `File`. -/
def getName (f : JString) : JString := ((f.splitOnP (· = slash)).getLast?).getD []

/-- `equals` of a `DummyFile`. -/
def DummyFile.same (d d' : DummyFile) : Bool :=
  d.isDir = d'.isDir ∧ d.lastModifiedTime = d'.lastModifiedTime ∧ getName d.file = getName d'.file

/-- An operation of the difference of two maps, and with `bytes` one that was received. -/
structure FileOperation where
  operation : UInt8
  file : DummyFile
  bytes : Option Bytes
  deriving DecidableEq

/-- A `HashMap` with strings as keys. -/
abbrev HashMap (V : Type) := AList fun _ : JString => V

namespace HashMap

variable {V W : Type}

def putAll (m m' : HashMap V) : HashMap V := m' ∪ m

/-- `m'` with an entry for each entry of `m` that has a new value. -/
def putEach (g : JString → V → Option W) (m : HashMap V) (m' : HashMap W) : HashMap W :=
  m.entries.foldl (fun m' e =>
    match g e.1 e.2 with
    | some w => m'.insert e.1 w
    | none => m') m'

/-- Whether two maps have the same entries. -/
def same (eq : V → V → Bool) (m m' : HashMap V) : Bool :=
  m.entries.length = m'.entries.length ∧
    m.entries.all fun e => (m'.lookup e.1).any (eq e.2)

end HashMap

/-- What the operating system gives as the time of the last change. -/
abbrev Times := JString → Int64

namespace DropboxFileManager

def getRelativeRootPath (home file : JString) : JString := file.drop home.length

/-- `depth` bounds the recursion. -/
def buildFileMapRecursive (t : FileSystem) (time : Times) (home : JString) :
    Nat → JString → HashMap DummyFile
  | 0, _ => ∅
  | depth + 1, dir =>
      let curDirFileMap : HashMap DummyFile :=
        if dir ≠ home then
          AList.insert (getRelativeRootPath home dir)
            ⟨File.isDirectory t dir, dir, time dir⟩ ∅
        else ∅
      (File.listFiles t dir).foldl (fun curDirFileMap file =>
        if File.isDirectory t file then
          curDirFileMap.putAll (buildFileMapRecursive t time home depth file)
        else
          AList.insert (getRelativeRootPath home file)
            ⟨File.isDirectory t file, file, time file⟩ curDirFileMap) curDirFileMap

/-- `buildFileMap` of a home directory that is there. -/
def buildFileMap (t : FileSystem) (time : Times) (home : JString) : HashMap DummyFile :=
  buildFileMapRecursive t time home (t.depth + 1) home

/-- `checkDiff`. -/
def checkDiff (prevFileMap fileMap : HashMap DummyFile) : Bool :=
  prevFileMap.same DummyFile.same fileMap

/-- The loop of `deleteSubDirs`. -/
def deleteEntry (deleteSubDirs : FileSystem → JString → FileSystem) (t : FileSystem)
    (f : JString) : FileSystem :=
  File.delete (if File.isDirectory t f then deleteSubDirs t f else t) f

/-- `depth` bounds the recursion. -/
def deleteSubDirs : Nat → FileSystem → JString → FileSystem
  | 0, t, _ => t
  | depth + 1, t, file =>
      if File.isDirectory t file then
        File.delete ((File.listFiles t file).foldl (deleteEntry (deleteSubDirs depth)) t) file
      else t

/-- The first loop of `processReceivedFileMap`. -/
def processDir (t : FileSystem) (fo : FileOperation) : FileSystem :=
  let file := fo.file.file
  if fo.file.isDir then
    if fo.operation = opAdd ∧ File.fileExists t file = false then (File.mkdirs t file).2
    else if fo.operation = opDel ∧ File.fileExists t file then deleteSubDirs (t.depth + 1) t file
    else t
  else t

/-- The second loop of `processReceivedFileMap`, with whether it ends without an exception. -/
def processFile (t : FileSystem) (fo : FileOperation) : Bool × FileSystem :=
  let file := fo.file.file
  if fo.file.isDir then (true, t)
  else if fo.operation = opAdd ∨ fo.operation = opMod then
    match if File.fileExists t file then some t else File.createNewFile t file with
    | none => (false, t)
    | some t' =>
        match fo.bytes with
        | none => (true, t')
        | some bytes =>
            match File.write t' bytes file with
            | none => (false, t')
            | some t'' => (true, t'')
  else if fo.operation = opDel then
    (true, if File.fileExists t file then File.delete t file else t)
  else (true, t)

/-- The second loop stops at an exception. -/
def processFiles : FileSystem → List FileOperation → Bool × FileSystem
  | t, [] => (true, t)
  | t, fo :: fos =>
      match processFile t fo with
      | (true, t') => processFiles t' fos
      | (false, t') => (false, t')

/-- The changes that `processReceivedFileMap` makes to the files. -/
def processReceivedFileMap (t : FileSystem) (fileMap : HashMap FileOperation) :
    Bool × FileSystem :=
  let fos := fileMap.entries.map Sigma.snd
  processFiles (fos.foldl processDir t) fos

end DropboxFileManager

/-- The operations of `writeFromFileMap`. -/
def writeFromFileMap (fileMap prevFileMap : HashMap DummyFile) : HashMap FileOperation :=
  prevFileMap.putEach (fun key file =>
      match fileMap.lookup key with
      | none => some ⟨opDel, file, none⟩
      | some _ => none)
    (fileMap.putEach (fun key file =>
      match prevFileMap.lookup key with
      | some prev =>
          if prev.lastModifiedTime ≠ file.lastModifiedTime then some ⟨opMod, file, none⟩ else none
      | none => some ⟨opAdd, file, none⟩) ∅)

/-- An operation as it arrives at a peer with the home directory `home`: the content of the file
goes with it unless the sender finds a directory there. -/
def FileOperation.received (t : FileSystem) (home key : JString) (fo : FileOperation) :
    FileOperation :=
  ⟨fo.operation, ⟨fo.file.isDir, home ++ key, 0⟩,
    if File.isDirectory t fo.file.file = false ∧ (fo.operation = opAdd ∨ fo.operation = opMod) then
      File.read t fo.file.file
    else none⟩

/-- A map of operations as it arrives. -/
def HashMap.received (t : FileSystem) (home : JString) (operations : HashMap FileOperation) :
    HashMap FileOperation :=
  operations.putEach (fun key fo => some (fo.received t home key)) ∅

end CodingSample.Dropbox
