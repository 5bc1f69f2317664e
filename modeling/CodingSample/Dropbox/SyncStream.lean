import CodingSample.Data.BigEndian
import CodingSample.Dropbox.FileManager

/-!
# The stream of a batch

What `SyncStreamWriter` writes for a map of operations and what `SyncStreamParser` reads. The
character set is a pair of functions, `getBytes` and `newString`.
-/

namespace CodingSample.Dropbox

/-- The bytes still to be read, and how many the next calls of `read` return at most. -/
structure InputStream where
  bytes : Bytes
  reads : List Nat
  deriving DecidableEq

namespace InputStream

/-- One call of `read` with a new array. It returns at least one byte if there is one, and the rest
of the array stays zero. -/
def read (len : Nat) (s : InputStream) : Bytes × InputStream :=
  let got := s.bytes.take (min len (max 1 (s.reads.headD len)))
  (got ++ List.replicate (len - got.length) 0, ⟨s.bytes.drop got.length, s.reads.tail⟩)

/-- The calls of a `DataInputStream` that wait for all bytes. At the end of the stream they are an
exception. -/
def readFully (len : Nat) (s : InputStream) : Option (Bytes × InputStream) :=
  if s.bytes.length < len then none
  else some (s.bytes.take len, { s with bytes := s.bytes.drop len })

def readInt (s : InputStream) : Option (Int × InputStream) :=
  (s.readFully 4).map fun r => (BigEndian.decode r.1, r.2)

def readLong (s : InputStream) : Option (Int × InputStream) :=
  (s.readFully 8).map fun r => (BigEndian.decode r.1, r.2)

def readByte (s : InputStream) : Option (UInt8 × InputStream) :=
  match s.bytes with
  | [] => none
  | b :: bytes => some (b, { s with bytes := bytes })

def readBoolean (s : InputStream) : Option (Bool × InputStream) :=
  s.readByte.map fun r => (r.1 ≠ 0, r.2)

end InputStream

namespace SyncStreamParser

/-- A length and one call of `read` for as many bytes. A negative length is an exception. -/
def readString (newString : Bytes → JString) (s : InputStream) : Option (JString × InputStream) :=
  s.readInt.bind fun r =>
    if r.1 < 0 then none
    else
      let nameBytes := r.2.read r.1.toNat
      some (newString nameBytes.1, nameBytes.2)

/-- The loop that fills `fileBytes`. The array has the length that is left of `fileLength` in an
`int`: a negative one is an exception, and so is an index that is not below it. -/
def readContent (fileLength : Int) (s : InputStream) : Option (Bytes × InputStream) :=
  let size := fileLength.bmod (2 ^ 32)
  if size < 0 then none
  else if size < fileLength then none
  else if fileLength < 0 then some (List.replicate size.toNat 0, s)
  else s.readFully fileLength.toNat

def readEach (newString : Bytes → JString) (home : JString) (fileMap : HashMap FileOperation)
    (s : InputStream) : Option (HashMap FileOperation × InputStream) :=
  (readString newString s).bind fun fileName =>
  fileName.2.readLong.bind fun lastModifiedTime =>
  lastModifiedTime.2.readByte.bind fun operation =>
  operation.2.readBoolean.bind fun flag =>
    let f : DummyFile := ⟨flag.1, home ++ fileName.1, 0⟩
    if flag.1 = false ∧ (operation.1 = opAdd ∨ operation.1 = opMod) then
      flag.2.readLong.bind fun fileLength =>
      (readContent fileLength.1 fileLength.2).bind fun fileBytes =>
        some (AList.insert fileName.1 ⟨operation.1, f, some fileBytes.1⟩ fileMap, fileBytes.2)
    else some (AList.insert fileName.1 ⟨operation.1, f, none⟩ fileMap, flag.2)

def readAll (newString : Bytes → JString) (home : JString) :
    Nat → HashMap FileOperation → InputStream → Option (HashMap FileOperation × InputStream)
  | 0, fileMap, s => some (fileMap, s)
  | fileNum + 1, fileMap, s =>
      (readEach newString home fileMap s).bind fun r => readAll newString home fileNum r.1 r.2

def parseFileMap (newString : Bytes → JString) (home : JString) (s : InputStream) :
    Option (HashMap FileOperation × InputStream) :=
  (readString newString s).bind fun targetHome =>
  targetHome.2.readInt.bind fun fileNum =>
    readAll newString home fileNum.1.toNat ∅ fileNum.2

end SyncStreamParser

namespace SyncStreamWriter

def writeInt (n : Int) : Bytes := BigEndian.encode 4 n

def writeLong (n : Int) : Bytes := BigEndian.encode 8 n

/-- `writeFileName` and `writeHomeDirectory`. -/
def writeString (getBytes : JString → Bytes) (s : JString) : Bytes :=
  writeInt (getBytes s).length ++ getBytes s

def writeFileFlag (isDir : Bool) : Bytes := [if isDir then 1 else 0]

/-- One turn of the loop of `writeOperations`. A file that is not there is an exception. -/
def writeEach (getBytes : JString → Bytes) (t : FileSystem) (time : Times) (key : JString)
    (op : FileOperation) : Option Bytes :=
  let file := op.file.file
  let head := writeString getBytes key ++ writeLong (time file).toInt ++ [op.operation] ++
    writeFileFlag op.file.isDir
  if File.isDirectory t file = false ∧ (op.operation = opAdd ∨ op.operation = opMod) then
    (File.read t file).map fun content => head ++ (writeLong content.length ++ content)
  else some head

def writeAll (getBytes : JString → Bytes) (t : FileSystem) (time : Times) :
    List (Sigma fun _ : JString => FileOperation) → Option Bytes
  | [] => some []
  | e :: entries =>
      (writeEach getBytes t time e.1 e.2).bind fun bytes =>
        (writeAll getBytes t time entries).map (bytes ++ ·)

def writeOperations (getBytes : JString → Bytes) (t : FileSystem) (time : Times) (home : JString)
    (operations : HashMap FileOperation) : Option Bytes :=
  (writeAll getBytes t time operations.entries).map fun bytes =>
    writeString getBytes home ++ (writeInt operations.entries.length ++ bytes)

end SyncStreamWriter

end CodingSample.Dropbox
