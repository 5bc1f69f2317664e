import CodingSample.Dropbox.SyncStream
import Mathlib.Algebra.BigOperators.Group.List.Basic
import CodingSample.Dropbox.Transfer

/-!
# Batches on the stream

A batch is read back from the bytes that were written for it when no read of a string comes back
short, the directory flags agree with the files, and the lengths fit an `int`.
-/

namespace CodingSample.Dropbox

variable {getBytes : JString → Bytes} {newString : Bytes → JString} {t : FileSystem} {time : Times}
  {home there key : JString} {op fo : FileOperation} {operations fileMap : HashMap FileOperation}
  {bytes rest content : Bytes} {reads : List Nat} {s s' : InputStream} {n : Int} {len : Nat}

/-! ### Numbers and strings -/

theorem readFully_append (h : bytes.length = len) :
    InputStream.readFully len ⟨bytes ++ rest, reads⟩ = some (bytes, ⟨rest, reads⟩) := by
  rw [InputStream.readFully]
  dsimp only
  rw [if_neg (by rw [List.length_append]; omega), List.take_left' h, List.drop_left' h]

theorem readInt_write (hlow : -2 ^ 31 ≤ n) (hhigh : n < 2 ^ 31) :
    InputStream.readInt ⟨SyncStreamWriter.writeInt n ++ rest, reads⟩ = some (n, ⟨rest, reads⟩) := by
  rw [InputStream.readInt, SyncStreamWriter.writeInt, readFully_append BigEndian.length_encode,
    Option.map_some, BigEndian.decode_encode (by omega) (by omega)]

theorem readLong_write (hlow : -2 ^ 63 ≤ n) (hhigh : n < 2 ^ 63) :
    InputStream.readLong ⟨SyncStreamWriter.writeLong n ++ rest, reads⟩ =
      some (n, ⟨rest, reads⟩) := by
  rw [InputStream.readLong, SyncStreamWriter.writeLong, readFully_append BigEndian.length_encode,
    Option.map_some, BigEndian.decode_encode (by omega) (by omega)]

theorem read_append (h : bytes.length ≤ max 1 (reads.headD bytes.length)) :
    InputStream.read bytes.length ⟨bytes ++ rest, reads⟩ = (bytes, ⟨rest, reads.tail⟩) := by
  rw [InputStream.read]
  dsimp only
  rw [min_eq_left h, List.take_left, Nat.sub_self, List.replicate_zero, List.append_nil,
    List.drop_left]

theorem readString_write (hlen : (getBytes key).length < 2 ^ 31)
    (h : (getBytes key).length ≤ max 1 (reads.headD (getBytes key).length)) :
    SyncStreamParser.readString newString
      ⟨SyncStreamWriter.writeString getBytes key ++ rest, reads⟩ =
      some (newString (getBytes key), ⟨rest, reads.tail⟩) := by
  rw [SyncStreamParser.readString, SyncStreamWriter.writeString, List.append_assoc,
    readInt_write (by omega) (by omega), Option.bind_some]
  dsimp only
  rw [if_neg (by omega), Int.toNat_natCast, read_append h]

theorem readBoolean_write {isDir : Bool} :
    InputStream.readBoolean ⟨SyncStreamWriter.writeFileFlag isDir ++ rest, reads⟩ =
      some (isDir, ⟨rest, reads⟩) := by
  cases isDir <;> rfl

theorem readContent_append (h : content.length < 2 ^ 31) :
    SyncStreamParser.readContent content.length ⟨content ++ rest, reads⟩ =
      some (content, ⟨rest, reads⟩) := by
  have hsize : (content.length : Int).bmod (2 ^ 32) = content.length :=
    Int.bmod_eq_of_le_mul_two (by omega) (by omega)
  rw [SyncStreamParser.readContent, hsize, if_neg (by omega), if_neg (by omega), if_neg (by omega), Int.toNat_natCast,
    readFully_append rfl]

/-! ### Entries -/

/-- The operations that come with a content. -/
def FileOperation.Carries (op : FileOperation) : Prop :=
  op.operation = opAdd ∨ op.operation = opMod

instance : Decidable op.Carries := inferInstanceAs (Decidable (_ ∨ _))

/-- The flag that is sent says what the writer finds. -/
def FileOperation.Flagged (t : FileSystem) (op : FileOperation) : Prop :=
  op.Carries → op.file.isDir = File.isDirectory t op.file.file

/-- The content has a length that fits an `int`. -/
def FileOperation.Short (t : FileSystem) (op : FileOperation) : Prop :=
  ∀ content, op.Carries → File.read t op.file.file = some content → content.length < 2 ^ 31

/-- What is read before the content. -/
theorem readEach_head (hcharset : newString (getBytes key) = key)
    (hlen : (getBytes key).length < 2 ^ 31)
    (hread : (getBytes key).length ≤ max 1 (reads.headD (getBytes key).length)) :
    SyncStreamParser.readEach newString there fileMap
      ⟨SyncStreamWriter.writeString getBytes key ++
        SyncStreamWriter.writeLong (time op.file.file).toInt ++ [op.operation] ++
        SyncStreamWriter.writeFileFlag op.file.isDir ++ rest, reads⟩ =
      if op.file.isDir = false ∧ op.Carries then
        (InputStream.readLong ⟨rest, reads.tail⟩).bind fun fileLength =>
        (SyncStreamParser.readContent fileLength.1 fileLength.2).bind fun fileBytes =>
          some (AList.insert key ⟨op.operation, ⟨op.file.isDir, there ++ key, 0⟩, some fileBytes.1⟩
            fileMap, fileBytes.2)
      else some (AList.insert key ⟨op.operation, ⟨op.file.isDir, there ++ key, 0⟩, none⟩ fileMap,
        ⟨rest, reads.tail⟩) := by
  have hlow := (time op.file.file).le_toInt
  have hhigh := (time op.file.file).toInt_lt
  simp only [List.append_assoc]
  rw [SyncStreamParser.readEach, readString_write hlen hread, Option.bind_some]
  dsimp only
  rw [readLong_write hlow hhigh, Option.bind_some]
  dsimp only [List.singleton_append, InputStream.readByte]
  rw [Option.bind_some]
  dsimp only
  rw [readBoolean_write, Option.bind_some, hcharset]
  rfl

theorem readEach_write (hcharset : newString (getBytes key) = key)
    (hlen : (getBytes key).length < 2 ^ 31)
    (hread : (getBytes key).length ≤ max 1 (reads.headD (getBytes key).length))
    (hflag : op.Flagged t) (hshort : op.Short t)
    (hwrite : SyncStreamWriter.writeEach getBytes t time key op = some bytes) :
    SyncStreamParser.readEach newString there fileMap ⟨bytes ++ rest, reads⟩ =
      some (AList.insert key (op.received t there key) fileMap, ⟨rest, reads.tail⟩) := by
  rw [SyncStreamWriter.writeEach] at hwrite
  split_ifs at hwrite with hcontent
  · obtain ⟨content, hfile, rfl⟩ := Option.map_eq_some_iff.mp hwrite
    have hlength := hshort content hcontent.2 hfile
    rw [List.append_assoc, readEach_head hcharset hlen hread,
      if_pos ⟨(hflag hcontent.2).trans hcontent.1, hcontent.2⟩, List.append_assoc,
      readLong_write (by omega) (by omega), Option.bind_some]
    dsimp only
    rw [readContent_append hlength, Option.bind_some, FileOperation.received, if_pos hcontent,
      hfile]
  · obtain rfl := Option.some.inj hwrite
    rw [readEach_head hcharset hlen hread,
      if_neg fun h => hcontent ⟨(hflag h.2).symm.trans h.1, h.2⟩, FileOperation.received,
      if_neg hcontent]

/-! ### Batches -/

/-- Each call of `read` has room for its string. -/
def Whole : List Nat → List Bytes → Prop
  | _, [] => True
  | reads, b :: bs => b.length ≤ max 1 (reads.headD b.length) ∧ Whole reads.tail bs

theorem readAll_write {entries : List (Sigma fun _ : JString => FileOperation)}
    (hcharset : ∀ e ∈ entries, newString (getBytes e.1) = e.1)
    (hlen : ∀ e ∈ entries, (getBytes e.1).length < 2 ^ 31)
    (hreads : Whole reads (entries.map fun e => getBytes e.1))
    (hflags : ∀ e ∈ entries, e.2.Flagged t) (hshort : ∀ e ∈ entries, e.2.Short t)
    (hwrite : SyncStreamWriter.writeAll getBytes t time entries = some bytes) :
    ∃ reads', SyncStreamParser.readAll newString there entries.length fileMap
      ⟨bytes ++ rest, reads⟩ = some (entries.foldl (fun fileMap e =>
        AList.insert e.1 (e.2.received t there e.1) fileMap) fileMap, ⟨rest, reads'⟩) := by
  induction entries generalizing bytes fileMap reads with
  | nil =>
      obtain rfl := Option.some.inj hwrite
      exact ⟨reads, rfl⟩
  | cons e entries ih =>
      obtain ⟨head, hhead, hwrite⟩ := Option.bind_eq_some_iff.mp hwrite
      obtain ⟨tail, htail, rfl⟩ := Option.map_eq_some_iff.mp hwrite
      obtain ⟨hread, hreads⟩ := hreads
      rw [List.length_cons, SyncStreamParser.readAll, List.append_assoc,
        readEach_write (hcharset e List.mem_cons_self) (hlen e List.mem_cons_self) hread
          (hflags e List.mem_cons_self) (hshort e List.mem_cons_self) hhead, Option.bind_some]
      exact ih (fun e he => hcharset e (List.mem_cons_of_mem _ he))
        (fun e he => hlen e (List.mem_cons_of_mem _ he)) hreads
        (fun e he => hflags e (List.mem_cons_of_mem _ he))
        (fun e he => hshort e (List.mem_cons_of_mem _ he)) htail

/-! ### What the parser can return -/

/-- What an operation takes on the stream after its name. -/
def FileOperation.size (fo : FileOperation) : Nat :=
  match fo.bytes with
  | none => 14
  | some b => 22 + b.length

/-- What the parser makes for a name: its file is the name after the home directory, and a content
comes with the operations for files that carry one and fits an array. -/
structure FileOperation.Read (home key : JString) (fo : FileOperation) : Prop where
  file : fo.file.file = home ++ key
  carries : fo.bytes.isSome = true ↔ fo.file.isDir = false ∧ fo.Carries
  short : ∀ b, fo.bytes = some b → b.length < 2 ^ 31

theorem readFully_some (h : s.readFully len = some (bytes, s')) :
    bytes.length = len ∧ s.bytes.length = s'.bytes.length + len := by
  rw [InputStream.readFully] at h
  split_ifs at h with hlen
  obtain ⟨rfl, rfl⟩ := Prod.mk.inj (Option.some.inj h)
  rw [List.length_take, List.length_drop]
  omega

theorem readInt_some (h : s.readInt = some (n, s')) : s.bytes.length = s'.bytes.length + 4 := by
  obtain ⟨⟨bytes, s₁⟩, hread, h⟩ := Option.map_eq_some_iff.mp h
  obtain ⟨-, rfl⟩ := Prod.mk.inj h
  exact (readFully_some hread).2

theorem readLong_some (h : s.readLong = some (n, s')) : s.bytes.length = s'.bytes.length + 8 := by
  obtain ⟨⟨bytes, s₁⟩, hread, h⟩ := Option.map_eq_some_iff.mp h
  obtain ⟨-, rfl⟩ := Prod.mk.inj h
  exact (readFully_some hread).2

theorem readByte_some {b : UInt8} (h : s.readByte = some (b, s')) :
    s.bytes.length = s'.bytes.length + 1 := by
  rw [InputStream.readByte] at h
  split at h
  · cases h
  · rename_i hbytes
    obtain ⟨-, rfl⟩ := Prod.mk.inj (Option.some.inj h)
    rw [hbytes]
    rfl

theorem readBoolean_some {b : Bool} (h : s.readBoolean = some (b, s')) :
    s.bytes.length = s'.bytes.length + 1 := by
  obtain ⟨⟨byte, s₁⟩, hread, h⟩ := Option.map_eq_some_iff.mp h
  obtain ⟨-, rfl⟩ := Prod.mk.inj h
  exact readByte_some hread

theorem length_read (s : InputStream) (len : Nat) : (s.read len).1.length = len ∧
    s.bytes.length = (s.read len).2.bytes.length +
      min (min len (max 1 (s.reads.headD len))) s.bytes.length := by
  unfold InputStream.read
  dsimp only
  rw [List.length_append, List.length_replicate, List.length_drop, List.length_take]
  omega

theorem readString_some {name : JString}
    (h : SyncStreamParser.readString newString s = some (name, s')) :
    ∃ array, name = newString array ∧
      s.bytes.length ≤ s'.bytes.length + 4 + array.length := by
  obtain ⟨⟨n, s₁⟩, hint, h⟩ := Option.bind_eq_some_iff.mp h
  dsimp only at h
  split_ifs at h with hneg
  have hint := readInt_some hint
  cases hr : s₁.read n.toNat with
  | mk array s₂ =>
      rw [hr] at h
      obtain ⟨rfl, rfl⟩ := Prod.mk.inj (Option.some.inj h)
      obtain ⟨hlen, hread⟩ := length_read s₁ n.toNat
      rw [hr] at hlen hread
      refine ⟨array, rfl, ?_⟩
      dsimp only at hlen hread hint ⊢
      omega

/-- A read that comes back short leaves a byte of the string on the stream. -/
theorem readString_short {name : JString} (hlen : (getBytes key).length < 2 ^ 31)
    (hshort : ¬(getBytes key).length ≤ max 1 (reads.headD (getBytes key).length))
    (h : SyncStreamParser.readString newString
      ⟨SyncStreamWriter.writeString getBytes key ++ rest, reads⟩ = some (name, s')) :
    ∃ array, name = newString array ∧
      (SyncStreamWriter.writeString getBytes key ++ rest).length + 1 ≤
        s'.bytes.length + 4 + array.length := by
  rw [SyncStreamParser.readString, SyncStreamWriter.writeString, List.append_assoc,
    readInt_write (by omega) (by omega), Option.bind_some] at h
  dsimp only at h
  rw [if_neg (by omega), Int.toNat_natCast] at h
  obtain ⟨harray, hread⟩ := length_read ⟨getBytes key ++ rest, reads⟩ (getBytes key).length
  cases hr : InputStream.read (getBytes key).length ⟨getBytes key ++ rest, reads⟩ with
  | mk array s₂ =>
      rw [hr] at h harray hread
      obtain ⟨rfl, rfl⟩ := Prod.mk.inj (Option.some.inj h)
      refine ⟨array, rfl, ?_⟩
      rw [SyncStreamWriter.writeString]
      simp only [List.length_append, SyncStreamWriter.writeInt, BigEndian.length_encode]
        at hread harray ⊢
      omega

theorem readContent_some (h : SyncStreamParser.readContent n s = some (content, s')) :
    s.bytes.length ≤ s'.bytes.length + content.length ∧ content.length < 2 ^ 31 := by
  have hsize : n.bmod (2 ^ 32) < 2 ^ 31 := by
    have : n.bmod (2 ^ 32) < ((2 ^ 32 : Nat) + 1) / 2 := Int.bmod_lt (by decide)
    omega
  unfold SyncStreamParser.readContent at h
  dsimp only at h
  split_ifs at h with hneg hbig hzero
  · obtain ⟨rfl, rfl⟩ := Prod.mk.inj (Option.some.inj h)
    rw [List.length_replicate]
    omega
  · obtain ⟨hlen, hread⟩ := readFully_some h
    omega

/-- What one turn of the loop of the parser does, with the bytes it takes. -/
theorem readEach_some {k : Nat}
    (hstring : ∀ name s₁, SyncStreamParser.readString newString s = some (name, s₁) →
      ∃ array, name = newString array ∧ s.bytes.length + k ≤ s₁.bytes.length + 4 + array.length)
    (h : SyncStreamParser.readEach newString home fileMap s = some (operations, s')) :
    ∃ array fo, operations = AList.insert (newString array) fo fileMap ∧
      fo.Read home (newString array) ∧
      s.bytes.length + k ≤ s'.bytes.length + (array.length + fo.size) := by
  obtain ⟨⟨name, s₁⟩, hname, h⟩ := Option.bind_eq_some_iff.mp h
  obtain ⟨⟨time, s₂⟩, htime, h⟩ := Option.bind_eq_some_iff.mp h
  obtain ⟨⟨operation, s₃⟩, hop, h⟩ := Option.bind_eq_some_iff.mp h
  obtain ⟨⟨flag, s₄⟩, hflag, h⟩ := Option.bind_eq_some_iff.mp h
  obtain ⟨array, rfl, hlen⟩ := hstring name s₁ hname
  have htime := readLong_some htime
  have hop := readByte_some hop
  have hflag := readBoolean_some hflag
  dsimp only at h htime hop hflag
  split_ifs at h with hcontent
  · obtain ⟨⟨length, s₅⟩, hlength, h⟩ := Option.bind_eq_some_iff.mp h
    obtain ⟨⟨content, s₆⟩, hbytes, h⟩ := Option.bind_eq_some_iff.mp h
    obtain ⟨rfl, rfl⟩ := Prod.mk.inj (Option.some.inj h)
    have hlength := readLong_some hlength
    obtain ⟨hbytes, hshort⟩ := readContent_some hbytes
    refine ⟨array, _, rfl, ⟨rfl, iff_of_true rfl hcontent, ?_⟩, ?_⟩
    · intro b hb
      rw [← Option.some.inj hb]
      exact hshort
    · dsimp only [FileOperation.size] at hlength hbytes ⊢
      omega
  · obtain ⟨rfl, rfl⟩ := Prod.mk.inj (Option.some.inj h)
    refine ⟨array, _, rfl, ⟨rfl, iff_of_false Bool.false_ne_true hcontent, nofun⟩, ?_⟩
    dsimp only [FileOperation.size]
    omega

theorem readEach_some' (h : SyncStreamParser.readEach newString home fileMap s =
    some (operations, s')) :
    ∃ array fo, operations = AList.insert (newString array) fo fileMap ∧
      fo.Read home (newString array) ∧
      s.bytes.length ≤ s'.bytes.length + (array.length + fo.size) :=
  readEach_some (k := 0) (fun _ _ hname => readString_some hname) h

/-! ### The size of a map on the stream -/

def entrySize (getBytes : JString → Bytes) (e : Sigma fun _ : JString => FileOperation) : Nat :=
  (getBytes e.1).length + e.2.size

def mapSize (getBytes : JString → Bytes) (m : HashMap FileOperation) : Nat :=
  (m.entries.map (entrySize getBytes)).sum

theorem length_insert (key : JString) (fo : FileOperation) (m : HashMap FileOperation) :
    (AList.insert key fo m).entries.length =
      if key ∈ m then m.entries.length else m.entries.length + 1 := by
  split
  · rename_i hmem
    obtain ⟨old, l₁, l₂, -, hentries, herase⟩ := List.exists_of_kerase hmem
    rw [AList.entries_insert, herase, hentries]
    simp only [List.length_cons, List.length_append]
    rfl
  · rw [AList.entries_insert_of_notMem ‹_›, List.length_cons]

theorem mapSize_insert (h : key ∉ fileMap) : mapSize getBytes (AList.insert key fo fileMap) =
    (getBytes key).length + fo.size + mapSize getBytes fileMap := by
  rw [mapSize, AList.entries_insert_of_notMem h, List.map_cons, List.sum_cons]
  rfl

/-- No array of another length gives the name. -/
def Unambiguous (getBytes : JString → Bytes) (newString : Bytes → JString) (key : JString) : Prop :=
  ∀ array, newString array = key → array.length = (getBytes key).length

theorem readAll_length {num : Nat} (h : SyncStreamParser.readAll newString home num fileMap s =
    some (operations, s')) : operations.entries.length ≤ fileMap.entries.length + num := by
  induction num generalizing fileMap s with
  | zero =>
      obtain ⟨rfl, -⟩ := Prod.mk.inj (Option.some.inj h)
      exact Nat.le_add_right _ _
  | succ num ih =>
      obtain ⟨⟨m, s₁⟩, hfirst, h⟩ := Option.bind_eq_some_iff.mp h
      obtain ⟨array, fo, rfl, -⟩ := readEach_some' hfirst
      have hrest := ih h
      rw [length_insert] at hrest
      split at hrest <;> omega

theorem readAll_mem {num : Nat} (h : SyncStreamParser.readAll newString home num fileMap s =
    some (operations, s')) (hkey : key ∈ fileMap) : key ∈ operations := by
  induction num generalizing fileMap s with
  | zero =>
      obtain ⟨rfl, -⟩ := Prod.mk.inj (Option.some.inj h)
      exact hkey
  | succ num ih =>
      obtain ⟨⟨m, s₁⟩, hfirst, h⟩ := Option.bind_eq_some_iff.mp h
      obtain ⟨array, fo, rfl, -⟩ := readEach_some' hfirst
      exact ih h ((AList.mem_insert fileMap).mpr (.inr hkey))

theorem readAll_read {num : Nat} (h : SyncStreamParser.readAll newString home num fileMap s =
    some (operations, s')) (hfileMap : ∀ key fo, fileMap.lookup key = some fo → fo.Read home key) :
    ∀ key fo, operations.lookup key = some fo → fo.Read home key := by
  induction num generalizing fileMap s with
  | zero =>
      obtain ⟨rfl, -⟩ := Prod.mk.inj (Option.some.inj h)
      exact hfileMap
  | succ num ih =>
      obtain ⟨⟨m, s₁⟩, hfirst, h⟩ := Option.bind_eq_some_iff.mp h
      obtain ⟨array, fo, rfl, hread, -⟩ := readEach_some' hfirst
      refine ih h fun key fo' hkey => ?_
      rw [HashMap.lookup_insert] at hkey
      split_ifs at hkey with heq
      · exact Option.some.inj hkey ▸ heq ▸ hread
      · exact hfileMap key fo' hkey

/-- A run that gives as many entries as it has turns takes no more bytes than the entries have. -/
theorem readAll_size {num : Nat} (h : SyncStreamParser.readAll newString home num fileMap s =
    some (operations, s')) (hnum : operations.entries.length = fileMap.entries.length + num)
    (hnames : ∀ key ∈ operations, Unambiguous getBytes newString key) :
    s.bytes.length + mapSize getBytes fileMap ≤
      s'.bytes.length + mapSize getBytes operations := by
  induction num generalizing fileMap s with
  | zero =>
      obtain ⟨rfl, rfl⟩ := Prod.mk.inj (Option.some.inj h)
      rfl
  | succ num ih =>
      obtain ⟨⟨m, s₁⟩, hfirst, h⟩ := Option.bind_eq_some_iff.mp h
      obtain ⟨array, fo, rfl, -, hsize⟩ := readEach_some' hfirst
      have hlength := length_insert (newString array) fo fileMap
      have hbound := readAll_length h
      dsimp only at h hbound hsize
      split_ifs at hlength with hmem
      · omega
      have hrest := ih h (by omega)
      have hname := hnames _ (readAll_mem h ((AList.mem_insert fileMap).mpr (.inl rfl))) array rfl
      rw [mapSize_insert hmem] at hrest
      omega

/-! ### The round trip -/

theorem length_writeEach (hwrite : SyncStreamWriter.writeEach getBytes t time key op = some bytes) :
    bytes.length = (getBytes key).length + (op.received t there key).size := by
  have hint : ∀ n, (SyncStreamWriter.writeInt n).length = 4 := fun _ => BigEndian.length_encode
  have hlong : ∀ n, (SyncStreamWriter.writeLong n).length = 8 := fun _ => BigEndian.length_encode
  have hflag : (SyncStreamWriter.writeFileFlag op.file.isDir).length = 1 := rfl
  unfold SyncStreamWriter.writeEach SyncStreamWriter.writeString at hwrite
  dsimp only at hwrite
  unfold FileOperation.received FileOperation.size
  split_ifs at hwrite ⊢ with hcontent
  · obtain ⟨content, hfile, rfl⟩ := Option.map_eq_some_iff.mp hwrite
    rw [hfile]
    simp only [List.length_append, List.length_singleton, hint, hlong, hflag]
    omega
  · obtain rfl := Option.some.inj hwrite
    simp only [List.length_append, List.length_singleton, hint, hlong, hflag]
    omega

theorem length_writeAll {entries : List (Sigma fun _ : JString => FileOperation)}
    (hwrite : SyncStreamWriter.writeAll getBytes t time entries = some bytes) : bytes.length =
      (entries.map fun e => (getBytes e.1).length + (e.2.received t there e.1).size).sum := by
  induction entries generalizing bytes with
  | nil =>
      obtain rfl := Option.some.inj hwrite
      rfl
  | cons e entries ih =>
      obtain ⟨head, hhead, hwrite⟩ := Option.bind_eq_some_iff.mp hwrite
      obtain ⟨tail, htail, rfl⟩ := Option.map_eq_some_iff.mp hwrite
      rw [List.length_append, length_writeEach hhead, ih htail, List.map_cons, List.sum_cons]

theorem writeEach_eq (hwrite : SyncStreamWriter.writeEach getBytes t time key op = some bytes) :
    ∃ tail, bytes = SyncStreamWriter.writeString getBytes key ++ tail := by
  unfold SyncStreamWriter.writeEach at hwrite
  dsimp only at hwrite
  split_ifs at hwrite
  · obtain ⟨content, -, rfl⟩ := Option.map_eq_some_iff.mp hwrite
    simp only [List.append_assoc]
    exact ⟨_, rfl⟩
  · obtain rfl := Option.some.inj hwrite
    simp only [List.append_assoc]
    exact ⟨_, rfl⟩

/-- When the parser ends where the writer did, every name was read at once. -/
theorem whole_of_readAll {entries : List (Sigma fun _ : JString => FileOperation)}
    (hcharset : ∀ e ∈ entries, newString (getBytes e.1) = e.1)
    (hlen : ∀ e ∈ entries, (getBytes e.1).length < 2 ^ 31)
    (hflags : ∀ e ∈ entries, e.2.Flagged t) (hshort : ∀ e ∈ entries, e.2.Short t)
    (hwrite : SyncStreamWriter.writeAll getBytes t time entries = some bytes)
    (hrun : SyncStreamParser.readAll newString there entries.length fileMap
      ⟨bytes ++ rest, reads⟩ = some (operations, s'))
    (hend : s'.bytes.length = rest.length)
    (hnum : operations.entries.length = fileMap.entries.length + entries.length)
    (hnames : ∀ key ∈ operations, Unambiguous getBytes newString key)
    (hsize : mapSize getBytes operations = mapSize getBytes fileMap +
      (entries.map fun e => (getBytes e.1).length + (e.2.received t there e.1).size).sum) :
    Whole reads (entries.map fun e => getBytes e.1) := by
  induction entries generalizing bytes fileMap reads with
  | nil => trivial
  | cons e entries ih =>
      obtain ⟨head, hhead, hwrite⟩ := Option.bind_eq_some_iff.mp hwrite
      obtain ⟨tail, htail, rfl⟩ := Option.map_eq_some_iff.mp hwrite
      rw [List.map_cons, List.sum_cons] at hsize
      rw [List.length_cons] at hnum
      obtain ⟨⟨m, s₁⟩, hfirst, hrun⟩ := Option.bind_eq_some_iff.mp hrun
      have hbound := readAll_length hrun
      rw [List.append_assoc] at hfirst
      by_cases hread : (getBytes e.1).length ≤ max 1 (reads.headD (getBytes e.1).length)
      · rw [readEach_write (hcharset e List.mem_cons_self) (hlen e List.mem_cons_self) hread
          (hflags e List.mem_cons_self) (hshort e List.mem_cons_self) hhead] at hfirst
        obtain ⟨rfl, rfl⟩ := Prod.mk.inj (Option.some.inj hfirst)
        have hlength := length_insert e.1 (e.2.received t there e.1) fileMap
        dsimp only at hbound hrun
        split_ifs at hlength with hmem
        · omega
        refine ⟨hread, ih (fun e he => hcharset e (List.mem_cons_of_mem _ he))
          (fun e he => hlen e (List.mem_cons_of_mem _ he))
          (fun e he => hflags e (List.mem_cons_of_mem _ he))
          (fun e he => hshort e (List.mem_cons_of_mem _ he)) htail hrun (by omega) ?_⟩
        rw [mapSize_insert hmem]
        omega
      · -- one byte of the name is left over, and no later entry takes more than it should
        obtain ⟨more, rfl⟩ := writeEach_eq hhead
        rw [List.append_assoc] at hfirst
        obtain ⟨array, fo, rfl, -, hfirst⟩ := readEach_some
          (fun _ _ hname => readString_short (hlen e List.mem_cons_self) hread hname) hfirst
        have hlength := length_insert (newString array) fo fileMap
        dsimp only at hbound hrun hfirst
        split_ifs at hlength with hmem
        · omega
        have hrest := readAll_size hrun (by omega) hnames
        have hname := hnames _ (readAll_mem hrun ((AList.mem_insert fileMap).mpr (.inl rfl))) array rfl
        have hheadSize : _ = (getBytes e.1).length + (e.2.received t there e.1).size :=
          length_writeEach hhead
        have htailSize : tail.length = (entries.map fun e =>
            (getBytes e.1).length + (e.2.received t there e.1).size).sum := length_writeAll htail
        rw [mapSize_insert hmem] at hrest
        simp only [List.length_append] at hfirst hheadSize
        omega

/-! ### Batches -/

/-- The operations as they arrive, in the order of the batch. -/
theorem received_perm {m : HashMap FileOperation}
    (h : ∀ key, m.lookup key = (operations.received t there).lookup key) :
    m.entries.Perm (operations.entries.map fun e => ⟨e.1, e.2.received t there e.1⟩) := by
  have hnodup : (operations.entries.map fun e =>
      (⟨e.1, e.2.received t there e.1⟩ : Sigma fun _ : JString => FileOperation)).NodupKeys := by
    rw [List.NodupKeys, List.keys, List.map_map]
    exact operations.nodupKeys
  refine List.lookup_ext m.nodupKeys hnodup fun key fo => ?_
  have hmap : (operations.entries.map fun e =>
      (⟨e.1, e.2.received t there e.1⟩ : Sigma fun _ : JString => FileOperation)).dlookup key =
      (operations.lookup key).map (FileOperation.received t there key) := List.dlookup_map₂ key
  rw [hmap, ← lookup_received, ← h]
  rfl

theorem mapSize_of_lookup {m : HashMap FileOperation}
    (h : ∀ key, m.lookup key = (operations.received t there).lookup key) :
    mapSize getBytes m = (operations.entries.map fun e =>
      (getBytes e.1).length + (e.2.received t there e.1).size).sum := by
  rw [mapSize, ((received_perm h).map _).sum_eq, List.map_map]
  rfl

theorem length_of_lookup {m : HashMap FileOperation}
    (h : ∀ key, m.lookup key = (operations.received t there).lookup key) :
    m.entries.length = operations.entries.length :=
  (received_perm h).length_eq.trans (List.length_map _)

/-- What a batch and the reads of a transport must be like for the batch to arrive. -/
structure Arrives (getBytes : JString → Bytes) (t : FileSystem) (home : JString)
    (operations : HashMap FileOperation) (reads : List Nat) : Prop where
  reads : Whole reads (getBytes home :: operations.entries.map fun e => getBytes e.1)
  flags : ∀ e ∈ operations.entries, e.2.Flagged t
  short : ∀ e ∈ operations.entries, e.2.Short t

/-- The batch is read back, and nothing more. -/
def RoundTrip (newString : Bytes → JString) (t : FileSystem) (there : JString)
    (operations : HashMap FileOperation) (bytes rest : Bytes) (reads : List Nat) : Prop :=
  ∃ fileMap s', SyncStreamParser.parseFileMap newString there ⟨bytes ++ rest, reads⟩ =
    some (fileMap, s') ∧ s'.bytes = rest ∧
      ∀ key, fileMap.lookup key = (operations.received t there).lookup key

variable {entries : List (Sigma fun _ : JString => FileOperation)}

/-- The parser gets to the entries. -/
theorem parseFileMap_write (hhome : (getBytes home).length < 2 ^ 31)
    (hnum : operations.entries.length < 2 ^ 31)
    (hread : (getBytes home).length ≤ max 1 (reads.headD (getBytes home).length))
    (hwrite : SyncStreamWriter.writeAll getBytes t time operations.entries = some content)
    (hbytes : SyncStreamWriter.writeOperations getBytes t time home operations = some bytes) :
    SyncStreamParser.parseFileMap newString there ⟨bytes ++ rest, reads⟩ =
      SyncStreamParser.readAll newString there operations.entries.length ∅
        ⟨content ++ rest, reads.tail⟩ := by
  rw [SyncStreamWriter.writeOperations, hwrite] at hbytes
  obtain rfl := Option.some.inj hbytes
  rw [SyncStreamParser.parseFileMap, List.append_assoc, readString_write hhome hread,
    Option.bind_some]
  dsimp only
  rw [List.append_assoc, readInt_write (by omega) (by omega), Option.bind_some]
  dsimp only
  rw [Int.toNat_natCast]

theorem exists_writeAll
    (hbytes : SyncStreamWriter.writeOperations getBytes t time home operations = some bytes) :
    ∃ content, SyncStreamWriter.writeAll getBytes t time operations.entries = some content :=
  (Option.map_eq_some_iff.mp hbytes).imp fun _ h => h.1

/-- The writer has found every file whose content it sends. -/
theorem exists_read {e : Sigma fun _ : JString => FileOperation}
    (hwrite : SyncStreamWriter.writeAll getBytes t time entries = some bytes) (he : e ∈ entries)
    (hcontent : File.isDirectory t e.2.file.file = false ∧ e.2.Carries) :
    ∃ content, File.read t e.2.file.file = some content := by
  induction entries generalizing bytes with
  | nil => cases he
  | cons e' entries ih =>
      obtain ⟨head, hhead, hwrite⟩ := Option.bind_eq_some_iff.mp hwrite
      obtain ⟨tail, htail, -⟩ := Option.map_eq_some_iff.mp hwrite
      rcases List.mem_cons.mp he with rfl | he
      · unfold SyncStreamWriter.writeEach at hhead
        dsimp only at hhead
        split_ifs at hhead with hcarries
        · exact (Option.map_eq_some_iff.mp hhead).imp fun _ h => h.1
        · exact absurd hcontent hcarries
      · exact ih htail he

theorem isDirectory_of_read {f : JString} (h : File.read t f = some content) :
    File.isDirectory t f = false := by
  obtain ⟨p, hp, h⟩ := Option.bind_eq_some_iff.mp h
  rw [File.isDirectory, hp, Option.any_some]
  split at h
  · exact isDirectory_file ‹_›
  · cases h

theorem roundTrip_of_arrives
    (hcharset : ∀ e ∈ operations.entries, newString (getBytes e.1) = e.1)
    (hhome : (getBytes home).length < 2 ^ 31)
    (hlen : ∀ e ∈ operations.entries, (getBytes e.1).length < 2 ^ 31)
    (hnum : operations.entries.length < 2 ^ 31)
    (hbytes : SyncStreamWriter.writeOperations getBytes t time home operations = some bytes)
    (h : Arrives getBytes t home operations reads) :
    RoundTrip newString t there operations bytes rest reads := by
  obtain ⟨content, hwrite⟩ := exists_writeAll hbytes
  obtain ⟨reads', hrun⟩ : ∃ reads', SyncStreamParser.readAll newString there
      operations.entries.length ∅ ⟨content ++ rest, reads.tail⟩ =
        some (operations.received t there, ⟨rest, reads'⟩) :=
    readAll_write hcharset hlen h.reads.2 h.flags h.short hwrite
  exact ⟨operations.received t there, ⟨rest, reads'⟩,
    (parseFileMap_write hhome hnum h.reads.1 hwrite hbytes).trans hrun, rfl, fun _ => rfl⟩

theorem arrives_of_roundTrip
    (hcharset : ∀ e ∈ operations.entries, newString (getBytes e.1) = e.1)
    (hhome : (getBytes home).length < 2 ^ 31)
    (hlen : ∀ e ∈ operations.entries, (getBytes e.1).length < 2 ^ 31)
    (hnum : operations.entries.length < 2 ^ 31)
    (hbytes : SyncStreamWriter.writeOperations getBytes t time home operations = some bytes)
    (hread : (getBytes home).length ≤ max 1 (reads.headD (getBytes home).length))
    (hnames : ∀ e ∈ operations.entries, Unambiguous getBytes newString e.1)
    (h : RoundTrip newString t there operations bytes rest reads) :
    Arrives getBytes t home operations reads := by
  obtain ⟨content, hwrite⟩ := exists_writeAll hbytes
  obtain ⟨fileMap, s', hrun, rfl, hmap⟩ := h
  rw [parseFileMap_write hhome hnum hread hwrite hbytes] at hrun
  have hreceived : ∀ e ∈ operations.entries, (e.2.received t there e.1).Read there e.1 := fun e he => by
    refine readAll_read hrun (fun _ _ => nofun) e.1 _ ?_
    rw [hmap, lookup_received, HashMap.mem_entries.mp he]
    rfl
  have hflags : ∀ e ∈ operations.entries, e.2.Flagged t := fun e he hcarries => by
    have hiff := (hreceived e he).carries
    unfold FileOperation.received at hiff
    dsimp only at hiff
    cases hdir : File.isDirectory t e.2.file.file with
    | true =>
        rw [hdir, if_neg fun h => Bool.noConfusion h.1] at hiff
        exact Bool.not_eq_false _ ▸ fun hfile => Bool.noConfusion (hiff.mpr ⟨hfile, hcarries⟩)
    | false =>
        obtain ⟨content, hfile⟩ := exists_read hwrite he ⟨hdir, hcarries⟩
        rw [hdir, if_pos ⟨rfl, hcarries⟩, hfile] at hiff
        exact (hiff.mp rfl).1
  have hshort : ∀ e ∈ operations.entries, e.2.Short t := fun e he content hcarries hfile => by
    refine (hreceived e he).short content ?_
    unfold FileOperation.received
    dsimp only
    rw [if_pos ⟨isDirectory_of_read hfile, hcarries⟩, hfile]
  refine ⟨⟨hread, whole_of_readAll hcharset hlen hflags hshort hwrite hrun rfl ?_ ?_ ?_⟩, hflags,
    hshort⟩
  · rw [length_of_lookup hmap]
    exact (Nat.zero_add _).symm
  · intro key hkey
    have hsome := AList.lookup_isSome.mpr hkey
    rw [hmap, lookup_received, Option.isSome_map] at hsome
    obtain ⟨op, hop⟩ := Option.isSome_iff_exists.mp hsome
    exact hnames ⟨key, op⟩ (HashMap.mem_entries.mpr hop)
  · rw [mapSize_of_lookup hmap]
    exact (Nat.zero_add _).symm

/-- A batch arrives when every string is read at once, the flags say what the writer finds and every
content has a length that fits an `int`. It does not arrive otherwise, unless the string of the home
directory is cut or other arrays give names of the batch. -/
theorem batch_arrives {getBytes : JString → Bytes} {newString : Bytes → JString} {t : FileSystem}
    {time : Times} {home there : JString} {operations : HashMap FileOperation} {bytes rest : Bytes}
    {reads : List Nat} (hcharset : ∀ e ∈ operations.entries, newString (getBytes e.1) = e.1)
    (hhome : (getBytes home).length < 2 ^ 31)
    (hlen : ∀ e ∈ operations.entries, (getBytes e.1).length < 2 ^ 31)
    (hnum : operations.entries.length < 2 ^ 31)
    (hbytes : SyncStreamWriter.writeOperations getBytes t time home operations = some bytes) :
    (Arrives getBytes t home operations reads →
      RoundTrip newString t there operations bytes rest reads) ∧
    ((getBytes home).length ≤ max 1 (reads.headD (getBytes home).length) →
      (∀ e ∈ operations.entries, Unambiguous getBytes newString e.1) →
      RoundTrip newString t there operations bytes rest reads →
      Arrives getBytes t home operations reads) :=
  ⟨roundTrip_of_arrives hcharset hhome hlen hnum hbytes,
    arrives_of_roundTrip hcharset hhome hlen hnum hbytes⟩

/-! ### A batch of one file -/

/-- A character set of one byte for each character. -/
def latin (s : JString) : Bytes := s.map UInt16.toUInt8

def ofLatin (bytes : Bytes) : JString := bytes.map UInt8.toUInt16

theorem unambiguous_latin (key : JString) : Unambiguous latin ofLatin key := by
  rintro array rfl
  rw [latin, ofLatin, List.length_map, List.length_map]

def noteBatch : HashMap FileOperation :=
  AList.insert (pathString [note]) ⟨opAdd, ⟨false, pathString [note, shared], 1⟩, none⟩ ∅

def noteBytes : Bytes :=
  (SyncStreamWriter.writeOperations latin (withFile [7]) (fun _ => 1) (pathString [shared])
    noteBatch).getD []

theorem noteBytes_written : SyncStreamWriter.writeOperations latin (withFile [7]) (fun _ => 1)
    (pathString [shared]) noteBatch = some noteBytes := rfl

theorem mem_noteBatch {e : Sigma fun _ : JString => FileOperation} (he : e ∈ noteBatch.entries) :
    e = ⟨pathString [note], opAdd, ⟨false, pathString [note, shared], 1⟩, none⟩ := by
  rw [noteBatch, AList.entries_insert_of_notMem (AList.notMem_empty _), AList.empty_entries] at he
  exact List.mem_singleton.mp he

theorem latin_note : ofLatin (latin (pathString [note])) = pathString [note] :=
  rfl

theorem batch_arrives_note :
    RoundTrip ofLatin (withFile [7]) (pathString [shared]) noteBatch noteBytes [0, 0, 0, 15] [] := by
  refine (batch_arrives (fun e he => ?_) (by decide) (fun e he => ?_) (by decide)
    noteBytes_written).1 ⟨?_, fun e he => ?_, fun e he => ?_⟩
  · rw [mem_noteBatch he]
    exact latin_note
  · rw [mem_noteBatch he]
    decide
  · exact ⟨by decide, by decide, trivial⟩
  · rw [mem_noteBatch he]
    exact fun _ => by decide
  · rw [mem_noteBatch he]
    rintro content - hfile
    obtain rfl := Option.some.inj (hfile.symm.trans (show _ = some [7] by decide))
    decide

/-- The name comes in two pieces. -/
theorem note_cut : ∃ (getBytes : JString → Bytes) (newString : Bytes → JString) (t : FileSystem)
    (time : Times) (home there : JString) (operations : HashMap FileOperation)
    (bytes rest : Bytes) (reads : List Nat),
    (∀ e ∈ operations.entries, newString (getBytes e.1) = e.1) ∧
    (getBytes home).length < 2 ^ 31 ∧
    (∀ e ∈ operations.entries, (getBytes e.1).length < 2 ^ 31) ∧
    operations.entries.length < 2 ^ 31 ∧
    (∀ e ∈ operations.entries, e.2.Flagged t) ∧
    SyncStreamWriter.writeOperations getBytes t time home operations = some bytes ∧
    ¬RoundTrip newString t there operations bytes rest reads := by
  have hcharset : ∀ e ∈ noteBatch.entries, ofLatin (latin e.1) = e.1 := fun e he => by
    rw [mem_noteBatch he]
    exact latin_note
  have hlen : ∀ e ∈ noteBatch.entries, (latin e.1).length < 2 ^ 31 := fun e he => by
    rw [mem_noteBatch he]
    decide
  have hflags : ∀ e ∈ noteBatch.entries, e.2.Flagged (withFile [7]) := fun e he => by
    rw [mem_noteBatch he]
    exact fun _ => by decide
  refine ⟨latin, ofLatin, withFile [7], fun _ => 1, pathString [shared], pathString [shared],
    noteBatch, noteBytes, [], [7, 1], hcharset, by decide, hlen, by decide, hflags,
    noteBytes_written, fun h => ?_⟩
  have harrives := arrives_of_roundTrip hcharset (by decide) hlen (by decide) noteBytes_written
    (by decide) (fun e _ => unambiguous_latin e.1) h
  exact absurd harrives.reads.2.1 (by decide)

end CodingSample.Dropbox
