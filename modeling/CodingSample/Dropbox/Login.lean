import CodingSample.Dropbox.Storage
import CodingSample.Dropbox.SyncStream
import Mathlib.Data.List.TakeWhile

/-!
# Identification of a client

The name and the password that a client sends, and the two loops with which the master and the file
server read each of them.
-/

namespace CodingSample.Dropbox

def packInitHead : Int := 0x000fffff

def writeChar (c : UInt16) : Bytes := BigEndian.encodeNat 2 c.toNat

def writeChars (s : JString) : Bytes := s.flatMap writeChar

/-- What `DropboxClientNet.identify` and `DropboxClient.run` write. -/
def sendAccount (name password : JString) : Bytes :=
  SyncStreamWriter.writeInt packInitHead ++
    (writeChars name ++ (writeChar newline ++ (writeChars password ++ writeChar newline)))

namespace InputStream

def readChar (s : InputStream) : Option (UInt16 × InputStream) :=
  (s.readFully 2).map fun r => (UInt16.ofNat (BigEndian.decodeNat r.1), r.2)

/-- The loop over the name or the password, with `limit - i` turns left. -/
def readField : Nat → InputStream → Option (JString × InputStream)
  | 0, s => some ([], s)
  | left + 1, s =>
      s.readChar.bind fun c =>
        if c.1 = newline then some ([], c.2)
        else if left = 0 then none
        else (readField left c.2).map fun rest => (c.1 :: rest.1, rest.2)

end InputStream

/-- The part of `identify` that is the same in `MasterServerClientHandler` and in
`DropboxFileServerClientNet`. -/
def readAccount (s : InputStream) : Option (JString × JString) :=
  s.readInt.bind fun packHead =>
    if packHead.1 ≠ packInitHead then none
    else
      (packHead.2.readField maxClientNameLen).bind fun name =>
        (name.2.readField maxPasswordNameLen).map fun password => (name.1, password.1)

def MasterServer.findClient (m : MasterServer) (name password : JString) : Option ClientRecord :=
  m.clients.find? fun cr => cr.name = name ∧ cr.password = password

/-- The node is given by its name. -/
def DropboxFileServer.findMatch (f : DropboxFileServer) (name password : JString) :
    Option JString :=
  if f.clients.lookup name = some password then some name else none

def MasterServerClientHandler.identify (m : MasterServer) (s : InputStream) :
    Option ClientRecord :=
  (readAccount s).bind fun account => m.findClient account.1 account.2

def DropboxFileServerClientNet.identify (f : DropboxFileServer) (s : InputStream) :
    Option JString :=
  (readAccount s).bind fun account => f.findMatch account.1 account.2

/-! ### Decoding -/

/-- The text before the first newline, and the text after it. -/
def firstLine (text : JString) : JString := text.takeWhile (· ≠ newline)

def afterLine (text : JString) : JString := (text.dropWhile (· ≠ newline)).tail

section Decoding

variable {c : UInt16} {line text name password : JString} {later bytes : Bytes} {reads : List Nat}

theorem writeChars_append : writeChars (line ++ text) = writeChars line ++ writeChars text :=
  List.flatMap_append

theorem writeChars_cons : writeChars (c :: line) = writeChar c ++ writeChars line := rfl

theorem readChar_writeChar :
    InputStream.readChar ⟨writeChar c ++ bytes, reads⟩ = some (c, ⟨bytes, reads⟩) := by
  have hlength : (writeChar c).length = 2 := BigEndian.length_encodeNat
  have hdecode : BigEndian.decodeNat (writeChar c) = c.toNat :=
    BigEndian.decodeNat_encodeNat c.toNat_lt
  rw [InputStream.readChar, InputStream.readFully, if_neg, List.take_left' hlength,
    List.drop_left' hlength, Option.map_some, hdecode, UInt16.ofNat_toNat]
  rw [List.length_append, hlength]
  omega

/-- A line that is shorter than the limit is read, and a longer one is rejected. -/
theorem readField_line {left : Nat} (hleft : 0 < left) (h : newline ∉ line) :
    InputStream.readField left ⟨writeChars line ++ (writeChar newline ++ bytes), reads⟩ =
      if line.length < left then some (line, ⟨bytes, reads⟩) else none := by
  induction line generalizing left with
  | nil =>
      obtain ⟨left, rfl⟩ := Nat.exists_eq_succ_of_ne_zero hleft.ne'
      rw [writeChars, List.flatMap_nil, List.nil_append, InputStream.readField, readChar_writeChar,
        Option.bind_some, if_pos rfl]
      exact (if_pos (Nat.succ_pos left)).symm
  | cons c line ih =>
      obtain ⟨left, rfl⟩ := Nat.exists_eq_succ_of_ne_zero hleft.ne'
      obtain ⟨hc, hline⟩ := List.ne_and_not_mem_of_not_mem_cons h
      rw [writeChars_cons, List.append_assoc, InputStream.readField, readChar_writeChar,
        Option.bind_some, if_neg (Ne.symm hc), List.length_cons]
      by_cases hzero : left = 0
      · rw [if_pos hzero, if_neg (by omega)]
      · rw [if_neg hzero]
        rw [ih (Nat.pos_of_ne_zero hzero) hline]
        by_cases hlength : line.length < left
        · rw [if_pos hlength, if_pos (Nat.succ_lt_succ hlength)]
          rfl
        · rw [if_neg hlength, if_neg fun hlt => hlength (Nat.lt_of_succ_lt_succ hlt)]
          rfl

theorem not_mem_firstLine : newline ∉ firstLine text := by
  intro h
  rw [firstLine] at h
  have hne := List.mem_takeWhile_imp h
  rw [decide_eq_true_eq] at hne
  exact hne rfl

theorem firstLine_append (h : newline ∈ text) :
    text = firstLine text ++ newline :: afterLine text := by
  have hne : text.dropWhile (· ≠ newline) ≠ [] := by
    intro hnil
    exact of_decide_eq_true (List.dropWhile_eq_nil_iff.mp hnil newline h) rfl
  have hhead : (text.dropWhile (· ≠ newline)).head hne = newline := by
    have hnot := List.head_dropWhile_not (· ≠ newline) hne
    rwa [decide_eq_false_iff_not, not_not] at hnot
  have hcons := List.cons_head_tail hne
  rw [hhead] at hcons
  rw [firstLine, afterLine, hcons, List.takeWhile_append_dropWhile]

theorem firstLine_eq (h : newline ∉ line) : firstLine (line ++ newline :: text) = line := by
  rw [firstLine, List.takeWhile_append_of_pos]
  · rw [List.takeWhile_cons_of_neg (by decide), List.append_nil]
  · intro c hc
    refine decide_eq_true ?_
    rintro rfl
    exact h hc

theorem afterLine_eq (h : newline ∉ line) : afterLine (line ++ newline :: text) = text := by
  rw [afterLine, List.dropWhile_append_of_pos]
  · rw [List.dropWhile_cons_of_neg (by decide)]
    rfl
  · intro c hc
    refine decide_eq_true ?_
    rintro rfl
    exact h hc

/-- The characters of the two lines. -/
def accountText (name password : JString) : JString :=
  name ++ newline :: (password ++ [newline])

theorem count_accountText : 2 ≤ (accountText name password).count newline := by
  rw [accountText, List.count_append, List.count_cons_self, List.count_append,
    List.count_singleton_self]
  omega

theorem readInt_sendAccount : InputStream.readInt ⟨sendAccount name password ++ later, reads⟩ =
    some (packInitHead, ⟨writeChars (accountText name password) ++ later, reads⟩) := by
  have hlength : (SyncStreamWriter.writeInt packInitHead).length = 4 := BigEndian.length_encode
  have hdecode : BigEndian.decode (SyncStreamWriter.writeInt packInitHead) = packInitHead :=
    BigEndian.decode_encode (by decide) (by decide)
  have htext : writeChars name ++ (writeChar newline ++
      (writeChars password ++ writeChar newline)) = writeChars (accountText name password) := by
    rw [accountText, writeChars_append, writeChars, writeChars, writeChars, List.flatMap_cons,
      List.flatMap_append, List.flatMap_singleton]
  rw [sendAccount, htext, List.append_assoc, InputStream.readInt, InputStream.readFully, if_neg,
    List.take_left' hlength, List.drop_left' hlength, Option.map_some, hdecode]
  rw [List.length_append, hlength]
  omega

/-- Both sides decode the first two lines, if they are shorter than the limits. -/
theorem readAccount_sendAccount :
    readAccount ⟨sendAccount name password ++ later, reads⟩ =
      let text := accountText name password
      if (firstLine text).length < maxClientNameLen ∧
          (firstLine (afterLine text)).length < maxPasswordNameLen then
        some (firstLine text, firstLine (afterLine text))
      else none := by
  have hcount : 2 ≤ (accountText name password).count newline := count_accountText
  rw [readAccount, readInt_sendAccount, Option.bind_some, if_neg (fun h => h rfl)]
  generalize accountText name password = text at hcount ⊢
  have htext := firstLine_append (List.count_pos_iff.mp (Nat.lt_of_lt_of_le (by decide) hcount))
  have hafter : newline ∈ afterLine text := by
    rw [htext, List.count_append, List.count_cons_self,
      List.count_eq_zero.mpr not_mem_firstLine] at hcount
    exact List.count_pos_iff.mp (by omega)
  have hbytes : writeChars text ++ later = writeChars (firstLine text) ++ (writeChar newline ++
      (writeChars (firstLine (afterLine text)) ++ (writeChar newline ++
        (writeChars (afterLine (afterLine text)) ++ later)))) := by
    conv_lhs => rw [htext, firstLine_append hafter]
    rw [writeChars_append, writeChars_cons, writeChars_append, writeChars_cons]
    simp only [List.append_assoc]
  dsimp only
  rw [hbytes, readField_line (by decide) not_mem_firstLine]
  by_cases hfirst : (firstLine text).length < maxClientNameLen
  · rw [if_pos hfirst, Option.bind_some, readField_line (by decide) not_mem_firstLine]
    by_cases hsecond : (firstLine (afterLine text)).length < maxPasswordNameLen
    · rw [if_pos hsecond, if_pos ⟨hfirst, hsecond⟩]
      rfl
    · rw [if_neg hsecond, if_neg fun h => hsecond h.2]
      rfl
  · rw [if_neg hfirst, if_neg fun h => hfirst h.1]
    rfl

theorem lines_accountText (hname : newline ∉ name) (hpassword : newline ∉ password) :
    firstLine (accountText name password) = name ∧
      firstLine (afterLine (accountText name password)) = password := by
  rw [accountText, firstLine_eq hname, afterLine_eq hname]
  exact ⟨rfl, firstLine_eq hpassword⟩

end Decoding

/-! ### Logging in -/

/-- The pairs for which `-a` and `-w` make an account. -/
def Accepted (name password : JString) : Prop :=
  IsToken name ∧ IsToken password ∧ name.length ≤ maxClientNameLen ∧
    password.length ≤ maxPasswordNameLen

/-- An account that can be created is decoded and found by both sides. Any other pair is decoded as
it is or rejected. -/
def CanLogIn (name password : JString) : Prop :=
  ∀ (later : Bytes) (reads : List Nat),
    let s : InputStream := ⟨sendAccount name password ++ later, reads⟩
    (Accepted name password →
      readAccount s = some (name, password) ∧
        (∀ m : MasterServer, (∃ cr ∈ m.clients, cr.name = name ∧ cr.password = password) →
          ∃ cr ∈ m.clients, cr.name = name ∧ cr.password = password ∧
            MasterServerClientHandler.identify m s = some cr) ∧
        ∀ f : DropboxFileServer, f.clients.lookup name = some password →
          DropboxFileServerClientNet.identify f s = some name) ∧
      (readAccount s = none ∨ readAccount s = some (name, password))

/-- One of the two lines that are read has as many characters as the limit or more. -/
def TooLong (name password : JString) : Prop :=
  maxClientNameLen ≤ (firstLine (accountText name password)).length ∨
    maxPasswordNameLen ≤ (firstLine (afterLine (accountText name password))).length

/-- No limit is reached by an account that can be created, and there is no newline in a pair that is
not too long. -/
def Readable (name password : JString) : Prop :=
  (Accepted name password →
    name.length < maxClientNameLen ∧ password.length < maxPasswordNameLen) ∧
  (newline ∉ name ∧ newline ∉ password ∨ TooLong name password)

section

variable {name password : JString}

theorem newline_not_mem_token (h : IsToken name) : newline ∉ name :=
  fun hmem => absurd (h.2 newline hmem) (by decide)

theorem Accepted.no_newline (h : Accepted name password) : newline ∉ name ∧ newline ∉ password :=
  ⟨newline_not_mem_token h.1, newline_not_mem_token h.2.1⟩

/-- Such an account is created by `-a` where there is room for it. -/
theorem Accepted.created (h : Accepted name password) (f : DropboxFileServer) (disk : Disk)
    (hname : name ∉ f.clients) (hroom : f.clients.entries.length ≠ f.maxClientNum)
    (hexists : disk.dirExists = false) (hmkdir : disk.mkdir = true) :
    (f.parse disk (unwords [java "-a", name, password])).clients.lookup name = some password := by
  obtain ⟨hntoken, hptoken, hnlength, hplength⟩ := h
  have htokens : tokens (unwords [java "-a", name, password]) = [java "-a", name, password] := by
    refine tokens_unwords fun word hword => ?_
    simp only [List.mem_cons, List.not_mem_nil, or_false] at hword
    rcases hword with rfl | rfl | rfl
    · decide
    · exact hntoken
    · exact hptoken
  have hadd : f.addClient disk name password =
      (true, { f with clients := f.clients.insert name password }) := by
    rw [DropboxFileServer.addClient, if_neg hname, hexists, if_neg Bool.false_ne_true,
      if_pos hmkdir]
  rw [DropboxFileServer.parse, htokens]
  dsimp only
  rw [if_neg (by decide), if_pos rfl, DropboxFileServer.parseAdd,
    if_neg (Nat.not_lt.mpr hnlength), if_neg (Nat.not_lt.mpr hplength), if_neg hroom, hadd]
  have hlookup : (f.clients.insert name password).lookup name = some password :=
    AList.lookup_insert f.clients
  dsimp only [DropboxFileServer.sendAdd]
  rw [hlookup]
  exact hlookup

theorem findClient_of_mem {m : MasterServer}
    (h : ∃ cr ∈ m.clients, cr.name = name ∧ cr.password = password) :
    ∃ cr ∈ m.clients, cr.name = name ∧ cr.password = password ∧
      m.findClient name password = some cr := by
  obtain ⟨cr, hcr, hmatch⟩ := h
  cases hfind : m.findClient name password with
  | none => exact absurd (decide_eq_true hmatch) (List.find?_eq_none.mp hfind cr hcr)
  | some found =>
      have hfound := List.find?_some hfind
      rw [decide_eq_true_eq] at hfound
      exact ⟨found, List.mem_of_find?_eq_some hfind, hfound.1, hfound.2, rfl⟩

/-- A pair without newlines is decoded iff it is shorter than the limits. -/
theorem readAccount_of_no_newline {later : Bytes} {reads : List Nat}
    (hnewline : newline ∉ name ∧ newline ∉ password) :
    readAccount ⟨sendAccount name password ++ later, reads⟩ =
      if name.length < maxClientNameLen ∧ password.length < maxPasswordNameLen then
        some (name, password)
      else none := by
  rw [readAccount_sendAccount]
  dsimp only
  rw [(lines_accountText hnewline.1 hnewline.2).1, (lines_accountText hnewline.1 hnewline.2).2]

theorem CanLogIn.readable (h : CanLogIn name password) : Readable name password := by
  obtain ⟨haccepted, hother⟩ := h [] []
  refine ⟨fun hacc => ?_, ?_⟩
  · have hread := (haccepted hacc).1
    rw [readAccount_of_no_newline hacc.no_newline] at hread
    by_contra hlong
    rw [if_neg hlong] at hread
    cases hread
  · by_cases hlong : TooLong name password
    · exact .inr hlong
    · rw [TooLong, not_or, not_le, not_le] at hlong
      rw [readAccount_sendAccount] at hother
      dsimp only at hother
      rw [if_pos hlong] at hother
      rcases hother with hnone | hsame
      · cases hnone
      · injection hsame with hpair
        obtain ⟨hname, hpassword⟩ := Prod.mk.inj hpair
        refine .inl ⟨?_, ?_⟩
        · rw [← hname]
          exact not_mem_firstLine
        · rw [← hpassword]
          exact not_mem_firstLine

theorem Readable.canLogIn (h : Readable name password) : CanLogIn name password := by
  intro later reads
  dsimp only
  refine ⟨fun hacc => ?_, ?_⟩
  · have hread : readAccount ⟨sendAccount name password ++ later, reads⟩ =
        some (name, password) := by
      rw [readAccount_of_no_newline hacc.no_newline, if_pos (h.1 hacc)]
    refine ⟨hread, fun m hm => ?_, fun f hf => ?_⟩
    · rw [MasterServerClientHandler.identify, hread]
      exact findClient_of_mem hm
    · rw [DropboxFileServerClientNet.identify, hread]
      exact if_pos hf
  · rcases h.2 with hnewline | hlong
    · rw [readAccount_of_no_newline hnewline]
      split
      · exact .inr rfl
      · exact .inl rfl
    · rw [readAccount_sendAccount]
      refine .inl (if_neg fun hshort => ?_)
      rcases hlong with hlong | hlong
      · exact absurd hshort.1 (Nat.not_lt.mpr hlong)
      · exact absurd hshort.2 (Nat.not_lt.mpr hlong)

end

/-- A pair is handled as it should be exactly when no limit is reached by an account that can be
created, and no newline is in a pair that is not too long. -/
theorem canLogIn_iff (name password : JString) : CanLogIn name password ↔ Readable name password :=
  ⟨CanLogIn.readable, Readable.canLogIn⟩

/-- An account whose name has the length of the limit can be created but never logs in. -/
theorem longest_name_rejected :
    Accepted (java "abcdefghijklmnop") (java "x") ∧
      ¬CanLogIn (java "abcdefghijklmnop") (java "x") := by
  have haccepted : Accepted (java "abcdefghijklmnop") (java "x") :=
    ⟨by decide, by decide, by decide, by decide⟩
  refine ⟨haccepted, fun h => ?_⟩
  have hread := ((h [] []).1 haccepted).1
  revert hread
  decide

end CodingSample.Dropbox
