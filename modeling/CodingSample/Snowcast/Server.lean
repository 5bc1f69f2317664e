import CodingSample.Snowcast.Wire
import Mathlib.Data.List.GetD
import Mathlib.Logic.Function.Basic

/-!
# Commands at the server

`read_line` of the server, the fields that `parse_and_send` takes out of the line, and the part of
the loop of `server_listen` that reads from a client. What the server answers is not modelled.
-/

namespace CodingSample.Snowcast

def bufSize : Nat := 1024

/-- A connection: the bytes to come, and whether it breaks or is closed after them. -/
structure Socket where
  stream : List UInt8
  broken : Bool

/-- `recv` of one byte. -/
def recv (s : Socket) : Int × UInt8 × Socket :=
  match s.stream with
  | [] => (if s.broken then -1 else 0, 0, s)
  | c :: rest => (1, c, { s with stream := rest })

/-- The loop of `read_line` for `n` more bytes, with `len` bytes read. -/
def readLoop : (n len : Nat) → (data : Nat → UInt8) → Socket → Int × (Nat → UInt8) × Socket
  | 0, _, data, s => (-1, data, s)
  | n + 1, len, data, s =>
      let (ret, c, s') := recv s
      if ret = 0 then (0, data, s')
      else if ret < 0 then (-1, data, s')
      else if c = newline then (len, Function.update data len 0, s')
      else readLoop n (len + 1) (Function.update data len c) s'

def readLine (maxlen : Nat) (data : Nat → UInt8) (s : Socket) : Int × (Nat → UInt8) × Socket :=
  readLoop maxlen 0 data s

/-- A command with its fields, as the server reads it. -/
inductive Received where
  | hello (port : UInt16)
  | setStation (stationNum : UInt16)
  | request (reqType : UInt8)
  deriving DecidableEq

/-- The fields that `parse_and_send` reads. It does nothing on other commands. -/
def parse (e : Endian) (buf : Nat → UInt8) : Option Received :=
  if buf 0 = cmdHello then some (.hello (ntohs e (e.load (buf 1) (buf 2))))
  else if buf 0 = cmdSetstation then some (.setStation (ntohs e (e.load (buf 1) (buf 2))))
  else if buf 0 = cmdRequest then some (.request (buf 1))
  else none

/-- What the server has read from a client, and the result of `read_line` that made it close the
connection. -/
structure Session where
  received : List Received
  closed : Option Int
  socket : Socket

/-- The first rounds of `server_listen` for a client. The buffer is cleared before each line. -/
def serverListen (e : Endian) : Nat → Socket → Session
  | 0, s => ⟨[], none, s⟩
  | n + 1, s =>
      let (nbytes, buf, s') := readLine (bufSize - 1) (fun _ => 0) s
      if nbytes ≤ 0 then ⟨[], some nbytes, s'⟩
      else
        let rest := serverListen e n s'
        { rest with received := (parse e buf).toList ++ rest.received }

/-! ### Lines -/

/-- The cleared buffer with some bytes at its start. -/
def lineBuf (l : List UInt8) : Nat → UInt8 := fun k => l.getD k 0

theorem lineBuf_nil : lineBuf [] = fun _ => 0 := rfl

theorem update_lineBuf (l : List UInt8) (c : UInt8) :
    Function.update (lineBuf l) l.length c = lineBuf (l ++ [c]) := by
  funext k
  rw [Function.update_apply]
  unfold lineBuf
  rcases Nat.lt_trichotomy k l.length with hk | rfl | hk
  · rw [if_neg (Nat.ne_of_lt hk), List.getD_append _ _ _ _ hk]
  · simp
  · rw [if_neg (Nat.ne_of_gt hk), List.getD_eq_default _ _ (Nat.le_of_lt hk),
      List.getD_eq_default]
    rw [List.length_append]
    exact hk

theorem update_lineBuf_zero (l : List UInt8) :
    Function.update (lineBuf l) l.length 0 = lineBuf l := by
  refine Function.update_eq_self_iff.mpr ?_
  exact (List.getD_eq_default _ _ (Nat.le_refl _)).symm

theorem readLoop_line {n : Nat} (pre : List UInt8) {l rest : List UInt8} {broken : Bool}
    (hl : newline ∉ l) (hn : l.length < n) :
    readLoop n pre.length (lineBuf pre) ⟨l ++ newline :: rest, broken⟩ =
      (((pre ++ l).length : Int), lineBuf (pre ++ l), ⟨rest, broken⟩) := by
  induction l generalizing n pre with
  | nil =>
      obtain ⟨n, rfl⟩ := Nat.exists_eq_add_one_of_ne_zero (Nat.ne_of_gt hn)
      rw [List.append_nil, readLoop]
      change (_, Function.update (lineBuf pre) pre.length 0, _) = _
      rw [update_lineBuf_zero]
  | cons c l ih =>
      obtain ⟨n, rfl⟩ := Nat.exists_eq_add_one_of_ne_zero (Nat.ne_of_gt (Nat.zero_lt_of_lt hn))
      rw [List.mem_cons, not_or] at hl
      have hrest := ih (pre ++ [c]) hl.2 (Nat.lt_of_succ_lt_succ hn)
      rw [List.length_append, List.length_singleton, List.append_assoc] at hrest
      rw [readLoop]
      change (if c = newline then _ else
        readLoop n (pre.length + 1) (Function.update (lineBuf pre) pre.length c) _) = _
      rw [if_neg (Ne.symm hl.1), update_lineBuf]
      exact hrest

/-- A line that fits in the buffer is read whole. -/
theorem readLine_line {maxlen : Nat} {l rest : List UInt8} {broken : Bool} (hl : newline ∉ l)
    (hlen : l.length < maxlen) :
    readLine maxlen (fun _ => 0) ⟨l ++ newline :: rest, broken⟩ =
      ((l.length : Int), lineBuf l, ⟨rest, broken⟩) := readLoop_line [] hl hlen

/-- A round of `server_listen` that reads a line. -/
theorem serverListen_line (e : Endian) (n : Nat) (rest : List UInt8) (broken : Bool)
    {l : List UInt8} (hne : l ≠ []) (hl : newline ∉ l) (hlen : l.length < bufSize - 1) :
    serverListen e (n + 1) ⟨l ++ newline :: rest, broken⟩ =
      { serverListen e n ⟨rest, broken⟩ with
        received := (parse e (lineBuf l)).toList ++
          (serverListen e n ⟨rest, broken⟩).received } := by
  have hpos := List.length_pos_iff.mpr hne
  rw [serverListen, readLine_line hl hlen]
  exact if_neg (by omega)

end CodingSample.Snowcast
