import CodingSample.Prog.Basic
import CodingSample.Snowcast.Wire

/-!
# Commands of the client

`send_hello`, `send_set_station` and `send_request` of the control client, with the queue of the
commands that wait for an answer. Memory does not run out.
-/

namespace CodingSample.Snowcast

open Prog

inductive ControlFault where
  | assertion
  deriving DecidableEq

/-- The client and its connection. -/
structure Client where
  /-- The commands that wait for an answer, the oldest one first. -/
  gCmdQueue : List UInt8
  /-- What the next calls of `send` do: `none` fails, and `some n` takes at most `n + 1` bytes.
  Further calls take everything. -/
  sends : List (Option Nat)
  /-- The bytes sent. -/
  stream : List UInt8

abbrev Control := Prog ControlFault Client

def send (buf : List UInt8) : Control Int := fun c =>
  match c.sends with
  | [] => .ok (buf.length, { c with stream := c.stream ++ buf })
  | none :: rest => .ok (-1, { c with sends := rest })
  | some n :: rest => .ok ((buf.take (n + 1)).length,
      { c with sends := rest, stream := c.stream ++ buf.take (n + 1) })

/-- The loop of `send_all`, for what is left of the buffer. A call of `send` that does not fail
takes a byte at least. -/
def sendLoop : Nat → List UInt8 → Control Int
  | 0, _ => pure 0
  | fuel + 1, buf =>
      if buf = [] then pure 0
      else do
        let n ← send buf
        if n = -1 then pure (-1) else sendLoop fuel (buf.drop n.toNat)

def sendAll (buf : List UInt8) : Control Int := sendLoop buf.length buf

def commandQueueEnqueue (cmd : UInt8) : Control Unit :=
  modify fun c => { c with gCmdQueue := c.gCmdQueue ++ [cmd] }

def sendSetStation (e : Endian) (station : List Char) : Control Int := do
  let stationNum := htons e (toUInt16 (atoi station))
  commandQueueEnqueue cmdSetstation
  let ret ← sendAll (cmdSetstation :: (e.store stationNum ++ [newline]))
  if ret = -1 then pure (-1) else pure 0

def sendRequest (type : UInt8) : Control Int := do
  check .assertion (type = typeAll ∨ type = typeCurrent ∨ type = typeAllStation)
  commandQueueEnqueue cmdRequest
  let ret ← sendAll [cmdRequest, type, newline]
  if ret = -1 then pure (-1) else pure 0

def sendHello (e : Endian) (s : Int) (udpPort : List Char) : Control Int := do
  check .assertion (0 < s)
  if udpPort = [] then
    pure (-1)
  else do
    let udpPort16 := htons e (toUInt16 (atoi udpPort))
    commandQueueEnqueue cmdHello
    let ret ← sendAll (cmdHello :: (e.store udpPort16 ++ [newline]))
    if ret = -1 then pure (-1) else pure 0

/-! ### Commands -/

inductive RequestType where
  | all
  | current
  | allStation
  deriving DecidableEq

def RequestType.code : RequestType → UInt8
  | .all => typeAll
  | .current => typeCurrent
  | .allStation => typeAllStation

inductive Command where
  | hello (port : UInt16)
  | setStation (number : UInt16)
  | request (type : RequestType)
  deriving DecidableEq

namespace Command

/-- Send a command over socket `s`. -/
def send (e : Endian) (s : Int) : Command → Control Int
  | hello port => sendHello e s (Nat.toDigits 10 port.toNat)
  | setStation number => sendSetStation e (Nat.toDigits 10 number.toNat)
  | request type => sendRequest type.code

def code : Command → UInt8
  | hello _ => cmdHello
  | setStation _ => cmdSetstation
  | request _ => cmdRequest

/-- The bytes of the fields of a command. -/
def fields : Command → List UInt8
  | hello port => [hi port, lo port]
  | setStation number => [hi number, lo number]
  | request type => [type.code]

/-- A command as it is sent. -/
def bytes (c : Command) : List UInt8 := c.code :: (c.fields ++ [newline])

end Command

/-- The client sends the commands, and every call returns 0. -/
inductive Sends (e : Endian) (s : Int) : List Command → Client → Client → Prop
  | nil (c : Client) : Sends e s [] c c
  | cons {command : Command} {commands : List Command} {c c' c'' : Client}
      (hsend : command.send e s c = .ok (0, c')) (hrest : Sends e s commands c' c'') :
      Sends e s (command :: commands) c c''

/-! ### What is sent -/

theorem sendLoop_ok {fuel : Nat} {buf : List UInt8} {c c' : Client} {ret : Int}
    (hfuel : buf.length ≤ fuel) (hret : ret ≠ -1) (hok : sendLoop fuel buf c = .ok (ret, c')) :
    c'.stream = c.stream ++ buf := by
  induction fuel generalizing buf c with
  | zero =>
      obtain rfl := List.length_eq_zero_iff.mp (Nat.le_zero.mp hfuel)
      cases hok
      exact (List.append_nil _).symm
  | succ fuel ih =>
      unfold sendLoop at hok
      split at hok
      · rename_i hnil
        cases hok
        rw [hnil, List.append_nil]
      rename_i hne
      have hpos := List.length_pos_iff.mpr hne
      rw [bind_ok_iff] at hok
      obtain ⟨n, c1, hsend, hrest⟩ := hok
      split at hrest
      · cases hrest
        exact absurd rfl hret
      rename_i hn
      -- what `send` took and what is left
      have htook : c1.stream = c.stream ++ buf.take n.toNat ∧ 0 < n.toNat := by
        unfold send at hsend
        split at hsend
        · cases hsend
          exact ⟨by simp, by omega⟩
        · cases hsend
          exact absurd rfl hn
        · cases hsend
          refine ⟨?_, ?_⟩
          · rw [Int.toNat_natCast, List.length_take, ← List.take_eq_take_min]
          · rw [Int.toNat_natCast, List.length_take]
            omega
      have hlen : (buf.drop n.toNat).length ≤ fuel := by
        rw [List.length_drop]
        omega
      rw [ih hlen hrest, htook.1, List.append_assoc, List.take_append_drop]

theorem sendAll_ok {buf : List UInt8} {c c' : Client} {ret : Int} (hret : ret ≠ -1)
    (hok : sendAll buf c = .ok (ret, c')) : c'.stream = c.stream ++ buf :=
  sendLoop_ok (Nat.le_refl _) hret hok

/-- The end of each of the three functions. -/
theorem stream_of_ok {buf : List UInt8} {cmd : UInt8} {c c' : Client}
    (hok : (do
      commandQueueEnqueue cmd
      let ret ← sendAll buf
      if ret = -1 then pure (-1) else pure 0 : Control Int) c = .ok (0, c')) :
    c'.stream = c.stream ++ buf := by
  rw [bind_ok_iff] at hok
  obtain ⟨_, c1, henqueue, hok⟩ := hok
  cases henqueue
  rw [bind_ok_iff] at hok
  obtain ⟨ret, c2, hsend, hret⟩ := hok
  split at hret
  · cases hret
  · rename_i hne
    cases hret
    exact (sendAll_ok hne hsend :)

namespace Command

theorem stream_send {command : Command} {e : Endian} {s : Int} {c c' : Client}
    (hok : command.send e s c = .ok (0, c')) : c'.stream = c.stream ++ command.bytes := by
  cases command with
  | hello port =>
      unfold Command.send sendHello at hok
      rw [bind_ok_iff] at hok
      obtain ⟨_, c1, hcheck, hok⟩ := hok
      rw [check_ok_iff] at hcheck
      obtain ⟨-, hcheck⟩ := hcheck
      cases hcheck
      rw [if_neg (Nat.toDigits_ne_nil)] at hok
      have hstream := stream_of_ok hok
      rw [atoi_toDigits, toUInt16_natCast, store_htons] at hstream
      exact hstream
  | setStation number =>
      have hstream := stream_of_ok hok
      rw [atoi_toDigits, toUInt16_natCast, store_htons] at hstream
      exact hstream
  | request type =>
      unfold Command.send sendRequest at hok
      rw [bind_ok_iff] at hok
      obtain ⟨_, c1, hcheck, hok⟩ := hok
      rw [check_ok_iff] at hcheck
      obtain ⟨-, hcheck⟩ := hcheck
      cases hcheck
      exact stream_of_ok hok

end Command

/-- The stream holds the commands in the order in which they were sent. -/
theorem Sends.stream {e : Endian} {s : Int} {commands : List Command} {c c' : Client}
    (h : Sends e s commands c c') : c'.stream = c.stream ++ commands.flatMap Command.bytes := by
  induction h with
  | nil c => exact (List.append_nil _).symm
  | cons hsend hrest ih =>
      rw [ih, Command.stream_send hsend, List.flatMap_cons, List.append_assoc]

end CodingSample.Snowcast
