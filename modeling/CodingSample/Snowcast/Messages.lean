import CodingSample.Snowcast.Control
import CodingSample.Snowcast.Server

/-!
# Messages of the server

`send_welcome`, `send_announce` and `send_invalid_command` of the server, and `receiver_parser` and
the loop of `recv_message` of the control client. The mutex of the queue is left out.
-/

namespace CodingSample.Snowcast

open Prog

def msgWelcome : UInt8 := 0

def msgAnnounce : UInt8 := 1

def msgInvalid : UInt8 := 2

/-- The bytes of a text. -/
def text (s : String) : List UInt8 := s.toList.map fun c => UInt8.ofNat c.toNat

/-! ### Sending -/

/-- The server's side of a connection, with what `send` does as at the client. -/
structure Outlet where
  sends : List (Option Nat)
  stream : List UInt8

abbrev Sender := Prog ControlFault Outlet

/-- `send_all` of the server, which has the text of that of the client. -/
def Outlet.sendAll (buf : List UInt8) : Sender Int :=
  zoom (fun o => ⟨[], o.sends, o.stream⟩) (fun c _ => ⟨c.sends, c.stream⟩) (Snowcast.sendAll buf)

def sendWelcome : Sender Int := do
  let ret ← Outlet.sendAll [msgWelcome, 0, 0, newline]
  if ret = -1 then pure (-1) else pure 0

/-- `send_announce` and `send_invalid_command`, which differ in the type of the reply. -/
def sendText (replyType : UInt8) (message : List UInt8) : Sender Int := do
  let ret ← Outlet.sendAll
    (replyType :: UInt8.ofNat message.length :: (message ++ [newline]))
  if ret = -1 then pure (-1) else pure 0

def sendAnnounce (message : List UInt8) : Sender Int := sendText msgAnnounce message

def sendInvalidCommand (errMessage : List UInt8) : Sender Int := sendText msgInvalid errMessage

inductive Message where
  | welcome
  | announce (text : List UInt8)
  | invalid (text : List UInt8)
  deriving DecidableEq

namespace Message

def send : Message → Sender Int
  | welcome => sendWelcome
  | announce text => sendAnnounce text
  | invalid text => sendInvalidCommand text

/-- A message without the newline at its end. -/
def line : Message → List UInt8
  | welcome => [msgWelcome, 0, 0]
  | announce text => msgAnnounce :: UInt8.ofNat text.length :: text
  | invalid text => msgInvalid :: UInt8.ofNat text.length :: text

def text : Message → List UInt8
  | welcome => []
  | announce text => text
  | invalid text => text

end Message

/-- The server writes the messages, and every call returns 0. -/
inductive Writes : List Message → Outlet → Outlet → Prop
  | nil (o : Outlet) : Writes [] o o
  | cons {m : Message} {messages : List Message} {o o' o'' : Outlet}
      (hsend : m.send o = .ok (0, o')) (hrest : Writes messages o' o'') :
      Writes (m :: messages) o o''

/-! ### Receiving -/

/-- `BUF_SIZE` of the client. -/
def clientBufSize : Nat := 256

/-- The commands that wait for an answer, and `wait_for_announce`. -/
structure Pending where
  gCmdQueue : List UInt8
  waitForAnnounce : Int

inductive ReceiverFault where
  /-- A byte outside a buffer is read or written. -/
  | outOfBounds
  deriving DecidableEq

abbrev Receiver := Prog ReceiverFault Pending

def commandQueueHead : Receiver UInt8 := do
  let q ← get
  pure (q.gCmdQueue.headD 255)

/-- `command_queue_dequeue`, whose result is not used. -/
def commandQueueDequeue : Receiver Unit :=
  modify fun q => { q with gCmdQueue := q.gCmdQueue.tail }

def clearWait : Receiver Unit := modify fun q => { q with waitForAnnounce := 0 }

def loadByte (buf : Nat → UInt8) (j : Nat) : Receiver UInt8 :=
  if j < clientBufSize then pure (buf j) else fail .outOfBounds

def storeByte (tmp : Nat → UInt8) (j : Nat) (c : UInt8) : Receiver (Nat → UInt8) :=
  if j < clientBufSize then pure (Function.update tmp j c) else fail .outOfBounds

/-- Copy `n` more bytes of the text, which starts at index 2 of the line, and end it. -/
def copyText (buf : Nat → UInt8) : (n j : Nat) → (tmp : Nat → UInt8) → Receiver (Nat → UInt8)
  | 0, j, tmp => storeByte tmp j 0
  | n + 1, j, tmp => do
      let c ← loadByte buf (2 + j)
      let tmp ← storeByte tmp j c
      copyText buf n (j + 1) tmp

/-- The text in a buffer. -/
def cstr (tmp : Nat → UInt8) : List UInt8 :=
  ((List.range clientBufSize).map tmp).takeWhile (· ≠ 0)

def setConfirmed : List UInt8 := text "Set Station Confirmed"

def requestConfirmed : List UInt8 := text "Request Confirmed"

/-- Dequeue the head of the queue if it is `cmd`. -/
def confirm (cmd : UInt8) (wait : Receiver Unit) : Receiver Unit := do
  let head ← commandQueueHead
  if head = cmd then do
    wait
    commandQueueDequeue
  else pure ()

/-- The effect of the text of an announcement. -/
def confirmText (tmp : List UInt8) : Receiver Unit :=
  if tmp = setConfirmed then confirm cmdSetstation clearWait
  else if tmp = requestConfirmed then confirm cmdRequest (pure ())
  else pure ()

/-- An invalid command ends the wait of a set-station command. -/
def stopWaiting : Receiver Unit := do
  let head ← commandQueueHead
  if head = cmdSetstation then clearWait else pure ()

/-- The message that `receiver_parser` finds, with the text it prints. `stack` is what an
uninitialized buffer holds. -/
def receiverParser (stack buf : Nat → UInt8) : Receiver (Option Message) := do
  let firstByte ← loadByte buf 0
  if firstByte = msgWelcome then do
    confirm cmdHello (pure ())
    pure (some .welcome)
  else if firstByte = msgAnnounce then do
    let strSize ← loadByte buf 1
    let tmp ← copyText buf strSize.toNat 0 fun _ => 0
    confirmText (cstr tmp)
    pure (some (.announce (cstr tmp)))
  else if firstByte = msgInvalid then do
    stopWaiting
    let strSize ← loadByte buf 1
    let tmp ← copyText buf strSize.toNat 0 stack
    commandQueueDequeue
    pure (some (.invalid (cstr tmp)))
  else do
    commandQueueDequeue
    pure none

/-- What the client has received, and the result of `read_line` that made it end. -/
structure Listening where
  heard : List Message
  closed : Option Int
  socket : Socket

/-- The first rounds of `recv_message`. The buffer is cleared before each line. -/
def recvMessage (stack : Nat → UInt8) : Nat → Socket → Receiver Listening
  | 0, s => pure ⟨[], none, s⟩
  | n + 1, s => do
      let (numbytes, buf, s') := readLine (clientBufSize - 1) (fun _ => 0) s
      if numbytes ≤ 0 then pure ⟨[], some numbytes, s'⟩
      else do
        let m ← receiverParser stack buf
        let rest ← recvMessage stack n s'
        pure { rest with heard := m.toList ++ rest.heard }

/-! ### What is sent -/

variable {m : Message} {messages : List Message} {o o' : Outlet}

theorem Outlet.stream_sendAll {buf : List UInt8}
    (hok : (do
      let ret ← Outlet.sendAll buf
      if ret = -1 then pure (-1) else pure 0 : Sender Int) o = .ok (0, o')) :
    o'.stream = o.stream ++ buf := by
  rw [bind_ok_iff] at hok
  obtain ⟨ret, o₁, hsend, hret⟩ := hok
  split at hret
  · cases hret
  rename_i hne
  cases hret
  unfold Outlet.sendAll zoom at hsend
  split at hsend
  · cases hsend
  rename_i ret' c hall
  cases hsend
  exact sendAll_ok hne hall

theorem Message.stream_send (hok : m.send o = .ok (0, o')) :
    o'.stream = o.stream ++ (m.line ++ [newline]) := by
  cases m with
  | welcome => exact Outlet.stream_sendAll hok
  | announce text => exact Outlet.stream_sendAll hok
  | invalid text => exact Outlet.stream_sendAll hok

/-- The stream holds the messages in the order in which they were written. -/
theorem Writes.stream (h : Writes messages o o') :
    o'.stream = o.stream ++ messages.flatMap fun m => m.line ++ [newline] := by
  induction h with
  | nil o => exact (List.append_nil _).symm
  | cons hsend hrest ih =>
      rw [ih, Message.stream_send hsend, List.flatMap_cons, List.append_assoc]

end CodingSample.Snowcast
