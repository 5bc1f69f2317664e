import CodingSample.Snowcast.Messages

/-!
# The state of the server

The clients and the stations of `snowcast_server.c` with the pointers between them, and the
messages the server writes. Addresses and paths of which the server only sees whether they are null
are truth values. The locks are left out: every handler runs to its end.
-/

namespace CodingSample.Snowcast

open Prog

def maxClientNum : Nat := 10

def maxStationNum : Nat := 8

def maxStationSongNum : Nat := 10

inductive State where
  | noState
  | initState
  | handshaked
  deriving DecidableEq

/-- `clientinfo_t`. A pointer to a client is its index. -/
structure Clientinfo where
  state : State
  socket : Nat
  ipAddress : Bool
  udpPort : UInt16
  udpSock : Nat
  udpAddrinfo : Bool
  curStation : Option Nat
  nextClient : Option Nat
  deriving DecidableEq

/-- A client after `memset`. -/
def Clientinfo.zero : Clientinfo := ⟨.noState, 0, false, 0, 0, false, none, none⟩

structure Clientlist where
  headClients : Option Nat
  tailClients : Option Nat
  counter : Int

/-- `station_t`. A pointer to a station is its address. -/
structure Station where
  songs : List (List UInt8)
  curSong : Option (List UInt8)
  nextStation : Option Nat
  id : Int
  connectedClients : Clientlist

/-- `station_t` after `memset`. -/
def Station.zero : Station := ⟨[], none, none, 0, ⟨none, none, 0⟩⟩

structure Server where
  gClients : Nat → Clientinfo
  /-- The memory of the stations, `none` where it is not allocated. -/
  stations : Nat → Option Station
  headStation : Option Nat
  tailStation : Option Nat
  counter : Int
  /-- The listening socket. -/
  sockfd : Nat
  /-- The descriptors `select` waits for. -/
  master : List Nat
  /-- The open sockets. -/
  openFds : List Nat
  /-- Which of the next messages can be sent. Further messages can. -/
  sends : List Bool
  /-- The messages sent, with their sockets. -/
  out : List (Nat × Message)

inductive Fault where
  /-- An assertion, except the one about the counter of a station. -/
  | assertion
  /-- `g_clients` is used outside its bounds. -/
  | badIndex
  /-- The address of the UDP socket is null. -/
  | nullAddrinfo
  /-- Another null pointer, or a station that is not allocated. -/
  | badPointer
  /-- A list has more elements than there can be. -/
  | loops
  /-- The counter of a station that is removed is not 0 in the end. -/
  | counter
  /-- `select` fails, and the server ends. -/
  | selectFails
  deriving DecidableEq

abbrev ServerM := Prog Fault Server

def kassert (test : Bool) : ServerM Unit := check .assertion test

/-! ### Memory -/

/-- `&g_clients[i]` -/
def clientAt (i : Int) : ServerM Nat :=
  if 0 ≤ i ∧ i < maxClientNum then pure i.toNat else fail .badIndex

def getClient (i : Nat) : ServerM Clientinfo := do
  let s ← get
  pure (s.gClients i)

def setClient (i : Nat) (c : Clientinfo) : ServerM Unit :=
  modify fun s => { s with gClients := Function.update s.gClients i c }

def modifyClient (i : Nat) (f : Clientinfo → Clientinfo) : ServerM Unit :=
  modify fun s => { s with gClients := Function.update s.gClients i (f (s.gClients i)) }

def getStation (p : Nat) : ServerM Station := do
  let s ← get
  match s.stations p with
  | none => fail .badPointer
  | some st => pure st

def setStation (p : Nat) (st : Option Station) : ServerM Unit :=
  modify fun s => { s with stations := Function.update s.stations p st }

def modifyStation (p : Nat) (f : Station → Station) : ServerM Unit := do
  let st ← getStation p
  setStation p (some (f st))

def modifyList (p : Nat) (f : Clientlist → Clientlist) : ServerM Unit :=
  modifyStation p fun st => { st with connectedClients := f st.connectedClients }

/-- `find_first_client` -/
def findFirstClient : ServerM Int := do
  let s ← get
  match (List.range maxClientNum).find? fun i => (s.gClients i).state = .noState with
  | none => pure (-1)
  | some i => pure i

/-- `find_client` -/
def findClient (fd : Nat) : ServerM Int := do
  let s ← get
  match (List.range maxClientNum).find? fun i => (s.gClients i).socket = fd with
  | none => pure (-1)
  | some i => pure i

/-! ### Messages -/

/-- Send a message and return the result of the call. -/
def sendMessage (fd : Nat) (m : Message) : ServerM Int := fun s =>
  match s.sends with
  | false :: rest => .ok (-1, { s with sends := rest })
  | true :: rest => .ok (0, { s with sends := rest, out := s.out ++ [(fd, m)] })
  | [] => .ok (0, { s with out := s.out ++ [(fd, m)] })

/-- `send_announce` where the result is not used. -/
def announce (fd : Nat) (message : List UInt8) : ServerM Unit := do
  let _ ← sendMessage fd (.announce message)
  pure ()

/-- Send an invalid command and return from the handler if that fails. -/
def invalidOrReturn (fd : Nat) (message : List UInt8) (rest : ServerM Int) : ServerM Int := do
  let ret ← sendMessage fd (.invalid message)
  if ret = -1 then pure (-1) else rest

/-- `%s` of `cur_song`. -/
def songText : Option (List UInt8) → List UInt8
  | none => text "(null)"
  | some song => song

def sendCurSong (fd : Nat) (station : Option Nat) : ServerM Unit := do
  match station with
  | none => fail .assertion
  | some p => do
      let st ← getStation p
      announce fd (text "current playing: " ++ songText st.curSong)

/-- `%d` of a number that is not negative. -/
def decimal (n : Nat) : List UInt8 := (Nat.toDigits 10 n).map fun c => UInt8.ofNat c.toNat

/-- The loop of `send_all_station_cur_song`. -/
def sendAllLoop (fd : Nat) : (fuel i : Nat) → Option Nat → ServerM Unit
  | _, _, none => pure ()
  | 0, _, some _ => fail .loops
  | fuel + 1, i, some p => do
      let st ← getStation p
      announce fd (text "station[" ++ decimal i ++ text "]:" ++ songText st.curSong)
      sendAllLoop fd fuel (i + 1) st.nextStation

def sendAllStationCurSong (fd : Nat) : ServerM Unit := do
  let s ← get
  sendAllLoop fd maxStationNum 0 s.headStation

def sendStationSongs (fd : Nat) (station : Option Nat) : ServerM Unit := do
  match station with
  | none => fail .assertion
  | some p => do
      let st ← getStation p
      each (announce fd) st.songs

end CodingSample.Snowcast
