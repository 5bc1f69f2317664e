import CodingSample.Snowcast.Globals

/-!
# The handlers of the server

The functions of `snowcast_server.c` that change the clients and the stations, and the events that
call them: what `server_listen` does with a descriptor that is ready, the commands `a` and `d` of
the user, and the song threads.
-/

namespace CodingSample.Snowcast

open Prog

/-! ### Clients of a station -/

/-- The loop of `remove_client_from_station` over the clients, at `c`. -/
def removeLoop (p i : Nat) : Nat → Nat → ServerM Unit
  | 0, _ => fail .loops
  | fuel + 1, c => do
      let before ← getClient c
      match before.nextClient with
      | none => pure ()
      | some d =>
          if d = i then do
            let client ← getClient i
            modifyClient c fun b => { b with nextClient := client.nextClient }
            if client.nextClient = none then
              modifyList p fun l => { l with tailClients := some c }
            else pure ()
          else removeLoop p i fuel d

def removeClientFromStation (i : Nat) : ServerM Unit := do
  let client ← getClient i
  match client.curStation with
  | none => pure ()
  | some p => do
      let station ← getStation p
      match station.connectedClients.headClients with
      | none => fail .assertion
      | some c =>
          if c = i then do
            modifyList p fun l => { l with headClients := client.nextClient }
            if station.connectedClients.tailClients = some i then do
              modifyList p fun l => { l with tailClients := client.nextClient }
              kassert (client.nextClient = none)
            else pure ()
          else removeLoop p i maxClientNum c

/-- Put a client behind the tail of the list. -/
def linkClient (i p : Nat) (list : Clientlist) : ServerM Unit :=
  match list.headClients with
  | none => modifyList p fun l => { l with headClients := some i, tailClients := some i }
  | some _ =>
      match list.tailClients with
      | none => fail .badPointer
      | some t => do
          modifyClient t fun b => { b with nextClient := some i }
          modifyList p fun l => { l with tailClients := some i }

def appendClientToStation (i p : Nat) : ServerM Unit := do
  let station ← getStation p
  let client ← getClient i
  if client.curStation = some p then pure ()
  else do
    linkClient i p station.connectedClients
    modifyList p fun l => { l with counter := l.counter + 1 }
    modifyClient i fun b => { b with curStation := some p }

def closeFd (fd : Nat) : ServerM Unit :=
  modify fun s => { s with openFds := s.openFds.filter (· ≠ fd) }

def closeClient (i : Int) : ServerM Unit := do
  kassert (0 ≤ i ∧ i < maxClientNum)
  let client ← getClient i.toNat
  kassert (client.socket ≠ 0)
  closeFd client.socket
  kassert (client.udpSock ≠ 0)
  closeFd client.udpSock
  modify fun s => { s with master := s.master.filter (· ≠ client.socket) }
  removeClientFromStation i.toNat
  setClient i.toNat .zero

/-- `udp` is the socket that the system makes, if it does. -/
def buildUdpconnection (udp : Option Nat) (i : Nat) : ServerM Int := do
  let client ← getClient i
  kassert client.ipAddress
  kassert (client.socket ≠ 0)
  kassert (client.state ≠ .noState)
  match udp with
  | none => pure (-1)
  | some fd => do
      modify fun s => { s with openFds := fd :: s.openFds }
      modifyClient i fun b => { b with udpAddrinfo := true, udpSock := fd }
      pure 0

/-! ### Stations -/

/-- The loop of `push_station_to_list`, at `station`. -/
def nextAvailable : Nat → Option Nat → Int → ServerM Int
  | _, none, next => pure next
  | 0, some _, _ => fail .loops
  | fuel + 1, some p, next => do
      let station ← getStation p
      if station.id ≠ next then pure next
      else nextAvailable fuel station.nextStation (next + 1)

/-- Put a station behind the tail of the list. -/
def linkStation (p : Nat) : ServerM Unit := do
  let s ← get
  match s.headStation with
  | none => modify fun s => { s with headStation := some p, tailStation := some p }
  | some _ =>
      match s.tailStation with
      | none => fail .badPointer
      | some t => do
          modifyStation t fun st => { st with nextStation := some p }
          modify fun s => { s with tailStation := some p }

def addCounter (n : Int) : ServerM Unit := modify fun s => { s with counter := s.counter + n }

def pushStationToList (p : Nat) : ServerM Unit := do
  let s ← get
  let next ← nextAvailable maxStationNum s.headStation 0
  modifyStation p fun st => { st with id := next }
  linkStation p
  addCounter 1

/-- The loop of `find_station_from_id`. -/
def findLoop (id : Int) : Nat → Option Nat → ServerM (Option Nat)
  | _, none => pure none
  | 0, some _ => fail .loops
  | fuel + 1, some p => do
      let station ← getStation p
      if station.id = id then pure (some p) else findLoop id fuel station.nextStation

def findStationFromId (id : Int) : ServerM (Option Nat) := do
  let s ← get
  findLoop id maxStationNum s.headStation

/-- `add_station` with the songs that it finds, at the address that `malloc` returns. -/
def addStation (songs : List (List UInt8)) (p : Nat) : ServerM Unit := do
  let s ← get
  if s.counter = maxStationNum then pure ()
  else if songs = [] then pure ()
  else do
    setStation p (some { Station.zero with songs := songs })
    pushStationToList p

/-- The loop of `remove_station` over the clients of a station. -/
def dismissLoop (p : Nat) : Nat → Option Nat → ServerM Unit
  | _, none => pure ()
  | 0, some _ => fail .loops
  | fuel + 1, some c => do
      let client ← getClient c
      announce client.socket (text "Station is closed.")
      setClient c { client with nextClient := none, curStation := none }
      modifyList p fun l => { l with counter := l.counter - 1 }
      dismissLoop p fuel client.nextClient

/-- The part of `remove_station` between the two locks of the station. -/
def dismissClients (p : Nat) : ServerM Unit := do
  let station ← getStation p
  dismissLoop p maxClientNum station.connectedClients.headClients
  let station ← getStation p
  check .counter (station.connectedClients.counter = 0)

def dropHead (next : Option Nat) : ServerM Unit := modify fun s =>
  if s.counter = 0 then { s with headStation := none, tailStation := none }
  else { s with headStation := next }

def fixTail (st : Nat) (next : Option Nat) : ServerM Unit := modify fun s =>
  if next = none then { s with tailStation := some st } else s

/-- The loop of `remove_station` over the stations, at `st`. -/
def removeStationLoop (p : Nat) : Nat → Nat → ServerM Unit
  | 0, _ => fail .loops
  | fuel + 1, st => do
      let before ← getStation st
      match before.nextStation with
      | none => fail .assertion
      | some q =>
          if q = p then do
            dismissClients p
            addCounter (-1)
            let station ← getStation p
            modifyStation st fun b => { b with nextStation := station.nextStation }
            fixTail st station.nextStation
            setStation p none
          else removeStationLoop p fuel q

def removeStation (p : Nat) : ServerM Unit := do
  let s ← get
  match s.headStation with
  | none => fail .badPointer
  | some st =>
      if st = p then do
        dismissClients p
        addCounter (-1)
        let station ← getStation p
        dropHead station.nextStation
        setStation p none
      else removeStationLoop p maxStationNum st

/-! ### Commands of a client -/

def parseHello (fd : Nat) (port : UInt16) (udp : Option Nat) : ServerM Int := do
  let index ← findClient fd
  let i ← clientAt index
  let client ← getClient i
  if client.state = .handshaked then
    invalidOrReturn fd (text "Already hand shaked.") (pure 0)
  else do
    let ret ← sendMessage fd .welcome
    if ret = -1 then pure (-1)
    else do
      modifyClient i fun b => { b with state := .handshaked }
      let ret ← buildUdpconnection udp i
      if ret = -1 then pure 0
      else do
        modifyClient i fun b => { b with udpPort := port }
        pure 0

/-- The error reply to a client that has not said hello, after which the handler goes on. -/
def checkHello (fd i : Nat) (rest : ServerM Int) : ServerM Int := do
  let client ← getClient i
  if client.state = .initState then
    invalidOrReturn fd (text "Not yet hand shaked.") rest
  else rest

def parseSetstation (fd : Nat) (stationNum : UInt16) : ServerM Int := do
  let index ← findClient fd
  let i ← clientAt index
  checkHello fd i do
    let target ← findStationFromId stationNum.toNat
    match target with
    | none => do
        let _ ← sendMessage fd (.invalid (text "Invalid station number."))
        pure 0
    | some p => do
        removeClientFromStation i
        appendClientToStation i p
        let client ← getClient i
        announce client.socket setConfirmed
        sendCurSong fd client.curStation
        pure 0

/-- `TYPE_ALL` and `TYPE_CURRENT`, which differ in what they send of the station. -/
def parseStationRequest (fd : Nat) (send : Option Nat → ServerM Unit) : ServerM Int := do
  let index ← findClient fd
  let i ← clientAt index
  checkHello fd i do
    let client ← getClient i
    if client.curStation = none then
      invalidOrReturn fd (text "Not yet set station.") (pure 0)
    else do
      announce fd requestConfirmed
      send client.curStation
      pure 0

/-- `parse_and_send` with the fields of the line. -/
def parseAndSend (fd : Nat) (udp : Option Nat) : Option Received → ServerM Int
  | none => pure 0
  | some (.hello port) => parseHello fd port udp
  | some (.setStation stationNum) => parseSetstation fd stationNum
  | some (.request reqType) =>
      if reqType = typeAll then parseStationRequest fd (sendStationSongs fd)
      else if reqType = typeCurrent then parseStationRequest fd (sendCurSong fd)
      else if reqType = typeAllStation then do
        announce fd requestConfirmed
        sendAllStationCurSong fd
        pure 0
      else pure 0

/-! ### Song threads -/

/-- The loops of `loop_song` over the clients of the station, which return the clients reached. -/
def playLoop (visit : Clientinfo → ServerM Unit) : Nat → Option Nat → ServerM (List Nat)
  | _, none => pure []
  | 0, some _ => fail .loops
  | fuel + 1, some c => do
      let client ← getClient c
      visit client
      let rest ← playLoop visit fuel client.nextClient
      pure (c :: rest)

def sendPacket (client : Clientinfo) : ServerM Unit := do
  kassert (client.state = .handshaked)
  kassert (client.udpSock ≠ 0)
  if client.udpAddrinfo then pure () else fail .nullAddrinfo

/-- Send a packet of the song, and return the clients that get it. -/
def playPacket (p : Nat) : ServerM (List Nat) := do
  let station ← getStation p
  playLoop sendPacket maxClientNum station.connectedClients.headClients

def announceSong (song : List UInt8) (client : Clientinfo) : ServerM Unit := do
  kassert (client.state = .handshaked)
  kassert (client.socket ≠ 0)
  announce client.socket (text "Next song:" ++ song)

/-- The first song. -/
def startSong (p : Nat) : ServerM Unit :=
  modifyStation p fun st => { st with curSong := st.songs.head? }

/-- The end of a song. -/
def playNextSong (p : Nat) (song : List UInt8) : ServerM (List Nat) := do
  modifyStation p fun st => { st with curSong := some song }
  let reached ← playPacket p
  let station ← getStation p
  let _ ← playLoop (announceSong song) maxClientNum station.connectedClients.headClients
  pure reached

/-! ### Events -/

/-- What `read_line` makes of the next line of a client. -/
inductive Input where
  /-- The end of the connection or an empty line: `read_line` returns 0. -/
  | hangup
  /-- An error or a line that is too long: it returns -1. -/
  | error
  | line (command : Option Received)
  deriving DecidableEq

inductive Event where
  | accept (newfd : Nat)
  | read (fd : Nat) (input : Input) (udp : Option Nat)
  | add (songs : List (List UInt8)) (p : Nat)
  | delete (tokens : List (List Char))
  | start (p : Nat)
  | packet (p : Nat)
  | nextSong (p : Nat) (song : List UInt8)

def select : ServerM Unit := do
  let s ← get
  if s.master.all fun fd => fd ∈ s.openFds then pure () else fail .selectFails

/-- A new connection. One that is turned away stays in `master`. -/
def acceptClient (newfd : Nat) : ServerM Unit := do
  modify fun s => { s with openFds := newfd :: s.openFds, master := newfd :: s.master }
  let first ← findFirstClient
  if first = -1 then closeFd newfd
  else do
    let i ← clientAt first
    modifyClient i fun c => { c with state := .initState, socket := newfd, ipAddress := true }

def readClient (fd : Nat) (udp : Option Nat) : Input → ServerM Unit
  | .hangup => do
      let index ← findClient fd
      let i ← clientAt index
      let client ← getClient i
      if client.udpAddrinfo then closeClient index else fail .nullAddrinfo
  | .error => do
      let index ← findClient fd
      closeClient index
  | .line command => do
      let _ ← parseAndSend fd udp command
      pure ()

/-- The announcement of a new station to a slot. -/
def announceStation (i : Nat) : ServerM Unit := do
  let client ← getClient i
  if client.state = .handshaked then
    announce client.socket (text "New station is added.")
  else pure ()

/-- The command `a` of `user_input`. -/
def userAdd (songs : List (List UInt8)) (p : Nat) : ServerM Unit := do
  addStation songs p
  each announceStation (List.range maxClientNum)

/-- A token of the command `d`. -/
def deleteToken (token : List Char) : ServerM Unit := do
  let id := atoi token
  let s ← get
  if id < 0 ∨ s.counter ≤ id then pure ()
  else do
    let station ← findStationFromId id
    match station with
    | none => pure ()
    | some p => removeStation p

/-- The command `d` of `user_input`. -/
def userDelete (tokens : List (List Char)) : ServerM Unit := each deleteToken tokens

/-- The clients that a packet of a song reaches. -/
def Event.prog : Event → ServerM (List Nat)
  | accept newfd => do
      select
      acceptClient newfd
      pure []
  | read fd input udp => do
      select
      readClient fd udp input
      pure []
  | add songs p => do
      userAdd songs p
      pure []
  | delete tokens => do
      userDelete tokens
      pure []
  | start p => do
      startSong p
      pure []
  | packet p => playPacket p
  | nextSong p song => playNextSong p song

/-- `is_end_mp3` -/
def isEndMp3 (str : List UInt8) : Bool := 4 < str.length ∧ text ".mp3" <:+ str

/-- What the system and the song threads promise: a new descriptor is not in use, a line comes from
a connection, `add_station` finds at most `MAX_STATION_SONG_NUM` songs, `malloc` returns memory that
is not in use, and a song thread runs while its station exists and plays its songs. -/
def Event.Enabled (s : Server) : Event → Prop
  | accept newfd => newfd ∉ s.openFds ∧ newfd ≠ 0
  | read fd _ udp => fd ∈ s.master ∧ fd ≠ s.sockfd ∧ ∀ u, udp = some u → u ∉ s.openFds ∧ u ≠ 0
  | add songs p => songs.length ≤ maxStationSongNum ∧ (∀ song ∈ songs, isEndMp3 song) ∧
      s.stations p = none
  | delete _ => True
  | start p => s.stations p ≠ none
  | packet p => s.stations p ≠ none
  | nextSong p song => ∃ st, s.stations p = some st ∧ song ∈ st.songs

/-- Handle an event. `sends` says which messages can be sent. -/
def Event.run (s : Server) (sends : List Bool) (e : Event) : Except Fault (List Nat × Server) :=
  e.prog { s with sends := sends, out := [] }

end CodingSample.Snowcast
