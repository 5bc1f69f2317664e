import CodingSample.Prog.Keeps
import CodingSample.Snowcast.Events
import CodingSample.Snowcast.Framing

/-!
# What the server sends

The handlers against a connection: what they send to it, and that they leave it in the set that
`select` waits for.
-/

namespace CodingSample.Snowcast

open Prog

/-- The messages that answer a command. The others are announcements. -/
def Message.Replies : Message → Prop
  | welcome => True
  | announce text => text = setConfirmed ∨ text = requestConfirmed
  | invalid _ => True

instance : DecidablePred Message.Replies
  | .welcome => isTrue trivial
  | .announce text => inferInstanceAs (Decidable (text = setConfirmed ∨ text = requestConfirmed))
  | .invalid _ => isTrue trivial

/-- The paths of the songs of a station end with `.mp3`. -/
def Tuned (s : Server) : Prop := ∀ p, ∀ song ∈ s.songsOf p, isEndMp3 song = true

/-- The property only sees the sockets of the clients, the set `master`, the messages and whether the
paths of the songs are paths of songs. -/
def Blind (P : Server → Prop) : Prop := ∀ s s', P s →
  (∀ j, (s'.gClients j).socket = (s.gClients j).socket) → s'.master = s.master → s'.out = s.out →
    s'.sends = s.sends → (Tuned s → Tuned s') → P s'

variable {α : Type} {P : Server → Prop} {s s' : Server} {i p fd : Nat} {client : Clientinfo}

theorem wlp_getStation {Q : Station → Server → Prop}
    (h : ∀ st, s.stations p = some st → Q st s) : wlp (getStation p) Q s := by
  refine wlp_bind.mpr (wlp_get.mpr ?_)
  cases hst : s.stations p with
  | none => exact wlp_fail.mpr trivial
  | some st => exact wlp_pure.mpr (h st hst)

theorem Tuned.congr (h : Tuned s) (hstations : s'.stations = s.stations) : Tuned s' := by
  intro p song hsong
  rw [Server.songsOf, hstations] at hsong
  exact h p song hsong

/-- A station gets songs. -/
theorem Tuned.putStation {o : Option Station} (h : Tuned s)
    (ho : ∀ song ∈ (o.map Station.songs).getD [], isEndMp3 song = true) :
    Tuned (s.putStation p o) := by
  intro j song hsong
  rw [Server.songsOf_putStation, Function.update_apply] at hsong
  split at hsong
  · exact ho song hsong
  · exact h j song hsong

namespace Blind

theorem putClient (h : Blind P) (hs : P s) (hsocket : client.socket = (s.gClients i).socket) :
    P (s.putClient i client) := by
  refine h s _ hs (fun j => ?_) rfl rfl rfl fun ht => ht.congr rfl
  by_cases hj : j = i
  · rw [hj, Server.putClient_self]
    exact hsocket
  · rw [Server.putClient_of_ne hj]

theorem getClient (i : Nat) : Keeps P (getClient i) := .bind .get fun _ => .pure _

theorem getStation (p : Nat) : Keeps P (getStation p) := by
  refine .bind .get fun s => ?_
  cases s.stations p with
  | none => exact .fail _
  | some st => exact .pure st

theorem modifyClient (h : Blind P) {f : Clientinfo → Clientinfo} (hf : ∀ c, (f c).socket = c.socket) :
    Keeps P (modifyClient i f) := .modify fun _ hs => h.putClient hs (hf _)

theorem setStation (h : Blind P) {o : Option Station}
    (ho : ∀ song ∈ (o.map Station.songs).getD [], isEndMp3 song = true) :
    Keeps P (setStation p o) :=
  .modify fun s hs => h s _ hs (fun _ => rfl) rfl rfl rfl fun ht => ht.putStation ho

theorem modifyStation (h : Blind P) {f : Station → Station} (hf : ∀ st, (f st).songs = st.songs) :
    Keeps P (modifyStation p f) := by
  intro s hs
  refine wlp_bind.mpr (wlp_getStation fun st hst => wlp_modify.mpr ?_)
  refine h s _ hs (fun _ => rfl) rfl rfl rfl fun ht => ht.putStation ?_
  rw [Option.map_some, Option.getD_some, hf, ← Server.songsOf_of_some hst]
  exact ht p

theorem modifyList (h : Blind P) (f : Clientlist → Clientlist) : Keeps P (modifyList p f) :=
  h.modifyStation fun _ => rfl

/-! ### Clients of a station -/

theorem removeLoop (h : Blind P) (fuel c : Nat) : Keeps P (removeLoop p i fuel c) := by
  induction fuel generalizing c with
  | zero => exact .fail _
  | succ fuel ih =>
      refine .bind (getClient c) fun before => ?_
      cases before.nextClient with
      | none => exact .pure _
      | some d =>
          refine .ite (fun _ => ?_) fun _ => ih d
          refine .bind (getClient i) fun client => .bind (h.modifyClient fun _ => rfl) fun _ => ?_
          exact .ite (fun _ => h.modifyList _) fun _ => .pure _

theorem removeClientFromStation (h : Blind P) (i : Nat) : Keeps P (removeClientFromStation i) := by
  refine .bind (getClient i) fun client => ?_
  cases client.curStation with
  | none => exact .pure _
  | some p =>
      refine .bind (getStation p) fun station => ?_
      cases station.connectedClients.headClients with
      | none => exact .fail _
      | some c =>
          refine .ite (fun _ => .bind (h.modifyList _) fun _ => ?_) fun _ => h.removeLoop _ _
          exact .ite (fun _ => .bind (h.modifyList _) fun _ => .check _ _) fun _ => .pure _

theorem linkClient (h : Blind P) (list : Clientlist) : Keeps P (linkClient i p list) := by
  unfold Snowcast.linkClient
  cases list.headClients with
  | none => exact h.modifyList _
  | some _ =>
      cases list.tailClients with
      | none => exact .fail _
      | some t => exact .bind (h.modifyClient fun _ => rfl) fun _ => h.modifyList _

theorem appendClientToStation (h : Blind P) (i p : Nat) :
    Keeps P (appendClientToStation i p) := by
  refine .bind (getStation p) fun station => .bind (getClient i) fun client => ?_
  refine .ite (fun _ => .pure _) fun _ => ?_
  refine .bind (h.linkClient _) fun _ => .bind (h.modifyList _) fun _ => ?_
  exact h.modifyClient fun _ => rfl

theorem buildUdpconnection (h : Blind P) (udp : Option Nat) (i : Nat) :
    Keeps P (buildUdpconnection udp i) := by
  refine .bind (getClient i) fun client => .bind (.check _ _) fun _ => ?_
  refine .bind (.check _ _) fun _ => .bind (.check _ _) fun _ => ?_
  cases udp with
  | none => exact .pure _
  | some u =>
      refine .bind (.modify fun s hs => h s _ hs (fun _ => rfl) rfl rfl rfl fun ht => ht.congr rfl) fun _ => ?_
      exact .bind (h.modifyClient fun _ => rfl) fun _ => .pure _

/-! ### Stations -/

theorem findLoop (id : Int) (fuel : Nat) (o : Option Nat) : Keeps P (findLoop id fuel o) := by
  induction fuel generalizing o with
  | zero =>
      cases o with
      | none => exact .pure _
      | some p => exact .fail _
  | succ fuel ih =>
      cases o with
      | none => exact .pure _
      | some p =>
          refine .bind (getStation p) fun station => ?_
          exact .ite (fun _ => .pure _) fun _ => ih _

theorem findStationFromId (id : Int) : Keeps P (findStationFromId id) :=
  .bind .get fun _ => findLoop _ _ _

theorem nextAvailable (fuel : Nat) (o : Option Nat) (n : Int) :
    Keeps P (nextAvailable fuel o n) := by
  induction fuel generalizing o n with
  | zero =>
      cases o with
      | none => exact .pure _
      | some p => exact .fail _
  | succ fuel ih =>
      cases o with
      | none => exact .pure _
      | some p =>
          refine .bind (getStation p) fun station => ?_
          exact .ite (fun _ => .pure _) fun _ => ih _ _

theorem linkStation (h : Blind P) (p : Nat) : Keeps P (linkStation p) := by
  refine .bind .get fun s => ?_
  cases s.headStation with
  | none => exact .modify fun s hs => h s _ hs (fun _ => rfl) rfl rfl rfl fun ht => ht.congr rfl
  | some _ =>
      cases s.tailStation with
      | none => exact .fail _
      | some t =>
          refine .bind (h.modifyStation fun _ => rfl) fun _ => ?_
          exact .modify fun s hs => h s _ hs (fun _ => rfl) rfl rfl rfl fun ht => ht.congr rfl

theorem addCounter (h : Blind P) (n : Int) : Keeps P (addCounter n) :=
  .modify fun s hs => h s _ hs (fun _ => rfl) rfl rfl rfl fun ht => ht.congr rfl

theorem addStation (h : Blind P) {songs : List (List UInt8)}
    (hsongs : ∀ song ∈ songs, isEndMp3 song = true) (p : Nat) : Keeps P (addStation songs p) := by
  refine .bind .get fun s => .ite (fun _ => .pure _) fun _ => .ite (fun _ => .pure _) fun _ => ?_
  refine .bind (h.setStation hsongs) fun _ => .bind .get fun s => ?_
  refine .bind (nextAvailable _ _ _) fun next => .bind (h.modifyStation fun _ => rfl) fun _ => ?_
  exact .bind (h.linkStation p) fun _ => h.addCounter 1

end Blind

/-! ### Announcements -/

/-- The server keeps waiting for the connection, and sends it announcements at most. -/
structure Spares (fd : Nat) (s₀ s : Server) : Prop where
  master : fd ∈ s₀.master → fd ∈ s.master
  out : ∃ l, s.out = s₀.out ++ l ∧ ∀ m ∈ l, m.1 = fd → ¬ m.2.Replies
  tuned : Tuned s₀ → Tuned s

/-- The messages that the server may send. -/
def MaySend (P : Server → Prop) (fd : Nat) (m : Message) : Prop := Keeps P (sendMessage fd m)

variable {fd' : Nat} {s₀ : Server} {m : Message} {l : List UInt8}

namespace Spares

theorem refl (fd : Nat) (s : Server) : Spares fd s s :=
  ⟨fun h => h, ⟨[], (List.append_nil _).symm, nofun⟩, fun h => h⟩

theorem congr (h : Spares fd s₀ s) (hmaster : s'.master = s.master) (hout : s'.out = s.out)
    (htuned : Tuned s → Tuned s') : Spares fd s₀ s' := by
  refine ⟨?_, ?_, fun ht => htuned (h.tuned ht)⟩
  · rw [hmaster]
    exact h.master
  · rw [hout]
    exact h.out

theorem blind (fd : Nat) (s₀ : Server) : Blind (Spares fd s₀) :=
  fun _ _ hs _ hmaster hout _ htuned => hs.congr hmaster hout htuned

theorem maySend (h : fd' ≠ fd ∨ ¬ m.Replies) : MaySend (Spares fd s₀) fd' m := by
  intro s hs ret s' hrun
  have hsent : Spares fd s₀ { s with out := s.out ++ [(fd', m)] } := by
    obtain ⟨hmaster, ⟨l, hout, hl⟩, htuned⟩ := hs
    refine ⟨hmaster, ⟨l ++ [(fd', m)], by rw [hout, List.append_assoc], ?_⟩, htuned⟩
    intro m' hm'
    rcases List.mem_append.mp hm' with hm' | hm'
    · exact hl m' hm'
    · rw [List.mem_singleton.mp hm']
      exact fun heq => h.resolve_left fun hne => hne heq
  unfold sendMessage at hrun
  split at hrun
  · cases hrun
    exact hs.congr rfl rfl fun ht => ht.congr rfl
  · cases hrun
    exact hsent.congr rfl rfl fun ht => ht.congr rfl
  · cases hrun
    exact hsent

end Spares

theorem not_replies_nextSong (song : List UInt8) :
    ¬ (Message.announce (text "Next song:" ++ song)).Replies := by
  have hhead : (text "Next song:" ++ song).head? = some 78 := rfl
  rintro (heq | heq) <;> rw [heq] at hhead <;> exact absurd hhead (by decide)

theorem not_replies_curSong (song : List UInt8) :
    ¬ (Message.announce (text "current playing: " ++ song)).Replies := by
  have hhead : (text "current playing: " ++ song).head? = some 99 := rfl
  rintro (heq | heq) <;> rw [heq] at hhead <;> exact absurd hhead (by decide)

theorem not_replies_station (rest : List UInt8) :
    ¬ (Message.announce (text "station[" ++ rest)).Replies := by
  have hhead : (text "station[" ++ rest).head? = some 115 := rfl
  rintro (heq | heq) <;> rw [heq] at hhead <;> exact absurd hhead (by decide)

/-- No path of a song is a confirmation. -/
theorem not_replies_song {song : List UInt8} (h : isEndMp3 song = true) :
    ¬ (Message.announce song).Replies := by
  rintro (rfl | rfl) <;> exact absurd h (by decide)

theorem sendMessage_gClients (fd : Nat) (m : Message) (s : Server) :
    wlp (sendMessage fd m) (fun _ s' => s'.gClients = s.gClients) s := by
  intro ret s' hrun
  unfold sendMessage at hrun
  split at hrun <;> cases hrun <;> rfl

theorem announce_gClients (s : Server) :
    wlp (announce fd l) (fun _ s' => s'.gClients = s.gClients) s :=
  wlp_bind_of (sendMessage_gClients fd _ s) fun _ _ hs' => wlp_pure.mpr hs'

section Announcements

variable (hP : Blind P) (hsend : ∀ fd' m, ¬ m.Replies → MaySend P fd' m)

include hsend in
theorem keeps_announce (h : ¬ (Message.announce l).Replies) : Keeps P (announce fd' l) :=
  .bind (hsend fd' _ h) fun _ => .pure _

include hsend in
theorem keeps_announceStation (i : Nat) : Keeps P (announceStation i) :=
  .bind (Blind.getClient i) fun _ =>
    .ite (fun _ => keeps_announce hsend (by decide)) fun _ => .pure _

include hP hsend

theorem keeps_userAdd {songs : List (List UInt8)} (hsongs : ∀ song ∈ songs, isEndMp3 song = true)
    (p : Nat) : Keeps P (userAdd songs p) :=
  .bind (hP.addStation hsongs p) fun _ => .each (keeps_announceStation hsend) _

theorem keeps_dismissLoop (fuel : Nat) (o : Option Nat) : Keeps P (dismissLoop p fuel o) := by
  induction fuel generalizing o with
  | zero =>
      cases o with
      | none => exact .pure _
      | some c => exact .fail _
  | succ fuel ih =>
      cases o with
      | none => exact .pure _
      | some c =>
          intro s hs
          rw [dismissLoop, wlp_bind]
          refine wlp_of_wp (wp_pure.mpr (wlp_bind.mpr ?_))
          have hannounce : Keeps P (announce (s.gClients c).socket (text "Station is closed.")) :=
            keeps_announce hsend (by decide)
          refine wlp_mono (wlp_and (hannounce s hs) (announce_gClients s)) ?_
          rintro _ s₁ ⟨hs₁, hclients⟩
          refine wlp_bind.mpr (wlp_modify.mpr ?_)
          refine Keeps.bind (hP.modifyList _) (fun _ => ih _) _ (hP.putClient hs₁ ?_)
          rw [hclients]

theorem keeps_dismissClients : Keeps P (dismissClients p) := by
  refine .bind (Blind.getStation p) fun station => ?_
  refine .bind (keeps_dismissLoop hP hsend _ _) fun _ => ?_
  exact .bind (Blind.getStation p) fun _ => .check _ _

theorem keeps_removeStationLoop (fuel st : Nat) : Keeps P (removeStationLoop p fuel st) := by
  induction fuel generalizing st with
  | zero => exact .fail _
  | succ fuel ih =>
      refine .bind (Blind.getStation st) fun before => ?_
      cases before.nextStation with
      | none => exact .fail _
      | some q =>
          refine .ite (fun _ => ?_) fun _ => ih q
          refine .bind (keeps_dismissClients hP hsend) fun _ => .bind (hP.addCounter _) fun _ => ?_
          refine .bind (Blind.getStation p) fun _ => .bind (hP.modifyStation fun _ => rfl) fun _ => ?_
          refine .bind (.modify fun s hs => ?_) fun _ => hP.setStation nofun
          split
          · exact hP s _ hs (fun _ => rfl) rfl rfl rfl fun ht => ht.congr rfl
          · exact hs

theorem keeps_removeStation (p : Nat) : Keeps P (removeStation p) := by
  refine .bind .get fun s => ?_
  cases s.headStation with
  | none => exact .fail _
  | some st =>
      refine .ite (fun _ => ?_) fun _ => keeps_removeStationLoop hP hsend _ _
      refine .bind (keeps_dismissClients hP hsend) fun _ => .bind (hP.addCounter _) fun _ => ?_
      refine .bind (Blind.getStation p) fun _ => ?_
      refine .bind (.modify fun s hs => ?_) fun _ => hP.setStation nofun
      split
      · exact hP s _ hs (fun _ => rfl) rfl rfl rfl fun ht => ht.congr rfl
      · exact hP s _ hs (fun _ => rfl) rfl rfl rfl fun ht => ht.congr rfl

theorem keeps_userDelete (tokens : List (List Char)) : Keeps P (userDelete tokens) := by
  refine .each (fun token => ?_) tokens
  refine .bind .get fun s => .ite (fun _ => .pure _) fun _ => ?_
  refine .bind (Blind.findStationFromId _) fun station => ?_
  cases station with
  | none => exact .pure _
  | some p => exact keeps_removeStation hP hsend p

omit hP hsend in
theorem keeps_playLoop {visit : Clientinfo → ServerM Unit} (h : ∀ c, Keeps P (visit c)) (fuel : Nat)
    (o : Option Nat) : Keeps P (playLoop visit fuel o) := by
  induction fuel generalizing o with
  | zero =>
      cases o with
      | none => exact .pure _
      | some c => exact .fail _
  | succ fuel ih =>
      cases o with
      | none => exact .pure _
      | some c =>
          refine .bind (Blind.getClient c) fun client => .bind (h client) fun _ => ?_
          exact .bind (ih _) fun _ => .pure _

omit hP hsend in
theorem keeps_playPacket (p : Nat) : Keeps P (playPacket p) := by
  refine .bind (Blind.getStation p) fun station => keeps_playLoop (fun client => ?_) _ _
  refine .bind (.check _ _) fun _ => .bind (.check _ _) fun _ => ?_
  exact .ite (fun _ => .pure _) fun _ => .fail _

theorem keeps_playNextSong (p : Nat) (song : List UInt8) : Keeps P (playNextSong p song) := by
  refine .bind (hP.modifyStation fun _ => rfl) fun _ => .bind (keeps_playPacket p) fun _ => ?_
  refine .bind (Blind.getStation p) fun station => ?_
  refine .bind (keeps_playLoop (fun client => ?_) _ _) fun _ => .pure _
  refine .bind (.check _ _) fun _ => .bind (.check _ _) fun _ => ?_
  exact keeps_announce hsend (not_replies_nextSong song)

end Announcements

/-! ### Commands -/

/-- What a handler of another connection may do: it sends to that connection only. -/
structure Aside (fd : Nat) (s₀ s : Server) : Prop where
  spares : Spares fd s₀ s
  sockets : ∀ j, (s.gClients j).socket = (s₀.gClients j).socket

theorem Aside.blind (fd : Nat) (s₀ : Server) : Blind (Aside fd s₀) := by
  intro s s' hs hsocket hmaster hout _ htuned
  exact ⟨hs.spares.congr hmaster hout htuned, fun j => (hsocket j).trans (hs.sockets j)⟩

theorem Aside.maySend (h : fd' ≠ fd) : MaySend (Aside fd s₀) fd' m := by
  intro s hs
  refine wlp_mono (wlp_and (Spares.maySend (.inl h) s hs.spares) (sendMessage_gClients fd' m s)) ?_
  rintro _ s' ⟨hspares, hclients⟩
  refine ⟨hspares, fun j => ?_⟩
  rw [hclients]
  exact hs.sockets j

section Commands

variable {rest : ServerM Int} {udp : Option Nat}

theorem keeps_findClient (fd : Nat) : Keeps P (findClient fd) := by
  intro s hs
  exact wlp_of_wp ((wp_of_eq (findClient_apply s fd)).mpr hs)

theorem keeps_clientAt (index : Int) : Keeps P (clientAt index) := .ite (fun _ => .pure _) fun _ => .fail _

variable (hP : Blind P) (hsend : ∀ m, MaySend P fd' m)

include hsend

theorem keeps_announceTo (l : List UInt8) : Keeps P (announce fd' l) :=
  .bind (hsend _) fun _ => .pure _

theorem keeps_invalidOrReturn (h : Keeps P rest) : Keeps P (invalidOrReturn fd' l rest) :=
  .bind (hsend _) fun _ => .ite (fun _ => .pure _) fun _ => h

theorem keeps_checkHello (h : Keeps P rest) : Keeps P (checkHello fd' i rest) :=
  .bind (Blind.getClient i) fun _ =>
    .ite (fun _ => keeps_invalidOrReturn hsend h) fun _ => h

theorem keeps_sendCurSong (station : Option Nat) : Keeps P (sendCurSong fd' station) := by
  cases station with
  | none => exact .fail _
  | some p => exact .bind (Blind.getStation p) fun _ => keeps_announceTo hsend _

theorem keeps_sendStationSongs (station : Option Nat) : Keeps P (sendStationSongs fd' station) := by
  cases station with
  | none => exact .fail _
  | some p => exact .bind (Blind.getStation p) fun _ => .each (fun _ => keeps_announceTo hsend _) _

theorem keeps_sendAllLoop (fuel k : Nat) (o : Option Nat) : Keeps P (sendAllLoop fd' fuel k o) := by
  induction fuel generalizing k o with
  | zero =>
      cases o with
      | none => exact .pure _
      | some p => exact .fail _
  | succ fuel ih =>
      cases o with
      | none => exact .pure _
      | some p =>
          refine .bind (Blind.getStation p) fun _ => ?_
          exact .bind (keeps_announceTo hsend _) fun _ => ih _ _

theorem keeps_parseStationRequest {send : Option Nat → ServerM Unit} (h : ∀ o, Keeps P (send o)) :
    Keeps P (parseStationRequest fd' send) := by
  refine .bind (keeps_findClient fd') fun index => .bind (keeps_clientAt index) fun i => ?_
  refine keeps_checkHello hsend (.bind (Blind.getClient i) fun client => ?_)
  refine .ite (fun _ => keeps_invalidOrReturn hsend (.pure _)) fun _ => ?_
  exact .bind (keeps_announceTo hsend _) fun _ => .bind (h _) fun _ => .pure _

include hP

theorem keeps_parseHello (port : UInt16) : Keeps P (parseHello fd' port udp) := by
  refine .bind (keeps_findClient fd') fun index => .bind (keeps_clientAt index) fun i => ?_
  refine .bind (Blind.getClient i) fun client => .ite (fun _ => ?_) fun _ => ?_
  · exact keeps_invalidOrReturn hsend (.pure _)
  refine .bind (hsend _) fun ret => .ite (fun _ => .pure _) fun _ => ?_
  refine .bind (hP.modifyClient fun _ => rfl) fun _ => ?_
  refine .bind (hP.buildUdpconnection udp i) fun ret => .ite (fun _ => .pure _) fun _ => ?_
  exact .bind (hP.modifyClient fun _ => rfl) fun _ => .pure _

end Commands

theorem wlp_findSlot {f : Nat → ServerM α} {Q : α → Server → Prop}
    (hf : ∀ i, slotOf s fd = some i → wlp (f i) Q s) :
    wlp (do
      let index ← findClient fd
      let i ← clientAt index
      f i) Q s := by
  refine wlp_bind.mpr (wlp_of_wp ((wp_of_eq (findClient_apply s fd)).mpr (wlp_bind.mpr ?_)))
  cases hslot : slotOf s fd with
  | none => exact wlp_fail.mpr trivial
  | some i =>
      rw [Option.elim_some, clientAt_natCast (slotOf_some hslot).1]
      exact wlp_pure.mpr (hf i hslot)

/-- The part of a set-station command before the answer. -/
theorem wlp_setStation {Q : Int → Server → Prop} {n : Int} {none' : ServerM Int}
    {some' : ServerM Int} (hP : Blind P) (hs : P s) (hnone : ∀ t, P t → wlp none' Q t)
    (hsome : ∀ t, P t → wlp some' Q t) :
    wlp (do
      let target ← findStationFromId n
      match target with
      | none => none'
      | some p => do
          removeClientFromStation i
          appendClientToStation i p
          some') Q s := by
  refine wlp_bind_of (Blind.findStationFromId n s hs) fun target t ht => ?_
  cases target with
  | none => exact hnone t ht
  | some p =>
      refine wlp_bind_of (hP.removeClientFromStation i t ht) fun _ t₁ ht₁ => ?_
      exact wlp_bind_of (hP.appendClientToStation i p t₁ ht₁) fun _ t₂ ht₂ => hsome t₂ ht₂

/-- A set-station command of another connection. -/
theorem keeps_parseSetstation (h : fd' ≠ fd) (n : UInt16) :
    Keeps (Aside fd s₀) (parseSetstation fd' n) := by
  have hsend : ∀ m, MaySend (Aside fd s₀) fd' m := fun m => Aside.maySend h
  intro s hs
  refine wlp_findSlot fun i hi => ?_
  have hsocket : (s₀.gClients i).socket = fd' := (hs.sockets i).symm.trans (slotOf_some hi).2
  refine keeps_checkHello hsend (fun t ht => ?_) s hs
  refine wlp_setStation (Aside.blind fd s₀) ht (fun t ht => ?_) fun t ht => ?_
  · exact Keeps.bind (hsend _) (fun _ => .pure _) t ht
  · refine wlp_bind.mpr (wlp_of_wp (wp_pure.mpr ?_))
    rw [(ht.sockets i).trans hsocket]
    refine Keeps.bind (keeps_announceTo hsend _) (fun _ => ?_) t ht
    exact .bind (keeps_sendCurSong hsend _) fun _ => .pure _

theorem keeps_parseAndSend {udp : Option Nat} (h : fd' ≠ fd) (command : Option Received) :
    Keeps (Aside fd s₀) (parseAndSend fd' udp command) := by
  have hblind := Aside.blind fd s₀
  have hsend : ∀ m, MaySend (Aside fd s₀) fd' m := fun m => Aside.maySend h
  cases command with
  | none => exact .pure _
  | some command =>
      cases command with
      | hello port => exact keeps_parseHello hblind hsend port
      | setStation n => exact keeps_parseSetstation h n
      | request reqType =>
          refine .ite (fun _ => ?_) fun _ => .ite (fun _ => ?_) fun _ => .ite (fun _ => ?_) fun _ =>
            .pure _
          · exact keeps_parseStationRequest hsend (keeps_sendStationSongs hsend)
          · exact keeps_parseStationRequest hsend (keeps_sendCurSong hsend)
          · refine .bind (keeps_announceTo hsend _) fun _ => ?_
            refine .bind (.bind .get fun s => ?_) fun _ => .pure _
            exact keeps_sendAllLoop hsend _ _ _

/-! ### Events of others -/

/-- A connection is closed. -/
theorem wlp_closeClient {index : Int} (h : (s.gClients index.toNat).socket ≠ fd)
    (hs : Spares fd s₀ s) : wlp (closeClient index) (fun _ s' => Spares fd s₀ s') s := by
  have hclose (u : Nat) : Keeps (Spares fd s₀) (closeFd u) := .modify fun t ht => ht.congr rfl rfl fun ht => ht.congr rfl
  refine wlp_bind.mpr (wlp_check.mpr fun _ => wlp_bind.mpr (wlp_of_wp (wp_pure.mpr ?_)))
  refine Keeps.bind (.check _ _) (fun _ => .bind (hclose _) fun _ => .bind (.check _ _) fun _ =>
    .bind (hclose _) fun _ => .bind (.modify fun t ht => ?_) fun _ => ?_) s hs
  · refine ⟨fun hin => ?_, ht.out, fun htuned => (ht.tuned htuned).congr rfl⟩
    exact List.mem_filter.mpr ⟨ht.master hin, decide_eq_true h.symm⟩
  · refine .bind ((Spares.blind fd s₀).removeClientFromStation _) fun _ => ?_
    exact .modify fun t ht => ht.congr rfl rfl fun ht => ht.congr rfl

theorem wlp_readClient {udp : Option Nat} {input : Input} (h : fd' ≠ fd) :
    wlp (readClient fd' udp input) (fun _ s' => Spares fd s s') s := by
  have hslot : ∀ i, slotOf s fd' = some i → (s.gClients i).socket ≠ fd := by
    intro i hi
    rw [(slotOf_some hi).2]
    exact h
  cases input with
  | hangup =>
      refine wlp_bind.mpr (wlp_of_wp ((wp_of_eq (findClient_apply s fd')).mpr (wlp_bind.mpr ?_)))
      cases hi : slotOf s fd' with
      | none => exact wlp_fail.mpr trivial
      | some i =>
          rw [Option.elim_some, clientAt_natCast (slotOf_some hi).1]
          refine wlp_pure.mpr (wlp_bind.mpr (wlp_of_wp (wp_pure.mpr ?_)))
          split
          · exact wlp_closeClient (hslot i hi) (.refl fd s)
          · exact wlp_fail.mpr trivial
  | error =>
      refine wlp_bind.mpr (wlp_of_wp ((wp_of_eq (findClient_apply s fd')).mpr ?_))
      cases hi : slotOf s fd' with
      | none => exact wlp_bind.mpr (wlp_check.mpr nofun)
      | some i => exact wlp_closeClient (hslot i hi) (.refl fd s)
  | line command =>
      refine wlp_bind_of (keeps_parseAndSend h command s ⟨.refl fd s, fun _ => rfl⟩) ?_
      exact fun _ s' hs' => wlp_pure.mpr hs'.spares

/-- The events that do not read from the connection. -/
def Event.Other (fd : Nat) : Event → Prop
  | read fd' _ _ => fd' ≠ fd
  | _ => True

theorem keeps_select : Keeps P select := .bind .get fun _ => .ite (fun _ => .pure _) fun _ => .fail _

/-- Such an event sends announcements at most. -/
theorem wlp_other {e : Event} (henabled : e.Enabled s₀) (h : e.Other fd) : wlp e.prog (fun _ s' => Spares fd s s') s := by
  have hblind := Spares.blind fd s
  have hsend : ∀ fd' m, ¬ m.Replies → MaySend (Spares fd s) fd' m :=
    fun _ _ hm => Spares.maySend (.inr hm)
  have hs := Spares.refl fd s
  cases e with
  | accept newfd =>
      refine Keeps.bind keeps_select (fun _ => .bind (.bind (.modify fun t ht => ?_) fun _ => ?_)
        fun _ => .pure _) s hs
      · refine ⟨fun hin => List.mem_cons_of_mem _ (ht.master hin), ht.out, fun htuned => ?_⟩
        exact (ht.tuned htuned).congr rfl
      · refine .bind (fun t ht => ?_) fun first => .ite (fun _ => ?_) fun _ => ?_
        · exact wlp_of_wp ((wp_of_eq (findFirstClient_apply t)).mpr ht)
        · exact .modify fun t ht => ht.congr rfl rfl fun ht => ht.congr rfl
        · exact .bind (keeps_clientAt _) fun i => .modify fun t ht => ht.congr rfl rfl fun ht => ht.congr rfl
  | read fd' input udp =>
      rw [Event.prog, wlp_bind]
      refine wlp_mono (keeps_select (P := (· = s)) s rfl) ?_
      rintro _ _ rfl
      exact wlp_bind_of (wlp_readClient h) fun _ s' hs' => wlp_pure.mpr hs'
  | add songs p => exact Keeps.bind (keeps_userAdd hblind hsend henabled.2.1 p) (fun _ => .pure _) s hs
  | delete tokens => exact Keeps.bind (keeps_userDelete hblind hsend tokens) (fun _ => .pure _) s hs
  | start p =>
      refine Keeps.bind (m := startSong p) (hblind.modifyStation fun _ => rfl) (fun _ => .pure _) s hs
  | packet p => exact keeps_playPacket p s hs
  | nextSong p song => exact keeps_playNextSong hblind hsend p song s hs

/-! ### The answer to a command -/

/-- The message confirms the command, or says that it is invalid. -/
def Message.Answers : Command → Message → Prop
  | _, invalid _ => True
  | .hello _, m => m = welcome
  | .setStation _, m => m = announce setConfirmed
  | .request _, m => m = announce requestConfirmed

theorem Message.Answers.replies {c : Command} (h : m.Answers c) : m.Replies := by
  cases m with
  | invalid text => trivial
  | welcome => trivial
  | announce text =>
      cases c with
      | hello port => cases h
      | setStation number =>
          cases h
          exact .inl rfl
      | request type =>
          cases h
          exact .inr rfl

/-- One answer to the command is sent, and announcements at most after it. -/
def Answered (fd : Nat) (c : Command) (o : List (Nat × Message)) (s : Server) : Prop :=
  ∃ m l, s.out = o ++ (fd, m) :: l ∧ m.Answers c ∧ ∀ x ∈ l, x.1 = fd ∧ ¬ x.2.Replies

/-- Nothing is sent yet, and what is sent arrives. -/
def Unanswered (fd i : Nat) (o : List (Nat × Message)) (s : Server) : Prop :=
  (s.gClients i).socket = fd ∧ s.sends = [] ∧ s.out = o

variable {c : Command} {o : List (Nat × Message)} {udp : Option Nat}

theorem Answered.blind (fd : Nat) (c : Command) (o : List (Nat × Message)) :
    Blind (Answered fd c o) := by
  rintro s s' ⟨m, l, hout, hrest⟩ _ _ hout' _ _
  exact ⟨m, l, hout'.trans hout, hrest⟩

theorem Unanswered.blind (fd i : Nat) (o : List (Nat × Message)) : Blind (Unanswered fd i o) := by
  rintro s s' ⟨hsocket, hsends, hout⟩ hsocket' _ hout' hsends' _
  exact ⟨(hsocket' i).trans hsocket, hsends'.trans hsends, hout'.trans hout⟩

theorem Answered.maySend (h : ¬ m.Replies) : MaySend (Answered fd c o) fd m := by
  rintro s ⟨m₁, l, hout, hanswers, hl⟩ ret s' hrun
  have hsent : Answered fd c o { s with out := s.out ++ [(fd, m)] } := by
    refine ⟨m₁, l ++ [(fd, m)], by rw [hout, List.append_assoc]; rfl, hanswers, ?_⟩
    intro x hx
    rcases List.mem_append.mp hx with hx | hx
    · exact hl x hx
    · rw [List.mem_singleton.mp hx]
      exact ⟨rfl, h⟩
  unfold sendMessage at hrun
  split at hrun
  · cases hrun
    exact ⟨m₁, l, hout, hanswers, hl⟩
  · cases hrun
    exact hsent
  · cases hrun
    exact hsent

theorem Answered.announce (h : ¬ (Message.announce l).Replies) :
    Keeps (Answered fd c o) (announce fd l) := .bind (Answered.maySend h) fun _ => .pure _

/-- The answer is sent. -/
theorem wlp_answer {Q : Int → Server → Prop} (hsends : s.sends = []) (hm : m.Answers c)
    (hq : ∀ t, Answered fd c s.out t → Q 0 t) : wlp (sendMessage fd m) Q s := by
  intro ret s' hrun
  unfold sendMessage at hrun
  rw [hsends] at hrun
  cases hrun
  exact hq _ ⟨m, [], rfl, hm, nofun⟩

theorem Unanswered.answer {Q : Int → Server → Prop} (h : Unanswered fd i o s) (hm : m.Answers c)
    (hq : ∀ t, Answered fd c o t → Q 0 t) : wlp (sendMessage fd m) Q s := by
  obtain ⟨-, hsends, rfl⟩ := h
  exact wlp_answer hsends hm hq

theorem Unanswered.answerAnnounce {Q : Unit → Server → Prop} (h : Unanswered fd i o s)
    (hm : (Message.announce l).Answers c) (hq : ∀ t, Answered fd c o t → Q () t) :
    wlp (announce fd l) Q s :=
  wlp_bind.mpr (h.answer hm fun t ht => wlp_pure.mpr (hq t ht))

theorem Unanswered.invalid {rest : ServerM Int} (h : Unanswered fd i o s)
    (hrest : ∀ t, Answered fd c o t → wlp rest (fun _ s' => Answered fd c o s') t) :
    wlp (invalidOrReturn fd l rest) (fun _ s' => Answered fd c o s') s := by
  refine wlp_bind.mpr (h.answer (m := .invalid l) (c := c) trivial fun t ht => ?_)
  exact hrest t ht

theorem wlp_parseHello {port : UInt16} (hsends : s.sends = []) :
    wlp (parseHello fd port udp) (fun _ s' => Answered fd (.hello port) s.out s') s := by
  have hblind := Answered.blind fd (.hello port) s.out
  refine wlp_findSlot fun i hi => wlp_bind.mpr (wlp_of_wp (wp_pure.mpr ?_))
  have hs : Unanswered fd i s.out s := ⟨(slotOf_some hi).2, hsends, rfl⟩
  split
  · exact hs.invalid fun t ht => wlp_pure.mpr ht
  · refine wlp_bind.mpr (hs.answer (c := .hello port) rfl fun t ht => ?_)
    rw [if_neg (by decide)]
    refine Keeps.bind (hblind.modifyClient ?_) (fun _ => ?_) t ht
    · exact fun _ => rfl
    refine .bind (hblind.buildUdpconnection udp i) fun ret => .ite (fun _ => .pure _) fun _ => ?_
    exact .bind (hblind.modifyClient fun _ => rfl) fun _ => .pure _

theorem keeps_answered_sendCurSong (station : Option Nat) :
    Keeps (Answered fd c o) (sendCurSong fd station) := by
  cases station with
  | none => exact .fail _
  | some p =>
      exact .bind (Blind.getStation p) fun _ => Answered.announce (not_replies_curSong _)

theorem wlp_checkHello {rest : ServerM Int} {Q : Int → Server → Prop}
    (hi : (s.gClients i).state ≠ .initState) (hrest : wlp rest Q s) :
    wlp (checkHello fd i rest) Q s := by
  refine wlp_bind.mpr (wlp_of_wp (wp_pure.mpr ?_))
  rw [if_neg hi]
  exact hrest

theorem wlp_parseSetstation {n : UInt16} (hsends : s.sends = [])
    (hgreeted : ∀ i, slotOf s fd = some i → (s.gClients i).state ≠ .initState) :
    wlp (parseSetstation fd n) (fun _ s' => Answered fd (.setStation n) s.out s') s := by
  refine wlp_findSlot fun i hi => wlp_checkHello (hgreeted i hi) ?_
  have hs : Unanswered fd i s.out s := ⟨(slotOf_some hi).2, hsends, rfl⟩
  refine wlp_setStation (Unanswered.blind fd i s.out) hs (fun t ht => ?_) fun t ht => ?_
  · exact wlp_bind.mpr (ht.answer (m := .invalid _) trivial fun t' ht' => wlp_pure.mpr ht')
  · refine wlp_bind.mpr (wlp_of_wp (wp_pure.mpr ?_))
    rw [ht.1]
    refine wlp_bind.mpr (ht.answerAnnounce (c := .setStation n) rfl fun t' ht' => ?_)
    exact Keeps.bind (keeps_answered_sendCurSong _) (fun _ => .pure _) t' ht'

theorem announce_stations (s : Server) :
    wlp (announce fd l) (fun _ s' => s'.stations = s.stations) s := by
  refine wlp_bind.mpr fun ret s' hrun => wlp_pure.mpr ?_
  unfold sendMessage at hrun
  split at hrun <;> cases hrun <;> rfl

theorem wlp_parseStationRequest {send : Option Nat → ServerM Unit} {type : RequestType}
    (hsends : s.sends = [])
    (hgreeted : ∀ i, slotOf s fd = some i → (s.gClients i).state ≠ .initState)
    (hsend : ∀ station t, Answered fd (.request type) s.out t → t.stations = s.stations →
      wlp (send station) (fun _ t' => Answered fd (.request type) s.out t') t) :
    wlp (parseStationRequest fd send) (fun _ s' => Answered fd (.request type) s.out s') s := by
  refine wlp_findSlot fun i hi => wlp_checkHello (hgreeted i hi) ?_
  have hs : Unanswered fd i s.out s := ⟨(slotOf_some hi).2, hsends, rfl⟩
  refine wlp_bind.mpr (wlp_of_wp (wp_pure.mpr ?_))
  split
  · exact hs.invalid fun t ht => wlp_pure.mpr ht
  · have hconfirm : wlp (announce fd requestConfirmed)
        (fun _ t => Answered fd (.request type) s.out t) s :=
      hs.answerAnnounce (c := .request type) rfl fun t ht => ht
    refine wlp_bind_of (wlp_and hconfirm (announce_stations s)) fun _ t ht => ?_
    exact wlp_bind_of (hsend _ t ht.1 ht.2) fun _ t' ht' => wlp_pure.mpr ht'

theorem wlp_sendStationSongs {station : Option Nat} (htuned : Tuned s) (hs : Answered fd c o s) :
    wlp (sendStationSongs fd station) (fun _ s' => Answered fd c o s') s := by
  cases station with
  | none => exact wlp_fail.mpr trivial
  | some p =>
      refine wlp_bind.mpr (wlp_getStation fun st hst => ?_)
      have hsongs : ∀ song ∈ st.songs, isEndMp3 song = true := by
        rw [← Server.songsOf_of_some hst]
        exact htuned p
      refine wlp_mono (wlp_each (I := fun rest t => (∀ song ∈ rest, isEndMp3 song = true) ∧
        Answered fd c o t) ⟨hsongs, hs⟩ ?_) fun _ _ ht => ht.2
      rintro song rest t ⟨hrest, ht⟩
      refine wlp_mono (Answered.announce (not_replies_song (hrest song List.mem_cons_self)) t ht) ?_
      exact fun _ _ ht' => ⟨fun song' hin => hrest song' (List.mem_cons_of_mem song hin), ht'⟩

theorem keeps_answered_sendAllLoop (fuel k : Nat) (station : Option Nat) :
    Keeps (Answered fd c o) (sendAllLoop fd fuel k station) := by
  induction fuel generalizing k station with
  | zero =>
      cases station with
      | none => exact .pure _
      | some p => exact .fail _
  | succ fuel ih =>
      cases station with
      | none => exact .pure _
      | some p =>
          refine .bind (Blind.getStation p) fun st => .bind (Answered.announce ?_) fun _ => ih _ _
          rw [List.append_assoc, List.append_assoc]
          exact not_replies_station _

/-- The clients from which the command gets one answer. -/
def Command.Greeted (s : Server) (fd : Nat) : Command → Prop
  | hello _ => True
  | request .allStation => True
  | _ => ∀ i, slotOf s fd = some i → (s.gClients i).state ≠ .initState

/-- The server answers a command once. -/
theorem wlp_parseAndSend (hsends : s.sends = []) (htuned : Tuned s) (hgreeted : c.Greeted s fd) :
    wlp (parseAndSend fd udp (some c.received)) (fun _ s' => Answered fd c s.out s') s := by
  cases c with
  | hello port => exact wlp_parseHello hsends
  | setStation n => exact wlp_parseSetstation hsends hgreeted
  | request type =>
      cases type with
      | all =>
          refine wlp_parseStationRequest hsends hgreeted fun station t ht hstations => ?_
          refine wlp_sendStationSongs (fun p => ?_) ht
          rw [Server.songsOf, hstations]
          exact htuned p
      | current =>
          exact wlp_parseStationRequest hsends hgreeted fun station t ht _ =>
            keeps_answered_sendCurSong station t ht
      | allStation =>
          have hconfirm : wlp (announce fd requestConfirmed)
              (fun _ t => Answered fd (.request .allStation) s.out t) s :=
            wlp_bind.mpr (wlp_answer (c := .request .allStation) hsends rfl fun t ht => wlp_pure.mpr ht)
          refine wlp_bind_of hconfirm fun _ t ht => ?_
          refine Keeps.bind (.bind .get fun s => ?_) (fun _ => .pure _) t ht
          exact keeps_answered_sendAllLoop _ _ _

end CodingSample.Snowcast
