import CodingSample.Snowcast.Connections

/-!
# What the events keep

One invariant for two properties. In the `strict` mode no client moves between stations or leaves
one, and the counters of the stations are right. In the `safe` mode the clients keep to the
protocol, and no event goes wrong.
-/

namespace CodingSample.Snowcast

open Prog

/-- Each client is in the list of its station, and the stations are in the list of stations. -/
structure Inv (strict safe : Prop) (s : Server) (q : Nat → List Nat) (ps : List Nat) : Prop where
  lists : Lists s q s.cur
  free : ∀ i, s.cur i = none → s.nxt i = none
  stationed : Stationed s ps
  counters : strict → ∀ p, (s.list p).counter = (q p).length
  connected : safe → Connected s
  handshaked : safe → ∀ i p, s.cur i = some p → (s.gClients i).state = .handshaked

/-- No client that has a station takes another one or leaves. -/
def Event.Calm (s : Server) : Event → Prop
  | read fd (.line (some (.setStation n))) _ => ∀ i p, slotOf s fd = some i →
      stationOf s n.toNat = some p → s.cur i = none
  | read fd .hangup _ => ∀ i, slotOf s fd = some i → s.cur i = none
  | read fd .error _ => ∀ i, slotOf s fd = some i → s.cur i = none
  | _ => True

/-- The clients keep to the protocol: a client connects while there is an unused slot, gets a UDP
socket when it says hello, takes a station and leaves after that, and takes another station only
while it is the last client of its station. -/
def Event.Polite (s : Server) : Event → Prop
  | accept _ => ∃ i < maxClientNum, (s.gClients i).state = .noState
  | read fd (.line (some (.hello _))) udp =>
      ∀ i, slotOf s fd = some i → (s.gClients i).state = .initState → udp ≠ none
  | read fd (.line (some (.setStation n))) _ => ∀ i p, slotOf s fd = some i →
      stationOf s n.toNat = some p → (s.gClients i).state = .handshaked ∧
        (s.cur i = none ∨ s.cur i ≠ some p ∧ s.nxt i = none)
  | read fd .hangup _ => ∀ i, slotOf s fd = some i → (s.gClients i).state = .handshaked
  | read fd .error _ => ∀ i, slotOf s fd = some i → (s.gClients i).state = .handshaked
  | _ => True

/-- The faults of the events except the command `d`. -/
def Unsafe (safe : Prop) (f : Fault) : Prop := f ≠ .counter ∧ ¬ safe

variable {strict safe : Prop} {s s' t : Server} {q : Nat → List Nat} {ps l : List Nat}
  {i p fd newfd : Nat} {index : Int} {client : Clientinfo} {st st' : Station} {udp : Option Nat}

/-! ### The rules -/

section Rules

variable {α : Type} {Q : α → Server → Prop}

theorem ewp_kassert_safe {Q : Unit → Server → Prop} {test : Bool} (h : safe → test = true)
    (hq : test = true → Q () s) : ewp (kassert test) Q (Unsafe safe) s := by
  rw [kassert, ewp_check]
  refine ⟨hq, fun hfalse => ⟨by rintro ⟨⟩, fun hsafe => ?_⟩⟩
  rw [h hsafe] at hfalse
  cases hfalse

theorem ewp_select {Q : Unit → Server → Prop} (h : safe → Connected s) (hq : Q () s) :
    ewp select Q (Unsafe safe) s := by
  rw [select, ewp_bind, ewp_get]
  split
  · exact hq
  · rename_i hall
    refine ⟨nofun, fun hsafe => hall (List.all_eq_true.mpr fun fd hfd => ?_)⟩
    exact decide_eq_true ((h hsafe).open_of_master hfd)

/-- A handler looks for the slot of the connection. -/
theorem ewp_findSlot {f : Nat → ServerM α} (hsafe : safe → ∃ i, slotOf s fd = some i)
    (hf : ∀ i, slotOf s fd = some i → ewp (f i) Q (Unsafe safe) s) :
    ewp (do
      let index ← findClient fd
      let i ← clientAt index
      f i) Q (Unsafe safe) s := by
  rw [ewp_bind, ewp_of_ok (findClient_apply s fd), ewp_bind]
  cases hslot : slotOf s fd with
  | none =>
      refine ⟨nofun, fun h => ?_⟩
      obtain ⟨i, hi⟩ := hsafe h
      rw [hslot] at hi
      cases hi
  | some i =>
      rw [Option.elim_some, clientAt_natCast (slotOf_some hslot).1]
      exact hf i hslot

theorem ewp_invalidOrReturn {Q : Int → Server → Prop} {E : Fault → Prop} {message : List UInt8}
    {rest : ServerM Int} (hret : ∀ s', Quiet s s' → Q (-1) s')
    (hrest : ∀ s', Quiet s s' → ewp rest Q E s') :
    ewp (invalidOrReturn fd message rest) Q E s := by
  rw [invalidOrReturn, ewp_bind]
  refine ewp_sendMessage fun ret sends out => ?_
  split
  · exact hret _ ⟨sends, out, rfl⟩
  · exact hrest _ ⟨sends, out, rfl⟩

theorem ewp_checkHello {Q : Int → Server → Prop} {E : Fault → Prop} {rest : ServerM Int}
    (hret : ∀ s', Quiet s s' → Q (-1) s') (hrest : ∀ s', Quiet s s' → ewp rest Q E s') :
    ewp (checkHello fd i rest) Q E s := by
  rw [checkHello, ewp_bind, ewp_getClient]
  split
  · exact ewp_invalidOrReturn hret hrest
  · exact hrest s (.refl s)

end Rules

/-! ### What keeps the invariant -/

namespace Inv

/-- A client has a station that is in the list. -/
theorem mem_of_cur (h : Inv strict safe s q ps) (hcur : s.cur i = some p) : p ∈ ps ∧ i ∈ q p := by
  have hi := (h.lists.mem p i).mpr hcur
  refine ⟨(h.stationed.alloc p).mpr ?_, hi⟩
  cases hst : s.stations p with
  | none =>
      have hlisted := h.lists.listed p
      rw [Server.list, hst] at hlisted
      rw [hlisted.eq_nil] at hi
      cases hi
  | some st => rfl

/-- The lists and the links are kept. -/
theorem congr {ps' : List Nat} (h : Inv strict safe s q ps) (hcur : s'.cur = s.cur)
    (hnxt : s'.nxt = s.nxt) (hlist : s'.list = s.list) (hstationed : Stationed s' ps')
    (hconnected : safe → Connected s')
    (hstate : ∀ i, (s.gClients i).state = .handshaked → (s'.gClients i).state = .handshaked) :
    Inv strict safe s' q ps' := by
  refine ⟨?_, ?_, hstationed, ?_, hconnected, ?_⟩
  · refine ⟨?_, ?_, ?_⟩
    · rw [hnxt, hlist]
      exact h.lists.listed
    · rw [hcur]
      exact h.lists.mem
    · rw [hcur]
      exact h.lists.lt
  · rw [hcur, hnxt]
    exact h.free
  · rw [hlist]
    exact h.counters
  · intro hsafe i p hi
    rw [hcur] at hi
    exact hstate i (h.handshaked hsafe i p hi)

theorem quiet (h : Inv strict safe s q ps) (hquiet : Quiet s s') : Inv strict safe s' q ps := by
  have hcore := hquiet.core
  obtain ⟨sends, out, rfl⟩ := hquiet
  exact h.congr rfl rfl rfl (h.stationed.of_core hcore) (fun hsafe => (h.connected hsafe).of_core hcore)
    fun _ hi => hi

/-- A station keeps its links, its identifier and its clients. -/
theorem putStation (h : Inv strict safe s q ps) (hst : s.stations p = some st)
    (hnext : st'.nextStation = st.nextStation)
    (hclients : st'.connectedClients = st.connectedClients) :
    Inv strict safe (s.putStation p (some st')) q ps := by
  have hlist : (s.putStation p (some st')).list = s.list := by
    rw [Server.list_putStation, Function.update_eq_self_iff, Server.list_of_some hst]
    exact hclients
  have hnextSt : (s.putStation p (some st')).nextSt = s.nextSt := by
    rw [Server.nextSt_putStation, Function.update_eq_self_iff, Server.nextSt_of_some hst]
    exact hnext
  refine h.congr rfl rfl hlist ⟨?_, h.stationed.counter, ?_, h.stationed.le⟩
    (fun hsafe => (h.connected hsafe).congr (fun _ => rfl) rfl) fun _ hi => hi
  · rw [hnextSt]
    exact h.stationed.listed
  · intro j
    rw [Server.isSome_putStation, h.stationed.alloc]
    split
    · rename_i hj
      rw [hj, hst]
      rfl
    · rfl

end Inv

/-! ### Hello -/

def Server.putClient (s : Server) (i : Nat) (client : Clientinfo) : Server :=
  { s with gClients := Function.update s.gClients i client }

theorem ewp_modifyClient {Q : Unit → Server → Prop} {E : Fault → Prop}
    {f : Clientinfo → Clientinfo} :
    ewp (modifyClient i f) Q E s ↔ Q () (s.putClient i (f (s.gClients i))) := Iff.rfl

theorem ewp_setClient {Q : Unit → Server → Prop} {E : Fault → Prop} :
    ewp (setClient i client) Q E s ↔ Q () (s.putClient i client) := Iff.rfl

namespace Server

theorem putClient_self : (s.putClient i client).gClients i = client := Function.update_self _ _ _

theorem putClient_of_ne (h : p ≠ i) : (s.putClient i client).gClients p = s.gClients p :=
  Function.update_of_ne h _ _

/-- An update of a client that keeps its links. -/
theorem cur_putClient (h : client.curStation = s.cur i) : (s.putClient i client).cur = s.cur := by
  funext j
  change (Function.update s.gClients i client j).curStation = _
  rw [Function.update_apply]
  split
  · rename_i hj
    rw [h, hj]
  · rfl

theorem nxt_putClient (h : client.nextClient = s.nxt i) : (s.putClient i client).nxt = s.nxt := by
  funext j
  change (Function.update s.gClients i client j).nextClient = _
  rw [Function.update_apply]
  split
  · rename_i hj
    rw [h, hj]
  · rfl

end Server

/-- The stations are kept. -/
theorem Stationed.congr (h : Stationed s ps) (hstations : s'.stations = s.stations)
    (hhead : s'.headStation = s.headStation) (htail : s'.tailStation = s.tailStation)
    (hcounter : s'.counter = s.counter) : Stationed s' ps := by
  have hnext : s'.nextSt = s.nextSt := by
    funext p
    rw [Server.nextSt, hstations]
    rfl
  refine ⟨?_, hcounter.trans h.counter, ?_, h.le⟩
  · rw [hnext, hhead, htail]
    exact h.listed
  · rw [hstations]
    exact h.alloc

/-- A client that has not said hello keeps its links. -/
theorem Inv.of_update (h : Inv strict safe s q ps)
    (hclients : s'.gClients = Function.update s.gClients i client)
    (hcur : client.curStation = s.cur i) (hnext : client.nextClient = s.nxt i)
    (hstate : (s.gClients i).state ≠ .handshaked) (hstations : s'.stations = s.stations)
    (hhead : s'.headStation = s.headStation) (htail : s'.tailStation = s.tailStation)
    (hcounter : s'.counter = s.counter) (hconnected : safe → Connected s') :
    Inv strict safe s' q ps := by
  have hclient (j : Nat) : s'.gClients j = (s.putClient i client).gClients j :=
    congrFun hclients j
  refine h.congr ?_ ?_ ?_ (h.stationed.congr hstations hhead htail hcounter) hconnected ?_
  · rw [← Server.cur_putClient hcur]
    funext j
    rw [Server.cur, hclient]
    rfl
  · rw [← Server.nxt_putClient hnext]
    funext j
    rw [Server.nxt, hclient]
    rfl
  · funext p
    rw [Server.list_eq_getD, Server.list_eq_getD, hstations]
  · intro j hj
    rw [hclient, Server.putClient_of_ne]
    · exact hj
    · rintro rfl
      exact hstate hj

theorem ewp_buildUdpconnection {Q : Int → Server → Prop}
    (hsafe : safe → (s.gClients i).ipAddress = true ∧ (s.gClients i).socket ≠ 0 ∧
      (s.gClients i).state ≠ .noState) (hnone : udp = none → Q (-1) s)
    (hsome : ∀ u, udp = some u → Q 0 ({ s with openFds := u :: s.openFds }.putClient i
      { s.gClients i with udpAddrinfo := true, udpSock := u })) :
    ewp (buildUdpconnection udp i) Q (Unsafe safe) s := by
  unfold buildUdpconnection
  rw [ewp_bind, ewp_getClient, ewp_bind]
  refine ewp_kassert_safe (fun h => (hsafe h).1) fun _ => ?_
  rw [ewp_bind]
  refine ewp_kassert_safe (fun h => decide_eq_true (hsafe h).2.1) fun _ => ?_
  rw [ewp_bind]
  refine ewp_kassert_safe (fun h => decide_eq_true (hsafe h).2.2) fun _ => ?_
  cases udp with
  | none => exact hnone rfl
  | some u => exact hsome u rfl

theorem Inv.of_parseHello {port : UInt16} (h : Inv strict safe s q ps)
    (hslot : safe → ∃ i, slotOf s fd = some i ∧ (s.gClients i).state ≠ .noState)
    (hpolite : safe → ∀ i, slotOf s fd = some i → (s.gClients i).state = .initState → udp ≠ none)
    (hudp : ∀ u, udp = some u → u ∉ s.openFds ∧ u ≠ 0) :
    ewp (parseHello fd port udp) (fun _ s' => Inv strict safe s' q ps) (Unsafe safe) s := by
  refine ewp_findSlot (fun hsafe => (hslot hsafe).imp fun _ => And.left) fun i hi => ?_
  obtain ⟨hlt, -⟩ := slotOf_some hi
  rw [ewp_bind, ewp_getClient]
  split
  · exact ewp_invalidOrReturn (fun _ hquiet => h.quiet hquiet) fun _ hquiet => h.quiet hquiet
  rename_i hstate
  have hinit : safe → (s.gClients i).state = .initState := by
    intro hsafe
    obtain ⟨j, hj, hused⟩ := hslot hsafe
    obtain rfl : i = j := Option.some.inj (hi.symm.trans hj)
    cases hs : (s.gClients i).state with
    | noState => exact absurd hs hused
    | initState => rfl
    | handshaked => exact absurd hs hstate
  rw [ewp_bind]
  refine ewp_sendMessage fun ret sends out => ?_
  split
  · exact h.quiet ⟨sends, out, rfl⟩
  rw [ewp_bind, ewp_modifyClient, ewp_bind]
  refine ewp_buildUdpconnection ?_ ?_ ?_
  · intro hsafe
    rw [Server.putClient_self]
    have hused := (h.connected hsafe).used i hlt (by rw [hinit hsafe]; exact nofun)
    exact ⟨hused.2.1, hused.1, nofun⟩
  · intro hnone
    rw [if_pos rfl, ewp_pure]
    refine h.of_update rfl rfl rfl hstate rfl rfl rfl rfl fun hsafe => ?_
    exact absurd hnone (hpolite hsafe i hi (hinit hsafe))
  · intro u hu
    obtain ⟨hopen, hzero⟩ := hudp u hu
    rw [if_neg (by decide), ewp_bind, ewp_modifyClient, Server.putClient_self, Server.putClient_self,
      ewp_pure]
    have hclients : Function.update (Function.update (Function.update s.gClients i
        { s.gClients i with state := .handshaked }) i
        { s.gClients i with state := .handshaked, udpAddrinfo := true, udpSock := u }) i
        { s.gClients i with
          state := .handshaked, udpAddrinfo := true, udpSock := u, udpPort := port } =
        Function.update s.gClients i { s.gClients i with
          state := .handshaked, udpAddrinfo := true, udpSock := u, udpPort := port } := by
      rw [Function.update_idem, Function.update_idem]
    refine h.of_update hclients rfl rfl hstate rfl rfl rfl rfl fun hsafe => ?_
    exact (h.connected hsafe).greet hlt (hinit hsafe) hopen hzero hclients
      ⟨rfl, rfl, rfl, rfl, rfl⟩ rfl

/-! ### Set station -/

/-- A client that is in no list is appended to the list of a station. -/
theorem Inv.of_appended {home : Nat → Option Nat} (h : Inv strict safe s q ps)
    {q₁ : Nat → List Nat} (happended : Appended t s' p i (q₁ p)) (hl : Lists t q₁ home)
    (hcore : t.core = s.core) (hcur : t.cur = s.cur) (hhome : Function.update home i (some p) =
      Function.update s.cur i (some p)) (hi : home i = none) (hlt : i < maxClientNum)
    (hfree : ∀ j, home j = none → t.nxt j = none)
    (hcounters : strict → ∀ p, (t.list p).counter = (q₁ p).length)
    (hshaken : safe → (s.gClients i).state = .handshaked) :
    Inv strict safe s' (Function.update q₁ p (q₁ p ++ [i])) ps := by
  have hcur' : s'.cur = Function.update s.cur i (some p) := happended.cur.trans (by rw [hcur])
  have hcore' : s'.core = s.core := happended.core.trans hcore
  have hlists := happended.lists hl hi hlt
  rw [hhome, ← hcur'] at hlists
  refine ⟨hlists, ?_, h.stationed.of_core hcore', ?_, ?_, ?_⟩
  · intro j hj
    rw [hcur', ← hhome, Function.update_apply] at hj
    split at hj
    · cases hj
    rename_i hne
    have hnot : j ∉ q₁ p := by
      intro hin
      rw [(hl.mem p j).mp hin] at hj
      cases hj
    rw [happended.nxt j hnot]
    exact hfree j hj
  · intro hstrict p'
    rw [Function.update_apply]
    split
    · rename_i hp
      rw [hp, happended.counter, hcounters hstrict, List.length_append]
      rfl
    · rename_i hp
      rw [happended.others p' hp]
      exact hcounters hstrict p'
  · exact fun hsafe => (h.connected hsafe).of_core hcore'
  · intro hsafe j p' hj
    have hstate (j) : (s'.gClients j).state = (s.gClients j).state :=
      Clientinfo.congr_core Clientinfo.state (fun _ => rfl) (Server.core_client hcore' j)
    rw [hcur', Function.update_apply] at hj
    rw [hstate]
    split at hj
    · rename_i hji
      rw [hji]
      exact hshaken hsafe
    · exact h.handshaked hsafe j p' hj

theorem removeClientFromStation_none (hcur : s.cur i = none) :
    removeClientFromStation i s = .ok ((), s) := by
  change (s.gClients i).curStation = none at hcur
  have hget : getClient i s = .ok (s.gClients i, s) := rfl
  rw [removeClientFromStation, bind_eq_of_ok hget, hcur]
  rfl

/-- A client takes a station. -/
theorem Inv.of_move {E : Fault → Prop} (h : Inv strict safe s q ps) (hlt : i < maxClientNum)
    (hp : p ∈ ps) (hmove : s.cur i = none ∨ ¬ strict ∧ s.cur i ≠ some p ∧ s.nxt i = none)
    (hshaken : safe → (s.gClients i).state = .handshaked) :
    ewp (do
      removeClientFromStation i
      appendClientToStation i p) (fun _ s' => s'.cur i = some p ∧ ∃ q', Inv strict safe s' q' ps)
      E s := by
  obtain ⟨st, hst⟩ := h.stationed.exists_station hp
  rw [ewp_bind]
  have hcases : s.cur i = none ∨ ∃ p₀, s.cur i = some p₀ := by
    cases s.cur i with
    | none => exact .inl rfl
    | some p₀ => exact .inr ⟨p₀, rfl⟩
  rcases hcases with hcur | ⟨p₀, hcur⟩
  · rw [ewp_of_ok (removeClientFromStation_none hcur)]
    have hi : i ∉ q p := by
      intro hin
      rw [(h.lists.mem p i).mp hin] at hcur
      cases hcur
    have hlisted := h.lists.listed p
    rw [Server.list_of_some hst] at hlisted
    refine ewp_mono (ewp_appendClientToStation hst hlisted hi (h.free i hcur) ?_) ?_ fun _ he => he
    · rw [hcur]
      exact nofun
    · intro _ s' happended
      refine ⟨by rw [happended.cur, Function.update_self], _, h.of_appended happended h.lists rfl rfl
        rfl hcur hlt h.free h.counters hshaken⟩
  · obtain ⟨hstrict, hne, hnext⟩ := hmove.resolve_left (by rw [hcur]; exact nofun)
    obtain ⟨-, hi⟩ := h.mem_of_cur hcur
    refine ewp_mono (ewp_removeClientFromStation h.lists hcur hi) ?_ fun _ he => he
    intro _ t hremoved
    have hlists := hremoved.lists h.lists hi
    obtain ⟨st', hst', -⟩ := Server.station_of_core hremoved.core hst
    have hlisted := hlists.listed p
    rw [Server.list_of_some hst'] at hlisted
    have hout : i ∉ Function.update q p₀ ((q p₀).erase i) p := by
      intro hin
      have hhome := (hlists.mem p i).mp hin
      rw [Function.update_self] at hhome
      cases hhome
    have hnext' : t.nxt i = none := hremoved.self.trans hnext
    refine ewp_mono (ewp_appendClientToStation hst' hlisted hout hnext' ?_) ?_ fun _ he => he
    · rw [hremoved.cur]
      exact hne
    · intro _ s' happended
      refine ⟨by rw [happended.cur, Function.update_self], _, h.of_appended happended hlists
        hremoved.core hremoved.cur (Function.update_idem ..) (Function.update_self ..) hlt ?_
        (fun h => absurd h hstrict) hshaken⟩
      intro j hj
      rw [Function.update_apply] at hj
      split at hj
      · rename_i hji
        rw [hji]
        exact hnext'
      · refine (hremoved.nxt j fun hin => ?_).trans (h.free j hj)
        rw [(h.lists.mem p₀ j).mp hin] at hj
        cases hj

theorem ewp_sendCurSong {E : Fault → Prop} (hst : s.stations p = some st) :
    ewp (sendCurSong fd (some p)) (fun _ s' => Quiet s s') E s := by
  rw [sendCurSong, ewp_bind, ewp_getStation hst]
  exact ewp_announce_quiet

theorem Inv.of_parseSetstation {n : UInt16} (h : Inv strict safe s q ps)
    (hslot : safe → ∃ i, slotOf s fd = some i)
    (hmove : ∀ i p, slotOf s fd = some i → stationOf s n.toNat = some p →
      s.cur i = none ∨ ¬ strict ∧ s.cur i ≠ some p ∧ s.nxt i = none)
    (hshaken : safe → ∀ i p, slotOf s fd = some i → stationOf s n.toNat = some p →
      (s.gClients i).state = .handshaked) :
    ewp (parseSetstation fd n) (fun _ s' => ∃ q', Inv strict safe s' q' ps) (Unsafe safe) s := by
  refine ewp_findSlot hslot fun i hi => ?_
  obtain ⟨hlt, -⟩ := slotOf_some hi
  refine ewp_checkHello (fun s' hquiet => ⟨q, h.quiet hquiet⟩) fun t hquiet => ?_
  have ht := h.quiet hquiet
  have hids := hquiet.idOf
  have hfind := h.stationed.stationOf_eq n.toNat
  rw [ewp_bind, ewp_of_ok (ht.stationed.findStationFromId _)]
  simp only [hids]
  cases hfound : ps.find? fun p => s.idOf p = n.toNat with
  | none =>
      simp only []
      rw [ewp_bind]
      exact ewp_sendMessage fun _ sends out => ⟨q, ht.quiet ⟨sends, out, rfl⟩⟩
  | some p =>
      simp only []
      rw [hfound] at hfind
      have hp : p ∈ ps := List.mem_of_find?_eq_some hfound
      have hmove' : t.cur i = none ∨ ¬ strict ∧ t.cur i ≠ some p ∧ t.nxt i = none := by
        obtain ⟨_, _, rfl⟩ := hquiet
        exact hmove i p hi hfind
      have hshaken' : safe → (t.gClients i).state = .handshaked := by
        intro hsafe
        obtain ⟨_, _, rfl⟩ := hquiet
        exact hshaken hsafe i p hi hfind
      have hmoved := ht.of_move (E := Unsafe safe) hlt hp hmove' hshaken'
      rw [ewp_bind] at hmoved ⊢
      refine ewp_mono hmoved ?_ fun _ he => he
      intro _ t₁ hrest
      refine ewp_bind_of hrest ?_
      rintro _ t₂ ⟨hcur, q', ht₂⟩
      have hcur' : (t₂.gClients i).curStation = some p := hcur
      rw [ewp_bind, ewp_getClient, hcur']
      refine ewp_bind_of ewp_announce_quiet fun _ t₃ hquiet₃ => ?_
      have ht₃ := ht₂.quiet hquiet₃
      obtain ⟨st, hst⟩ := ht₃.stationed.exists_station hp
      exact ewp_bind_of (ewp_sendCurSong hst) fun _ t₄ hquiet₄ => ⟨q', ht₃.quiet hquiet₄⟩

/-! ### Requests -/

theorem ewp_sendStationSongs {E : Fault → Prop} (hst : s.stations p = some st) :
    ewp (sendStationSongs fd (some p)) (fun _ s' => Quiet s s') E s := by
  rw [sendStationSongs, ewp_bind, ewp_getStation hst]
  refine ewp_each_quiet fun song _ t ht => ?_
  exact ewp_mono ewp_announce_quiet (fun _ t' ht' => ht.trans ht') fun _ he => he

theorem ewp_sendAllLoop {E : Fault → Prop} {fuel k : Nat} (hl : Linked t.nextSt l)
    (halloc : ∀ p ∈ l, ∃ st, t.stations p = some st) (hfuel : l.length ≤ fuel) :
    ewp (sendAllLoop fd fuel k l.head?) (fun _ t' => Quiet t t') E t := by
  induction l generalizing fuel k t with
  | nil => cases fuel <;> exact .refl t
  | cons p l ih =>
      obtain ⟨fuel, rfl⟩ := Nat.exists_eq_add_one_of_ne_zero
        (Nat.ne_of_gt (Nat.lt_of_lt_of_le (Nat.succ_pos _) hfuel))
      obtain ⟨st, hst⟩ := halloc p List.mem_cons_self
      change ewp (sendAllLoop fd (fuel + 1) k (some p)) _ E t
      rw [sendAllLoop, ewp_bind, ewp_getStation hst, ← Server.nextSt_of_some hst, hl.1]
      refine ewp_bind_of ewp_announce_quiet fun _ t₁ hquiet => ?_
      obtain ⟨sends, out, rfl⟩ := hquiet
      refine ewp_mono (ih hl.2 (fun j hj => halloc j (List.mem_cons_of_mem p hj))
        (Nat.le_of_succ_le_succ hfuel)) ?_ fun _ he => he
      exact fun _ t' ht' => Quiet.trans ⟨sends, out, rfl⟩ ht'

theorem Inv.of_parseStationRequest {send : Option Nat → ServerM Unit} (h : Inv strict safe s q ps)
    (hslot : safe → ∃ i, slotOf s fd = some i)
    (hsend : ∀ p st t, t.stations p = some st →
      ewp (send (some p)) (fun _ t' => Quiet t t') (Unsafe safe) t) :
    ewp (parseStationRequest fd send) (fun _ s' => Inv strict safe s' q ps) (Unsafe safe) s := by
  refine ewp_findSlot hslot fun i hi => ?_
  refine ewp_checkHello (fun s' hquiet => h.quiet hquiet) fun t hquiet => ?_
  have ht := h.quiet hquiet
  rw [ewp_bind, ewp_getClient]
  cases hcur : (t.gClients i).curStation with
  | none =>
      rw [if_pos rfl]
      exact ewp_invalidOrReturn (fun _ hquiet => ht.quiet hquiet) fun _ hquiet => ht.quiet hquiet
  | some p =>
      obtain ⟨hp, -⟩ := ht.mem_of_cur hcur
      rw [if_neg (by exact nofun)]
      refine ewp_bind_of ewp_announce_quiet fun _ t₁ hquiet₁ => ?_
      have ht₁ := ht.quiet hquiet₁
      obtain ⟨st, hst⟩ := ht₁.stationed.exists_station hp
      exact ewp_bind_of (hsend p st t₁ hst) fun _ t₂ hquiet₂ => ht₁.quiet hquiet₂

/-- What a client that keeps to the protocol may send. -/
theorem Inv.of_parseAndSend {command : Option Received} (h : Inv strict safe s q ps)
    (hmode : strict ∨ safe) (hfd : fd ∈ s.master ∧ fd ≠ s.sockfd)
    (hudp : ∀ u, udp = some u → u ∉ s.openFds ∧ u ≠ 0)
    (hcalm : strict → (Event.read fd (.line command) udp).Calm s)
    (hpolite : safe → (Event.read fd (.line command) udp).Polite s) :
    ewp (parseAndSend fd udp command) (fun _ s' => ∃ q', Inv strict safe s' q' ps) (Unsafe safe)
      s := by
  have hslot : safe → ∃ i, slotOf s fd = some i ∧ (s.gClients i).state ≠ .noState :=
    fun hsafe => (h.connected hsafe).exists_slot hfd.1 hfd.2
  have hslot' : safe → ∃ i, slotOf s fd = some i := fun hsafe => (hslot hsafe).imp fun _ => And.left
  cases command with
  | none => exact ⟨q, h⟩
  | some command =>
      cases command with
      | hello port =>
          exact ewp_mono (h.of_parseHello hslot hpolite hudp) (fun _ s' hs' => ⟨q, hs'⟩) fun _ he => he
      | setStation n =>
          refine h.of_parseSetstation hslot' (fun i p hi hfind => ?_) fun hsafe i p hi hfind =>
            (hpolite hsafe i p hi hfind).1
          by_cases hstrict : strict
          · exact .inl (hcalm hstrict i p hi hfind)
          · refine (hpolite (hmode.resolve_left hstrict) i p hi hfind).2.imp_right fun hlast => ?_
            exact ⟨hstrict, hlast.1, hlast.2⟩
      | request reqType =>
          rw [parseAndSend]
          split
          · exact ewp_mono (h.of_parseStationRequest hslot' fun _ _ _ hst => ewp_sendStationSongs hst)
              (fun _ s' hs' => ⟨q, hs'⟩) fun _ he => he
          split
          · exact ewp_mono (h.of_parseStationRequest hslot' fun _ _ _ hst => ewp_sendCurSong hst)
              (fun _ s' hs' => ⟨q, hs'⟩) fun _ he => he
          split
          · refine ewp_bind_of ewp_announce_quiet fun _ t hquiet => ?_
            have ht := h.quiet hquiet
            have hall : ewp (sendAllLoop fd maxStationNum 0 ps.head?) (fun _ t' => Quiet t t')
                (Unsafe safe) t := ewp_sendAllLoop ht.stationed.listed.linked
              (fun p hp => ht.stationed.exists_station hp) ht.stationed.le
            rw [← ht.stationed.listed.head] at hall
            rw [ewp_bind, sendAllStationCurSong, ewp_bind, ewp_get]
            exact ewp_mono hall (fun _ t' hquiet' => ⟨q, ht.quiet hquiet'⟩) fun _ he => he
          · exact ⟨q, h⟩

/-! ### Connecting and leaving -/

theorem Inv.of_acceptClient (h : Inv strict safe s q ps) (hnew : newfd ∉ s.openFds)
    (hzero : newfd ≠ 0) (hpolite : safe → ∃ i < maxClientNum, (s.gClients i).state = .noState) :
    ewp (acceptClient newfd) (fun _ s' => Inv strict safe s' q ps) (Unsafe safe) s := by
  rw [acceptClient, ewp_bind, ewp_modify]
  set t : Server := { s with openFds := newfd :: s.openFds, master := newfd :: s.master } with ht
  have hslot : freeSlot t = freeSlot s := rfl
  rw [ewp_bind, ewp_of_ok (findFirstClient_apply t), hslot]
  cases hfirst : freeSlot s with
  | none =>
      rw [Option.elim_none, if_pos rfl]
      refine h.congr rfl rfl rfl (h.stationed.congr rfl rfl rfl rfl) (fun hsafe => ?_) fun _ hi => hi
      obtain ⟨i, hlt, hi⟩ := hpolite hsafe
      obtain ⟨j, hj⟩ := freeSlot_isSome hlt hi
      rw [hfirst] at hj
      cases hj
  | some i =>
      obtain ⟨hlt, hstate⟩ := freeSlot_some hfirst
      rw [Option.elim_some, if_neg (by omega), clientAt_natCast hlt, ewp_bind, ewp_pure,
        ewp_modifyClient]
      refine h.of_update rfl rfl rfl ?_ rfl rfl rfl rfl fun hsafe => ?_
      · rw [hstate]
        exact nofun
      · exact (h.connected hsafe).accept hlt hstate hnew hzero rfl rfl

/-- A client that is in no list is cleared. -/
theorem Inv.of_zeroed {home : Nat → Option Nat} {q₁ : Nat → List Nat} (h : Inv strict safe s q ps)
    (hl : Lists t q₁ home) (hhome : home = Function.update s.cur i none) (hcur : t.cur = s.cur)
    (hfree : ∀ j, s.cur j = none → t.nxt j = none)
    (hcounters : strict → ∀ p, (t.list p).counter = (q₁ p).length) (hstationed : Stationed t ps)
    (hclients : ∀ j, (t.gClients j).core = (s.gClients j).core)
    (hconnected : safe → Connected (t.putClient i .zero)) :
    Inv strict safe (t.putClient i .zero) q₁ ps := by
  have hcur' : (t.putClient i .zero).cur = home := by
    rw [hhome, ← hcur]
    funext j
    rw [Server.cur, Function.update_apply]
    split
    · rename_i hj
      rw [hj, Server.putClient_self]
      rfl
    · rename_i hj
      rw [Server.putClient_of_ne hj]
      rfl
  have hother (j : Nat) (hj : j ≠ i) : (t.putClient i .zero).nxt j = t.nxt j := by
    rw [Server.nxt, Server.putClient_of_ne hj]
    rfl
  refine ⟨?_, ?_, hstationed.congr rfl rfl rfl rfl, hcounters, hconnected, ?_⟩
  · refine ⟨fun p => (hl.listed p).congr fun j hj => hother j ?_, ?_, ?_⟩
    · rintro rfl
      have hin := (hl.mem p j).mp hj
      rw [hhome, Function.update_self] at hin
      cases hin
    · rw [hcur']
      exact hl.mem
    · rw [hcur']
      exact hl.lt
  · intro j hj
    by_cases hji : j = i
    · rw [hji, Server.nxt, Server.putClient_self]
      rfl
    · rw [hcur', hhome, Function.update_of_ne hji] at hj
      rw [hother j hji]
      exact hfree j hj
  · intro hsafe j p hj
    rw [hcur', hhome, Function.update_apply] at hj
    split at hj
    · cases hj
    · rename_i hji
      rw [Server.putClient_of_ne hji]
      rw [Clientinfo.congr_core Clientinfo.state (fun _ => rfl) (hclients j)]
      exact h.handshaked hsafe j p hj

/-- The slot of a client that is closed is cleared. -/
theorem Inv.of_closeClient (h : Inv strict safe s q ps) (hlt : i < maxClientNum)
    (hstate : safe → (s.gClients i).state = .handshaked) (hcalm : strict → s.cur i = none) :
    ewp (closeClient i) (fun _ s' => s'.gClients i = .zero ∧ ∃ q', Inv strict safe s' q' ps)
      (Unsafe safe) s := by
  have hrange : 0 ≤ (i : Int) ∧ (i : Int) < maxClientNum :=
    ⟨Int.natCast_nonneg i, Int.ofNat_lt.mpr hlt⟩
  rw [closeClient, ewp_bind]
  refine ewp_kassert_safe (fun _ => decide_eq_true hrange) fun _ => ?_
  rw [ewp_bind, ewp_getClient, Int.toNat_natCast, ewp_bind]
  refine ewp_kassert_safe (fun hsafe => decide_eq_true ?_) fun _ => ?_
  · exact ((h.connected hsafe).used i hlt (by rw [hstate hsafe]; exact nofun)).1
  rw [ewp_bind, closeFd, ewp_modify, ewp_bind]
  refine ewp_kassert_safe (fun hsafe => decide_eq_true ?_) fun _ => ?_
  · exact ((h.connected hsafe).udp i hlt (hstate hsafe)).1
  rw [ewp_bind, closeFd, ewp_modify, ewp_bind, ewp_modify, ewp_bind]
  set t : Server := { s with
    openFds := (s.openFds.filter (· ≠ (s.gClients i).socket)).filter (· ≠ (s.gClients i).udpSock)
    master := s.master.filter (· ≠ (s.gClients i).socket) } with ht
  have hstationed : Stationed t ps := h.stationed.congr rfl rfl rfl rfl
  have hlists : Lists t q s.cur := ⟨h.lists.listed, h.lists.mem, h.lists.lt⟩
  have hclosed : ∀ t₁ : Server, t₁.core = t.core → safe → Connected (t₁.putClient i .zero) := by
    intro t₁ hcore hsafe
    have hnet := Server.net_of_core hcore
    refine (h.connected hsafe).close hlt (hstate hsafe) ?_ (congrArg Prod.fst hnet) ?_ ?_
    · intro j
      split
      · rename_i hj
        rw [hj, Server.putClient_self]
        rfl
      · rename_i hj
        rw [Server.putClient_of_ne hj]
        exact Server.core_client hcore j
    · intro fd
      have hmaster : (t₁.putClient i .zero).master = t.master := congrArg (·.2.1) hnet
      rw [hmaster, ht, List.mem_filter, decide_eq_true_eq]
    · intro fd
      have hopen : (t₁.putClient i .zero).openFds = t.openFds := congrArg (·.2.2) hnet
      rw [hopen, ht, List.mem_filter, List.mem_filter, decide_eq_true_eq, decide_eq_true_eq, and_assoc]
  have hcases : s.cur i = none ∨ ∃ p₀, s.cur i = some p₀ := by
    cases s.cur i with
    | none => exact .inl rfl
    | some p₀ => exact .inr ⟨p₀, rfl⟩
  rcases hcases with hcur | ⟨p₀, hcur⟩
  · rw [ewp_of_ok (removeClientFromStation_none (s := t) hcur), ewp_setClient]
    refine ⟨Server.putClient_self, q, h.of_zeroed hlists ?_ rfl h.free h.counters hstationed
      (fun _ => rfl) (hclosed t rfl)⟩
    rw [Function.update_eq_self_iff.mpr hcur.symm]
  · obtain ⟨-, hi⟩ := h.mem_of_cur hcur
    refine ewp_mono (ewp_removeClientFromStation (s := t) (p := p₀) hlists hcur hi) ?_ fun _ he => he
    intro _ t₁ hremoved
    have hclients := Server.core_client hremoved.core
    rw [ewp_setClient]
    refine ⟨Server.putClient_self, _, h.of_zeroed (hremoved.lists hlists hi) rfl hremoved.cur ?_ ?_
      (hstationed.of_core hremoved.core) hclients (hclosed t₁ hremoved.core)⟩
    · intro j hj
      refine (hremoved.nxt j fun hin => ?_).trans (h.free j hj)
      rw [(h.lists.mem p₀ j).mp hin] at hj
      cases hj
    · intro hstrict
      rw [hcalm hstrict] at hcur
      cases hcur

end CodingSample.Snowcast
