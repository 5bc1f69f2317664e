import CodingSample.Snowcast.Reached

/-!
# The descriptors of the clients

The slots of `g_clients` against the open sockets and the set that `select` waits for, and what
accepting, greeting and closing a client do to them.
-/

namespace CodingSample.Snowcast

open Prog

/-- The slot that `find_client` finds for a connection. -/
def slotOf (s : Server) (fd : Nat) : Option Nat :=
  (List.range maxClientNum).find? fun i => (s.gClients i).socket = fd

/-- The slot that `find_first_client` finds. -/
def freeSlot (s : Server) : Option Nat :=
  (List.range maxClientNum).find? fun i => (s.gClients i).state = .noState

/-- Every connection has a slot of its own, and a client that has said hello has an open UDP
socket. -/
structure Connected (s : Server) : Prop where
  unused : ∀ i < maxClientNum, (s.gClients i).state = .noState → (s.gClients i).core = .zero
  used : ∀ i < maxClientNum, (s.gClients i).state ≠ .noState →
    (s.gClients i).socket ≠ 0 ∧ (s.gClients i).ipAddress ∧ (s.gClients i).socket ≠ s.sockfd ∧
      (s.gClients i).socket ∈ s.openFds
  distinct : ∀ i < maxClientNum, ∀ j < maxClientNum, (s.gClients i).state ≠ .noState →
    (s.gClients j).state ≠ .noState → (s.gClients i).socket = (s.gClients j).socket → i = j
  udp : ∀ i < maxClientNum, (s.gClients i).state = .handshaked →
    (s.gClients i).udpSock ≠ 0 ∧ (s.gClients i).udpAddrinfo ∧ (s.gClients i).udpSock ≠ s.sockfd ∧
      (s.gClients i).udpSock ∈ s.openFds
  udpDistinct : ∀ i < maxClientNum, ∀ j < maxClientNum, (s.gClients i).state = .handshaked →
    (s.gClients j).state = .handshaked → (s.gClients i).udpSock = (s.gClients j).udpSock → i = j
  apart : ∀ i < maxClientNum, ∀ j < maxClientNum, (s.gClients i).state = .handshaked →
    (s.gClients j).state ≠ .noState → (s.gClients i).udpSock ≠ (s.gClients j).socket
  master : ∀ fd ∈ s.master, fd = s.sockfd ∨
    ∃ i < maxClientNum, (s.gClients i).state ≠ .noState ∧ (s.gClients i).socket = fd
  listening : s.sockfd ∈ s.openFds

variable {s s' : Server} {i fd newfd : Nat} {c : Clientinfo}

theorem Clientinfo.congr_core {β : Type} {c c' : Clientinfo} (f : Clientinfo → β)
    (hf : ∀ c, f c.core = f c) (h : c'.core = c.core) : f c' = f c := by
  rw [← hf c', h, hf]

/-! ### Slots -/

theorem slotOf_some (h : slotOf s fd = some i) : i < maxClientNum ∧ (s.gClients i).socket = fd := by
  have hsocket := List.find?_some h
  rw [decide_eq_true_eq] at hsocket
  exact ⟨List.mem_range.mp (List.mem_of_find?_eq_some h), hsocket⟩

theorem findClient_apply (s : Server) (fd : Nat) :
    findClient fd s = .ok ((slotOf s fd).elim (-1) Nat.cast, s) := by
  rw [findClient, bind_eq_of_ok (get_apply s), slotOf]
  cases (List.range maxClientNum).find? fun i => (s.gClients i).socket = fd <;> rfl

theorem clientAt_natCast (hlt : i < maxClientNum) : clientAt (i : Int) = pure i :=
  if_pos ⟨Int.natCast_nonneg i, Int.ofNat_lt.mpr hlt⟩

theorem freeSlot_some (h : freeSlot s = some i) :
    i < maxClientNum ∧ (s.gClients i).state = .noState := by
  have hstate := List.find?_some h
  rw [decide_eq_true_eq] at hstate
  exact ⟨List.mem_range.mp (List.mem_of_find?_eq_some h), hstate⟩

theorem freeSlot_isSome (hlt : i < maxClientNum) (hi : (s.gClients i).state = .noState) :
    ∃ j, freeSlot s = some j := by
  refine Option.isSome_iff_exists.mp (List.find?_isSome.mpr ⟨i, List.mem_range.mpr hlt, ?_⟩)
  exact decide_eq_true hi

theorem findFirstClient_apply (s : Server) :
    findFirstClient s = .ok ((freeSlot s).elim (-1) Nat.cast, s) := by
  rw [findFirstClient, bind_eq_of_ok (get_apply s), freeSlot]
  cases (List.range maxClientNum).find? fun i => (s.gClients i).state = .noState <;> rfl

namespace Connected

theorem congr (h : Connected s) (hclients : ∀ i, (s'.gClients i).core = (s.gClients i).core)
    (hnet : s'.net = s.net) : Connected s' := by
  have hstate (i) : (s'.gClients i).state = (s.gClients i).state :=
    Clientinfo.congr_core Clientinfo.state (fun _ => rfl) (hclients i)
  have hsocket (i) : (s'.gClients i).socket = (s.gClients i).socket :=
    Clientinfo.congr_core Clientinfo.socket (fun _ => rfl) (hclients i)
  have hip (i) : (s'.gClients i).ipAddress = (s.gClients i).ipAddress :=
    Clientinfo.congr_core Clientinfo.ipAddress (fun _ => rfl) (hclients i)
  have hudp (i) : (s'.gClients i).udpSock = (s.gClients i).udpSock :=
    Clientinfo.congr_core Clientinfo.udpSock (fun _ => rfl) (hclients i)
  have haddr (i) : (s'.gClients i).udpAddrinfo = (s.gClients i).udpAddrinfo :=
    Clientinfo.congr_core Clientinfo.udpAddrinfo (fun _ => rfl) (hclients i)
  have hsockfd : s'.sockfd = s.sockfd := congrArg Prod.fst hnet
  have hmaster : s'.master = s.master := congrArg (·.2.1) hnet
  have hopen : s'.openFds = s.openFds := congrArg (·.2.2) hnet
  constructor <;> simp only [hclients, hstate, hsocket, hip, hudp, haddr, hsockfd, hmaster, hopen]
  · exact h.unused
  · exact h.used
  · exact h.distinct
  · exact h.udp
  · exact h.udpDistinct
  · exact h.apart
  · exact h.master
  · exact h.listening

theorem of_core (h : Connected s) (hcore : s'.core = s.core) : Connected s' :=
  h.congr (Server.core_client hcore) (Server.net_of_core hcore)

/-- Every descriptor that `select` waits for is open. -/
theorem open_of_master (h : Connected s) (hfd : fd ∈ s.master) : fd ∈ s.openFds := by
  rcases h.master fd hfd with rfl | ⟨i, hi, hused, rfl⟩
  · exact h.listening
  · exact (h.used i hi hused).2.2.2

theorem exists_slot (h : Connected s) (hfd : fd ∈ s.master) (hne : fd ≠ s.sockfd) :
    ∃ i, slotOf s fd = some i ∧ (s.gClients i).state ≠ .noState := by
  obtain ⟨j, hj, hused, hsocket⟩ := (h.master fd hfd).resolve_left hne
  have hzero := (h.used j hj hused).1
  cases hslot : slotOf s fd with
  | none =>
      have hnot := List.find?_eq_none.mp hslot j (List.mem_range.mpr hj)
      exact absurd (decide_eq_true hsocket) hnot
  | some i =>
      obtain ⟨hi, hi'⟩ := slotOf_some hslot
      refine ⟨i, rfl, fun hunused => hzero ?_⟩
      have hcore := congrArg Clientinfo.socket (h.unused i hi hunused)
      change (s.gClients i).socket = 0 at hcore
      rw [hsocket, ← hi', hcore]

/-- A client is accepted in an unused slot. -/
theorem accept (h : Connected s) (hlt : i < maxClientNum) (hi : (s.gClients i).state = .noState)
    (hnew : newfd ∉ s.openFds) (hzero : newfd ≠ 0)
    (hclients : s'.gClients = Function.update s.gClients i
      { s.gClients i with state := .initState, socket := newfd, ipAddress := true })
    (hnet : s'.net = (s.sockfd, newfd :: s.master, newfd :: s.openFds)) : Connected s' := by
  have hsockfd : s'.sockfd = s.sockfd := congrArg Prod.fst hnet
  have hmaster : s'.master = newfd :: s.master := congrArg (·.2.1) hnet
  have hopen : s'.openFds = newfd :: s.openFds := congrArg (·.2.2) hnet
  have hself : s'.gClients i =
      { s.gClients i with state := .initState, socket := newfd, ipAddress := true } := by
    rw [hclients, Function.update_self]
  have hother : ∀ j, j ≠ i → s'.gClients j = s.gClients j := by
    intro j hj
    rw [hclients, Function.update_of_ne hj]
  have hused := h.used
  have hlistening := h.listening
  constructor
  · intro j hj
    have := h.unused j hj
    grind
  · intro j hj
    have := h.used j hj
    grind
  · intro j hj k hk
    have := h.distinct j hj k hk
    grind
  · intro j hj
    have := h.udp j hj
    grind
  · intro j hj k hk
    have := h.udpDistinct j hj k hk
    grind
  · intro j hj k hk
    have := h.apart j hj k hk
    have := h.udp j hj
    grind
  · intro fd hfd
    rw [hmaster] at hfd
    have := h.master fd
    grind
  · grind

/-- A client that says hello gets a UDP socket. -/
theorem greet {u : Nat} (h : Connected s) (hlt : i < maxClientNum)
    (hi : (s.gClients i).state = .initState) (hnew : u ∉ s.openFds) (hzero : u ≠ 0)
    (hclients : s'.gClients = Function.update s.gClients i c)
    (hc : c.state = .handshaked ∧ c.socket = (s.gClients i).socket ∧
      c.ipAddress = (s.gClients i).ipAddress ∧ c.udpSock = u ∧ c.udpAddrinfo = true)
    (hnet : s'.net = (s.sockfd, s.master, u :: s.openFds)) : Connected s' := by
  have hsockfd : s'.sockfd = s.sockfd := congrArg Prod.fst hnet
  have hmaster : s'.master = s.master := congrArg (·.2.1) hnet
  have hopen : s'.openFds = u :: s.openFds := congrArg (·.2.2) hnet
  have hself : s'.gClients i = c := by
    rw [hclients, Function.update_self]
  have hother : ∀ j, j ≠ i → s'.gClients j = s.gClients j := by
    intro j hj
    rw [hclients, Function.update_of_ne hj]
  have hused := h.used
  have hudp := h.udp
  have hlistening := h.listening
  constructor
  · intro j hj
    have := h.unused j hj
    grind
  · intro j hj
    grind
  · intro j hj k hk
    have := h.distinct j hj k hk
    grind
  · intro j hj
    grind
  · intro j hj k hk
    have := h.udpDistinct j hj k hk
    grind
  · intro j hj k hk
    have := h.apart j hj k hk
    grind
  · intro fd hfd
    rw [hmaster] at hfd
    have := h.master fd hfd
    grind
  · grind

/-- A client is closed. -/
theorem close (h : Connected s) (hlt : i < maxClientNum) (hi : (s.gClients i).state = .handshaked)
    (hclients : ∀ j, (s'.gClients j).core = if j = i then .zero else (s.gClients j).core)
    (hsockfd : s'.sockfd = s.sockfd)
    (hmaster : ∀ fd, fd ∈ s'.master ↔ fd ∈ s.master ∧ fd ≠ (s.gClients i).socket)
    (hopen : ∀ fd, fd ∈ s'.openFds ↔
      fd ∈ s.openFds ∧ fd ≠ (s.gClients i).socket ∧ fd ≠ (s.gClients i).udpSock) :
    Connected s' := by
  have hself : (s'.gClients i).core = .zero := by
    rw [hclients, if_pos rfl]
  have hstate : (s'.gClients i).state = .noState :=
    Clientinfo.congr_core Clientinfo.state (fun _ => rfl) (c := .zero) hself
  have hother (j : Nat) (hj : j ≠ i) : (s'.gClients j).core = (s.gClients j).core := by
    rw [hclients, if_neg hj]
  have hstate' (j : Nat) (hj : j ≠ i) : (s'.gClients j).state = (s.gClients j).state :=
    Clientinfo.congr_core Clientinfo.state (fun _ => rfl) (hother j hj)
  have hsocket (j : Nat) (hj : j ≠ i) : (s'.gClients j).socket = (s.gClients j).socket :=
    Clientinfo.congr_core Clientinfo.socket (fun _ => rfl) (hother j hj)
  have hip (j : Nat) (hj : j ≠ i) : (s'.gClients j).ipAddress = (s.gClients j).ipAddress :=
    Clientinfo.congr_core Clientinfo.ipAddress (fun _ => rfl) (hother j hj)
  have hudp (j : Nat) (hj : j ≠ i) : (s'.gClients j).udpSock = (s.gClients j).udpSock :=
    Clientinfo.congr_core Clientinfo.udpSock (fun _ => rfl) (hother j hj)
  have haddr (j : Nat) (hj : j ≠ i) : (s'.gClients j).udpAddrinfo = (s.gClients j).udpAddrinfo :=
    Clientinfo.congr_core Clientinfo.udpAddrinfo (fun _ => rfl) (hother j hj)
  have hisocket := h.used i hlt
  have hiudp := h.udp i hlt hi
  have hlistening := h.listening
  constructor
  · intro j hj
    have := h.unused j hj
    grind
  · intro j hj
    have := h.used j hj
    have := h.distinct j hj i hlt
    have := h.apart i hlt j hj
    grind
  · intro j hj k hk
    have := h.distinct j hj k hk
    grind
  · intro j hj
    have := h.udp j hj
    have := h.udpDistinct j hj i hlt
    have := h.apart j hj i hlt
    grind
  · intro j hj k hk
    have := h.udpDistinct j hj k hk
    grind
  · intro j hj k hk
    have := h.apart j hj k hk
    grind
  · intro fd hfd
    have := h.master fd
    grind
  · grind

theorem init (sockfd : Nat) : Connected (Server.init sockfd) := by
  constructor
  · exact fun _ _ _ => rfl
  · exact fun _ _ hne => absurd rfl hne
  · exact fun _ _ _ _ hne => absurd rfl hne
  · exact nofun
  · exact nofun
  · exact nofun
  · intro fd hfd
    exact .inl (List.mem_singleton.mp hfd)
  · exact List.mem_singleton_self sockfd

end Connected

end CodingSample.Snowcast
