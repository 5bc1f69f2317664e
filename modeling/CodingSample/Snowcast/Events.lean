import CodingSample.Snowcast.Clients

/-!
# One event

Every event keeps the invariant, and what it does when something goes wrong.
-/

namespace CodingSample.Snowcast

open Prog

variable {strict safe : Prop} {s s' t : Server} {q : Nat → List Nat} {ps : List Nat}
  {i p fd : Nat} {udp : Option Nat} {input : Input} {songs : List (List UInt8)}
  {song : List UInt8} {e : Event}

/-- The events after which the connection is gone. -/
def Input.Ends (input : Input) : Prop := ∀ command, input ≠ .line command

theorem Inv.of_readClient (h : Inv strict safe s q ps) (hmode : strict ∨ safe)
    (hfd : fd ∈ s.master ∧ fd ≠ s.sockfd) (hudp : ∀ u, udp = some u → u ∉ s.openFds ∧ u ≠ 0)
    (hcalm : strict → (Event.read fd input udp).Calm s)
    (hpolite : safe → (Event.read fd input udp).Polite s) :
    ewp (readClient fd udp input) (fun _ s' => (∃ q', Inv strict safe s' q' ps) ∧
      (input.Ends → ∃ i, slotOf s fd = some i ∧ s'.gClients i = .zero)) (Unsafe safe) s := by
  have hslot : safe → ∃ i, slotOf s fd = some i := by
    intro hsafe
    obtain ⟨i, hi, -⟩ := (h.connected hsafe).exists_slot hfd.1 hfd.2
    exact ⟨i, hi⟩
  have hclose : ∀ i, slotOf s fd = some i → (safe → (s.gClients i).state = .handshaked) →
      (strict → s.cur i = none) → ewp (closeClient i) (fun _ s' => (∃ q', Inv strict safe s' q' ps) ∧
        (input.Ends → ∃ i, slotOf s fd = some i ∧ s'.gClients i = .zero)) (Unsafe safe) s := by
    intro i hi hstate hcur
    refine ewp_mono (h.of_closeClient (slotOf_some hi).1 hstate hcur) ?_ fun _ he => he
    exact fun _ s' hs' => ⟨hs'.2, fun _ => ⟨i, hi, hs'.1⟩⟩
  have hnone : slotOf s fd = none → ¬ safe := by
    intro hi hsafe
    obtain ⟨i, hi'⟩ := hslot hsafe
    rw [hi] at hi'
    cases hi'
  cases input with
  | hangup =>
      rw [readClient, ewp_bind, ewp_of_ok (findClient_apply s fd), ewp_bind]
      cases hi : slotOf s fd with
      | none => exact ⟨nofun, hnone hi⟩
      | some i =>
          have hstate := fun hsafe => hpolite hsafe i hi
          have hclosed := hclose i hi hstate fun hstrict => hcalm hstrict i hi
          rw [hi] at hclosed
          rw [Option.elim_some, clientAt_natCast (slotOf_some hi).1, ewp_pure, ewp_bind, ewp_getClient]
          split
          · exact hclosed
          · rename_i haddr
            refine ⟨nofun, fun hsafe => haddr ?_⟩
            exact ((h.connected hsafe).udp i (slotOf_some hi).1 (hstate hsafe)).2.1
  | error =>
      rw [readClient, ewp_bind, ewp_of_ok (findClient_apply s fd)]
      cases hi : slotOf s fd with
      | none => exact ⟨nofun, hnone hi⟩
      | some i =>
          have hclosed := hclose i hi (fun hsafe => hpolite hsafe i hi) fun hstrict => hcalm hstrict i hi
          rw [hi] at hclosed
          exact hclosed
  | line command =>
      rw [readClient]
      refine ewp_bind_of (h.of_parseAndSend hmode hfd hudp hcalm hpolite) fun _ s' hs' => ?_
      exact ⟨hs', fun hends => absurd rfl (hends command)⟩

theorem stationOf_quiet (hs : Stationed s ps) (hquiet : Quiet s t) (id : Int) :
    stationOf t id = stationOf s id := by
  rw [(hquiet.stationed hs).stationOf_eq, hs.stationOf_eq, hquiet.idOf]

/-- A line of a client, or the end of the connection. -/
theorem Inv.of_read (h : Inv strict safe s q ps) (hmode : strict ∨ safe) (sends : List Bool)
    (henabled : (Event.read fd input udp).Enabled s)
    (hcalm : strict → (Event.read fd input udp).Calm s)
    (hpolite : safe → (Event.read fd input udp).Polite s) :
    ewp (Event.read fd input udp).prog (fun _ s' => (∃ q', Inv strict safe s' q' ps) ∧
      (input.Ends → ∃ i, slotOf s fd = some i ∧ s'.gClients i = .zero)) (Unsafe safe)
      { s with sends := sends, out := [] } := by
  set t : Server := { s with sends := sends, out := [] }
  have hquiet : Quiet s t := ⟨sends, [], rfl⟩
  have hstation := stationOf_quiet h.stationed hquiet
  have ht := h.quiet hquiet
  have hcalm' : strict → (Event.read fd input udp).Calm t := by
    intro hstrict
    have hcalm := hcalm hstrict
    unfold Event.Calm at hcalm ⊢
    simp only [hstation]
    exact hcalm
  have hpolite' : safe → (Event.read fd input udp).Polite t := by
    intro hsafe
    have hpolite := hpolite hsafe
    unfold Event.Polite at hpolite ⊢
    simp only [hstation]
    exact hpolite
  rw [Event.prog, ewp_bind]
  refine ewp_select ht.connected ?_
  refine ewp_bind_of (ht.of_readClient hmode ⟨henabled.1, henabled.2.1⟩ henabled.2.2 hcalm'
    hpolite') ?_
  exact fun _ s' hs' => hs'

/-! ### Commands of the user -/

theorem Inv.of_userAdd (h : Inv strict safe s q ps) (hfree : s.stations p = none)
    {E : Fault → Prop} :
    ewp (userAdd songs p) (fun _ s' => ∃ ps', Inv strict safe s' q ps') E s := by
  refine ewp_mono (ewp_userAdd h.stationed hfree) ?_ fun _ he => he
  rintro _ s' ⟨s₁, hquiet, rfl | ⟨hlt, hpushed⟩⟩
  · exact ⟨ps, h.quiet hquiet⟩
  have hclients : s₁.gClients = s.gClients := hpushed.gClients
  have hcur : s₁.cur = s.cur := by
    funext j
    rw [Server.cur, hclients]
    rfl
  have hnxt : s₁.nxt = s.nxt := by
    funext j
    rw [Server.nxt, hclients]
    rfl
  refine ⟨ps ++ [p], Inv.quiet ?_ hquiet⟩
  refine h.congr hcur hnxt (hpushed.list_eq hfree) (hpushed.stationed h.stationed hlt) ?_ ?_
  · exact fun hsafe => (h.connected hsafe).congr (fun j => by rw [hclients]) hpushed.net
  · intro j hj
    rw [hclients]
    exact hj

theorem Inv.of_freed (h : Inv strict safe s q ps) (hfreed : Freed s s' ps p (q p)) :
    Inv strict safe s' (Function.update q p []) (ps.erase p) := by
  have hlists := hfreed.lists h.lists
  obtain ⟨s₁, hdismissed, hdropped⟩ := hfreed
  have hcur (j : Nat) : s'.cur j = if s.cur j = some p then none else s.cur j := by
    rw [Server.cur, hdropped.gClients]
    refine (hdismissed.cur j).trans ?_
    simp only [h.lists.mem]
  have hnxt (j : Nat) : s'.nxt j = if s.cur j = some p then none else s.nxt j := by
    rw [Server.nxt, hdropped.gClients]
    refine (hdismissed.nxt j).trans ?_
    simp only [h.lists.mem]
  have hclients (j : Nat) : (s'.gClients j).core = (s.gClients j).core := by
    rw [hdropped.gClients]
    exact Server.core_client hdismissed.core j
  have hnet : s'.net = s.net := hdropped.net.trans (Server.net_of_core hdismissed.core)
  refine ⟨?_, ?_, hdropped.stationed, ?_, ?_, ?_⟩
  · rw [← funext hcur] at hlists
    exact hlists
  · intro j hj
    rw [hcur] at hj
    rw [hnxt]
    split at hj
    · rename_i hp
      rw [if_pos hp]
    · rename_i hp
      rw [if_neg hp]
      exact h.free j hj
  · intro hstrict j
    rw [hdropped.list, Function.update_apply, Function.update_apply]
    split
    · rfl
    · rename_i hj
      rw [hdismissed.others j hj]
      exact h.counters hstrict j
  · exact fun hsafe => (h.connected hsafe).congr hclients hnet
  · intro hsafe j p' hj
    rw [hcur] at hj
    rw [Clientinfo.congr_core Clientinfo.state (fun _ => rfl) (hclients j)]
    split at hj
    · cases hj
    · exact h.handshaked hsafe j p' hj

/-- The only fault of the command `d`. -/
def Miscounted (strict : Prop) (f : Fault) : Prop := f = .counter ∧ ¬ strict

theorem Inv.of_userDelete {tokens : List (List Char)} (h : Inv strict safe s q ps) :
    ewp (userDelete tokens) (fun _ s' => ∃ q' ps', Inv strict safe s' q' ps') (Miscounted strict)
      s := by
  refine ewp_each (I := fun _ t => ∃ q' ps', Inv strict safe t q' ps') ⟨q, ps, h⟩ ?_
  rintro token _ t ⟨q', ps', ht⟩
  refine ewp_mono (ewp_deleteToken ht.stationed ht.lists ?_) ?_ fun _ he => he
  · intro p _ hne
    exact ⟨rfl, fun hstrict => hne (ht.counters hstrict p)⟩
  · rintro _ t' (⟨rfl, -⟩ | ⟨p, -, -, hfreed⟩)
    · exact ⟨q', ps', ht⟩
    · exact ⟨_, _, ht.of_freed hfreed⟩

/-! ### Song threads -/

/-- The client can get a packet and a message. -/
def Clientinfo.Ready (c : Clientinfo) : Prop :=
  c.state = .handshaked ∧ c.socket ≠ 0 ∧ c.udpSock ≠ 0 ∧ c.udpAddrinfo = true

theorem Inv.ready (h : Inv strict safe s q ps) (hsafe : safe) (hcur : s.cur i = some p) :
    (s.gClients i).Ready := by
  have hlt := h.lists.lt i p hcur
  have hstate := h.handshaked hsafe i p hcur
  have hused := (h.connected hsafe).used i hlt (by rw [hstate]; exact nofun)
  have hudp := (h.connected hsafe).udp i hlt hstate
  exact ⟨hstate, hused.1, hudp.1, hudp.2.1⟩

section Songs

variable {ready : Prop}

/-- A packet reaches the clients of the station. -/
theorem Inv.of_playPacket (h : Inv strict safe s q ps) (hp : s.stations p ≠ none)
    (hready : ready → ∀ i, s.cur i = some p → (s.gClients i).Ready) :
    ewp (playPacket p) (fun r s' => r = q p ∧ Quiet s s') (Unsafe ready) s := by
  obtain ⟨st, hst⟩ := Option.ne_none_iff_exists'.mp hp
  have hlisted := h.lists.listed p
  rw [Server.list_of_some hst] at hlisted
  rw [playPacket, ewp_bind, ewp_getStation hst, hlisted.head]
  refine ewp_playLoop (.refl s) hlisted.linked (h.lists.length_le p) fun c hc t ht => ?_
  have hclient := fun h' => hready h' c ((h.lists.mem p c).mp hc)
  rw [sendPacket, ewp_bind]
  refine ewp_kassert_safe (fun h' => decide_eq_true (hclient h').1) fun _ => ?_
  rw [ewp_bind]
  refine ewp_kassert_safe (fun h' => decide_eq_true (hclient h').2.2.1) fun _ => ?_
  split
  · exact ht
  · rename_i haddr
    exact ⟨nofun, fun h' => haddr (hclient h').2.2.2⟩

theorem Inv.of_playNextSong (h : Inv strict safe s q ps) (hp : s.stations p ≠ none)
    (hready : ready → ∀ i, s.cur i = some p → (s.gClients i).Ready) :
    ewp (playNextSong p song) (fun r s' => r = q p ∧ Inv strict safe s' q ps) (Unsafe ready) s := by
  obtain ⟨st, hst⟩ := Option.ne_none_iff_exists'.mp hp
  rw [playNextSong, ewp_bind, ewp_modifyStation hst]
  have ht : Inv strict safe (s.putStation p (some { st with curSong := some song })) q ps :=
    h.putStation hst rfl rfl
  set t := s.putStation p (some { st with curSong := some song })
  change ewp _ _ _ t
  have htp : t.stations p ≠ none := by
    rw [Ne, ← Option.not_isSome_iff_eq_none, not_not, Server.isSome_putStation, if_pos rfl]
    rfl
  refine ewp_bind_of (ht.of_playPacket htp hready) ?_
  rintro r t₁ ⟨rfl, hquiet⟩
  have ht₁ := ht.quiet hquiet
  have hready₁ : ready → ∀ i, t₁.cur i = some p → (t₁.gClients i).Ready := by
    obtain ⟨_, _, rfl⟩ := hquiet
    exact hready
  have hstation : t₁.stations p = some { st with curSong := some song } := by
    obtain ⟨_, _, rfl⟩ := hquiet
    exact Function.update_self ..
  have hlisted := ht₁.lists.listed p
  rw [Server.list_of_some hstation] at hlisted
  rw [ewp_bind, ewp_getStation hstation, hlisted.head]
  refine ewp_bind_of (ewp_playLoop (.refl t₁) hlisted.linked (ht₁.lists.length_le p)
    fun c hc t₂ ht₂ => ?_) fun _ t₃ ht₃ => ⟨rfl, ht₁.quiet ht₃.2⟩
  have hclient := fun h' => hready₁ h' c ((ht₁.lists.mem p c).mp hc)
  rw [announceSong, ewp_bind]
  refine ewp_kassert_safe (fun h' => decide_eq_true (hclient h').1) fun _ => ?_
  rw [ewp_bind]
  refine ewp_kassert_safe (fun h' => decide_eq_true (hclient h').2.1) fun _ => ?_
  exact ewp_mono ewp_announce_quiet (fun _ t' ht' => ht₂.trans ht') fun _ he => he

end Songs

theorem Inv.of_startSong (h : Inv strict safe s q ps) (hp : s.stations p ≠ none)
    {E : Fault → Prop} : ewp (startSong p) (fun _ s' => Inv strict safe s' q ps) E s := by
  obtain ⟨st, hst⟩ := Option.ne_none_iff_exists'.mp hp
  rw [startSong, ewp_modifyStation hst]
  exact h.putStation hst rfl rfl

/-! ### All events -/

/-- How an event can go wrong in the two modes. -/
def Event.Stops (strict safe : Prop) : Event → Fault → Prop
  | delete _ => Miscounted strict
  | _ => Unsafe safe

/-- The invariant in some lists. -/
def Kept (strict safe : Prop) (s : Server) : Prop := ∃ q ps, Inv strict safe s q ps

theorem Kept.step (h : Kept strict safe s) (hmode : strict ∨ safe) (sends : List Bool)
    (henabled : e.Enabled s) (hcalm : strict → e.Calm s) (hpolite : safe → e.Polite s) :
    ewp e.prog (fun _ s' => Kept strict safe s') (e.Stops strict safe)
      { s with sends := sends, out := [] } := by
  obtain ⟨q, ps, h⟩ := h
  set t : Server := { s with sends := sends, out := [] }
  have ht : Inv strict safe t q ps := h.quiet ⟨sends, [], rfl⟩
  cases e with
  | accept newfd =>
      rw [Event.prog, ewp_bind]
      refine ewp_select ht.connected ?_
      refine ewp_bind_of (ht.of_acceptClient henabled.1 henabled.2 hpolite) fun _ s' hs' => ?_
      exact ⟨q, ps, hs'⟩
  | read fd input udp =>
      refine ewp_mono (h.of_read hmode sends henabled hcalm hpolite) ?_ fun _ he => he
      rintro _ s' ⟨⟨q', hs'⟩, -⟩
      exact ⟨q', ps, hs'⟩
  | add songs p =>
      refine ewp_bind_of (ht.of_userAdd henabled.2.2) ?_
      rintro _ s' ⟨ps', hs'⟩
      exact ⟨q, ps', hs'⟩
  | delete tokens =>
      refine ewp_bind_of ht.of_userDelete ?_
      exact fun _ s' hs' => hs'
  | start p =>
      refine ewp_bind_of (ht.of_startSong henabled) fun _ s' hs' => ?_
      exact ⟨q, ps, hs'⟩
  | packet p =>
      refine ewp_mono (ht.of_playPacket henabled fun hsafe _ => ht.ready hsafe) ?_ fun _ he => he
      rintro _ s' ⟨-, hquiet⟩
      exact ⟨q, ps, ht.quiet hquiet⟩
  | nextSong p song =>
      obtain ⟨st, hst, -⟩ := henabled
      have hp : t.stations p ≠ none := by
        change s.stations p ≠ none
        rw [hst]
        exact nofun
      refine ewp_mono (ht.of_playNextSong hp fun hsafe _ => ht.ready hsafe) ?_ fun _ he => he
      rintro _ s' ⟨-, hs'⟩
      exact ⟨q, ps, hs'⟩

end CodingSample.Snowcast
