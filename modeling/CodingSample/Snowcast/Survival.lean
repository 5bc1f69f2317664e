import CodingSample.Snowcast.Membership

/-!
# The server survives

As long as the clients keep to the protocol, no event goes wrong, every client of a station can get
a packet, and the slot of a client that left can be used again.
-/

namespace CodingSample.Snowcast

open Prog

variable {s s' : Server} {i j fd newfd : Nat} {sends : List Bool} {input : Input}
  {udp : Option Nat}

theorem freeSlot_le (h : freeSlot s = some j) (hi : (s.gClients i).state = .noState) : j ≤ i := by
  by_contra hlt
  have hnot := (List.find?_range_eq_some.mp h).2.2 i (Nat.lt_of_not_le hlt)
  rw [hi] at hnot
  exact absurd hnot (by decide)

/-- A new connection gets the first unused slot. -/
theorem Connected.accept_run (h : Connected s) (hslot : freeSlot s = some i) :
    ∃ r s', (Event.accept newfd).run s sends = .ok (r, s') ∧
      (s'.gClients i).state = .initState ∧ (s'.gClients i).socket = newfd := by
  set t : Server := { s with sends := sends, out := [] } with ht
  have hrun : ewp (Event.accept newfd).prog (fun _ s' => (s'.gClients i).state = .initState ∧
      (s'.gClients i).socket = newfd) (Unsafe True) t := by
    rw [Event.prog, ewp_bind]
    refine ewp_select (fun _ => h.congr (fun _ => rfl) rfl) ?_
    rw [ewp_bind, acceptClient, ewp_bind, ewp_modify]
    set t' : Server := { t with openFds := newfd :: t.openFds, master := newfd :: t.master }
    have hfirst : freeSlot t' = some i := hslot
    rw [ewp_bind, ewp_of_ok (findFirstClient_apply t'), hfirst, Option.elim_some,
      if_neg (by omega), clientAt_natCast (freeSlot_some hslot).1, ewp_bind, ewp_pure,
      ewp_modifyClient, ewp_pure, Server.putClient_self]
    exact ⟨rfl, rfl⟩
  exact wp_of_ewp hrun fun _ he => he.2 trivial

theorem survival {sockfd : Nat} (h : Reached (fun s e => e.Polite s) (Server.init sockfd) s) :
    (∀ (e : Event) sends f, e.Enabled s → e.Polite s → e.run s sends = .error f →
      f = .counter ∧ ∃ tokens, e = .delete tokens) ∧
    (∃ q : Nat → List Nat, ∀ p,
      Listed s.nxt (s.list p).headClients (s.list p).tailClients (q p) ∧
        ∀ i ∈ q p, (s.gClients i).Ready ∧ (s.gClients i).udpSock ∈ s.openFds) ∧
    ∀ fd input udp sends r s', (Event.read fd input udp).Enabled s →
      (Event.read fd input udp).Polite s → input.Ends →
      (Event.read fd input udp).run s sends = .ok (r, s') →
      ∃ i, slotOf s fd = some i ∧ s'.gClients i = .zero ∧
        ∀ newfd sends', (Event.accept newfd).Enabled s' → ∃ j ≤ i, ∃ r' s'',
          (Event.accept newfd).run s' sends' = .ok (r', s'') ∧
            (s''.gClients j).state = .initState ∧ (s''.gClients j).socket = newfd := by
  have hkept : Kept False True s :=
    Kept.reached h (.inr trivial) (fun _ _ _ => False.elim) fun _ _ hok _ => hok
  obtain ⟨q, ps, hinv⟩ := hkept
  have hconnected := hinv.connected trivial
  refine ⟨?_, ⟨q, fun p => ⟨hinv.lists.listed p, fun i hi => ?_⟩⟩, ?_⟩
  · intro e sends f henabled hpolite hrun
    have hstep := Kept.step ⟨q, ps, hinv⟩ (.inr trivial) sends henabled False.elim fun _ => hpolite
    unfold ewp at hstep
    unfold Event.run at hrun
    rw [hrun] at hstep
    cases e with
    | delete tokens => exact ⟨hstep.1, tokens, rfl⟩
    | add songs p => exact absurd trivial hstep.2
    | accept newfd => exact absurd trivial hstep.2
    | read fd input udp => exact absurd trivial hstep.2
    | start p => exact absurd trivial hstep.2
    | packet p => exact absurd trivial hstep.2
    | nextSong p song => exact absurd trivial hstep.2
  · have hcur := (hinv.lists.mem p i).mp hi
    have hready := hinv.ready trivial hcur
    exact ⟨hready, (hconnected.udp i (hinv.lists.lt i p hcur) hready.1).2.2.2⟩
  · intro fd input udp sends r s' henabled hpolite hends hrun
    have hread := hinv.of_read (.inr trivial) sends henabled False.elim fun _ => hpolite
    obtain ⟨⟨q', hinv'⟩, hzero⟩ := (ewp_of_ok hrun).mp hread
    obtain ⟨i, hi, hcleared⟩ := hzero hends
    refine ⟨i, hi, hcleared, fun newfd sends' _ => ?_⟩
    have hunused : (s'.gClients i).state = .noState := congrArg Clientinfo.state hcleared
    obtain ⟨j, hj⟩ := freeSlot_isSome (slotOf_some hi).1 hunused
    exact ⟨j, freeSlot_le hj hunused, (hinv'.connected trivial).accept_run hj⟩

/-- A client that has said hello, takes a station and leaves. -/
theorem survival_seated : ∃ q : Nat → List Nat, ∀ p,
    Listed seated.nxt (seated.list p).headClients (seated.list p).tailClients (q p) ∧
      ∀ i ∈ q p, (seated.gClients i).Ready ∧ (seated.gClients i).udpSock ∈ seated.openFds := by
  have hreached := oneClient_reached (fun s e => e.Polite s) (fun _ _ _ => trivial)
    ⟨0, by decide, rfl⟩ fun _ _ _ _ _ _ _ => nofun
  have hslot : slotOf oneClient 5 = some 0 := by decide
  have hpolite : (Event.read 5 (.line (some (.setStation 0))) none).Polite oneClient := by
    intro i p hi _
    obtain rfl : i = 0 := Option.some.inj (hi.symm.trans hslot)
    exact ⟨rfl, .inl rfl⟩
  have hseated := hreached.after (e := .read 5 (.line (some (.setStation 0))) none)
    ⟨by decide, by decide, nofun⟩ hpolite rfl
  exact (survival hseated).2.1

/-- A client that disconnects before its hello has no UDP address. -/
theorem disconnect_before_hello :
    Reached (fun _ _ => True) (Server.init 3) ((Server.init 3).after (.accept 5)) ∧
      (Event.read 5 .hangup none).Enabled ((Server.init 3).after (.accept 5)) ∧
      (Event.read 5 .hangup none).run ((Server.init 3).after (.accept 5)) [] =
        .error .nullAddrinfo := by
  refine ⟨?_, ⟨by decide, by decide, nofun⟩, rfl⟩
  exact Reached.init.after (e := .accept 5) ⟨by decide, by decide⟩ trivial rfl

end CodingSample.Snowcast
