import CodingSample.Snowcast.Events

/-!
# Station membership

`remove_client_from_station` leaves the counter of the station and the links of the client as they
are, so the lists are right as long as no client that has a station takes another one or leaves.
-/

namespace CodingSample.Snowcast

open Prog

variable {s : Server} {p i : Nat} {e : Event}

/-- The lists `q` of the stations `ps` hold each client once, in the list of its station. -/
structure Members (s : Server) (q : Nat → List Nat) (ps : List Nat) : Prop where
  stationed : Stationed s ps
  listed : ∀ p ∈ ps, Listed s.nxt (s.list p).headClients (s.list p).tailClients (q p)
  counter : ∀ p ∈ ps, (s.list p).counter = (q p).length
  mem : ∀ p ∈ ps, ∀ i, i ∈ q p ↔ s.cur i = some p
  disjoint : ∀ p ∈ ps, ∀ p' ∈ ps, ∀ i, i ∈ q p → i ∈ q p' → p = p'
  current : ∀ i p, s.cur i = some p → p ∈ ps

theorem Inv.members {strict safe : Prop} {q : Nat → List Nat} {ps : List Nat}
    (h : Inv strict safe s q ps) (hstrict : strict) : Members s q ps := by
  refine ⟨h.stationed, fun p _ => h.lists.listed p, fun p _ => h.counters hstrict p,
    fun p _ => h.lists.mem p, ?_, fun i p hi => (h.mem_of_cur hi).1⟩
  intro p _ p' _ i hi hi'
  have hcur := (h.lists.mem p i).mp hi
  rw [(h.lists.mem p' i).mp hi'] at hcur
  exact (Option.some.inj hcur).symm

/-- A song thread of the station sends a packet. -/
def Event.Plays (p : Nat) : Event → Prop
  | packet p' => p' = p
  | nextSong p' _ => p' = p
  | _ => False

theorem Inv.of_plays {strict safe : Prop} {q : Nat → List Nat} {ps : List Nat} (ready : Prop)
    (h : Inv strict safe s q ps) (henabled : e.Enabled s) (hplays : e.Plays p)
    (hready : ready → ∀ i, s.cur i = some p → (s.gClients i).Ready) :
    ewp e.prog (fun r _ => r = q p) (Unsafe ready) s := by
  cases e with
  | packet p' =>
      obtain rfl : p' = p := hplays
      exact ewp_mono (h.of_playPacket henabled hready) (fun _ _ hr => hr.1) fun _ he => he
  | nextSong p' song =>
      obtain rfl : p' = p := hplays
      obtain ⟨st, hst, -⟩ := henabled
      have hp : s.stations p' ≠ none := by
        rw [hst]
        exact nofun
      exact ewp_mono (h.of_playNextSong hp hready) (fun _ _ hr => hr.1) fun _ he => he
  | accept newfd => exact hplays.elim
  | read fd input udp => exact hplays.elim
  | add songs p => exact hplays.elim
  | delete tokens => exact hplays.elim
  | start p => exact hplays.elim

theorem Kept.init (strict safe : Prop) (sockfd : Nat) : Kept strict safe (Server.init sockfd) := by
  refine ⟨fun _ => [], [], ⟨fun p => .nil, ?_, nofun⟩, fun _ _ => rfl, ?_, fun _ _ => rfl,
    fun _ => .init sockfd, fun _ => nofun⟩
  · exact fun p i => iff_of_false List.not_mem_nil nofun
  · exact ⟨.nil, rfl, fun p => iff_of_false List.not_mem_nil nofun, Nat.zero_le _⟩

theorem Kept.reached {strict safe : Prop} {sockfd : Nat} {ok : Server → Event → Prop}
    (h : Reached ok (Server.init sockfd) s) (hmode : strict ∨ safe)
    (hcalm : ∀ s e, ok s e → strict → e.Calm s) (hpolite : ∀ s e, ok s e → safe → e.Polite s) :
    Kept strict safe s :=
  h.invariant (.init strict safe sockfd) fun _ _ sends hs henabled hok =>
    ewp_mono (hs.step hmode sends henabled (hcalm _ _ hok) (hpolite _ _ hok)) (fun _ _ hs' => hs')
      fun _ _ => trivial

/-- In a run in which no client that has a station takes another one or leaves, the lists of the
stations hold their clients, the counters are right when a station is removed, and a packet reaches
the clients of its station. -/
theorem membership_kept {sockfd : Nat} (h : Reached (fun s e => e.Calm s) (Server.init sockfd) s) :
    (∃ q ps, Members s q ps) ∧
      (∀ (e : Event) sends, e.Enabled s → e.Calm s → e.run s sends ≠ .error .counter) ∧
      ∀ (e : Event) p sends, e.Enabled s → e.Plays p →
        (∀ r s', e.run s sends = .ok (r, s') → r.Nodup ∧ ∀ i, i ∈ r ↔ s.cur i = some p) ∧
        ((∀ i, s.cur i = some p → (s.gClients i).Ready) → ∃ r s', e.run s sends = .ok (r, s')) := by
  have hkept : Kept True False s :=
    Kept.reached h (.inl trivial) (fun _ _ hok _ => hok) fun _ _ _ => False.elim
  obtain ⟨q, ps, hinv⟩ := hkept
  refine ⟨⟨q, ps, hinv.members trivial⟩, ?_, ?_⟩
  · intro e sends henabled hcalm hrun
    have hstep := Kept.step ⟨q, ps, hinv⟩ (.inl trivial) sends henabled (fun _ => hcalm) False.elim
    unfold ewp at hstep
    unfold Event.run at hrun
    rw [hrun] at hstep
    cases e with
    | delete tokens => exact hstep.2 trivial
    | add songs p => exact hstep.1 rfl
    | accept newfd => exact hstep.1 rfl
    | read fd input udp => exact hstep.1 rfl
    | start p => exact hstep.1 rfl
    | packet p => exact hstep.1 rfl
    | nextSong p song => exact hstep.1 rfl
  · intro e p sends henabled hplays
    set t : Server := { s with sends := sends, out := [] }
    have ht : Inv True False t q ps := hinv.quiet ⟨sends, [], rfl⟩
    have henabled' : e.Enabled t := by
      cases e <;> exact henabled
    constructor
    · intro r s' hrun
      have hplay := ht.of_plays False henabled' hplays False.elim
      obtain rfl : r = q p := (ewp_of_ok hrun).mp hplay
      exact ⟨(hinv.lists.listed p).nodup, hinv.lists.mem p⟩
    · intro hready
      have hplay := ht.of_plays True henabled' hplays fun _ => hready
      obtain ⟨r, s', hrun, -⟩ := wp_of_ewp hplay fun _ he => he.2 trivial
      exact ⟨r, s', hrun⟩

/-- The server with two stations. -/
def twoStations : Server :=
  [.add [text "a.mp3"] 1, .add [text "b.mp3"] 2].foldl Server.after (Server.init 3)

/-- The server with two stations and a client that has said hello. -/
def oneClient : Server :=
  (twoStations.after (.accept 5)).after (.read 5 (.line (some (.hello 4000))) (some 6))

/-- The client takes the first station. -/
def seated : Server := oneClient.after (.read 5 (.line (some (.setStation 0))) none)

/-- The client takes the second station after the first. -/
def moved : Server := seated.after (.read 5 (.line (some (.setStation 1))) none)

theorem oneClient_reached (ok : Server → Event → Prop) (hadd : ∀ s songs p, ok s (.add songs p))
    (haccept : ok twoStations (.accept 5))
    (hhello : ∀ s fd port u, ok s (.read fd (.line (some (.hello port))) (some u))) :
    Reached ok (Server.init 3) oneClient := by
  have htwo : Reached ok (Server.init 3) twoStations :=
    Reached.init.events ⟨⟨by decide, by decide, rfl⟩, hadd _ _ _, rfl,
      ⟨by decide, by decide, rfl⟩, hadd _ _ _, rfl, trivial⟩
  have haccepted := htwo.after (e := .accept 5) ⟨by decide, by decide⟩ haccept rfl
  refine haccepted.after ⟨by decide, by decide, ?_⟩ (hhello _ _ _ _) rfl
  intro u hu
  cases hu
  exact ⟨by decide, by decide⟩

theorem membership_kept_seated : ∃ q ps, Members seated q ps := by
  have hreached := oneClient_reached (fun s e => e.Calm s) (fun _ _ _ => trivial)
    trivial fun _ _ _ _ => trivial
  have hslot : slotOf oneClient 5 = some 0 := by decide
  have hcalm : (Event.read 5 (.line (some (.setStation 0))) none).Calm oneClient := by
    intro i p hi _
    obtain rfl : i = 0 := Option.some.inj (hi.symm.trans hslot)
    rfl
  have hseated := hreached.after (e := .read 5 (.line (some (.setStation 0))) none)
    ⟨by decide, by decide, nofun⟩ hcalm rfl
  exact (membership_kept hseated).1

/-- The client moves to the second station, and the counter of the first one stays 1. -/
theorem client_moved :
    Reached (fun _ _ => True) (Server.init 3) moved ∧
      (Event.delete [['0']]).run moved [] = .error .counter ∧ ¬ ∃ q ps, Members moved q ps := by
  refine ⟨?_, rfl, ?_⟩
  · have hreached := oneClient_reached (fun _ _ => True) (fun _ _ _ => trivial)
      trivial fun _ _ _ _ => trivial
    have hseated := hreached.after (e := .read 5 (.line (some (.setStation 0))) none)
      ⟨by decide, by decide, nofun⟩ trivial rfl
    exact hseated.after ⟨by decide, by decide, nofun⟩ trivial rfl
  · rintro ⟨q, ps, hmembers⟩
    have hp : 1 ∈ ps := (hmembers.stationed.alloc 1).mpr rfl
    have hlisted := hmembers.listed 1 hp
    have hhead : (moved.list 1).headClients = none := rfl
    have hcounter : (moved.list 1).counter = 1 := rfl
    rw [hhead] at hlisted
    rw [hmembers.counter 1 hp, hlisted.eq_nil] at hcounter
    cases hcounter

end CodingSample.Snowcast
