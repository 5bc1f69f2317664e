import CodingSample.Snowcast.Lists

/-!
# The list of stations

What `find_station_from_id`, `push_station_to_list` and `remove_station` do to the list through
`next_station` and to the identifiers.
-/

namespace CodingSample.Snowcast

open Prog

namespace Server

def nextSt (s : Server) (p : Nat) : Option Nat := (s.stations p).bind Station.nextStation

/-- The identifier of a station, `-1` where there is none. -/
def idOf (s : Server) (p : Nat) : Int := ((s.stations p).map Station.id).getD (-1)

def songsOf (s : Server) (p : Nat) : List (List UInt8) := ((s.stations p).map Station.songs).getD []

/-- The descriptors. -/
def net (s : Server) : Nat × List Nat × List Nat := (s.sockfd, s.master, s.openFds)

def putStation (s : Server) (p : Nat) (o : Option Station) : Server :=
  { s with stations := Function.update s.stations p o }

end Server

/-- The stations in use are those in the list, which is counted. -/
structure Stationed (s : Server) (ps : List Nat) : Prop where
  listed : Listed s.nextSt s.headStation s.tailStation ps
  counter : s.counter = ps.length
  alloc : ∀ p, p ∈ ps ↔ (s.stations p).isSome
  le : ps.length ≤ maxStationNum

/-- The identifiers of the stations are `k`, `k + 1` and so on. -/
def Counted (s : Server) : Int → List Nat → Prop
  | _, [] => True
  | k, p :: ps => s.idOf p = k ∧ Counted s (k + 1) ps

variable {s s' : Server} {p p' st' : Nat} {st : Station} {o : Option Station} {ps xs ys : List Nat}
  {q : Nat → List Nat} {home : Nat → Option Nat} {E : Fault → Prop} {k : Int}

/-! ### Updates -/

namespace Server

theorem nextSt_of_core (h : s'.core = s.core) : s'.nextSt = s.nextSt := by
  funext p
  have hp := congrArg (·.bind Station.nextStation) (core_station h p)
  simp only [Option.bind_map] at hp
  exact hp

theorem idOf_of_core (h : s'.core = s.core) : s'.idOf = s.idOf := by
  funext p
  have hp := congrArg (fun o => (o.map Station.id).getD (-1)) (core_station h p)
  simp only [Option.map_map] at hp
  exact hp

theorem songsOf_of_core (h : s'.core = s.core) : s'.songsOf = s.songsOf := by
  funext p
  have hp := congrArg (fun o => (o.map Station.songs).getD []) (core_station h p)
  simp only [Option.map_map] at hp
  exact hp

theorem isSome_of_core (h : s'.core = s.core) (p : Nat) :
    (s'.stations p).isSome = (s.stations p).isSome := by
  have hp := congrArg Option.isSome (core_station h p)
  simp only [Option.isSome_map] at hp
  exact hp

theorem net_of_core (h : s'.core = s.core) : s'.net = s.net := by
  have hnet : s'.core.net = s.core.net := congrArg net h
  exact hnet

theorem nextSt_of_some (h : s.stations p = some st) : s.nextSt p = st.nextStation := by
  rw [nextSt, h]
  rfl

theorem idOf_of_some (h : s.stations p = some st) : s.idOf p = st.id := by
  rw [idOf, h]
  rfl

theorem songsOf_of_some (h : s.stations p = some st) : s.songsOf p = st.songs := by
  rw [songsOf, h]
  rfl

theorem nextSt_putStation :
    (s.putStation p o).nextSt = Function.update s.nextSt p (o.bind Station.nextStation) := by
  funext j
  change (Function.update s.stations p o j).bind _ = _
  rw [Function.update_apply, Function.update_apply]
  split <;> rfl

theorem idOf_putStation :
    (s.putStation p o).idOf = Function.update s.idOf p ((o.map Station.id).getD (-1)) := by
  funext j
  change ((Function.update s.stations p o j).map _).getD _ = _
  rw [Function.update_apply, Function.update_apply]
  split <;> rfl

theorem songsOf_putStation :
    (s.putStation p o).songsOf = Function.update s.songsOf p ((o.map Station.songs).getD []) := by
  funext j
  change ((Function.update s.stations p o j).map _).getD _ = _
  rw [Function.update_apply, Function.update_apply]
  split <;> rfl

theorem list_eq_getD (s : Server) (p : Nat) :
    s.list p = ((s.stations p).map Station.connectedClients).getD ⟨none, none, 0⟩ := by
  rw [list]
  cases s.stations p <;> rfl

theorem list_putStation : (s.putStation p o).list =
    Function.update s.list p ((o.map Station.connectedClients).getD ⟨none, none, 0⟩) := by
  funext j
  rw [list_eq_getD, Function.update_apply]
  change ((Function.update s.stations p o j).map _).getD _ = _
  rw [Function.update_apply]
  split
  · rfl
  · exact (list_eq_getD s j).symm

theorem isSome_putStation (j : Nat) :
    ((s.putStation p o).stations j).isSome = if j = p then o.isSome else (s.stations j).isSome := by
  change (Function.update s.stations p o j).isSome = _
  rw [Function.update_apply]
  split <;> rfl

end Server

/-! ### Lookup -/

namespace Stationed

theorem of_core (h : Stationed s ps) (hcore : s'.core = s.core) : Stationed s' ps := by
  have hhead := congrArg Server.headStation hcore
  have htail := congrArg Server.tailStation hcore
  have hcounter := congrArg Server.counter hcore
  change s'.headStation = s.headStation at hhead
  change s'.tailStation = s.tailStation at htail
  refine ⟨?_, hcounter.trans h.counter, ?_, h.le⟩
  · rw [Server.nextSt_of_core hcore, hhead, htail]
    exact h.listed
  · intro p
    rw [Server.isSome_of_core hcore]
    exact h.alloc p

theorem exists_station (h : Stationed s ps) (hp : p ∈ ps) : ∃ st, s.stations p = some st :=
  Option.isSome_iff_exists.mp ((h.alloc p).mp hp)

end Stationed

theorem findLoop_apply {n : Int} {fuel : Nat} (hl : Linked s.nextSt ys)
    (halloc : ∀ p ∈ ys, ∃ st, s.stations p = some st) (hfuel : ys.length ≤ fuel) :
    findLoop n fuel ys.head? s = .ok (ys.find? fun p => s.idOf p = n, s) := by
  induction ys generalizing fuel with
  | nil => cases fuel <;> rfl
  | cons p ys ih =>
      obtain ⟨fuel, rfl⟩ := Nat.exists_eq_add_one_of_ne_zero
        (Nat.ne_of_gt (Nat.lt_of_lt_of_le (Nat.succ_pos _) hfuel))
      obtain ⟨st, hst⟩ := halloc p List.mem_cons_self
      have hget : getStation p s = .ok (st, s) := by
        rw [getStation, bind_apply, get_apply]
        simp only [hst]
        rfl
      change findLoop n (fuel + 1) (some p) s = _
      rw [findLoop, bind_eq_of_ok hget]
      have hid := Server.idOf_of_some hst
      by_cases heq : st.id = n
      · rw [if_pos heq, List.find?_cons_of_pos]
        · rfl
        · exact decide_eq_true (hid.trans heq)
      · rw [if_neg heq, List.find?_cons_of_neg, ← Server.nextSt_of_some hst, hl.1]
        · exact ih hl.2 (fun p hp => halloc p (List.mem_cons_of_mem _ hp))
            (Nat.le_of_succ_le_succ hfuel)
        · rw [decide_eq_true_eq, hid]
          exact heq

/-- `find_station_from_id` returns the first station with the identifier. -/
theorem Stationed.findStationFromId (h : Stationed s ps) (id : Int) :
    findStationFromId id s = .ok (ps.find? fun p => s.idOf p = id, s) := by
  have hfind := findLoop_apply (n := id) h.listed.linked (fun p hp => h.exists_station hp) h.le
  rw [← h.listed.head] at hfind
  exact hfind

/-- The station that `find_station_from_id` finds. -/
def stationOf (s : Server) (id : Int) : Option Nat :=
  match findStationFromId id s with
  | .error _ => none
  | .ok (p, _) => p

theorem Stationed.stationOf_eq (h : Stationed s ps) (id : Int) :
    stationOf s id = ps.find? fun p => s.idOf p = id := by
  rw [stationOf, h.findStationFromId]

/-! ### Adding a station -/

theorem nextAvailable_ok {fuel : Nat} (hl : Linked s.nextSt ys)
    (halloc : ∀ p ∈ ys, ∃ st, s.stations p = some st) (hfuel : ys.length ≤ fuel) :
    ∃ n, nextAvailable fuel ys.head? k s = .ok (n, s) ∧ (Counted s k ys → n = k + ys.length) := by
  induction ys generalizing fuel k with
  | nil =>
      refine ⟨k, ?_, fun _ => (Int.add_zero k).symm⟩
      cases fuel <;> rfl
  | cons p ys ih =>
      obtain ⟨fuel, rfl⟩ := Nat.exists_eq_add_one_of_ne_zero
        (Nat.ne_of_gt (Nat.lt_of_lt_of_le (Nat.succ_pos _) hfuel))
      obtain ⟨st, hst⟩ := halloc p List.mem_cons_self
      have hget : getStation p s = .ok (st, s) := by
        rw [getStation, bind_apply, get_apply]
        simp only [hst]
        rfl
      have hid := Server.idOf_of_some hst
      have hloop : nextAvailable (fuel + 1) (some p) k s =
          (if st.id ≠ k then pure k else nextAvailable fuel st.nextStation (k + 1)) s := by
        rw [nextAvailable, bind_eq_of_ok hget]
      by_cases heq : st.id = k
      · obtain ⟨n, hn, hcounted⟩ := ih (k := k + 1) hl.2
          (fun p hp => halloc p (List.mem_cons_of_mem _ hp)) (Nat.le_of_succ_le_succ hfuel)
        refine ⟨n, ?_, ?_⟩
        · change nextAvailable (fuel + 1) (some p) k s = _
          rw [hloop, if_neg (not_not.mpr heq), ← Server.nextSt_of_some hst, hl.1]
          exact hn
        · intro hc
          rw [hcounted hc.2, List.length_cons]
          push_cast
          omega
      · refine ⟨k, ?_, ?_⟩
        · change nextAvailable (fuel + 1) (some p) k s = _
          rw [hloop, if_pos heq]
          rfl
        · exact fun hc => absurd (hid.symm.trans hc.1) heq

theorem Counted.congr (h : Counted s k ps) (heq : ∀ p ∈ ps, s'.idOf p = s.idOf p) :
    Counted s' k ps := by
  induction ps generalizing k with
  | nil => exact trivial
  | cons p ps ih =>
      refine ⟨(heq p List.mem_cons_self).trans h.1, ih h.2 ?_⟩
      exact fun p hp => heq p (List.mem_cons_of_mem _ hp)

/-- The station `p` is at the end of the list with a new identifier, and nothing else has
changed. -/
structure Pushed (s s' : Server) (ps : List Nat) (p : Nat) : Prop where
  listed : Listed s'.nextSt s'.headStation s'.tailStation (ps ++ [p])
  counter : s'.counter = s.counter + 1
  alloc : ∀ j, (s'.stations j).isSome = (s.stations j).isSome
  gClients : s'.gClients = s.gClients
  list : s'.list = s.list
  net : s'.net = s.net
  songs : s'.songsOf = s.songsOf
  ids : ∀ j, j ≠ p → s'.idOf j = s.idOf j
  id : Counted s 0 ps → s'.idOf p = ps.length

/-- The station is linked behind the tail, and its identifier is kept. -/
theorem ewp_linkStation (hl : Listed s.nextSt s.headStation s.tailStation ps) (hp : p ∉ ps)
    (hnext : s.nextSt p = none) (halloc : ∀ p ∈ ps, ∃ st, s.stations p = some st) :
    ewp (linkStation p) (fun _ s' => Listed s'.nextSt s'.headStation s'.tailStation (ps ++ [p]) ∧
      s'.counter = s.counter ∧ (∀ j, (s'.stations j).isSome = (s.stations j).isSome) ∧
      s'.gClients = s.gClients ∧ s'.list = s.list ∧ s'.net = s.net ∧ s'.songsOf = s.songsOf ∧
      s'.idOf = s.idOf) E s := by
  rw [linkStation, ewp_bind, ewp_get]
  cases hhead : s.headStation with
  | none =>
      rw [hhead] at hl
      obtain rfl := hl.eq_nil
      exact ⟨.single hnext, rfl, fun _ => rfl, rfl, rfl, rfl, rfl, rfl⟩
  | some c =>
      rw [hhead] at hl
      obtain ⟨t, htail⟩ := hl.tail_isSome
      rw [htail] at hl ⊢
      simp only []
      have ht : t ∈ ps := by
        obtain ⟨xs, rfl⟩ := hl.eq_concat
        exact List.mem_append_right _ (List.mem_singleton_self t)
      obtain ⟨st, hst⟩ := halloc t ht
      rw [ewp_bind, ewp_modifyStation hst, ewp_modify]
      set s₁ := s.putStation t (some { st with nextStation := some p }) with hs₁
      refine ⟨?_, rfl, ?_, rfl, ?_, rfl, ?_, ?_⟩
      · change Listed s₁.nextSt s.headStation (some p) _
        rw [hs₁, Server.nextSt_putStation, hhead]
        exact hl.append hp hnext
      · intro j
        change (s₁.stations j).isSome = _
        rw [hs₁, Server.isSome_putStation]
        split
        · rename_i hj
          rw [hj, hst]
          rfl
        · rfl
      · change s₁.list = _
        rw [hs₁, Server.list_putStation]
        exact Function.update_eq_self_iff.mpr (Server.list_of_some hst).symm
      · change s₁.songsOf = _
        rw [hs₁, Server.songsOf_putStation]
        exact Function.update_eq_self_iff.mpr (Server.songsOf_of_some hst).symm
      · change s₁.idOf = _
        rw [hs₁, Server.idOf_putStation]
        exact Function.update_eq_self_iff.mpr (Server.idOf_of_some hst).symm

theorem ewp_pushStationToList (hl : Listed s.nextSt s.headStation s.tailStation ps) (hp : p ∉ ps)
    (halloc : ∀ p ∈ ps, ∃ st, s.stations p = some st) (hle : ps.length ≤ maxStationNum)
    (hst : s.stations p = some st) (hnext : st.nextStation = none) :
    ewp (pushStationToList p) (fun _ s' => Pushed s s' ps p) E s := by
  obtain ⟨n, hn, hcount⟩ := nextAvailable_ok (k := 0) hl.linked halloc hle
  rw [← hl.head] at hn
  rw [pushStationToList, ewp_bind, ewp_get, ewp_bind, ewp_of_ok hn, ewp_bind, ewp_modifyStation hst]
  change ewp _ _ E (s.putStation p (some { st with id := n }))
  set s₁ := s.putStation p (some { st with id := n }) with hs₁
  have hnext₁ : s₁.nextSt = s.nextSt := by
    rw [hs₁, Server.nextSt_putStation]
    exact Function.update_eq_self_iff.mpr (Server.nextSt_of_some hst).symm
  have hids : ∀ j, j ≠ p → s₁.idOf j = s.idOf j := by
    intro j hj
    rw [hs₁, Server.idOf_putStation]
    exact Function.update_of_ne hj _ _
  have hsome : ∀ j, (s₁.stations j).isSome = (s.stations j).isSome := by
    intro j
    rw [hs₁, Server.isSome_putStation]
    split
    · rename_i hj
      rw [hj, hst]
      rfl
    · rfl
  have hl₁ : Listed s₁.nextSt s₁.headStation s₁.tailStation ps := by
    rw [hnext₁]
    exact hl
  have halloc₁ : ∀ p ∈ ps, ∃ st, s₁.stations p = some st := by
    intro p hp
    obtain ⟨st, hst⟩ := halloc p hp
    rw [← Option.isSome_iff_exists, hsome, hst]
    rfl
  have hnextp : s₁.nextSt p = none := by
    rw [hnext₁, Server.nextSt_of_some hst]
    exact hnext
  refine ewp_bind_of (ewp_linkStation hl₁ hp hnextp halloc₁) ?_
  rintro _ s₂ ⟨hlisted, hcounter, halloc₂, hclients, hlist, hnet, hsongs, hid⟩
  refine ⟨hlisted, ?_, ?_, hclients, ?_, hnet, ?_, ?_, ?_⟩
  · exact congrArg (· + 1) hcounter
  · exact fun j => (halloc₂ j).trans (hsome j)
  · refine hlist.trans ?_
    rw [hs₁, Server.list_putStation]
    exact Function.update_eq_self_iff.mpr (Server.list_of_some hst).symm
  · refine hsongs.trans ?_
    rw [hs₁, Server.songsOf_putStation]
    exact Function.update_eq_self_iff.mpr (Server.songsOf_of_some hst).symm
  · exact fun j hj => (congrFun hid j).trans (hids j hj)
  · intro hc
    refine (congrFun hid p).trans ?_
    rw [hs₁, Server.idOf_putStation, Function.update_self]
    change n = _
    rw [hcount hc, Int.zero_add]

/-- A station of `add_station` before it is pushed. -/
def Server.alloc (s : Server) (songs : List (List UInt8)) (p : Nat) : Server :=
  s.putStation p (some { Station.zero with songs := songs })

theorem ewp_addStation {songs : List (List UInt8)} (h : Stationed s ps) (hfree : s.stations p = none) :
    ewp (addStation songs p) (fun _ s' => s' = s ∨
      ps.length < maxStationNum ∧ Pushed (s.alloc songs p) s' ps p) E s := by
  rw [addStation, ewp_bind, ewp_get]
  split
  · exact .inl rfl
  rename_i hfull
  split
  · exact .inl rfl
  have hp : p ∉ ps := by
    intro hin
    obtain ⟨st, hst⟩ := h.exists_station hin
    rw [hst] at hfree
    cases hfree
  have hlt : ps.length < maxStationNum := by
    refine Nat.lt_of_le_of_ne h.le fun heq => hfull ?_
    rw [h.counter, heq]
  have hlisted : Listed (s.alloc songs p).nextSt s.headStation s.tailStation ps := by
    refine h.listed.congr fun j hj => ?_
    rw [Server.alloc, Server.nextSt_putStation]
    refine Function.update_of_ne ?_ _ _
    rintro rfl
    exact hp hj
  have halloc : ∀ j ∈ ps, ∃ st, (s.alloc songs p).stations j = some st := by
    intro j hj
    rw [← Option.isSome_iff_exists, Server.alloc, Server.isSome_putStation]
    split
    · rfl
    · exact (h.alloc j).mp hj
  rw [ewp_bind, setStation, ewp_modify]
  exact ewp_mono (ewp_pushStationToList hlisted hp halloc h.le
    (Function.update_self p _ s.stations) rfl) (fun _ s' hs' => .inr ⟨hlt, hs'⟩) fun _ he => he

theorem Pushed.stationed {songs : List (List UInt8)} (hp : Pushed (s.alloc songs p) s' ps p)
    (h : Stationed s ps) (hlt : ps.length < maxStationNum) : Stationed s' (ps ++ [p]) := by
  refine ⟨hp.listed, ?_, ?_, ?_⟩
  · have hcounter : s'.counter = s.counter + 1 := hp.counter
    rw [hcounter, h.counter, List.length_append]
    rfl
  · intro j
    rw [hp.alloc, Server.alloc, Server.isSome_putStation, List.mem_append, List.mem_singleton,
      h.alloc]
    split
    · rename_i hj
      exact iff_of_true (.inr hj) rfl
    · rename_i hj
      exact or_iff_left hj
  · rw [List.length_append]
    exact hlt

theorem Pushed.list_eq {songs : List (List UInt8)} (hp : Pushed (s.alloc songs p) s' ps p)
    (hfree : s.stations p = none) : s'.list = s.list := by
  rw [hp.list, Server.alloc, Server.list_putStation, Function.update_eq_self_iff, Server.list, hfree]
  rfl

/-! ### Removing a station -/

theorem ewp_dismissClients (hl : Lists s q home) (hst : s.stations p = some st)
    (hE : (s.list p).counter ≠ (q p).length → E .counter) :
    ewp (dismissClients p) (fun _ s' => Dismissed s s' p (q p)) E s := by
  have hlisted := hl.listed p
  rw [Server.list_of_some hst] at hlisted
  rw [dismissClients, ewp_bind, ewp_getStation hst, hlisted.head]
  refine ewp_bind_of (ewp_dismissLoop hst hlisted.linked hlisted.nodup (hl.length_le p)) ?_
  intro _ s₁ hd
  obtain ⟨st₁, hst₁, -⟩ := Server.station_of_core hd.core hst
  rw [ewp_bind, ewp_getStation hst₁, ewp_check]
  refine ⟨fun _ => hd, fun hcounter => hE fun heq => of_decide_eq_false hcounter ?_⟩
  rw [← Server.list_of_some hst₁, hd.counter, heq, Int.sub_self]

/-- The station `p` is taken out of the list and freed, and nothing else has changed. -/
structure Dropped (s s' : Server) (ps : List Nat) (p : Nat) : Prop where
  stationed : Stationed s' (ps.erase p)
  gClients : s'.gClients = s.gClients
  list : s'.list = Function.update s.list p ⟨none, none, 0⟩
  net : s'.net = s.net
  songs : s'.songsOf = Function.update s.songsOf p []
  ids : ∀ j, j ≠ p → s'.idOf j = s.idOf j

/-- What is left to prove when the links of the other stations are right. -/
theorem Dropped.of_putStation {t : Server} (h : Stationed s ps) (hp : p ∈ ps)
    (hlisted : Listed t.nextSt t.headStation t.tailStation (ps.erase p))
    (hcounter : t.counter = s.counter - 1)
    (halloc : ∀ j, (t.stations j).isSome = (s.stations j).isSome)
    (hclients : t.gClients = s.gClients) (hlist : t.list = s.list) (hnet : t.net = s.net)
    (hsongs : t.songsOf = s.songsOf) (hids : t.idOf = s.idOf) :
    Dropped s (t.putStation p none) ps p := by
  have hnotin : p ∉ ps.erase p := h.listed.nodup.not_mem_erase
  refine ⟨⟨?_, ?_, ?_, ?_⟩, hclients, ?_, hnet, ?_, ?_⟩
  · refine hlisted.congr fun j hj => ?_
    rw [Server.nextSt_putStation]
    refine Function.update_of_ne ?_ _ _
    rintro rfl
    exact hnotin hj
  · change t.counter = _
    rw [hcounter, h.counter, List.length_erase_of_mem hp]
    have hpos := List.length_pos_of_mem hp
    omega
  · intro j
    rw [Server.isSome_putStation, halloc, h.listed.nodup.mem_erase_iff, h.alloc]
    split
    · rename_i hj
      exact iff_of_false (fun hne => hne.1 hj) nofun
    · rename_i hj
      exact and_iff_right hj
  · exact List.length_erase_le.trans h.le
  · rw [Server.list_putStation, hlist]
    rfl
  · rw [Server.songsOf_putStation, hsongs]
    rfl
  · intro j hj
    rw [Server.idOf_putStation, hids]
    exact Function.update_of_ne hj _ _

/-- The end of `remove_station` for the first station. -/
theorem ewp_dropStation (h : Stationed s (p :: ys)) :
    ewp (do
      addCounter (-1)
      let station ← getStation p
      dropHead station.nextStation
      setStation p none) (fun _ s' => Dropped s s' (p :: ys) p) E s := by
  obtain ⟨st, hst⟩ := h.exists_station List.mem_cons_self
  have hst₁ : ({ s with counter := s.counter + -1 } : Server).stations p = some st := hst
  rw [ewp_bind, addCounter, ewp_modify, ewp_bind, ewp_getStation hst₁, ewp_bind, dropHead,
    ewp_modify, setStation, ewp_modify]
  have hcounter := h.counter
  rw [List.length_cons] at hcounter
  push_cast at hcounter
  have hremoved := h.listed.removeHead
  rw [Server.nextSt_of_some hst] at hremoved
  have hnext : st.nextStation = ys.head? := (Server.nextSt_of_some hst).symm.trans h.listed.linked.1
  have herase : (p :: ys).erase p = ys := List.erase_cons_head ..
  split
  · rename_i hzero
    have hnil : ys = [] := by
      refine List.length_eq_zero_iff.mp ?_
      change s.counter + -1 = 0 at hzero
      omega
    refine Dropped.of_putStation (t := { s with
      headStation := none
      tailStation := none
      counter := s.counter + -1 }) h List.mem_cons_self ?_ rfl (fun _ => rfl) rfl rfl rfl rfl rfl
    rw [herase, hnil]
    exact .nil
  · rename_i hzero
    have hne : st.nextStation ≠ none := by
      rw [hnext]
      intro hnone
      rw [List.head?_eq_none_iff.mp hnone] at hcounter
      refine hzero ?_
      change s.counter + -1 = 0
      rw [hcounter]
      rfl
    rw [if_neg hne] at hremoved
    refine Dropped.of_putStation (t := { s with
      headStation := st.nextStation
      counter := s.counter + -1 }) h List.mem_cons_self ?_ rfl (fun _ => rfl) rfl rfl rfl rfl rfl
    rw [herase]
    exact hremoved

/-- The end of `remove_station` for the station behind `c`. -/
theorem ewp_unlinkStation {c : Nat} (h : Stationed s (xs ++ c :: p :: ys)) :
    ewp (do
      addCounter (-1)
      let station ← getStation p
      modifyStation c fun b => { b with nextStation := station.nextStation }
      fixTail c station.nextStation
      setStation p none) (fun _ s' => Dropped s s' (xs ++ c :: p :: ys) p) E s := by
  have hp : p ∈ xs ++ c :: p :: ys :=
    List.mem_append_right _ (List.mem_cons_of_mem _ List.mem_cons_self)
  obtain ⟨st, hst⟩ := h.exists_station hp
  obtain ⟨before, hc⟩ := h.exists_station (List.mem_append_right xs List.mem_cons_self)
  have hst₁ : ({ s with counter := s.counter + -1 } : Server).stations p = some st := hst
  have hc₁ : ({ s with counter := s.counter + -1 } : Server).stations c = some before := hc
  rw [ewp_bind, addCounter, ewp_modify, ewp_bind, ewp_getStation hst₁, ewp_bind,
    ewp_modifyStation hc₁, ewp_bind, fixTail, ewp_modify, setStation, ewp_modify]
  obtain ⟨herase, -⟩ := Listed.erase_next h.listed
  set s₁ := s.putStation c (some { before with nextStation := st.nextStation }) with hs₁
  have hlisted : Listed s₁.nextSt s.headStation
      (if st.nextStation = none then some c else s.tailStation) (xs ++ c :: ys) := by
    have hunlink := h.listed.unlink
    rw [Server.nextSt_of_some hst] at hunlink
    rw [hs₁, Server.nextSt_putStation]
    exact hunlink
  have hsome : ∀ j, (s₁.stations j).isSome = (s.stations j).isSome := by
    intro j
    rw [hs₁, Server.isSome_putStation]
    split
    · rename_i hj
      rw [hj, hc]
      rfl
    · rfl
  have hlist : s₁.list = s.list := by
    rw [hs₁, Server.list_putStation]
    exact Function.update_eq_self_iff.mpr (Server.list_of_some hc).symm
  have hsongs : s₁.songsOf = s.songsOf := by
    rw [hs₁, Server.songsOf_putStation]
    exact Function.update_eq_self_iff.mpr (Server.songsOf_of_some hc).symm
  have hids : s₁.idOf = s.idOf := by
    rw [hs₁, Server.idOf_putStation]
    exact Function.update_eq_self_iff.mpr (Server.idOf_of_some hc).symm
  split
  · rename_i hnone
    rw [if_pos hnone] at hlisted
    refine Dropped.of_putStation (t := { s₁ with
      tailStation := some c
      counter := s.counter + -1 }) h hp ?_ rfl hsome rfl hlist rfl hsongs hids
    rw [herase]
    exact hlisted
  · rename_i hnone
    rw [if_neg hnone] at hlisted
    refine Dropped.of_putStation (t := { s₁ with counter := s.counter + -1 }) h hp ?_ rfl hsome
      rfl hlist rfl hsongs hids
    rw [herase]
    exact hlisted

/-- The clients of the station `p` are dismissed and then the station is freed. -/
def Freed (s s' : Server) (ps : List Nat) (p : Nat) (l : List Nat) : Prop :=
  ∃ s₁, Dismissed s s₁ p l ∧ Dropped s₁ s' ps p

theorem ewp_removeStationLoop {fuel c : Nat} (xs : List Nat) (h : Stationed s (xs ++ c :: ys))
    (hl : Lists s q home) (hp : p ∈ ys) (hfuel : ys.length ≤ fuel)
    (hE : (s.list p).counter ≠ (q p).length → E .counter) :
    ewp (removeStationLoop p fuel c) (fun _ s' => Freed s s' (xs ++ c :: ys) p (q p)) E s := by
  induction ys generalizing xs c fuel with
  | nil => cases hp
  | cons d ys ih =>
      obtain ⟨fuel, rfl⟩ := Nat.exists_eq_add_one_of_ne_zero
        (Nat.ne_of_gt (Nat.lt_of_lt_of_le (Nat.succ_pos _) hfuel))
      obtain ⟨st, hst⟩ := h.exists_station (List.mem_append_right xs List.mem_cons_self)
      have hnext : st.nextStation = some d :=
        (Server.nextSt_of_some hst).symm.trans h.listed.linked.of_append.1
      rw [removeStationLoop, ewp_bind, ewp_getStation hst, hnext]
      simp only []
      by_cases hd : d = p
      · subst hd
        obtain ⟨std, hstd⟩ := h.exists_station
          (List.mem_append_right xs (List.mem_cons_of_mem c List.mem_cons_self))
        rw [if_pos rfl]
        refine ewp_bind_of (ewp_dismissClients hl hstd hE) fun _ s₁ hdismissed => ?_
        exact ewp_mono (ewp_unlinkStation (h.of_core hdismissed.core))
          (fun _ s' hdropped => ⟨s₁, hdismissed, hdropped⟩) fun _ he => he
      · rw [if_neg hd]
        have happ : xs ++ c :: d :: ys = (xs ++ [c]) ++ d :: ys := by
          rw [List.append_assoc]
          rfl
        rw [happ] at h ⊢
        exact ih _ h (List.mem_of_ne_of_mem (Ne.symm hd) hp) (Nat.le_of_succ_le_succ hfuel)

theorem ewp_removeStation (h : Stationed s ps) (hl : Lists s q home) (hp : p ∈ ps)
    (hE : (s.list p).counter ≠ (q p).length → E .counter) :
    ewp (removeStation p) (fun _ s' => Freed s s' ps p (q p)) E s := by
  rw [removeStation, ewp_bind, ewp_get]
  cases ps with
  | nil => cases hp
  | cons c ys =>
      have hhead : s.headStation = some c := h.listed.head
      rw [hhead]
      simp only []
      by_cases hc : c = p
      · subst hc
        obtain ⟨st, hst⟩ := h.exists_station List.mem_cons_self
        rw [if_pos rfl]
        refine ewp_bind_of (ewp_dismissClients hl hst hE) fun _ s₁ hdismissed => ?_
        exact ewp_mono (ewp_dropStation (h.of_core hdismissed.core))
          (fun _ s' hdropped => ⟨s₁, hdismissed, hdropped⟩) fun _ he => he
      · rw [if_neg hc]
        refine ewp_removeStationLoop [] h hl (List.mem_of_ne_of_mem (Ne.symm hc) hp) ?_ hE
        exact Nat.le_of_succ_le h.le

/-- The lists after a station is freed. -/
theorem Freed.lists (h : Freed s s' ps p (q p)) (hl : Lists s q home) :
    Lists s' (Function.update q p []) fun j => if home j = some p then none else home j := by
  obtain ⟨s₁, hdismissed, hdropped⟩ := h
  refine hdismissed.lists hl ?_ ?_ ?_
  · funext j
    rw [Server.nxt, hdropped.gClients]
    rfl
  · intro p' hp'
    rw [hdropped.list]
    exact Function.update_of_ne hp' _ _
  · rw [hdropped.list]
    exact Function.update_self _ _ _

end CodingSample.Snowcast
