import CodingSample.Data.Linked
import CodingSample.Data.Ring
import CodingSample.Snowcast.Handlers

/-!
# The lists of clients

The lists through `next_client` against a map from the clients to their stations: what taking a
client out of a list, appending one and dismissing all clients of a station do to the lists, and
that they change nothing else.
-/

namespace CodingSample.Snowcast

open Prog

/-- A client without its place in the lists. -/
def Clientinfo.core (c : Clientinfo) : Clientinfo := { c with curStation := none, nextClient := none }

/-- A station without its clients. -/
def Station.core (st : Station) : Station := { st with connectedClients := ⟨none, none, 0⟩ }

namespace Server

/-- What is left without the lists of clients and the messages. -/
def core (s : Server) : Server :=
  { s with
    gClients := Clientinfo.core ∘ s.gClients
    stations := Option.map Station.core ∘ s.stations
    sends := []
    out := [] }

def cur (s : Server) (i : Nat) : Option Nat := (s.gClients i).curStation

def nxt (s : Server) (i : Nat) : Option Nat := (s.gClients i).nextClient

/-- The list of a station, empty where there is none. -/
def list (s : Server) (p : Nat) : Clientlist :=
  match s.stations p with
  | none => ⟨none, none, 0⟩
  | some st => st.connectedClients

def setNext (s : Server) (i : Nat) (next : Option Nat) : Server :=
  { s with gClients := Function.update s.gClients i { s.gClients i with nextClient := next } }

def setCur (s : Server) (i : Nat) (station : Option Nat) : Server :=
  { s with gClients := Function.update s.gClients i { s.gClients i with curStation := station } }

def setList (s : Server) (p : Nat) (l : Clientlist) : Server :=
  { s with
    stations := Function.update s.stations p
      ((s.stations p).map fun st => { st with connectedClients := l }) }

end Server

/-- The lists `q` hold each client in the list of its home and in no other. -/
structure Lists (s : Server) (q : Nat → List Nat) (home : Nat → Option Nat) : Prop where
  listed : ∀ p, Listed s.nxt (s.list p).headClients (s.list p).tailClients (q p)
  mem : ∀ p i, i ∈ q p ↔ home i = some p
  lt : ∀ i p, home i = some p → i < maxClientNum

variable {s s' : Server} {q : Nat → List Nat} {home : Nat → Option Nat} {i j p p' c fd : Nat}
  {st : Station} {l xs ys : List Nat} {next station : Option Nat} {list : Clientlist}

/-- A station has at most as many clients as there are. -/
theorem Lists.length_le (h : Lists s q home) (p : Nat) : (q p).length ≤ maxClientNum :=
  length_le_of_lt (h.listed p).nodup fun i hi => h.lt i p ((h.mem p i).mp hi)

/-! ### Updates -/

namespace Server

theorem cur_setNext : (s.setNext i next).cur = s.cur := by
  funext j
  change (Function.update s.gClients i _ j).curStation = _
  rw [Function.update_apply]
  split
  · rename_i h
    rw [h]
    rfl
  · rfl

theorem nxt_setNext : (s.setNext i next).nxt = Function.update s.nxt i next := by
  funext j
  change (Function.update s.gClients i _ j).nextClient = _
  rw [Function.update_apply, Function.update_apply]
  split
  · rfl
  · rfl

theorem cur_setCur : (s.setCur i station).cur = Function.update s.cur i station := by
  funext j
  change (Function.update s.gClients i _ j).curStation = _
  rw [Function.update_apply, Function.update_apply]
  split
  · rfl
  · rfl

theorem nxt_setCur : (s.setCur i station).nxt = s.nxt := by
  funext j
  change (Function.update s.gClients i _ j).nextClient = _
  rw [Function.update_apply]
  split
  · rename_i h
    rw [h]
    rfl
  · rfl

theorem list_of_some (h : s.stations p = some st) : s.list p = st.connectedClients := by
  rw [Server.list, h]

theorem stations_setList (h : s.stations p = some st) :
    (s.setList p list).stations p = some { st with connectedClients := list } := by
  change Function.update s.stations p _ p = _
  rw [Function.update_self, h]
  rfl

theorem list_setList_self (list : Clientlist) (h : s.stations p = some st) :
    (s.setList p list).list p = list := by
  exact list_of_some (stations_setList h)

theorem list_setList_of_ne (h : p' ≠ p) : (s.setList p list).list p' = s.list p' := by
  have hp : (s.setList p list).stations p' = s.stations p' := Function.update_of_ne h _ _
  rw [Server.list, Server.list, hp]

theorem stations_setList_isSome : ((s.setList p list).stations p').isSome =
    (s.stations p').isSome := by
  change (Function.update s.stations p _ p').isSome = _
  rw [Function.update_apply]
  split
  · rename_i h
    rw [h, Option.isSome_map]
  · rfl

theorem setList_self (h : s.stations p = some st) : s.setList p st.connectedClients = s := by
  have hstations : Function.update s.stations p ((s.stations p).map fun st' =>
      { st' with connectedClients := st.connectedClients }) = s.stations := by
    rw [h]
    exact Function.update_eq_self_iff.mpr h.symm
  unfold setList
  rw [hstations]

theorem setList_setList {list' : Clientlist} :
    (s.setList p list).setList p list' = s.setList p list' := by
  have hstations : Function.update (s.setList p list).stations p
      (((s.setList p list).stations p).map fun st => { st with connectedClients := list' }) =
      Function.update s.stations p
        ((s.stations p).map fun st => { st with connectedClients := list' }) := by
    change Function.update (Function.update s.stations p _) p
      ((Function.update s.stations p _ p).map _) = _
    rw [Function.update_idem, Function.update_self, Option.map_map]
    rfl
  unfold setList at hstations ⊢
  rw [hstations]

/-- An update that keeps the core of a client keeps the core. -/
theorem core_setClient {client : Clientinfo} (h : client.core = (s.gClients i).core) :
    { s with gClients := Function.update s.gClients i client }.core = s.core := by
  have hcomp : Clientinfo.core ∘ Function.update s.gClients i client =
      Clientinfo.core ∘ s.gClients := by
    rw [Function.comp_update, h]
    exact Function.update_eq_self i (Clientinfo.core ∘ s.gClients)
  unfold core
  rw [hcomp]

theorem core_setNext : (s.setNext i next).core = s.core := core_setClient rfl

theorem core_setCur : (s.setCur i station).core = s.core := core_setClient rfl

theorem core_setList : (s.setList p list).core = s.core := by
  have hcomp : Option.map Station.core ∘ (s.setList p list).stations =
      Option.map Station.core ∘ s.stations := by
    change Option.map Station.core ∘ Function.update s.stations p _ = _
    rw [Function.comp_update, Option.map_map]
    exact Function.update_eq_self p (Option.map Station.core ∘ s.stations)
  unfold core
  rw [hcomp]
  rfl

theorem core_client (h : s'.core = s.core) (i : Nat) :
    (s'.gClients i).core = (s.gClients i).core :=
  congrFun (congrArg Server.gClients h) i

theorem core_station (h : s'.core = s.core) (p : Nat) :
    (s'.stations p).map Station.core = (s.stations p).map Station.core :=
  congrFun (congrArg Server.stations h) p

/-- A core tells which stations are allocated. -/
theorem station_of_core (h : s'.core = s.core) (hst : s.stations p = some st) :
    ∃ st', s'.stations p = some st' ∧ st'.core = st.core := by
  have hcore := core_station h p
  rw [hst] at hcore
  exact Option.map_eq_some_iff.mp hcore

end Server

/-! ### The rules of the programs -/

section Rules

variable {E : Fault → Prop}

theorem ewp_kassert {test : Bool} {Q : Unit → Server → Prop} (h : test = true) (hq : Q () s) :
    ewp (kassert test) Q E s := by
  rw [kassert, h]
  exact hq

theorem ewp_getClient {Q : Clientinfo → Server → Prop} :
    ewp (getClient i) Q E s ↔ Q (s.gClients i) s := Iff.rfl

theorem ewp_getStation {Q : Station → Server → Prop} (h : s.stations p = some st) :
    ewp (getStation p) Q E s ↔ Q st s := by
  rw [getStation, ewp_bind, ewp_get, h]
  rfl

theorem ewp_modifyStation {f : Station → Station} {Q : Unit → Server → Prop}
    (h : s.stations p = some st) : ewp (modifyStation p f) Q E s ↔
      Q () { s with stations := Function.update s.stations p (some (f st)) } := by
  rw [modifyStation, ewp_bind, ewp_getStation h]
  rfl

theorem ewp_modifyList {f : Clientlist → Clientlist} {Q : Unit → Server → Prop}
    (h : s.stations p = some st) : ewp (modifyList p f) Q E s ↔
      Q () (s.setList p (f st.connectedClients)) := by
  rw [modifyList, ewp_modifyStation h, Server.setList, h]
  rfl

theorem ewp_sendMessage {m : Message} {Q : Int → Server → Prop}
    (hq : ∀ ret sends out, Q ret { s with sends := sends, out := out }) :
    ewp (sendMessage fd m) Q E s := by
  unfold ewp sendMessage
  split
  · rename_i heq
    split at heq <;> cases heq
  · rename_i heq
    split at heq
    · cases heq
      exact hq _ _ _
    · cases heq
      exact hq _ _ _
    · cases heq
      exact hq _ _ _

theorem ewp_announce {message : List UInt8} {Q : Unit → Server → Prop}
    (hq : ∀ sends out, Q () { s with sends := sends, out := out }) :
    ewp (announce fd message) Q E s := by
  rw [announce, ewp_bind]
  exact ewp_sendMessage fun _ => hq

end Rules

/-! ### Taking a client out of a list -/

/-- The client `i` is out of the list `l` of the station `p`, and nothing else has changed. -/
structure Removed (s s' : Server) (p i : Nat) (l : List Nat) : Prop where
  core : s'.core = s.core
  cur : s'.cur = s.cur
  counter : (s'.list p).counter = (s.list p).counter
  others : ∀ p', p' ≠ p → s'.list p' = s.list p'
  listed : Listed s'.nxt (s'.list p).headClients (s'.list p).tailClients (l.erase i)
  nxt : ∀ j, j ∉ l → s'.nxt j = s.nxt j
  self : s'.nxt i = s.nxt i

theorem Removed.of_unlink {d : Nat} (hst : s.stations p = some st)
    (hl : Listed s.nxt st.connectedClients.headClients st.connectedClients.tailClients
      (xs ++ c :: d :: ys)) :
    Removed s ((s.setNext c (s.nxt d)).setList p { st.connectedClients with
      tailClients := if s.nxt d = none then some c else st.connectedClients.tailClients })
      p d (xs ++ c :: d :: ys) := by
  obtain ⟨herase, hdc⟩ := Listed.erase_next hl
  have hst' : (s.setNext c (s.nxt d)).stations p = some st := hst
  have hlist := Server.list_setList_self { st.connectedClients with
    tailClients := if s.nxt d = none then some c else st.connectedClients.tailClients } hst'
  have hnxt : ((s.setNext c (s.nxt d)).setList p { st.connectedClients with
      tailClients := if s.nxt d = none then some c else st.connectedClients.tailClients }).nxt =
      Function.update s.nxt c (s.nxt d) := Server.nxt_setNext
  refine ⟨Server.core_setList.trans Server.core_setNext, Server.cur_setNext, ?_, ?_, ?_, ?_, ?_⟩
  · rw [hlist, Server.list_of_some hst]
  · intro p' hp
    exact Server.list_setList_of_ne hp
  · rw [hlist, hnxt, herase]
    exact hl.unlink
  · intro j hj
    rw [hnxt]
    refine Function.update_of_ne ?_ _ _
    rintro rfl
    exact hj (List.mem_append_right _ List.mem_cons_self)
  · rw [hnxt]
    exact Function.update_of_ne hdc _ _

theorem Removed.of_head (hst : s.stations p = some st)
    (hl : Listed s.nxt st.connectedClients.headClients st.connectedClients.tailClients (i :: l)) :
    Removed s (s.setList p { st.connectedClients with
      headClients := s.nxt i
      tailClients := if s.nxt i = none then none else st.connectedClients.tailClients })
      p i (i :: l) := by
  have hlist := Server.list_setList_self { st.connectedClients with
    headClients := s.nxt i
    tailClients := if s.nxt i = none then none else st.connectedClients.tailClients } hst
  refine ⟨Server.core_setList, rfl, ?_, ?_, ?_, fun _ _ => rfl, rfl⟩
  · rw [hlist, Server.list_of_some hst]
  · intro p' hp
    exact Server.list_setList_of_ne hp
  · rw [hlist, List.erase_cons_head]
    exact hl.removeHead

theorem ewp_removeLoop {E : Fault → Prop} {fuel : Nat} (xs : List Nat) (hst : s.stations p = some st)
    (hl : Listed s.nxt st.connectedClients.headClients st.connectedClients.tailClients
      (xs ++ c :: ys)) (hi : i ∈ ys) (hfuel : ys.length ≤ fuel) :
    ewp (removeLoop p i fuel c) (fun _ s' => Removed s s' p i (xs ++ c :: ys)) E s := by
  induction ys generalizing xs c fuel with
  | nil => cases hi
  | cons d ys ih =>
      obtain ⟨fuel, rfl⟩ := Nat.exists_eq_add_one_of_ne_zero
        (Nat.ne_of_gt (Nat.lt_of_lt_of_le (Nat.succ_pos _) hfuel))
      have hnext : s.nxt c = some d := hl.linked.of_append.1
      change (s.gClients c).nextClient = some d at hnext
      rw [removeLoop, ewp_bind, ewp_getClient, hnext]
      simp only []
      by_cases hd : d = i
      · subst hd
        have hunlink := Removed.of_unlink hst hl
        rw [if_pos rfl, ewp_bind, ewp_getClient, ewp_bind]
        change ewp _ _ E (s.setNext c (s.nxt d))
        have hst' : (s.setNext c (s.nxt d)).stations p = some st := hst
        split
        · rename_i hlast
          change s.nxt d = none at hlast
          rw [ewp_modifyList hst']
          rw [if_pos hlast] at hunlink
          exact hunlink
        · rename_i hlast
          change ¬ s.nxt d = none at hlast
          rw [if_neg hlast, Server.setList_self hst'] at hunlink
          exact hunlink
      · rw [if_neg hd]
        have happ : xs ++ c :: d :: ys = (xs ++ [c]) ++ d :: ys := by
          rw [List.append_assoc]
          rfl
        rw [happ] at hl ⊢
        exact ih _ hl (List.mem_of_ne_of_mem (Ne.symm hd) hi) (Nat.le_of_succ_le_succ hfuel)

theorem ewp_removeClientFromStation {E : Fault → Prop} (hl : Lists s q home)
    (hcur : s.cur i = some p) (hi : i ∈ q p) :
    ewp (removeClientFromStation i) (fun _ s' => Removed s s' p i (q p)) E s := by
  have hlisted := hl.listed p
  change (s.gClients i).curStation = some p at hcur
  rw [removeClientFromStation, ewp_bind, ewp_getClient, hcur]
  simp only []
  cases hst : s.stations p with
  | none =>
      rw [Server.list, hst] at hlisted
      rw [hlisted.eq_nil] at hi
      cases hi
  | some st =>
      rw [Server.list_of_some hst] at hlisted
      rw [ewp_bind, ewp_getStation hst]
      cases hhead : st.connectedClients.headClients with
      | none =>
          rw [hhead] at hlisted
          rw [hlisted.eq_nil] at hi
          cases hi
      | some c =>
          simp only []
          split
          · rename_i hc
            subst hc
            rw [hhead] at hlisted
            obtain ⟨l, hq⟩ := hlisted.eq_cons
            rw [hq, ← hhead] at hlisted
            rw [hq]
            have hremoved := Removed.of_head hst hlisted
            rw [ewp_bind, ewp_modifyList hst]
            split
            · rename_i htail
              have hlast : s.nxt c = none := by
                rw [htail] at hlisted
                exact hlisted.next_tail
              rw [if_pos hlast, hlast] at hremoved
              rw [ewp_bind, ewp_modifyList (Server.stations_setList hst), Server.setList_setList]
              refine ewp_kassert (decide_eq_true hlast) ?_
              change (s.gClients c).nextClient = none at hlast
              rw [hlast]
              exact hremoved
            · rename_i htail
              have hlast : s.nxt c ≠ none := by
                intro hnone
                refine htail (hlisted.tail.trans ?_)
                rw [hlisted.linked.1] at hnone
                rw [List.head?_eq_none_iff.mp hnone]
                rfl
              rw [if_neg hlast] at hremoved
              exact hremoved
          · rename_i hc
            have hhead' := hlisted
            rw [hhead] at hhead'
            obtain ⟨ys, hys⟩ := hhead'.eq_cons
            rw [hys] at hi hlisted ⊢
            refine ewp_removeLoop [] hst hlisted ?_ ?_
            · exact List.mem_of_ne_of_mem (Ne.symm hc) hi
            · have hlen := hl.length_le p
              rw [hys] at hlen
              exact Nat.le_of_succ_le hlen

/-- The lists after a client is taken out of its list. -/
theorem Removed.lists (h : Removed s s' p i (q p)) (hl : Lists s q home) (hi : i ∈ q p) :
    Lists s' (Function.update q p ((q p).erase i)) (Function.update home i none) := by
  have hhome := (hl.mem p i).mp hi
  refine ⟨?_, ?_, ?_⟩
  · intro p'
    rw [Function.update_apply]
    split
    · rename_i hp
      rw [hp]
      exact h.listed
    · rename_i hp
      rw [h.others p' hp]
      refine (hl.listed p').congr fun j hj => h.nxt j ?_
      intro hj'
      exact hp (Option.some.inj (((hl.mem p' j).mp hj).symm.trans ((hl.mem p j).mp hj')))
  · intro p' j
    rw [Function.update_apply, Function.update_apply]
    by_cases hp : p' = p
    · rw [if_pos hp, hp, (hl.listed p).nodup.mem_erase_iff, hl.mem]
      by_cases hj : j = i
      · rw [if_pos hj]
        exact iff_of_false (fun hne => hne.1 hj) nofun
      · rw [if_neg hj]
        exact and_iff_right hj
    · rw [if_neg hp, hl.mem]
      by_cases hj : j = i
      · rw [if_pos hj, hj, hhome]
        refine iff_of_false ?_ nofun
        exact fun heq => hp (Option.some.inj heq).symm
      · rw [if_neg hj]
  · intro j p' hj
    rw [Function.update_apply] at hj
    split at hj
    · cases hj
    · exact hl.lt j p' hj

/-! ### Appending a client -/

/-- The client `i` is at the end of the list `l` of the station `p`, and nothing else has changed. -/
structure Appended (s s' : Server) (p i : Nat) (l : List Nat) : Prop where
  core : s'.core = s.core
  cur : s'.cur = Function.update s.cur i (some p)
  counter : (s'.list p).counter = (s.list p).counter + 1
  others : ∀ p', p' ≠ p → s'.list p' = s.list p'
  listed : Listed s'.nxt (s'.list p).headClients (s'.list p).tailClients (l ++ [i])
  nxt : ∀ j, j ∉ l → s'.nxt j = s.nxt j

/-- The client `i` is linked at the end of the list of the station, which is not counted yet. -/
theorem ewp_linkClient {E : Fault → Prop} (hst : s.stations p = some st)
    (hl : Listed s.nxt st.connectedClients.headClients st.connectedClients.tailClients l)
    (hi : i ∉ l) (hnext : s.nxt i = none) :
    ewp (linkClient i p st.connectedClients) (fun _ s' => s'.core = s.core ∧ s'.cur = s.cur ∧
      (s'.list p).counter = (s.list p).counter ∧ (∀ p', p' ≠ p → s'.list p' = s.list p') ∧
      Listed s'.nxt (s'.list p).headClients (s'.list p).tailClients (l ++ [i]) ∧
      ∀ j, j ∉ l → s'.nxt j = s.nxt j) E s := by
  rw [linkClient]
  cases hhead : st.connectedClients.headClients with
  | none =>
      rw [hhead] at hl
      obtain rfl := hl.eq_nil
      simp only []
      rw [ewp_modifyList hst]
      refine ⟨Server.core_setList, rfl, ?_, ?_, ?_, fun _ _ => rfl⟩
      · rw [Server.list_setList_self _ hst, Server.list_of_some hst]
      · exact fun p' hp => Server.list_setList_of_ne hp
      · rw [Server.list_setList_self _ hst]
        exact .single hnext
  | some c =>
      rw [hhead] at hl
      obtain ⟨t, htail⟩ := hl.tail_isSome
      rw [htail] at hl ⊢
      simp only []
      have hst' : (s.setNext t (some i)).stations p = some st := hst
      rw [ewp_bind]
      change ewp _ _ E (s.setNext t (some i))
      rw [ewp_modifyList hst']
      refine ⟨Server.core_setList.trans Server.core_setNext, Server.cur_setNext, ?_, ?_, ?_, ?_⟩
      · rw [Server.list_setList_self _ hst', Server.list_of_some hst]
      · exact fun p' hp => Server.list_setList_of_ne hp
      · rw [Server.list_setList_self _ hst']
        change Listed (s.setNext t (some i)).nxt st.connectedClients.headClients (some i) _
        rw [Server.nxt_setNext, hhead]
        exact hl.append hi hnext
      · intro j hj
        change (s.setNext t (some i)).nxt j = _
        rw [Server.nxt_setNext]
        refine Function.update_of_ne ?_ _ _
        rintro rfl
        obtain ⟨xs, rfl⟩ := hl.eq_concat
        exact hj (List.mem_append_right _ (List.mem_singleton_self j))

theorem ewp_appendClientToStation {E : Fault → Prop} (hst : s.stations p = some st)
    (hl : Listed s.nxt st.connectedClients.headClients st.connectedClients.tailClients l)
    (hi : i ∉ l) (hnext : s.nxt i = none) (hcur : s.cur i ≠ some p) :
    ewp (appendClientToStation i p) (fun _ s' => Appended s s' p i l) E s := by
  change (s.gClients i).curStation ≠ some p at hcur
  rw [appendClientToStation, ewp_bind, ewp_getStation hst, ewp_bind, ewp_getClient, if_neg hcur]
  refine ewp_bind_of (ewp_linkClient hst hl hi hnext) ?_
  rintro _ s₁ ⟨hcore, hcur₁, hcounter, hothers, hlisted, hnxt⟩
  obtain ⟨st₁, hst₁, -⟩ := Server.station_of_core hcore hst
  rw [ewp_bind, ewp_modifyList hst₁]
  rw [Server.list_of_some hst₁] at hlisted hcounter
  have hlist := Server.list_setList_self
    { st₁.connectedClients with counter := st₁.connectedClients.counter + 1 } hst₁
  change Appended s ((s₁.setList p { st₁.connectedClients with
    counter := st₁.connectedClients.counter + 1 }).setCur i (some p)) p i l
  have hnxt₂ : ((s₁.setList p { st₁.connectedClients with
      counter := st₁.connectedClients.counter + 1 }).setCur i (some p)).nxt = s₁.nxt :=
    Server.nxt_setCur
  have hlist₂ : ((s₁.setList p { st₁.connectedClients with
      counter := st₁.connectedClients.counter + 1 }).setCur i (some p)).list p =
      { st₁.connectedClients with counter := st₁.connectedClients.counter + 1 } := hlist
  refine ⟨?_, ?_, ?_, ?_, ?_, ?_⟩
  · exact (Server.core_setCur.trans Server.core_setList).trans hcore
  · rw [Server.cur_setCur, ← hcur₁]
    rfl
  · rw [hlist₂, ← hcounter]
  · intro p' hp
    rw [← hothers p' hp]
    exact Server.list_setList_of_ne hp
  · rw [hnxt₂, hlist₂]
    exact hlisted
  · intro j hj
    rw [hnxt₂]
    exact hnxt j hj

/-- The lists after a client without a home is appended to a list. -/
theorem Appended.lists (h : Appended s s' p i (q p)) (hl : Lists s q home) (hhome : home i = none)
    (hi : i < maxClientNum) :
    Lists s' (Function.update q p (q p ++ [i])) (Function.update home i (some p)) := by
  refine ⟨?_, ?_, ?_⟩
  · intro p'
    rw [Function.update_apply]
    split
    · rename_i hp
      rw [hp]
      exact h.listed
    · rename_i hp
      rw [h.others p' hp]
      refine (hl.listed p').congr fun j hj => h.nxt j ?_
      intro hj'
      exact hp (Option.some.inj (((hl.mem p' j).mp hj).symm.trans ((hl.mem p j).mp hj')))
  · intro p' j
    rw [Function.update_apply, Function.update_apply]
    by_cases hj : j = i
    · rw [if_pos hj, hj]
      by_cases hp : p' = p
      · rw [if_pos hp, hp]
        exact iff_of_true (List.mem_append_right _ (List.mem_singleton_self i)) rfl
      · rw [if_neg hp, hl.mem, hhome]
        exact iff_of_false nofun fun heq => hp (Option.some.inj heq).symm
    · rw [if_neg hj, ← hl.mem]
      by_cases hp : p' = p
      · rw [if_pos hp, hp, List.mem_append, List.mem_singleton]
        exact or_iff_left hj
      · rw [if_neg hp]
  · intro j p' hj
    rw [Function.update_apply] at hj
    split at hj
    · rename_i heq
      rw [heq]
      exact hi
    · exact hl.lt j p' hj

/-! ### Dismissing the clients of a station -/

/-- The clients of the list `l` of the station `p` are in no list and have no station, and nothing
else has changed but the counter. -/
structure Dismissed (s s' : Server) (p : Nat) (l : List Nat) : Prop where
  core : s'.core = s.core
  cur : ∀ j, s'.cur j = if j ∈ l then none else s.cur j
  nxt : ∀ j, s'.nxt j = if j ∈ l then none else s.nxt j
  counter : (s'.list p).counter = (s.list p).counter - l.length
  others : ∀ p', p' ≠ p → s'.list p' = s.list p'

namespace Server

/-- The client loses its station and its link. -/
def dismiss (s : Server) (c : Nat) : Server :=
  { s with
    gClients := Function.update s.gClients c
      { s.gClients c with nextClient := none, curStation := none } }

theorem cur_dismiss : (s.dismiss c).cur = Function.update s.cur c none := by
  funext j
  change (Function.update s.gClients c _ j).curStation = _
  rw [Function.update_apply, Function.update_apply]
  split
  · rfl
  · rfl

theorem nxt_dismiss : (s.dismiss c).nxt = Function.update s.nxt c none := by
  funext j
  change (Function.update s.gClients c _ j).nextClient = _
  rw [Function.update_apply, Function.update_apply]
  split
  · rfl
  · rfl

theorem core_dismiss : (s.dismiss c).core = s.core := core_setClient rfl

end Server

theorem ewp_dismissLoop {E : Fault → Prop} {fuel : Nat} (hst : s.stations p = some st)
    (hl : Linked s.nxt l) (hnodup : l.Nodup) (hfuel : l.length ≤ fuel) :
    ewp (dismissLoop p fuel l.head?) (fun _ s' => Dismissed s s' p l) E s := by
  induction l generalizing s st fuel with
  | nil =>
      cases fuel with
      | zero => exact ⟨rfl, fun _ => rfl, fun _ => rfl, (Int.sub_zero _).symm, fun _ _ => rfl⟩
      | succ fuel => exact ⟨rfl, fun _ => rfl, fun _ => rfl, (Int.sub_zero _).symm, fun _ _ => rfl⟩
  | cons c l ih =>
      obtain ⟨fuel, rfl⟩ := Nat.exists_eq_add_one_of_ne_zero
        (Nat.ne_of_gt (Nat.lt_of_lt_of_le (Nat.succ_pos _) hfuel))
      obtain ⟨hc, hnodup⟩ := List.nodup_cons.mp hnodup
      have hnext : (s.gClients c).nextClient = l.head? := hl.1
      change ewp (dismissLoop p (fuel + 1) (some c)) _ E s
      rw [dismissLoop, ewp_bind, ewp_getClient, ewp_bind]
      refine ewp_announce fun sends out => ?_
      rw [ewp_bind, hnext]
      set s₁ : Server := { s with sends := sends, out := out } with hs₁
      change ewp _ _ E (s₁.dismiss c)
      have hst₁ : (s₁.dismiss c).stations p = some st := hst
      rw [ewp_bind, ewp_modifyList hst₁]
      set s₂ := (s₁.dismiss c).setList p
        { st.connectedClients with counter := st.connectedClients.counter - 1 } with hs₂
      have hlist₂ : s₂.list p =
          { st.connectedClients with counter := st.connectedClients.counter - 1 } :=
        Server.list_setList_self _ hst₁
      have hnxt₂ : s₂.nxt = Function.update s.nxt c none := Server.nxt_dismiss
      have hcur₂ : s₂.cur = Function.update s.cur c none := Server.cur_dismiss
      have hlinked : Linked s₂.nxt l := by
        refine hl.2.congr fun j hj => ?_
        rw [hnxt₂]
        refine Function.update_of_ne ?_ _ _
        rintro rfl
        exact hc hj
      refine ewp_mono (ih (Server.stations_setList hst₁) hlinked hnodup
        (Nat.le_of_succ_le_succ hfuel)) ?_ fun _ h => h
      rintro _ s' ⟨hcore, hcur, hnxt, hcounter, hothers⟩
      refine ⟨?_, ?_, ?_, ?_, ?_⟩
      · exact hcore.trans (Server.core_setList.trans Server.core_dismiss)
      · intro j
        rw [hcur, hcur₂, Function.update_apply]
        by_cases hj : j = c
        · simp [hj]
        · simp [hj]
      · intro j
        rw [hnxt, hnxt₂, Function.update_apply]
        by_cases hj : j = c
        · simp [hj]
        · simp [hj]
      · rw [hcounter, hlist₂, Server.list_of_some hst, List.length_cons]
        push_cast
        omega
      · intro p' hp
        rw [hothers p' hp]
        exact Server.list_setList_of_ne hp

/-- The lists after all clients of a station are dismissed and the station is freed. -/
theorem Dismissed.lists {s'' : Server} (h : Dismissed s s' p (q p)) (hl : Lists s q home)
    (hnxt : s''.nxt = s'.nxt) (hothers : ∀ p', p' ≠ p → s''.list p' = s'.list p')
    (hfree : s''.list p = ⟨none, none, 0⟩) :
    Lists s'' (Function.update q p []) fun j => if home j = some p then none else home j := by
  refine ⟨?_, ?_, ?_⟩
  · intro p'
    rw [Function.update_apply]
    split
    · rename_i hp
      rw [hp, hfree]
      exact .nil
    · rename_i hp
      rw [hothers p' hp, h.others p' hp]
      refine (hl.listed p').congr fun j hj => ?_
      rw [hnxt, h.nxt, if_neg]
      intro hj'
      exact hp (Option.some.inj (((hl.mem p' j).mp hj).symm.trans ((hl.mem p j).mp hj')))
  · intro p' j
    rw [Function.update_apply]
    by_cases hp : p' = p
    · rw [if_pos hp, hp]
      refine iff_of_false List.not_mem_nil ?_
      split
      · exact nofun
      · assumption
    · rw [if_neg hp, hl.mem]
      split
      · rename_i hj
        rw [hj]
        exact iff_of_false (fun heq => hp (Option.some.inj heq).symm) nofun
      · rfl
  · intro j p' hj
    split at hj
    · cases hj
    · exact hl.lt j p' hj

end CodingSample.Snowcast
