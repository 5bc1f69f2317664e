import CodingSample.Snowcast.Reached

/-!
# Station identifiers

A new station gets the first position whose station has another identifier, and the command `d`
refuses an identifier that is not smaller than the number of stations. Both work as long as the
identifiers are `0`, `1` and so on in the order of the list, which holds until a station that is not
the last one is removed.
-/

namespace CodingSample.Snowcast

open Prog

variable {s s' : Server} {p t : Nat} {ps xs ys : List Nat} {E : Fault → Prop} {k : Int}
  {token : List Char} {tokens : List (List Char)}

/-- The identifiers are distinct, `find_station_from_id` finds the station with an identifier, and
the command `d` removes it. -/
structure Identified (s : Server) (ps : List Nat) : Prop where
  stationed : Stationed s ps
  distinct : (ps.map s.idOf).Nodup
  find : ∀ id, ∃ found, findStationFromId id s = .ok (found, s) ∧
    ∀ p, found = some p ↔ p ∈ ps ∧ s.idOf p = id
  delete : ∀ p ∈ ps, ∀ token sends, atoi token = s.idOf p →
    ∃ r s', (Event.delete [token]).run s sends = .ok (r, s') ∧ Stationed s' (ps.erase p) ∧
      ∀ j, j ≠ p → s'.idOf j = s.idOf j

/-- The commands `a` and `d`. -/
def Event.Manages : Event → Prop
  | add _ _ => True
  | delete _ => True
  | _ => False

/-- Each token names no station or the last one of those left, where `n` stations have the
identifiers below `n`. -/
def DeletesLast : Int → List (List Char) → Prop
  | _, [] => True
  | n, token :: tokens =>
      if 0 ≤ atoi token ∧ atoi token < n then atoi token = n - 1 ∧ DeletesLast (n - 1) tokens
      else DeletesLast n tokens

instance decidableDeletesLast : (n : Int) → (tokens : List (List Char)) →
    Decidable (DeletesLast n tokens)
  | _, [] => isTrue trivial
  | n, token :: tokens =>
      have := decidableDeletesLast (n - 1) tokens
      have := decidableDeletesLast n tokens
      inferInstanceAs (Decidable (if 0 ≤ atoi token ∧ atoi token < n then
        atoi token = n - 1 ∧ DeletesLast (n - 1) tokens else DeletesLast n tokens))

/-- A command `a`, or a command `d` that removes stations from the end only. -/
def Event.KeepsOrder (s : Server) : Event → Prop
  | add _ _ => True
  | delete tokens => DeletesLast s.counter tokens
  | _ => False

theorem Event.KeepsOrder.manages {e : Event} (h : e.KeepsOrder s) : e.Manages := by
  cases e with
  | add songs p => trivial
  | delete tokens => trivial
  | accept newfd => exact h
  | read fd input udp => exact h
  | start p => exact h
  | packet p => exact h
  | nextSong p song => exact h

/-! ### Consecutive identifiers -/

namespace Counted

theorem append (h : Counted s k (xs ++ ys)) : Counted s k xs ∧ Counted s (k + xs.length) ys := by
  induction xs generalizing k with
  | nil => exact ⟨trivial, by rwa [List.length_nil, Int.natCast_zero, Int.add_zero]⟩
  | cons x xs ih =>
      obtain ⟨hxs, hys⟩ := ih h.2
      refine ⟨⟨h.1, hxs⟩, ?_⟩
      rw [List.length_cons]
      push_cast
      rwa [Int.add_comm (xs.length : Int) 1, ← Int.add_assoc]

theorem concat (h : Counted s k xs) (hid : s.idOf p = k + xs.length) : Counted s k (xs ++ [p]) := by
  induction xs generalizing k with
  | nil =>
      rw [List.length_nil, Int.natCast_zero, Int.add_zero] at hid
      exact ⟨hid, trivial⟩
  | cons x xs ih =>
      refine ⟨h.1, ih h.2 ?_⟩
      rw [hid, List.length_cons]
      push_cast
      omega

theorem bounds (h : Counted s k ps) (hp : p ∈ ps) :
    k ≤ s.idOf p ∧ s.idOf p < k + ps.length := by
  induction ps generalizing k with
  | nil => cases hp
  | cons x ps ih =>
      rw [List.length_cons]
      push_cast
      rcases List.mem_cons.mp hp with rfl | hp
      · rw [h.1]
        omega
      · have hrest := ih h.2 hp
        omega

theorem exists_mem (h : Counted s k ps) {id : Int} (hlo : k ≤ id) (hhi : id < k + ps.length) :
    ∃ p ∈ ps, s.idOf p = id := by
  induction ps generalizing k with
  | nil =>
      rw [List.length_nil, Int.natCast_zero] at hhi
      omega
  | cons x ps ih =>
      rw [List.length_cons] at hhi
      push_cast at hhi
      rcases Int.lt_or_eq_of_le hlo with hlt | rfl
      · obtain ⟨p, hp, hid⟩ := ih h.2 hlt (by omega)
        exact ⟨p, List.mem_cons_of_mem x hp, hid⟩
      · exact ⟨x, List.mem_cons_self, h.1⟩

theorem nodup (h : Counted s k ps) : (ps.map s.idOf).Nodup := by
  induction ps generalizing k with
  | nil => exact List.nodup_nil
  | cons x ps ih =>
      refine List.nodup_cons.mpr ⟨?_, ih h.2⟩
      intro hin
      obtain ⟨y, hy, heq⟩ := List.mem_map.mp hin
      have hbounds := h.2.bounds hy
      rw [heq, h.1] at hbounds
      omega

theorem injOn (h : Counted s k ps) {p p' : Nat} (hp : p ∈ ps) (hp' : p' ∈ ps)
    (heq : s.idOf p = s.idOf p') : p = p' :=
  List.inj_on_of_nodup_map h.nodup hp hp' heq

end Counted

/-! ### What the commands keep -/

/-- No station has a client. -/
def Idle (s : Server) : Prop := ∀ p, s.list p = ⟨none, none, 0⟩

theorem Idle.lists (h : Idle s) : Lists s (fun _ => []) fun _ => none := by
  refine ⟨fun p => ?_, fun p i => ?_, fun i p hi => ?_⟩
  · rw [h p]
    exact .nil
  · exact iff_of_false List.not_mem_nil nofun
  · cases hi

/-- The stations have the identifiers `0`, `1` and so on. -/
def Ordered (s : Server) : Prop := ∃ ps, Stationed s ps ∧ Idle s ∧ Counted s 0 ps

/-- A station has an identifier that the command `d` refuses. -/
def Stuck (s : Server) : Prop := ∃ ps, Stationed s ps ∧ Idle s ∧ ∃ p ∈ ps, s.counter ≤ s.idOf p

theorem Freed.idle (h : Freed s s' ps p []) (hidle : Idle s) : Idle s' := by
  obtain ⟨s₁, hdismissed, hdropped⟩ := h
  intro j
  rw [hdropped.list, Function.update_apply]
  split
  · rfl
  · rename_i hj
    rw [hdismissed.others j hj]
    exact hidle j

theorem Freed.stationed {l : List Nat} (h : Freed s s' ps p l) : Stationed s' (ps.erase p) := by
  obtain ⟨_, _, hdropped⟩ := h
  exact hdropped.stationed

theorem Freed.ids {l : List Nat} (h : Freed s s' ps p l) {j : Nat} (hj : j ≠ p) :
    s'.idOf j = s.idOf j := by
  obtain ⟨s₁, hdismissed, hdropped⟩ := h
  rw [hdropped.ids j hj, Server.idOf_of_core hdismissed.core]

theorem Quiet.idle (h : Quiet s s') (hidle : Idle s) : Idle s' := by
  obtain ⟨_, _, rfl⟩ := h
  exact hidle

theorem Quiet.ordered (h : Quiet s s') (hs : Ordered s) : Ordered s' := by
  obtain ⟨ps, hstationed, hidle, hcounted⟩ := hs
  exact ⟨ps, h.stationed hstationed, h.idle hidle, hcounted.congr fun p _ => congrFun h.idOf p⟩

/-- What is left after the last station is removed. -/
theorem Ordered.of_freed_last (h : Freed s s' (xs ++ [t]) t []) (hs : Stationed s (xs ++ [t]))
    (hidle : Idle s) (hcounted : Counted s 0 (xs ++ [t])) :
    Ordered s' ∧ s'.counter = s.counter - 1 := by
  have ht : t ∉ xs := by
    intro hin
    exact (List.nodup_append.mp hs.listed.nodup).2.2 t hin t (List.mem_singleton_self t) rfl
  have herase : (xs ++ [t]).erase t = xs := by
    rw [List.erase_append_right _ ht, List.erase_cons_head, List.append_nil]
  have hstationed := h.stationed
  rw [herase] at hstationed
  refine ⟨⟨xs, hstationed, h.idle hidle, hcounted.append.1.congr fun p hp => h.ids ?_⟩, ?_⟩
  · rintro rfl
    exact ht hp
  · rw [hstationed.counter, hs.counter, List.length_append, List.length_singleton]
    push_cast
    omega

/-- What is left after another station is removed. -/
theorem Stuck.of_freed {l : List Nat} (h : Freed s s' ps p l) (hidle : Idle s') (hs : Stationed s ps)
    (hp : p ∈ ps) (ht : t ∈ ps) (hne : t ≠ p) (hid : s.counter - 1 ≤ s.idOf t) : Stuck s' := by
  refine ⟨ps.erase p, h.stationed, hidle, t, (List.mem_erase_of_ne hne).mpr ht, ?_⟩
  rw [h.ids hne, h.stationed.counter, List.length_erase_of_mem hp]
  have hcounter := hs.counter
  have hpos := List.length_pos_of_mem hp
  omega

theorem Stuck.of_deleteToken (h : Stuck s) :
    ewp (deleteToken token) (fun _ s' => Stuck s') E s := by
  obtain ⟨ps, hstationed, hidle, t, ht, hid⟩ := h
  refine ewp_mono (ewp_deleteToken hstationed hidle.lists ?_) ?_ fun _ he => he
  · intro p _ hne
    rw [hidle p] at hne
    exact absurd rfl hne
  · rintro _ s' (⟨rfl, -⟩ | ⟨p, hp, hnamed, hfreed⟩)
    · exact ⟨ps, hstationed, hidle, t, ht, hid⟩
    · have hne : t ≠ p := by
        rintro rfl
        have hlt := hnamed.2.1
        rw [← hnamed.2.2] at hlt
        omega
      exact .of_freed hfreed (hfreed.idle hidle) hstationed hp ht hne (by omega)

/-- The last station has the largest identifier. -/
theorem Counted.last (h : Counted s 0 (xs ++ [t])) (hs : Stationed s (xs ++ [t])) :
    s.idOf t = s.counter - 1 := by
  rw [h.append.2.1, hs.counter, List.length_append, List.length_singleton]
  push_cast
  omega

theorem Ordered.of_userDelete (h : Ordered s) :
    ewp (userDelete tokens) (fun _ s' => (DeletesLast s.counter tokens → Ordered s') ∧
      (¬ DeletesLast s.counter tokens → Stuck s')) E s := by
  induction tokens generalizing s with
  | nil => exact ⟨fun _ => h, fun hnot => absurd trivial hnot⟩
  | cons token tokens ih =>
      obtain ⟨ps, hstationed, hidle, hcounted⟩ := h
      refine ewp_bind_of (ewp_deleteToken hstationed hidle.lists ?_) ?_
      · intro p _ hne
        rw [hidle p] at hne
        exact absurd rfl hne
      rintro _ s₁ (⟨rfl, hnone⟩ | ⟨p, hp, hnamed, hfreed⟩)
      · have hrange : ¬ (0 ≤ atoi token ∧ atoi token < s₁.counter) := by
          rintro ⟨hlo, hhi⟩
          rw [hstationed.counter, ← Int.zero_add (ps.length : Int)] at hhi
          obtain ⟨p, hp, hid⟩ := hcounted.exists_mem hlo hhi
          rw [← hid, Int.zero_add, ← hstationed.counter] at hhi
          exact hnone p hp ⟨hlo, hid ▸ hhi, hid⟩
        rw [DeletesLast, if_neg hrange]
        exact ih ⟨ps, hstationed, hidle, hcounted⟩
      · rw [DeletesLast, if_pos ⟨hnamed.1, hnamed.2.1⟩]
        obtain ⟨xs, t, rfl⟩ := (List.eq_nil_or_concat' ps).resolve_left (List.ne_nil_of_mem hp)
        have ht : t ∈ xs ++ [t] := List.mem_append_right xs (List.mem_singleton_self t)
        have hlast := hcounted.last hstationed
        by_cases hid : atoi token = s.counter - 1
        · obtain rfl : p = t := hcounted.injOn hp ht (hnamed.2.2.trans (hid.trans hlast.symm))
          obtain ⟨hordered, hcounter⟩ := Ordered.of_freed_last hfreed hstationed hidle hcounted
          rw [← hcounter]
          refine ewp_mono (ih hordered) ?_ fun _ he => he
          intro _ s' ⟨hgood, hbad⟩
          exact ⟨fun hd => hgood hd.2, fun hnot => hbad fun hd => hnot ⟨hcounter ▸ hid, hd⟩⟩
        · have hne : t ≠ p := by
            rintro rfl
            exact hid (hnamed.2.2.symm.trans hlast)
          have hstuck := Stuck.of_freed hfreed (hfreed.idle hidle) hstationed hp ht hne
            (Int.le_of_eq hlast.symm)
          refine ewp_mono (ewp_each (I := fun _ t => Stuck t) hstuck fun _ _ _ hs => hs.of_deleteToken)
            ?_ fun _ he => he
          exact fun _ s' hs' => ⟨fun hd => absurd hd.1 hid, fun _ => hs'⟩

theorem Ordered.of_userAdd {songs : List (List UInt8)} (h : Ordered s) (hfree : s.stations p = none) :
    ewp (userAdd songs p) (fun _ s' => Ordered s') E s := by
  obtain ⟨ps, hstationed, hidle, hcounted⟩ := h
  refine ewp_mono (ewp_userAdd hstationed hfree) ?_ fun _ he => he
  rintro _ s' ⟨s₁, hquiet, rfl | ⟨hlt, hpushed⟩⟩
  · exact hquiet.ordered ⟨ps, hstationed, hidle, hcounted⟩
  have hp : p ∉ ps := by
    intro hin
    obtain ⟨st, hst⟩ := hstationed.exists_station hin
    rw [hst] at hfree
    cases hfree
  have hids : ∀ j, j ≠ p → (s.alloc songs p).idOf j = s.idOf j := by
    intro j hj
    rw [Server.alloc, Server.idOf_putStation]
    exact Function.update_of_ne hj _ _
  have hcounted₁ : Counted (s.alloc songs p) 0 ps := by
    refine hcounted.congr fun j hj => hids j ?_
    rintro rfl
    exact hp hj
  refine hquiet.ordered ⟨ps ++ [p], hpushed.stationed hstationed hlt, ?_, ?_⟩
  · intro j
    rw [hpushed.list_eq hfree]
    exact hidle j
  · refine Counted.concat (hcounted₁.congr fun j hj => hpushed.ids j ?_) ?_
    · rintro rfl
      exact hp hj
    · rw [hpushed.id hcounted₁, Int.zero_add]

/-! ### The property -/

/-- While the identifiers are consecutive, the station with an identifier is the one found. -/
theorem Ordered.identified (h : Ordered s) : ∃ ps, Identified s ps := by
  obtain ⟨ps, hstationed, hidle, hcounted⟩ := h
  refine ⟨ps, hstationed, hcounted.nodup, ?_, ?_⟩
  · intro id
    refine ⟨_, hstationed.findStationFromId id, fun p => ⟨fun hfind => ?_, ?_⟩⟩
    · have hid := List.find?_some hfind
      rw [decide_eq_true_eq] at hid
      exact ⟨List.mem_of_find?_eq_some hfind, hid⟩
    · rintro ⟨hp, hid⟩
      cases hfind : ps.find? fun p => s.idOf p = id with
      | none => exact absurd (decide_eq_true hid) (List.find?_eq_none.mp hfind p hp)
      | some p' =>
          have hid' := List.find?_some hfind
          rw [decide_eq_true_eq] at hid'
          rw [hcounted.injOn (List.mem_of_find?_eq_some hfind) hp (hid'.trans hid.symm)]
  · intro p hp token sends htoken
    obtain ⟨hlo, hhi⟩ := hcounted.bounds hp
    set s₁ : Server := { s with sends := sends, out := [] } with hs₁
    have hquiet : Quiet s s₁ := ⟨sends, [], rfl⟩
    have hdelete : wp (deleteToken token) (fun _ s' => Stationed s' (ps.erase p) ∧
        ∀ j, j ≠ p → s'.idOf j = s.idOf j) s₁ := by
      refine wp_of_ewp (ewp_mono (ewp_deleteToken (E := fun _ => False) (hquiet.stationed hstationed)
        (hquiet.lists hidle.lists) ?_) ?_ fun _ he => he) fun _ he => he
      · intro j _ hne
        have hj : s₁.list j = ⟨none, none, 0⟩ := hidle j
        rw [hj] at hne
        exact absurd rfl hne
      · rintro _ s' (⟨-, hnone⟩ | ⟨j, hj, hnamed, hfreed⟩)
        · refine absurd ⟨?_, ?_, htoken.symm⟩ (hnone p hp)
          · rw [htoken]
            exact hlo
          · rw [htoken, hs₁]
            change s.idOf p < s.counter
            rw [hstationed.counter, ← Int.zero_add (ps.length : Int)]
            exact hhi
        · have hid : s.idOf j = atoi token := hnamed.2.2
          obtain rfl := hcounted.injOn hj hp (hid.trans htoken)
          exact ⟨hfreed.stationed, fun j hj => hfreed.ids hj⟩
    exact wp_bind_of (wp_bind_of hdelete fun _ _ hs' => wp_pure.mpr hs') fun _ _ hs' =>
      wp_pure.mpr hs'

/-- The station with the refused identifier cannot be removed. -/
theorem Stuck.not_identified (h : Stuck s) : ¬ ∃ ps, Identified s ps := by
  rintro ⟨ps', hidentified⟩
  obtain ⟨ps, hstationed, -, p, hp, hid⟩ := h
  obtain rfl := hidentified.stationed.listed.unique hstationed.listed
  have hcounter := hstationed.counter
  have hnonneg : ((s.idOf p).toNat : Int) = s.idOf p := Int.toNat_of_nonneg (by omega)
  have htoken : atoi (Nat.toDigits 10 (s.idOf p).toNat) = s.idOf p := by
    rw [atoi_toDigits, hnonneg]
  obtain ⟨r, s', hrun, hstationed', -⟩ := hidentified.delete p hp _ [] htoken
  set s₁ : Server := { s with sends := [], out := [] }
  have hrefused : deleteToken (Nat.toDigits 10 (s.idOf p).toNat) s₁ = .ok ((), s₁) := by
    rw [deleteToken, htoken, bind_eq_of_ok (get_apply s₁), if_pos (.inr hid)]
    rfl
  have hsame : (Event.delete [Nat.toDigits 10 (s.idOf p).toNat]).run s [] = .ok ([], s₁) := by
    have hdelete : userDelete [Nat.toDigits 10 (s.idOf p).toNat] s₁ = .ok ((), s₁) :=
      bind_eq_of_ok hrefused
    exact bind_eq_of_ok hdelete
  rw [hsame] at hrun
  have hs' : s₁ = s' := congrArg Prod.snd (Except.ok.inj hrun)
  rw [← hs'] at hstationed'
  have herase := hstationed'.listed.unique hstationed.listed
  have hlen := congrArg List.length herase
  rw [List.length_erase_of_mem hp] at hlen
  have hpos := List.length_pos_of_mem hp
  omega

theorem Ordered.init (sockfd : Nat) : Ordered (Server.init sockfd) := by
  refine ⟨[], ⟨.nil, rfl, fun p => ?_, Nat.zero_le _⟩, fun _ => rfl, trivial⟩
  exact iff_of_false List.not_mem_nil nofun

theorem Ordered.of_run {e : Event} (h : Ordered s) (sends : List Bool)
    (henabled : e.Enabled s) (he : e.Manages) : ewp e.prog (fun _ s' => (e.KeepsOrder s → Ordered s') ∧
      (¬ e.KeepsOrder s → Stuck s')) E { s with sends := sends, out := [] } := by
  have hquiet : Quiet s { s with sends := sends, out := [] } := ⟨sends, [], rfl⟩
  have h₁ := hquiet.ordered h
  cases e with
  | add songs p =>
      refine ewp_bind_of (h₁.of_userAdd henabled.2.2) fun _ s' hs' => ?_
      exact ⟨fun _ => hs', fun hnot => absurd trivial hnot⟩
  | delete tokens => exact ewp_bind_of h₁.of_userDelete fun _ s' hs' => hs'
  | accept newfd => cases he
  | read fd input udp => cases he
  | start p => cases he
  | packet p => cases he
  | nextSong p song => cases he

theorem Ordered.reached {sockfd : Nat}
    (h : Reached (fun s e => e.KeepsOrder s) (Server.init sockfd) s) : Ordered s :=
  h.invariant (.init sockfd) fun _ _ _ hs henabled hok =>
    ewp_mono (E := fun _ => True) (hs.of_run _ henabled hok.manages) (fun _ _ hs' => hs'.1 hok)
      fun _ he => he

/-- The server with three stations that have a song each. -/
def threeStations : Server :=
  [.add [text "a.mp3"] 1, .add [text "b.mp3"] 2, .add [text "c.mp3"] 3].foldl Server.after
    (Server.init 3)

theorem threeStations_reached (ok : Server → Event → Prop) (hok : ∀ s songs p, ok s (.add songs p)) :
    Reached ok (Server.init 3) threeStations := by
  refine Reached.init.events ⟨⟨by decide, by decide, rfl⟩, hok _ _ _, rfl, ?_⟩
  refine ⟨⟨by decide, by decide, rfl⟩, hok _ _ _, rfl, ?_⟩
  exact ⟨⟨by decide, by decide, rfl⟩, hok _ _ _, rfl, trivial⟩

end CodingSample.Snowcast
