import CodingSample.Snowcast.Stations

/-!
# Runs of the server

The states that the server reaches, and what the commands `a` and `d` and the song threads do in
terms of the lists.
-/

namespace CodingSample.Snowcast

open Prog

/-- The server before its first station. -/
def Server.init (sockfd : Nat) : Server where
  gClients := fun _ => .zero
  stations := fun _ => none
  headStation := none
  tailStation := none
  counter := 0
  sockfd := sockfd
  master := [sockfd]
  openFds := [sockfd]
  sends := []
  out := []

/-- The states reached by events that can happen and satisfy `ok` in the state before. -/
inductive Reached (ok : Server → Event → Prop) (s₀ : Server) : Server → Prop
  | init : Reached ok s₀ s₀
  | step {s s' : Server} {e : Event} {sends : List Bool} {r : List Nat} (h : Reached ok s₀ s)
      (henabled : e.Enabled s) (hok : ok s e) (hrun : e.run s sends = .ok (r, s')) :
      Reached ok s₀ s'

/-- The state after an event when all messages can be sent. -/
def Server.after (s : Server) (e : Event) : Server :=
  match e.run s [] with
  | .error _ => s
  | .ok (_, s') => s'

/-- The events can happen one after the other, and none of them goes wrong. -/
def Legal (ok : Server → Event → Prop) : Server → List Event → Prop
  | _, [] => True
  | s, e :: es => e.Enabled s ∧ ok s e ∧ (e.run s []).isOk ∧ Legal ok (s.after e) es

/-- The states differ at most in the messages. -/
def Quiet (s s' : Server) : Prop := ∃ sends out, s' = { s with sends := sends, out := out }

variable {s s' s'' s₀ : Server} {p : Nat} {ps l : List Nat} {q : Nat → List Nat}
  {home : Nat → Option Nat} {E : Fault → Prop} {songs : List (List UInt8)} {token : List Char}
  {ok : Server → Event → Prop} {I : Server → Prop}

/-- What every event keeps holds in every state reached. -/
theorem Reached.invariant (h : Reached ok s₀ s) (hinit : I s₀)
    (hstep : ∀ s e sends, I s → e.Enabled s → ok s e →
      ewp e.prog (fun _ s' => I s') E { s with sends := sends, out := [] }) : I s := by
  induction h with
  | init => exact hinit
  | step _ henabled hok hrun ih =>
      exact (ewp_of_ok hrun).mp (hstep _ _ _ ih henabled hok)

theorem Reached.after {e : Event} (h : Reached ok s₀ s) (henabled : e.Enabled s) (hok : ok s e)
    (hrun : (e.run s []).isOk) : Reached ok s₀ (s.after e) := by
  cases hresult : e.run s [] with
  | error f =>
      rw [hresult] at hrun
      cases hrun
  | ok result =>
      obtain ⟨r, s'⟩ := result
      have hafter : s.after e = s' := by
        rw [Server.after, hresult]
      rw [hafter]
      exact h.step henabled hok hresult

theorem Reached.events {es : List Event} (h : Reached ok s₀ s) (hes : Legal ok s es) :
    Reached ok s₀ (es.foldl Server.after s) := by
  induction es generalizing s with
  | nil => exact h
  | cons e es ih =>
      obtain ⟨henabled, hok, hrun, hrest⟩ := hes
      exact ih (h.after henabled hok hrun) hrest

namespace Quiet

theorem refl (s : Server) : Quiet s s := ⟨_, _, rfl⟩

theorem trans (h : Quiet s s') (h' : Quiet s' s'') : Quiet s s'' := by
  obtain ⟨_, _, rfl⟩ := h
  obtain ⟨sends, out, rfl⟩ := h'
  exact ⟨sends, out, rfl⟩

theorem core (h : Quiet s s') : s'.core = s.core := by
  obtain ⟨_, _, rfl⟩ := h
  rfl

theorem lists (h : Quiet s s') (hl : Lists s q home) : Lists s' q home := by
  obtain ⟨_, _, rfl⟩ := h
  exact ⟨hl.listed, hl.mem, hl.lt⟩

theorem idOf (h : Quiet s s') : s'.idOf = s.idOf := Server.idOf_of_core h.core

theorem stationed (h : Quiet s s') (hs : Stationed s ps) : Stationed s' ps := hs.of_core h.core

end Quiet

theorem ewp_announce_quiet {fd : Nat} {message : List UInt8} :
    ewp (announce fd message) (fun _ s' => Quiet s s') E s :=
  ewp_announce fun sends out => ⟨sends, out, rfl⟩

theorem ewp_each_quiet {ι : Type} {f : ι → ServerM Unit} {xs : List ι}
    (h : ∀ x ∈ xs, ∀ t, Quiet s t → ewp (f x) (fun _ t' => Quiet s t') E t) :
    ewp (each f xs) (fun _ s' => Quiet s s') E s := by
  refine ewp_each (I := fun rest t => (∀ x ∈ rest, x ∈ xs) ∧ Quiet s t)
    ⟨fun x hx => hx, .refl s⟩ ?_ |> fun hloop => ewp_mono hloop (fun _ _ ht => ht.2) fun _ he => he
  intro x rest t ⟨hmem, ht⟩
  refine ewp_mono (h x (hmem x List.mem_cons_self) t ht) ?_ fun _ he => he
  exact fun _ t' ht' => ⟨fun y hy => hmem y (List.mem_cons_of_mem x hy), ht'⟩

/-! ### Commands of the user -/

theorem ewp_announceStation (i : Nat) :
    ewp (announceStation i) (fun _ s' => Quiet s s') E s := by
  rw [announceStation, ewp_bind, ewp_getClient]
  split
  · exact ewp_announce_quiet
  · exact .refl s

/-- The command `a` adds a station, or changes nothing. -/
theorem ewp_userAdd (h : Stationed s ps) (hfree : s.stations p = none) :
    ewp (userAdd songs p) (fun _ s' => ∃ s₁, Quiet s₁ s' ∧
      (s₁ = s ∨ ps.length < maxStationNum ∧ Pushed (s.alloc songs p) s₁ ps p)) E s := by
  refine ewp_bind_of (ewp_addStation h hfree) fun _ s₁ hs₁ => ?_
  refine ewp_mono (ewp_each_quiet (s := s₁) fun i _ t ht => ?_) ?_ fun _ he => he
  · exact ewp_mono (ewp_announceStation i) (fun _ t' ht' => ht.trans ht') fun _ he => he
  · exact fun _ s' hs' => ⟨s₁, hs', hs₁⟩

/-- The stations that the command `d` takes the token for. -/
def Named (s : Server) (token : List Char) (p : Nat) : Prop :=
  0 ≤ atoi token ∧ atoi token < s.counter ∧ s.idOf p = atoi token

/-- A token of the command `d` removes the first station that it names, or nothing if there is
none. -/
theorem ewp_deleteToken (h : Stationed s ps) (hl : Lists s q home)
    (hE : ∀ p ∈ ps, (s.list p).counter ≠ (q p).length → E .counter) :
    ewp (deleteToken token) (fun _ s' =>
      (s' = s ∧ ∀ p ∈ ps, ¬ Named s token p) ∨
      ∃ p ∈ ps, Named s token p ∧ Freed s s' ps p (q p)) E s := by
  rw [deleteToken, ewp_bind, ewp_get]
  split
  · rename_i hrange
    refine .inl ⟨rfl, fun p _ hp => ?_⟩
    obtain ⟨hlo, hhi, -⟩ := hp
    omega
  rename_i hrange
  rw [not_or, Int.not_lt, Int.not_le] at hrange
  rw [ewp_bind, ewp_of_ok (h.findStationFromId _)]
  cases hfind : ps.find? fun p => s.idOf p = atoi token with
  | none =>
      refine .inl ⟨rfl, fun p hp hnamed => ?_⟩
      have hne := List.find?_eq_none.mp hfind p hp
      exact hne (decide_eq_true hnamed.2.2)
  | some p =>
      have hp : p ∈ ps := List.mem_of_find?_eq_some hfind
      have hid := List.find?_some hfind
      rw [decide_eq_true_eq] at hid
      refine ewp_mono (ewp_removeStation h hl hp (hE p hp)) ?_ fun _ he => he
      exact fun _ s' hs' => .inr ⟨p, hp, ⟨hrange.1, hrange.2, hid⟩, hs'⟩

/-! ### Song threads -/

/-- The loop over the clients of a station reaches each of them. -/
theorem ewp_playLoop {visit : Clientinfo → ServerM Unit} {fuel : Nat} {t : Server}
    (ht : Quiet s t) (hl : Linked s.nxt l) (hfuel : l.length ≤ fuel)
    (hvisit : ∀ c ∈ l, ∀ t, Quiet s t → ewp (visit (s.gClients c)) (fun _ t' => Quiet s t') E t) :
    ewp (playLoop visit fuel l.head?) (fun r t' => r = l ∧ Quiet s t') E t := by
  induction l generalizing fuel t with
  | nil => cases fuel <;> exact ⟨rfl, ht⟩
  | cons c l ih =>
      obtain ⟨fuel, rfl⟩ := Nat.exists_eq_add_one_of_ne_zero
        (Nat.ne_of_gt (Nat.lt_of_lt_of_le (Nat.succ_pos _) hfuel))
      have hclient : t.gClients c = s.gClients c := by
        obtain ⟨_, _, rfl⟩ := ht
        rfl
      have hnext : (s.gClients c).nextClient = l.head? := hl.1
      change ewp (playLoop visit (fuel + 1) (some c)) _ E t
      rw [playLoop, ewp_bind, ewp_getClient, hclient]
      refine ewp_bind_of (hvisit c List.mem_cons_self t ht) fun _ t₁ ht₁ => ?_
      rw [hnext]
      refine ewp_bind_of (ih ht₁ hl.2 (Nat.le_of_succ_le_succ hfuel)
        fun d hd => hvisit d (List.mem_cons_of_mem c hd)) ?_
      rintro _ t₂ ⟨rfl, ht₂⟩
      exact ⟨rfl, ht₂⟩

end CodingSample.Snowcast
